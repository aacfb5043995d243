import Shimakaze.Config.Programs
import Shimakaze.MultiPort
import Shimakaze.Server
import Shimakaze.SessionEntry
import Shimakaze.Stats

/-!
# The Server

`Server` opens a `UdpListener` for each port of a range. A listener makes a session for each
sender and conversation it hears of, with a transport on its own socket, and starts the streams
that the client opens in it. This module is the faithful layer: every member function of
`server.cpp` under its own name, on the sessions themselves. What a listener does with its table
when a session is no more than an endpoint and an id is the subject of another module, and
`UdpListener.view` is what it sees of a listener here.

A session outlives its entry in the table, because the handlers of its timers hold it. So the
state keeps every session made, and the table maps keys to positions in that list. What is
outside the repository is in the events: what arrives, what KCP outputs and delivers, and the
passing of time. An exception out of a handler ends a run, as it ends the program.

Nothing here depends on what the logger prints, on the options of the sockets, or on the target
beyond the function that starts a stream and whether that throws.

## Main results

* `start_opens_ports`: **`start` opens each port of the range once**, in order, also when the
  range ends with the last port there is.
-/

namespace Shimakaze

/-! ### Data -/

/-- `target_is_unix_`, `target_path_` and `target_address_`. -/
inductive ServerTarget
  | tcp (address : MultiPort)
  | unix (path : String)

/-- How the accept handler starts a stream. -/
def ServerTarget.start : ServerTarget → SmuxStream.Start
  | .tcp _ => .serverTcp
  | .unix _ => .serverUnix

/-- Whether there is an endpoint for the target: the address of a local socket holds a path of
up to 107 bytes. -/
def ServerTarget.Fits : ServerTarget → Prop
  | .tcp _ => True
  | .unix path => path.utf8ByteSize ≤ 107

instance : DecidablePred ServerTarget.Fits
  | .tcp _ => inferInstanceAs (Decidable True)
  | .unix path => inferInstanceAs (Decidable (path.utf8ByteSize ≤ 107))

/-- Whether the accept handler throws while a session goes from one state to another. It is called
for every stream that is made, and `start_server_unix` makes an endpoint of the path. -/
def ServerTarget.Refuses (target : ServerTarget) (before after : SmuxSession) : Prop :=
  ¬ target.Fits ∧ before.objects.length < after.objects.length

instance (target : ServerTarget) (before after : SmuxSession) :
    Decidable (target.Refuses before after) := inferInstanceAs (Decidable (_ ∧ _))

/-- The members of `Server` that its constructor sets for good, and what it calls outside the
repository. -/
structure ServerSetup (Address : Type) where
  lib : ServerLib Address
  prims : QppPrims
  snappy : SnappyLib
  config : ServerConfig
  crypt : PacketCrypt
  listenAddress : MultiPort
  target : ServerTarget

/-- What its sessions are given. -/
def ServerSetup.setting {Address : Type} (setup : ServerSetup Address) : Setting :=
  ⟨setup.config.toBaseConfig, setup.prims, setup.snappy⟩

/-- A session of a listener. The transport is kept with its remote endpoint and the key that its
close handler has captured. -/
structure ServerSession (Address : Type) extends SessionEntry where
  remoteEndpoint : UdpEndpoint Address
  conv : UInt32
  key : String

/-- `Server::UdpListener`, with every session made so far. -/
structure Server.UdpListener (Address : Type) where
  port : UInt16
  entries : List (ServerSession Address) := []
  /-- `sessions_`. -/
  sessions : List (String × ℕ) := []
  /-- The calls of `KcpTransport::input` so far, with the sender of the datagram. -/
  inputs : List (ℕ × UdpEndpoint Address × Bytes) := []

/-- `Server`, with the counters and the clock. -/
structure Server (Address : Type) where
  listeners : List (Server.UdpListener Address) := []
  storage : SnmpStorage := {}
  /-- The steady clock, in nanoseconds. -/
  now : ℕ := 0

namespace Server

variable {Address : Type}

/-! ### A listener -/

namespace UdpListener

variable (listener : UdpListener Address)

/-- A listener whose sessions are an endpoint, an id and a key. -/
def view : Shimakaze.UdpListener Address where
  transports := listener.entries.map fun session =>
    { remoteEndpoint := session.remoteEndpoint, conv := session.conv, key := session.key
      closing := session.closing }
  sessions := listener.sessions
  inputs := listener.inputs.map fun (j, _, packet) => (j, packet)

/-- A new session and its entry. -/
def addSession (session : ServerSession Address) : UdpListener Address :=
  { listener with
    entries := listener.entries ++ [session]
    sessions := listener.sessions ++ [(session.key, listener.entries.length)] }

/-- A session after one of its functions. If that has closed the transport, the close handler has
taken its key out of the table. -/
def put (j : ℕ) (session : ServerSession Address) (entry : SessionEntry) : UdpListener Address :=
  { listener with
    entries := listener.entries.set j { session with toSessionEntry := entry }
    sessions :=
      if !session.closing && entry.closing then
        listener.sessions.filter fun entry => entry.1 ≠ session.key
      else listener.sessions }

end UdpListener

/-! ### The server -/

/-- The ports of a range. -/
def ports (range : MultiPort) : List ℕ :=
  List.range' range.minPort.toNat (range.maxPort.toNat + 1 - range.minPort.toNat)

/-- The constructor. -/
def create (lib : ServerLib Address) (prims : QppPrims) (snappy : SnappyLib)
    (config : ServerConfig) : Except PacketCrypt.Failure (ServerSetup Address) :=
  match PacketCrypt.create lib.crypto config.toBaseConfig with
  | .error failure => throw failure
  | .ok crypt =>
      match parseMultiport config.listen with
      | .error message => throw (.runtimeError message)
      | .ok listenAddress =>
          let setup target : ServerSetup Address :=
            { lib, prims, snappy, config, crypt, listenAddress, target }
          match parseMultiport config.target with
          | .error _ => pure (setup (.unix config.target))
          | .ok targetAddress =>
              if targetAddress.minPort ≠ targetAddress.maxPort then
                throw (.runtimeError "server target must be a single TCP endpoint")
              else pure (setup (.tcp targetAddress))

variable (setup : ServerSetup Address) (server : Server Address)

/-- The loop of `start`, from a port on; `opened` is what `UdpListener::start` throws, if it
does. The port is a 16-bit number, so without the `break` it would start again at 0. -/
def startFrom (opened : UInt16 → Except String Unit) (port : UInt16) (server : Server Address) :
    Except String (Server Address) :=
  if port ≤ setup.listenAddress.maxPort then do
    opened port
    let server := { server with listeners := server.listeners ++ [{ port }] }
    if port = 65535 then return server else startFrom opened (port + 1) server
  else pure server
termination_by 65536 - port.toNat
decreasing_by
  have hlt := port.toNat_lt
  rename_i hlast
  have hne : port.toNat ≠ 65535 := fun heq => hlast (UInt16.toNat_inj.mp heq)
  rw [UInt16.toNat_add, show (1 : UInt16).toNat = 1 from rfl, Nat.mod_eq_of_lt (by omega)]
  omega

/-- `start`. -/
def start (opened : UInt16 → Except String Unit) : Except String (Server Address) :=
  startFrom setup opened setup.listenAddress.minPort server

/-- `snmp_add`. -/
def count (field : SnmpField) (value : UInt64) : Server Address :=
  { server with storage := server.storage.snmpAdd field value }

/-- A session of a listener after one of its functions. A transport that has been closed by it is
counted by the close handler. -/
def put (i : ℕ) (listener : UdpListener Address) (j : ℕ) (session : ServerSession Address)
    (entry : SessionEntry) : Server Address :=
  { server with
    listeners := server.listeners.set i (listener.put j session entry)
    storage :=
      if !session.closing && entry.closing then server.storage.snmpConnectionClose
      else server.storage }

/-- `transport->input`, with what KCP delivers. An exception of the accept handler leaves it; with
compression the session catches it and closes, and that is not followed any further. -/
def input (i : ℕ) (listener : UdpListener Address) (j : ℕ) (sender : UdpEndpoint Address)
    (packet : Bytes) (delivered : List Bytes) : Except PacketCrypt.Failure (Server Address) :=
  match listener.entries[j]? with
  | none => pure server
  | some session =>
      match session.toSessionEntry.input setup.setting server.now packet delivered with
      | .error message => throw (.runtimeError message)
      | .ok entry =>
          if setup.target.Refuses session.smux entry.smux then
            throw (.runtimeError "File name too long")
          else
            pure (server.put i
              { listener with inputs := listener.inputs ++ [(j, sender, packet)] } j session entry)

/-- The session that `handle_packet` makes for a sender and a conversation. -/
def makeSession (sender : UdpEndpoint Address) (conv : UInt32) (key : String) :
    Except PacketCrypt.Failure (ServerSession Address) :=
  match KcpTransport.create setup.lib.crypto setup.lib.ikcpSetmtu setup.config.toBaseConfig with
  | .error failure => throw failure
  | .ok transport =>
      match SmuxSession.launch setup.setting false (some setup.target.start) server.now with
      | .error message => throw (.runtimeError message)
      | .ok smux =>
          pure { transport := { transport }, smux, remoteEndpoint := sender, conv, key }

variable [DecidableEq Address]

/-- `handle_packet`, with the sender and the bytes that were received. -/
def handlePacket (i : ℕ) (listener : UdpListener Address) (sender : UdpEndpoint Address)
    (bytes : Bytes) (delivered : List Bytes) : Except PacketCrypt.Failure (Server Address) :=
  match setup.crypt.decrypt setup.lib.crypto bytes with
  | none => pure (server.count .inCsumErrors 1)
  | some decoded =>
      if decoded.length < 4 then pure (server.count .inCsumErrors 1)
      else
        match fecKcpPayloadOffset decoded with
        | none =>
            match listener.view.findOnly sender listener.sessions none with
            | none => pure server
            | some j => server.input setup i listener j sender decoded delivered
        | some offset =>
            if decoded.length < offset + 4 then pure server
            else
              let conv := setup.lib.ikcpGetconv (decoded.drop offset)
              let key := endpointKey (setup.lib.addressText sender.address) sender.port conv
              match listener.sessions.lookup key with
              | some j => server.input setup i listener j sender decoded delivered
              | none =>
                  match server.makeSession setup sender conv key with
                  | .error failure => throw failure
                  | .ok session =>
                      { server with storage := server.storage.snmpConnectionOpen false }.input
                        setup i (listener.addSession session) listener.entries.length sender decoded
                        delivered

/-! ### Runs -/

/-- What happens to a server. -/
inductive Event (Address : Type)
  /-- A datagram arrives at a listener, and KCP delivers bytes. -/
  | received (i : ℕ) (sender : UdpEndpoint Address) (bytes : Bytes) (delivered : List Bytes)
  /-- A receive fails or is aborted. -/
  | receiveFailed (i : ℕ) (aborted : Bool)
  /-- An event of a session or its transport. -/
  | ran (i j : ℕ) (event : SessionEntry.Event)
  /-- Time passes. -/
  | elapsed (duration : ℕ)

/-- One event. Every listener always waits for a datagram: its handler starts the next receive
whatever has happened. -/
def step : Event Address → Option (Server Address)
  | .received i sender bytes delivered =>
      server.listeners[i]?.bind fun listener =>
        (((server.count .inPkts 1).count .inBytes (UInt64.ofNat bytes.length)).handlePacket setup i
          listener sender bytes delivered).toOption
  | .receiveFailed i aborted =>
      server.listeners[i]?.map fun _ => if aborted then server else server.count .inErrs 1
  | .ran i j event =>
      server.listeners[i]?.bind fun listener =>
        listener.entries[j]?.bind fun session =>
          (session.toSessionEntry.step setup.setting setup.lib.crypto server.now event).bind
            fun entry =>
              if setup.target.Refuses session.smux entry.smux then none
              else some (server.put i listener j session entry)
  | .elapsed duration => some { server with now := server.now + duration }

/-- The server as an event machine. -/
def machine : EventMachine (Server Address) (Event Address) := ⟨fun server => server.step setup⟩

/-! ### Starting -/

omit [DecidableEq Address]

variable {setup server}

/-- A loop from a port on either opens every port up to the last one, or throws what the first
port that cannot be opened throws. -/
theorem startFrom_eq (opened : UInt16 → Except String Unit) (port : UInt16) (n : ℕ)
    (hn : n = setup.listenAddress.maxPort.toNat + 1 - port.toNat) (server : Server Address) :
    startFrom setup opened port server =
      (((List.range' port.toNat n).map UInt16.ofNat).forM opened).map fun _ =>
        { server with
          listeners := server.listeners ++
            (List.range' port.toNat n).map fun k => { port := UInt16.ofNat k } } := by
  induction n generalizing port server with
  | zero =>
      rw [startFrom, if_neg (by rw [UInt16.le_iff_toNat_le]; omega)]
      simp [Except.map, pure, Except.pure]
  | succ n ih =>
      rw [startFrom, if_pos (by rw [UInt16.le_iff_toNat_le]; omega), List.range'_succ,
        List.map_cons, List.map_cons, UInt16.ofNat_toNat, List.forM_eq_forM, List.forM_cons]
      cases hopened : opened port with
      | error message => rfl
      | ok _ =>
          by_cases hlast : port = 65535
          · -- the last port there is: nothing is left of the range
            have hmax := setup.listenAddress.maxPort.toNat_lt
            have hport : port.toNat = 65535 := congrArg UInt16.toNat hlast
            obtain rfl : n = 0 := by omega
            simp [hlast, bind, Except.bind, Except.map, pure, Except.pure]
          · have hnext : (port + 1).toNat = port.toNat + 1 := by
              have hlt := port.toNat_lt
              have hne : port.toNat ≠ 65535 := fun heq => hlast (UInt16.toNat_inj.mp heq)
              rw [UInt16.toNat_add, show (1 : UInt16).toNat = 1 from rfl,
                Nat.mod_eq_of_lt (by omega)]
            have hrest := ih (port + 1) (by omega)
              { server with listeners := server.listeners ++ [{ port }] }
            simp only [bind, Except.bind, if_neg hlast]
            rw [hrest, hnext]
            simp only [List.append_assoc, List.singleton_append, List.forM_eq_forM]

/-- **`start` opens each port of the range once**, in order: it throws what the first port that
cannot be opened throws, and otherwise there is a listener on each port of the range and on no
other one, also when the range ends with the last port there is. -/
theorem start_opens_ports (setup : ServerSetup Address) (opened : UInt16 → Except String Unit)
    (server : Server Address) :
    start setup server opened =
      (((ports setup.listenAddress).map UInt16.ofNat).forM opened).map fun _ =>
        { server with
          listeners := server.listeners ++
            (ports setup.listenAddress).map fun k => { port := UInt16.ofNat k } } :=
  startFrom_eq opened _ _ rfl server

end Server

end Shimakaze
