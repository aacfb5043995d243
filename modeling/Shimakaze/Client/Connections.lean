import Shimakaze.Config.Programs
import Shimakaze.MultiPort
import Shimakaze.Server
import Shimakaze.SessionEntry
import Shimakaze.Stats

/-!
# The Client

`Client` accepts local connections and gives each a stream of one of its sessions, a slot in
turn. A slot whose session is closed, or older than `autoexpire`, gets a new connection: a
socket of its own, a transport under a conversation id that is not in use, and a session. A
timer closes the session once the grace period is over as well. This module is the faithful
layer: every member function of `client.cpp` under its own name.

A connection outlives its slot, because its receive handler and its timer hold it. So the state
keeps every connection made, and slots, timers and the table `transports_` hold positions in
that list. What is outside the repository is in the events: what is drawn and resolved, what
arrives, what KCP outputs and delivers, and the passing of time. An exception out of the
receive handler ends a run; those out of `handle_accept` are caught by it.

Nothing here depends on what the logger prints, on the options of the sockets, or on the kind
of the local address beyond the function that starts a stream.
-/

namespace Shimakaze

/-! ### What is drawn -/

/-- A value of `random_conv`: its distribution starts at 1. -/
def RandomConv : Type := { conv : UInt32 // conv ≠ 0 }

/-- A port of a range. -/
def MultiPort.Port (ports : MultiPort) : Type :=
  { port : UInt16 // ports.minPort ≤ port ∧ port ≤ ports.maxPort }

/-- `choose_port`, with the value of its distribution. -/
def MultiPort.choosePort (ports : MultiPort) (drawn : ports.Port) : UInt16 :=
  if ports.minPort = ports.maxPort then ports.minPort else drawn.1

/-- The port chosen is one of the range. -/
theorem MultiPort.choosePort_mem (ports : MultiPort) (drawn : ports.Port) :
    ports.minPort ≤ ports.choosePort drawn ∧ ports.choosePort drawn ≤ ports.maxPort := by
  rw [choosePort]
  split_ifs with hsingle
  · exact ⟨UInt16.le_refl _, hsingle ▸ UInt16.le_refl _⟩
  · exact drawn.2

/-! ### Data -/

/-- What the client calls outside the repository. -/
structure ClientLib where
  ikcpGetconv : Bytes → UInt32
  ikcpSetmtu : Int32 → Int32
  crypto : CryptoLib
  prims : QppPrims
  snappy : SnappyLib

/-- The members of `Client` that its constructor sets for good. -/
structure ClientSetup where
  lib : ClientLib
  config : ClientConfig
  crypt : PacketCrypt
  remoteAddress : MultiPort

/-- What its sessions are given. -/
def ClientSetup.setting (setup : ClientSetup) : Setting :=
  ⟨setup.config.toBaseConfig, setup.lib.prims, setup.lib.snappy⟩

/-- `Client::Connection`. The transport is kept with its remote endpoint. -/
structure Connection (Address : Type) extends SessionEntry where
  remoteEndpoint : UdpEndpoint Address
  conv : UInt32
  /-- In nanoseconds of the steady clock. -/
  expiry : ℕ
  socketOpen : Bool := true
  /-- The receives that are outstanding. -/
  receives : ℕ := 0
  /-- The calls of `KcpTransport::input` so far, with the sender of the datagram. -/
  inputs : List (UdpEndpoint Address × Bytes) := []
  /-- The last reading of the clock in `ensure_session`, for each stream that was then opened. -/
  opened : List ℕ := []

/-- `Client`, with every connection made so far, the counters and the clock. -/
structure Client (Address : Type) where
  /-- `muxes_`: the slots. -/
  muxes : List (Option ℕ)
  /-- `transports_`. -/
  transports : List (UInt32 × ℕ) := []
  /-- `scavenge_timers_`: the connection each one closes and when it expires. -/
  scavengeTimers : List (ℕ × ℕ) := []
  /-- `rr_`. -/
  rr : UInt64 := 0
  connections : List (Connection Address) := []
  storage : SnmpStorage := {}
  /-- The steady clock, in nanoseconds. -/
  now : ℕ := 0
  /-- The slots that accepted connections were given to. -/
  routed : List ℕ := []

/-- What making a connection draws, resolves, is refused and waits for. -/
structure Dial (Address : Type) (ports : MultiPort) where
  convs : List RandomConv
  port : ports.Port
  /-- What `resolve_udp_endpoint` returns or throws. -/
  resolved : Except String Address
  /-- What opening the socket throws. -/
  socketError : Option String := none
  /-- The time until the session, the expiry and the timer read the clock. -/
  untilSession : ℕ := 0
  untilExpiry : ℕ := 0
  untilTimer : ℕ := 0

variable {Address : Type}

/-! ### A connection -/

namespace Connection

variable (setup : ClientSetup) (c : Connection Address)

/-- The session and the transport after one of their functions. If that has closed the transport,
the close handler has closed the socket. -/
def withEntry (entry : SessionEntry) : Connection Address :=
  { c with
    toSessionEntry := entry
    socketOpen := if !c.closing && entry.closing then false else c.socketOpen }

/-- `transport->input` for the receive handler. -/
def input (now : ℕ) (sender : UdpEndpoint Address) (packet : Bytes) (delivered : List Bytes) :
    Except String (Connection Address) := do
  let entry ← c.toSessionEntry.input setup.setting now packet delivered
  return { c with inputs := c.inputs ++ [(sender, packet)] }.withEntry entry

/-- `start_udp_receive`. -/
def startUdpReceive : Connection Address := { c with receives := c.receives + 1 }

/-- The receive that the handler is called for. -/
def received : Connection Address := { c with receives := c.receives - 1 }

/-- The end of the receive handler. -/
def restart : Connection Address := if c.socketOpen then c.startUdpReceive else c

section Receiving

variable [DecidableEq Address]

/-- The conditions of the receive handler on the packet and its sender. -/
def accepts (sender : UdpEndpoint Address) (decoded : Bytes) : Bool :=
  match fecKcpPayloadOffset decoded with
  | none => c.remoteEndpoint = sender
  | some offset =>
      offset + 4 ≤ decoded.length ∧ setup.lib.ikcpGetconv (decoded.drop offset) = c.conv ∧
        c.remoteEndpoint = sender

/-- The receive handler without an error: whether the datagram counts as damaged, and the
connection. -/
def handleReceive (now : ℕ) (sender : UdpEndpoint Address) (bytes : Bytes)
    (delivered : List Bytes) : Except String (Bool × Connection Address) :=
  let c := c.received
  match setup.crypt.decrypt setup.lib.crypto bytes with
  | none => pure (true, c.startUdpReceive)
  | some decoded =>
      if decoded.length < 4 then pure (true, c.startUdpReceive)
      else if c.accepts setup sender decoded then do
        let c ← c.input setup now sender decoded delivered
        return (false, c.restart)
      else pure (false, c.restart)

end Receiving

end Connection

/-! ### The client -/

namespace Client

variable (setup : ClientSetup) (client : Client Address)

/-- The constructor. -/
def create (lib : ClientLib) (config : ClientConfig) :
    Except PacketCrypt.Failure (ClientSetup × Client Address) :=
  match PacketCrypt.create lib.crypto config.toBaseConfig with
  | .error failure => throw failure
  | .ok crypt =>
      match parseMultiport config.remoteaddr with
      | .error message => throw (.runtimeError message)
      | .ok remoteAddress =>
          let client := { muxes := List.replicate (max 1 config.conn.toInt).toNat none }
          match parseMultiport config.localaddr with
          | .error _ => pure (⟨lib, config, crypt, remoteAddress⟩, client)
          | .ok localAddress =>
              if localAddress.minPort ≠ localAddress.maxPort then
                throw (.runtimeError "client localaddr currently supports a single listen port")
              else pure (⟨lib, config, crypt, remoteAddress⟩, client)

/-- `snmp_add`. -/
def count (field : SnmpField) (value : UInt64) : Client Address :=
  { client with storage := client.storage.snmpAdd field value }

/-- A connection after one of its functions. If that has closed the transport, the close handler
has taken it out of the table and counted it. -/
def put (i : ℕ) (before after : Connection Address) : Client Address :=
  let client := { client with connections := client.connections.set i after }
  if !before.closing && after.closing then
    { client with
      transports := client.transports.filter fun entry => entry.1 ≠ before.conv
      storage := client.storage.snmpConnectionClose }
  else client

/-- `next_conv`; `none` when all ids drawn are in use. -/
def nextConv (convs : List RandomConv) : Option RandomConv :=
  convs.find? fun conv => (client.transports.lookup conv.1).isNone

/-- `pick_remote_endpoint`. -/
def pickRemoteEndpoint (dial : Dial Address setup.remoteAddress) :
    Except String (UdpEndpoint Address) := do
  let address ← dial.resolved
  return ⟨address, setup.remoteAddress.choosePort dial.port⟩

/-- The seconds of `autoexpire` and of the timer, an `int` sum. -/
def expirySeconds : ℕ := (max 0 setup.config.autoexpire.toInt).toNat

/-- The delay of the timer. -/
def scavengeDelay : ℕ :=
  (Int32.ofInt (max 0 setup.config.autoexpire.toInt +
    max 0 setup.config.scavengettl.toInt)).toInt.toNat

/-- `schedule_scavenge`. -/
def scheduleScavenge (i : ℕ) : Client Address :=
  { client with
    scavengeTimers :=
      client.scavengeTimers ++ [(i, client.now + 1000000000 * scavengeDelay setup)] }

/-- The connection that `create_connection` makes. -/
def fresh (conv : UInt32) (remote : UdpEndpoint Address) (transport : KcpTransport)
    (smux : SmuxSession) (dial : Dial Address setup.remoteAddress) : Connection Address :=
  { remoteEndpoint := remote, conv, transport := { transport }, smux
    expiry := client.now + dial.untilExpiry + 1000000000 * expirySeconds setup }

/-- The end of `create_connection`: from now on the connection is in use. -/
def register (conv : UInt32) (remote : UdpEndpoint Address) (transport : KcpTransport)
    (smux : SmuxSession) (dial : Dial Address setup.remoteAddress) : Client Address :=
  let i := client.connections.length
  let c := client.fresh setup conv remote transport smux dial
  let client :=
    { client with
      transports :=
        if (client.transports.lookup conv).isSome then client.transports
        else client.transports ++ [(conv, i)]
      storage := client.storage.snmpConnectionOpen true
      connections := client.connections ++ [c.startUdpReceive]
      now := client.now + dial.untilExpiry + dial.untilTimer }
  if 0 < setup.config.autoexpire then client.scheduleScavenge setup i else client

/-- `create_connection`: the client and the position of the connection, or the exception;
`none` while `next_conv` has not found an id. -/
def createConnection (dial : Dial Address setup.remoteAddress) :
    Option (Except PacketCrypt.Failure (Client Address × ℕ)) :=
  (client.nextConv dial.convs).map fun conv =>
    match pickRemoteEndpoint setup dial with
    | .error message => throw (.runtimeError message)
    | .ok remote =>
        match dial.socketError with
        | some message => throw (.runtimeError message)
        | none =>
            match KcpTransport.create setup.lib.crypto setup.lib.ikcpSetmtu
                setup.config.toBaseConfig with
            | .error failure => throw failure
            | .ok transport =>
                let client := { client with now := client.now + dial.untilSession }
                match SmuxSession.launch setup.setting true none client.now with
                | .error message => throw (.runtimeError message)
                | .ok smux =>
                    pure (client.register setup conv.1 remote transport smux dial,
                      client.connections.length)

/-- Whether `ensure_session` returns the session of the slot. -/
def reusable (c : Connection Address) : Bool :=
  !c.smux.closed && !(0 < setup.config.autoexpire && c.expiry ≤ client.now)

/-- `ensure_session`. -/
def ensureSession (index : ℕ) (dial : Dial Address setup.remoteAddress) :
    Option (Except PacketCrypt.Failure (Client Address × ℕ)) :=
  let current := client.muxes[index]?.join.filter fun i =>
    client.connections[i]?.any (client.reusable setup)
  match current with
  | some i => some (pure (client, i))
  | none =>
      (client.createConnection setup dial).map fun created => do
        let (client, i) ← created
        return ({ client with muxes := client.muxes.set index (some i) }, i)

/-- `smux->open_stream()` and `stream->start_client`. -/
def openStream (unix : Bool) (i : ℕ) (c : Connection Address) : Client Address :=
  match c.smux.openStream setup.setting with
  | .error _ => client
  | .ok (smux, index) =>
      let kind := if unix then SmuxStream.Start.clientUnix else .clientTcp
      let smux := smux.onObject setup.setting index fun stream => (stream.start kind).quiet
      client.put i c
        { c.withEntry (c.withSmux smux) with opened := c.opened ++ [client.now] }

/-- `handle_accept`, for both kinds of sockets. No time passes in it but in `create_connection`:
`open_stream` is called at the last reading of the clock. -/
def handleAccept (unix : Bool) (dial : Dial Address setup.remoteAddress) :
    Option (Client Address) :=
  let index := client.rr.toNat % client.muxes.length
  let client := { client with rr := client.rr + 1, routed := client.routed ++ [index] }
  (client.ensureSession setup index dial).map fun
    | .error _ => client
    | .ok (client, i) => client.connections[i]?.elim client (client.openStream setup unix i)

/-- The handler of a timer of `schedule_scavenge`. -/
def scavenge (position : ℕ) (i : ℕ) (error : Bool) : Client Address :=
  let client := { client with scavengeTimers := client.scavengeTimers.eraseIdx position }
  if error then client
  else
    client.connections[i]?.elim client fun c =>
      client.put i c (c.withEntry (c.withSmux (c.smux.close setup.setting)))

/-! ### Runs -/

/-- What happens to a client. -/
inductive Event (Address : Type) (ports : MultiPort)
  /-- A local connection is accepted. -/
  | accepted (unix : Bool) (dial : Dial Address ports)
  /-- A datagram arrives, and KCP delivers bytes. -/
  | received (i : ℕ) (sender : UdpEndpoint Address) (bytes : Bytes) (delivered : List Bytes)
  /-- A receive fails or is aborted. -/
  | receiveFailed (i : ℕ) (aborted : Bool)
  /-- An event of a session or its transport. -/
  | ran (i : ℕ) (event : SessionEntry.Event)
  /-- A timer of `schedule_scavenge` expires or is cancelled. -/
  | scavenged (position : ℕ) (error : Bool)
  /-- Time passes. -/
  | elapsed (duration : ℕ)

/-- What a function of a connection comes to, if it can be called. -/
def run (i : ℕ) (function : Connection Address → Option (Connection Address)) :
    Option (Client Address) :=
  client.connections[i]?.bind fun c => (function c).map (client.put i c)

variable [DecidableEq Address]

/-- A receive handler with an error. -/
def receiveFailed (i : ℕ) (aborted : Bool) : Option (Client Address) :=
  (if aborted then client else client.count .inErrs 1).run i fun c =>
    if c.receives = 0 then none else some c.received.restart

/-- A receive handler without an error. -/
def receive (i : ℕ) (sender : UdpEndpoint Address) (bytes : Bytes) (delivered : List Bytes) :
    Option (Client Address) :=
  let client := (client.count .inPkts 1).count .inBytes (UInt64.ofNat bytes.length)
  client.connections[i]?.bind fun c =>
    if c.receives = 0 then none
    else
      match c.handleReceive setup client.now sender bytes delivered with
      | .error _ => none
      | .ok (damaged, after) =>
          some ((if damaged then client.count .inCsumErrors 1 else client).put i c after)

/-- One event. A receive handler runs only for a receive that is outstanding; a timer of
`schedule_scavenge` does not expire early. -/
def step : Event Address setup.remoteAddress → Option (Client Address)
  | .accepted unix dial => client.handleAccept setup unix dial
  | .received i sender bytes delivered => client.receive setup i sender bytes delivered
  | .receiveFailed i aborted => client.receiveFailed i aborted
  | .ran i event =>
      client.run i fun c =>
        (c.toSessionEntry.step setup.setting setup.lib.crypto client.now event).map c.withEntry
  | .scavenged position error =>
      client.scavengeTimers[position]?.bind fun timer =>
        if error ∨ timer.2 ≤ client.now then some (client.scavenge setup position timer.1 error)
        else none
  | .elapsed duration => some { client with now := client.now + duration }

/-- The client as an event machine. -/
def machine : EventMachine (Client Address) (Event Address setup.remoteAddress) :=
  ⟨fun client => client.step setup⟩

end Client

end Shimakaze
