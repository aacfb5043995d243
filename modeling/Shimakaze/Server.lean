import Shimakaze.KcpTransport
import Shimakaze.Lib.Registry

/-!
# The Sessions of a Listener

`Server::UdpListener` gives every datagram to at most one transport. A data packet carries a
conversation id, and with the sender's endpoint this makes the key of a session, which is made
when it is not there yet. A parity packet carries none; it goes to the session of its sender
if there is only one. A session takes its own entry out, by key, when its transport closes,
which may happen at any time, also while the transport takes in a datagram.

What a transport and its `SmuxSession` do with a datagram is the subject of other modules;
here a transport is an endpoint and a conversation id.

## Main results

* `endpointKey_injective`: the key determines the address text, the port and the id, whatever
  the text is.
* `UdpListener.ListenerInv.handlePacket`: one datagram.
* `UdpListener.sessions_isolated`: **in every run, sessions are unique for their sender and
  conversation, and datagrams reach no other session.**
-/

namespace Shimakaze

/-! ### The key of a session -/

/-- `endpoint_key`, on the text of the address. -/
def endpointKey (text : String) (port : UInt16) (conv : UInt32) : String :=
  text ++ ":" ++ port.toNat.repr ++ "#" ++ conv.toNat.repr

/-- The last separator splits a list in one way only. -/
theorem append_cons_inj_of_notMem_suffix {α : Type*} {x y u v : List α} {s : α} (hu : s ∉ u)
    (hv : s ∉ v) (h : x ++ s :: u = y ++ s :: v) : x = y ∧ u = v := by
  rcases List.append_eq_append_iff.mp h with ⟨c, rfl, hc⟩ | ⟨c, rfl, hc⟩
  · cases c with
    | nil => exact ⟨(List.append_nil x).symm, (List.cons.inj hc).2⟩
    | cons a c =>
        rw [List.cons_append] at hc
        exact absurd (List.mem_append_right c List.mem_cons_self) ((List.cons.inj hc).2 ▸ hu)
  · cases c with
    | nil => exact ⟨List.append_nil y, (List.cons.inj hc).2.symm⟩
    | cons a c =>
        rw [List.cons_append] at hc
        exact absurd (List.mem_append_right c List.mem_cons_self) ((List.cons.inj hc).2 ▸ hv)

/-- Numbers are written with digits. -/
theorem notMem_toDigits {c : Char} (hc : c.isDigit = false) (n : ℕ) : c ∉ Nat.toDigits 10 n :=
  fun hmem => by
    rw [Nat.isDigit_of_mem_toDigits (by decide) (by decide) hmem] at hc
    cases hc

theorem toDigits_injective {m n : ℕ} (h : Nat.toDigits 10 m = Nat.toDigits 10 n) : m = n := by
  rw [← Nat.ofDigitChars_ten_toDigits (n := m), h, Nat.ofDigitChars_ten_toDigits]

/-- **The key determines its parts**: whatever the address text, the last `#` and the last `:`
before it are the separators. -/
theorem endpointKey_injective {text text' : String} {port port' : UInt16} {conv conv' : UInt32}
    (h : endpointKey text port conv = endpointKey text' port' conv') :
    text = text' ∧ port = port' ∧ conv = conv' := by
  have hlist : (text.toList ++ ':' :: Nat.toDigits 10 port.toNat) ++
      '#' :: Nat.toDigits 10 conv.toNat =
        (text'.toList ++ ':' :: Nat.toDigits 10 port'.toNat) ++
          '#' :: Nat.toDigits 10 conv'.toNat := by
    have hchars := congrArg String.toList h
    simp only [endpointKey, String.toList_append, Nat.toList_repr] at hchars
    rw [show (":" : String).toList = [':'] from rfl, show ("#" : String).toList = ['#'] from rfl]
      at hchars
    simpa only [List.append_assoc, List.cons_append, List.nil_append] using hchars
  obtain ⟨haddress, hconv⟩ := append_cons_inj_of_notMem_suffix (notMem_toDigits rfl _)
    (notMem_toDigits rfl _) hlist
  obtain ⟨htext, hport⟩ := append_cons_inj_of_notMem_suffix (notMem_toDigits rfl _)
    (notMem_toDigits rfl _) haddress
  exact ⟨String.toList_inj.mp htext, UInt16.toNat_inj.mp (toDigits_injective hport),
    UInt32.toNat_inj.mp (toDigits_injective hconv)⟩

/-! ### The listener -/

/-- `fec_kcp_payload_offset`. -/
def fecKcpPayloadOffset (packet : Bytes) : Option ℕ :=
  if packet.length < fecHeaderSizePlusSize then some 0
  else
    let flag := packetFlag packet
    if flag = fecTypeData ∨ flag = fecTypeOob then some fecHeaderSizePlusSize
    else if flag = fecTypeParity then none
    else some 0

/-- `udp::endpoint`. -/
@[ext]
structure UdpEndpoint (Address : Type) where
  address : Address
  port : UInt16
  deriving DecidableEq

/-- What the listener calls outside the repository: `address::to_string` of the network
library, `ikcp_getconv` and `ikcp_setmtu` of KCP, and the cryptographic library. -/
structure ServerLib (Address : Type) where
  addressText : Address → String
  ikcpGetconv : Bytes → UInt32
  ikcpSetmtu : Int32 → Int32
  crypto : CryptoLib

/-- Different addresses are written differently, and the conversation id of a KCP packet is
its first four bytes, the least significant first. -/
structure ServerLib.Lawful {Address : Type} (lib : ServerLib Address) : Prop where
  addressText_injective : Function.Injective lib.addressText
  getconv_eq : ∀ packet : Bytes, 4 ≤ packet.length → lib.ikcpGetconv packet = readLe32 packet

/-- The transport of a session, with the key its close handler has captured. -/
structure PeerTransport (Address : Type) where
  remoteEndpoint : UdpEndpoint Address
  conv : UInt32
  key : String
  closing : Bool := false

/-- `Server::UdpListener`: all transports made so far, the table `sessions_` of those in use,
and the calls of `KcpTransport::input` so far. -/
structure UdpListener (Address : Type) where
  transports : List (PeerTransport Address) := []
  sessions : List (String × ℕ) := []
  inputs : List (ℕ × Bytes) := []

namespace UdpListener

variable {Address : Type}

section Handling

variable [DecidableEq Address]

/-- The loop over the sessions that looks for the only one of a sender. -/
def findOnly (listener : UdpListener Address) (sender : UdpEndpoint Address) :
    List (String × ℕ) → Option ℕ → Option ℕ
  | [], target => target
  | (_, index) :: entries, target =>
      if (listener.transports[index]?.map PeerTransport.remoteEndpoint) = some sender then
        match target with
        | some _ => none
        | none => listener.findOnly sender entries (some index)
      else listener.findOnly sender entries target

/-- `transport->input`. -/
def input (listener : UdpListener Address) (index : ℕ) (packet : Bytes) : UdpListener Address :=
  { listener with inputs := listener.inputs ++ [(index, packet)] }

/-- A new session and its entry. -/
def addSession (listener : UdpListener Address) (transport : PeerTransport Address) :
    UdpListener Address :=
  { listener with
    transports := listener.transports ++ [transport]
    sessions := listener.sessions ++ [(transport.key, listener.transports.length)] }

/-- `handle_packet`, with the sender and the bytes that were received. An exception out of the
constructor of the transport leaves it. -/
def handlePacket (lib : ServerLib Address) (config : BaseConfig) (crypt : PacketCrypt)
    (listener : UdpListener Address) (sender : UdpEndpoint Address) (bytes : Bytes) :
    Except PacketCrypt.Failure (UdpListener Address) :=
  match crypt.decrypt lib.crypto bytes with
  | none => pure listener
  | some decoded =>
      if decoded.length < 4 then pure listener
      else
        match fecKcpPayloadOffset decoded with
        | none =>
            match listener.findOnly sender listener.sessions none with
            | none => pure listener
            | some index => pure (listener.input index decoded)
        | some offset =>
            if decoded.length < offset + 4 then pure listener
            else
              let conv := lib.ikcpGetconv (decoded.drop offset)
              let key := endpointKey (lib.addressText sender.address) sender.port conv
              match listener.sessions.lookup key with
              | some index => pure (listener.input index decoded)
              | none =>
                  match KcpTransport.create lib.crypto lib.ikcpSetmtu config with
                  | .error failure => throw failure
                  | .ok _ =>
                      pure ((listener.addSession { remoteEndpoint := sender, conv, key }).input
                        listener.transports.length decoded)

/-- `KcpTransport::close` with the close handler of the listener. -/
def close (listener : UdpListener Address) (index : ℕ) : UdpListener Address :=
  match listener.transports[index]? with
  | none => listener
  | some transport =>
      if transport.closing then listener
      else
        { listener with
          transports := listener.transports.set index { transport with closing := true }
          sessions := listener.sessions.filter fun entry => entry.1 ≠ transport.key }

/-! ### Runs -/

/-- What happens to a listener. -/
inductive Event (Address : Type)
  /-- A datagram arrives, and while a transport takes it in, some transports close. -/
  | datagram (sender : UdpEndpoint Address) (bytes : Bytes) (closed : List ℕ)
  /-- A transport closes. -/
  | closed (index : ℕ)

/-- One event. -/
def step (lib : ServerLib Address) (config : BaseConfig) (crypt : PacketCrypt)
    (listener : UdpListener Address) : Event Address → Option (UdpListener Address)
  | .datagram sender bytes closed =>
      match listener.handlePacket lib config crypt sender bytes with
      | .error _ => none
      | .ok after => some (closed.foldl close after)
  | .closed index => some (listener.close index)

/-- The listener as an event machine. -/
def machine (lib : ServerLib Address) (config : BaseConfig) (crypt : PacketCrypt) :
    EventMachine (UdpListener Address) (Event Address) := ⟨step lib config crypt⟩

end Handling

/-! ### What a listener keeps -/

variable {lib : ServerLib Address} {config : BaseConfig} {crypt : PacketCrypt}
  {listener after : UdpListener Address} {sender : UdpEndpoint Address}

/-- The table holds the sessions in use, each under the key of its sender and conversation. -/
structure ListenerInv (lib : ServerLib Address) (listener : UdpListener Address) : Prop where
  exact : Registry.Exact PeerTransport.key (fun transport => !transport.closing)
    listener.sessions listener.transports
  keyed : ∀ (i : ℕ) (transport : PeerTransport Address),
    listener.transports[i]? = some transport → transport.key =
      endpointKey (lib.addressText transport.remoteEndpoint.address)
        transport.remoteEndpoint.port transport.conv

/-- A listener that has just started. -/
theorem ListenerInv.init : ListenerInv lib ({} : UdpListener Address) where
  exact := .nil _ _
  keyed i transport h := absurd h (by simp)

/-- **At most one session** for a sender and a conversation. -/
theorem ListenerInv.unique (h : ListenerInv lib listener) {i j : ℕ}
    {s t : PeerTransport Address} (hs : listener.transports[i]? = some s)
    (ht : listener.transports[j]? = some t) (hsOpen : s.closing = false)
    (htOpen : t.closing = false) (hsender : s.remoteEndpoint = t.remoteEndpoint)
    (hconv : s.conv = t.conv) : i = j := by
  have hkey : s.key = t.key := by rw [h.keyed i s hs, h.keyed j t ht, hsender, hconv]
  have hi := h.exact.registered i s hs (by simpa using hsOpen)
  have hj := h.exact.registered j t ht (by simpa using htOpen)
  rw [hkey, hj] at hi
  exact (Option.some.inj hi).symm

/-- Closing a transport takes out its own entry. -/
theorem ListenerInv.close (h : ListenerInv lib listener) (index : ℕ) :
    ListenerInv lib (listener.close index) := by
  rw [UdpListener.close]
  cases htransport : listener.transports[index]? with
  | none => exact h
  | some transport =>
      dsimp only
      by_cases hclosing : transport.closing = true
      · rw [if_pos hclosing]
        exact h
      · rw [if_neg hclosing]
        refine ⟨h.exact.retire htransport (by simpa using hclosing) rfl, fun i t ht => ?_⟩
        rcases (Registry.getElem?_set_eq_some htransport).mp ht with ⟨-, rfl⟩ | ⟨-, ht⟩
        · exact h.keyed index transport htransport
        · exact h.keyed i t ht

theorem ListenerInv.closeAll (h : ListenerInv lib listener) (closed : List ℕ) :
    ListenerInv lib (closed.foldl UdpListener.close listener) := by
  induction closed generalizing listener with
  | nil => exact h
  | cons index closed ih => exact ih (h.close index)

/-- A new session, under a key that is not in use. -/
theorem ListenerInv.addSession (h : ListenerInv lib listener) (conv : UInt32)
    (hfree : listener.sessions.lookup
      (endpointKey (lib.addressText sender.address) sender.port conv) = none) :
    ListenerInv lib (listener.addSession
      { remoteEndpoint := sender, conv,
        key := endpointKey (lib.addressText sender.address) sender.port conv }) := by
  refine ⟨h.exact.add rfl hfree, fun i t ht => ?_⟩
  rw [UdpListener.addSession] at ht
  rcases Nat.lt_trichotomy i listener.transports.length with hlt | rfl | hgt
  · rw [List.getElem?_append_left hlt] at ht
    exact h.keyed i t ht
  · rw [List.getElem?_concat_length] at ht
    obtain rfl := Option.some.inj ht
    rfl
  · rw [List.getElem?_eq_none (by rw [List.length_append, List.length_singleton]; omega)] at ht
    cases ht

/-- An input changes no session. -/
theorem ListenerInv.input (h : ListenerInv lib listener) (index : ℕ) (packet : Bytes) :
    ListenerInv lib (listener.input index packet) := ⟨h.exact, h.keyed⟩

/-! ### One datagram -/

variable [DecidableEq Address]

/-- The loop with a session found already: it is the result if no other follows. -/
theorem findOnly_some {entries : List (String × ℕ)} {found index : ℕ}
    (h : listener.findOnly sender entries (some found) = some index) :
    index = found ∧ ∀ entry ∈ entries,
      (listener.transports[entry.2]?.map PeerTransport.remoteEndpoint) ≠ some sender := by
  induction entries with
  | nil => exact ⟨(Option.some.inj h).symm, fun entry hentry => absurd hentry List.not_mem_nil⟩
  | cons entry entries ih =>
      rw [findOnly] at h
      split at h
      · cases h
      · rename_i hother
        obtain ⟨hindex, hrest⟩ := ih h
        exact ⟨hindex, List.forall_mem_cons.mpr ⟨hother, hrest⟩⟩

/-- **The loop finds the only session of a sender**, or none. -/
theorem findOnly_none {entries : List (String × ℕ)} {index : ℕ}
    (h : listener.findOnly sender entries none = some index) :
    (∃ key, (key, index) ∈ entries) ∧
      (listener.transports[index]?.map PeerTransport.remoteEndpoint) = some sender ∧
      ∀ entry ∈ entries, (listener.transports[entry.2]?.map PeerTransport.remoteEndpoint) =
        some sender → entry.2 = index := by
  induction entries with
  | nil => cases h
  | cons entry entries ih =>
      obtain ⟨key, first⟩ := entry
      rw [findOnly] at h
      split at h
      · rename_i hfirst
        obtain ⟨rfl, hrest⟩ := findOnly_some h
        refine ⟨⟨key, List.mem_cons_self⟩, hfirst, fun entry hentry hsame => ?_⟩
        rcases List.mem_cons.mp hentry with rfl | hentry
        · rfl
        · exact absurd hsame (hrest entry hentry)
      · rename_i hother
        obtain ⟨⟨key', hmem⟩, hsame, hrest⟩ := ih h
        refine ⟨⟨key', List.mem_cons_of_mem _ hmem⟩, hsame, fun entry hentry hmatch => ?_⟩
        rcases List.mem_cons.mp hentry with rfl | hentry
        · exact absurd hmatch hother
        · exact hrest entry hentry hmatch

/-- Session `index` is the right one for a datagram: it is in use and its remote endpoint is
the sender; for a packet that is not parity its conversation id is the one at the payload
offset, and for a parity packet it is the only session of the sender. -/
structure Rightful (listener : UdpListener Address) (sender : UdpEndpoint Address)
    (decoded : Bytes) (index : ℕ) : Prop where
  session : ∃ transport, listener.transports[index]? = some transport ∧
    transport.closing = false ∧ transport.remoteEndpoint = sender ∧
    ∀ offset, fecKcpPayloadOffset decoded = some offset →
      offset + 4 ≤ decoded.length ∧ transport.conv = readLe32 (decoded.drop offset)
  parity : fecKcpPayloadOffset decoded = none → ∀ (j : ℕ) (transport : PeerTransport Address),
    listener.transports[j]? = some transport → transport.closing = false →
    transport.remoteEndpoint = sender → j = index

omit [DecidableEq Address] in
/-- The session that a KCP packet names is rightful. -/
theorem Rightful.of_conv {decoded : Bytes} {offset index : ℕ}
    {transport : PeerTransport Address} (hoffset : fecKcpPayloadOffset decoded = some offset)
    (hroom : offset + 4 ≤ decoded.length)
    (htransport : listener.transports[index]? = some transport)
    (hopen : transport.closing = false) (hsender : transport.remoteEndpoint = sender)
    (hconv : transport.conv = readLe32 (decoded.drop offset)) :
    Rightful listener sender decoded index where
  session := by
    refine ⟨transport, htransport, hopen, hsender, fun offset' hsome => ?_⟩
    obtain rfl := Option.some.inj (hoffset.symm.trans hsome)
    exact ⟨hroom, hconv⟩
  parity hnone := by
    rw [hoffset] at hnone
    cases hnone

/-- The only session of the sender is rightful for a parity packet. -/
theorem ListenerInv.rightful_only (h : ListenerInv lib listener) {decoded : Bytes} {index : ℕ}
    (hoffset : fecKcpPayloadOffset decoded = none)
    (hfind : listener.findOnly sender listener.sessions none = some index) :
    Rightful listener sender decoded index := by
  obtain ⟨⟨key, hmem⟩, hsame, honly⟩ := findOnly_none hfind
  obtain ⟨transport, htransport, -, hopen⟩ := h.exact.sound _ hmem
  rw [htransport, Option.map_some, Option.some_inj] at hsame
  constructor
  · refine ⟨transport, htransport, by simpa using hopen, hsame, fun offset hsome => ?_⟩
    rw [hoffset] at hsome
    cases hsome
  · intro _ j other hother hotherOpen hotherSame
    have hreg := h.exact.registered j other hother (by simpa using hotherOpen)
    refine honly _ (Registry.mem_of_lookup hreg) ?_
    have hget : listener.transports[j]? = some other := hother
    rw [hget, Option.map_some, hotherSame]

omit [DecidableEq Address] in
/-- The session under the key of a sender and a conversation is theirs. -/
theorem ListenerInv.rightful_known (h : ListenerInv lib listener) (hlib : lib.Lawful)
    {decoded : Bytes} {offset index : ℕ} (hoffset : fecKcpPayloadOffset decoded = some offset)
    (hroom : offset + 4 ≤ decoded.length)
    (hlookup : listener.sessions.lookup (endpointKey (lib.addressText sender.address) sender.port
      (readLe32 (decoded.drop offset))) = some index) :
    Rightful listener sender decoded index := by
  obtain ⟨transport, htransport, hkey, hopen⟩ :=
    h.exact.sound _ (Registry.mem_of_lookup hlookup)
  rw [h.keyed index transport htransport] at hkey
  obtain ⟨haddress, hport, hconv⟩ := endpointKey_injective hkey
  exact .of_conv hoffset hroom htransport (by simpa using hopen)
    (UdpEndpoint.ext (hlib.addressText_injective haddress) hport) hconv

/-- **What one datagram does**, if it does not throw: nothing; or it goes to the only session of
its sender, or to the session under its key, or to a new one. -/
theorem handlePacket_cases (hlib : lib.Lawful) {bytes : Bytes}
    (hok : listener.handlePacket lib config crypt sender bytes = .ok after) :
    after = listener ∨ ∃ decoded, crypt.decrypt lib.crypto bytes = some decoded ∧
      ((∃ index, fecKcpPayloadOffset decoded = none ∧
          listener.findOnly sender listener.sessions none = some index ∧
          after = listener.input index decoded) ∨
        ∃ offset, fecKcpPayloadOffset decoded = some offset ∧ offset + 4 ≤ decoded.length ∧
          let conv := readLe32 (decoded.drop offset)
          let key := endpointKey (lib.addressText sender.address) sender.port conv
          (∃ index, listener.sessions.lookup key = some index ∧
            after = listener.input index decoded) ∨
          listener.sessions.lookup key = none ∧
            after = (listener.addSession { remoteEndpoint := sender, conv, key }).input
              listener.transports.length decoded) := by
  rw [UdpListener.handlePacket] at hok
  cases hdecrypt : crypt.decrypt lib.crypto bytes with
  | none =>
      rw [hdecrypt] at hok
      exact .inl (Except.ok.inj hok).symm
  | some decoded =>
      rw [hdecrypt] at hok
      dsimp only at hok
      by_cases hshort : decoded.length < 4
      · rw [if_pos hshort] at hok
        exact .inl (Except.ok.inj hok).symm
      rw [if_neg hshort] at hok
      cases hoffset : fecKcpPayloadOffset decoded with
      | none =>
          rw [hoffset] at hok
          dsimp only at hok
          cases hfind : listener.findOnly sender listener.sessions none with
          | none =>
              rw [hfind] at hok
              exact .inl (Except.ok.inj hok).symm
          | some index =>
              rw [hfind] at hok
              exact .inr ⟨decoded, rfl, .inl ⟨index, hoffset, rfl, (Except.ok.inj hok).symm⟩⟩
      | some offset =>
          rw [hoffset] at hok
          dsimp only at hok
          by_cases hcut : decoded.length < offset + 4
          · rw [if_pos hcut] at hok
            exact .inl (Except.ok.inj hok).symm
          rw [if_neg hcut, hlib.getconv_eq _ (by rw [List.length_drop]; omega)] at hok
          refine .inr ⟨decoded, rfl, .inr ⟨offset, hoffset, not_lt.mp hcut, ?_⟩⟩
          cases hlookup : listener.sessions.lookup (endpointKey
              (lib.addressText sender.address) sender.port (readLe32 (decoded.drop offset))) with
          | some index =>
              rw [hlookup] at hok
              exact .inl ⟨index, hlookup, (Except.ok.inj hok).symm⟩
          | none =>
              rw [hlookup] at hok
              dsimp only at hok
              cases hcreate : KcpTransport.create lib.crypto lib.ikcpSetmtu config with
              | error failure =>
                  rw [hcreate] at hok
                  cases hok
              | ok transport =>
                  rw [hcreate] at hok
                  exact .inr ⟨hlookup, (Except.ok.inj hok).symm⟩

/-- **One datagram** goes to no transport, or to one that is rightful. -/
theorem ListenerInv.handlePacket (h : ListenerInv lib listener) (hlib : lib.Lawful)
    {bytes : Bytes} (hok : listener.handlePacket lib config crypt sender bytes = .ok after) :
    ListenerInv lib after ∧ (after = listener ∨ ∃ decoded index,
      crypt.decrypt lib.crypto bytes = some decoded ∧
        after.inputs = listener.inputs ++ [(index, decoded)] ∧
        Rightful after sender decoded index) := by
  rcases handlePacket_cases hlib hok with rfl | ⟨decoded, hdecrypt, hcase⟩
  · exact ⟨h, .inl rfl⟩
  rcases hcase with ⟨index, hoffset, hfind, rfl⟩ | ⟨offset, hoffset, hroom, hcase⟩
  · have hright := h.rightful_only hoffset hfind
    exact ⟨h.input index decoded, .inr ⟨decoded, index, hdecrypt, rfl, ⟨hright.1, hright.2⟩⟩⟩
  rcases hcase with ⟨index, hlookup, rfl⟩ | ⟨hlookup, rfl⟩
  · have hright := h.rightful_known hlib hoffset hroom hlookup
    exact ⟨h.input index decoded, .inr ⟨decoded, index, hdecrypt, rfl, ⟨hright.1, hright.2⟩⟩⟩
  · exact ⟨(h.addSession _ hlookup).input _ decoded, .inr ⟨decoded, listener.transports.length,
      hdecrypt, rfl, .of_conv hoffset hroom List.getElem?_concat_length rfl rfl rfl⟩⟩

/-- **One event** keeps the table. -/
theorem ListenerInv.step (h : ListenerInv lib listener) (hlib : lib.Lawful)
    {event : Event Address} (hstep : listener.step lib config crypt event = some after) :
    ListenerInv lib after := by
  cases event with
  | datagram sender bytes closed =>
      rw [UdpListener.step] at hstep
      cases hhandle : listener.handlePacket lib config crypt sender bytes with
      | error failure =>
          rw [hhandle] at hstep
          cases hstep
      | ok next =>
          rw [hhandle] at hstep
          obtain rfl := Option.some.inj hstep
          exact (h.handlePacket hlib hhandle).1.closeAll closed
  | closed index =>
      obtain rfl := Option.some.inj hstep
      exact h.close index

/-- **Sessions are isolated.** After any datagrams from any senders and any closures, there is
at most one session for a sender and a conversation, and the next datagram changes nothing or
is given to one transport, which is rightful. The keys of different triples are different. -/
theorem sessions_isolated (lib : ServerLib Address) (hlib : lib.Lawful) (config : BaseConfig)
    (crypt : PacketCrypt) (events : List (Event Address)) (listener : UdpListener Address)
    (hrun : (machine lib config crypt).run {} events = some listener) :
    (∀ (i j : ℕ) (s t : PeerTransport Address), listener.transports[i]? = some s →
      listener.transports[j]? = some t → s.closing = false → t.closing = false →
      s.remoteEndpoint = t.remoteEndpoint → s.conv = t.conv → i = j) ∧
    (∀ sender bytes after, listener.handlePacket lib config crypt sender bytes = .ok after →
      after = listener ∨ ∃ decoded index, crypt.decrypt lib.crypto bytes = some decoded ∧
        after.inputs = listener.inputs ++ [(index, decoded)] ∧
        Rightful after sender decoded index) ∧
    ∀ text port conv text' port' conv',
      endpointKey text port conv = endpointKey text' port' conv' →
        (text, port, conv) = (text', port', conv') := by
  have hinv : ListenerInv lib listener :=
    EventMachine.run_invariant (fun _ _ _ h hstep => h.step hlib hstep) .init hrun
  refine ⟨fun i j s t hs ht => hinv.unique hs ht, fun sender bytes after hok =>
    (hinv.handlePacket hlib hok).2, fun text port conv text' port' conv' hkey => ?_⟩
  obtain ⟨rfl, rfl, rfl⟩ := endpointKey_injective hkey
  rfl

/-- Two senders with conversation 1: each has its own session. A parity packet goes to the only
session of its sender and, once the second sender has two, to none of them. The first session is
closed while it takes in its last packet. -/
theorem two_senders_isolated :
    ∃ crypt listener, PacketCrypt.create PacketCrypt.withoutLibrary
        { crypt := "null", datashard := 0, parityshard := 0 } = .ok crypt ∧
      (machine { addressText := id, ikcpGetconv := readLe32, ikcpSetmtu := fun _ => 0,
                 crypto := PacketCrypt.withoutLibrary }
          { crypt := "null", datashard := 0, parityshard := 0 } crypt).run {}
        [.datagram ⟨"10.0.0.1", 4000⟩ [1, 0, 0, 0] [],
          .datagram ⟨"10.0.0.2", 4000⟩ [1, 0, 0, 0, 5] [],
          .datagram ⟨"10.0.0.1", 4000⟩ [9, 0, 0, 0, 0xf2, 0, 7, 7] [],
          .datagram ⟨"10.0.0.2", 4000⟩ [2, 0, 0, 0] [],
          .datagram ⟨"10.0.0.2", 4000⟩ [9, 0, 0, 0, 0xf2, 0, 7, 7] [],
          .datagram ⟨"10.0.0.1", 4000⟩ [1, 0, 0, 0, 6] [0]] = some listener ∧
      listener.inputs = [(0, [1, 0, 0, 0]), (1, [1, 0, 0, 0, 5]),
        (0, [9, 0, 0, 0, 0xf2, 0, 7, 7]), (2, [2, 0, 0, 0]), (0, [1, 0, 0, 0, 6])] ∧
      listener.sessions = [("10.0.0.2:4000#1", 1), ("10.0.0.2:4000#2", 2)] ∧
      ∀ (i j : ℕ) (s t : PeerTransport String), listener.transports[i]? = some s →
        listener.transports[j]? = some t → s.closing = false → t.closing = false →
        s.remoteEndpoint = t.remoteEndpoint → s.conv = t.conv → i = j := by
  obtain ⟨crypt, hcreate⟩ : ∃ crypt, PacketCrypt.create PacketCrypt.withoutLibrary
      { crypt := "null", datashard := 0, parityshard := 0 } = .ok crypt := ⟨_, rfl⟩
  have hcrypt := (Except.ok.inj hcreate).symm
  have hrun : ((machine
      { addressText := id, ikcpGetconv := readLe32, ikcpSetmtu := fun _ => 0,
        crypto := PacketCrypt.withoutLibrary }
      { crypt := "null", datashard := 0, parityshard := 0 } crypt).run {}
      [.datagram ⟨"10.0.0.1", 4000⟩ [1, 0, 0, 0] [],
        .datagram ⟨"10.0.0.2", 4000⟩ [1, 0, 0, 0, 5] [],
        .datagram ⟨"10.0.0.1", 4000⟩ [9, 0, 0, 0, 0xf2, 0, 7, 7] [],
        .datagram ⟨"10.0.0.2", 4000⟩ [2, 0, 0, 0] [],
        .datagram ⟨"10.0.0.2", 4000⟩ [9, 0, 0, 0, 0xf2, 0, 7, 7] [],
        .datagram ⟨"10.0.0.1", 4000⟩ [1, 0, 0, 0, 6] [0]]).map
      (fun listener => (listener.inputs, listener.sessions)) =
        some ([(0, [1, 0, 0, 0]), (1, [1, 0, 0, 0, 5]), (0, [9, 0, 0, 0, 0xf2, 0, 7, 7]),
          (2, [2, 0, 0, 0]), (0, [1, 0, 0, 0, 6])],
          [("10.0.0.2:4000#1", 1), ("10.0.0.2:4000#2", 2)]) := by
    rw [hcrypt]
    decide +kernel
  obtain ⟨listener, hrun, hstate⟩ := Option.map_eq_some_iff.mp hrun
  obtain ⟨hinputs, hsessions⟩ := Prod.mk.inj hstate
  exact ⟨crypt, listener, hcreate, hrun, hinputs, hsessions, (sessions_isolated _
    ⟨Function.injective_id, fun _ _ => rfl⟩ _ crypt _ listener hrun).1⟩

end UdpListener

end Shimakaze
