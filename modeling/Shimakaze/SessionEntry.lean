import Shimakaze.Fec.Decoder
import Shimakaze.KcpTransport
import Shimakaze.Smux.Footprint

/-!
# A Session and Its Transport

Both programs keep a transport and the session on top of it together: the server in a
`SessionEntry`, the client in a `Connection`. The transport hands to the session what KCP
delivers, until it is closed, and a session that closes closes its transport. The other way
there is no call: a transport that closes by itself, because a packet cannot be encrypted,
leaves the session alone.

Whatever the programs do with the two, `Runs` says that the transport has gone through events of
a transport alone, and the session through inputs of a session alone. What KCP outputs and
delivers is in the events, as for the transport alone.

## Main results

* `SessionEntry.step_runs`, `SessionEntry.input_runs`: **every function runs the transport and
  the session by their own rules**, and ends the one with the other.
* `SessionEntry.Runs.sound`: it keeps the two together and the codec able to decode.
* `SessionEntry.input_total`: an arriving packet throws no exception.
-/

namespace Shimakaze

/-! ### A codec that does not throw -/

namespace FecCodec

/-- A codec whose `decode` does not throw: if it is enabled it is ready, and its sets have their
places. -/
def Decodable (codec : FecCodec) : Prop :=
  codec.enabled = true → ∃ d p, codec.Ready d p ∧ codec.Sized (d + p)

variable {codec after : FecCodec}

theorem decodable_create {config : BaseConfig} (hdata : 0 ≤ config.datashard.toInt)
    (hparity : 0 ≤ config.parityshard.toInt)
    (hsum : config.datashard.toInt + config.parityshard.toInt ≤ 256)
    (hcreate : create config = .ok codec) : codec.Decodable := by
  intro henabled
  obtain ⟨hready, hfresh⟩ := create_ready hdata hparity hsum hcreate henabled
  refine ⟨_, _, hready, fun entry hentry => ?_⟩
  rw [hfresh.sets_eq] at hentry
  exact absurd hentry List.not_mem_nil

theorem Decodable.encode (h : codec.Decodable) (packet : Bytes) (currentMillis : UInt32) :
    (codec.encode packet currentMillis).2.Decodable := by
  rw [encode_frame]
  intro henabled
  obtain ⟨d, p, hready, hsized⟩ := h henabled
  exact ⟨d, p, hready.of_same rfl rfl rfl rfl rfl rfl, hsized⟩

theorem Decodable.decode (h : codec.Decodable) (packet : Bytes) :
    ∃ out after, codec.decode packet = .ok (out, after) ∧ after.Decodable := by
  by_cases henabled : codec.enabled = true
  · obtain ⟨d, p, hready, hsized⟩ := h henabled
    obtain ⟨out, after, hdecode, hready', hsized'⟩ := decode_ok hready hsized packet
    exact ⟨out, after, hdecode, fun _ => ⟨d, p, hready', hsized'⟩⟩
  · refine ⟨[packet], codec, ?_, h⟩
    rw [FecCodec.decode, if_pos (.inl henabled)]
    rfl

end FecCodec

/-! ### The transport -/

namespace KcpTransport

/-- The packet that arrives with an event. -/
def Event.packet : Event → Option Bytes
  | .input packet => some packet
  | _ => none

/-- What an event gives to `ikcp_input`. -/
def gives (transport : KcpTransport) : Event → List Bytes
  | .input packet =>
      match transport.input packet with
      | .error _ => []
      | .ok (packets, _) => packets
  | _ => []

/-- A transport, with all that it has given to `ikcp_input`. -/
def givingMachine (lib : CryptoLib) : EventMachine (Progress × List Bytes) Event where
  step state event :=
    (step lib state.1 event).map fun after => (after, state.2 ++ state.1.transport.gives event)

variable {lib : CryptoLib} {progress after : Progress} {transport : KcpTransport}

/-- It is a transport. -/
theorem run_of_giving {given given' : List Bytes} {events : List Event}
    (h : (givingMachine lib).run (progress, given) events = some (after, given')) :
    (machine lib).run progress events = some after := by
  induction events generalizing progress given with
  | nil =>
      obtain ⟨rfl, -⟩ := Prod.mk.inj (Option.some.inj h)
      rfl
  | cons event events ih =>
      obtain ⟨⟨next, gave⟩, hstep, hrest⟩ := EventMachine.run_cons_eq_some _ |>.mp h
      obtain ⟨reached, hreached, hpair⟩ := Option.map_eq_some_iff.mp hstep
      obtain ⟨rfl, -⟩ := Prod.mk.inj hpair
      exact EventMachine.run_cons_eq_some _ |>.mpr ⟨reached, hreached, ih hrest⟩

/-- Only a packet that arrives gives something to KCP. -/
theorem gives_of_packet_eq_none {event : Event} (h : event.packet = none) :
    transport.gives event = [] := by
  cases event with
  | input packet => cases h
  | _ => rfl

/-- A closed transport stays closed. -/
theorem step_stays_closing {event : Event} (h : step lib progress event = some after)
    (hclosing : progress.transport.closing = true) : after.transport.closing = true := by
  cases event with
  | output buffer currentMillis nonces now =>
      rw [step, if_pos (.inl hclosing)] at h
      obtain rfl := Option.some.inj h
      exact hclosing
  | input packet =>
      rw [step, input, if_pos (.inl hclosing)] at h
      obtain rfl := Option.some.inj h
      exact hclosing
  | rateTimer error sentAt rescheduledAt =>
      rw [step] at h
      split_ifs at h
      obtain rfl := Option.some.inj h
      rw [rateTimerFired]
      dsimp only
      rw [if_pos (.inr hclosing)]
      exact hclosing
  | close =>
      obtain rfl := Option.some.inj h
      rfl

/-- An arriving packet does not close the transport, and keeps the codec sound. -/
theorem input_keeps {packet : Bytes} {packets : List Bytes} {taken : KcpTransport}
    (h : transport.input packet = .ok (packets, taken)) :
    taken.closing = transport.closing ∧ (transport.fec.Decodable → taken.fec.Decodable) := by
  rw [input] at h
  split_ifs at h
  · obtain ⟨-, rfl⟩ := Prod.mk.inj (Except.ok.inj h)
    exact ⟨rfl, id⟩
  · cases hdecode : transport.fec.decode packet with
    | error message =>
        rw [hdecode] at h
        cases h
    | ok result =>
        rw [hdecode] at h
        obtain ⟨-, rfl⟩ := Prod.mk.inj (Except.ok.inj h)
        refine ⟨rfl, fun hdecodable => ?_⟩
        obtain ⟨out, after, hout, hafter⟩ := hdecodable.decode packet
        rw [hdecode] at hout
        rw [Except.ok.inj hout]
        exact hafter

/-- Whatever arrives, a transport with a sound codec takes it in. -/
theorem input_ok (h : transport.fec.Decodable) (packet : Bytes) :
    ∃ packets taken, transport.input packet = .ok (packets, taken) := by
  rw [input]
  split_ifs
  · exact ⟨[], transport, rfl⟩
  · obtain ⟨out, fec, hdecode, -⟩ := h.decode packet
    rw [hdecode]
    exact ⟨out, _, rfl⟩

/-- An event keeps the codec sound. -/
theorem step_decodable {event : Event} (h : step lib progress event = some after)
    (hdecodable : progress.transport.fec.Decodable) : after.transport.fec.Decodable := by
  cases event with
  | output buffer currentMillis nonces now =>
      rw [step] at h
      split_ifs at h
      · obtain rfl := Option.some.inj h
        exact hdecodable
      · obtain rfl := Option.some.inj h
        have hfec := (@sendUdp_frame lib progress.transport buffer currentMillis nonces now).2
        change (sendUdp lib progress.transport buffer currentMillis nonces now).2.fec.Decodable
        rw [hfec]
        exact hdecodable.encode buffer currentMillis
  | input packet =>
      obtain ⟨packets, taken, hinput⟩ := input_ok hdecodable packet
      rw [step, hinput] at h
      obtain rfl := Option.some.inj h
      exact (input_keeps hinput).2 hdecodable
  | rateTimer error sentAt rescheduledAt =>
      rw [step] at h
      split_ifs at h
      obtain rfl := Option.some.inj h
      rw [(rateTimerFired_frame error sentAt rescheduledAt).2]
      exact hdecodable
  | close =>
      obtain rfl := Option.some.inj h
      exact hdecodable

end KcpTransport

/-! ### The two together -/

/-- `SessionEntry`. -/
structure SessionEntry where
  transport : KcpTransport.Progress
  smux : SmuxSession
  /-- The packets given to `ikcp_input` so far. -/
  given : List Bytes := []
  /-- What KCP has delivered so far. -/
  delivered : Bytes := []

/-- The bytes that arrive with an input of a session. -/
def SessionInput.bytes : SessionInput → Bytes
  | .arrival _ bytes => bytes
  | .act .. => []

namespace SessionEntry

variable (setting : Setting) (entry : SessionEntry)

/-- `transport->is_closed()`. -/
def closing : Bool := entry.transport.transport.closing

/-- `transport->close()`. The close handler belongs to the owner of the entry. -/
def close : SessionEntry :=
  { entry with transport := { entry.transport with transport := entry.transport.transport.close } }

/-- The session after one of its functions. A session that closes closes its transport. -/
def withSmux (smux : SmuxSession) : SessionEntry :=
  let entry := { entry with smux }
  if smux.transportClosed then entry.close else entry

/-- The read handler of the transport. -/
def receive (now : ℕ) (chunk : Bytes) : SessionEntry :=
  { entry with delivered := entry.delivered ++ chunk }.withSmux
    (entry.smux.onTransportBytes setting now chunk)

/-- The loop of `drain_kcp`: what KCP delivers goes to the session while the transport is
open. -/
def drainKcp (now : ℕ) : SessionEntry → List Bytes → SessionEntry
  | entry, [] => entry
  | entry, chunk :: chunks =>
      if entry.closing then entry else drainKcp now (entry.receive setting now chunk) chunks

/-- `transport->input`, with what KCP delivers. -/
def input (now : ℕ) (packet : Bytes) (delivered : List Bytes) : Except String SessionEntry :=
  match entry.transport.transport.input packet with
  | .error message => throw message
  | .ok (packets, transport) =>
      let entry :=
        { entry with
          transport := { entry.transport with transport }
          given := entry.given ++ packets }
      pure (if packets = [] then entry else drainKcp setting now entry delivered)

/-- What happens to a session and its transport besides arrivals. -/
inductive Event
  /-- An operation of a stream completes. -/
  | completed (index : ℕ) (completion : SmuxStream.Completion)
  /-- The keepalive timer of the session expires. -/
  | keepalive
  /-- The update timer of the transport expires, and KCP delivers bytes. -/
  | updated (delivered : List Bytes)
  /-- KCP outputs a packet. -/
  | output (buffer : Bytes) (currentMillis : UInt32) (nonces : ℕ → Vector UInt8 16)
  /-- The rate timer of the transport expires. -/
  | rateTimer (error : Bool) (untilRescheduled : ℕ)

/-- One event, at a time in nanoseconds. -/
def step (lib : CryptoLib) (now : ℕ) : Event → Option SessionEntry
  | .completed index completion =>
      (entry.smux.act setting now (.completion index completion)).map entry.withSmux
  | .keepalive => (entry.smux.act setting now .keepalive).map entry.withSmux
  | .updated delivered =>
      if entry.closing then none else some (entry.drainKcp setting now delivered)
  | .output buffer currentMillis nonces =>
      (KcpTransport.step lib entry.transport (.output buffer currentMillis nonces now)).map
        fun transport => { entry with transport }
  | .rateTimer error untilRescheduled =>
      (KcpTransport.step lib entry.transport
        (.rateTimer error now (now + untilRescheduled))).map fun transport =>
          { entry with transport }

/-! ### What the functions do -/

variable {setting} {entry after : SessionEntry} {lib : CryptoLib} {packets : List Bytes}

/-- What a function of the session or the transport does to the two: the transport goes through
events of its own, in which it takes in `packets`, and the session through inputs of its own, with
what KCP delivers; and a session that closes closes the transport. -/
structure Runs (lib : CryptoLib) (setting : Setting) (packets : List Bytes)
    (entry after : SessionEntry) : Prop where
  transport : ∃ events, (KcpTransport.givingMachine lib).run (entry.transport, entry.given) events =
    some (after.transport, after.given) ∧ events.filterMap KcpTransport.Event.packet = packets
  smux : ∃ inputs, (sessionMachine setting).run entry.smux inputs = some after.smux ∧
    after.delivered = entry.delivered ++ inputs.flatMap SessionInput.bytes
  ends : entry.smux.Together → (entry.smux.closed = true → entry.closing = true) →
    after.smux.closed = true → after.closing = true

theorem Runs.refl (lib : CryptoLib) (setting : Setting) (entry : SessionEntry) :
    Runs lib setting [] entry entry :=
  ⟨⟨[], rfl, rfl⟩, ⟨[], rfl, (List.append_nil _).symm⟩, fun _ => id⟩

/-- A session and its transport are closed together after its own inputs as before. -/
theorem together_run {s t : SmuxSession} {inputs : List SessionInput} (h : s.Together)
    (hrun : (sessionMachine setting).run s inputs = some t) : t.Together :=
  EventMachine.run_invariant (I := SmuxSession.Together) (fun s e t h hstep => by
    cases e with
    | arrival now bytes =>
        obtain rfl := Option.some.inj hstep
        exact h.onTransportBytes now bytes
    | act now e => exact h.act hstep) h hrun

theorem Runs.together (h : Runs lib setting packets entry after) (htogether : entry.smux.Together) :
    after.smux.Together := by
  obtain ⟨inputs, hrun, -⟩ := h.smux
  exact together_run htogether hrun

theorem Runs.trans {last : SessionEntry} {later : List Bytes}
    (h : Runs lib setting packets entry after) (h' : Runs lib setting later after last) :
    Runs lib setting (packets ++ later) entry last where
  transport := by
    obtain ⟨events, hrun, hpackets⟩ := h.transport
    obtain ⟨events', hrun', hpackets'⟩ := h'.transport
    refine ⟨events ++ events', ?_, ?_⟩
    · rw [EventMachine.run_append, hrun]
      exact hrun'
    · rw [List.filterMap_append, hpackets, hpackets']
  smux := by
    obtain ⟨inputs, hrun, hdelivered⟩ := h.smux
    obtain ⟨inputs', hrun', hdelivered'⟩ := h'.smux
    refine ⟨inputs ++ inputs', ?_, ?_⟩
    · rw [EventMachine.run_append, hrun]
      exact hrun'
    · rw [hdelivered', hdelivered, List.flatMap_append, List.append_assoc]
  ends htogether hends := h'.ends (h.together htogether) (h.ends htogether hends)

/-- A closed session stays closed. -/
theorem Runs.stays_closed (h : Runs lib setting packets entry after)
    (hclosed : entry.smux.closed = true) : after.smux.closed = true := by
  obtain ⟨inputs, hrun, -⟩ := h.smux
  refine EventMachine.run_invariant (I := fun s : SmuxSession => s.closed = true)
    (fun s e t hclosed hstep => ?_) hclosed hrun
  cases e with
  | arrival now bytes =>
      obtain rfl := Option.some.inj hstep
      rw [SmuxSession.onTransportBytes_of_ignored (.inl hclosed)]
      exact hclosed
  | act now e => exact (@SmuxSession.act_evolves _ _ _ [] _ _ hstep).stays_closed hclosed

/-- A closed transport stays closed. -/
theorem Runs.stays_closing (h : Runs lib setting packets entry after)
    (hclosing : entry.closing = true) : after.closing = true := by
  obtain ⟨events, hrun, -⟩ := h.transport
  exact EventMachine.run_invariant
    (I := fun progress : KcpTransport.Progress => progress.transport.closing = true)
    (fun _ _ _ hclosing hstep => KcpTransport.step_stays_closing hstep hclosing) hclosing
    (KcpTransport.run_of_giving hrun)

/-! ### The functions one by one -/

/-- **An event of the transport** that brings no packet. -/
theorem transport_runs {event : KcpTransport.Event} {transport : KcpTransport.Progress}
    (h : KcpTransport.step lib entry.transport event = some transport)
    (hpacket : event.packet = none) : Runs lib setting [] entry { entry with transport } where
  transport := by
    refine ⟨[event], ?_, ?_⟩
    · rw [EventMachine.run_cons]
      simp only [KcpTransport.givingMachine, h, KcpTransport.gives_of_packet_eq_none hpacket,
        List.append_nil]
      rfl
    · rw [List.filterMap_cons, hpacket]
      rfl
  smux := ⟨[], rfl, (List.append_nil _).symm⟩
  ends _ hends hclosed := KcpTransport.step_stays_closing h (hends hclosed)

/-- **An input of the session**, with what KCP delivers. -/
theorem withSmux_runs {e : SessionInput} {smux : SmuxSession}
    (h : (sessionMachine setting).step entry.smux e = some smux) :
    Runs lib setting []
      entry ({ entry with delivered := entry.delivered ++ e.bytes }.withSmux smux) := by
  have hrun : (sessionMachine setting).run entry.smux [e] = some smux := by
    rw [EventMachine.run_cons, h]
    rfl
  have hdelivered : [e].flatMap SessionInput.bytes = e.bytes := List.flatMap_singleton _ _
  rw [withSmux]
  dsimp only
  split_ifs with htransport
  · refine ⟨⟨[.close], ?_, rfl⟩, ⟨[e], hrun, ?_⟩, fun _ _ _ => rfl⟩
    · exact congrArg (fun given => some (_, given)) (List.append_nil entry.given)
    · rw [hdelivered]
      rfl
  · refine ⟨⟨[], rfl, rfl⟩, ⟨[e], hrun, ?_⟩, fun htogether _ hclosed => ?_⟩
    · rw [hdelivered]
    · have hboth : smux.transportClosed = smux.closed := together_run htogether hrun
      exact absurd (hboth.trans hclosed) htransport

/-- An event of the session. -/
theorem act_runs {now : ℕ} {e : SessionEvent} {smux : SmuxSession}
    (h : entry.smux.act setting now e = some smux) :
    Runs lib setting [] entry (entry.withSmux smux) := by
  have hruns := @withSmux_runs setting entry lib (.act now e) smux h
  rwa [SessionInput.bytes, List.append_nil] at hruns

/-- The loop of `drain_kcp`. -/
theorem drainKcp_runs (now : ℕ) (delivered : List Bytes) :
    Runs lib setting [] entry (entry.drainKcp setting now delivered) := by
  induction delivered generalizing entry with
  | nil => exact Runs.refl lib setting entry
  | cons chunk chunks ih =>
      rw [drainKcp]
      split_ifs
      · exact Runs.refl lib setting entry
      · exact (@withSmux_runs setting entry lib (.arrival now chunk) _ rfl).trans ih

/-- `transport->input`. -/
theorem input_runs {now : ℕ} {packet : Bytes} {delivered : List Bytes}
    (h : entry.input setting now packet delivered = .ok after) :
    Runs lib setting [packet] entry after := by
  rw [input] at h
  cases hinput : entry.transport.transport.input packet with
  | error message =>
      rw [hinput] at h
      cases h
  | ok result =>
      obtain ⟨packets, transport⟩ := result
      rw [hinput] at h
      obtain rfl := Except.ok.inj h
      have htaken : Runs lib setting [packet] entry
          { entry with
            transport := { entry.transport with transport }
            given := entry.given ++ packets } := by
        refine ⟨⟨[.input packet], ?_, rfl⟩, ⟨[], rfl, (List.append_nil _).symm⟩,
          fun _ hends hclosed => ?_⟩
        · rw [EventMachine.run_cons]
          simp only [KcpTransport.givingMachine, KcpTransport.step, KcpTransport.gives, hinput]
          rfl
        · exact (KcpTransport.input_keeps hinput).1.trans (hends hclosed)
      dsimp only
      split_ifs
      · exact htaken
      · exact htaken.trans (drainKcp_runs now delivered)

/-- **One event.** -/
theorem step_runs {now : ℕ} {event : Event}
    (h : entry.step setting lib now event = some after) : Runs lib setting [] entry after := by
  cases event with
  | completed index completion =>
      obtain ⟨smux, hact, rfl⟩ := Option.map_eq_some_iff.mp h
      exact act_runs hact
  | keepalive =>
      obtain ⟨smux, hact, rfl⟩ := Option.map_eq_some_iff.mp h
      exact act_runs hact
  | updated delivered =>
      rw [step] at h
      split_ifs at h
      obtain rfl := Option.some.inj h
      exact drainKcp_runs _ delivered
  | output buffer currentMillis nonces =>
      obtain ⟨transport, htransport, rfl⟩ := Option.map_eq_some_iff.mp h
      exact transport_runs htransport rfl
  | rateTimer error untilRescheduled =>
      obtain ⟨transport, htransport, rfl⟩ := Option.map_eq_some_iff.mp h
      exact transport_runs htransport rfl

/-! ### What they keep -/

/-- A session and its transport stand as the programs need them: they are closed together, and
the codec does not throw if its shards can be counted. -/
structure Sound (config : BaseConfig) (entry : SessionEntry) : Prop where
  together : entry.smux.Together
  ends : entry.smux.closed = true → entry.closing = true
  decodable : 0 ≤ config.datashard.toInt → 0 ≤ config.parityshard.toInt →
    config.datashard.toInt + config.parityshard.toInt ≤ 256 →
    entry.transport.transport.fec.Decodable

/-- A session and its transport as the programs make them. -/
def Started (lib : CryptoLib) (ikcpSetmtu : Int32 → Int32) (setting : Setting) (client : Bool)
    (handler : Option SmuxStream.Start) (entry : SessionEntry) : Prop :=
  ∃ transport smux now, entry = { transport := { transport }, smux } ∧
    KcpTransport.create lib ikcpSetmtu setting.config = .ok transport ∧
    SmuxSession.launch setting client handler now = .ok smux

/-- Both are open. -/
theorem Started.sound {ikcpSetmtu : Int32 → Int32} {client : Bool}
    {handler : Option SmuxStream.Start}
    (h : Started lib ikcpSetmtu setting client handler entry) :
    entry.Sound setting.config ∧ entry.closing = false := by
  obtain ⟨transport, smux, now, rfl, hcreate, hlaunch⟩ := h
  have htogether := (SmuxSession.launch_contained hlaunch).together
  obtain ⟨pad, timer, -, rfl⟩ := SmuxSession.launch_eq_ok hlaunch
  obtain ⟨crypt, fec, kcpMtu, -, hfec, -, rfl⟩ := KcpTransport.create_parts hcreate
  refine ⟨⟨htogether, fun hclosed => absurd hclosed Bool.false_ne_true, ?_⟩, rfl⟩
  exact fun hdata hparity hsum => FecCodec.decodable_create hdata hparity hsum hfec

/-- **Every function keeps them so.** -/
theorem Runs.sound (h : Runs lib setting packets entry after) (config : BaseConfig)
    (hsound : entry.Sound config) : after.Sound config where
  together := h.together hsound.together
  ends := h.ends hsound.together hsound.ends
  decodable hdata hparity hsum := by
    obtain ⟨events, hrun, -⟩ := h.transport
    exact EventMachine.run_invariant
      (I := fun progress : KcpTransport.Progress => progress.transport.fec.Decodable)
      (fun _ _ _ hdecodable hstep => KcpTransport.step_decodable hstep hdecodable)
      (hsound.decodable hdata hparity hsum) (KcpTransport.run_of_giving hrun)

/-! ### A session inside a program -/

/-- A session and its transport as a program makes them, with nothing taken in yet. -/
def New (lib : CryptoLib) (ikcpSetmtu : Int32 → Int32) (setting : Setting) (client : Bool)
    (handler : Option SmuxStream.Start) (held : SessionEntry × List Bytes) : Prop :=
  held.1.Started lib ikcpSetmtu setting client handler ∧ held.2 = []

/-- A session with the packets that its transport has taken in goes on, and takes in more. -/
def Continues (lib : CryptoLib) (setting : Setting) (held after : SessionEntry × List Bytes) :
    Prop :=
  ∃ packets, held.1.Runs lib setting packets after.1 ∧ after.2 = held.2 ++ packets

theorem Continues.refl (held : SessionEntry × List Bytes) : Continues lib setting held held :=
  ⟨[], .refl lib setting held.1, (List.append_nil _).symm⟩

theorem Continues.trans (held after last : SessionEntry × List Bytes)
    (h : Continues lib setting held after) (h' : Continues lib setting after last) :
    Continues lib setting held last := by
  obtain ⟨packets, hruns, hpackets⟩ := h
  obtain ⟨later, hruns', hlater⟩ := h'
  exact ⟨packets ++ later, hruns.trans hruns', by rw [hlater, hpackets, List.append_assoc]⟩

/-- **An arriving packet throws no exception**, whatever it is. -/
theorem input_total (h : entry.transport.transport.fec.Decodable) (now : ℕ) (packet : Bytes)
    (delivered : List Bytes) : ∃ after, entry.input setting now packet delivered = .ok after := by
  obtain ⟨packets, transport, hinput⟩ := KcpTransport.input_ok h packet
  rw [input, hinput]
  exact ⟨_, rfl⟩

end SessionEntry

end Shimakaze
