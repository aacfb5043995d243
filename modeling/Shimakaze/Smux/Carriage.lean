import Shimakaze.Smux.Fin
import Shimakaze.Smux.Transport

/-!
# What a Stream Carries

Seen from its session, a stream takes payloads off the wire and puts payloads on it. This
module relates the two to the bytes at the local socket, for any reaction of the stream:
what it has put on the wire is the encryption of an initial segment of what was queued, and
what it has written is an initial segment of the decryption of what came in.

## Main results

* `react_manner`: a stream speaks for its own id only, and takes itself off the session's
  table when it closes.
* `StreamInv.react`, `StreamInv.data`: **every reaction keeps the two relations**.
-/

namespace Shimakaze

/-! ### Frames of one stream -/

/-- The payload a frame carries for the stream `id`. -/
def Frame.payloadFor (id : UInt32) (frame : Frame) : Bytes :=
  if frame.command = .psh ∧ frame.streamId = id then frame.payload else []

/-- The payloads of the PSH frames for the stream `id`, one after the other. -/
def payloads (id : UInt32) (frames : List Frame) : Bytes := frames.flatMap (Frame.payloadFor id)

@[simp] theorem payloads_nil (id : UInt32) : payloads id [] = [] := rfl

@[simp] theorem payloads_append (id : UInt32) (as bs : List Frame) :
    payloads id (as ++ bs) = payloads id as ++ payloads id bs := List.flatMap_append

theorem payloads_initial {id : UInt32} {as bs : List Frame} (h : as <+: bs) :
    payloads id as <+: payloads id bs := by
  obtain ⟨cs, rfl⟩ := h
  exact ⟨payloads id cs, (payloads_append id as cs).symm⟩

/-- The calls a stream with the given id makes. -/
def SessionCall.OfStream (config : BaseConfig) (id : UInt32) : SessionCall → Prop
  | .sendFrame command streamId _ => streamId = id ∧ (command = .fin ∨ command = .psh)
  | .sendUpdate streamId _ _ => streamId = id ∧ config.flowControlled
  | .streamClosed streamId => streamId = id

/-- The frames that get through are among those the calls ask for. -/
theorem mem_transmitted {closed : Bool} {calls : List SessionCall} {frame : Frame}
    (h : frame ∈ transmitted closed calls) :
    closed = false ∧ frame.payload.length ≤ 65535 ∧ ∃ call ∈ calls, call.frame = some frame := by
  rw [transmitted] at h
  cases closed with
  | true => exact absurd h (by simp)
  | false =>
      rw [if_neg (by simp)] at h
      obtain ⟨hmem, hlen⟩ := List.mem_filter.mp h
      exact ⟨rfl, of_decide_eq_true hlen, List.mem_filterMap.mp hmem⟩

namespace SmuxStream

variable {config : BaseConfig} {s t : SmuxStream} {e : StreamEvent} {o : Outcome}

/-! ### Manners -/

/-- The part of a stream its session relies on. -/
def look (s : SmuxStream) : (UInt32 × Bool) × (Bool × Bytes) :=
  ((s.id, s.sessionAlive), (s.closed, s.tcpReadBuffer))

/-- How a stream behaves towards its session. -/
structure Manner (config : BaseConfig) (s : SmuxStream) (o : Outcome) : Prop where
  id_eq : o.stream.id = s.id
  alive_eq : o.stream.sessionAlive = s.sessionAlive
  calls : ∀ call ∈ o.calls, call.OfStream config s.id
  closing : s.sessionAlive = true → s.closed = false → o.stream.closed = true →
    .streamClosed s.id ∈ o.calls
  room : s.tcpReadBuffer.length = readBufferSize →
    o.stream.tcpReadBuffer.length = readBufferSize

/-- A function that changes nothing the session relies on. -/
theorem Manner.of_look (h : o.stream.look = s.look)
    (hcalls : ∀ call ∈ o.calls, call.OfStream config s.id) : Manner config s o := by
  simp only [look, Prod.mk.injEq] at h
  obtain ⟨⟨hid, halive⟩, hclosed, hbuffer⟩ := h
  refine ⟨hid, halive, hcalls, fun _ hopen hclosed' => ?_, fun hroom => by rw [hbuffer, hroom]⟩
  rw [hclosed, hopen] at hclosed'
  exact absurd hclosed' (by decide)

/-- The manner towards the session is about what the session relies on. -/
theorem Manner.congr (ht : Manner config t o) (h : t.look = s.look) : Manner config s o := by
  simp only [look, Prod.mk.injEq] at h
  obtain ⟨⟨hid, halive⟩, hclosed, hbuffer⟩ := h
  obtain ⟨hid', halive', hcalls, hclosing, hroom⟩ := ht
  rw [hid] at hid' hcalls hclosing
  rw [halive] at halive' hclosing
  rw [hclosed] at hclosing
  rw [hbuffer] at hroom
  exact ⟨hid', halive', hcalls, hclosing, hroom⟩

theorem sendLocalFin_ofStream (s : SmuxStream) :
    ∀ call ∈ s.sendLocalFin.calls, call.OfStream config s.id := by
  rw [sendLocalFin_calls]
  split_ifs <;> simp [SessionCall.OfStream]

theorem close_manner (s : SmuxStream) : Manner config s s.close := by
  cases h : s.closed with
  | true =>
      rw [s.close_of_closed h]
      exact .of_look rfl (by simp)
  | false =>
      have hid := s.close_view id fun _ _ _ _ _ _ => rfl
      have halive := s.close_view sessionAlive fun _ _ _ _ _ _ => rfl
      have hbuffer := s.close_view tcpReadBuffer fun _ _ _ _ _ _ => rfl
      refine ⟨hid, halive, ?_, fun ha _ _ => ?_, fun hroom => by rw [hbuffer, hroom]⟩
      · rw [s.close_of_open h]
        intro call hcall
        rcases List.mem_append.mp hcall with hcall | hcall
        · exact s.sendLocalFin_ofStream call hcall
        · split_ifs at hcall
          · rw [List.mem_singleton.mp hcall]
            rfl
          · exact absurd hcall (by simp)
      · rw [s.close_of_open h, if_pos ha]
        simp

theorem maybeFinish_look (s : SmuxStream) : (maybeFinish config s).stream.look = s.look :=
  maybeFinish_view config s look fun _ _ => rfl

theorem sendLocalFin_maybeFinish_manner (s : SmuxStream) :
    Manner config s (s.sendLocalFin.andThen (maybeFinish config)) := by
  refine .of_look ?_ ?_
  · rw [Outcome.andThen_stream, maybeFinish_look, sendLocalFin_stream]
    rfl
  · rw [Outcome.andThen_calls, maybeFinish_calls, List.append_nil]
    exact s.sendLocalFin_ofStream

theorem writeHandler_manner (s : SmuxStream) : Manner config s (writeHandler config s) := by
  refine .of_look ?_ ?_
  · obtain ⟨numRead, incr, h⟩ := markPayloadConsumed_stream config
      { s with
        tcpWriteActive := false
        pendingTcpWrites := s.pendingTcpWrites.tail
        history := { s.history with
          written := s.history.written ++ s.pendingTcpWrites.headD [] } }
      (s.pendingTcpWrites.headD []).length
    simp only [writeHandler, Outcome.andThen_stream, h]
    rw [maybeFinish_look, shutdownTcpSendIfReady_view _ look fun _ _ _ _ => rfl]
    rw [flushTcpWrites]
    split_ifs <;> rfl
  · intro call hcall
    simp only [writeHandler, Outcome.andThen_calls, maybeFinish_calls, List.append_nil] at hcall
    rw [markPayloadConsumed] at hcall
    simp only at hcall
    split_ifs at hcall with hdead hthreshold
    · exact absurd hcall (by simp)
    · rw [not_or, not_or, not_not, not_not] at hdead
      rw [List.mem_singleton.mp hcall]
      exact ⟨rfl, hdead.2.1⟩
    · exact absurd hcall (by simp)

/-- An event that flushes: PSH frames of the stream. -/
theorem flush_manner (config : BaseConfig) (t : SmuxStream) :
    Manner config t ((tryFlushOutbound config t).andThen readOn) := by
  refine .of_look (flush_readOn_view config t look (fun _ _ _ => rfl) fun s => ?_) ?_
  · rw [startTcpRead]
    split_ifs <;> rfl
  · rw [Outcome.andThen_calls, readOn_calls, List.append_nil]
    by_cases hdead : t.sessionAlive = false ∨ t.closed
    · rw [tryFlushOutbound_of_dead hdead]
      simp
    · rw [not_or, Bool.not_eq_false, Bool.not_eq_true] at hdead
      obtain ⟨pieces, hf⟩ := tryFlushOutbound_flushed config hdead.1 hdead.2
      rw [hf.calls]
      intro call hcall
      obtain ⟨piece, -, rfl⟩ := List.mem_map.mp hcall
      exact ⟨rfl, Or.inr rfl⟩

theorem look_of_stance (h : t.stance = s.stance) : t.look = s.look := by
  simp only [stance, Prod.mk.injEq] at h
  obtain ⟨⟨hid, halive⟩, ⟨hclosed, -⟩, hbuffer, -⟩ := h
  rw [look, look, hid, halive, hclosed, hbuffer]

/-- **A stream speaks for itself only**, and leaves the table when it closes. -/
theorem manner_reaction (config : BaseConfig) : Reaction config (Manner config) where
  congr _ _ _ h ht := ht.congr (look_of_stance h)
  quiet _ _ h := .of_look (look_of_stance h) (by simp)
  close := close_manner
  finish := sendLocalFin_maybeFinish_manner
  written := writeHandler_manner
  flush := flush_manner config
  stored s reads data hdata := by
    refine ⟨rfl, rfl, by simp, fun _ hopen hclosed => ?_, fun hroom => ?_⟩
    · exact absurd (hopen.symm.trans hclosed) (by decide)
    · simp only [quiet_stream, List.length_append, List.length_drop, hroom]
      omega
  queued s bytes := by
    refine (flush_manner config _).congr ?_
    rw [queueOutbound]
    split_ifs <;> rfl

theorem react_manner (he : e ≠ .sessionExpired) (hreact : s.react config e = some o) :
    Manner config s o := (manner_reaction config).react he hreact

end SmuxStream

/-! ### Payloads of calls -/

section payloads

variable {config : BaseConfig} {closed : Bool} {id : UInt32} {calls : List SessionCall}

/-- Calls that get no PSH frame of the stream through carry nothing for it. -/
theorem payloads_eq_nil {frames : List Frame}
    (h : ∀ frame ∈ frames, frame.command = .psh → frame.streamId ≠ id) :
    payloads id frames = [] := by
  refine List.flatMap_eq_nil_iff.mpr fun frame hmem => if_neg ?_
  rintro ⟨hpsh, hid⟩
  exact h frame hmem hpsh hid

theorem payloads_transmitted_of_not_psh (h : ∀ call ∈ calls, call.isPsh = false) :
    payloads id (transmitted closed calls) = [] := by
  refine payloads_eq_nil fun frame hmem hpsh => ?_
  obtain ⟨-, -, call, hcall, hframe⟩ := mem_transmitted hmem
  have hcall := h call hcall
  cases call with
  | sendFrame command streamId payload =>
      obtain rfl := Option.some.inj hframe
      obtain rfl : command = .psh := hpsh
      exact absurd hcall (by simp [SessionCall.isPsh])
  | sendUpdate streamId consumed window =>
      obtain rfl := Option.some.inj hframe
      cases hpsh
  | streamClosed streamId => exact absurd hframe (by simp [SessionCall.frame])

/-- The calls of one stream carry nothing for another. -/
theorem payloads_transmitted_of_ne {id' : UInt32} (h : ∀ call ∈ calls, call.OfStream config id')
    (hne : id' ≠ id) : payloads id (transmitted closed calls) = [] := by
  refine payloads_eq_nil fun frame hmem hpsh => ?_
  obtain ⟨-, -, call, hcall, hframe⟩ := mem_transmitted hmem
  have hcall := h call hcall
  cases call with
  | sendFrame command streamId payload =>
      obtain rfl := Option.some.inj hframe
      exact hcall.1 ▸ hne
  | sendUpdate streamId consumed window =>
      obtain rfl := Option.some.inj hframe
      exact hcall.1 ▸ hne
  | streamClosed streamId => exact absurd hframe (by simp [SessionCall.frame])

/-- PSH calls with payloads that fit a frame all get through an open session. -/
theorem payloads_transmitted_psh {chunks : List Bytes}
    (h : ∀ chunk ∈ chunks, chunk.length ≤ 65535) :
    payloads id (transmitted closed (chunks.map (SessionCall.sendFrame .psh id))) =
      if closed then [] else chunks.flatten := by
  cases closed with
  | true => rfl
  | false =>
      have hframes : transmitted false (chunks.map (SessionCall.sendFrame .psh id)) =
          chunks.map (Frame.mk .psh id) := by
        rw [transmitted, if_neg (by simp), List.filterMap_map, List.filter_eq_self.mpr]
        · rw [← List.filterMap_eq_map]
          rfl
        · intro frame hmem
          obtain ⟨chunk, hchunk, hframe⟩ := List.mem_filterMap.mp hmem
          obtain rfl := Option.some.inj hframe
          exact decide_eq_true (h chunk hchunk)
      rw [hframes, payloads, List.flatMap_map, if_neg (by simp)]
      simp [Frame.payloadFor, List.flatMap_id']

end payloads

/-! ### The two relations -/

/-- The bytes `out` that the stream has put on the wire are the encryption of an initial
segment of what was queued. While the session is open (`live`), the rest is still queued. -/
def Traffic.Sends (pad : Option QppPad) (seed : Qpp.Rand) (live : Prop) (v : Traffic)
    (out : Bytes) : Prop :=
  ∃ sent, v.queued = sent ++ pendingBytes v.pendingOutbound ∧
    v.writeRand = (QppStream.cipher pad seed sent).2 ∧
    out <+: (QppStream.cipher pad seed sent).1 ∧
    (live → out = (QppStream.cipher pad seed sent).1)

/-- What the stream has received is the decryption of an initial segment of the bytes `inn`
that came in for it, of all of them while it is in the table (`registered`). -/
def Traffic.Receives (pad : Option QppPad) (seed : Qpp.Rand) (registered : Prop) (v : Traffic)
    (inn : Bytes) : Prop :=
  ∃ got, got <+: inn ∧ v.received = (QppStream.decipher pad seed got).1 ∧
    v.readRand = (QppStream.decipher pad seed got).2 ∧ (registered → got = inn)

namespace SmuxStream

variable {config : BaseConfig} {s t : SmuxStream} {e : StreamEvent} {o : Outcome}
  {pad : Option QppPad} {seed : Qpp.Rand} {closed : Bool} {registered : Prop}
  {out inn : Bytes}

/-- What holds of a stream object of a session that is `closed` or not, when `out` has gone
out and `inn` has come in for it. -/
structure StreamInv (pad : Option QppPad) (seed : Qpp.Rand) (closed : Bool)
    (registered : Prop) (s : SmuxStream) (out inn : Bytes) : Prop where
  alive : s.sessionAlive = true
  pad_eq : s.traffic.pad = pad
  room : s.tcpReadBuffer.length = readBufferSize
  fits : ∀ b ∈ s.traffic.pendingOutbound, b.data.length ≤ readBufferSize
  sends : s.traffic.Sends pad seed (closed = false) out
  receives : s.traffic.Receives pad seed registered inn
  backlog : s.traffic.received = s.traffic.written ++ s.traffic.unwritten

theorem flushInput_id (h : s.flushInput e = some t) : t.id = s.id := by
  unfold SmuxStream.flushInput at h
  split at h
  · split at h
    · obtain rfl := Option.some.inj h
      rw [queueOutbound]
      split_ifs <;> rfl
    · exact absurd h (by simp)
  · obtain rfl := Option.some.inj h
    rfl
  · exact absurd h (by simp)

/-- Queueing what a read stored, or learning of new credit, before a flush. -/
theorem StreamInv.flushInput (h : StreamInv pad seed closed registered s out inn)
    (hinput : s.flushInput e = some t) : StreamInv pad seed closed registered t out inn := by
  unfold SmuxStream.flushInput at hinput
  split at hinput
  · split at hinput
    · next own ops hreads =>
      obtain rfl := Option.some.inj hinput
      rw [queueOutbound]
      split_ifs with hempty
      · exact ⟨h.alive, h.pad_eq, h.room, h.fits, h.sends, h.receives, h.backlog⟩
      · refine ⟨h.alive, h.pad_eq, h.room, ?_, ?_, h.receives, h.backlog⟩
        · intro b hb
          rcases List.mem_append.mp hb with hb | hb
          · exact h.fits b hb
          · rw [List.mem_singleton.mp hb]
            exact (List.length_take_le' _ _).trans h.room.le
        · obtain ⟨sent, hqueued, hrand, hout, hlive⟩ := h.sends
          refine ⟨sent, ?_, hrand, hout, hlive⟩
          simp only [traffic] at hqueued ⊢
          rw [hqueued, pendingBytes_append, List.append_assoc, pendingBytes_cons,
            pendingBytes_nil, List.append_nil, List.drop_zero]
    · exact absurd hinput (by simp)
  · obtain rfl := Option.some.inj hinput
    exact ⟨h.alive, h.pad_eq, h.room, h.fits, h.sends, h.receives, h.backlog⟩
  · exact absurd hinput (by simp)

/-- The invariant is about the traffic. -/
theorem StreamInv.of_traffic (h : StreamInv pad seed closed registered s out inn)
    (ht : Manner config s o) (htraffic : o.stream.traffic = s.traffic) :
    StreamInv pad seed closed registered o.stream out inn := by
  refine ⟨ht.alive_eq.trans h.alive, ?_, ht.room h.room, ?_, ?_, ?_, ?_⟩
  all_goals rw [htraffic]
  · exact h.pad_eq
  · exact h.fits
  · exact h.sends
  · exact h.receives
  · exact h.backlog

/-- **A flush** moves bytes from the queue to the wire. -/
theorem StreamInv.flush (h : StreamInv pad seed closed registered s out inn) :
    StreamInv pad seed closed registered ((tryFlushOutbound config s).andThen readOn).stream
      (out ++ payloads s.id
        (transmitted closed ((tryFlushOutbound config s).andThen readOn).calls)) inn := by
  have hmanner := flush_manner config s
  cases hopen : s.closed with
  | true =>
      have hnone : tryFlushOutbound config s = s.quiet := tryFlushOutbound_of_dead (Or.inr hopen)
      have htraffic := flush_traffic config s
      rw [hnone] at htraffic
      rw [hnone] at hmanner ⊢
      rw [Outcome.andThen_calls, readOn_calls, quiet_calls, List.append_nil,
        payloads_transmitted_of_not_psh (by simp), List.append_nil]
      exact h.of_traffic hmanner htraffic
  | false =>
      obtain ⟨pieces, hf⟩ := tryFlushOutbound_flushed config h.alive hopen
      obtain ⟨hpieces, hfits⟩ := hf.bound readBufferSize h.fits
      have htraffic : ((tryFlushOutbound config s).andThen readOn).stream.traffic =
          { s.traffic with
            pendingOutbound := (tryFlushOutbound config s).stream.pendingOutbound
            numWritten := s.numWritten + UInt32.ofNat pieces.flatten.length
            writeRand := (QppStream.cipher s.qpp.pad s.qpp.writeRand pieces.flatten).2 } := by
        rw [flush_traffic, hf.stream]
        rfl
      obtain ⟨sent, hqueued, hrand, hout, hlive⟩ := h.sends
      have hpad : s.qpp.pad = pad := h.pad_eq
      have hrand : s.qpp.writeRand = (QppStream.cipher pad seed sent).2 := hrand
      -- the frames carry the pieces, encrypted, unless the session drops them
      have hcalls : payloads s.id
          (transmitted closed ((tryFlushOutbound config s).andThen readOn).calls) =
          if closed then [] else (QppStream.cipher pad s.qpp.writeRand pieces.flatten).1 := by
        rw [Outcome.andThen_calls, readOn_calls, List.append_nil, hf.calls,
          payloads_transmitted_psh, flatten_cipherPieces, hpad]
        intro chunk hchunk
        have hlength : chunk.length ∈ pieces.map List.length := by
          rw [← map_length_cipherPieces s.qpp.pad s.qpp.writeRand]
          exact List.mem_map_of_mem hchunk
        obtain ⟨piece, hpiece, hlen⟩ := List.mem_map.mp hlength
        have hbound := hpieces piece hpiece
        have hsize : readBufferSize = 32768 := rfl
        omega
      have happend := QppStream.cipher_append pad seed sent pieces.flatten
      rw [← hrand] at happend
      refine ⟨hmanner.alive_eq.trans h.alive, ?_, hmanner.room h.room, ?_, ?_, ?_, ?_⟩
      all_goals rw [htraffic]
      · exact h.pad_eq
      · exact hfits
      · refine ⟨sent ++ pieces.flatten, ?_, ?_, ?_, fun hopen => ?_⟩
        · have hbytes : pendingBytes s.traffic.pendingOutbound = _ := hf.bytes
          rw [hqueued, hbytes, List.append_assoc]
          rfl
        · rw [happend, hpad]
        · rw [hcalls, happend]
          split_ifs with hclosed
          · rw [List.append_nil]
            exact hout.trans (List.prefix_append _ _)
          · have hsent := hlive (by simpa using hclosed)
            exact hsent ▸ List.prefix_refl _
        · rw [hcalls, happend, if_neg (by simp [hopen]), hlive hopen]
      · exact h.receives
      · exact h.backlog

/-- **Every reaction but a delivery** keeps the invariant, with what the stream sends. -/
theorem StreamInv.react (h : StreamInv pad seed closed registered s out inn)
    (he : e ≠ .sessionExpired) (hdata : ∀ payload, e ≠ .data payload)
    (hreact : s.react config e = some o) :
    StreamInv pad seed closed registered o.stream
      (out ++ payloads s.id (transmitted closed o.calls)) inn := by
  have hmanner := react_manner he hreact
  cases react_effect hreact with
  | flush t hinput ho =>
      subst ho
      have hflush : StreamInv pad seed closed registered
          ((tryFlushOutbound config t).andThen readOn).stream _ inn :=
        (h.flushInput hinput).flush
      rwa [flushInput_id hinput] at hflush
  | data payload he htraffic hcalls => exact absurd he (hdata payload)
  | written he ho =>
      subst ho
      obtain ⟨htraffic, hcalls⟩ := writeHandler_traffic config s
      have hnone : ∀ call ∈ (writeHandler config s).calls, call.isPsh = false := by
        intro call hcall
        rw [hcalls] at hcall
        obtain ⟨consumed, window, rfl⟩ := markPayloadConsumed_calls config s _ call hcall
        rfl
      rw [payloads_transmitted_of_not_psh hnone, List.append_nil]
      refine ⟨hmanner.alive_eq.trans h.alive, ?_, hmanner.room h.room, ?_, ?_, ?_, ?_⟩
      all_goals rw [htraffic]
      · exact h.pad_eq
      · exact h.fits
      · exact h.sends
      · exact h.receives
      · simp only [h.backlog, s.unwritten_eq, List.append_assoc]
  | idle hdata hflush htraffic hcalls =>
      rw [payloads_transmitted_of_not_psh fun call hcall => (hcalls call hcall).1,
        List.append_nil]
      exact h.of_traffic hmanner htraffic

/-- **A delivery** to an open stream of the table. -/
theorem StreamInv.data (h : StreamInv pad seed closed True s out inn)
    (hopen : s.closed = false) (payload : Bytes) :
    StreamInv pad seed closed True (s.onData payload).stream out (inn ++ payload) := by
  have hmanner : Manner {} s (s.onData payload) := (manner_reaction {}).onData s payload
  obtain ⟨htraffic, -⟩ := receive_traffic hopen payload
  refine ⟨hmanner.alive_eq.trans h.alive, ?_, hmanner.room h.room, ?_, ?_, ?_, ?_⟩
  all_goals rw [htraffic]
  · exact h.pad_eq
  · exact h.fits
  · exact h.sends
  · obtain ⟨got, -, hreceived, hrand, hall⟩ := h.receives
    obtain rfl := hall trivial
    have happend := QppStream.decipher_append pad seed got payload
    rw [← hrand, ← hreceived] at happend
    refine ⟨got ++ payload, List.prefix_refl _, ?_, ?_, fun _ => rfl⟩
    · rw [happend, Traffic.receive, h.pad_eq]
    · rw [happend, Traffic.receive, h.pad_eq]
  · simp only [Traffic.receive, h.backlog, List.append_assoc]

/-- Leaving the table, or the session closing. -/
theorem StreamInv.weaken (h : StreamInv pad seed closed registered s out inn) {closed' : Bool}
    {registered' : Prop} {inn' : Bytes} (hclosed : closed' = false → closed = false)
    (hregistered : registered' → registered ∧ inn' = inn) (hinn : inn <+: inn') :
    StreamInv pad seed closed' registered' s out inn' := by
  refine ⟨h.alive, h.pad_eq, h.room, h.fits, ?_, ?_, h.backlog⟩
  · obtain ⟨sent, hqueued, hrand, hout, hlive⟩ := h.sends
    exact ⟨sent, hqueued, hrand, hout, fun hopen => hlive (hclosed hopen)⟩
  · obtain ⟨got, hgot, hreceived, hrand, hall⟩ := h.receives
    refine ⟨got, hgot.trans hinn, hreceived, hrand, fun hreg => ?_⟩
    rw [hall (hregistered hreg).1, (hregistered hreg).2]

end SmuxStream

end Shimakaze
