import Shimakaze.Smux.Upkeep

/-!
# The Frames a Session Produces

SYN, FIN and NOP frames are empty, an UPD frame has eight bytes, and a PSH frame is a piece
that `try_flush_outbound` cut: not empty, no longer than the frame size, and within one
buffer of the queue, which came out of one read.

## Main results

* `Frame.Produced`: what these frames look like; `largestFrame` is the size of the largest.
* `produces_upkeep`: a session sends no other frames, whatever its peer does.
-/

namespace Shimakaze

/-- The largest payload of a PSH frame. -/
def BaseConfig.maxPiece (config : BaseConfig) : ℕ := min config.maxFrame readBufferSize

/-- The size of the largest frame, with its header. -/
def BaseConfig.largestFrame (config : BaseConfig) : ℕ :=
  smuxHeaderSize + max config.maxPiece (if config.flowControlled then smuxUpdateSize else 0)

/-- The frames a session with these settings sends. -/
def Frame.Produced (config : BaseConfig) (frame : Frame) : Prop :=
  match frame.command with
  | .psh => 0 < frame.payload.length ∧ frame.payload.length ≤ config.maxPiece
  | .upd => config.flowControlled ∧ frame.payload.length = smuxUpdateSize
  | _ => frame.payload = []

theorem BaseConfig.maxPiece_pos (config : BaseConfig) : 0 < config.maxPiece :=
  lt_min config.maxFrame_pos (by decide)

theorem BaseConfig.largestFrame_le (config : BaseConfig) :
    config.largestFrame ≤ smuxHeaderSize + readBufferSize := by
  refine Nat.add_le_add_left (max_le (min_le_right _ _) ?_) _
  split_ifs <;> decide

namespace Frame

variable {config : BaseConfig} {frame : Frame}

theorem Produced.length_payload_le (h : frame.Produced config) :
    frame.payload.length ≤
      max config.maxPiece (if config.flowControlled then smuxUpdateSize else 0) := by
  rw [Produced.eq_def] at h
  split at h
  · exact h.2.trans (le_max_left _ _)
  · rw [if_pos h.1, h.2]
    exact le_max_right _ _
  · rw [h]
    exact Nat.zero_le _

theorem Produced.length_le (h : frame.Produced config) :
    (frameBytes config frame).length ≤ config.largestFrame := by
  rw [length_frameBytes, BaseConfig.largestFrame]
  exact Nat.add_le_add_left h.length_payload_le _

/-- The peer accepts them. -/
theorem Produced.sendable (h : frame.Produced config) : frame.Sendable config := by
  refine ⟨?_, fun hupd => ?_⟩
  · have hlargest := h.length_le.trans config.largestFrame_le
    rw [length_frameBytes, smuxHeaderSize, readBufferSize] at hlargest
    omega
  · rw [Produced.eq_def, hupd] at h
    exact h

/-- One of them is the largest. -/
theorem exists_produced_largest (config : BaseConfig) :
    ∃ frame : Frame, frame.Produced config ∧
      (frameBytes config frame).length = config.largestFrame := by
  by_cases hupdate : config.flowControlled ∧ config.maxPiece ≤ smuxUpdateSize
  · refine ⟨⟨.upd, 0, List.replicate smuxUpdateSize 0⟩,
      ⟨hupdate.1, List.length_replicate⟩, ?_⟩
    rw [length_frameBytes, BaseConfig.largestFrame, if_pos hupdate.1, max_eq_right hupdate.2,
      List.length_replicate]
  · refine ⟨⟨.psh, 0, List.replicate config.maxPiece 0⟩, ⟨?_, ?_⟩, ?_⟩
    · rw [List.length_replicate]
      exact config.maxPiece_pos
    · rw [List.length_replicate]
    · rw [length_frameBytes, BaseConfig.largestFrame, List.length_replicate, max_eq_left]
      rw [not_and, not_le] at hupdate
      split_ifs with hflow
      · exact (hupdate hflow).le
      · exact Nat.zero_le _

end Frame

/-- A call puts a frame of this kind on the wire, if any. -/
def SessionCall.Produces (config : BaseConfig) (call : SessionCall) : Prop :=
  ∀ frame, call.frame = some frame → frame.Produced config

/-! ### Streams -/

namespace SmuxStream

variable {config : BaseConfig} {s t : SmuxStream} {o : Outcome}

/-- The read buffer has its size, and so every buffer of the outbound queue fits in it. -/
structure Tidy (s : SmuxStream) : Prop where
  room : s.tcpReadBuffer.length = readBufferSize
  queued : ∀ b ∈ s.pendingOutbound, b.data.length ≤ readBufferSize

/-- A function that keeps a stream tidy and makes calls for such frames only. -/
def Cuts (config : BaseConfig) (s : SmuxStream) (o : Outcome) : Prop :=
  s.Tidy → o.stream.Tidy ∧ ∀ call ∈ o.calls, call.Produces config

/-- A function that leaves the outbound side alone. -/
theorem Cuts.of_outbound (h : o.stream.outbound = s.outbound)
    (hcalls : ∀ call ∈ o.calls, call.Produces config) : Cuts config s o := by
  rintro ⟨hroom, hqueued⟩
  simp only [outbound, OutboundView.mk.injEq] at h
  obtain ⟨-, hbuffer, hpending, -⟩ := h
  refine ⟨⟨?_, ?_⟩, hcalls⟩
  · rw [hbuffer]
    exact hroom
  · rw [hpending]
    exact hqueued

/-- It matters only what the outbound side is. -/
theorem Cuts.congr (h : Cuts config t o) (hbuffer : t.tcpReadBuffer = s.tcpReadBuffer)
    (hpending : t.pendingOutbound = s.pendingOutbound) : Cuts config s o := by
  rintro ⟨hroom, hqueued⟩
  exact h ⟨hbuffer ▸ hroom, hpending ▸ hqueued⟩

theorem sendLocalFin_produces (s : SmuxStream) :
    ∀ call ∈ s.sendLocalFin.calls, call.Produces config := by
  rw [sendLocalFin_calls]
  split_ifs
  · intro call hcall frame hframe
    rw [List.mem_singleton.mp hcall] at hframe
    obtain rfl := Option.some.inj hframe
    rfl
  · simp

theorem close_cuts (s : SmuxStream) : Cuts config s s.close := by
  refine .of_outbound (s.close_view outbound fun _ _ _ _ _ _ => rfl) ?_
  cases h : s.closed with
  | true =>
      rw [s.close_of_closed h]
      simp
  | false =>
      rw [s.close_of_open h]
      intro call hcall
      rcases List.mem_append.mp hcall with hcall | hcall
      · exact s.sendLocalFin_produces call hcall
      · split_ifs at hcall
        · rw [List.mem_singleton.mp hcall]
          intro frame hframe
          exact absurd hframe (by simp [SessionCall.frame])
        · exact absurd hcall (by simp)

theorem sendLocalFin_maybeFinish_cuts (s : SmuxStream) :
    Cuts config s (s.sendLocalFin.andThen (maybeFinish config)) := by
  refine .of_outbound ?_ ?_
  · rw [Outcome.andThen_stream, maybeFinish_view config _ outbound fun _ _ => rfl,
      sendLocalFin_stream]
    rfl
  · rw [Outcome.andThen_calls, maybeFinish_calls, List.append_nil]
    exact s.sendLocalFin_produces

theorem writeHandler_cuts (s : SmuxStream) : Cuts config s (writeHandler config s) := by
  refine .of_outbound (congrArg Prod.fst s.writeHandler_reading) fun call hcall frame hframe => ?_
  simp only [writeHandler, Outcome.andThen_calls, maybeFinish_calls, List.append_nil] at hcall
  rw [markPayloadConsumed] at hcall
  simp only at hcall
  split_ifs at hcall with hdead hthreshold
  · exact absurd hcall (by simp)
  · rw [not_or, not_or, not_not, not_not] at hdead
    rw [List.mem_singleton.mp hcall] at hframe
    obtain rfl := Option.some.inj hframe
    exact ⟨hdead.2.1, by simp [smuxUpdateSize]⟩
  · exact absurd hcall (by simp)

/-- **The flush cuts pieces of one buffer**, none of them larger than a frame may be. -/
theorem flush_cuts (config : BaseConfig) (t : SmuxStream) :
    Cuts config t ((tryFlushOutbound config t).andThen readOn) := by
  rintro ⟨hroom, hqueued⟩
  have hbuffer := flush_readOn_view config t tcpReadBuffer (fun _ _ _ => rfl) fun s => by
    rw [startTcpRead]
    split_ifs <;> rfl
  have hpending : ((tryFlushOutbound config t).andThen readOn).stream.pendingOutbound =
      (tryFlushOutbound config t).stream.pendingOutbound := by
    rw [Outcome.andThen_stream]
    rcases (tryFlushOutbound config t).stream.readOn_eq with hr | ⟨-, hr⟩
    · rw [hr, quiet_stream]
    · rw [hr, quiet_stream, startTcpRead_pendingOutbound]
  suffices hflush : (∀ b ∈ (tryFlushOutbound config t).stream.pendingOutbound,
      b.data.length ≤ readBufferSize) ∧
      ∀ call ∈ (tryFlushOutbound config t).calls, call.Produces config by
    refine ⟨⟨hbuffer ▸ hroom, ?_⟩, ?_⟩
    · rw [hpending]
      exact hflush.1
    · rw [Outcome.andThen_calls, readOn_calls, List.append_nil]
      exact hflush.2
  by_cases hdead : t.sessionAlive = false ∨ t.closed
  · rw [tryFlushOutbound_of_dead hdead]
    exact ⟨hqueued, by simp⟩
  · rw [not_or, Bool.not_eq_false, Bool.not_eq_true] at hdead
    obtain ⟨pieces, hf⟩ := tryFlushOutbound_flushed config hdead.1 hdead.2
    obtain ⟨hwithin, hkept⟩ := hf.bound readBufferSize hqueued
    refine ⟨hkept, fun call hcall frame hframe => ?_⟩
    rw [hf.calls] at hcall
    obtain ⟨chunk, hchunk, rfl⟩ := List.mem_map.mp hcall
    obtain rfl := Option.some.inj hframe
    -- a piece is as long as what it encrypts
    have hlength : chunk.length ∈ pieces.map List.length := by
      rw [← map_length_cipherPieces t.qpp.pad t.qpp.writeRand]
      exact List.mem_map_of_mem hchunk
    obtain ⟨piece, hpiece, heq⟩ := List.mem_map.mp hlength
    obtain ⟨hpos, hframe⟩ := hf.sizes piece hpiece
    have hsize := hwithin piece hpiece
    rw [heq] at hpos hframe hsize
    exact ⟨hpos, le_min hframe hsize⟩

/-- **Every function of a stream.** Only a stored read changes the read buffer, and only its
handler adds to the queue: no more than the buffer holds. -/
theorem cuts_reaction (config : BaseConfig) : Reaction config (Cuts config) where
  congr _ _ _ h ht := by
    simp only [stance, Prod.mk.injEq] at h
    exact ht.congr h.2.2.1 h.2.2.2
  quiet _ _ h := by
    simp only [stance, Prod.mk.injEq] at h
    rintro ⟨hroom, hqueued⟩
    exact ⟨⟨h.2.2.1 ▸ hroom, h.2.2.2 ▸ hqueued⟩, by simp⟩
  close := close_cuts
  finish := sendLocalFin_maybeFinish_cuts
  written := writeHandler_cuts
  flush := flush_cuts config
  stored s reads data hdata := by
    rintro ⟨hroom, hqueued⟩
    refine ⟨⟨?_, hqueued⟩, by simp⟩
    simp only [quiet_stream, List.length_append, List.length_drop, hroom]
    omega
  queued s bytes := by
    rintro ⟨hroom, hqueued⟩
    refine flush_cuts config _ ⟨?_, fun b hb => ?_⟩
    · rw [queueOutbound]
      split_ifs <;> exact hroom
    · rw [queueOutbound] at hb
      split_ifs at hb
      · exact hqueued b hb
      · rcases List.mem_append.mp hb with hb | hb
        · exact hqueued b hb
        · rw [List.mem_singleton.mp hb, List.length_take, hroom]
          exact min_le_right _ _

end SmuxStream

/-! ### Sessions -/

namespace SmuxSession

variable {setting : Setting} {s f : SmuxSession}

/-- The streams of a session are tidy, and all frames it sent are of this kind. -/
structure Produces (setting : Setting) (s : SmuxSession) : Prop where
  tidy : ∀ r ∈ s.objects, r.Tidy
  frames : ∀ frame ∈ s.frames, frame.Produced setting.config

/-- More frames of this kind. -/
theorem Produces.emits (h : Produces setting s) {sent : List Frame}
    (hobjects : f.objects = s.objects) (hframes : f.frames = s.frames ++ sent)
    (hsent : ∀ frame ∈ sent, frame.Produced setting.config) : Produces setting f := by
  refine ⟨?_, fun frame hframe => ?_⟩
  · rw [hobjects]
    exact h.tidy
  · rw [hframes] at hframe
    rcases List.mem_append.mp hframe with hframe | hframe
    · exact h.frames frame hframe
    · exact hsent frame hframe

/-- A frame of the session itself. -/
theorem Produces.sendFrame (h : Produces setting s) {command : Command} {streamId : UInt32}
    {payload : Bytes} (hframe : (⟨command, streamId, payload⟩ : Frame).Produced setting.config) :
    Produces setting (s.sendFrame setting command streamId payload) := by
  refine h.emits (sendFrame_tables s _ _ _).2 (sendFrame_transmitted _ _ _).frames ?_
  split_ifs
  · simp
  · intro frame hmem
    rw [List.mem_singleton.mp hmem]
    exact hframe

theorem Produces.addStream (h : Produces setting s) (streamId : UInt32) :
    Produces setting (s.addStream setting streamId) := by
  refine ⟨fun r hr => ?_, h.frames⟩
  rcases List.mem_append.mp hr with hr | hr
  · exact h.tidy r hr
  · rw [List.mem_singleton.mp hr]
    exact ⟨List.length_replicate, by simp [SmuxStream.make]⟩

/-- A function of a stream. -/
theorem Produces.settle (h : Produces setting s) {index : ℕ} {r : SmuxStream} {o : Outcome}
    (hr : s.objects[index]? = some r) (ho : r.Cuts setting.config o) :
    Produces setting (s.settle setting index o) := by
  obtain ⟨htidy, hcalls⟩ := ho (h.tidy r (List.mem_of_getElem? hr))
  have hobjects : (s.settle setting index o).objects = s.objects.set index o.stream :=
    congrArg Ledger.objects (s.settle_ledger index o)
  refine ⟨fun x hx => ?_, fun frame hframe => ?_⟩
  · rw [hobjects] at hx
    rcases List.mem_or_eq_of_mem_set hx with hx | rfl
    · exact h.tidy x hx
    · exact htidy
  · rw [(s.settle_emits index o).frames] at hframe
    rcases List.mem_append.mp hframe with hframe | hframe
    · exact h.frames frame hframe
    · obtain ⟨-, -, call, hcall, hof⟩ := mem_transmitted hframe
      exact hcalls call hcall frame hof

/-- **A session sends such frames only**, whatever its peer does. -/
theorem produces_upkeep (setting : Setting) :
    Upkeep setting (SmuxStream.Cuts setting.config) (Produces setting) where
  conduct := .of_reaction (SmuxStream.cuts_reaction setting.config)
  congr s t ht h := by
    simp only [standing, Prod.mk.injEq] at ht
    exact ⟨ht.2.1 ▸ h.tidy, ht.2.2 ▸ h.frames⟩
  settle s index r o h hr ho := h.settle hr ho
  shut s h := ⟨h.tidy, h.frames⟩
  add s streamId h _ _ := h.addStream streamId
  nop s h := h.sendFrame rfl

/-- An event that is not an arrival. -/
theorem Produces.act (h : Produces setting s) {now : ℕ} {e : SessionEvent}
    (hact : s.act setting now e = some f) : Produces setting f := by
  refine (produces_upkeep setting).act h (fun kind t index _ hok => ?_) hact
  obtain ⟨-, -, rfl⟩ := openStream_eq_ok hok
  have hnext : Produces setting { s with nextStreamId := s.nextStreamId + 2 } :=
    ⟨h.tidy, h.frames⟩
  have hsyn := @Produces.sendFrame _ _ hnext .syn (s.nextStreamId + 2) [] rfl
  exact hsyn.addStream _

/-- A session that was just set up has sent nothing. -/
theorem launch_produces {client : Bool} {handler : Option SmuxStream.Start} {now : ℕ}
    (h : launch setting client handler now = .ok s) : Produces setting s := by
  obtain ⟨pad, timer, -, rfl⟩ := launch_eq_ok h
  exact ⟨by simp, by simp⟩

end SmuxSession

end Shimakaze
