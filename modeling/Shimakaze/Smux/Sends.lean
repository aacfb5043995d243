import Shimakaze.KcpTransport
import Shimakaze.Smux.Production
import Shimakaze.Smux.Table

/-!
# What a Session Sends Arrives at KCP

`send_frame` drops a payload that its length field cannot hold, and the transport's `send`
gives up when `ikcp_send` fails, which it does for 128 segments or more. Neither reports the
loss to the stream. The frames a stream asks for are pieces of one read buffer, so a frame,
in a chunk of the compressor or on its own, is about 32 KiB; the smallest segment holds 516
bytes.

`Handed` keeps the account of a session's life that its state does not: the frames given to
`send_frame`, whether it sent them or not.

## Main results

* `Handed.exists_of_run`: every run of a session has such an account.
* `Handed.frames_eq`: whatever the account, the frames in it are the frames sent.
* `flatten_transportBuffers`: the buffers given to the transport are all of the outbox.
* `no_silent_drop`: **in every run the size guard lets every frame through, and `send` takes
  every buffer whole.**
-/

namespace Shimakaze

/-- What comes of a function a session runs on a stream. -/
inductive SmuxStream.Turn (config : BaseConfig) : SmuxStream → Outcome → Prop
  | start (r : SmuxStream) (kind : SmuxStream.Start) : Turn config r (r.start kind).quiet
  | close (r : SmuxStream) : Turn config r r.close
  | onFin (r : SmuxStream) : Turn config r (r.onFin config)
  | onData (r : SmuxStream) (payload : Bytes) : Turn config r (r.onData payload)
  | onUpdate (r : SmuxStream) (consumed window : UInt32) :
      Turn config r (r.onUpdate config consumed window)
  | complete {r : SmuxStream} {c : SmuxStream.Completion} {o : Outcome}
      (h : r.complete config c = some o) : Turn config r o

/-- The buffers `send_frame` gives to the transport for a frame that it does not drop. -/
def frameBuffers (setting : Setting) (encoder : SnappyStreamEncoder) (frame : Frame) :
    List Bytes :=
  if setting.config.nocomp then [frameBytes setting.config frame]
  else (encoder.encode setting.snappy (frameBytes setting.config frame)).1

/-- The buffers for a list of frames. -/
def transportBuffers (setting : Setting) : SnappyStreamEncoder → List Frame → List Bytes
  | _, [] => []
  | encoder, frame :: frames =>
      frameBuffers setting encoder frame ++
        transportBuffers setting (compressorAfter setting encoder [frame]) frames

namespace SmuxSession

/-- The account of a session's life: `Handed setting s handed` says that the session got to
the state `s` from its start, and that `handed` are the frames given to `send_frame` while it
was open, oldest first. -/
inductive Handed (setting : Setting) : SmuxSession → List Frame → Prop
  | launch {client : Bool} {handler : Option SmuxStream.Start} {now : ℕ} {s : SmuxSession}
      (h : launch setting client handler now = .ok s) : Handed setting s []
  /-- The session does something that concerns neither its streams nor its frames. -/
  | aside {s t : SmuxSession} {handed : List Frame} (h : Handed setting s handed)
      (ht : t.standing = s.standing) : Handed setting t handed
  /-- A stream function runs, and its calls are carried out. -/
  | stream {s : SmuxSession} {handed : List Frame} {index : ℕ} {r : SmuxStream} {o : Outcome}
      (h : Handed setting s handed) (hr : s.objects[index]? = some r)
      (ho : r.Turn setting.config o) :
      Handed setting (s.settle setting index o)
        (handed ++ if s.closed then [] else o.calls.filterMap SessionCall.frame)
  /-- The session sends a SYN or a NOP frame of its own. -/
  | own {s : SmuxSession} {handed : List Frame} {command : Command} (streamId : UInt32)
      (h : Handed setting s handed) (hcommand : command = .syn ∨ command = .nop) :
      Handed setting (s.sendFrame setting command streamId [])
        (handed ++ if s.closed then [] else [⟨command, streamId, []⟩])
  /-- A stream is made. -/
  | add {s : SmuxSession} {handed : List Frame} (streamId : UInt32)
      (h : Handed setting s handed) : Handed setting (s.addStream setting streamId) handed
  /-- The session closes. -/
  | shut {s : SmuxSession} {handed : List Frame} (h : Handed setting s handed) :
      Handed setting { s with closed := true, keepaliveTimer := none, streams := [] } handed

variable {setting : Setting} {s t : SmuxSession} {handed : List Frame}

/-! ### The frames -/

/-- A session runs no other functions. -/
theorem turn_conduct (config : BaseConfig) : Conduct config (SmuxStream.Turn config) where
  start := .start
  close := .close
  onFin := .onFin
  onData := .onData
  onUpdate := .onUpdate
  complete _ _ _ := .complete

/-- What holds for every function a session runs holds for each of them. -/
theorem Conduct.of_turn {config : BaseConfig} {R : SmuxStream → Outcome → Prop}
    (hR : Conduct config R) {r : SmuxStream} {o : Outcome} (ho : r.Turn config o) : R r o := by
  cases ho with
  | start kind => exact hR.start r kind
  | close => exact hR.close r
  | onFin => exact hR.onFin r
  | onData payload => exact hR.onData r payload
  | onUpdate consumed window => exact hR.onUpdate r consumed window
  | complete h => exact hR.complete _ _ _ h

/-- Everything a session does is in the account. -/
theorem handed_upkeep (setting : Setting) :
    Upkeep setting (SmuxStream.Turn setting.config) fun s => ∃ handed, Handed setting s handed where
  conduct := turn_conduct setting.config
  congr := by
    rintro s t ht ⟨handed, h⟩
    exact ⟨handed, h.aside ht⟩
  settle := by
    rintro s index r o ⟨handed, h⟩ hr ho
    exact ⟨_, h.stream hr ho⟩
  shut := by
    rintro s ⟨handed, h⟩
    exact ⟨handed, h.shut⟩
  add := by
    rintro s streamId ⟨handed, h⟩ - -
    exact ⟨handed, h.add streamId⟩
  nop := by
    rintro s ⟨handed, h⟩
    exact ⟨_, h.own 0 (.inr rfl)⟩

/-- So is an event of a run. -/
theorem Handed.exists_of_step (h : ∃ handed, Handed setting s handed) {e : SessionInput}
    (hstep : (sessionMachine setting).step s e = some t) : ∃ handed, Handed setting t handed := by
  cases e with
  | arrival now bytes =>
      obtain rfl := Option.some.inj hstep
      exact (handed_upkeep setting).onTransportBytes h now bytes
  | act now e =>
      refine (handed_upkeep setting).act h (fun kind f index _ hok => ?_) hstep
      obtain ⟨-, -, rfl⟩ := openStream_eq_ok hok
      obtain ⟨handed, h⟩ := h
      have hnext : Handed setting { s with nextStreamId := s.nextStreamId + 2 } handed :=
        h.aside rfl
      exact ⟨_, (hnext.own (s.nextStreamId + 2) (.inl rfl)).add _⟩

/-- **Every run has an account.** -/
theorem Handed.exists_of_run {client : Bool} {handler : Option SmuxStream.Start} {now : ℕ}
    (hlaunch : SmuxSession.launch setting client handler now = .ok s) {es : List SessionInput}
    (hrun : (sessionMachine setting).run s es = some t) : ∃ handed, Handed setting t handed :=
  EventMachine.run_invariant (fun _ _ _ hs hstep => exists_of_step hs hstep)
    ⟨[], .launch hlaunch⟩ hrun

/-- A list of frames that are all short enough goes through. -/
theorem transmitted_of_produced {calls : List SessionCall} {config : BaseConfig}
    (h : ∀ call ∈ calls, call.Produces config) (closed : Bool) :
    (∀ frame ∈ calls.filterMap SessionCall.frame, frame.Produced config) ∧
      transmitted closed calls =
        if closed then [] else calls.filterMap SessionCall.frame := by
  have hproduced : ∀ frame ∈ calls.filterMap SessionCall.frame, frame.Produced config := by
    intro frame hframe
    obtain ⟨call, hcall, hof⟩ := List.mem_filterMap.mp hframe
    exact h call hcall frame hof
  refine ⟨hproduced, ?_⟩
  rw [transmitted]
  split_ifs
  · rfl
  · rw [List.filter_eq_self]
    exact fun frame hframe => decide_eq_true (hproduced frame hframe).sendable.1

/-- Both halves of an account grow by the same frames. -/
theorem mem_or_of_mem_append_ite {closed : Bool} {frames : List Frame} {P : Frame → Prop}
    (hhanded : ∀ frame ∈ handed, P frame) (hframes : ∀ frame ∈ frames, P frame) :
    ∀ frame ∈ handed ++ if closed then [] else frames, P frame := by
  intro frame hframe
  rcases List.mem_append.mp hframe with hframe | hframe
  · exact hhanded frame hframe
  · split_ifs at hframe
    · exact absurd hframe List.not_mem_nil
    · exact hframes frame hframe

/-- **Whatever the account, the frames in it are the frames sent**, and they are the frames a
session produces. -/
theorem Handed.frames_eq (h : Handed setting s handed) :
    Produces setting s ∧ (∀ frame ∈ handed, frame.Produced setting.config) ∧
      s.frames = handed := by
  have hkeep := produces_upkeep setting
  induction h with
  | launch h =>
      refine ⟨launch_produces h, by simp, ?_⟩
      obtain ⟨pad, timer, -, rfl⟩ := launch_eq_ok h
      rfl
  | aside h ht ih =>
      obtain ⟨hproduces, hhanded, hframes⟩ := ih
      refine ⟨hkeep.congr _ _ ht hproduces, hhanded, ?_⟩
      rw [← hframes]
      exact congrArg (fun standing => standing.2.2) ht
  | @stream s handed index r o h hr ho ih =>
      obtain ⟨hproduces, hhanded, hframes⟩ := ih
      have hcuts := hkeep.conduct.of_turn ho
      obtain ⟨hsent, hall⟩ := transmitted_of_produced
        (hcuts (hproduces.tidy r (List.mem_of_getElem? hr))).2 s.closed
      refine ⟨hproduces.settle hr hcuts, mem_or_of_mem_append_ite hhanded hsent, ?_⟩
      rw [(s.settle_emits index o).frames, hframes, hall]
  | @own s handed command streamId h hcommand ih =>
      obtain ⟨hproduces, hhanded, hframes⟩ := ih
      have hframe : (⟨command, streamId, []⟩ : Frame).Produced setting.config := by
        rcases hcommand with rfl | rfl <;> rfl
      refine ⟨hproduces.sendFrame hframe, mem_or_of_mem_append_ite hhanded ?_, ?_⟩
      · intro frame hmem
        rw [List.mem_singleton.mp hmem]
        exact hframe
      · rw [(sendFrame_transmitted command streamId []).frames, hframes]
        simp
  | add streamId h ih =>
      obtain ⟨hproduces, hhanded, hframes⟩ := ih
      exact ⟨hproduces.addStream streamId, hhanded, hframes⟩
  | shut h ih =>
      obtain ⟨hproduces, hhanded, hframes⟩ := ih
      exact ⟨hkeep.shut _ hproduces, hhanded, hframes⟩

/-! ### The buffers -/

/-- The buffers of a frame are its bytes on the transport. -/
theorem flatten_frameBuffers (encoder : SnappyStreamEncoder) (frame : Frame) :
    (frameBuffers setting encoder frame).flatten = transportBytes setting encoder [frame] := by
  rw [frameBuffers, transportBytes]
  split_ifs with hnocomp
  · rw [List.map_singleton]
  · rw [SnappyStreamEncoder.encode, compressedItems, List.flatMap_singleton, List.map_append,
      List.map_map]
    cases encoder.wroteIdentifier <;> rfl

/-- The buffers of a list of frames are theirs. Induction on the frames. -/
theorem flatten_transportBuffers (encoder : SnappyStreamEncoder) (frames : List Frame) :
    (transportBuffers setting encoder frames).flatten =
      transportBytes setting encoder frames := by
  induction frames generalizing encoder with
  | nil => simp [transportBuffers, transportBytes, compressedItems]
  | cons frame frames ih =>
      rw [transportBuffers, List.flatten_append, flatten_frameBuffers, ih,
        ← transportBytes_append, List.singleton_append]

/-- A session that is used for nothing has sent nothing, and every event appends. -/
theorem outbox_of_run {client : Bool} {handler : Option SmuxStream.Start} {now : ℕ}
    (hlaunch : SmuxSession.launch setting client handler now = .ok s) {es : List SessionInput}
    (hrun : (sessionMachine setting).run s es = some t) :
    t.outbox = transportBytes setting {} t.frames := by
  have hproceeds : Proceeds setting s t := by
    refine EventMachine.run_invariant (fun u e v hu hstep => hu.trans ?_)
      (@Evolves.refl setting [] s).toProceeds hrun
    cases e with
    | arrival now bytes =>
        obtain rfl := Option.some.inj hstep
        exact (@onTransportBytes_evolves setting [] u now bytes).toProceeds
    | act now e => exact (@act_evolves setting u v [] now e hstep).toProceeds
  obtain ⟨sent, hemits⟩ := hproceeds.emits
  obtain ⟨pad, timer, -, rfl⟩ := launch_eq_ok hlaunch
  have hframes : t.frames = sent := hemits.frames
  have houtbox : t.outbox = transportBytes setting {} sent := hemits.outbox
  rw [houtbox, hframes]

/-- A chunk is its header, its checksum, and no more than the plain bytes. -/
theorem length_makeDataChunk_le (lib : SnappyLib) (plain : Bytes) :
    (Snappy.makeDataChunk lib plain).length ≤ 8 + plain.length := by
  obtain ⟨chunkType, payload, -, hle, heq⟩ := Snappy.makeDataChunk_payload lib plain
  rw [heq, List.length_cons, List.length_append, List.length_append, length_writeLe32]
  simp only [writeLen24, List.length_cons, List.length_nil]
  omega

/-- The largest buffer: a read buffer with the headers of a frame and of a chunk. -/
def largestBuffer : ℕ := 8 + (smuxHeaderSize + readBufferSize)

theorem length_frameBuffers_le {frame : Frame} (h : frame.Produced setting.config)
    (encoder : SnappyStreamEncoder) :
    ∀ buffer ∈ frameBuffers setting encoder frame, buffer.length ≤ largestBuffer := by
  have hlength := h.length_le.trans setting.config.largestFrame_le
  intro buffer hbuffer
  rw [frameBuffers] at hbuffer
  split_ifs at hbuffer
  · rw [List.mem_singleton.mp hbuffer, largestBuffer]
    omega
  · rcases List.mem_append.mp hbuffer with hbuffer | hbuffer
    · split_ifs at hbuffer
      · exact absurd hbuffer List.not_mem_nil
      · rw [List.mem_singleton.mp hbuffer]
        decide
    · have hne : frameBytes setting.config frame ≠ [] := by simp [frameBytes]
      have hfit : (frameBytes setting.config frame).length ≤ Snappy.maxUncompressedChunk :=
        hlength.trans (by decide)
      -- a frame is less than one chunk
      rw [Snappy.pieces_eq_singleton hne hfit, List.map_singleton] at hbuffer
      rw [List.mem_singleton.mp hbuffer, largestBuffer]
      exact (length_makeDataChunk_le _ _).trans (Nat.add_le_add_left hlength 8)

theorem length_transportBuffers_le {frames : List Frame}
    (h : ∀ frame ∈ frames, frame.Produced setting.config) (encoder : SnappyStreamEncoder) :
    ∀ buffer ∈ transportBuffers setting encoder frames, buffer.length ≤ largestBuffer := by
  induction frames generalizing encoder with
  | nil => simp [transportBuffers]
  | cons frame frames ih =>
      intro buffer hbuffer
      rcases List.mem_append.mp hbuffer with hbuffer | hbuffer
      · exact length_frameBuffers_le (h frame List.mem_cons_self) encoder buffer hbuffer
      · exact ih (fun f hf => h f (List.mem_cons_of_mem _ hf)) _ buffer hbuffer

/-! ### The result -/

/-- **No silent drop.** In every run of a session of an accepted configuration, over a
transport of the same configuration: whatever the account of the run, every frame given to
`send_frame` while the session was open has a payload its length field can hold, and is sent;
what is sent are buffers of fewer than 128 segments, and as long as the transport is open,
`send` leaves out nothing of any of them, whatever the state of KCP: the bytes that `ikcp_send`
takes are those of the buffer. -/
theorem no_silent_drop (lib : CryptoLib) (ikcpSetmtu : Int32 → Int32) {κ : Type}
    (kcpLib : KcpLib κ) (hkcp : kcpLib.Lawful) (setting : Setting)
    (haccepted : setting.config.Accepted) (transport : KcpTransport)
    (hcreate : KcpTransport.create lib ikcpSetmtu setting.config = .ok transport)
    {client : Bool} {handler : Option SmuxStream.Start} {now : ℕ} {s t : SmuxSession}
    (hlaunch : SmuxSession.launch setting client handler now = .ok s) (es : List SessionInput)
    (hrun : (sessionMachine setting).run s es = some t) :
    (∃ handed, Handed setting t handed) ∧
    (∀ handed, Handed setting t handed →
      (∀ frame ∈ handed, frame.payload.length ≤ 65535) ∧ t.frames = handed) ∧
    (transportBuffers setting {} t.frames).flatten = t.outbox ∧
    ∀ buffer ∈ transportBuffers setting {} t.frames,
      fragments (transport.kcpMtu.toInt - 24).toNat buffer.length < 128 ∧
      ∀ (later : KcpTransport) (kcp : κ), later.closing = false →
        kcpLib.mss kcp = (transport.kcpMtu.toInt - 24).toNat →
          (later.send kcpLib kcp buffer).1 = [] ∧
            ∀ queue, kcpLib.Queues queue →
              queue (later.send kcpLib kcp buffer).2 = queue kcp ++ buffer := by
  obtain ⟨handed, hhanded⟩ := Handed.exists_of_run hlaunch hrun
  refine ⟨⟨handed, hhanded⟩, fun handed h => ?_, ?_, fun buffer hbuffer => ?_⟩
  · obtain ⟨-, hproduced, hframes⟩ := h.frames_eq
    exact ⟨fun frame hframe => (hproduced frame hframe).sendable.1, hframes⟩
  · rw [flatten_transportBuffers, outbox_of_run hlaunch hrun]
  · have hmss := KcpTransport.create_mss haccepted hcreate
    have hle := length_transportBuffers_le hhanded.frames_eq.1.frames {} buffer hbuffer
    have hfew : fragments (transport.kcpMtu.toInt - 24).toNat buffer.length < 128 := by
      rw [KcpTransport.fragments_lt_iff (by omega)]
      rw [largestBuffer, smuxHeaderSize, readBufferSize] at hle
      omega
    refine ⟨hfew, fun later kcp hopen heq => ?_⟩
    refine later.send_takes_all hkcp hopen ?_ ?_
    · omega
    · rw [heq]
      exact hfew

/-- A KCP in stream mode that keeps its send queue as one string of bytes. -/
def byteQueue : KcpLib (ℕ × Bytes) where
  mss := Prod.fst
  ikcpSend kcp bytes :=
    if 128 ≤ fragments kcp.1 bytes.length then (-2, kcp)
    else (bytes.length, (kcp.1, kcp.2 ++ bytes))

theorem byteQueue_queues : byteQueue.Queues Prod.snd := by
  intro kcp bytes
  simp only [byteQueue]
  split_ifs
  · simp
  · simp

theorem byteQueue_lawful : byteQueue.Lawful where
  takes kcp bytes hne hfew := by
    have hfew : ¬ 128 ≤ fragments kcp.1 bytes.length := not_le.mpr hfew
    simp only [byteQueue, if_neg hfew]
    exact Int.natCast_pos.mpr (List.length_pos_iff.mpr hne)
  mss_eq kcp bytes := by
    simp only [byteQueue]
    split_ifs <;> rfl

/-- A client opens a stream and reads three bytes for it: the identifier, a SYN frame and a
PSH frame. -/
theorem three_buffers_taken :
    let setting : Setting :=
      ⟨{ crypt := "none", datashard := 2, parityshard := 1 }, .uncalled, ⟨id, some⟩⟩
    ∃ transport t,
      KcpTransport.create PacketCrypt.withoutLibrary (fun _ => 0) setting.config =
        .ok transport ∧
      (sessionMachine setting).run { client := true, nextStreamId := 1, keepaliveTimer := some 10 }
        [.act 0 (.openStream .clientTcp), .act 1 (.completion 0 (.readStored [1, 2, 3])),
          .act 1 (.completion 0 .readDone)] = some t ∧
      t.frames.map (fun frame => frame.payload.length) = [0, 3] ∧
      (transportBuffers setting {} t.frames).map List.length = [10, 16, 19] ∧
      ∀ buffer ∈ transportBuffers setting {} t.frames,
        (transport.send byteQueue (1298, [9, 9]) buffer).1 = [] ∧
          (transport.send byteQueue (1298, [9, 9]) buffer).2.2 = [9, 9] ++ buffer := by
  intro setting
  obtain ⟨transport, hcreate⟩ : ∃ transport,
      KcpTransport.create PacketCrypt.withoutLibrary (fun _ => 0)
        { crypt := "none", datashard := 2, parityshard := 1 } = .ok transport := ⟨_, rfl⟩
  have htransport : transport.closing = false ∧ (transport.kcpMtu.toInt - 24).toNat = 1298 := by
    obtain rfl := Except.ok.inj hcreate
    exact ⟨rfl, rfl⟩
  have hlaunch : SmuxSession.launch setting true none 0 =
      .ok { client := true, nextStreamId := 1, keepaliveTimer := some 10 } := rfl
  have hrun : ((sessionMachine setting).run
      { client := true, nextStreamId := 1, keepaliveTimer := some 10 }
      [.act 0 (.openStream .clientTcp), .act 1 (.completion 0 (.readStored [1, 2, 3])),
        .act 1 (.completion 0 .readDone)]).map (fun t =>
          (t.frames.map fun frame => frame.payload.length,
            (transportBuffers setting {} t.frames).map List.length)) =
      some ([0, 3], [10, 16, 19]) := by decide +kernel
  obtain ⟨t, ht, hview⟩ := Option.map_eq_some_iff.mp hrun
  obtain ⟨hframes, hbuffers⟩ := Prod.mk.inj hview
  obtain ⟨-, -, -, htaken⟩ := no_silent_drop PacketCrypt.withoutLibrary (fun _ => 0) byteQueue
    byteQueue_lawful setting (by decide) transport hcreate hlaunch _ ht
  refine ⟨transport, t, hcreate, ht, hframes, hbuffers, fun buffer hbuffer => ?_⟩
  obtain ⟨hall, hqueued⟩ := (htaken buffer hbuffer).2 transport (1298, [9, 9]) htransport.1
    htransport.2.symm
  exact ⟨hall, hqueued Prod.snd byteQueue_queues⟩

end SmuxSession

end Shimakaze
