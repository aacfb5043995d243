import Shimakaze.Smux.Arrivals

/-!
# What Goes Over the Transport

The bytes a session gives to its transport are a function of the frames it sends and of
the state of its compressor. A session on the other end that gets an initial segment of
them, in arrivals of any sizes, has dispatched an initial segment of the frames.

## Main results

* `foldl_perform_emits`: what a list of calls puts on the transport.
* `Received.onTransportBytes`: an honest arrival that fits leaves the receiver open and
  caught up with the bytes that arrived; one that does not fit stops it early.
* `wire_round_trip`: **the round trip** — once all bytes have arrived, the frames
  dispatched are the frames sent.
-/

namespace Shimakaze

open Snappy

/-! ### The sender -/

/-- The frame a call puts on the wire. -/
def SessionCall.frame : SessionCall → Option Frame
  | .sendFrame command streamId payload => some ⟨command, streamId, payload⟩
  | .sendUpdate streamId consumed window =>
      some ⟨.upd, streamId, writeLe32 consumed ++ writeLe32 window⟩
  | .streamClosed _ => none

/-- The frames of `calls` that `send_frame` lets through, on a session that is closed or
not. -/
def transmitted (closed : Bool) (calls : List SessionCall) : List Frame :=
  if closed then []
  else (calls.filterMap SessionCall.frame).filter fun frame => frame.payload.length ≤ 65535

/-- The items the compressor writes for a list of frames. -/
def compressedItems (config : BaseConfig) (wroteIdentifier : Bool) (frames : List Frame) :
    List (Bool × Option Bytes) :=
  (if wroteIdentifier ∨ frames = [] then [] else [(true, none)]) ++
    frames.flatMap fun frame =>
      (pieces (frameBytes config frame).length (frameBytes config frame)).map
        fun piece => (true, some piece)

/-- The bytes that go over the transport for a list of frames. -/
def transportBytes (setting : Setting) (encoder : SnappyStreamEncoder) (frames : List Frame) :
    Bytes :=
  if setting.config.nocomp then (frames.map (frameBytes setting.config)).flatten
  else
    ((compressedItems setting.config encoder.wroteIdentifier frames).map
      (encodeItem setting.snappy)).flatten

/-- The compressor after a list of frames. -/
def compressorAfter (setting : Setting) (encoder : SnappyStreamEncoder) (frames : List Frame) :
    SnappyStreamEncoder :=
  if setting.config.nocomp ∨ frames = [] then encoder else ⟨true⟩

variable {setting : Setting}

theorem compressedItems_append (config : BaseConfig) (wrote : Bool) (as bs : List Frame) :
    compressedItems config wrote (as ++ bs) =
      compressedItems config wrote as ++ compressedItems config (wrote || !as.isEmpty) bs := by
  cases as with
  | nil => simp [compressedItems]
  | cons a as => simp [compressedItems]

/-- The bytes of two lists of frames, one sent after the other. -/
theorem transportBytes_append (encoder : SnappyStreamEncoder) (as bs : List Frame) :
    transportBytes setting encoder (as ++ bs) =
      transportBytes setting encoder as ++
        transportBytes setting (compressorAfter setting encoder as) bs := by
  unfold transportBytes compressorAfter
  cases setting.config.nocomp with
  | true => simp
  | false =>
      simp only [Bool.false_eq_true, if_false, false_or, compressedItems_append,
        List.map_append, List.flatten_append]
      cases as with
      | nil => simp
      | cons a as => simp

/-- A frame is some bytes, compressed or not. -/
theorem transportBytes_ne_nil (encoder : SnappyStreamEncoder) (frame : Frame) :
    transportBytes setting encoder [frame] ≠ [] := by
  have hlength := length_frameBytes setting.config frame
  rw [transportBytes]
  split_ifs
  · intro hnil
    rw [List.map_singleton, List.flatten_singleton] at hnil
    rw [hnil, List.length_nil, smuxHeaderSize] at hlength
    omega
  · obtain ⟨fuel, hfuel⟩ : ∃ fuel, (frameBytes setting.config frame).length = fuel + 1 :=
      ⟨_, (Nat.succ_pred_eq_of_pos (by rw [hlength, smuxHeaderSize]; omega)).symm⟩
    have hbytes : frameBytes setting.config frame ≠ [] := by
      intro hnil
      simp [hnil] at hfuel
    rw [compressedItems, List.flatMap_singleton, hfuel, Snappy.pieces, if_neg hbytes]
    simp [Snappy.encodeItem, Snappy.makeDataChunk]

theorem compressorAfter_append (encoder : SnappyStreamEncoder) (as bs : List Frame) :
    compressorAfter setting encoder (as ++ bs) =
      compressorAfter setting (compressorAfter setting encoder as) bs := by
  unfold compressorAfter
  cases setting.config.nocomp <;> cases as <;> cases bs <;> simp

namespace SmuxSession

variable {s f g : SmuxSession}

/-- `f` is `s` after it has sent the frames `sent`, as far as the sending side goes. -/
structure Emits (setting : Setting) (s f : SmuxSession) (sent : List Frame) : Prop where
  frames : f.frames = s.frames ++ sent
  outbox : f.outbox = s.outbox ++ transportBytes setting s.compressor sent
  compressor : f.compressor = compressorAfter setting s.compressor sent

/-- A step that leaves the sending side alone. -/
theorem Emits.of_eq (hframes : f.frames = s.frames) (houtbox : f.outbox = s.outbox)
    (hcompressor : f.compressor = s.compressor) : Emits setting s f [] where
  frames := by rw [hframes, List.append_nil]
  outbox := by
    rw [houtbox, transportBytes]
    simp [compressedItems]
  compressor := by rw [hcompressor, compressorAfter, if_pos (Or.inr rfl)]

theorem Emits.refl (s : SmuxSession) : Emits setting s s [] := .of_eq rfl rfl rfl

theorem Emits.trans {as bs : List Frame} (h : Emits setting s f as) (h' : Emits setting f g bs) :
    Emits setting s g (as ++ bs) where
  frames := by rw [h'.frames, h.frames, List.append_assoc]
  outbox := by
    rw [h'.outbox, h.outbox, h.compressor, transportBytes_append, List.append_assoc]
  compressor := by rw [h'.compressor, h.compressor, compressorAfter_append]


/-- `send_frame` on an open session. -/
theorem sendFrame_emits (hopen : s.closed = false) {command : Command} {streamId : UInt32}
    {payload : Bytes} (hlen : payload.length ≤ 65535) :
    Emits setting s (s.sendFrame setting command streamId payload)
      [⟨command, streamId, payload⟩] := by
  unfold sendFrame
  rw [if_neg (by simp [hopen, hlen])]
  cases hnocomp : setting.config.nocomp with
  | true =>
      refine ⟨rfl, ?_, ?_⟩
      · simp [transportBytes, hnocomp]
      · simp [compressorAfter, hnocomp]
  | false =>
      refine ⟨rfl, ?_, ?_⟩
      · simp only [transportBytes, hnocomp, Bool.false_eq_true, if_false,
          SnappyStreamEncoder.encode, compressedItems]
        cases s.compressor.wroteIdentifier <;> simp [encodeItem, Function.comp_def]
      · simp [compressorAfter, hnocomp, SnappyStreamEncoder.encode]

/-- A frame that `send_frame` drops. -/
theorem sendFrame_of_dropped {command : Command} {streamId : UInt32} {payload : Bytes}
    (h : s.closed ∨ 65535 < payload.length) :
    s.sendFrame setting command streamId payload = s := by
  rw [sendFrame, if_pos h]

theorem sendFrame_transmitted (command : Command) (streamId : UInt32) (payload : Bytes) :
    Emits setting s (s.sendFrame setting command streamId payload)
      (if s.closed ∨ 65535 < payload.length then [] else [⟨command, streamId, payload⟩]) := by
  split_ifs with h
  · rw [sendFrame_of_dropped h]
    exact .refl s
  · rw [not_or, Bool.not_eq_true, not_lt] at h
    exact sendFrame_emits h.1 h.2

theorem perform_closed (s : SmuxSession) (call : SessionCall) :
    (s.perform setting call).closed = s.closed :=
  congrArg (fun k => k.1.1) (s.perform_kept call)

theorem transmitted_singleton (closed : Bool) {call : SessionCall} {frame : Frame}
    (h : call.frame = some frame) :
    transmitted closed [call] = if closed ∨ 65535 < frame.payload.length then [] else [frame] := by
  simp only [transmitted, List.filterMap_cons_some h, List.filterMap_nil]
  cases closed with
  | true => simp
  | false =>
      by_cases hlen : frame.payload.length ≤ 65535
      · simp [hlen, not_lt.mpr hlen]
      · simp [hlen, not_le.mp hlen]

/-- What one call puts on the transport. -/
theorem perform_emits (s : SmuxSession) (call : SessionCall) :
    Emits setting s (s.perform setting call) (transmitted s.closed [call]) := by
  cases call with
  | sendFrame command streamId payload =>
      rw [transmitted_singleton s.closed rfl]
      exact sendFrame_transmitted command streamId payload
  | sendUpdate streamId consumed window =>
      rw [transmitted_singleton s.closed rfl]
      exact sendFrame_transmitted .upd streamId _
  | streamClosed streamId =>
      have hnone : transmitted s.closed [.streamClosed streamId] = [] := by
        simp [transmitted, SessionCall.frame]
      rw [hnone]
      exact .of_eq rfl rfl rfl

theorem transmitted_cons (closed : Bool) (call : SessionCall) (calls : List SessionCall) :
    transmitted closed (call :: calls) = transmitted closed [call] ++ transmitted closed calls := by
  unfold transmitted
  cases closed with
  | true => rfl
  | false =>
      simp only [Bool.false_eq_true, if_false, ← List.filter_append, ← List.filterMap_append,
        List.singleton_append]

/-- **What a list of calls puts on the transport.** Induction on the calls. -/
theorem foldl_perform_emits (calls : List SessionCall) (s : SmuxSession) :
    Emits setting s (calls.foldl (perform setting) s) (transmitted s.closed calls) := by
  induction calls generalizing s with
  | nil =>
      have hnone : transmitted s.closed [] = [] := by simp [transmitted]
      rw [hnone]
      exact .refl s
  | cons call calls ih =>
      have hrest := ih (s.perform setting call)
      rw [perform_closed] at hrest
      rw [List.foldl_cons, transmitted_cons]
      exact (s.perform_emits call).trans hrest

end SmuxSession

/-! ### Honest bytes -/

/-- Frames the peer accepts form a well-formed stream. -/
theorem frames_goodItems {config : BaseConfig} {frames : List Frame}
    (h : ∀ frame ∈ frames, frame.Sendable config) :
    (frameFraming config).GoodItems (fun _ frame => frame.Sendable config) () frames := by
  induction frames with
  | nil => trivial
  | cons frame frames ih =>
      exact ⟨h frame List.mem_cons_self, ih fun frame hmem => h frame (List.mem_cons_of_mem _ hmem)⟩

/-- Data chunks are well formed once the identifier has been seen. -/
theorem chunks_goodItems (lib : SnappyLib) {chunks : List Bytes}
    (h : ∀ chunk ∈ chunks, chunk.length ≤ maxUncompressedChunk) :
    (snappyFraming lib).GoodItems Written true (chunks.map fun chunk => (true, some chunk)) := by
  induction chunks with
  | nil => trivial
  | cons chunk chunks ih =>
      refine ⟨⟨rfl, fun plain hplain => ?_⟩,
        ih fun chunk hmem => h chunk (List.mem_cons_of_mem _ hmem)⟩
      obtain rfl := Option.some.inj hplain
      exact ⟨rfl, h chunk List.mem_cons_self⟩

/-- The data chunks of a list of frames. -/
def frameChunks (config : BaseConfig) (frames : List Frame) : List Bytes :=
  frames.flatMap fun frame => pieces (frameBytes config frame).length (frameBytes config frame)

/-- The items for the frames of a fresh compressor: the identifier and the data chunks. -/
theorem compressedItems_false (config : BaseConfig) (frames : List Frame) :
    compressedItems config false frames =
      (if frames = [] then [] else [(true, none)]) ++
        (frameChunks config frames).map fun chunk => (true, some chunk) := by
  simp only [compressedItems, frameChunks, Bool.false_eq_true, false_or, List.map_flatMap]

/-- The items a fresh compressor writes are well formed for a fresh decompressor. -/
theorem compressedItems_goodItems (lib : SnappyLib) (config : BaseConfig)
    (frames : List Frame) :
    (snappyFraming lib).GoodItems Written false (compressedItems config false frames) := by
  have hchunks : ∀ chunk ∈ frameChunks config frames, chunk.length ≤ maxUncompressedChunk := by
    intro chunk hchunk
    obtain ⟨frame, -, hmem⟩ := List.mem_flatMap.mp hchunk
    exact length_le_of_mem_pieces _ _ chunk hmem
  rw [compressedItems_false]
  split_ifs with hnil
  · rw [hnil]
    trivial
  · exact ⟨⟨rfl, by simp⟩, chunks_goodItems lib hchunks⟩

/-- The data chunks hold the frames' bytes. -/
theorem flatten_frameChunks (config : BaseConfig) (frames : List Frame) :
    (frameChunks config frames).flatten = (frames.map (frameBytes config)).flatten := by
  induction frames with
  | nil => rfl
  | cons frame frames ih =>
      rw [frameChunks, List.flatMap_cons, List.flatten_append,
        length_flatten_pieces _ _ le_rfl, List.map_cons, List.flatten_cons]
      exact congrArg _ ih

/-- Decompressed, the items are the data chunks. -/
theorem plains_compressedItems (config : BaseConfig) (frames : List Frame) :
    plains (compressedItems config false frames) = frameChunks config frames := by
  have hmap : ∀ chunks : List Bytes,
      plains (chunks.map fun chunk => (true, some chunk)) = chunks := by
    intro chunks
    simp [plains, List.flatMap_map]
  rw [compressedItems_false, plains_append, hmap]
  split_ifs <;> rfl

/-! ### The receiver -/

/-- `plain` is what the decompressor has made of the transport bytes `arrived`; it waits
for more. -/
def Unpacked (setting : Setting) (arrived : Bytes) (decoder : SnappyStreamDecoder)
    (plain : Bytes) : Prop :=
  if setting.config.nocomp then plain = arrived
  else
    ∃ items, (snappyFraming setting.snappy).drain false arrived =
        ⟨items, .waiting decoder.sawIdentifier decoder.buffer⟩ ∧
      plain = (plains items).flatten

namespace SmuxSession

variable {s f g : SmuxSession} {frames : List Frame} {arrived chunk later : Bytes}

/-- The session is open and has taken everything complete off the bytes that arrived. -/
structure Received (setting : Setting) (s : SmuxSession) (arrived : Bytes) : Prop where
  isOpen : s.closed = false
  parsed : ∃ plain, Unpacked setting arrived s.decompressor plain ∧
    (frameFraming setting.config).drain () plain =
      ⟨s.dispatched, .waiting () s.receiveBuffer⟩

/-- Honest transport bytes unpack to honest plain bytes, and with compression chunk by chunk. -/
theorem unpack_honest (hlib : setting.snappy.Lawful) {plain : Bytes}
    (hunpacked : Unpacked setting arrived s.decompressor plain) (now : ℕ)
    (hhonest : arrived ++ chunk ++ later = transportBytes setting {} frames) :
    ∃ chunks rest, (s.unpack setting now chunk).2 = .ok chunks ∧
      Unpacked setting (arrived ++ chunk) (s.unpack setting now chunk).1.decompressor
        (plain ++ chunks.flatten) ∧
      plain ++ chunks.flatten ++ rest = (frames.map (frameBytes setting.config)).flatten ∧
      (setting.config.nocomp = false → ∃ earlier, plain = earlier.flatten ∧
        earlier ++ chunks <+: frameChunks setting.config frames) := by
  unfold Unpacked transportBytes at *
  unfold unpack
  cases hnocomp : setting.config.nocomp with
  | true =>
      rw [hnocomp, if_pos rfl] at hunpacked hhonest
      refine ⟨[chunk], later, rfl, ?_, ?_, by simp⟩
      · simp [hunpacked]
      · simp [hunpacked, ← hhonest]
  | false =>
      rw [hnocomp, if_neg (by simp)] at hunpacked hhonest
      simp only [Bool.false_eq_true, if_false]
      obtain ⟨items, hdrain, rfl⟩ := hunpacked
      obtain ⟨saw, tail, hstanding, hinitial⟩ := Framing.drain_of_encode_eq_append
        (encodes setting.snappy hlib) (compressedItems_goodItems _ _ _) rfl hhonest.symm
      have hfeed : (snappyFraming setting.snappy).drain false (arrived ++ chunk) =
          ((snappyFraming setting.snappy).drain s.decompressor.sawIdentifier
            (s.decompressor.buffer ++ chunk)).after items := by
        rw [Framing.drain_append, hdrain, Framing.feed_of_waiting _ rfl]
      have hloop := decodeLoop_eq_drain setting.snappy
        (s.decompressor.buffer ++ chunk).length (s.decompressor.buffer ++ chunk)
        s.decompressor.sawIdentifier [] le_rfl
      rw [hfeed] at hstanding hinitial
      rw [Parsed.after_standing] at hstanding
      rw [Parsed.after_items] at hinitial
      set r := (snappyFraming setting.snappy).drain s.decompressor.sawIdentifier
        (s.decompressor.buffer ++ chunk)
      simp only [decodeResult, hstanding] at hloop
      have hdecode : s.decompressor.decode setting.snappy chunk =
          (⟨tail, saw⟩, .ok (plains r.items)) := hloop
      obtain ⟨more, hmore⟩ := hinitial
      have hplains : plains items ++ plains r.items ++ plains more =
          frameChunks setting.config frames := by
        rw [← plains_append, ← plains_append, hmore, plains_compressedItems]
      refine ⟨plains r.items, (plains more).flatten, ?_, ⟨items ++ r.items, ?_, ?_⟩, ?_,
        fun _ => ⟨plains items, rfl, ⟨plains more, hplains⟩⟩⟩
      · rw [hdecode]
      · rw [hdecode, hfeed, Parsed.after, hstanding]
      · rw [plains_append, List.flatten_append]
      · rw [← flatten_frameChunks, ← hplains, List.flatten_append, List.flatten_append]

/-- What consuming leaves alone: the decompressor and the time of the last arrival. -/
def intake (s : SmuxSession) : SnappyStreamDecoder × ℕ := (s.decompressor, s.lastActivity)

theorem protocolError_intake (s : SmuxSession) (message : String) :
    (s.protocolError setting message).intake = s.intake := by
  rw [s.protocolError_input message]
  rfl

theorem consumeLoop_intake (fuel : ℕ) (s : SmuxSession) :
    (consumeLoop setting fuel s).intake = s.intake := by
  induction fuel generalizing s with
  | zero => rfl
  | succ fuel ih =>
      have hdispatch (frame : Frame) : (s.dispatch setting frame).intake = s.intake := by
        rw [s.dispatch_input frame]
        rfl
      rw [consumeLoop]
      split_ifs
      · rfl
      · split
        · rfl
        · exact s.protocolError_intake _
        · rw [ih]
          exact hdispatch _

theorem consumeStreamBytes_intake (s : SmuxSession) (chunk : Bytes) :
    (s.consumeStreamBytes setting chunk).intake = s.intake := by
  rw [consumeStreamBytes]
  split_ifs
  · exact s.protocolError_intake _
  · exact consumeLoop_intake _ _

theorem foldl_consume_intake (chunks : List Bytes) (s : SmuxSession) :
    (chunks.foldl (consumeStreamBytes setting) s).intake = s.intake := by
  induction chunks generalizing s with
  | nil => rfl
  | cons chunk chunks ih => rw [List.foldl_cons, ih, consumeStreamBytes_intake]

/-- An arrival at an open session is activity. -/
theorem onTransportBytes_lastActivity (hopen : s.closed = false) (now : ℕ)
    (hchunk : chunk ≠ []) : (s.onTransportBytes setting now chunk).lastActivity = now := by
  have hunpack : (s.unpack setting now chunk).1.lastActivity = now := by
    rw [unpack]
    split_ifs <;> rfl
  rw [onTransportBytes_eq hopen now hchunk]
  split
  · exact (congrArg Prod.snd (foldl_consume_intake _ _)).trans hunpack
  · exact (congrArg Prod.snd (protocolError_intake _ _)).trans hunpack

/-- A closed session dispatches nothing more. -/
theorem consumeStreamBytes_stopped (hclosed : s.closed = true) (chunk : Bytes) :
    (s.consumeStreamBytes setting chunk).closed = true ∧
      (s.consumeStreamBytes setting chunk).dispatched = s.dispatched := by
  by_cases hfit : s.receiveBuffer.length + chunk.length ≤ setting.config.smuxCapacity
  · rw [consumeStreamBytes_of_closed hclosed hfit]
    exact ⟨hclosed, rfl⟩
  · rw [consumeStreamBytes, if_pos (not_le.mp hfit)]
    exact ⟨protocolError_closed _ _, protocolError_dispatched _ _⟩

theorem foldl_consume_stopped (hclosed : s.closed = true) (chunks : List Bytes) :
    (chunks.foldl (consumeStreamBytes setting) s).closed = true ∧
      (chunks.foldl (consumeStreamBytes setting) s).dispatched = s.dispatched := by
  induction chunks generalizing s with
  | nil => exact ⟨hclosed, rfl⟩
  | cons chunk chunks ih =>
      have hfirst := @consumeStreamBytes_stopped setting s hclosed chunk
      rw [List.foldl_cons, ← hfirst.2]
      exact ih hfirst.1

/-- What came off an initial segment of honest bytes. -/
theorem dispatched_initial (hframes : ∀ frame ∈ frames, frame.Sendable setting.config)
    {plain rest : Bytes} {parsed : List Frame} {standing : Standing Unit UInt8 String}
    (hparsed : (frameFraming setting.config).drain () plain = ⟨parsed, standing⟩)
    (hhonest : plain ++ rest = (frames.map (frameBytes setting.config)).flatten) :
    parsed <+: frames := by
  obtain ⟨-, -, -, hinitial⟩ := Framing.drain_of_encode_eq_append
    (frameFraming_encodes setting.config) (frames_goodItems hframes) rfl hhonest.symm
  rwa [hparsed] at hinitial

/-- An honest chunk that fits is taken off, and the session stays open. -/
theorem consumeStreamBytes_honest (hopen : s.closed = false)
    (hframes : ∀ frame ∈ frames, frame.Sendable setting.config) {plain rest : Bytes}
    (hparsed : (frameFraming setting.config).drain () plain =
      ⟨s.dispatched, .waiting () s.receiveBuffer⟩)
    (hhonest : plain ++ chunk ++ rest = (frames.map (frameBytes setting.config)).flatten)
    (hfit : s.receiveBuffer.length + chunk.length ≤ setting.config.smuxCapacity) :
    let f := s.consumeStreamBytes setting chunk
    f.closed = false ∧ f.protocolErrorMessage = s.protocolErrorMessage ∧
      (frameFraming setting.config).drain () (plain ++ chunk) =
        ⟨f.dispatched, .waiting () f.receiveBuffer⟩ := by
  intro f
  obtain ⟨state, tail, hstanding, -⟩ := Framing.drain_of_encode_eq_append
    (frameFraming_encodes setting.config) (frames_goodItems hframes) rfl hhonest.symm
  have hfeed : (frameFraming setting.config).drain () (plain ++ chunk) =
      ((frameFraming setting.config).drain () (s.receiveBuffer ++ chunk)).after
        s.dispatched := by
    rw [Framing.drain_append, hparsed, Framing.feed_of_waiting _ rfl]
  have habsorbed : Absorbed setting s f _ := consumeStreamBytes_absorbed hopen hfit
  rw [hfeed, Parsed.after_standing] at hstanding
  unfold Absorbed at habsorbed
  rw [hstanding] at habsorbed
  obtain ⟨hcore, hbuffer⟩ := habsorbed
  have hkept : f.kept = _ := (congrArg kept hcore).trans (foldl_dispatch_kept _ s.core)
  simp only [kept, Prod.mk.injEq] at hkept
  obtain ⟨⟨hclosed, hdispatched, hmessage⟩, -⟩ := hkept
  refine ⟨hclosed.trans hopen, hmessage, ?_⟩
  rw [hfeed, Parsed.after, hstanding, hdispatched, hbuffer]
  rfl

/-- What honest bytes do to a session: whatever it dispatches is an initial segment of the
frames, and it keeps up with the bytes as long as it is open. -/
theorem foldl_consume_honest (hframes : ∀ frame ∈ frames, frame.Sendable setting.config)
    {chunks : List Bytes} {plain rest : Bytes} (hopen : s.closed = false)
    (hparsed : (frameFraming setting.config).drain () plain =
      ⟨s.dispatched, .waiting () s.receiveBuffer⟩)
    (hhonest : plain ++ chunks.flatten ++ rest =
      (frames.map (frameBytes setting.config)).flatten) :
    let f := chunks.foldl (consumeStreamBytes setting) s
    f.decompressor = s.decompressor ∧ f.dispatched <+: frames ∧
      (f.closed = false → (frameFraming setting.config).drain () (plain ++ chunks.flatten) =
        ⟨f.dispatched, .waiting () f.receiveBuffer⟩) ∧
      (ChunksFit setting s chunks →
        f.closed = false ∧ f.protocolErrorMessage = s.protocolErrorMessage) := by
  induction chunks generalizing s plain with
  | nil =>
      rw [List.flatten_nil, List.append_nil] at hhonest ⊢
      exact ⟨rfl, dispatched_initial hframes hparsed hhonest, fun _ => hparsed,
        fun _ => ⟨hopen, rfl⟩⟩
  | cons chunk chunks ih =>
      rw [List.flatten_cons, ← List.append_assoc] at hhonest ⊢
      by_cases hfit : s.receiveBuffer.length + chunk.length ≤ setting.config.smuxCapacity
      · have hsplit : plain ++ chunk ++ (chunks.flatten ++ rest) = _ :=
          (List.append_assoc _ _ _).symm.trans hhonest
        obtain ⟨hopen', hmessage, hparsed'⟩ :=
          consumeStreamBytes_honest hopen hframes hparsed hsplit hfit
        obtain ⟨hdecoder, hinitial, hrest, hfits⟩ := ih hopen' hparsed' hhonest
        refine ⟨hdecoder.trans (congrArg Prod.fst (s.consumeStreamBytes_intake chunk)), hinitial,
          hrest, ?_⟩
        intro hall
        obtain ⟨hopen'', hmessage'⟩ := hfits hall.2
        exact ⟨hopen'', hmessage'.trans hmessage⟩
      · -- the chunk overflows the buffer: the session closes and dispatches no more
        have hoverflow : s.consumeStreamBytes setting chunk =
            s.protocolError setting "smux receive buffer overflow" := by
          rw [consumeStreamBytes, if_pos (not_le.mp hfit)]
        obtain ⟨hclosed, hdispatched⟩ := foldl_consume_stopped
          (protocolError_closed s "smux receive buffer overflow") chunks
        rw [← hoverflow, ← List.foldl_cons] at hclosed hdispatched
        have hinitial : s.dispatched <+: frames :=
          dispatched_initial hframes hparsed
            (by rw [← hhonest, List.append_assoc, List.append_assoc])
        refine ⟨congrArg Prod.fst (foldl_consume_intake _ s), ?_, fun h => ?_,
          fun h => absurd h.1 hfit⟩
        · rw [hdispatched, hoverflow, protocolError_dispatched]
          exact hinitial
        · exact absurd (h.symm.trans hclosed) (by decide)

/-- **An honest arrival.** Whatever the session dispatches is an initial segment of the
frames; while it stays open it has caught up with the bytes; and it stays open if the
arrival fits. -/
theorem Received.onTransportBytes (hlib : setting.snappy.Lawful)
    (hframes : ∀ frame ∈ frames, frame.Sendable setting.config) (h : Received setting s arrived)
    (now : ℕ) (hhonest : arrived ++ chunk ++ later = transportBytes setting {} frames) :
    let f := s.onTransportBytes setting now chunk
    f.dispatched <+: frames ∧ (f.closed = false → Received setting f (arrived ++ chunk)) ∧
      (ArrivalFits setting s now chunk →
        f.closed = false ∧ f.protocolErrorMessage = s.protocolErrorMessage) := by
  intro f
  obtain ⟨hopen, plain, hunpacked, hparsed⟩ := h
  obtain ⟨chunks, rest, hchunks, hunpacked', hplain, -⟩ :=
    unpack_honest hlib hunpacked now hhonest
  set t := (s.unpack setting now chunk).1 with ht
  have hsame : t.closed = s.closed ∧ t.dispatched = s.dispatched ∧
      t.receiveBuffer = s.receiveBuffer ∧ t.protocolErrorMessage = s.protocolErrorMessage := by
    rw [ht, unpack]
    split_ifs <;> exact ⟨rfl, rfl, rfl, rfl⟩
  obtain ⟨hclosed, hdispatched, hbuffer, hmessage⟩ := hsame
  rw [← hdispatched, ← hbuffer] at hparsed
  obtain ⟨hdecoder, hinitial, hrest, hfits⟩ :=
    foldl_consume_honest hframes (hclosed.trans hopen) hparsed hplain
  by_cases hnil : chunk = []
  · have hf : f = s := onTransportBytes_of_ignored (Or.inr hnil)
    rw [hf]
    rw [hdispatched, hbuffer] at hparsed
    refine ⟨dispatched_initial hframes hparsed (by rw [← List.append_assoc]; exact hplain),
      fun _ => ⟨hopen, plain, ?_, hparsed⟩, fun _ => ⟨hopen, rfl⟩⟩
    rw [hnil, List.append_nil]
    exact hunpacked
  · have hf : f = chunks.foldl (consumeStreamBytes setting) t := by
      have h := @onTransportBytes_eq setting s hopen now chunk hnil
      rw [hchunks] at h
      exact h
    rw [hf]
    refine ⟨hinitial, fun hopen' => ⟨hopen', _, ?_, hrest hopen'⟩, fun hfit => ?_⟩
    · rw [hdecoder]
      exact hunpacked'
    · obtain ⟨hopen', hmessage'⟩ := hfits (by
        rcases hfit with hclosed | hempty | hfit
        · exact absurd hclosed (by simp [hopen])
        · exact absurd hempty hnil
        · exact hfit chunks hchunks)
      exact ⟨hopen', hmessage'.trans hmessage⟩

/-- Honest arrivals that fit leave the session open and caught up. Induction on the
arrivals. -/
theorem Received.receiveAll (hlib : setting.snappy.Lawful)
    (hframes : ∀ frame ∈ frames, frame.Sendable setting.config) {arrivals : List (ℕ × Bytes)}
    (h : Received setting s arrived)
    (hhonest : arrived ++ carried arrivals ++ later = transportBytes setting {} frames)
    (hfit : ArrivalsFit setting s arrivals) :
    Received setting (s.receiveAll setting arrivals) (arrived ++ carried arrivals) ∧
      (s.receiveAll setting arrivals).protocolErrorMessage = s.protocolErrorMessage := by
  induction arrivals generalizing s arrived with
  | nil =>
      refine ⟨?_, rfl⟩
      rw [carried, List.flatMap_nil, List.append_nil]
      exact h
  | cons arrival arrivals ih =>
      obtain ⟨now, chunk⟩ := arrival
      rw [carried_cons, ← List.append_assoc] at hhonest ⊢
      have hsplit : arrived ++ chunk ++ (carried arrivals ++ later) = _ :=
        (List.append_assoc _ _ _).symm.trans hhonest
      obtain ⟨-, hreceived, hstays⟩ := h.onTransportBytes hlib hframes now hsplit
      obtain ⟨hopen, hmessage⟩ := hstays hfit.1
      obtain ⟨hall, hmessage'⟩ := ih (hreceived hopen) hhonest hfit.2
      exact ⟨hall, hmessage'.trans hmessage⟩

/-- All transport bytes together unpack to all the frames' bytes. -/
theorem unpacked_whole (hlib : setting.snappy.Lawful) {decoder : SnappyStreamDecoder}
    {plain : Bytes} (h : Unpacked setting (transportBytes setting {} frames) decoder plain) :
    plain = (frames.map (frameBytes setting.config)).flatten := by
  rw [Unpacked, transportBytes] at h
  cases hnocomp : setting.config.nocomp with
  | true =>
      rw [hnocomp, if_pos rfl, if_pos rfl] at h
      exact h
  | false =>
      rw [hnocomp, if_neg (by simp), if_neg (by simp)] at h
      obtain ⟨items, hdrain, rfl⟩ := h
      have hall := Framing.drain_encode (encodes setting.snappy hlib)
        (compressedItems_goodItems setting.snappy setting.config frames) rfl
      have hitems : items = compressedItems setting.config false frames :=
        congrArg Parsed.items (hdrain.symm.trans hall)
      rw [← flatten_frameChunks, ← plains_compressedItems, hitems]

/-- Caught up with everything that was sent, a session has dispatched every frame. -/
theorem Received.complete (hlib : setting.snappy.Lawful)
    (hframes : ∀ frame ∈ frames, frame.Sendable setting.config)
    (h : Received setting s (transportBytes setting {} frames)) :
    s.dispatched = frames ∧ s.receiveBuffer = [] := by
  obtain ⟨-, plain, hunpacked, hparsed⟩ := h
  rw [unpacked_whole hlib hunpacked, Framing.drain_encode (frameFraming_encodes setting.config)
    (frames_goodItems hframes) rfl] at hparsed
  obtain ⟨hitems, hstanding⟩ := Parsed.mk.inj hparsed
  exact ⟨hitems.symm, (Standing.waiting.inj hstanding).2.symm⟩

/-- A session that was just set up has received nothing. -/
theorem launch_received {client : Bool} {handler : Option SmuxStream.Start} {now : ℕ}
    (h : launch setting client handler now = .ok s) : Received setting s [] := by
  obtain ⟨pad, timer, -, rfl⟩ := launch_eq_ok h
  refine ⟨rfl, [], ?_, Framing.drain_of_more rfl⟩
  by_cases hnocomp : setting.config.nocomp
  · rw [Unpacked, if_pos hnocomp]
  · rw [Unpacked, if_neg hnocomp]
    exact ⟨[], Framing.drain_of_more rfl, rfl⟩

/-! ### The round trip -/

end SmuxSession

/-- The calls the other side understands: `send_frame` with any command but UPD and a
payload whose length fits the header, and `send_update` in version 2 of the protocol. -/
def SessionCall.Writable (config : BaseConfig) : SessionCall → Prop
  | .sendFrame command _ payload => command ≠ .upd ∧ payload.length ≤ 65535
  | .sendUpdate _ _ _ => config.flowControlled
  | .streamClosed _ => False

/-- They put exactly one frame on the wire, and the peer accepts it. -/
theorem SessionCall.Writable.sendable {config : BaseConfig} {call : SessionCall}
    (h : call.Writable config) : ∃ frame, call.frame = some frame ∧ frame.Sendable config := by
  cases call with
  | sendFrame command streamId payload =>
      exact ⟨_, rfl, h.2, fun hupd => absurd hupd h.1⟩
  | sendUpdate streamId consumed window =>
      refine ⟨_, rfl, ?_, fun _ => ⟨h, ?_⟩⟩
      · simp
      · simp [smuxUpdateSize]
  | streamClosed streamId => exact absurd h id

namespace SmuxSession

variable {s r : SmuxSession}

/-- An open session transmits every such call. -/
theorem transmitted_of_writable {calls : List SessionCall}
    (h : ∀ call ∈ calls, call.Writable setting.config) :
    transmitted false calls = calls.filterMap SessionCall.frame ∧
      ∀ frame ∈ calls.filterMap SessionCall.frame, frame.Sendable setting.config := by
  have hsendable : ∀ frame ∈ calls.filterMap SessionCall.frame,
      frame.Sendable setting.config := by
    intro frame hmem
    obtain ⟨call, hcall, hframe⟩ := List.mem_filterMap.mp hmem
    obtain ⟨frame', hframe', hsend⟩ := (h call hcall).sendable
    rw [hframe] at hframe'
    obtain rfl := Option.some.inj hframe'
    exact hsend
  refine ⟨?_, hsendable⟩
  rw [transmitted, if_neg (by simp), List.filter_eq_self]
  intro frame hmem
  exact decide_eq_true (hsendable frame hmem).1

/-- **The round trip over the transport.** Any calls on an open session, the first ones of
its compressor if there is one, and any cut of the bytes they put on the transport into
arrivals that fit: a session just set up with the same settings dispatches the same frames
in order, reports no error and has nothing left over. -/
theorem wire_round_trip (hlib : setting.snappy.Lawful) {calls : List SessionCall}
    (hcalls : ∀ call ∈ calls, call.Writable setting.config) (hopen : s.closed = false)
    (hfirst : setting.config.nocomp = false → s.compressor.wroteIdentifier = false)
    {client : Bool} {handler : Option SmuxStream.Start} {now : ℕ}
    (hr : launch setting client handler now = .ok r) {arrivals : List (ℕ × Bytes)}
    (hsent : (calls.foldl (perform setting) s).outbox = s.outbox ++ carried arrivals)
    (hfit : ArrivalsFit setting r arrivals) :
    let f := r.receiveAll setting arrivals
    f.dispatched = calls.filterMap SessionCall.frame ∧ f.closed = false ∧
      f.protocolErrorMessage = none ∧ f.receiveBuffer = [] := by
  intro f
  obtain ⟨htransmitted, hframes⟩ := transmitted_of_writable hcalls
  have hbytes : carried arrivals =
      transportBytes setting {} (calls.filterMap SessionCall.frame) := by
    have hemits := (@foldl_perform_emits setting calls s).outbox
    rw [hsent, hopen, htransmitted] at hemits
    rw [List.append_cancel_left hemits]
    unfold transportBytes
    split_ifs with hnocomp
    · rfl
    · rw [hfirst (by simpa using hnocomp)]
  have hall : [] ++ carried arrivals ++ [] =
      transportBytes setting {} (calls.filterMap SessionCall.frame) := by
    rw [List.append_nil, List.nil_append, hbytes]
  obtain ⟨hreceived, hmessage⟩ := (launch_received hr).receiveAll hlib hframes hall hfit
  rw [List.nil_append, hbytes] at hreceived
  obtain ⟨hdispatched, hbuffer⟩ := hreceived.complete hlib hframes
  refine ⟨hdispatched, hreceived.isOpen, ?_, hbuffer⟩
  obtain ⟨pad, timer, -, rfl⟩ := launch_eq_ok hr
  exact hmessage

/-- A compressing client opens a stream, sends one byte and an update; the bytes arrive in
two parts, cut inside a chunk. -/
theorem opening_round_trip :
    let setting : Setting := ⟨{}, .uncalled, ⟨id, some⟩⟩
    let s : SmuxSession := { client := true, nextStreamId := 3 }
    let r : SmuxSession :=
      { client := false, nextStreamId := 0, acceptHandler := some .serverTcp
        keepaliveTimer := some 10 }
    let calls : List SessionCall :=
      [.sendFrame .syn 3 [], .sendFrame .psh 3 [7], .sendUpdate 3 1 2]
    let bytes := (calls.foldl (perform setting) s).outbox
    let f := r.receiveAll setting [(0, bytes.take 33), (1, bytes.drop 33)]
    f.dispatched = [⟨.syn, 3, []⟩, ⟨.psh, 3, [7]⟩, ⟨.upd, 3, [1, 0, 0, 0, 2, 0, 0, 0]⟩] ∧
      f.closed = false := by
  intro setting s r calls bytes f
  have hcalls : ∀ call ∈ calls, call.Writable setting.config := by
    simp [calls, setting, SessionCall.Writable, BaseConfig.flowControlled]
  have hsent : bytes = s.outbox ++ carried [(0, bytes.take 33), (1, bytes.drop 33)] := by
    simp [carried, s]
  have hfit : ArrivalsFit setting r [(0, bytes.take 33), (1, bytes.drop 33)] := by
    decide +kernel
  have h := wire_round_trip (fun _ => rfl) hcalls rfl (fun _ => rfl)
    (rfl : launch setting false (some .serverTcp) 0 = .ok r) hsent hfit
  exact ⟨h.1, h.2.1⟩

end SmuxSession

end Shimakaze
