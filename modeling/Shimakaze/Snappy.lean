import Shimakaze.Bytes
import Shimakaze.Crc
import Shimakaze.Lib.Framing
import Shimakaze.Lib.Transducer

/-!
# The Snappy Stream Layer

`SnappyStreamEncoder` and `SnappyStreamDecoder` wrap a byte stream into chunks of the
snappy framing format: a stream identifier once at the start, then one chunk for every 64
KiB of input, compressed when that is shorter, each with a masked CRC-32C of the plain
bytes. The decoder buffers arrivals and takes complete chunks off its buffer.

The compressor itself is not part of the repository and enters as the parameter
`SnappyLib`; what the code relies on is `SnappyLib.Lawful`: uncompressing a compressed
string gives the string back.

## Main results

* `snappyFraming`: the decoder's decision about its buffer is a `Framing`, so the library's
  segmentation results apply to it.
* `decodeLoop_eq_drain`: the loop of `decode` computes the draining of that framing.
* `encodes`: the chunks of the encoder are recognised by the decoder, whatever
  follows them.
* `decodeCalls_spec`: consecutive calls of `decode` drain the bytes they are given together.
* `stream_round_trip`: what any calls of the encoder produce, with chunks to be skipped put in
  between and cut anywhere, decodes to the encoder's input.
-/

namespace Shimakaze

/-- The functions of the snappy library. -/
structure SnappyLib where
  /-- `snappy::Compress`. -/
  compress : Bytes → Bytes
  /-- `snappy::Uncompress`; `none` when it returns false. -/
  uncompress : Bytes → Option Bytes

/-- What the code relies on: `Uncompress` inverts `Compress`. -/
def SnappyLib.Lawful (lib : SnappyLib) : Prop :=
  ∀ plain, lib.uncompress (lib.compress plain) = some plain

namespace Snappy

/-- `max_uncompressed_chunk`. -/
def maxUncompressedChunk : ℕ := 64 * 1024

/-- `stream_identifier`. -/
def streamIdentifier : Bytes := [0xff, 0x06, 0x00, 0x00, 0x73, 0x4e, 0x61, 0x50, 0x70, 0x59]

/-- The identifier's payload `sNaPpY`. -/
def identifierPayload : Bytes := [0x73, 0x4e, 0x61, 0x50, 0x70, 0x59]

/-- `mask_crc`. -/
def maskCrc (crc : UInt32) : UInt32 := ((crc >>> 15) ||| (crc <<< 17)) + 0xa282ead8

/-! ### The encoder -/

/-- `make_data_chunk`: type, 24-bit length, masked checksum, and the shorter of the
compressed and the plain bytes. -/
def makeDataChunk (lib : SnappyLib) (plain : Bytes) : Bytes :=
  let compressed := lib.compress plain
  let useCompressed := compressed.length < plain.length
  let payload := if useCompressed then compressed else plain
  [if useCompressed then 0x00 else 0x01] ++ writeLen24 (4 + payload.length) ++
    writeLe32 (maskCrc (crc32c plain)) ++ payload

/-- The pieces of at most `max_uncompressed_chunk` bytes that `encode` cuts its input
into. -/
def pieces : ℕ → Bytes → List Bytes
  | 0, _ => []
  | fuel + 1, bytes =>
      if bytes = [] then []
      else bytes.take maxUncompressedChunk :: pieces fuel (bytes.drop maxUncompressedChunk)

end Snappy

open Snappy

/-- `SnappyStreamEncoder`. -/
structure SnappyStreamEncoder where
  wroteIdentifier : Bool := false

/-- `SnappyStreamEncoder::encode`: the chunks produced and the encoder afterwards. -/
def SnappyStreamEncoder.encode (lib : SnappyLib) (encoder : SnappyStreamEncoder)
    (bytes : Bytes) : List Bytes × SnappyStreamEncoder :=
  ((if encoder.wroteIdentifier then [] else [streamIdentifier]) ++
    (pieces bytes.length bytes).map (makeDataChunk lib), ⟨true⟩)

/-- `SnappyStreamDecoder`. -/
structure SnappyStreamDecoder where
  buffer : Bytes := []
  sawIdentifier : Bool := false

namespace Snappy

/-- The body of the decoder's loop on one complete chunk: whether the identifier has been
seen afterwards and the plain bytes of a data chunk, or the error thrown. -/
def decodeChunk (lib : SnappyLib) (sawIdentifier : Bool) (chunkType : UInt8)
    (payload : Bytes) : Except String (Bool × Option Bytes) :=
  if chunkType = 0xff then
    if payload = identifierPayload then .ok (true, none)
    else .error "invalid snappy stream identifier"
  else if chunkType &&& 0x80 ≠ 0 then .ok (sawIdentifier, none)
  else if chunkType = 0x00 ∨ chunkType = 0x01 then
    if ¬ sawIdentifier then .error "snappy data chunk before stream identifier"
    else if payload.length < 4 then .error "invalid snappy data chunk length"
    else
      let data := payload.drop 4
      match (if chunkType = 0x00 then lib.uncompress data else some data) with
      | none => .error "snappy uncompress failed"
      | some plain =>
          if maskCrc (crc32c plain) ≠ readLe32 payload then .error "snappy crc mismatch"
          else .ok (sawIdentifier, some plain)
  else .error "unsupported unskippable snappy chunk"

/-- The loop of `decode`: the decoder afterwards, and the chunks decoded or the error
thrown. An exception leaves the bad chunk in the buffer and drops the chunks decoded in the
same call. -/
def decodeLoop (lib : SnappyLib) :
    ℕ → SnappyStreamDecoder → List Bytes → SnappyStreamDecoder × Except String (List Bytes)
  | 0, decoder, out => (decoder, .ok out)
  | fuel + 1, decoder, out =>
      if decoder.buffer.length < 4 then (decoder, .ok out)
      else
        let length := readLen24 (decoder.buffer.drop 1)
        if decoder.buffer.length < 4 + length then (decoder, .ok out)
        else
          match decodeChunk lib decoder.sawIdentifier (decoder.buffer.headD 0)
              ((decoder.buffer.drop 4).take length) with
          | .error message => (decoder, .error message)
          | .ok (sawIdentifier, plain) =>
              decodeLoop lib fuel ⟨decoder.buffer.drop (4 + length), sawIdentifier⟩
                (out ++ plain.toList)

end Snappy

/-- `SnappyStreamDecoder::decode`. Every round of the loop takes at least four bytes off
the buffer, so its length bounds the number of rounds. -/
def SnappyStreamDecoder.decode (lib : SnappyLib) (decoder : SnappyStreamDecoder)
    (bytes : Bytes) : SnappyStreamDecoder × Except String (List Bytes) :=
  let buffer := decoder.buffer ++ bytes
  decodeLoop lib buffer.length { decoder with buffer := buffer } []

namespace Snappy

/-! ### The decoder as a framing -/

/-- What the decoder decides about its buffer. -/
def verdict (lib : SnappyLib) (sawIdentifier : Bool) (buffer : Bytes) :
    Verdict (Bool × Option Bytes) String :=
  if buffer.length < 4 then .more
  else
    let length := readLen24 (buffer.drop 1)
    if buffer.length < 4 + length then .more
    else
      match decodeChunk lib sawIdentifier (buffer.headD 0) ((buffer.drop 4).take length) with
      | .error message => .fail message
      | .ok item => .item item (4 + length)

/-- A decision other than "more" is about a complete chunk at the front of the buffer. -/
theorem verdict_of_complete (lib : SnappyLib) (saw : Bool) {buffer : Bytes}
    (h₄ : 4 ≤ buffer.length) (hlen : 4 + readLen24 (buffer.drop 1) ≤ buffer.length) :
    verdict lib saw buffer =
      match decodeChunk lib saw (buffer.headD 0)
          ((buffer.drop 4).take (readLen24 (buffer.drop 1))) with
      | .error message => .fail message
      | .ok item => .item item (4 + readLen24 (buffer.drop 1)) := by
  simp only [verdict, Nat.not_lt.mpr h₄, Nat.not_lt.mpr hlen, if_false]

theorem complete_of_verdict_ne_more {lib : SnappyLib} {saw : Bool} {buffer : Bytes}
    (h : verdict lib saw buffer ≠ .more) :
    4 ≤ buffer.length ∧ 4 + readLen24 (buffer.drop 1) ≤ buffer.length := by
  refine ⟨Nat.le_of_not_lt fun hlt => h ?_, Nat.le_of_not_lt fun hlt => h ?_⟩
  · simp only [verdict, hlt, if_true]
  · simp only [verdict, hlt, if_true, ite_self]

/-- Bytes after a complete chunk do not change the decision about it. -/
theorem verdict_append {lib : SnappyLib} {saw : Bool} {buffer : Bytes} (later : Bytes)
    (h : verdict lib saw buffer ≠ .more) :
    verdict lib saw (buffer ++ later) = verdict lib saw buffer := by
  obtain ⟨h₄, hlen⟩ := complete_of_verdict_ne_more h
  have hread : readLen24 ((buffer ++ later).drop 1) = readLen24 (buffer.drop 1) := by
    rw [List.drop_append_of_le_length (by omega)]
    exact readLen24_append (by rw [List.length_drop]; omega) later
  have hhead : (buffer ++ later).headD 0 = buffer.headD 0 := by
    match buffer, h₄ with
    | _ :: _, _ => rfl
  have hpay : ((buffer ++ later).drop 4).take (readLen24 (buffer.drop 1)) =
      (buffer.drop 4).take (readLen24 (buffer.drop 1)) := by
    rw [List.drop_append_of_le_length h₄,
      List.take_append_of_le_length (by rw [List.length_drop]; omega)]
  rw [verdict_of_complete lib saw h₄ hlen,
    verdict_of_complete lib saw (by rw [List.length_append]; omega)
      (by rw [hread, List.length_append]; omega), hread, hhead, hpay]

/-- The size of a chunk, when the decision is that one is complete. -/
theorem size_of_verdict {lib : SnappyLib} {saw : Bool} {buffer : Bytes}
    {item : Bool × Option Bytes} {n : ℕ} (h : verdict lib saw buffer = .item item n) :
    n = 4 + readLen24 (buffer.drop 1) ∧ n ≤ buffer.length := by
  have hmore : verdict lib saw buffer ≠ .more := by rw [h]; simp
  obtain ⟨h₄, hlen⟩ := complete_of_verdict_ne_more hmore
  rw [verdict_of_complete lib saw h₄ hlen] at h
  split at h
  · cases h
  · obtain ⟨-, rfl⟩ := Verdict.item.inj h
    exact ⟨rfl, hlen⟩

/-- The decoder's loop as a framing of bytes into chunks. The state is whether the stream
identifier has been seen. -/
def snappyFraming (lib : SnappyLib) : Framing Bool UInt8 (Bool × Option Bytes) String where
  step := verdict lib
  next _ item := item.1
  size_pos h := by have := (size_of_verdict h).1; omega
  size_le h := (size_of_verdict h).2
  item_append later h := by rw [verdict_append later (by rw [h]; simp), h]
  fail_append later h := by rw [verdict_append later (by rw [h]; simp), h]

/-- The plain chunks among the decoded items. -/
def plains (items : List (Bool × Option Bytes)) : List Bytes :=
  items.flatMap fun item => item.2.toList

theorem plains_append (items more : List (Bool × Option Bytes)) :
    plains (items ++ more) = plains items ++ plains more := List.flatMap_append

/-- What `decode` makes of a draining: the tail stays in the buffer, the plain chunks are
returned, and an error is thrown. -/
def decodeResult (out : List Bytes) (r : Parsed Bool UInt8 (Bool × Option Bytes) String)
    (result : SnappyStreamDecoder × Except String (List Bytes)) : Prop :=
  match r.standing with
  | .waiting saw tail => result = (⟨tail, saw⟩, .ok (out ++ plains r.items))
  | .failed message => result.2 = .error message

/-- **The loop of `decode` drains the framing.** Induction on the fuel, which the buffer
never outgrows: each round takes at least four bytes. -/
theorem decodeLoop_eq_drain (lib : SnappyLib) :
    ∀ (fuel : ℕ) (buffer : Bytes) (saw : Bool) (out : List Bytes), buffer.length ≤ fuel →
      decodeResult out ((snappyFraming lib).drain saw buffer)
        (decodeLoop lib fuel ⟨buffer, saw⟩ out) := by
  intro fuel
  induction fuel with
  | zero =>
      intro buffer saw out hfuel
      obtain rfl : buffer = [] := List.length_eq_zero_iff.mp (Nat.le_zero.mp hfuel)
      rw [Framing.drain_of_more (F := snappyFraming lib) rfl]
      simp [decodeResult, decodeLoop, plains]
  | succ fuel ih =>
      intro buffer saw out hfuel
      by_cases hcomplete : 4 ≤ buffer.length ∧ 4 + readLen24 (buffer.drop 1) ≤ buffer.length
      · obtain ⟨h₄, hlen⟩ := hcomplete
        have hverdict := verdict_of_complete lib saw h₄ hlen
        simp only [decodeLoop, Nat.not_lt.mpr h₄, Nat.not_lt.mpr hlen, if_false]
        cases hchunk : decodeChunk lib saw (buffer.headD 0)
            ((buffer.drop 4).take (readLen24 (buffer.drop 1))) with
        | error message =>
            rw [hchunk] at hverdict
            rw [Framing.drain_of_fail (F := snappyFraming lib) hverdict]
            simp [decodeResult]
        | ok item =>
            rw [hchunk] at hverdict
            rw [Framing.drain_of_item (F := snappyFraming lib) hverdict]
            have h := ih (buffer.drop (4 + readLen24 (buffer.drop 1))) item.1
              (out ++ item.2.toList) (by rw [List.length_drop]; omega)
            revert h
            simp only [decodeResult, Parsed.after_standing, Parsed.after_items, plains_append,
              snappyFraming]
            split <;> simp [plains]
      · have hverdict : verdict lib saw buffer = .more := by
          by_contra h
          exact hcomplete (complete_of_verdict_ne_more h)
        rw [Framing.drain_of_more (F := snappyFraming lib) hverdict]
        rcases Nat.lt_or_ge buffer.length 4 with h₄ | h₄
        · simp [decodeResult, decodeLoop, h₄, plains]
        · have hlen : buffer.length < 4 + readLen24 (buffer.drop 1) := by
            by_contra h
            exact hcomplete ⟨h₄, Nat.le_of_not_lt h⟩
          simp only [decodeLoop, Nat.not_lt.mpr h₄, hlen, if_true, if_false]
          simp [decodeResult, plains]

/-! ### The encoder's chunks -/

theorem length_flatten_pieces :
    ∀ (fuel : ℕ) (bytes : Bytes), bytes.length ≤ fuel → (pieces fuel bytes).flatten = bytes
  | 0, bytes, h => (List.length_eq_zero_iff.mp (Nat.le_zero.mp h)).symm
  | fuel + 1, bytes, h => by
      by_cases hnil : bytes = []
      · simp [pieces, hnil]
      · have hpos : 0 < bytes.length := List.length_pos_iff.mpr hnil
        rw [pieces, if_neg hnil, List.flatten_cons, length_flatten_pieces fuel,
          List.take_append_drop]
        rw [List.length_drop]
        have : 0 < maxUncompressedChunk := by decide
        omega

/-- A call that fits in a chunk is one piece. -/
theorem pieces_eq_singleton {bytes : Bytes} (hnil : bytes ≠ [])
    (hfit : bytes.length ≤ maxUncompressedChunk) : pieces bytes.length bytes = [bytes] := by
  obtain ⟨n, hn⟩ := Nat.exists_eq_succ_of_ne_zero (List.length_pos_iff.mpr hnil).ne'
  rw [hn, pieces, if_neg hnil, List.take_of_length_le hfit, List.drop_of_length_le hfit]
  cases n with
  | zero => rfl
  | succ n => rw [pieces, if_pos rfl]

theorem length_le_of_mem_pieces :
    ∀ (fuel : ℕ) (bytes : Bytes), ∀ piece ∈ pieces fuel bytes,
      piece.length ≤ maxUncompressedChunk
  | 0, _, _, h => absurd h List.not_mem_nil
  | fuel + 1, bytes, piece, h => by
      by_cases hnil : bytes = []
      · simp [pieces, hnil] at h
      · rw [pieces, if_neg hnil] at h
        rcases List.mem_cons.mp h with rfl | h
        · exact List.length_take_le _ _
        · exact length_le_of_mem_pieces fuel _ piece h

/-- The chunk the encoder writes for a decoded item. -/
def encodeItem (lib : SnappyLib) (item : Bool × Option Bytes) : Bytes :=
  match item.2 with
  | none => streamIdentifier
  | some plain => makeDataChunk lib plain

/-- The items the encoder writes: the identifier, and after it data chunks of at most 64
KiB. -/
def Written (saw : Bool) (item : Bool × Option Bytes) : Prop :=
  item.1 = true ∧ ∀ plain, item.2 = some plain →
    saw = true ∧ plain.length ≤ maxUncompressedChunk

/-- The payload of a data chunk is never longer than the plain bytes. -/
theorem makeDataChunk_payload (lib : SnappyLib) (plain : Bytes) :
    ∃ t payload, (t = 0x00 ∧ payload = lib.compress plain ∨ t = 0x01 ∧ payload = plain) ∧
      payload.length ≤ plain.length ∧
      makeDataChunk lib plain =
        t :: (writeLen24 (4 + payload.length) ++
          (writeLe32 (maskCrc (crc32c plain)) ++ payload)) := by
  by_cases h : (lib.compress plain).length < plain.length
  · exact ⟨0x00, lib.compress plain, Or.inl ⟨rfl, rfl⟩, h.le, by simp [makeDataChunk, h]⟩
  · exact ⟨0x01, plain, Or.inr ⟨rfl, rfl⟩, le_rfl, by simp [makeDataChunk, h]⟩

/-- The decoder's decision about a data chunk, whatever follows it. -/
theorem verdict_makeDataChunk {lib : SnappyLib} (hlib : lib.Lawful) {plain : Bytes}
    (hplain : plain.length ≤ maxUncompressedChunk) (later : Bytes) :
    verdict lib true (makeDataChunk lib plain ++ later) =
      .item (true, some plain) (makeDataChunk lib plain).length := by
  obtain ⟨t, payload, ht, hle, hchunk⟩ := makeDataChunk_payload lib plain
  have hmax : maxUncompressedChunk = 65536 := rfl
  set body := writeLe32 (maskCrc (crc32c plain)) ++ payload with hbody
  have hbodylen : body.length = 4 + payload.length := by simp [hbody]
  have hread : readLen24 ((makeDataChunk lib plain).drop 1) = 4 + payload.length := by
    rw [hchunk, List.drop_succ_cons, List.drop_zero]
    exact readLen24_writeLen24 (by omega) body
  have hlen : (makeDataChunk lib plain).length = 4 + (4 + payload.length) := by
    rw [hchunk, List.length_cons, List.length_append, length_writeLen24, hbodylen]
    omega
  have hdrop : ((makeDataChunk lib plain).drop 4).take (4 + payload.length) = body := by
    rw [hchunk, List.drop_succ_cons, List.drop_left' (length_writeLen24 _),
      List.take_of_length_le hbodylen.le]
  have hdecode : decodeChunk lib true t body = .ok (true, some plain) := by
    have hcrc : readLe32 body = maskCrc (crc32c plain) := readLe32_writeLe32 _ _
    have hdata : body.drop 4 = payload := List.drop_left' (length_writeLe32 _)
    have h₄ : ¬ body.length < 4 := by omega
    rcases ht with ⟨rfl, hp⟩ | ⟨rfl, hp⟩
    · simp [decodeChunk, hcrc, hdata, h₄, hp, hlib plain]
    · have hskip : (0x01 : UInt8) &&& 0x80 = 0 := by decide
      simp [decodeChunk, hskip, hcrc, hdata, h₄, hp]
  have hhead : (makeDataChunk lib plain).headD 0 = t := by rw [hchunk]; rfl
  have hverdict : verdict lib true (makeDataChunk lib plain) =
      .item (true, some plain) (makeDataChunk lib plain).length := by
    rw [verdict_of_complete lib true (by omega) (by omega), hread, hhead, hdrop, hdecode, hlen]
  rw [verdict_append later (by rw [hverdict]; simp), hverdict]

/-- **The decoder recognises what the encoder writes.** -/
theorem encodes (lib : SnappyLib) (hlib : lib.Lawful) :
    (snappyFraming lib).Encodes (encodeItem lib) Written := by
  rintro saw ⟨saw', plain⟩ ⟨hsaw, hgood⟩ later
  obtain rfl : saw' = true := hsaw
  cases plain with
  | none =>
      have hdecode : decodeChunk lib saw 0xff identifierPayload = .ok (true, none) := by
        simp [decodeChunk]
      have h : verdict lib saw streamIdentifier = .item (true, none) 10 := by
        rw [verdict_of_complete lib saw (by decide) (by decide)]
        exact congrArg (fun r => match r with
          | .error message => Verdict.fail message
          | .ok item => .item item 10) hdecode
      have hne : verdict lib saw streamIdentifier ≠ .more := by rw [h]; simp
      simp only [snappyFraming, encodeItem]
      rw [verdict_append later hne, h]
      rfl
  | some plain =>
      obtain ⟨rfl, hlen⟩ := hgood plain rfl
      exact verdict_makeDataChunk hlib hlen later

/-! ### Consecutive calls -/

/-- Consecutive `encode` calls: the chunks of each, and the encoder afterwards. -/
def encodeCalls (lib : SnappyLib) (encoder : SnappyStreamEncoder) (calls : List Bytes) :
    List (List Bytes) × SnappyStreamEncoder :=
  Transducer.run (SnappyStreamEncoder.encode lib) encoder calls

/-- Consecutive `decode` calls, up to the first that throws: the chunks of each. -/
def decodeCalls (lib : SnappyLib) (decoder : SnappyStreamDecoder) :
    List Bytes → SnappyStreamDecoder × Except String (List (List Bytes))
  | [] => (decoder, .ok [])
  | arrival :: arrivals =>
      match decoder.decode lib arrival with
      | (decoder, .error message) => (decoder, .error message)
      | (decoder, .ok out) =>
          match decodeCalls lib decoder arrivals with
          | (decoder, .error message) => (decoder, .error message)
          | (decoder, .ok outs) => (decoder, .ok (out :: outs))

/-- **Consecutive calls drain their bytes together**, as long as these do not fail. The
induction carries that the buffer holds no complete chunk. -/
theorem decodeCalls_spec (lib : SnappyLib) (arrivals : List Bytes) :
    ∀ {saw saw' : Bool} {tail tail' : Bytes} {items : List (Bool × Option Bytes)},
      verdict lib saw tail = .more →
      (snappyFraming lib).drain saw (tail ++ arrivals.flatten) = ⟨items, .waiting saw' tail'⟩ →
      ∃ outs, decodeCalls lib ⟨tail, saw⟩ arrivals = (⟨tail', saw'⟩, .ok outs) ∧
        outs.flatten = plains items := by
  induction arrivals with
  | nil =>
      intro saw saw' tail tail' items hmore hdrain
      rw [List.flatten_nil, List.append_nil,
        Framing.drain_of_more (F := snappyFraming lib) hmore] at hdrain
      obtain ⟨rfl, hstanding⟩ := Parsed.mk.inj hdrain
      obtain ⟨rfl, rfl⟩ := Standing.waiting.inj hstanding
      exact ⟨[], rfl, rfl⟩
  | cons arrival arrivals ih =>
      intro saw saw' tail tail' items hmore hdrain
      rw [List.flatten_cons, ← List.append_assoc, (snappyFraming lib).drain_append] at hdrain
      have hloop := decodeLoop_eq_drain lib _ (tail ++ arrival) saw [] le_rfl
      cases hstanding : ((snappyFraming lib).drain saw (tail ++ arrival)).standing with
      | failed message =>
          rw [Framing.feed_of_failed _ hstanding] at hdrain
          rw [hdrain] at hstanding
          cases hstanding
      | waiting s t =>
          rw [Framing.feed_of_waiting _ hstanding] at hdrain
          obtain ⟨hitems, hrest⟩ := Parsed.mk.inj hdrain
          simp only [decodeResult, hstanding, List.nil_append] at hloop
          obtain ⟨outs, houts, hplain⟩ := @ih s saw' t tail'
            ((snappyFraming lib).drain s (t ++ arrivals.flatten)).items
            (Framing.step_eq_more_of_drain hstanding) (by rw [← hrest])
          have hdecode : SnappyStreamDecoder.decode lib ⟨tail, saw⟩ arrival =
              (⟨t, s⟩, .ok (plains ((snappyFraming lib).drain saw (tail ++ arrival)).items)) :=
            hloop
          refine ⟨plains ((snappyFraming lib).drain saw (tail ++ arrival)).items :: outs, ?_, ?_⟩
          · simp only [decodeCalls, hdecode, houts]
          · rw [List.flatten_cons, hplain, ← plains_append, hitems]

/-! ### Chunks put in between -/

/-- The chunks that say nothing about the data: another stream identifier, and the chunks to
be skipped. -/
inductive Inserted : Bytes → Prop
  | identifier : Inserted streamIdentifier
  | skippable (chunkType : UInt8) (body : Bytes) (hlow : 0x80 ≤ chunkType.toNat)
      (hhigh : chunkType.toNat ≤ 0xfe) (hbody : body.length < 2 ^ 24) :
      Inserted (chunkType :: (writeLen24 body.length ++ body))

/-- A list of chunks with others put in anywhere. -/
inductive WithInserted : List Bytes → List Bytes → Prop
  | nil : WithInserted [] []
  | chunk (chunk : Bytes) {chunks stream : List Bytes} (h : WithInserted chunks stream) :
      WithInserted (chunk :: chunks) (chunk :: stream)
  | insert {inserted : Bytes} {chunks stream : List Bytes} (hinserted : Inserted inserted)
      (h : WithInserted chunks stream) : WithInserted chunks (inserted :: stream)

/-- The produced chunks with others put in after the first, the stream identifier. -/
inductive Interspersed : List Bytes → List Bytes → Prop
  | nothing : Interspersed [] []
  | first (chunk : Bytes) {chunks stream : List Bytes} (h : WithInserted chunks stream) :
      Interspersed (chunk :: chunks) (chunk :: stream)

/-- The identifier is recognised in every state. -/
theorem recognises_identifier {lib : SnappyLib} (hlib : lib.Lawful) (saw : Bool) :
    (snappyFraming lib).Recognises saw streamIdentifier (true, none) :=
  fun later => encodes lib hlib saw (true, none) ⟨rfl, fun _ h => nomatch h⟩ later

/-- Data chunks are recognised after the identifier. -/
theorem recognises_data {lib : SnappyLib} (hlib : lib.Lawful) {plain : Bytes}
    (hplain : plain.length ≤ maxUncompressedChunk) :
    (snappyFraming lib).Recognises true (makeDataChunk lib plain) (true, some plain) :=
  fun later => verdict_makeDataChunk hlib hplain later

/-- A chunk to be skipped has the high bit in its type, and is not the identifier's. -/
theorem skippable_type {chunkType : UInt8} (hlow : 0x80 ≤ chunkType.toNat)
    (hhigh : chunkType.toNat ≤ 0xfe) : chunkType ≠ 0xff ∧ chunkType &&& 0x80 ≠ 0 := by
  have hbits : ∀ n < 256, 0x80 ≤ n → UInt8.ofNat n &&& 0x80 ≠ 0 := by
    decide +kernel
  refine ⟨fun heq => ?_, ?_⟩
  · rw [heq] at hhigh
    exact absurd hhigh (by decide)
  · have hbit := hbits chunkType.toNat chunkType.toNat_lt hlow
    rwa [UInt8.ofNat_toNat] at hbit

/-- What is put in is recognised after the identifier, as nothing. -/
theorem recognises_inserted {lib : SnappyLib} (hlib : lib.Lawful) {inserted : Bytes}
    (h : Inserted inserted) : (snappyFraming lib).Recognises true inserted (true, none) := by
  cases h with
  | identifier => exact recognises_identifier hlib true
  | skippable chunkType body hlow hhigh hbody =>
      intro later
      obtain ⟨htype, hbit⟩ := skippable_type hlow hhigh
      have hread : readLen24 ((chunkType :: (writeLen24 body.length ++ body)).drop 1) =
          body.length := by
        rw [List.drop_succ_cons, List.drop_zero]
        exact readLen24_writeLen24 hbody body
      have hlength : (chunkType :: (writeLen24 body.length ++ body)).length = 4 + body.length := by
        rw [List.length_cons, List.length_append, length_writeLen24]
        omega
      have hdecode : ∀ payload, decodeChunk lib true chunkType payload = .ok (true, none) :=
        fun payload => by rw [decodeChunk, if_neg htype, if_pos hbit]
      have hverdict : verdict lib true (chunkType :: (writeLen24 body.length ++ body)) =
          .item (true, none) (chunkType :: (writeLen24 body.length ++ body)).length := by
        rw [verdict_of_complete lib true (by omega) (by omega), List.headD_cons, hdecode, hread,
          hlength]
      rw [← hverdict]
      exact verdict_append later (by rw [hverdict]; simp)

/-- Data chunks with others put in, taken apart: the data and nothing else. -/
theorem chunks_of_withInserted {lib : SnappyLib} (hlib : lib.Lawful) {chunks stream : List Bytes}
    (h : WithInserted chunks stream) :
    ∀ {plain : List Bytes}, (∀ piece ∈ plain, piece.length ≤ maxUncompressedChunk) →
      chunks = plain.map (makeDataChunk lib) →
      ∃ items, (snappyFraming lib).Chunks true stream items true ∧ plains items = plain := by
  induction h with
  | nil =>
      intro plain _ hchunks
      obtain rfl : plain = [] := List.map_eq_nil_iff.mp hchunks.symm
      exact ⟨[], .nil true, rfl⟩
  | chunk chunk _ ih =>
      intro plain hplain hchunks
      obtain ⟨piece, rest, rfl, rfl, hrest⟩ := List.map_eq_cons_iff.mp hchunks.symm
      obtain ⟨items, hitems, hplains⟩ :=
        ih (fun p hp => hplain p (List.mem_cons_of_mem _ hp)) hrest.symm
      refine ⟨(true, some piece) :: items, .cons ?_ hitems, ?_⟩
      · exact recognises_data hlib (hplain piece List.mem_cons_self)
      · rw [← hplains]
        rfl
  | insert hinserted _ ih =>
      intro plain hplain hchunks
      obtain ⟨items, hitems, hplains⟩ := ih hplain hchunks
      exact ⟨(true, none) :: items, .cons (recognises_inserted hlib hinserted) hitems, hplains⟩

/-- The pieces of all calls. -/
def allPieces (calls : List Bytes) : List Bytes := calls.flatMap fun call => pieces call.length call

theorem allPieces_cons (call : Bytes) (calls : List Bytes) :
    allPieces (call :: calls) = pieces call.length call ++ allPieces calls := List.flatMap_cons

theorem flatten_allPieces (calls : List Bytes) : (allPieces calls).flatten = calls.flatten := by
  induction calls with
  | nil => rfl
  | cons call calls ih =>
      rw [allPieces_cons, List.flatten_append, length_flatten_pieces _ _ le_rfl, ih,
        List.flatten_cons]

theorem length_of_mem_allPieces {calls : List Bytes} :
    ∀ piece ∈ allPieces calls, piece.length ≤ maxUncompressedChunk := by
  intro piece hpiece
  obtain ⟨call, -, hpiece⟩ := List.mem_flatMap.mp hpiece
  exact length_le_of_mem_pieces _ _ piece hpiece

/-- After the identifier, the calls produce the data chunks of their pieces. -/
theorem encodeCalls_started (lib : SnappyLib) (calls : List Bytes) :
    (encodeCalls lib ⟨true⟩ calls).1.flatten = (allPieces calls).map (makeDataChunk lib) := by
  induction calls with
  | nil => rfl
  | cons call calls ih =>
      have hcons : (encodeCalls lib ⟨true⟩ (call :: calls)).1 =
          (pieces call.length call).map (makeDataChunk lib) :: (encodeCalls lib ⟨true⟩ calls).1 :=
        rfl
      rw [hcons, List.flatten_cons, ih, allPieces_cons, List.map_append]

/-- The first call produces the identifier too. -/
theorem encodeCalls_fresh (lib : SnappyLib) (call : Bytes) (calls : List Bytes) :
    (encodeCalls lib {} (call :: calls)).1.flatten =
      streamIdentifier :: (allPieces (call :: calls)).map (makeDataChunk lib) := by
  have hcons : (encodeCalls lib {} (call :: calls)).1.flatten =
      streamIdentifier :: (encodeCalls lib ⟨true⟩ (call :: calls)).1.flatten := rfl
  rw [hcons, encodeCalls_started]

/-- **The stream round trip, however the bytes are cut.** Whatever inputs are encoded one
after another, and whatever identifiers and chunks to be skipped are put in after the first
identifier: over any cuts of the bytes into `decode` calls none of them throws, together they
return the encoder's inputs, and the decoder's buffer ends empty. -/
theorem stream_round_trip {lib : SnappyLib} (hlib : lib.Lawful) (calls stream arrivals : List Bytes)
    (hstream : Interspersed (encodeCalls lib {} calls).1.flatten stream)
    (hcut : arrivals.flatten = stream.flatten) :
    ∃ decoder outs, decodeCalls lib {} arrivals = (decoder, .ok outs) ∧
      outs.flatten.flatten = calls.flatten ∧ decoder.buffer = [] := by
  have hchunks : ∃ saw items, (snappyFraming lib).Chunks false stream items saw ∧
      plains items = allPieces calls := by
    cases calls with
    | nil =>
        cases hstream with
        | nothing => exact ⟨false, [], .nil false, rfl⟩
    | cons call calls =>
        rw [encodeCalls_fresh] at hstream
        cases hstream with
        | first _ h =>
            obtain ⟨items, hitems, hplains⟩ :=
              chunks_of_withInserted hlib h length_of_mem_allPieces rfl
            exact ⟨true, (true, none) :: items,
              .cons (recognises_identifier hlib false) hitems, hplains⟩
  obtain ⟨saw, items, hitems, hplains⟩ := hchunks
  have hdrain := Framing.drain_chunks hitems rfl
  rw [← hcut] at hdrain
  obtain ⟨outs, houts, hout⟩ := @decodeCalls_spec lib arrivals _ _ [] _ _ rfl hdrain
  refine ⟨⟨[], saw⟩, outs, houts, ?_, rfl⟩
  rw [hout, hplains, flatten_allPieces]

/-- The format of snappy for short inputs without repetitions: the length and one literal.
Longer inputs are kept behind a mark of their own. -/
def literals : SnappyLib where
  compress plain :=
    if plain = [] then [0]
    else if plain.length ≤ 60 then
      UInt8.ofNat plain.length :: UInt8.ofNat (4 * (plain.length - 1)) :: plain
    else 0xff :: plain
  uncompress
    | [] => none
    | length :: rest =>
        if length = 0 then some [] else if length = 0xff then some rest else some rest.tail

theorem literals_lawful : literals.Lawful := by
  intro plain
  simp only [literals]
  by_cases hnil : plain = []
  · simp [hnil]
  · by_cases hshort : plain.length ≤ 60
    · have hpos := List.length_pos_iff.mpr hnil
      have hlength : ∀ n < 61, 0 < n → UInt8.ofNat n ≠ 0 ∧ UInt8.ofNat n ≠ 0xff := by decide
      obtain ⟨hzero, hmark⟩ := hlength plain.length (by omega) hpos
      simp only [if_neg hnil, if_pos hshort, if_neg hzero, if_neg hmark, List.tail_cons]
    · simp [hnil, hshort]

/-- Two inputs, a chunk to be skipped between them, cut inside the identifier and inside a
header. -/
theorem two_inputs_round_trip :
    ∃ bytes decoder outs,
      bytes = [streamIdentifier, makeDataChunk literals [1, 2, 3], [0x80, 1, 0, 0, 9],
        makeDataChunk literals [4]].flatten ∧
      decodeCalls literals {} [bytes.take 7, (bytes.drop 7).take 6, [], (bytes.drop 7).drop 6] =
        (decoder, .ok outs) ∧
      outs.flatten.flatten = [1, 2, 3, 4] ∧ decoder.buffer = [] := by
  have hstream : Interspersed (encodeCalls literals {} [[1, 2, 3], [], [4]]).1.flatten
      [streamIdentifier, makeDataChunk literals [1, 2, 3], [0x80, 1, 0, 0, 9],
        makeDataChunk literals [4]] :=
    .first _ (.chunk _ (.insert (.skippable 0x80 [9] (by decide) (by decide) (by decide))
      (.chunk _ .nil)))
  have hcut : ∀ bytes : Bytes,
      [bytes.take 7, (bytes.drop 7).take 6, [], (bytes.drop 7).drop 6].flatten = bytes :=
    fun bytes => by
      simp only [List.flatten_cons, List.flatten_nil, List.append_nil, List.nil_append,
        List.take_append_drop]
  obtain ⟨decoder, outs, hrun⟩ :=
    stream_round_trip literals_lawful [[1, 2, 3], [], [4]] _ _ hstream (hcut _)
  exact ⟨_, decoder, outs, rfl, hrun⟩

end Snappy

end Shimakaze
