import Shimakaze.Fec.Delivery

/-!
# Decoding Arbitrary Packets

Nothing a peer sends makes the decoder throw or reach past the end of a container. The
accesses of each function are written down next to each other as the bounds they need
(`ColumnInRange`, `InvertInRange`, `ReconstructInRange`, `DecodeInRange`); the bounds follow
from the shapes the containers keep, and the errors of the inversion are out of reach because
any choice of rows of the coding matrix is invertible.

## Main results

* `ByteMatrix.invert_inRange`: the inversion loops stay inside the work matrix.
* `FecCodec.decode_inRange`: so does decoding, in its sets and in what it reconstructs.
* `FecCodec.decode_safe`: in every state a run of arbitrary packets reaches, every further
  packet is decoded without an error, with every access in range, and what it returns is the
  packet, its payload, or a slice of a reconstructed shard.
-/

namespace Shimakaze

namespace ByteMatrix

/-! ### The work matrix keeps its shape -/

section Shapes

variable {n k r : ℕ} {work : ByteMatrix}

theorem Shape.bringPivot (h : Shape n k work) (hr : r < n) : Shape n k (bringPivot n work r) := by
  rw [ByteMatrix.bringPivot]
  by_cases hzero : entry work r r = 0
  · rw [if_pos hzero]
    cases hfind : (rowsBelow n r).find? fun row => entry work row r ≠ 0 with
    | none => exact h
    | some row => exact h.swapRows hr (mem_rowsBelow.mp (List.mem_of_find?_eq_some hfind)).2
  · rwa [if_neg hzero]

theorem Shape.normalizePivot (h : Shape n k work) (hr : r < n) {scaled : ByteMatrix}
    (hscaled : normalizePivot work r = .ok scaled) : Shape n k scaled := by
  rw [ByteMatrix.normalizePivot] at hscaled
  by_cases hone : entry work r r ≠ 1
  · rw [if_pos hone] at hscaled
    cases hinv : gfInv (entry work r r) with
    | error e =>
        rw [hinv] at hscaled
        cases hscaled
    | ok scale =>
        rw [hinv] at hscaled
        obtain rfl := Except.ok.inj hscaled
        exact h.scaleRow hr scale
  · rw [if_neg hone] at hscaled
    obtain rfl := Except.ok.inj hscaled
    exact h

theorem Shape.clearRows (h : Shape n k work) (hr : r < n) (rows : List ℕ)
    (hrows : ∀ row ∈ rows, row < n) : Shape n k (clearRows work r rows) := by
  induction rows generalizing work with
  | nil => exact h
  | cons row rows ih =>
      exact ih (h.clearEntry hr (hrows row List.mem_cons_self))
        fun row' hrow' => hrows row' (List.mem_cons_of_mem _ hrow')

theorem Shape.reduceColumn (h : Shape n k work) (hr : r < n) {reduced : ByteMatrix}
    (hreduced : reduceColumn n work r = .ok reduced) : Shape n k reduced := by
  by_cases hpivot : entry (ByteMatrix.bringPivot n work r) r r = 0
  · simp only [ByteMatrix.reduceColumn, if_pos hpivot] at hreduced
    cases hreduced
  · simp only [ByteMatrix.reduceColumn, if_neg hpivot] at hreduced
    cases hscaled : ByteMatrix.normalizePivot (ByteMatrix.bringPivot n work r) r with
    | error e =>
        rw [hscaled] at hreduced
        cases hreduced
    | ok scaled =>
        rw [hscaled] at hreduced
        obtain rfl := Except.ok.inj hreduced
        exact ((h.bringPivot hr).normalizePivot hr hscaled).clearRows hr _
          fun row hrow => (mem_rowsBelow.mp hrow).2

/-- The first pass over any columns keeps the shape. Induction on the columns. -/
theorem Shape.reduceColumns (h : Shape n k work) {columns : List ℕ}
    (hcolumns : ∀ r ∈ columns, r < n) {reduced : ByteMatrix}
    (hreduced : columns.foldlM (ByteMatrix.reduceColumn n) work = .ok reduced) :
    Shape n k reduced := by
  induction columns generalizing work with
  | nil =>
      obtain rfl := Except.ok.inj hreduced
      exact h
  | cons r columns ih =>
      rw [List.foldlM_cons] at hreduced
      cases hfirst : ByteMatrix.reduceColumn n work r with
      | error e =>
          rw [hfirst] at hreduced
          cases hreduced
      | ok first =>
          rw [hfirst] at hreduced
          exact ih (h.reduceColumn (hcolumns r List.mem_cons_self) hfirst)
            (fun r' hr' => hcolumns r' (List.mem_cons_of_mem _ hr')) hreduced

/-- The first pass up to any column keeps the shape. -/
theorem Shape.firstPass (h : Shape n k work) {columns : ℕ} (hcolumns : columns ≤ n)
    {reduced : ByteMatrix}
    (hreduced : (List.range columns).foldlM (ByteMatrix.reduceColumn n) work = .ok reduced) :
    Shape n k reduced :=
  h.reduceColumns (fun _ hr => (List.mem_range.mp hr).trans_le hcolumns) hreduced

/-- The second pass over any number of columns keeps the shape. -/
theorem Shape.secondPass (h : Shape n k work) {columns : ℕ} (hcolumns : columns ≤ n) :
    Shape n k ((List.range columns).foldl clearAbove work) := by
  induction columns with
  | zero => exact h
  | succ columns ih =>
      rw [List.range_succ, List.foldl_append]
      exact (ih (by omega)).clearRows (by omega) _
        fun row hrow => (List.mem_range.mp hrow).trans (by omega)

end Shapes

/-! ### The accesses of the inversion -/

/-- The accesses to the work matrix while the first pass is at column `r`: whichever of its
loops runs, the matrix has `size` rows of `size * 2` entries. -/
structure ColumnInRange (size r : ℕ) (work : ByteMatrix) : Prop where
  start : Shape size (size * 2) work
  pivot : Shape size (size * 2) (bringPivot size work r)
  clearing : ∀ scaled, normalizePivot (bringPivot size work r) r = .ok scaled →
    ∀ count, Shape size (size * 2) (clearRows scaled r ((rowsBelow size r).take count))

/-- The accesses of `invert_matrix`: the entries of the input, and those of the work matrix in
both passes and when its right half is copied out. -/
structure InvertInRange (input : ByteMatrix) : Prop where
  entries : ∀ row ∈ input, input.length ≤ row.length
  firstPass : ∀ r < input.length, ∀ work,
    (List.range r).foldlM (reduceColumn input.length) (augmented input) = .ok work →
      ColumnInRange input.length r work
  secondPass : ∀ d < input.length, ∀ work,
    (List.range input.length).foldlM (reduceColumn input.length) (augmented input) = .ok work →
      ∀ count ≤ d, Shape input.length (input.length * 2)
        (clearRows ((List.range d).foldl clearAbove work) d (List.range count))
  copied : ∀ work,
    (List.range input.length).foldlM (reduceColumn input.length) (augmented input) = .ok work →
      Shape input.length (input.length * 2) ((List.range input.length).foldl clearAbove work)

/-- **The inversion stays inside its matrices**, singular or not. -/
theorem invert_inRange {n : ℕ} {input : ByteMatrix} (h : Shape n n input) :
    InvertInRange input := by
  obtain rfl : input.length = n := h.rows_eq
  have hstart : Shape input.length (input.length * 2) (augmented input) := (augmented_spec h).1
  refine ⟨fun row hrow => (h.cols_eq row hrow).ge, fun r hr work hwork => ?_,
    fun d hd work hwork count hcount => ?_, fun work hwork => ?_⟩
  · have hshape := hstart.firstPass hr.le hwork
    refine ⟨hshape, hshape.bringPivot hr, fun scaled hscaled count => ?_⟩
    exact ((hshape.bringPivot hr).normalizePivot hr hscaled).clearRows hr _
      fun row hrow => (mem_rowsBelow.mp (List.mem_of_mem_take hrow)).2
  · exact ((hstart.firstPass le_rfl hwork).secondPass hd.le).clearRows hd _
      fun row hrow => (List.mem_range.mp hrow).trans (by omega)
  · exact (hstart.firstPass le_rfl hwork).secondPass le_rfl

end ByteMatrix

open ByteMatrix

/-! ### The accesses of the reconstruction -/

/-- The accesses of `reconstruct_data` when enough shards are present. -/
structure ReconstructInRange (rs : ReedSolomon) (shards : List Bytes) (present : List Bool) :
    Prop where
  presentAll : rs.totalShards ≤ present.length
  chosen : (rs.validIndices present).length = rs.dataShards
  front : rs.validIndices present ≠ []
  chosenRow : ∀ i ∈ rs.validIndices present, i < rs.matrix.length ∧ i < shards.length
  invert : InvertInRange ((rs.validIndices present).map fun i => rs.matrix.getD i [])
  decodeRow : ∀ dataDecode,
    invertMatrix ((rs.validIndices present).map fun i => rs.matrix.getD i []) = .ok dataDecode →
      dataDecode.length = rs.dataShards ∧ ∀ row ∈ dataDecode, row.length = rs.dataShards
  chosenByte : ∀ i ∈ rs.validIndices present,
    (shards.getD ((rs.validIndices present).headD 0) []).length ≤ (shards.getD i []).length
  missing : rs.dataShards ≤ present.length ∧ rs.dataShards ≤ shards.length

namespace ReedSolomon

variable {rs : ReedSolomon} {d p : ℕ} {present : List Bool}

/-- A chosen index is that of a shard that is present. -/
theorem mem_validIndices {i : ℕ} (hi : i ∈ rs.validIndices present) :
    i < rs.totalShards ∧ present.getD i false = true := by
  obtain ⟨hrange, hpresent⟩ := List.mem_filter.mp (List.mem_of_mem_take hi)
  exact ⟨List.mem_range.mp hrange, hpresent⟩

/-- **Reconstruction stays in range** if the shards present are of one length. -/
theorem reconstruct_inRange (h : rs.Valid d p) (hd : 0 < d) {shards : List Bytes} {len : ℕ}
    (hshards : shards.length = d + p) (hpresent : present.length = d + p)
    (henough : d ≤ present.count true)
    (hlen : ∀ i < d + p, present.getD i false = true → (shards.getD i []).length = len) :
    ReconstructInRange rs shards present := by
  have hcount := length_validIndices h hpresent
  have hchosen : d ≤ (rs.validIndices present).length := by omega
  obtain ⟨hlength, rows, hinjective, hrows⟩ := exists_rows h hchosen
  obtain ⟨out, hinvert, hout, -⟩ := invert_chosen h hlength hinjective fun r => (hrows r).1
  obtain ⟨hdata, -, htotal, hcoding⟩ := h
  have hmem : ∀ i ∈ rs.validIndices present, i < d + p ∧ present.getD i false = true :=
    fun i hi => htotal ▸ mem_validIndices hi
  have hnonempty : rs.validIndices present ≠ [] := fun hnil => by
    rw [hnil, List.length_nil] at hlength
    omega
  have hshape : Shape d d ((rs.validIndices present).map fun i => rs.matrix.getD i []) := by
    refine ⟨(List.length_map ..).trans hlength, fun row hrow => ?_⟩
    obtain ⟨i, hi, rfl⟩ := List.mem_map.mp hrow
    exact hcoding.shape.length_getD (hmem i hi).1
  refine ⟨(htotal.trans hpresent.symm).le, hlength.trans hdata.symm, hnonempty,
    fun i hi => ?_, invert_inRange hshape, fun dataDecode hdecode => ?_, fun i hi => ?_, ?_⟩
  · rw [hcoding.shape.rows_eq, hshards]
    exact ⟨(hmem i hi).1, (hmem i hi).1⟩
  · obtain rfl := Except.ok.inj (hinvert.symm.trans hdecode)
    rw [hdata]
    exact ⟨hout.rows_eq, hout.cols_eq⟩
  · have hfront : (rs.validIndices present).headD 0 ∈ rs.validIndices present := by
      cases hvalid : rs.validIndices present with
      | nil => exact absurd hvalid hnonempty
      | cons i rest => exact List.mem_cons_self
    rw [hlen _ (hmem _ hfront).1 (hmem _ hfront).2, hlen i (hmem i hi).1 (hmem i hi).2]
  · rw [hdata, hpresent, hshards]
    exact ⟨Nat.le_add_right _ _, Nat.le_add_right _ _⟩

end ReedSolomon

namespace FecCodec

/-! ### The accesses of decoding -/

/-- The set of a packet's group with the packet put in. -/
def setWith (codec : FecCodec) (packet : Bytes) : ShardSet :=
  (codec.shardSet (packetSeq packet / codec.shardSize32)).insert
    (packetSeq packet % codec.shardSize32).toNat (packet.drop fecHeaderSize)
    (packetFlag packet = fecTypeData)

/-- The number of the group a packet names. -/
def shardIdOf (codec : FecCodec) (packet : Bytes) : UInt32 :=
  packetSeq packet / codec.shardSize32

/-- The shard a packet carries is in its set already. -/
def Repeated (codec : FecCodec) (packet : Bytes) : Prop :=
  (codec.shardSet (codec.shardIdOf packet)).present.getD
    (packetSeq packet % codec.shardSize32).toNat false = true

/-- The table with the shard of a packet put in, and its set dropped if that completes it. -/
def setsWith (codec : FecCodec) (packet : Bytes) : List (UInt32 × ShardSet) :=
  if codec.dataShards ≤ (codec.setWith packet).present.count true then
    eraseSet (codec.shardIdOf packet) codec.decodeSets
  else storeSet (codec.shardIdOf packet) (codec.setWith packet) codec.decodeSets

/-- The accesses of `decode` on a packet it collects: the header, the divisor, the place of
the shard in its set, the loops over the set, and the reconstruction. -/
structure DecodeInRange (codec : FecCodec) (packet : Bytes) : Prop where
  header : fecHeaderSizePlusSize ≤ packet.length
  divisor : codec.shardSize32 ≠ 0 ∧ codec.shardSize ≠ 0
  place : (codec.shardSet (packetSeq packet / codec.shardSize32)).Sized codec.shardSize ∧
    (packetSeq packet % codec.shardSize32).toNat < codec.shardSize
  loops : (codec.setWith packet).Sized codec.shardSize ∧ codec.dataShards ≤ codec.shardSize
  reconstruct : codec.dataShards ≤ (codec.setWith packet).present.count true →
    ReconstructInRange codec.rs (codec.paddedShards (codec.setWith packet))
      (codec.setWith packet).present

/-- What `decode` returns for a packet: the packet itself if it is too short or of another
type, the payload of a data packet, and slices of reconstructed shards of its set. -/
inductive Returned (codec : FecCodec) (packet : Bytes) : Bytes → Prop
  | whole (h : packet.length < fecHeaderSizePlusSize ∨ packetFlag packet ≠ fecTypeData ∧
      packetFlag packet ≠ fecTypeParity ∧ packetFlag packet ≠ fecTypeOob) :
      Returned codec packet packet
  | payload (h : fecHeaderSizePlusSize ≤ packet.length) (hdata : packetFlag packet = fecTypeData) :
      Returned codec packet (packet.drop fecHeaderSizePlusSize)
  | recovered (h : codec.Collected packet) (shards : List Bytes) (i size : ℕ)
      (hshards : codec.rs.reconstructData (codec.paddedShards (codec.setWith packet))
        (codec.setWith packet).present = .ok (true, shards))
      (hi : i < codec.dataShards) (hmissing : (codec.setWith packet).present.getD i false = false)
      (hlow : 2 ≤ size) (hhigh : size ≤ (shards.getD i []).length) :
      Returned codec packet (((shards.getD i []).take size).drop 2)

variable {codec : FecCodec} {d p : ℕ}

/-- The set of a packet's group keeps its places. -/
theorem Sized.setWith (hsized : codec.Sized codec.shardSize) (packet : Bytes) :
    (codec.setWith packet).Sized codec.shardSize :=
  (hsized.shardSet _).insert _ _ _

/-- **Decoding stays in range** on every packet that is collected. -/
theorem decode_inRange (h : codec.Ready d p) (hsized : codec.Sized (d + p)) {packet : Bytes}
    (hpacket : codec.Collected packet) : DecodeInRange codec packet := by
  have hsize := h.size_eq
  have hsized' : codec.Sized codec.shardSize := hsize ▸ hsized
  have hset := hsized'.setWith packet
  have hdivisor : codec.shardSize32.toNat = codec.shardSize := by
    rw [shardSize32, UInt32.toNat_ofNat', hsize]
    exact Nat.mod_eq_of_lt (by have := h.size_le; omega)
  have hpos : 0 < codec.shardSize := by
    have := h.data_pos
    omega
  refine ⟨hpacket.1, ⟨fun hzero => ?_, hpos.ne'⟩, ⟨hsized'.shardSet _, ?_⟩, ⟨hset, ?_⟩,
    fun henough => ?_⟩
  · rw [hzero] at hdivisor
    exact hpos.ne hdivisor
  · rw [UInt32.toNat_mod, hdivisor]
    exact Nat.mod_lt _ hpos
  · rw [h.data_eq, hsize]
    exact Nat.le_add_right _ _
  · refine @ReedSolomon.reconstruct_inRange _ _ _ _ h.rs_valid h.data_pos _
      (codec.maxLen (codec.setWith packet)) ((length_paddedShards hset).trans hsize)
      (hset.present_length.trans hsize) (h.data_eq ▸ henough) fun i hi hpresent => ?_
    rw [getD_paddedShards hset (hsize ▸ hi), if_pos hpresent, length_resize]

/-! ### What comes out -/

/-- A payload is the slice the size field at the start of the shard gives. -/
theorem payload_slice {shard slice : Bytes} (h : payload shard = some slice) :
    ∃ size, 2 ≤ size ∧ size ≤ shard.length ∧ slice = (shard.take size).drop 2 := by
  rw [payload] at h
  split at h
  · cases h
  · dsimp only at h
    split at h
    next hsize => exact ⟨_, hsize.1, hsize.2, (Option.some.inj h).symm⟩
    · cases h

/-- What is recovered from a set are slices of its reconstructed shards. -/
theorem recover_slice {set : ShardSet} {payloads : List Bytes}
    (h : codec.recover set = .ok payloads) :
    ∀ v ∈ payloads, ∃ shards i size,
      codec.rs.reconstructData (codec.paddedShards set) set.present = .ok (true, shards) ∧
      i < codec.dataShards ∧ set.present.getD i false = false ∧
      2 ≤ size ∧ size ≤ (shards.getD i []).length ∧ v = ((shards.getD i []).take size).drop 2 := by
  intro v hv
  rw [recover] at h
  by_cases hall : ((codec.presentIndices set).filter fun i => i < codec.dataShards).length =
      codec.dataShards
  · rw [if_neg (not_not.mpr hall)] at h
    obtain rfl := Except.ok.inj h
    cases hv
  · rw [if_pos hall] at h
    cases hreconstruct : codec.rs.reconstructData (codec.paddedShards set) set.present with
    | error e =>
        rw [hreconstruct] at h
        cases h
    | ok out =>
        obtain ⟨complete, shards⟩ := out
        rw [hreconstruct] at h
        cases complete with
        | false =>
            obtain rfl := Except.ok.inj h
            cases hv
        | true =>
            obtain rfl := Except.ok.inj h
            obtain ⟨i, hi, hslice⟩ := List.mem_filterMap.mp hv
            by_cases hpresent : set.present.getD i false = true
            · rw [if_pos hpresent] at hslice
              cases hslice
            · rw [if_neg hpresent] at hslice
              obtain ⟨size, hlow, hhigh, rfl⟩ := payload_slice hslice
              exact ⟨shards, i, size, rfl, List.mem_range.mp hi, Bool.eq_false_iff.mpr hpresent,
                hlow, hhigh, rfl⟩

/-- **What collecting does**, if it does not throw: nothing, or it puts the shard in, recovers
what it can from a set that is complete, and advances. -/
theorem collect_cases {packet : Bytes} {payloads : List Bytes} {after : FecCodec}
    (h : codec.collect packet = .ok (payloads, after)) :
    codec.Repeated packet ∧ payloads = [] ∧ after = codec ∨
    ¬ codec.Repeated packet ∧
      (payloads = [] ∨ codec.recover (codec.setWith packet) = .ok payloads) ∧
      after = { codec with decodeSets := codec.setsWith packet }.advance
        (codec.shardIdOf packet) := by
  rw [collect] at h
  by_cases hrepeat : codec.Repeated packet
  · have hpresent := hrepeat
    rw [Repeated, shardIdOf] at hpresent
    simp only [if_pos hpresent] at h
    obtain ⟨rfl, rfl⟩ := Prod.mk.inj (Except.ok.inj h)
    exact .inl ⟨hrepeat, rfl, rfl⟩
  · refine .inr ⟨hrepeat, ?_⟩
    rw [Repeated, shardIdOf] at hrepeat
    simp only [if_neg hrepeat, addShard] at h
    rw [setsWith, shardIdOf]
    by_cases hfull : codec.dataShards ≤ (codec.setWith packet).present.count true
    · cases hrecover : codec.recover (codec.setWith packet) with
      | error e =>
          rw [setWith] at hfull hrecover
          rw [if_pos hfull, hrecover] at h
          cases h
      | ok recovered =>
          rw [if_pos hfull]
          rw [setWith] at hfull hrecover
          rw [if_pos hfull, hrecover] at h
          obtain ⟨rfl, rfl⟩ := Prod.mk.inj (Except.ok.inj h)
          exact ⟨.inr rfl, rfl⟩
    · rw [if_neg hfull]
      rw [setWith] at hfull
      rw [if_neg hfull] at h
      obtain ⟨rfl, rfl⟩ := Prod.mk.inj (Except.ok.inj h)
      exact ⟨.inl rfl, rfl⟩

/-- What collecting a packet returns. -/
theorem collect_slice {packet : Bytes} {payloads : List Bytes} {after : FecCodec}
    (hpacket : codec.Collected packet) (h : codec.collect packet = .ok (payloads, after)) :
    ∀ v ∈ payloads, Returned codec packet v := by
  intro v hv
  rcases collect_cases h with ⟨-, rfl, -⟩ | ⟨-, rfl | hrecover, -⟩
  · exact absurd hv List.not_mem_nil
  · exact absurd hv List.not_mem_nil
  · obtain ⟨shards, i, size, hshards, hi, hmissing, hlow, hhigh, rfl⟩ :=
      recover_slice hrecover v hv
    exact .recovered hpacket shards i size hshards hi hmissing hlow hhigh

/-- **What a packet returns**, if it does not throw. -/
theorem decode_returned (h : codec.Ready d p) {packet : Bytes} {out : List Bytes}
    {after : FecCodec} (hdecode : codec.decode packet = .ok (out, after)) :
    ∀ v ∈ out, Returned codec packet v := by
  intro v hv
  by_cases hpacket : codec.Collected packet
  · rw [decode_of_collected h hpacket] at hdecode
    cases hcollect : codec.collect packet with
    | error e =>
        rw [hcollect] at hdecode
        cases hdecode
    | ok result =>
        obtain ⟨recovered, codec'⟩ := result
        rw [hcollect] at hdecode
        obtain ⟨rfl, -⟩ := Prod.mk.inj (Except.ok.inj hdecode)
        rcases List.mem_append.mp hv with hv | hv
        · split_ifs at hv with hdata
          · exact List.mem_singleton.mp hv ▸ .payload hpacket.1 hdata
          · exact absurd hv List.not_mem_nil
        · exact collect_slice hpacket hcollect v hv
  · obtain ⟨passed, hpassed, hout⟩ := decode_of_not_collected h hpacket
    obtain ⟨rfl, -⟩ := Prod.mk.inj (Except.ok.inj (hpassed.symm.trans hdecode))
    rcases hout v hv with ⟨hforeign, rfl⟩ | ⟨⟨hlength, hdata⟩, rfl⟩
    · exact .whole hforeign
    · exact .payload hlength hdata

/-! ### Whole runs -/

/-- A run of arbitrary packets does not throw, and leaves the sets with their places. -/
theorem decodeAll_ok (packets : List Bytes) (h : codec.Ready d p) (hsized : codec.Sized (d + p)) :
    ∃ results after, codec.decodeAll packets = .ok (results, after) ∧ after.Ready d p ∧
      after.Sized (d + p) := by
  induction packets generalizing codec with
  | nil => exact ⟨[], codec, rfl, h, hsized⟩
  | cons packet packets ih =>
      obtain ⟨out, next, hdecode, hready, hsets⟩ := decode_ok h hsized packet
      obtain ⟨results, after, hrun, hafter⟩ := ih hready hsets
      refine ⟨out :: results, after, ?_, hafter⟩
      rw [decodeAll, hdecode]
      simp only [bind, Except.bind, hrun]
      rfl

/-- **Decoding is safe on arbitrary input.** For every configuration that enables the layer
with at most 256 shards, whatever byte strings are decoded one after another: no call throws,
and in the state reached every further packet is decoded with every access in range and
returns nothing but itself, its payload, or slices of reconstructed shards of its set. -/
theorem decode_safe (config : BaseConfig) (hdata : 1 ≤ config.datashard.toInt)
    (hparity : 1 ≤ config.parityshard.toInt)
    (hsum : config.datashard.toInt + config.parityshard.toInt ≤ 256) :
    ∃ codec, create config = .ok codec ∧ ∀ packets : List Bytes, ∃ results after,
      codec.decodeAll packets = .ok (results, after) ∧ ∀ packet : Bytes,
        (after.Collected packet → DecodeInRange after packet) ∧
        ∃ out next, after.decode packet = .ok (out, next) ∧
          ∀ v ∈ out, Returned after packet v := by
  obtain ⟨d, hd⟩ := Int.eq_ofNat_of_zero_le (show 0 ≤ config.datashard.toInt by omega)
  obtain ⟨p, hp⟩ := Int.eq_ofNat_of_zero_le (show 0 ≤ config.parityshard.toInt by omega)
  obtain ⟨codec, hcreate, hready, hfresh⟩ :=
    create_spec hd hp (by omega) (by omega) (by omega)
  refine ⟨codec, hcreate, fun packets => ?_⟩
  have hsized : codec.Sized (d + p) := fun entry hentry => by
    rw [hfresh.sets_eq] at hentry
    cases hentry
  obtain ⟨results, after, hrun, hready', hsized'⟩ := decodeAll_ok packets hready hsized
  refine ⟨results, after, hrun, fun packet => ⟨decode_inRange hready' hsized', ?_⟩⟩
  obtain ⟨out, next, hdecode, -, -⟩ := decode_ok hready' hsized' packet
  exact ⟨out, next, hdecode, decode_returned hready' hdecode⟩

/-- A parity shard too short to be one, then a data packet flagged as the parity shard: the
group is complete, and nothing comes out of place. -/
theorem forged_group_safe :
    ∃ codec results after, create { datashard := 2, parityshard := 1 } = .ok codec ∧
      codec.decodeAll [[2, 0, 0, 0, 242, 0, 9, 0], [0, 0, 0, 0, 242, 0, 7, 7, 7]] =
        .ok (results, after) ∧
      ∀ packet, (after.Collected packet → DecodeInRange after packet) ∧
        ∃ out next, after.decode packet = .ok (out, next) ∧
          ∀ v ∈ out, Returned after packet v := by
  obtain ⟨codec, hcreate, h⟩ := decode_safe { datashard := 2, parityshard := 1 }
    (by decide) (by decide) (by decide)
  obtain ⟨results, after, hrun, hall⟩ :=
    h [[2, 0, 0, 0, 242, 0, 9, 0], [0, 0, 0, 0, 242, 0, 7, 7, 7]]
  exact ⟨codec, results, after, hcreate, hrun, hall⟩

end FecCodec

end Shimakaze
