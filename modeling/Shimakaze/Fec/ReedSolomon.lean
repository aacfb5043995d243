import Shimakaze.Bytes
import Shimakaze.Fec.Inverse
import Shimakaze.Lib.ErasureCode

/-!
# The Reed-Solomon Code

`FecCodec::ReedSolomon` codes `d` data shards into `p` parity shards, byte column by byte
column, with a matrix whose first `d` rows are the identity. `reconstruct_data` picks the
first `d` shards that are present, inverts their rows and computes the missing data shards.

## Main results

* `buildRsMatrix_spec`: the coding matrix exists for up to 256 shards, starts with the
  identity, and any of its rows suffice.
* `ReedSolomon.reconstructData_spec`: reconstruction from any `d` shards of a codeword, and
  its refusal with fewer.
-/

namespace Shimakaze

open ByteMatrix ErasureCode Matrix

/-! ### The code -/

/-- The inner loops of coding: add `coefficient` times a shard to `out`, byte by byte. -/
def accumulate (coefficient : UInt8) : Bytes → Bytes → Bytes
  | o :: out, s :: shard => (o ^^^ gfMul coefficient s) :: accumulate coefficient out shard
  | out, [] => out
  | [], _ => []

/-- The loop over a row of coefficients: add each shard in with its coefficient, leaving out
those with coefficient zero. -/
def accumulateRow (row : List UInt8) (shards : ℕ → Bytes) (count : ℕ) (out : Bytes) : Bytes :=
  (List.range count).foldl (fun out r =>
    if row.getD r 0 = 0 then out else accumulate (row.getD r 0) out (shards r)) out

/-- `FecCodec::ReedSolomon`. -/
structure ReedSolomon where
  dataShards : ℕ
  parityShards : ℕ
  totalShards : ℕ
  matrix : ByteMatrix

namespace ReedSolomon

/-- The constructor of `ReedSolomon`. -/
def create (dataShards parityShards : ℕ) : Except String ReedSolomon := do
  let matrix ← buildRsMatrix dataShards (dataShards + parityShards)
  return ⟨dataShards, parityShards, dataShards + parityShards, matrix⟩

/-- The constructor as `FecCodec` calls it: the number of rows is an `int` sum, and when that has
wrapped around to a negative number there is no matrix with as many rows. -/
def ofShards (dataShards parityShards : Int32) : Except String ReedSolomon :=
  if (dataShards + parityShards).toInt < 0 then
    throw "cannot create std::vector larger than max_size()"
  else create dataShards.toInt.toNat parityShards.toInt.toNat

variable (rs : ReedSolomon)

/-- `ReedSolomon::encode`: fill the parity shards from the data shards. -/
def encode (data parity : List Bytes) : List Bytes :=
  (List.range rs.parityShards).foldl (fun parity p =>
    parity.set p (accumulateRow (rs.matrix.getD (rs.dataShards + p) []) (fun d => data.getD d [])
      rs.dataShards ((parity.getD p []).map fun _ => 0))) parity

/-- The first `data_shards_` indices of shards that are present. -/
def validIndices (present : List Bool) : List ℕ :=
  ((List.range rs.totalShards).filter fun i => present.getD i false).take rs.dataShards

/-- The loop that recovers the missing data shards. -/
def recoverMissing (dataDecode : ByteMatrix) (valid : List ℕ) (shardLen : ℕ)
    (present : List Bool) (shards : List Bytes) : List Bytes :=
  (List.range rs.dataShards).foldl (fun shards missing =>
    if present.getD missing false then shards
    else shards.set missing (accumulateRow (dataDecode.getD missing [])
      (fun r => shards.getD (valid.getD r 0) []) rs.dataShards (List.replicate shardLen 0)))
    shards

/-- `ReedSolomon::reconstruct_data`: whether enough shards are present, and the shards with
the missing data filled in. -/
def reconstructData (shards : List Bytes) (present : List Bool) :
    Except String (Bool × List Bytes) := do
  let valid := rs.validIndices present
  if valid.length < rs.dataShards then return (false, shards)
  let subMatrix := valid.map fun i => rs.matrix.getD i []
  let dataDecode ← invertMatrix subMatrix
  let shardLen := (shards.getD (valid.headD 0) []).length
  return (true, rs.recoverMissing dataDecode valid shardLen present shards)

end ReedSolomon

/-! ### The coding matrix -/

/-- What the coding matrix is good for: its first rows are the identity, and any of its rows
suffice. -/
structure CodingMatrix (d t : ℕ) (m : ByteMatrix) : Prop where
  shape : Shape t d m
  top : ∀ (i : Fin t) (j : Fin d), (i : ℕ) < d →
    toMatrix t d m i j = if (i : ℕ) = j then 1 else 0
  anyRows : AnyRowsSuffice (toMatrix t d m)

/-- The bytes below 256 are different field elements. -/
theorem point_injective {t : ℕ} (ht : t ≤ 256) :
    Function.Injective fun r : Fin t => (⟨UInt8.ofNat r⟩ : Gf256) := by
  intro a b hab
  have hbyte : (UInt8.ofNat a).toNat = (UInt8.ofNat b).toNat :=
    congrArg (fun x : Gf256 => x.byte.toNat) hab
  rw [UInt8.toNat_ofNat', UInt8.toNat_ofNat', Nat.mod_eq_of_lt (a.2.trans_le ht),
    Nat.mod_eq_of_lt (b.2.trans_le ht)] at hbyte
  exact Fin.ext hbyte

/-- **The coding matrix** of up to 256 shards: building it does not fail, it starts with the
identity, and any of its rows suffice. -/
theorem buildRsMatrix_spec {d t : ℕ} (hd : 0 < d) (hdt : d ≤ t) (ht : t ≤ 256) :
    ∃ m, buildRsMatrix d t = .ok m ∧ CodingMatrix d t m := by
  obtain ⟨vandermonde, hvandermonde⟩ : ∃ v : ByteMatrix, v = (List.range t).map fun r =>
    (List.range d).map fun c => gfPow (UInt8.ofNat r) c := ⟨_, rfl⟩
  obtain ⟨top, htop⟩ : ∃ m : ByteMatrix, m =
    (List.range d).map fun r => (vandermonde.getD r []).take d := ⟨_, rfl⟩
  have hshape : Shape t d vandermonde := hvandermonde ▸ shape_table _
  have hpowers : toMatrix t d vandermonde =
      Matrix.of fun (r : Fin t) (c : Fin d) => (⟨UInt8.ofNat r⟩ : Gf256) ^ (c : ℕ) :=
    Matrix.ext fun r c => by
      rw [toMatrix_apply, hvandermonde, entry_table _ r.2 c.2, Gf256.mk_gfPow]
      rfl
  have hany : AnyRowsSuffice (toMatrix t d vandermonde) :=
    hpowers ▸ anyRowsSuffice_vandermonde (point_injective ht)
  have htopShape : Shape d d top := by
    refine ⟨by simp [htop], fun row hrow => ?_⟩
    obtain ⟨r, hr, rfl⟩ := List.mem_map.mp (htop ▸ hrow)
    have hlength := hshape.length_getD ((List.mem_range.mp hr).trans_le hdt)
    rw [List.length_take, hlength, min_self]
  have htopMatrix : toMatrix d d top =
      (toMatrix t d vandermonde).submatrix (Fin.castLE hdt) id := Matrix.ext fun i j => by
    simp [htop, entry]
  have hunit : IsUnit (toMatrix d d top) :=
    htopMatrix ▸ hany (Fin.castLE hdt) (Fin.castLE_injective hdt)
  obtain ⟨inverse, hinverse, hinverseShape, hmul⟩ :
      ∃ out, invertMatrix top = .ok out ∧ Shape d d out ∧
        toMatrix d d out * toMatrix d d top = 1 := by
    rcases invertMatrix_spec htopShape with ⟨-, h⟩ | ⟨hsingular, -⟩
    · exact h
    · exact absurd hunit hsingular
  have hmul' := mul_eq_one_comm.mp hmul
  obtain ⟨hproductShape, hproduct⟩ := toMatrix_multiplyMatrix hshape hinverseShape hd
  refine ⟨multiplyMatrix vandermonde inverse, ?_, hproductShape, fun i j hi => ?_, ?_⟩
  · rw [buildRsMatrix, ← hvandermonde, ← htop, hinverse]
    rfl
  · have hrow : toMatrix t d (multiplyMatrix vandermonde inverse) i j =
        (toMatrix d d top * toMatrix d d inverse) ⟨i, hi⟩ j := by
      rw [hproduct, htopMatrix]
      rfl
    rw [hrow, hmul', Matrix.one_apply]
    simp [Fin.ext_iff]
  · rw [hproduct]
    exact hany.mul_right (IsUnit.of_mul_eq_one _ hmul)

/-! ### Byte columns -/

/-- The bytes at position `i` of the first `d` shards. -/
def column (d : ℕ) (shards : List Bytes) (i : ℕ) : Fin d → Gf256 :=
  fun j => ⟨(shards.getD j []).getD i 0⟩

/-- Adding a shard of the same length in. -/
theorem accumulate_eq {coefficient : UInt8} {out shard : Bytes}
    (h : out.length = shard.length) :
    accumulate coefficient out shard =
      List.zipWith (fun o s => o ^^^ gfMul coefficient s) out shard := by
  induction out generalizing shard with
  | nil => cases shard <;> simp_all [accumulate]
  | cons o out ih =>
      match shard, h with
      | s :: shard, h => rw [accumulate, List.zipWith_cons_cons, ih (Nat.succ.inj h)]

/-- **The loop over a row** adds to each byte of `out` the row times the byte column. -/
theorem accumulateRow_spec (row : List UInt8) {shards : ℕ → Bytes} {len : ℕ} :
    ∀ {count : ℕ}, (∀ r < count, (shards r).length = len) → ∀ {out : Bytes}, out.length = len →
    (accumulateRow row shards count out).length = len ∧
    ∀ i, (⟨(accumulateRow row shards count out).getD i 0⟩ : Gf256) =
      ⟨out.getD i 0⟩ + ∑ r : Fin count, ⟨row.getD r 0⟩ * ⟨(shards r).getD i 0⟩ := by
  intro count
  induction count with
  | zero =>
      intro _ out hout
      exact ⟨hout, fun i => by simp [accumulateRow]⟩
  | succ n ih =>
      intro hshards out hout
      obtain ⟨hlength, hbytes⟩ := ih (fun r hr => hshards r (by omega)) hout
      have hstep : accumulateRow row shards (n + 1) out =
          if row.getD n 0 = 0 then accumulateRow row shards n out
          else accumulate (row.getD n 0) (accumulateRow row shards n out) (shards n) := by
        rw [accumulateRow, List.range_succ, List.foldl_append]
        rfl
      have hn : (shards n).length = len := hshards n (Nat.lt_succ_self n)
      by_cases hzero : row.getD n 0 = 0
      · rw [hstep, if_pos hzero]
        refine ⟨hlength, fun i => ?_⟩
        rw [hbytes, Fin.sum_univ_castSucc, Fin.val_last, hzero, Gf256.mk_zero, zero_mul, add_zero]
        rfl
      · have hsame : (accumulateRow row shards n out).length = (shards n).length :=
          hlength.trans hn.symm
        rw [hstep, if_neg hzero, accumulate_eq hsame]
        refine ⟨by rw [List.length_zipWith, hlength, hn, min_self], fun i => ?_⟩
        rw [getD_zipWith hsame (by rw [gfMul_comm, zero_gfMul, UInt8.xor_self]), Gf256.mk_xor,
          hbytes, Fin.sum_univ_castSucc, add_assoc]
        rfl

/-- A list of shards is the codeword of the data under a coding matrix: the matrix takes each
byte column of the data to the byte column of the codeword. -/
structure Codeword (d t len : ℕ) (m : ByteMatrix) (data codeword : List Bytes) : Prop where
  length_eq : codeword.length = t
  shard_length : ∀ k < t, (codeword.getD k []).length = len
  column_eq : ∀ i, column t codeword i = toMatrix t d m *ᵥ column d data i

/-! ### Loops that fill a list in order -/

section SetLoop

variable {α : Type} {f : ℕ → α} {n : ℕ}

/-- Setting the next element of a list filled up to `n`. -/
theorem set_setLoop (start : List α) (h : n < start.length) :
    ((List.range n).map f ++ start.drop n).set n (f n) =
      (List.range (n + 1)).map f ++ start.drop (n + 1) := by
  rw [List.set_append_right _ _ (by simp), List.length_map, List.length_range, Nat.sub_self,
    List.drop_eq_getElem_cons h, List.set_cons_zero, List.range_succ, List.map_append,
    List.append_assoc]
  rfl

/-- The elements of a list filled up to `n`, from `n` on. -/
theorem getD_setLoop (start : List α) {k : ℕ} {default : α} (hk : n ≤ k) :
    ((List.range n).map f ++ start.drop n).getD k default = start.getD k default := by
  rw [List.getD_append_right _ _ _ _ (by simpa using hk)]
  simp [List.getElem?_drop, hk]

/-- The elements of a list filled up to `n`, before `n`. -/
theorem getD_setLoop_of_lt (start : List α) {k : ℕ} {default : α} (hk : k < n) :
    ((List.range n).map f ++ start.drop n).getD k default = f k := by
  rw [List.getD_append _ _ _ _ (by simpa using hk)]
  simp [hk]

/-- Setting an element to what it is. -/
theorem set_getD_self (l : List α) (j : ℕ) (default : α) : l.set j (l.getD j default) = l := by
  by_cases hj : j < l.length
  · rw [List.getD_eq_getElem _ _ hj, List.set_getElem_self]
  · exact List.set_eq_of_length_le (not_lt.mp hj)

/-- **A loop that sets one element after another** leaves the values it set, followed by what
it did not reach. -/
theorem foldl_set_range {start : List α} {step : List α → ℕ → List α} (h : n ≤ start.length)
    (hstep : ∀ j < n, step ((List.range j).map f ++ start.drop j) j =
      ((List.range j).map f ++ start.drop j).set j (f j)) :
    (List.range n).foldl step start = (List.range n).map f ++ start.drop n := by
  induction n with
  | zero => rfl
  | succ n ih =>
      rw [List.range_succ, List.foldl_append, ih (by omega) fun j hj => hstep j (by omega),
        List.foldl_cons, List.foldl_nil, hstep n (Nat.lt_succ_self n), set_setLoop start h,
        List.range_succ]

end SetLoop

namespace ReedSolomon

variable {rs : ReedSolomon} {data : List Bytes} {len : ℕ}

/-- A code that was set up for `d` data shards and `p` parity shards. -/
structure Valid (rs : ReedSolomon) (d p : ℕ) : Prop where
  data_eq : rs.dataShards = d
  parity_eq : rs.parityShards = p
  total_eq : rs.totalShards = d + p
  coding : CodingMatrix d (d + p) rs.matrix

/-- **Setting up a code** of up to 256 shards does not fail. -/
theorem create_spec {d p : ℕ} (hd : 0 < d) (hsum : d + p ≤ 256) :
    ∃ rs, create d p = .ok rs ∧ rs.Valid d p := by
  obtain ⟨m, hm, hcoding⟩ := buildRsMatrix_spec hd (Nat.le_add_right d p) hsum
  exact ⟨⟨d, p, d + p, m⟩, by rw [create, hm]; rfl, rfl, rfl, rfl, hcoding⟩

/-! ### Coding -/

/-- The parity shards after coding, one row of the matrix each. -/
theorem encode_eq (rs : ReedSolomon) (data parity : List Bytes)
    (h : parity.length = rs.parityShards) :
    rs.encode data parity = (List.range rs.parityShards).map fun j =>
      accumulateRow (rs.matrix.getD (rs.dataShards + j) []) (fun k => data.getD k [])
        rs.dataShards ((parity.getD j []).map fun _ => 0) := by
  have hloop : rs.encode data parity = ((List.range rs.parityShards).map fun j =>
      accumulateRow (rs.matrix.getD (rs.dataShards + j) []) (fun k => data.getD k [])
        rs.dataShards ((parity.getD j []).map fun _ => 0)) ++ parity.drop rs.parityShards :=
    foldl_set_range h.ge fun j _ =>
      congrArg (fun out : Bytes => List.set _ j (accumulateRow _ _ _ (out.map fun _ => 0)))
        (getD_setLoop parity le_rfl)
  rwa [List.drop_of_length_le h.le, List.append_nil] at hloop

/-- A cleared shard is zero everywhere. -/
theorem getD_zeros (shard : Bytes) (i : ℕ) :
    (shard.map fun _ => (0 : UInt8)).getD i 0 = 0 := by
  rw [List.getD_eq_getElem?_getD, List.getElem?_map]
  cases shard[i]? <;> rfl

/-- A shard of the right position has the common length. -/
theorem length_getD_of_forall {shards : List Bytes} (h : ∀ shard ∈ shards, shard.length = len)
    {k : ℕ} (hk : k < shards.length) : (shards.getD k []).length = len := by
  rw [List.getD_eq_getElem _ _ hk]
  exact h _ (List.getElem_mem hk)

/-- Rows of the coding matrix below `d` pass the data through. -/
theorem mulVec_top {d t : ℕ} {m : ByteMatrix} (h : CodingMatrix d t m) (x : Fin d → Gf256)
    {k : Fin t} (hk : (k : ℕ) < d) : (toMatrix t d m *ᵥ x) k = x ⟨k, hk⟩ := by
  rw [Matrix.mulVec, dotProduct, Finset.sum_eq_single (⟨k, hk⟩ : Fin d)]
  · rw [h.top k _ hk, if_pos rfl, one_mul]
  · intro j _ hj
    have hne : ¬ (k : ℕ) = j := fun heq => hj (Fin.ext heq.symm)
    rw [h.top k j hk, if_neg hne, zero_mul]
  · exact fun hnot => absurd (Finset.mem_univ _) hnot

/-- **Data and parity together are the codeword** of the data. -/
theorem encode_codeword {d p : ℕ} (h : rs.Valid d p) {parity : List Bytes}
    (hdata : data.length = d) (hlen : ∀ shard ∈ data, shard.length = len)
    (hparity : parity.length = p) (hparityLen : ∀ shard ∈ parity, shard.length = len) :
    Codeword d (d + p) len rs.matrix data (data ++ rs.encode data parity) := by
  obtain ⟨rfl, rfl, -, hcoding⟩ := h
  have heq := rs.encode_eq data parity hparity
  have hlength : (rs.encode data parity).length = rs.parityShards := by
    rw [heq, List.length_map, List.length_range]
  -- Each parity shard is its row of the matrix times the data.
  have hrow : ∀ j < rs.parityShards, ((rs.encode data parity).getD j []).length = len ∧
      ∀ i, (⟨((rs.encode data parity).getD j []).getD i 0⟩ : Gf256) =
        ∑ k : Fin rs.dataShards, ⟨(rs.matrix.getD (rs.dataShards + j) []).getD k 0⟩ *
          ⟨(data.getD k []).getD i 0⟩ := by
    intro j hj
    have hget : (rs.encode data parity).getD j [] =
        accumulateRow (rs.matrix.getD (rs.dataShards + j) []) (fun k => data.getD k [])
          rs.dataShards ((parity.getD j []).map fun _ => 0) := by
      rw [heq, List.getD_eq_getElem _ _ (by simpa using hj)]
      simp
    have hzeros : ((parity.getD j []).map fun _ => (0 : UInt8)).length = len :=
      (List.length_map ..).trans (length_getD_of_forall hparityLen (hparity ▸ hj))
    have hshards : ∀ k < rs.dataShards, (data.getD k []).length = len := fun k hk =>
      length_getD_of_forall hlen (hdata ▸ hk)
    obtain ⟨hlen', hbytes⟩ :=
      accumulateRow_spec (rs.matrix.getD (rs.dataShards + j) []) hshards hzeros
    refine ⟨hget ▸ hlen', fun i => ?_⟩
    rw [hget, hbytes, getD_zeros, Gf256.mk_zero, zero_add]
  refine ⟨by rw [List.length_append, hdata, hlength], fun k hk => ?_, fun i => funext fun k => ?_⟩
  · by_cases hkd : k < rs.dataShards
    · rw [List.getD_append _ _ _ _ (hkd.trans_eq hdata.symm)]
      exact length_getD_of_forall hlen (hkd.trans_eq hdata.symm)
    · rw [List.getD_append_right _ _ _ _ (by omega), hdata]
      exact (hrow (k - rs.dataShards) (by omega)).1
  · rw [column]
    have hk := k.2
    by_cases hkd : (k : ℕ) < rs.dataShards
    · rw [mulVec_top hcoding _ hkd, List.getD_append _ _ _ _ (hkd.trans_eq hdata.symm)]
      rfl
    · have hsplit : rs.dataShards + ((k : ℕ) - rs.dataShards) = k := by omega
      rw [List.getD_append_right _ _ _ _ (by omega), hdata,
        (hrow (k - rs.dataShards) (by omega)).2, hsplit]
      rfl

/-! ### Reconstruction -/

/-- Two byte strings of one length are equal if their bytes are. -/
theorem ext_bytes {a b : Bytes} (hlength : a.length = b.length)
    (h : ∀ i, (⟨a.getD i 0⟩ : Gf256) = ⟨b.getD i 0⟩) : a = b := by
  refine List.ext_getElem hlength fun i hi hi' => ?_
  have hbyte := congrArg Gf256.byte (h i)
  rwa [List.getD_eq_getElem _ _ hi, List.getD_eq_getElem _ _ hi'] at hbyte

/-- A codeword starts with its data. -/
theorem codeword_getD {d t : ℕ} {m : ByteMatrix} {codeword : List Bytes}
    (h : Codeword d t len m data codeword) (hm : CodingMatrix d t m) (hdata : data.length = d)
    (hlen : ∀ shard ∈ data, shard.length = len) {k : ℕ} (hk : k < d) (hdt : d ≤ t) :
    codeword.getD k [] = data.getD k [] := by
  have hkt : k < t := hk.trans_le hdt
  have hdataLen := length_getD_of_forall hlen (hk.trans_eq hdata.symm)
  refine ext_bytes ((h.shard_length k hkt).trans hdataLen.symm) fun i => ?_
  have hcolumn := congrFun (h.column_eq i) ⟨k, hkt⟩
  rwa [mulVec_top hm _ hk] at hcolumn

/-- The row loop looks at the shards it counts only. -/
theorem accumulateRow_congr {row : List UInt8} {f g : ℕ → Bytes} {count : ℕ} (out : Bytes)
    (h : ∀ r < count, f r = g r) : accumulateRow row f count out = accumulateRow row g count out :=
  List.foldl_ext _ _ _ fun _ r hr => by rw [h r (List.mem_range.mp hr)]

/-- The recovered data shards, one row of the inverse each: recovering one shard does not
change the shards the others are recovered from. -/
theorem recoverMissing_eq {dataDecode : ByteMatrix} {valid : List ℕ} {present : List Bool}
    {shards : List Bytes} (hlength : rs.dataShards ≤ shards.length)
    (hvalid : ∀ r < rs.dataShards, present.getD (valid.getD r 0) false = true) :
    rs.recoverMissing dataDecode valid len present shards =
      ((List.range rs.dataShards).map fun missing =>
        if present.getD missing false then shards.getD missing []
        else accumulateRow (dataDecode.getD missing [])
          (fun r => shards.getD (valid.getD r 0) []) rs.dataShards (List.replicate len 0)) ++
      shards.drop rs.dataShards := by
  refine foldl_set_range hlength fun j hj => ?_
  by_cases hpresent : present.getD j false
  · simp only [if_pos hpresent]
    rw [← getD_setLoop (f := fun missing => if present.getD missing false then
      shards.getD missing [] else accumulateRow (dataDecode.getD missing [])
        (fun r => shards.getD (valid.getD r 0) []) rs.dataShards (List.replicate len 0))
      shards le_rfl]
    exact (set_getD_self _ j []).symm
  · rw [if_neg hpresent, if_neg hpresent]
    refine congrArg (List.set _ j) (accumulateRow_congr _ fun r hr => ?_)
    have hkept := hvalid r hr
    rcases lt_or_ge (valid.getD r 0) j with hlt | hge
    · rw [getD_setLoop_of_lt shards hlt, if_pos hkept]
    · rw [getD_setLoop shards hge]

/-- The number of indices at which a shard is present. -/
theorem length_filter_present (present : List Bool) :
    ((List.range present.length).filter fun i => present.getD i false).length =
      present.count true := by
  have hlist : (List.range present.length).map (fun i => present.getD i false) = present := by
    refine List.ext_getElem (by simp) fun i hi hi' => ?_
    simp [hi']
  have hcount := List.countP_map (p := fun b => b == true) (f := fun i => present.getD i false)
    (l := List.range present.length)
  rw [hlist] at hcount
  rw [← List.countP_eq_length_filter, List.count, hcount]
  simp [Function.comp_def]

/-- The chosen indices, if there are enough, are `d` different rows of shards that are
present. -/
theorem exists_rows {d p : ℕ} (h : rs.Valid d p) {present : List Bool}
    (henough : d ≤ (rs.validIndices present).length) :
    (rs.validIndices present).length = d ∧
    ∃ rows : Fin d → Fin (d + p), Function.Injective rows ∧
      ∀ r : Fin d, (rs.validIndices present).getD r 0 = rows r ∧
        present.getD (rows r) false = true := by
  obtain ⟨rfl, -, htotal, -⟩ := h
  have hlength : (rs.validIndices present).length = rs.dataShards :=
    le_antisymm (List.length_take_le _ _) henough
  have hmem : ∀ i ∈ rs.validIndices present, i < rs.dataShards + p ∧
      present.getD i false = true := fun i hi => by
    obtain ⟨hrange, hpresent⟩ := List.mem_filter.mp (List.mem_of_mem_take hi)
    exact ⟨htotal ▸ List.mem_range.mp hrange, hpresent⟩
  have hnodup : (rs.validIndices present).Nodup :=
    ((List.take_sublist _ _).trans List.filter_sublist).nodup List.nodup_range
  have hget : ∀ r : Fin rs.dataShards, (rs.validIndices present).getD r 0 =
      (rs.validIndices present)[(r : ℕ)] := fun r => List.getD_eq_getElem _ _ _
  refine ⟨hlength, fun r => ⟨(rs.validIndices present).getD r 0, ?_⟩, fun a b hab => ?_,
    fun r => ⟨rfl, ?_⟩⟩
  · rw [hget]
    exact (hmem _ (List.getElem_mem _)).1
  · have hval := congrArg Fin.val hab
    simp only [hget] at hval
    exact Fin.ext ((List.Nodup.getElem_inj_iff hnodup).mp hval)
  · show present.getD ((rs.validIndices present).getD r 0) false = true
    rw [hget]
    exact (hmem _ (List.getElem_mem _)).2

/-- **The chosen rows can be inverted**, whatever the shards hold. -/
theorem invert_chosen {d p : ℕ} (h : rs.Valid d p) {present : List Bool}
    (hlength : (rs.validIndices present).length = d) {rows : Fin d → Fin (d + p)}
    (hinjective : Function.Injective rows)
    (hrows : ∀ r : Fin d, (rs.validIndices present).getD r 0 = rows r) :
    ∃ dataDecode,
      invertMatrix ((rs.validIndices present).map fun i => rs.matrix.getD i []) = .ok dataDecode ∧
      Shape d d dataDecode ∧
      toMatrix d d dataDecode * (toMatrix (d + p) d rs.matrix).submatrix rows id = 1 := by
  obtain ⟨-, -, -, hcoding⟩ := h
  have hget : ∀ r : Fin d,
      ((rs.validIndices present).map fun i => rs.matrix.getD i []).getD r [] =
        rs.matrix.getD (rows r) [] := fun r => by
    rw [← hrows, List.getD_eq_getElem _ _ (by simp [hlength]), List.getElem_map,
      List.getD_eq_getElem (rs.validIndices present) 0 (by simp [hlength])]
  have hshape : Shape d d ((rs.validIndices present).map fun i => rs.matrix.getD i []) := by
    refine ⟨by rw [List.length_map, hlength], fun row hrow => ?_⟩
    obtain ⟨k, hk, rfl⟩ := List.getElem_of_mem hrow
    have hkd : k < d := by rwa [List.length_map, hlength] at hk
    rw [← List.getD_eq_getElem _ [] hk, hget ⟨k, hkd⟩]
    exact hcoding.shape.length_getD (rows ⟨k, hkd⟩).2
  have hmatrix : toMatrix d d ((rs.validIndices present).map fun i => rs.matrix.getD i []) =
      (toMatrix (d + p) d rs.matrix).submatrix rows id := Matrix.ext fun i j =>
    congrArg (fun row : List UInt8 => (⟨row.getD j 0⟩ : Gf256)) (hget i)
  rcases invertMatrix_spec hshape with ⟨-, out, hout, houtShape, hmul⟩ | ⟨hsingular, -⟩
  · exact ⟨out, hout, houtShape, hmatrix ▸ hmul⟩
  · exact absurd (hmatrix ▸ hcoding.anyRows rows hinjective) hsingular

/-- With too few shards nothing is changed. -/
theorem reconstructData_of_few {shards : List Bytes} {present : List Bool}
    (h : (rs.validIndices present).length < rs.dataShards) :
    rs.reconstructData shards present = .ok (false, shards) := by
  simp only [reconstructData, if_pos h]
  rfl

/-- With enough shards, what the inverse of their rows recovers. -/
theorem reconstructData_of_enough (shards : List Bytes) {present : List Bool}
    {dataDecode : ByteMatrix} (h : rs.dataShards ≤ (rs.validIndices present).length)
    (hinvert : invertMatrix ((rs.validIndices present).map fun i => rs.matrix.getD i []) =
      .ok dataDecode) :
    rs.reconstructData shards present =
      .ok (true, rs.recoverMissing dataDecode (rs.validIndices present)
        (shards.getD ((rs.validIndices present).headD 0) []).length present shards) := by
  simp only [reconstructData, if_neg (not_lt.mpr h), hinvert]
  rfl

/-- **Reconstruction** from any `d` shards of a codeword returns the data, whatever stands in
the place of the missing shards. -/
theorem reconstructData_spec {d p : ℕ} (h : rs.Valid d p) (hd : 0 < d)
    {codeword shards : List Bytes} {present : List Bool}
    (hcodeword : Codeword d (d + p) len rs.matrix data codeword)
    (hdata : data.length = d) (hlen : ∀ shard ∈ data, shard.length = len)
    (hshards : shards.length = d + p)
    (hpresent : ∀ k < d + p, present.getD k false = true →
      shards.getD k [] = codeword.getD k [])
    (henough : d ≤ (rs.validIndices present).length) :
    rs.reconstructData shards present = .ok (true, data ++ shards.drop d) := by
  obtain ⟨hlength, rows, hinjective, hrows⟩ := exists_rows h henough
  obtain ⟨dataDecode, hinvert, hshape, hmul⟩ :=
    invert_chosen h hlength hinjective fun r => (hrows r).1
  obtain ⟨rfl, -, htotal, hcoding⟩ := h
  have hchosen : ∀ r : Fin rs.dataShards,
      shards.getD ((rs.validIndices present).getD r 0) [] = codeword.getD (rows r) [] := fun r => by
    rw [(hrows r).1]
    exact hpresent _ (rows r).2 (hrows r).2
  have hchosenLen : ∀ r < rs.dataShards,
      (shards.getD ((rs.validIndices present).getD r 0) []).length = len := fun r hr => by
    rw [hchosen ⟨r, hr⟩]
    exact hcodeword.shard_length _ (rows ⟨r, hr⟩).2
  have hshardLen : (shards.getD ((rs.validIndices present).headD 0) []).length = len := by
    have hhead : (rs.validIndices present).headD 0 = (rs.validIndices present).getD 0 0 := by
      cases rs.validIndices present <;> rfl
    rw [hhead]
    exact hchosenLen 0 hd
  -- Byte column by byte column, the inverse of the chosen rows gives the data back.
  have hrecovered : ∀ k (hk : k < rs.dataShards), accumulateRow (dataDecode.getD k [])
      (fun r => shards.getD ((rs.validIndices present).getD r 0) []) rs.dataShards
      (List.replicate len 0) = data.getD k [] := by
    intro k hk
    obtain ⟨houtLen, hbytes⟩ := accumulateRow_spec (dataDecode.getD k []) hchosenLen
      (List.length_replicate (a := (0 : UInt8)) (n := len))
    have hk' : k < data.length := hdata.symm ▸ hk
    have hdataLen : (data.getD k []).length = len := length_getD_of_forall hlen hk'
    refine ext_bytes (houtLen.trans hdataLen.symm) fun i => ?_
    have hdecode := congrFun (AnyRowsSuffice.decode hmul (column rs.dataShards data i)) ⟨k, hk⟩
    have hzero : (List.replicate len (0 : UInt8)).getD i 0 = 0 := by
      rw [List.getD_eq_getElem?_getD, List.getElem?_getD_replicate_default_eq]
    rw [hbytes, hzero, Gf256.mk_zero, zero_add]
    refine Eq.trans (Finset.sum_congr rfl fun r _ => ?_) hdecode
    rw [hchosen r, ← hcodeword.column_eq]
    rfl
  have hvalid : ∀ r < rs.dataShards,
      present.getD ((rs.validIndices present).getD r 0) false = true := fun r hr => by
    rw [(hrows ⟨r, hr⟩).1]
    exact (hrows ⟨r, hr⟩).2
  have hfirst : ((List.range rs.dataShards).map fun missing =>
      if present.getD missing false then shards.getD missing []
      else accumulateRow (dataDecode.getD missing [])
        (fun r => shards.getD ((rs.validIndices present).getD r 0) []) rs.dataShards
        (List.replicate len 0)) = data := by
    refine List.ext_getElem (by simp [hdata]) fun k hk hk' => ?_
    have hkd : k < rs.dataShards := hdata ▸ hk'
    rw [List.getElem_map, List.getElem_range, ← List.getD_eq_getElem _ [] hk', hrecovered k hkd]
    by_cases hk : present.getD k false = true
    · rw [if_pos hk, hpresent k (Nat.lt_add_right p hkd) hk]
      exact codeword_getD hcodeword hcoding hdata hlen hkd (Nat.le_add_right _ p)
    · rw [if_neg hk]
  rw [reconstructData_of_enough shards hlength.ge hinvert, hshardLen,
    recoverMissing_eq (hshards ▸ Nat.le_add_right _ p) hvalid, hfirst]

/-- The number of chosen indices: the shards present, up to `d`. -/
theorem length_validIndices {d p : ℕ} (h : rs.Valid d p) {present : List Bool}
    (hpresent : present.length = d + p) :
    (rs.validIndices present).length = min d (present.count true) := by
  rw [validIndices, List.length_take, h.data_eq, h.total_eq, ← hpresent, length_filter_present]

/-- **Any `d` shards suffice.** For up to 256 shards the code can be set up; whatever data is
coded, and whichever `d` or more of the shards are present, reconstruction puts the data back
in place, and with fewer it says so and changes nothing. -/
theorem reconstruct_any {d p : ℕ} (hd : 1 ≤ d) (hp : 1 ≤ p) (hsum : d + p ≤ 256) :
    ∃ rs, create d p = .ok rs ∧
      ∀ (len : ℕ) (data parity shards : List Bytes) (present : List Bool),
        data.length = d → (∀ shard ∈ data, shard.length = len) →
        parity.length = p → (∀ shard ∈ parity, shard.length = len) →
        shards.length = d + p → present.length = d + p →
        (∀ k : ℕ, present[k]? = some true → shards[k]? = (data ++ rs.encode data parity)[k]?) →
        (d ≤ present.count true → ∃ out, rs.reconstructData shards present = .ok (true, out) ∧
          out.length = d + p ∧ out.take d = data) ∧
        (present.count true < d → rs.reconstructData shards present = .ok (false, shards)) := by
  obtain ⟨rs, hrs, hvalid⟩ := create_spec hd hsum
  refine ⟨rs, hrs, ?_⟩
  intro len data parity shards present hdata hlen hparity hparityLen hshards hpresent hsame
  have hcount := length_validIndices hvalid hpresent
  refine ⟨fun henough => ?_, fun hfew => ?_⟩
  · have hagree : ∀ k < d + p, present.getD k false = true →
        shards.getD k [] = (data ++ rs.encode data parity).getD k [] := fun k hk hkept => by
      have hk' : k < present.length := hpresent ▸ hk
      rw [List.getD_eq_getElem _ _ hk'] at hkept
      rw [List.getD_eq_getElem?_getD, List.getD_eq_getElem?_getD,
        hsame k (by rw [List.getElem?_eq_getElem hk', hkept])]
    refine ⟨_, reconstructData_spec hvalid hd
      (encode_codeword hvalid hdata hlen hparity hparityLen) hdata hlen hshards hagree
      (by omega), ?_, List.take_left' hdata⟩
    rw [List.length_append, List.length_drop, hdata, hshards]
    omega
  · refine reconstructData_of_few ?_
    rw [hcount, hvalid.data_eq]
    omega

/-- A lost data shard of two, put back with the help of the parity shard. -/
theorem reconstruct_two_of_three :
    ∃ rs out, create 2 1 = .ok rs ∧
      rs.reconstructData [[], [30, 40], [34, 108]] [false, true, true] = .ok (true, out) ∧
      out.take 2 = [[10, 20], [30, 40]] := by
  obtain ⟨rs, hrs, hall⟩ := reconstruct_any (d := 2) (p := 1) (by decide) (by decide) (by decide)
  have hcoded : [[10, 20], [30, 40]] ++ rs.encode [[10, 20], [30, 40]] [[0, 0]] =
      [[10, 20], [30, 40], [34, 108]] := by
    have hmatrix : create 2 1 = .ok ⟨2, 1, 3, [[1, 0], [0, 1], [3, 2]]⟩ := by rfl
    obtain rfl := Except.ok.inj (hrs.symm.trans hmatrix)
    rfl
  obtain ⟨out, hout, -, hdata⟩ := (hall 2 [[10, 20], [30, 40]] [[0, 0]]
    [[], [30, 40], [34, 108]] [false, true, true] rfl (by decide) rfl (by decide) rfl rfl
    fun k hk => by
      rw [hcoded]
      match k, hk with
      | 1, _ => rfl
      | 2, _ => rfl).1 (by decide)
  exact ⟨rs, out, hrs, hout, hdata⟩

end ReedSolomon

end Shimakaze
