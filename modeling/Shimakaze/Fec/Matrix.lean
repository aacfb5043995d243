import Mathlib.Data.List.GetD
import Shimakaze.Fec.Gf
import Shimakaze.Lib.RowReduction

/-!
# Byte Matrices and Their Inverses

`fec.cpp` keeps a matrix as a vector of rows of bytes and inverts it in place: the identity
is written to its right, a first pass over the columns brings the left half to triangular
form, a second pass clears it above the diagonal. The functions here are those loops, on
lists of rows; their effect is stated on the matrices over the field that the lists stand
for.

## Main results

* `wide_swapRows`, `wide_scaleRow`, `wide_addScaledRow`: the loops over a row are row operations.
* `toMatrix_multiplyMatrix`: the product loop computes the matrix product.
* `Shape.eq_of_toMatrix_eq`: rows of one shape that stand for one matrix are the same rows.
-/

namespace Shimakaze

open RowReduction

/-! ### The code -/

/-- `Matrix`: the rows of a byte matrix. -/
abbrev ByteMatrix := List (List UInt8)

namespace ByteMatrix

/-- `m[r][c]`. -/
def entry (m : ByteMatrix) (r c : ℕ) : UInt8 := (m.getD r []).getD c 0

/-- `std::swap(work[r], work[s])`. -/
def swapRows (work : ByteMatrix) (r s : ℕ) : ByteMatrix :=
  (work.set r (work.getD s [])).set s (work.getD r [])

/-- Multiply row `r` by `scale`. -/
def scaleRow (work : ByteMatrix) (r : ℕ) (scale : UInt8) : ByteMatrix :=
  work.set r ((work.getD r []).map fun x => gfMul x scale)

/-- Add `scale` times row `source` to row `row`. -/
def addScaledRow (work : ByteMatrix) (row source : ℕ) (scale : UInt8) : ByteMatrix :=
  work.set row
    (List.zipWith (fun x y => x ^^^ gfMul scale y) (work.getD row []) (work.getD source []))

/-- Clear column `pivot` of row `row` with the help of the pivot row. -/
def clearEntry (pivot : ℕ) (work : ByteMatrix) (row : ℕ) : ByteMatrix :=
  if entry work row pivot = 0 then work
  else addScaledRow work row pivot (entry work row pivot)

/-- The loop that clears column `pivot` of several rows. -/
def clearRows (work : ByteMatrix) (pivot : ℕ) (rows : List ℕ) : ByteMatrix :=
  rows.foldl (clearEntry pivot) work

/-- The rows below row `r`. -/
def rowsBelow (size r : ℕ) : List ℕ := List.range' (r + 1) (size - (r + 1))

/-- If row `r` has no pivot, swap in the first row below that has one. -/
def bringPivot (size : ℕ) (work : ByteMatrix) (r : ℕ) : ByteMatrix :=
  if entry work r r = 0 then
    match (rowsBelow size r).find? fun row => entry work row r ≠ 0 with
    | some row => swapRows work r row
    | none => work
  else work

/-- Scale row `r` so that its pivot is one. -/
def normalizePivot (work : ByteMatrix) (r : ℕ) : Except String ByteMatrix :=
  if entry work r r ≠ 1 then do
    let scale ← gfInv (entry work r r)
    return scaleRow work r scale
  else return work

/-- One turn of the first pass: a pivot for column `r`, and zeros below it. -/
def reduceColumn (size : ℕ) (work : ByteMatrix) (r : ℕ) : Except String ByteMatrix := do
  let work := bringPivot size work r
  if entry work r r = 0 then
    throw "singular Reed-Solomon matrix"
  let work ← normalizePivot work r
  return clearRows work r (rowsBelow size r)

/-- One turn of the second pass: zeros above the pivot of column `d`. -/
def clearAbove (work : ByteMatrix) (d : ℕ) : ByteMatrix := clearRows work d (List.range d)

/-- The matrix with the identity written to its right. -/
def augmented (input : ByteMatrix) : ByteMatrix :=
  (List.range input.length).map fun r =>
    (List.range (input.length * 2)).map fun c =>
      if c < input.length then entry input r c
      else if c = input.length + r then 1 else 0

/-- The right half of the work matrix. -/
def rightHalf (size : ℕ) (work : ByteMatrix) : ByteMatrix :=
  (List.range size).map fun r => ((work.getD r []).drop size).take size

end ByteMatrix

open ByteMatrix

/-- `multiply_matrix`. -/
def multiplyMatrix (left right : ByteMatrix) : ByteMatrix :=
  (List.range left.length).map fun r =>
    (List.range (right.headD []).length).map fun c =>
      (List.range right.length).foldl
        (fun value i => value ^^^ gfMul (entry left r i) (entry right i c)) 0

/-- `invert_matrix`. -/
def invertMatrix (input : ByteMatrix) : Except String ByteMatrix := do
  let size := input.length
  let work ← (List.range size).foldlM (reduceColumn size) (augmented input)
  let work := (List.range size).foldl clearAbove work
  return rightHalf size work

/-- `build_rs_matrix`: the Vandermonde matrix, normalised so that its top is the identity. -/
def buildRsMatrix (dataShards totalShards : ℕ) : Except String ByteMatrix := do
  let vandermonde := (List.range totalShards).map fun r =>
    (List.range dataShards).map fun c => gfPow (UInt8.ofNat r) c
  let top := (List.range dataShards).map fun r => (vandermonde.getD r []).take dataShards
  return multiplyMatrix vandermonde (← invertMatrix top)

namespace ByteMatrix

/-! ### The matrices lists of rows stand for -/

/-- A list of rows has the given numbers of rows and columns. -/
structure Shape (rows cols : ℕ) (m : ByteMatrix) : Prop where
  rows_eq : m.length = rows
  cols_eq : ∀ row ∈ m, row.length = cols

/-- The rows as a matrix, zero past the end of a row. -/
def wide (n : ℕ) (m : ByteMatrix) : Matrix (Fin n) ℕ Gf256 :=
  Matrix.of fun i c => ⟨entry m i c⟩

/-- The first `k` columns as a matrix. -/
def toMatrix (n k : ℕ) (m : ByteMatrix) : Matrix (Fin n) (Fin k) Gf256 :=
  (wide n m).submatrix id Fin.val

@[simp] theorem wide_apply (n : ℕ) (m : ByteMatrix) (i : Fin n) (c : ℕ) :
    wide n m i c = ⟨entry m i c⟩ := rfl

@[simp] theorem toMatrix_apply (n k : ℕ) (m : ByteMatrix) (i : Fin n) (j : Fin k) :
    toMatrix n k m i j = ⟨entry m i j⟩ := rfl

variable {n k : ℕ} {m : ByteMatrix}

/-- A row of a matrix of known shape has the number of columns. -/
theorem Shape.length_getD (h : Shape n k m) {r : ℕ} (hr : r < n) : (m.getD r []).length = k := by
  have hlt : r < m.length := h.rows_eq ▸ hr
  rw [List.getD_eq_getElem m [] hlt]
  exact h.cols_eq _ (List.getElem_mem hlt)

/-- Replacing a row by one of the same length keeps the shape. -/
theorem Shape.set (h : Shape n k m) (r : ℕ) {row : List UInt8} (hrow : row.length = k) :
    Shape n k (m.set r row) := by
  refine ⟨(List.length_set ..).trans h.rows_eq, fun x hx => ?_⟩
  rcases List.mem_or_eq_of_mem_set hx with hx | rfl
  · exact h.cols_eq x hx
  · exact hrow

/-- The entries after a row was replaced. -/
theorem entry_set {r : ℕ} (hr : r < m.length) (row : List UInt8) (a b : ℕ) :
    entry (m.set r row) a b = if a = r then row.getD b 0 else entry m a b := by
  by_cases ha : a = r
  · subst ha
    simp [entry, hr]
  · simp [entry, ha, List.getElem?_set_ne (Ne.symm ha)]

/-- A table given entry by entry has the shape of its ranges. -/
theorem shape_table (f : ℕ → ℕ → UInt8) :
    Shape n k ((List.range n).map fun r => (List.range k).map (f r)) := by
  refine ⟨by simp, fun row hrow => ?_⟩
  obtain ⟨r, -, rfl⟩ := List.mem_map.mp hrow
  simp

/-- The entries of a table. -/
theorem entry_table (f : ℕ → ℕ → UInt8) {r c : ℕ} (hr : r < n) (hc : c < k) :
    entry ((List.range n).map fun r => (List.range k).map (f r)) r c = f r c := by
  simp [entry, hr, hc]

/-- Rows of one shape that stand for one matrix are the same rows. -/
theorem Shape.eq_of_toMatrix_eq {m' : ByteMatrix} (h : Shape n k m) (h' : Shape n k m')
    (heq : toMatrix n k m = toMatrix n k m') : m = m' := by
  refine List.ext_getElem (h.rows_eq.trans h'.rows_eq.symm) fun r hr hr' => ?_
  have hrow := h.length_getD (h.rows_eq ▸ hr)
  have hrow' := h'.length_getD (h'.rows_eq ▸ hr')
  rw [List.getD_eq_getElem m [] hr] at hrow
  rw [List.getD_eq_getElem m' [] hr'] at hrow'
  refine List.ext_getElem (hrow.trans hrow'.symm) fun c hc hc' => ?_
  have hentry := congrFun (congrFun heq ⟨r, h.rows_eq ▸ hr⟩) ⟨c, hrow ▸ hc⟩
  have hbyte := congrArg Gf256.byte hentry
  simpa [entry, hr, hr', hc, hc'] using hbyte

/-! ### The row operations -/

/-- Combining two lists of one length entry by entry, with the defaults combined too. -/
theorem getD_zipWith {f : UInt8 → UInt8 → UInt8} {xs ys : List UInt8}
    (hlength : xs.length = ys.length) (hzero : f 0 0 = 0) (i : ℕ) :
    (List.zipWith f xs ys).getD i 0 = f (xs.getD i 0) (ys.getD i 0) := by
  by_cases hi : i < xs.length
  · have hi' : i < ys.length := hlength ▸ hi
    simp [hi, hi']
  · have hi' : ¬ i < ys.length := hlength ▸ hi
    rw [List.getD_eq_default, List.getD_eq_default _ _ (not_lt.mp hi),
      List.getD_eq_default _ _ (not_lt.mp hi'), hzero]
    rw [List.length_zipWith]
    omega

section Operations

variable {work : ByteMatrix}

theorem Shape.swapRows (h : Shape n k work) {r s : ℕ} (hr : r < n) (hs : s < n) :
    Shape n k (swapRows work r s) :=
  (h.set r (h.length_getD hs)).set s (h.length_getD hr)

theorem Shape.scaleRow (h : Shape n k work) {r : ℕ} (hr : r < n) (scale : UInt8) :
    Shape n k (scaleRow work r scale) :=
  h.set r ((List.length_map ..).trans (h.length_getD hr))

theorem Shape.addScaledRow (h : Shape n k work) {row source : ℕ} (hrow : row < n)
    (hsource : source < n) (scale : UInt8) : Shape n k (addScaledRow work row source scale) := by
  refine h.set row ?_
  rw [List.length_zipWith, h.length_getD hrow, h.length_getD hsource, min_self]

/-- Swapping two rows is a row operation. -/
theorem wide_swapRows (h : Shape n k work) (r s a : Fin n) (b : ℕ) :
    wide n (swapRows work r s) a b = wide n work (Equiv.swap r s a) b := by
  have hr : (r : ℕ) < work.length := h.rows_eq ▸ r.2
  have hs : (s : ℕ) < (work.set r (work.getD s [])).length := by
    rw [List.length_set, h.rows_eq]
    exact s.2
  simp only [wide_apply, ByteMatrix.swapRows]
  rw [entry_set hs, entry_set hr]
  by_cases has : a = s
  · subst has
    rw [if_pos rfl, Equiv.swap_apply_right]
    rfl
  · rw [if_neg (Fin.val_ne_of_ne has)]
    by_cases har : a = r
    · subst har
      rw [if_pos rfl, Equiv.swap_apply_left]
      rfl
    · rw [if_neg (Fin.val_ne_of_ne har), Equiv.swap_apply_of_ne_of_ne har has]

/-- Scaling a row is a row operation. -/
theorem wide_scaleRow (h : Shape n k work) (r : Fin n) (scale : UInt8) (a : Fin n) (b : ℕ) :
    wide n (scaleRow work r scale) a b =
      if a = r then ⟨scale⟩ * wide n work a b else wide n work a b := by
  have hr : (r : ℕ) < work.length := h.rows_eq ▸ r.2
  simp only [wide_apply, ByteMatrix.scaleRow]
  rw [entry_set hr]
  by_cases har : a = r
  · subst har
    have hmap : ((work.getD a []).map fun x => gfMul x scale).getD b 0 =
        gfMul (entry work a b) scale := by
      rw [← zero_gfMul scale, List.getD_map]
      rfl
    rw [if_pos rfl, if_pos rfl, hmap, Gf256.mk_gfMul, mul_comm]
  · rw [if_neg (Fin.val_ne_of_ne har), if_neg har]

/-- Adding a multiple of a row to another is a row operation. -/
theorem wide_addScaledRow (h : Shape n k work) (row source : Fin n) (scale : UInt8) (a : Fin n)
    (b : ℕ) :
    wide n (addScaledRow work row source scale) a b =
      if a = row then wide n work a b + ⟨scale⟩ * wide n work source b else wide n work a b := by
  have hrow : (row : ℕ) < work.length := h.rows_eq ▸ row.2
  simp only [wide_apply, ByteMatrix.addScaledRow]
  rw [entry_set hrow]
  by_cases har : a = row
  · subst har
    have hzip : (List.zipWith (fun x y => x ^^^ gfMul scale y) (work.getD a [])
        (work.getD source [])).getD b 0 =
          entry work a b ^^^ gfMul scale (entry work source b) := by
      have hlength := (h.length_getD a.2).trans (h.length_getD source.2).symm
      rw [getD_zipWith hlength (by rw [gfMul_comm, zero_gfMul, UInt8.xor_self])]
      rfl
    rw [if_pos rfl, if_pos rfl, hzip]
    rfl
  · rw [if_neg (Fin.val_ne_of_ne har), if_neg har]

end Operations

end ByteMatrix

/-! ### The product -/

/-- A sum of products over a range of indices, as the loops accumulate it. -/
theorem foldl_xor_eq_sum (f g : ℕ → UInt8) (count : ℕ) (start : UInt8) :
    (⟨(List.range count).foldl (fun value i => value ^^^ gfMul (f i) (g i)) start⟩ : Gf256) =
      ⟨start⟩ + ∑ i : Fin count, ⟨f i⟩ * ⟨g i⟩ := by
  induction count with
  | zero => simp
  | succ n ih =>
      rw [List.range_succ, List.foldl_append, List.foldl_cons, List.foldl_nil, Gf256.mk_xor, ih,
        Fin.sum_univ_castSucc, add_assoc]
      rfl

/-- **The product loop** computes the product of matrices. -/
theorem toMatrix_multiplyMatrix {r d c : ℕ} {left right : ByteMatrix} (hleft : Shape r d left)
    (hright : Shape d c right) (hd : 0 < d) :
    Shape r c (multiplyMatrix left right) ∧
    toMatrix r c (multiplyMatrix left right) = toMatrix r d left * toMatrix d c right := by
  have hcols : (right.headD []).length = c := by
    match right, hright, hright.rows_eq with
    | [], _, hrows => exact absurd hrows (by simpa using hd.ne)
    | row :: rows, hright, _ => exact hright.cols_eq row List.mem_cons_self
  have htable : multiplyMatrix left right =
      (List.range r).map fun i => (List.range c).map fun j =>
        (List.range d).foldl
          (fun value k => value ^^^ gfMul (entry left i k) (entry right k j)) 0 := by
    rw [multiplyMatrix, hleft.rows_eq, hright.rows_eq, hcols]
  rw [htable]
  refine ⟨shape_table _, Matrix.ext fun i j => ?_⟩
  rw [toMatrix_apply, entry_table _ i.2 j.2, foldl_xor_eq_sum, Gf256.mk_zero, zero_add,
    Matrix.mul_apply]
  rfl

/-- The product of square matrices, of any size: without rows there is nothing to compute. -/
theorem toMatrix_multiplyMatrix_square {n : ℕ} {left right : ByteMatrix} (hleft : Shape n n left)
    (hright : Shape n n right) :
    Shape n n (multiplyMatrix left right) ∧
    toMatrix n n (multiplyMatrix left right) = toMatrix n n left * toMatrix n n right := by
  rcases n.eq_zero_or_pos with rfl | hn
  · obtain rfl := List.length_eq_zero_iff.mp hleft.rows_eq
    exact ⟨⟨rfl, fun _ h => absurd h List.not_mem_nil⟩, Matrix.ext fun i => i.elim0⟩
  · exact toMatrix_multiplyMatrix hleft hright hn

end Shimakaze
