import Shimakaze.Fec.Matrix

/-!
# The Inversion Loops

The two passes of `invert_matrix` against the shapes of row reduction. Clearing a column is
one lemma for both passes (`wide_clearRows`): whatever rows are cleared, each of them gets
the same multiple of the pivot row, because the pivot row itself is not among them. The
first pass makes one column after another triangular or meets a column without a pivot, and
then the matrix is singular; the second pass clears above the diagonal.

## Main results

* `reduceColumn_spec`: one turn of the first pass.
* `invertMatrix_spec`: the inversion throws exactly on singular matrices, and otherwise
  returns the inverse.
* `invertMatrix_inverts`: the same in terms of `multiply_matrix`, on both sides.
-/

namespace Shimakaze

open RowReduction

namespace ByteMatrix

variable {n k : ℕ} {work : ByteMatrix}

/-! ### Clearing a column -/

/-- Clearing one entry adds a multiple of the pivot row; the early exit on a zero entry
makes no difference. -/
theorem wide_clearEntry (h : Shape n k work) (pivot row a : Fin n) (b : ℕ) :
    wide n (clearEntry pivot work row) a b =
      if a = row then wide n work a b + wide n work row pivot * wide n work pivot b
      else wide n work a b := by
  by_cases hzero : entry work row pivot = 0
  · rw [clearEntry, if_pos hzero]
    have hentry : wide n work row pivot = 0 := congrArg Gf256.mk hzero
    rw [hentry, zero_mul, add_zero, ite_self]
  · rw [clearEntry, if_neg hzero]
    exact wide_addScaledRow h row pivot _ a b

theorem Shape.clearEntry (h : Shape n k work) {pivot row : ℕ} (hpivot : pivot < n)
    (hrow : row < n) : Shape n k (clearEntry pivot work row) := by
  rw [ByteMatrix.clearEntry]
  by_cases hzero : entry work row pivot = 0
  · rwa [if_pos hzero]
  · rw [if_neg hzero]
    exact h.addScaledRow hrow hpivot _

/-- **Clearing a column** in rows other than the pivot's: each row gets its own multiple of
the pivot row, by row operations. -/
theorem wide_clearRows (pivot : Fin n) (rows : List ℕ) (h : Shape n k work)
    (hrows : ∀ row ∈ rows, row < n) (hpivot : ↑pivot ∉ rows) (hnodup : rows.Nodup) :
    Shape n k (clearRows work pivot rows) ∧
    RowEquivalent (wide n work) (wide n (clearRows work pivot rows)) ∧
    ∀ (a : Fin n) (b : ℕ), wide n (clearRows work pivot rows) a b =
      if ↑a ∈ rows then wide n work a b + wide n work a pivot * wide n work pivot b
      else wide n work a b := by
  induction rows generalizing work with
  | nil => exact ⟨h, RowEquivalent.refl _, fun a b => by simp [clearRows]⟩
  | cons row rows ih =>
      obtain ⟨hnot, hnodup⟩ := List.nodup_cons.mp hnodup
      have hrow := hrows row List.mem_cons_self
      have hne : (⟨row, hrow⟩ : Fin n) ≠ pivot := fun heq =>
        hpivot (heq ▸ List.mem_cons_self)
      have hentry := wide_clearEntry h pivot ⟨row, hrow⟩
      obtain ⟨hshape, hequiv, hafter⟩ := ih (h.clearEntry pivot.2 hrow)
        (fun r hr => hrows r (List.mem_cons_of_mem _ hr))
        (fun hmem => hpivot (List.mem_cons_of_mem _ hmem)) hnodup
      refine ⟨hshape, (RowEquivalent.combine hne _ hentry).trans hequiv, fun a b => ?_⟩
      have hpivotRow : ∀ b, wide n (clearEntry pivot work row) pivot b = wide n work pivot b :=
        fun b => (hentry pivot b).trans (if_neg (Ne.symm hne))
      rw [show clearRows work pivot (row :: rows) =
        clearRows (clearEntry pivot work row) pivot rows from rfl, hafter, hpivotRow]
      by_cases ha : (a : ℕ) = row
      · have hfin : a = ⟨row, hrow⟩ := Fin.ext ha
        have hout : (a : ℕ) ∉ rows := ha ▸ hnot
        rw [if_neg hout, if_pos (ha ▸ List.mem_cons_self), hentry, if_pos hfin, ← hfin]
      · have hfin : ¬ a = ⟨row, hrow⟩ := fun heq => ha (congrArg Fin.val heq)
        rw [hentry, hentry, if_neg hfin, if_neg hfin]
        by_cases hmem : (a : ℕ) ∈ rows
        · rw [if_pos hmem, if_pos (List.mem_cons_of_mem _ hmem)]
        · rw [if_neg hmem, if_neg (fun hcons => (List.mem_cons.mp hcons).elim ha hmem)]

/-! ### The first pass -/

/-- What the loops keep of the work matrix: its shape, and that it is a row-equivalent form of
the one they started with. -/
structure Reduced (n : ℕ) (start work : ByteMatrix) : Prop where
  shape : Shape n (n * 2) work
  equivalent : RowEquivalent (wide n start) (wide n work)

/-- The left half of a work matrix. -/
abbrev left (n : ℕ) (work : ByteMatrix) : Matrix (Fin n) (Fin n) Gf256 := toMatrix n n work

theorem mem_rowsBelow {r a : ℕ} : a ∈ rowsBelow n r ↔ r < a ∧ a < n := by
  rw [rowsBelow, List.mem_range'_1]
  omega

/-- Bringing a pivot is a row operation among the rows from `r` on, and without a pivot the
column is zero from row `r` on. -/
theorem bringPivot_spec {start : ByteMatrix} (h : Reduced n start work) (r : Fin n)
    (htriangular : Triangular r (left n work)) :
    Reduced n start (bringPivot n work r) ∧ Triangular r (left n (bringPivot n work r)) ∧
    (entry (bringPivot n work r) r r = 0 → ∀ a : Fin n, r ≤ a →
      left n (bringPivot n work r) a r = 0) := by
  by_cases hentry : entry work r r = 0
  · cases hfind : (rowsBelow n r).find? fun row => entry work row r ≠ 0 with
    | none =>
        have hsame : bringPivot n work r = work := by rw [bringPivot, if_pos hentry, hfind]
        rw [hsame]
        refine ⟨h, htriangular, fun _ a hra => ?_⟩
        rcases hra.lt_or_eq with hlt | rfl
        · have hbelow := List.find?_eq_none.mp hfind a (mem_rowsBelow.mpr ⟨hlt, a.2⟩)
          have hzero : entry work a r = 0 := by simpa using hbelow
          exact congrArg Gf256.mk hzero
        · exact congrArg Gf256.mk hentry
    | some row =>
        have hswap : bringPivot n work r = swapRows work r row := by
          rw [bringPivot, if_pos hentry, hfind]
        obtain ⟨hr, hrow⟩ := mem_rowsBelow.mp (List.mem_of_find?_eq_some hfind)
        have hpivot : entry work row r ≠ 0 := by simpa using List.find?_some hfind
        have hwide := wide_swapRows h.shape r ⟨row, hrow⟩
        rw [hswap]
        refine ⟨⟨h.shape.swapRows r.2 hrow,
          h.equivalent.trans (RowEquivalent.swap r ⟨row, hrow⟩ hwide)⟩,
          htriangular.swap (s := ⟨row, hrow⟩) hr.le fun a b => hwide a b, fun hzero => ?_⟩
        have hmoved := hwide r r
        rw [Equiv.swap_apply_left] at hmoved
        exact absurd ((congrArg Gf256.byte hmoved).symm.trans hzero) hpivot
  · have hsame : bringPivot n work r = work := by rw [bringPivot, if_neg hentry]
    rw [hsame]
    exact ⟨h, htriangular, fun hzero => absurd hzero hentry⟩

/-- Scaling the pivot row makes the pivot one. -/
theorem normalizePivot_spec {start : ByteMatrix} (h : Reduced n start work) (r : Fin n)
    (htriangular : Triangular r (left n work)) (hpivot : entry work r r ≠ 0) :
    ∃ scaled, normalizePivot work r = .ok scaled ∧ Reduced n start scaled ∧
      Triangular r (left n scaled) ∧ left n scaled r r = 1 := by
  by_cases hone : entry work r r = 1
  · exact ⟨work, by rw [normalizePivot, if_neg (not_not.mpr hone)]; rfl, h, htriangular,
      congrArg Gf256.mk hone⟩
  · have hnonzero : (⟨entry work r r⟩ : Gf256) ≠ 0 := fun hzero =>
      hpivot (congrArg Gf256.byte hzero)
    have hwide := wide_scaleRow h.shape r ((⟨entry work r r⟩ : Gf256)⁻¹).byte
    refine ⟨scaleRow work r ((⟨entry work r r⟩ : Gf256)⁻¹).byte, ?_,
      ⟨h.shape.scaleRow r.2 _, h.equivalent.trans
        (RowEquivalent.scale r (inv_ne_zero hnonzero) hwide)⟩,
      htriangular.scale fun a b => hwide a b, ?_⟩
    · rw [normalizePivot, if_pos hone, gfInv_eq _ hpivot]
      rfl
    · have hscaled := hwide r r
      rw [if_pos rfl] at hscaled
      exact hscaled.trans (inv_mul_cancel₀ hnonzero)

/-- **One turn of the first pass** adds a triangular column, or throws because the left half
is singular. -/
theorem reduceColumn_spec {start : ByteMatrix} (h : Reduced n start work) (r : Fin n)
    (htriangular : Triangular r (left n work)) :
    (∃ work', reduceColumn n work r = .ok work' ∧ Reduced n start work' ∧
      Triangular (r + 1) (left n work')) ∨
    (reduceColumn n work r = .error "singular Reed-Solomon matrix" ∧
      ∃ work', Reduced n start work' ∧ ¬ IsUnit (left n work')) := by
  obtain ⟨hbrought, htriangular, hcolumn⟩ := bringPivot_spec h r htriangular
  by_cases hpivot : entry (bringPivot n work r) r r = 0
  · refine .inr ⟨by simp [reduceColumn, hpivot]; rfl, _, hbrought, fun hunit => ?_⟩
    have hdet := (Matrix.isUnit_iff_isUnit_det _).mp hunit
    rw [htriangular.det_eq_zero (hcolumn hpivot)] at hdet
    exact not_isUnit_zero hdet
  · obtain ⟨scaled, hscaled, hreduced, htriangular, hone⟩ :=
      normalizePivot_spec hbrought r htriangular hpivot
    obtain ⟨hshape, hequiv, hwide⟩ := wide_clearRows r (rowsBelow n r)
      hreduced.shape (fun row hrow => (mem_rowsBelow.mp hrow).2)
      (fun hmem => lt_irrefl _ (mem_rowsBelow.mp hmem).1) List.nodup_range'
    refine .inl ⟨clearRows scaled r (rowsBelow n r), ?_, ⟨hshape, hreduced.equivalent.trans hequiv⟩,
      htriangular.clear hone fun a b => ?_⟩
    · simp only [reduceColumn, hpivot, if_false, hscaled]
      rfl
    · have hentry := hwide a b
      have hmem : (a : ℕ) ∈ rowsBelow n r ↔ r < a :=
        ⟨fun h => (mem_rowsBelow.mp h).1, fun h => mem_rowsBelow.mpr ⟨h, a.2⟩⟩
      simp only [hmem, ← CharTwo.sub_eq_add] at hentry
      exact hentry

/-- **The first pass** from column `r` on: all columns triangular, or singular. -/
theorem reduceColumns_spec (start : ByteMatrix) :
    ∀ (count r : ℕ), r + count = n → ∀ {work : ByteMatrix}, Reduced n start work →
      Triangular r (left n work) →
    (∃ work', (List.range' r count).foldlM (reduceColumn n) work = .ok work' ∧
      Reduced n start work' ∧ Triangular n (left n work')) ∨
    ((List.range' r count).foldlM (reduceColumn n) work = .error "singular Reed-Solomon matrix" ∧
      ∃ work', Reduced n start work' ∧ ¬ IsUnit (left n work')) := by
  intro count
  induction count with
  | zero =>
      intro r hr work hreduced htriangular
      obtain rfl : r = n := hr
      exact .inl ⟨work, rfl, hreduced, htriangular⟩
  | succ count ih =>
      intro r hr work hreduced htriangular
      have hlt : r < n := by omega
      rw [List.range'_succ, List.foldlM_cons]
      rcases reduceColumn_spec hreduced ⟨r, hlt⟩ htriangular with
        ⟨work', hok, hreduced, htriangular⟩ | ⟨herror, hsingular⟩
      · rw [show reduceColumn n work r = .ok work' from hok]
        exact ih (r + 1) (by omega) hreduced htriangular
      · rw [show reduceColumn n work r = .error _ from herror]
        exact .inr ⟨rfl, hsingular⟩

/-! ### The second pass -/

/-- **One turn of the second pass** clears one more column. -/
theorem clearAbove_spec {start : ByteMatrix} (h : Reduced n start work) (d : Fin n)
    (hcleared : Cleared d (left n work)) :
    Reduced n start (clearAbove work d) ∧ Cleared (d + 1) (left n (clearAbove work d)) := by
  obtain ⟨hshape, hequiv, hwide⟩ := wide_clearRows d (List.range d)
    h.shape (fun row hrow => (List.mem_range.mp hrow).trans d.2)
    (fun hmem => lt_irrefl _ (List.mem_range.mp hmem)) List.nodup_range
  refine ⟨⟨hshape, h.equivalent.trans hequiv⟩, hcleared.clear fun a b => ?_⟩
  have hentry := hwide a b
  simp only [List.mem_range, Fin.val_fin_lt, ← CharTwo.sub_eq_add] at hentry
  exact hentry

/-- The second pass up to column `d`. -/
theorem clearColumns_spec {start : ByteMatrix} (h : Reduced n start work)
    (htriangular : Triangular n (left n work)) (d : ℕ) (hd : d ≤ n) :
    Reduced n start ((List.range d).foldl clearAbove work) ∧
    Cleared d (left n ((List.range d).foldl clearAbove work)) := by
  induction d with
  | zero => exact ⟨h, htriangular, fun c hc => absurd hc (Nat.not_lt_zero _)⟩
  | succ d ih =>
      obtain ⟨hreduced, hcleared⟩ := ih (by omega)
      rw [List.range_succ, List.foldl_append]
      exact clearAbove_spec hreduced ⟨d, hd⟩ hcleared

/-! ### The whole inversion -/

/-- The work matrix starts as the input next to the identity. -/
theorem augmented_spec {input : ByteMatrix} (h : Shape n n input) :
    Shape n (n * 2) (augmented input) ∧
    (wide n (augmented input)).submatrix id (Fin.val : Fin n → ℕ) = toMatrix n n input ∧
    (wide n (augmented input)).submatrix id (fun j : Fin n => n + j) = 1 := by
  obtain ⟨rfl, -⟩ := h
  have hentry : ∀ (i : Fin input.length) {c : ℕ}, c < input.length * 2 →
      entry (augmented input) i c =
        if c < input.length then entry input i c else if c = input.length + i then 1 else 0 :=
    fun i c hc => entry_table (fun r c => if c < input.length then entry input r c
      else if c = input.length + r then 1 else 0) i.2 hc
  refine ⟨shape_table _, Matrix.ext fun i j => ?_, Matrix.ext fun i j => ?_⟩
  · have hj := j.2
    refine congrArg Gf256.mk ?_
    rw [id_eq, hentry i (by omega), if_pos hj]
  · have hj := j.2
    rw [Matrix.submatrix_apply, id_eq, wide_apply, hentry i (by omega), if_neg (by omega)]
    by_cases hij : i = j
    · subst hij
      simp
    · have hne : ¬ input.length + (j : ℕ) = input.length + i := fun heq =>
        hij (Fin.ext (Nat.add_left_cancel heq).symm)
      rw [if_neg hne, Matrix.one_apply_ne hij]
      rfl

/-- The right half of the work matrix. -/
theorem rightHalf_spec (h : Shape n (n * 2) work) :
    Shape n n (rightHalf n work) ∧
    toMatrix n n (rightHalf n work) = (wide n work).submatrix id fun j : Fin n => n + j := by
  refine ⟨⟨by simp [rightHalf], fun row hrow => ?_⟩, ?_⟩
  · obtain ⟨r, hr, rfl⟩ := List.mem_map.mp hrow
    rw [List.length_take, List.length_drop, h.length_getD (List.mem_range.mp hr)]
    omega
  · refine Matrix.ext fun i j => ?_
    simp [rightHalf, entry, List.getElem?_drop]

end ByteMatrix

open ByteMatrix

/-- **The inversion throws exactly on singular matrices**, and otherwise it returns the
inverse. -/
theorem invertMatrix_spec {n : ℕ} {input : ByteMatrix} (h : Shape n n input) :
    (IsUnit (toMatrix n n input) ∧ ∃ out, invertMatrix input = .ok out ∧ Shape n n out ∧
      toMatrix n n out * toMatrix n n input = 1) ∨
    (¬ IsUnit (toMatrix n n input) ∧
      invertMatrix input = .error "singular Reed-Solomon matrix") := by
  obtain ⟨hshape, hleft, hright⟩ := augmented_spec h
  have hsize : input.length = n := h.rows_eq
  rcases reduceColumns_spec (n := n) (augmented input) n 0 (Nat.zero_add n)
      ⟨hshape, RowEquivalent.refl _⟩ (fun c hc => absurd hc (Nat.not_lt_zero _)) with
    ⟨work, hpass, hreduced, htriangular⟩ | ⟨hpass, work, hreduced, hsingular⟩
  · obtain ⟨hreduced', hcleared⟩ := clearColumns_spec hreduced htriangular n le_rfl
    obtain ⟨hshape', hout⟩ := rightHalf_spec hreduced'.shape
    have hone : left n ((List.range n).foldl clearAbove work) = 1 := hcleared.eq_one
    have hmul := (hreduced'.equivalent.halves hleft hright).2
    refine .inl ⟨?_, _, ?_, hshape', ?_⟩
    · have hunit : IsUnit (left n ((List.range n).foldl clearAbove work)) := hone ▸ isUnit_one
      exact (hreduced'.equivalent.isUnit_left_iff hleft hright).mp hunit
    · rw [invertMatrix, hsize, List.range_eq_range', hpass, ← List.range_eq_range']
      rfl
    · rw [hout, hmul]
      exact hone
  · refine .inr ⟨fun hunit => hsingular ?_, ?_⟩
    · exact (hreduced.equivalent.isUnit_left_iff hleft hright).mpr hunit
    · rw [invertMatrix, hsize, List.range_eq_range', hpass]
      rfl

/-- The rows of the identity matrix. -/
def identityMatrix (size : ℕ) : ByteMatrix :=
  (List.range size).map fun r => (List.range size).map fun c => if r = c then 1 else 0

theorem toMatrix_identityMatrix (n : ℕ) : toMatrix n n (identityMatrix n) = 1 := by
  refine Matrix.ext fun i j => ?_
  rw [toMatrix_apply, identityMatrix,
    entry_table (fun r c : ℕ => if r = c then (1 : UInt8) else 0) i.2 j.2, Matrix.one_apply]
  by_cases hij : i = j
  · rw [if_pos hij, if_pos (congrArg Fin.val hij)]
    rfl
  · rw [if_neg hij, if_neg (Fin.val_ne_of_ne hij)]
    rfl

/-- Square matrices whose product is the identity multiply to the rows of the identity. -/
theorem multiplyMatrix_eq_identityMatrix {n : ℕ} {left right : ByteMatrix}
    (hleft : Shape n n left) (hright : Shape n n right)
    (hmul : toMatrix n n left * toMatrix n n right = 1) :
    multiplyMatrix left right = identityMatrix n := by
  obtain ⟨hshape, hproduct⟩ := toMatrix_multiplyMatrix_square hleft hright
  refine hshape.eq_of_toMatrix_eq (shape_table _) ?_
  rw [hproduct, hmul]
  exact (toMatrix_identityMatrix n).symm

/-- **The inversion inverts.** For square matrices of every size: `invert_matrix` throws if and
only if the matrix is singular over the field of `gf_mul` and exclusive or, and what it returns
otherwise is a square matrix whose products with the input, on both sides, are the identity. -/
theorem invertMatrix_inverts (n : ℕ) (input : ByteMatrix) (h : Shape n n input) :
    ((∃ message, invertMatrix input = .error message) ↔ (toMatrix n n input).det = 0) ∧
    ∀ out, invertMatrix input = .ok out → Shape n n out ∧
      multiplyMatrix input out = identityMatrix n ∧
      multiplyMatrix out input = identityMatrix n := by
  have hsingular : (toMatrix n n input).det = 0 ↔ ¬ IsUnit (toMatrix n n input) := by
    rw [Matrix.isUnit_iff_isUnit_det, isUnit_iff_ne_zero, not_not]
  rcases invertMatrix_spec h with ⟨hunit, inverse, hok, hshape, hmul⟩ | ⟨hnot, herror⟩
  · refine ⟨?_, fun out hout => ?_⟩
    · rw [hsingular, hok]
      exact ⟨fun ⟨message, hmessage⟩ => (nomatch hmessage), fun hnot => absurd hunit hnot⟩
    · obtain rfl := Except.ok.inj (hok.symm.trans hout)
      exact ⟨hshape, multiplyMatrix_eq_identityMatrix h hshape (mul_eq_one_comm.mp hmul),
        multiplyMatrix_eq_identityMatrix hshape h hmul⟩
  · refine ⟨?_, fun out hout => ?_⟩
    · rw [hsingular, herror]
      exact ⟨fun _ => hnot, fun _ => ⟨_, rfl⟩⟩
    · exact nomatch herror.symm.trans hout

/-- A matrix whose first pivot is missing, so that its rows change places. -/
theorem two_rows_inverted :
    invertMatrix [[0, 1], [1, 2]] = .ok [[2, 1], [1, 0]] ∧
    multiplyMatrix [[0, 1], [1, 2]] [[2, 1], [1, 0]] = identityMatrix 2 ∧
    multiplyMatrix [[2, 1], [1, 0]] [[0, 1], [1, 2]] = identityMatrix 2 := by
  have hok : invertMatrix [[0, 1], [1, 2]] = .ok [[2, 1], [1, 0]] := by decide +kernel
  have hshape : Shape 2 2 [[0, 1], [1, 2]] := ⟨rfl, by decide⟩
  exact ⟨hok, ((invertMatrix_inverts 2 _ hshape).2 _ hok).2⟩

end Shimakaze
