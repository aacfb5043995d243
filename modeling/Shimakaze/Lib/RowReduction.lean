import Mathlib.LinearAlgebra.Matrix.Block
import Mathlib.LinearAlgebra.Matrix.NonsingularInverse
import Mathlib.LinearAlgebra.Matrix.Permutation
import Mathlib.LinearAlgebra.Matrix.Swap
import Mathlib.LinearAlgebra.Matrix.Transvection

/-!
# Inverting a Matrix by Row Reduction

Elimination writes the identity next to a square matrix and applies row operations to the
wide matrix until the left half is the identity; the right half is then the inverse. This
module holds what such an argument needs, for any field: row operations multiply from the
left by an invertible matrix (`RowEquivalent`), and the shapes the left half passes through
(`Triangular`, `Cleared`).

## Main results

* `RowEquivalent.swap`, `RowEquivalent.scale`, `RowEquivalent.combine`: the three row
  operations.
* `Triangular.clear`, `Cleared.clear`: what one turn of the two passes adds to the shape.
* `Triangular.det_eq_zero`: a missing pivot means that the matrix is singular.
* `RowEquivalent.halves`, `RowEquivalent.isUnit_left_iff`: what the halves of a wide matrix
  say about each other.
-/

namespace RowReduction

open Matrix

variable {K ι κ : Type*} [Field K] [Fintype ι] [DecidableEq ι]

/-! ### Row equivalence -/

/-- Two matrices are row equivalent when one is an invertible matrix times the other. -/
def RowEquivalent (W W' : Matrix ι κ K) : Prop :=
  ∃ E : Matrix ι ι K, IsUnit E ∧ W' = E * W

namespace RowEquivalent

theorem refl (W : Matrix ι κ K) : RowEquivalent W W :=
  ⟨1, isUnit_one, (Matrix.one_mul W).symm⟩

theorem trans {U V W : Matrix ι κ K} (h : RowEquivalent U V) (h' : RowEquivalent V W) :
    RowEquivalent U W := by
  obtain ⟨E, hE, rfl⟩ := h
  obtain ⟨F, hF, rfl⟩ := h'
  exact ⟨F * E, hF.mul hE, (Matrix.mul_assoc F E U).symm⟩

/-- **Two rows change places.** -/
theorem swap {W W' : Matrix ι κ K} (i j : ι) (h : ∀ a b, W' a b = W (Equiv.swap i j a) b) :
    RowEquivalent W W' := by
  refine ⟨Matrix.swap K i j, IsUnit.of_mul_eq_one _ (swap_mul_self i j), ?_⟩
  ext a b
  rw [h, Matrix.swap, Equiv.Perm.permMatrix, PEquiv.toMatrix_toPEquiv_mul, submatrix_apply, id_eq]

/-- **A row is scaled** by a nonzero factor. -/
theorem scale {W W' : Matrix ι κ K} (i : ι) {c : K} (hc : c ≠ 0)
    (h : ∀ a b, W' a b = if a = i then c * W a b else W a b) : RowEquivalent W W' := by
  refine ⟨diagonal (Function.update 1 i c), ?_, ?_⟩
  · rw [isUnit_iff_isUnit_det, det_diagonal, isUnit_iff_ne_zero, Finset.prod_ne_zero_iff]
    intro a _
    by_cases ha : a = i
    · simpa [ha] using hc
    · simp [ha]
  · ext a b
    rw [h, diagonal_mul]
    by_cases ha : a = i
    · simp [ha]
    · simp [ha]

/-- **A multiple of one row is added to another.** -/
theorem combine {W W' : Matrix ι κ K} {i j : ι} (hij : i ≠ j) (c : K)
    (h : ∀ a b, W' a b = if a = i then W a b + c * W j b else W a b) : RowEquivalent W W' := by
  refine ⟨transvection i j c, ?_, ?_⟩
  · rw [isUnit_iff_isUnit_det, det_transvection_of_ne i j hij]
    exact isUnit_one
  · ext a b
    rw [h]
    by_cases ha : a = i
    · subst ha
      rw [if_pos rfl, transvection_mul_apply_same]
    · rw [if_neg ha, transvection_mul_apply_of_ne i j a b ha]

end RowEquivalent

/-! ### Wide matrices -/

namespace RowEquivalent

variable {W W' : Matrix ι κ K} {left right : ι → κ} {A : Matrix ι ι K}

/-- **The two halves of a wide matrix**: where the identity stood, there is now an invertible
matrix that carries the original matrix to what stands in its place. -/
theorem halves (h : RowEquivalent W W') (hleft : W.submatrix id left = A)
    (hright : W.submatrix id right = 1) :
    IsUnit (W'.submatrix id right) ∧
      W'.submatrix id right * A = W'.submatrix id left := by
  obtain ⟨E, hE, rfl⟩ := h
  have hcolumns : ∀ f : ι → κ, (E * W).submatrix id f = E * W.submatrix id f := fun f => rfl
  rw [hcolumns, hcolumns, hleft, hright, Matrix.mul_one]
  exact ⟨hE, rfl⟩

/-- The left half stays invertible exactly if the original matrix is. -/
theorem isUnit_left_iff (h : RowEquivalent W W') (hleft : W.submatrix id left = A)
    (hright : W.submatrix id right = 1) : IsUnit (W'.submatrix id left) ↔ IsUnit A := by
  obtain ⟨hunit, hmul⟩ := h.halves hleft hright
  rw [← hmul]
  refine ⟨fun hprod => ?_, hunit.mul⟩
  rw [isUnit_iff_isUnit_det, det_mul] at hprod
  exact (isUnit_iff_isUnit_det A).mpr (isUnit_of_mul_isUnit_right hprod)

end RowEquivalent

/-! ### The shapes elimination passes through -/

section Shapes

variable {n : ℕ}

/-- The first `k` columns are those of an upper triangular matrix with ones on its
diagonal. -/
def Triangular (k : ℕ) (X : Matrix (Fin n) (Fin n) K) : Prop :=
  ∀ c : Fin n, (c : ℕ) < k → X c c = 1 ∧ ∀ a : Fin n, c < a → X a c = 0

/-- Triangular in all columns, and the first `k` columns are clear above the diagonal as
well. -/
structure Cleared (k : ℕ) (X : Matrix (Fin n) (Fin n) K) : Prop where
  triangular : Triangular n X
  above : ∀ c : Fin n, (c : ℕ) < k → ∀ a : Fin n, a < c → X a c = 0

/-- **No pivot, no inverse**: if the columns before `r` are triangular and column `r` is
zero from row `r` on, the determinant is zero. -/
theorem Triangular.det_eq_zero {X : Matrix (Fin n) (Fin n) K} {r : Fin n}
    (h : Triangular r X) (hcolumn : ∀ a : Fin n, r ≤ a → X a r = 0) : X.det = 0 := by
  rw [X.twoBlockTriangular_det (fun a => a < r)
    fun a ha c hc => (h c hc).2 a (lt_of_lt_of_le hc (not_lt.mp ha))]
  refine mul_eq_zero_of_right _ (det_eq_zero_of_column_eq_zero ⟨r, lt_irrefl r⟩ fun a => ?_)
  exact hcolumn a (not_lt.mp a.2)

variable {X X' : Matrix (Fin n) (Fin n) K} {r : Fin n}

/-- Swapping two rows from `r` on keeps the columns before `r`. -/
theorem Triangular.swap (h : Triangular r X) {s : Fin n} (hrs : r ≤ s)
    (hX : ∀ a b, X' a b = X (Equiv.swap r s a) b) : Triangular r X' := by
  intro c hc
  have hcr : c < r := hc
  have hcs : c < s := hcr.trans_le hrs
  refine ⟨?_, fun a ha => ?_⟩
  · rw [hX, Equiv.swap_apply_of_ne_of_ne hcr.ne hcs.ne]
    exact (h c hc).1
  · rw [hX]
    refine (h c hc).2 _ ?_
    by_cases har : a = r
    · rwa [har, Equiv.swap_apply_left]
    · by_cases has : a = s
      · rwa [has, Equiv.swap_apply_right]
      · rwa [Equiv.swap_apply_of_ne_of_ne har has]

/-- Scaling row `r` keeps the columns before `r`. -/
theorem Triangular.scale (h : Triangular r X) {s : K}
    (hX : ∀ a b, X' a b = if a = r then s * X a b else X a b) : Triangular r X' := by
  intro c hc
  have hcr : c < r := hc
  refine ⟨?_, fun a ha => ?_⟩
  · rw [hX, if_neg hcr.ne]
    exact (h c hc).1
  · rw [hX, (h c hc).2 a ha, mul_zero, ite_self]

/-- **Clearing below a pivot of one** makes its column triangular too. -/
theorem Triangular.clear (h : Triangular r X) (hpivot : X r r = 1)
    (hX : ∀ a b, X' a b = if r < a then X a b - X a r * X r b else X a b) :
    Triangular (r + 1) X' := by
  intro c hc
  rcases (Nat.lt_succ_iff_lt_or_eq.mp hc) with hlt | heq
  · have hcr : c < r := hlt
    refine ⟨?_, fun a ha => ?_⟩
    · rw [hX, if_neg hcr.asymm]
      exact (h c hlt).1
    · rw [hX, (h c hlt).2 a ha, (h c hlt).2 r hcr, mul_zero, sub_zero, ite_self]
  · obtain rfl : c = r := Fin.ext heq
    refine ⟨by rw [hX, if_neg (lt_irrefl c), hpivot], fun a ha => ?_⟩
    rw [hX, if_pos ha, hpivot, mul_one, sub_self]

/-- **Clearing above a pivot** keeps the matrix triangular and the columns already clear. -/
theorem Cleared.clear (h : Cleared r X)
    (hX : ∀ a b, X' a b = if a < r then X a b - X a r * X r b else X a b) :
    Cleared (r + 1) X' := by
  have htri := h.triangular
  refine ⟨fun c _ => ⟨?_, fun a ha => ?_⟩, fun c hc a ha => ?_⟩
  · by_cases hcr : c < r
    · rw [hX, if_pos hcr, (htri c c.2).2 r hcr, mul_zero, sub_zero, (htri c c.2).1]
    · rw [hX, if_neg hcr, (htri c c.2).1]
  · by_cases har : a < r
    · rw [hX, if_pos har, (htri c c.2).2 a ha, (htri c c.2).2 r (ha.trans har), mul_zero, sub_zero]
    · rw [hX, if_neg har, (htri c c.2).2 a ha]
  · rcases (Nat.lt_succ_iff_lt_or_eq.mp hc) with hlt | heq
    · have hcr : c < r := hlt
      rw [hX, if_pos (ha.trans hcr), h.above c hlt a ha, (htri c c.2).2 r hcr, mul_zero, sub_zero]
    · obtain rfl : c = r := Fin.ext heq
      rw [hX, if_pos ha, (htri c c.2).1, mul_one, sub_self]

/-- A matrix cleared in all columns is the identity. -/
theorem Cleared.eq_one {X : Matrix (Fin n) (Fin n) K} (h : Cleared n X) : X = 1 := by
  ext a c
  rcases lt_trichotomy a c with hac | rfl | hac
  · rw [h.above c c.2 a hac, one_apply_ne hac.ne]
  · rw [(h.triangular a a.2).1, one_apply_eq]
  · rw [(h.triangular c c.2).2 a hac, one_apply_ne hac.ne']

end Shapes

end RowReduction
