import Mathlib.LinearAlgebra.Vandermonde
import Mathlib.LinearAlgebra.Matrix.NonsingularInverse

/-!
# Codes in Which Any Rows Suffice

A linear erasure code turns `d` symbols into `t` by a `t` by `d` matrix and can recover them
from any `d` of the `t` when every choice of `d` rows is invertible (`AnyRowsSuffice`).
Vandermonde matrices at distinct points have the property, and multiplying from the right by
an invertible matrix keeps it, so a code can be normalised until its first `d` rows are the
identity: the symbols themselves are then part of the codeword.

## Main results

* `anyRowsSuffice_vandermonde`: distinct points give such a code.
* `AnyRowsSuffice.mul_right`: normalising keeps the property.
* `AnyRowsSuffice.decode`: the inverse of the chosen rows recovers the symbols.
-/

namespace ErasureCode

open Matrix

variable {K : Type*} [Field K] {d t : ℕ}

/-- Every choice of `d` different rows is an invertible matrix. -/
def AnyRowsSuffice (C : Matrix (Fin t) (Fin d) K) : Prop :=
  ∀ rows : Fin d → Fin t, Function.Injective rows → IsUnit (C.submatrix rows id)

/-- **Powers of distinct points** form a code in which any rows suffice. -/
theorem anyRowsSuffice_vandermonde {points : Fin t → K} (h : Function.Injective points) :
    AnyRowsSuffice (Matrix.of fun (r : Fin t) (c : Fin d) => points r ^ (c : ℕ)) := by
  intro rows hrows
  have hvandermonde : (Matrix.of fun (r : Fin t) (c : Fin d) => points r ^ (c : ℕ)).submatrix
      rows id = vandermonde (points ∘ rows) := rfl
  rw [hvandermonde, isUnit_iff_isUnit_det, isUnit_iff_ne_zero]
  exact det_vandermonde_ne_zero_iff.mpr (h.comp hrows)

namespace AnyRowsSuffice

variable {C : Matrix (Fin t) (Fin d) K}

/-- Multiplying from the right by an invertible matrix keeps the property. -/
theorem mul_right (h : AnyRowsSuffice C) {N : Matrix (Fin d) (Fin d) K} (hN : IsUnit N) :
    AnyRowsSuffice (C * N) := by
  intro rows hrows
  have hsub : (C * N).submatrix rows id = C.submatrix rows id * N := rfl
  rw [hsub]
  exact (h rows hrows).mul hN

/-- **Decoding**: the inverse of the chosen rows takes the chosen symbols of a codeword back
to the symbols it was made from. -/
theorem decode {rows : Fin d → Fin t} {D : Matrix (Fin d) (Fin d) K}
    (hD : D * C.submatrix rows id = 1) (x : Fin d → K) :
    D *ᵥ (fun r => (C *ᵥ x) (rows r)) = x := by
  have hchosen : (fun r => (C *ᵥ x) (rows r)) = C.submatrix rows id *ᵥ x := rfl
  rw [hchosen, mulVec_mulVec, hD, one_mulVec]

end AnyRowsSuffice

end ErasureCode
