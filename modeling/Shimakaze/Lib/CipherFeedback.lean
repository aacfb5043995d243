import Mathlib.Data.List.Basic
import Mathlib.Tactic.Common

/-!
# Cipher Feedback

The feedback mode of a block function that is only used forwards: each block of the text is
combined with the image of the ciphertext block before it, and a last block that is not full
is combined with as much of that image as it needs. The two directions differ in which block
they feed back, the one they produce or the one they were given, and that is the ciphertext
block both times.

The letters are of any type, and `combine` is any operation that undoes itself with the same
second argument. Nothing is assumed about the block function but the length of its images.

## Main results

* `length_crypt`: both directions keep the length.
* `crypt_crypt`: **each direction undoes the other**, on texts of any length.
-/

namespace CipherFeedback

variable {α : Type*} (size : ℕ) (process : List α → List α) (combine : α → α → α)

/-- Combine a text with a key that is at least as long. -/
def mix (text key : List α) : List α := List.zipWith combine text key

/-- The feedback loop, with the block to combine with next. `rounds` bounds the number of
blocks. -/
def crypt (encrypting : Bool) : ℕ → List α → List α → List α
  | 0, _, text => text
  | rounds + 1, current, text =>
      if text.length < size then mix combine text current
      else
        let block := text.take size
        let out := mix combine block current
        out ++ crypt encrypting rounds (process (if encrypting then out else block))
          (text.drop size)

variable {size process combine}

theorem length_mix {text key : List α} (h : text.length ≤ key.length) :
    (mix combine text key).length = text.length := by
  rw [mix, List.length_zipWith, Nat.min_eq_left h]

/-- Combining twice with one key gives the text back. -/
theorem mix_mix (hcombine : ∀ a k, combine (combine a k) k = a) {text key : List α}
    (h : text.length ≤ key.length) : mix combine (mix combine text key) key = text := by
  refine List.ext_getElem ?_ fun i hi hi' => ?_
  · have hlength : (mix combine text key).length = text.length := length_mix h
    rw [length_mix (by omega), hlength]
  · simp only [mix, List.getElem_zipWith, hcombine]

/-- Both directions keep the length. -/
theorem length_crypt (hprocess : ∀ block, (process block).length = size) (encrypting : Bool)
    (rounds : ℕ) (current text : List α) (hcurrent : current.length = size) :
    (crypt size process combine encrypting rounds current text).length = text.length := by
  induction rounds generalizing current text with
  | zero => rfl
  | succ rounds ih =>
      rw [crypt]
      by_cases hshort : text.length < size
      · rw [if_pos hshort, length_mix (by omega)]
      · have hblock : (text.take size).length = size := List.length_take_of_le (by omega)
        rw [if_neg hshort, List.length_append, length_mix (by omega), ih _ _ (hprocess _), hblock,
          List.length_drop]
        omega

/-- **Each direction undoes the other.** Induction on the blocks; both loops are at the same
feedback block because both feed back the ciphertext. -/
theorem crypt_crypt (hsize : 0 < size) (hprocess : ∀ block, (process block).length = size)
    (hcombine : ∀ a k, combine (combine a k) k = a) (encrypting : Bool) (rounds : ℕ)
    (current text : List α) (hrounds : text.length ≤ rounds) (hcurrent : current.length = size) :
    crypt size process combine (!encrypting) rounds current
      (crypt size process combine encrypting rounds current text) = text := by
  induction rounds generalizing current text with
  | zero => rfl
  | succ rounds ih =>
      by_cases hshort : text.length < size
      · have hmix : crypt size process combine encrypting (rounds + 1) current text =
            mix combine text current := by rw [crypt, if_pos hshort]
        have hlength : (mix combine text current).length = text.length := length_mix (by omega)
        rw [hmix, crypt, hlength, if_pos hshort]
        exact mix_mix hcombine (by omega)
      · have hblock : (text.take size).length = size := List.length_take_of_le (by omega)
        have hout : (mix combine (text.take size) current).length = size :=
          (length_mix (by omega)).trans hblock
        set out := mix combine (text.take size) current with hdef
        have hback : mix combine out current = text.take size := mix_mix hcombine (by omega)
        have hcrypt : crypt size process combine encrypting (rounds + 1) current text =
            out ++ crypt size process combine encrypting rounds
              (process (if encrypting then out else text.take size)) (text.drop size) := by
          rw [crypt, if_neg hshort]
        have hfeedback : (if (!encrypting) = true then text.take size else out) =
            if encrypting then out else text.take size := by cases encrypting <;> rfl
        rw [hcrypt, crypt, if_neg (by rw [List.length_append, hout]; omega)]
        dsimp only
        rw [List.take_left' hout, List.drop_left' hout, hback, hfeedback,
          ih _ _ (by rw [List.length_drop]; omega) (hprocess _), List.take_append_drop]

end CipherFeedback
