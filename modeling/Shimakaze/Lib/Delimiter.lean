import Mathlib.Data.List.Basic
import Mathlib.Tactic.Common

/-!
# Searching for a Delimiter

Texts with a simple grammar are taken apart by looking for the first or the last occurrence of
a delimiter and cutting there. This module holds the two searches, on lists over any alphabet,
and says which cut they stand for: the delimiter does not occur before the first occurrence,
nor after the last one.

## Main results

* `find_eq_some_iff`, `rfind_eq_some_iff`: a search succeeds exactly when the text is cut at
  the delimiter.
* `find_eq_none_iff`, `rfind_eq_none_iff`: a search fails exactly without an occurrence.
-/

namespace Delimiter

variable {α : Type*}

/-- What follows the delimiter of a cut. -/
theorem drop_cut (delimiter : α) (before after : List α) :
    (before ++ delimiter :: after).drop (before.length + 1) = after := by
  rw [List.drop_append, List.drop_eq_nil_of_le (Nat.le_succ _), Nat.add_sub_cancel_left]
  rfl

variable [DecidableEq α]

/-- The index of the first occurrence. -/
def find (delimiter : α) : List α → Option ℕ
  | [] => none
  | x :: text => if x = delimiter then some 0 else (find delimiter text).map (· + 1)

/-- The index of the last occurrence. -/
def rfind (delimiter : α) : List α → Option ℕ
  | [] => none
  | x :: text =>
      match rfind delimiter text with
      | some i => some (i + 1)
      | none => if x = delimiter then some 0 else none

variable {delimiter : α} {text : List α}

/-- Nothing is found exactly without an occurrence. -/
theorem find_eq_none_iff : find delimiter text = none ↔ delimiter ∉ text := by
  induction text with
  | nil => exact ⟨fun _ => List.not_mem_nil, fun _ => rfl⟩
  | cons x text ih =>
      rw [find, List.mem_cons, not_or]
      by_cases hx : x = delimiter
      · rw [if_pos hx]
        exact ⟨fun h => (nomatch h), fun h => absurd hx.symm h.1⟩
      · rw [if_neg hx, Option.map_eq_none_iff, ih]
        exact ⟨fun h => ⟨Ne.symm hx, h⟩, fun h => h.2⟩

/-- **The first occurrence** cuts the text where the delimiter does not occur before. -/
theorem find_eq_some_iff {i : ℕ} : find delimiter text = some i ↔
    ∃ before after, text = before ++ delimiter :: after ∧ delimiter ∉ before ∧
      before.length = i := by
  constructor
  · intro h
    induction text generalizing i with
    | nil => cases h
    | cons x text ih =>
        rw [find] at h
        by_cases hx : x = delimiter
        · rw [if_pos hx] at h
          obtain rfl := Option.some.inj h
          exact ⟨[], text, by rw [hx, List.nil_append], List.not_mem_nil, rfl⟩
        · rw [if_neg hx, Option.map_eq_some_iff] at h
          obtain ⟨j, hj, rfl⟩ := h
          obtain ⟨before, after, rfl, hbefore, rfl⟩ := ih hj
          refine ⟨x :: before, after, rfl, fun hmem => ?_, rfl⟩
          rcases List.mem_cons.mp hmem with heq | hmem
          · exact hx heq.symm
          · exact hbefore hmem
  · rintro ⟨before, after, rfl, hbefore, rfl⟩
    induction before with
    | nil => exact if_pos rfl
    | cons x before ih =>
        obtain ⟨hx, hbefore⟩ := not_or.mp (mt List.mem_cons.mpr hbefore)
        rw [List.cons_append, find, if_neg (Ne.symm hx), ih hbefore]
        rfl

/-- Nothing is found from behind exactly without an occurrence. -/
theorem rfind_eq_none_iff : rfind delimiter text = none ↔ delimiter ∉ text := by
  induction text with
  | nil => exact ⟨fun _ => List.not_mem_nil, fun _ => rfl⟩
  | cons x text ih =>
      rw [rfind, List.mem_cons, not_or, ← ih]
      cases hrest : rfind delimiter text with
      | some i => exact ⟨fun h => (nomatch h), fun h => (nomatch h.2)⟩
      | none =>
          dsimp only
          by_cases hx : x = delimiter
          · rw [if_pos hx]
            exact ⟨fun h => (nomatch h), fun h => absurd hx.symm h.1⟩
          · rw [if_neg hx]
            exact ⟨fun _ => ⟨Ne.symm hx, rfl⟩, fun _ => rfl⟩

/-- **The last occurrence** cuts the text where the delimiter does not occur after. -/
theorem rfind_eq_some_iff {i : ℕ} : rfind delimiter text = some i ↔
    ∃ before after, text = before ++ delimiter :: after ∧ delimiter ∉ after ∧
      before.length = i := by
  constructor
  · intro h
    induction text generalizing i with
    | nil => cases h
    | cons x text ih =>
        rw [rfind] at h
        cases hrest : rfind delimiter text with
        | some j =>
            rw [hrest] at h
            obtain rfl := Option.some.inj h
            obtain ⟨before, after, rfl, hafter, rfl⟩ := ih hrest
            exact ⟨x :: before, after, rfl, hafter, rfl⟩
        | none =>
            simp only [hrest] at h
            by_cases hx : x = delimiter
            · rw [if_pos hx] at h
              obtain rfl := Option.some.inj h
              exact ⟨[], text, by rw [hx, List.nil_append], rfind_eq_none_iff.mp hrest, rfl⟩
            · rw [if_neg hx] at h
              cases h
  · rintro ⟨before, after, rfl, hafter, rfl⟩
    induction before with
    | nil =>
        rw [List.nil_append, rfind, rfind_eq_none_iff.mpr hafter]
        exact if_pos rfl
    | cons x before ih =>
        rw [List.cons_append, rfind, ih]
        rfl

end Delimiter
