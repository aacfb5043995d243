import Shimakaze.Lib.EventMachine

/-!
# Parts of a System

A system makes parts while it runs, and from then on only lets them run by rules of their own.
`Grows` says so about one step, with `New` for a part that was just made and `R` for what the
rules allow. What the rules make of a new part is then all that a part of the running system
can be: whatever is proved of the part alone holds inside the system.

## Main results

* `Grows.trans`: several changes in one step are one change.
* `Grows.set`, `Grows.concat`: parts that are held in a list.
* `Grows.stands`: every part that may be there afterwards has come from one that might have been
  there before.
* `run_grows`: **the part rule** — in every run a part is what its rules make of a new one.
-/

namespace EventMachine

variable {σ α τ : Type*}

/-- What becomes of a part in one step: it stays absent, it is made and may run at once, or it
runs. -/
inductive Grows (New : τ → Prop) (R : τ → τ → Prop) : Option τ → Option τ → Prop
  | absent : Grows New R none none
  | made {new part : τ} (hnew : New new) (h : R new part) : Grows New R none (some part)
  | ran {part after : τ} (h : R part after) : Grows New R (some part) (some after)

variable {New : τ → Prop} {R : τ → τ → Prop}

/-- A part that is left alone. -/
theorem Grows.refl (hrefl : ∀ part, R part part) (part : Option τ) : Grows New R part part := by
  cases part with
  | none => exact .absent
  | some part => exact .ran (hrefl part)

/-- One change after another. -/
theorem Grows.trans (htrans : ∀ a b c, R a b → R b c → R a c) {part after last : Option τ}
    (h : Grows New R part after) (h' : Grows New R after last) : Grows New R part last := by
  cases h with
  | absent => exact h'
  | made hnew hmade =>
      cases h' with
      | ran hran => exact .made hnew (htrans _ _ _ hmade hran)
  | ran hran =>
      cases h' with
      | ran hran' => exact .ran (htrans _ _ _ hran hran')

/-- A part that is found through one of a list of things, when one of these is changed. -/
theorem Grows.set {β : Type*} (hrefl : ∀ part, R part part) {l : List β} {i : ℕ} {x x' : β}
    {f : β → Option τ} (hx : l[i]? = some x) (h : Grows New R (f x) (f x')) (k : ℕ) :
    Grows New R (l[k]?.bind f) ((l.set i x')[k]?.bind f) := by
  by_cases hsame : k = i
  · rw [hsame, hx, List.getElem?_set_self (List.getElem?_eq_some_iff.mp hx).1]
    exact h
  · rw [List.getElem?_set_ne (Ne.symm hsame)]
    exact .refl hrefl _

/-- The same when a thing is added to the list. -/
theorem Grows.concat {β : Type*} (hrefl : ∀ part, R part part) {l : List β} {x : β}
    {f : β → Option τ} {k : ℕ} (h : k = l.length → Grows New R none (f x)) :
    Grows New R (l[k]?.bind f) ((l ++ [x])[k]?.bind f) := by
  rcases Nat.lt_trichotomy k l.length with hlt | hlast | hgt
  · rw [List.getElem?_append_left hlt]
    exact .refl hrefl _
  · rw [hlast, List.getElem?_concat_length, List.getElem?_eq_none le_rfl]
    exact h hlast
  · rw [List.getElem?_eq_none hgt.le, List.getElem?_eq_none]
    · exact .absent
    · rw [List.length_append, List.length_singleton]
      exact hgt

/-- What a part may be: itself, and until it is made any new part. -/
def Stands (New : τ → Prop) : Option τ → τ → Prop
  | none, part => New part
  | some held, part => held = part

/-- A part that may be there afterwards comes from one that might have been there before. -/
theorem Grows.stands (hrefl : ∀ part, R part part) {held held' : Option τ}
    (h : Grows New R held held') {part' : τ} (hpart' : Stands New held' part') :
    ∃ part, Stands New held part ∧ R part part' := by
  cases h with
  | absent => exact ⟨part', hpart', hrefl part'⟩
  | made hnew h => exact ⟨_, hnew, hpart' ▸ h⟩
  | ran h => exact ⟨_, rfl, hpart' ▸ h⟩

/-- **The part rule.** A part that was absent when the run began and is there in the end is what
its rules have made of a new one. -/
theorem run_grows {M : EventMachine σ α} {I : σ → Prop} {peek : σ → Option τ}
    (htrans : ∀ a b c, R a b → R b c → R a c)
    (hstep : ∀ s e s', I s → M.step s e = some s' → I s' ∧ Grows New R (peek s) (peek s'))
    {s t : σ} {es : List α} (hs : I s) (hnone : peek s = none) (hrun : M.run s es = some t)
    {part : τ} (hpart : peek t = some part) : ∃ new, New new ∧ R new part := by
  have hgrows : I t ∧ Grows New R none (peek t) :=
    run_invariant (I := fun u => I u ∧ Grows New R none (peek u))
      (fun u e u' h he => by
        obtain ⟨hI, hgrows⟩ := hstep u e u' h.1 he
        exact ⟨hI, h.2.trans htrans hgrows⟩)
      ⟨hs, by rw [hnone]; exact .absent⟩ hrun
  have hend := hgrows.2
  rw [hpart] at hend
  cases hend with
  | made hnew h => exact ⟨_, hnew, h⟩

end EventMachine
