import Mathlib.Algebra.GroupWithZero.Nat
import Mathlib.Data.List.Basic
import Mathlib.Data.List.Nodup
import Mathlib.Data.List.Perm.Subperm
import Mathlib.Tactic.Common

/-!
# Registries

Objects live in a heap, a list that only grows, and a table maps the keys of some of them
to their positions. Objects are entered under their own key when they are made and taken
out *by key* when they go out of use. `Exact` says that the table holds the live objects
and no others, each under its key.

Taking out by key is taking out one object exactly because of `Exact`: two live objects of
one key cannot both be registered.

## Main results

* `Exact.add`, `Exact.not_add`: **making a live object keeps the table exact if and only if
  it is entered**, which an insertion does that finds the key free.
* `Exact.retire`: taking out by key the object that goes out of use.
* `Exact.filter_key`: what that removes is the entry of this object and no other.
* `Exact.countP_le`, `countP_le_of_positions`: there are no more live objects than keys, and no
  more objects than places for them.
-/

namespace Registry

variable {κ α : Type*} [DecidableEq κ]

/-! ### Tables -/

/-- Taking keys out of a table. -/
theorem lookup_filter {β : Type*} (keep : κ → Bool) (k : κ) (table : List (κ × β)) :
    (table.filter fun entry => keep entry.1).lookup k =
      if keep k then table.lookup k else none := by
  induction table with
  | nil => simp
  | cons entry table ih =>
      obtain ⟨key, value⟩ := entry
      rw [List.filter_cons]
      by_cases hk : k = key
      · subst hk
        cases hkeep : keep k with
        | true => simp
        | false => simp [ih, hkeep]
      · have hne : (k == key) = false := by simpa using hk
        cases hkeep : keep key with
        | true => simp [List.lookup_cons, hne, ih]
        | false => simp [List.lookup_cons, hne, ih]

/-- An entry at the end of a table. -/
theorem lookup_concat {β : Type*} (table : List (κ × β)) (key k : κ) (value : β) :
    (table ++ [(key, value)]).lookup k =
      (table.lookup k).or (if k = key then some value else none) := by
  rw [List.lookup_append]
  by_cases hk : k = key
  · subst hk
    simp
  · have hne : (k == key) = false := by simpa using hk
    simp [List.lookup_cons, hne, hk]

/-- What is looked up is an entry. -/
theorem mem_of_lookup {β : Type*} {table : List (κ × β)} {k : κ} {value : β}
    (h : table.lookup k = some value) : (k, value) ∈ table := by
  obtain ⟨before, after, rfl, -⟩ := List.lookup_eq_some_iff.mp h
  exact List.mem_append_right _ List.mem_cons_self

/-- In a table with one entry for each key, every entry is what is looked up. -/
theorem lookup_of_mem {β : Type*} {table : List (κ × β)} {k : κ} {value : β}
    (hnodup : (table.map Prod.fst).Nodup) (h : (k, value) ∈ table) :
    table.lookup k = some value := by
  induction table with
  | nil => exact absurd h List.not_mem_nil
  | cons entry table ih =>
      obtain ⟨hhead, htail⟩ := List.nodup_cons.mp hnodup
      rcases List.mem_cons.mp h with rfl | h
      · exact List.lookup_cons_self
      · have hne : (k == entry.1) = false := by
          rw [beq_eq_false_iff_ne]
          rintro rfl
          exact hhead (List.mem_map.mpr ⟨_, h, rfl⟩)
        rw [List.lookup_cons, hne]
        exact ih htail h

/-! ### Sums and counts -/

omit [DecidableEq κ] in
/-- A sum over a heap after an update. -/
theorem sum_map_set {heap : List α} {i : ℕ} {x : α} (hx : heap[i]? = some x) (y : α)
    (f : α → ℕ) : ((heap.set i y).map f).sum + f x = (heap.map f).sum + f y := by
  induction heap generalizing i with
  | nil => exact absurd hx (by simp)
  | cons z heap ih =>
      cases i with
      | zero =>
          obtain rfl := Option.some.inj hx
          simp only [List.set_cons_zero, List.map_cons, List.sum_cons]
          omega
      | succ i =>
          have hrest := ih hx
          simp only [List.set_cons_succ, List.map_cons, List.sum_cons]
          omega

omit [DecidableEq κ] in
/-- A count over a heap after an update. -/
theorem countP_set_add {heap : List α} {i : ℕ} {x : α} (hx : heap[i]? = some x) (y : α)
    (p : α → Bool) : (heap.set i y).countP p + (if p x then 1 else 0) =
      heap.countP p + if p y then 1 else 0 := by
  induction heap generalizing i with
  | nil => exact absurd hx (by simp)
  | cons z heap ih =>
      cases i with
      | zero =>
          obtain rfl := Option.some.inj hx
          simp only [List.set_cons_zero, List.countP_cons]
          omega
      | succ i =>
          have hrest := ih hx
          simp only [List.set_cons_succ, List.countP_cons]
          omega

/-! ### Exact tables -/

/-- The table holds exactly the live objects of the heap, each under its key. -/
structure Exact (key : α → κ) (live : α → Bool) (table : List (κ × ℕ)) (heap : List α) :
    Prop where
  registered : ∀ i x, heap[i]? = some x → live x → table.lookup (key x) = some i
  sound : ∀ entry ∈ table, ∃ x, heap[entry.2]? = some x ∧ key x = entry.1 ∧ live x

variable {key : α → κ} {live : α → Bool} {table : List (κ × ℕ)} {heap : List α} {i : ℕ}
  {x y : α}

/-- Nothing is registered in the beginning. -/
theorem Exact.nil (key : α → κ) (live : α → Bool) : Exact key live [] [] := by
  constructor
  · intro i x hx
    exact absurd hx (by simp)
  · intro entry hentry
    exact absurd hentry (by simp)

/-- The heap after an update: the position updated holds the new object, every other one
what it held. -/
theorem getElem?_set_eq_some (hx : heap[i]? = some x) {j : ℕ} {z : α} :
    (heap.set i y)[j]? = some z ↔ (j = i ∧ z = y) ∨ (j ≠ i ∧ heap[j]? = some z) := by
  have hlt : i < heap.length := (List.getElem?_eq_some_iff.mp hx).1
  rw [List.getElem?_set]
  by_cases hj : i = j
  · subst hj
    simp [hlt, eq_comm]
  · rw [if_neg hj]
    simp [Ne.symm hj]

/-- **Making a live object** under a key that is not in use. -/
theorem Exact.add (h : Exact key live table heap) (hlive : live x)
    (hfree : table.lookup (key x) = none) :
    Exact key live (table ++ [(key x, heap.length)]) (heap ++ [x]) := by
  constructor
  · intro j z hz hlivez
    rw [lookup_concat]
    rcases Nat.lt_trichotomy j heap.length with hlt | rfl | hgt
    · rw [List.getElem?_append_left hlt] at hz
      rw [h.registered j z hz hlivez, Option.some_or]
    · rw [List.getElem?_concat_length] at hz
      obtain rfl := Option.some.inj hz
      rw [hfree, if_pos rfl, Option.none_or]
    · rw [List.getElem?_eq_none (by rw [List.length_append, List.length_singleton]; omega)] at hz
      exact absurd hz (by simp)
  · intro entry hentry
    rcases List.mem_append.mp hentry with hentry | hentry
    · obtain ⟨z, hz, hkey, hlivez⟩ := h.sound entry hentry
      refine ⟨z, ?_, hkey, hlivez⟩
      rw [List.getElem?_append_left (List.getElem?_eq_some_iff.mp hz).1]
      exact hz
    · rw [List.mem_singleton.mp hentry]
      exact ⟨x, List.getElem?_concat_length, rfl, hlive⟩

/-- Updating an object that keeps its key and stays as live as it was. -/
theorem Exact.update (h : Exact key live table heap) (hx : heap[i]? = some x)
    (hkey : key y = key x) (hlive : live y = live x) :
    Exact key live table (heap.set i y) := by
  constructor
  · intro j z hz hlivez
    rcases (getElem?_set_eq_some hx).mp hz with ⟨rfl, rfl⟩ | ⟨-, hz⟩
    · rw [hkey]
      exact h.registered j x hx (hlive ▸ hlivez)
    · exact h.registered j z hz hlivez
  · intro entry hentry
    obtain ⟨z, hz, hkeyz, hlivez⟩ := h.sound entry hentry
    by_cases hi : entry.2 = i
    · rw [hi, hx] at hz
      obtain rfl := Option.some.inj hz
      exact ⟨y, (getElem?_set_eq_some hx).mpr (Or.inl ⟨hi, rfl⟩), hkey.trans hkeyz,
        hlive.trans hlivez⟩
    · exact ⟨z, (getElem?_set_eq_some hx).mpr (Or.inr ⟨hi, hz⟩), hkeyz, hlivez⟩

/-- The entry of a live object is the one entry with its key. -/
theorem Exact.key_iff (h : Exact key live table heap) (hx : heap[i]? = some x) (hlive : live x)
    {entry : κ × ℕ} (hentry : entry ∈ table) : entry.1 = key x ↔ entry.2 = i := by
  obtain ⟨z, hz, hkeyz, hlivez⟩ := h.sound entry hentry
  constructor
  · intro hkey
    have hreg := h.registered entry.2 z hz hlivez
    rw [hkeyz, hkey, h.registered i x hx hlive] at hreg
    exact (Option.some.inj hreg).symm
  · intro hi
    rw [hi, hx] at hz
    rw [← hkeyz, Option.some.inj hz]

/-- **Removal by key removes the entry of a live object and no other.** -/
theorem Exact.filter_key (h : Exact key live table heap) (hx : heap[i]? = some x)
    (hlive : live x) :
    table.filter (fun entry => entry.1 ≠ key x) = table.filter (fun entry => entry.2 ≠ i) := by
  refine List.filter_congr fun entry hentry => ?_
  simp only [ne_eq, decide_not, Bool.not_inj_iff, decide_eq_decide]
  exact h.key_iff hx hlive hentry

/-- An object out of use has no entry. -/
theorem Exact.filter_dead (h : Exact key live table heap) (hx : heap[i]? = some x)
    (hdead : live x = false) : table.filter (fun entry => entry.2 ≠ i) = table := by
  refine List.filter_eq_self.mpr fun entry hentry => ?_
  obtain ⟨z, hz, -, hlivez⟩ := h.sound entry hentry
  rw [decide_eq_true_eq]
  intro hi
  rw [hi, hx] at hz
  rw [Option.some.inj hz, hlivez] at hdead
  exact absurd hdead (by decide)

/-- **Taking an object out of use** together with the entries of its key. -/
theorem Exact.retire (h : Exact key live table heap) (hx : heap[i]? = some x) (hlive : live x)
    (hdead : live y = false) :
    Exact key live (table.filter fun entry => entry.1 ≠ key x) (heap.set i y) := by
  constructor
  · intro j z hz hlivez
    rcases (getElem?_set_eq_some hx).mp hz with ⟨-, rfl⟩ | ⟨hji, hz⟩
    · rw [hdead] at hlivez
      exact absurd hlivez (by decide)
    · have hreg := h.registered j z hz hlivez
      rw [lookup_filter (fun k => decide (k ≠ key x)), hreg, if_pos]
      rw [decide_eq_true_eq]
      intro hkey
      exact hji ((h.key_iff hx hlive (mem_of_lookup hreg)).mp hkey)
  · intro entry hentry
    rw [h.filter_key hx hlive] at hentry
    obtain ⟨hmem, hne⟩ := List.mem_filter.mp hentry
    obtain ⟨z, hz, hkeyz, hlivez⟩ := h.sound entry hmem
    exact ⟨z, (getElem?_set_eq_some hx).mpr (Or.inr ⟨of_decide_eq_true hne, hz⟩), hkeyz, hlivez⟩

/-- The keys of the live objects are all different. -/
theorem Exact.nodup (h : Exact key live table heap) : ((heap.filter live).map key).Nodup := by
  rw [List.Nodup, List.pairwise_map, List.pairwise_filter, List.pairwise_iff_getElem]
  intro i j hi hj hij hlivei hlivej hkey
  have hregi := h.registered i heap[i] (List.getElem?_eq_getElem hi) hlivei
  have hregj := h.registered j heap[j] (List.getElem?_eq_getElem hj) hlivej
  rw [hkey, hregj] at hregi
  exact Nat.ne_of_gt hij (Option.some.inj hregi)

/-- **No more live objects than keys**, when the keys can be numbered below `bound`. -/
theorem Exact.countP_le (h : Exact key live table heap) {number : κ → ℕ} {bound : ℕ}
    (hinjective : Function.Injective number) (hbound : ∀ k, number k < bound) :
    heap.countP live ≤ bound := by
  have hnodup : (((heap.filter live).map key).map number).Nodup :=
    h.nodup.map hinjective
  have hsubset : ((heap.filter live).map key).map number ⊆ List.range bound := by
    intro n hn
    obtain ⟨k, -, rfl⟩ := List.mem_map.mp hn
    exact List.mem_range.mpr (hbound k)
  have hlength := (hnodup.subperm hsubset).length_le
  rwa [List.length_map, List.length_map, ← List.countP_eq_length_filter, List.length_range]
    at hlength

omit [DecidableEq κ] in
/-- Objects that all have a place among some positions are at most as many. -/
theorem countP_le_of_positions {p : α → Bool} {positions : List ℕ}
    (h : ∀ i x, heap[i]? = some x → p x → i ∈ positions) : heap.countP p ≤ positions.length := by
  have hmarked : heap.countP p = ((heap.zipIdx.filter (p ∘ Prod.fst)).map Prod.snd).length := by
    rw [List.length_map, ← List.countP_eq_length_filter, ← List.countP_map, List.zipIdx_map_fst]
  have hnodup : ((heap.zipIdx.filter (p ∘ Prod.fst)).map Prod.snd).Nodup := by
    refine List.Nodup.sublist (List.filter_sublist.map Prod.snd) ?_
    rw [List.zipIdx_map_snd]
    exact List.nodup_range'
  have hsubset : (heap.zipIdx.filter (p ∘ Prod.fst)).map Prod.snd ⊆ positions := by
    intro i hi
    obtain ⟨⟨x, j⟩, hmem, rfl⟩ := List.mem_map.mp hi
    obtain ⟨hindexed, hp⟩ := List.mem_filter.mp hmem
    exact h j x (List.mem_zipIdx_iff_getElem?.mp hindexed) hp
  rw [hmarked]
  exact (hnodup.subperm hsubset).length_le

end Registry
