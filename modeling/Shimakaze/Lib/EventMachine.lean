import Mathlib.Data.List.Basic
import Mathlib.Data.List.Induction
import Mathlib.Order.Lattice
import Mathlib.Tactic.Common

/-!
# Event Machines

An `EventMachine` is a deterministic partial transition system: `step s e` is the state
reached from `s` by the event `e`, or `none` when `e` is not enabled in `s`. All
nondeterminism of the modelled system (the order of completions, the contents of a
delivery, the choice of a party) is carried by the events, so a run is a list of events
and a statement about every interleaving is a statement about every list.

## Main results

* `Reachable.invariant`: the induction rule of the module — a predicate that holds
  initially and is preserved by every enabled step holds in every reachable state.
* `always_iff`: `Always` speaks about every state a run passes through.
* `Always.inductive`: the induction rule for a run along which something else holds.
* `always_iff_along`: **the exact-condition rule**. When a property is preserved by the
  steps that meet a condition and broken by the steps that do not, a run keeps the
  property throughout exactly when each of its steps meets the condition.
* `along_of_grows`: what only grows is bounded by what it is in the end.
* `peak`: a high-water mark is the largest value there was.
* `run_refines`: **the refinement rule**, event by event.
-/

/-- A deterministic transition system whose steps are driven by events; `none` marks an
event that is not enabled. -/
structure EventMachine (σ α : Type*) where
  /-- The state an event leads to. -/
  step : σ → α → Option σ

namespace EventMachine

variable {σ α : Type*} (M : EventMachine σ α)

/-- Execute a list of events from left to right; `none` when one of them is not enabled. -/
def run : σ → List α → Option σ
  | s, [] => some s
  | s, e :: es => (M.step s e).bind fun s' => run s' es

@[simp] theorem run_nil (s : σ) : M.run s [] = some s := rfl

theorem run_cons (s : σ) (e : α) (es : List α) :
    M.run s (e :: es) = (M.step s e).bind fun s' => M.run s' es := rfl

/-- A run of a nonempty list takes one enabled step and goes on from there. -/
theorem run_cons_eq_some {s t : σ} {e : α} {es : List α} :
    M.run s (e :: es) = some t ↔ ∃ s', M.step s e = some s' ∧ M.run s' es = some t := by
  simp only [run_cons, Option.bind_eq_some_iff]

/-- Runs compose. -/
theorem run_append (s : σ) (es fs : List α) :
    M.run s (es ++ fs) = (M.run s es).bind fun s' => M.run s' fs := by
  induction es generalizing s with
  | nil => rfl
  | cons e es ih =>
      rw [List.cons_append, run_cons, run_cons, Option.bind_assoc]
      exact congrArg _ (funext ih)

/-- A run of `es` followed by one more enabled step. -/
theorem run_concat {s t u : σ} {es : List α} {e : α} (h : M.run s es = some t)
    (he : M.step t e = some u) : M.run s (es ++ [e]) = some u := by
  rw [run_append, h, Option.bind_some, run_cons, he, Option.bind_some, run_nil]

/-- `M.Reachable s₀ t`: some run leads from `s₀` to `t`. -/
def Reachable (s₀ t : σ) : Prop := ∃ es, M.run s₀ es = some t

theorem Reachable.refl (s : σ) : M.Reachable s s := ⟨[], rfl⟩

theorem Reachable.tail {s t u : σ} {e : α} (h : M.Reachable s t)
    (he : M.step t e = some u) : M.Reachable s u := by
  obtain ⟨es, hes⟩ := h
  exact ⟨es ++ [e], M.run_concat hes he⟩

variable {M}

/-- An inductive predicate is preserved by whole runs. -/
theorem run_invariant {I : σ → Prop}
    (hstep : ∀ s e s', I s → M.step s e = some s' → I s') {s t : σ} {es : List α}
    (hs : I s) (h : M.run s es = some t) : I t := by
  induction es generalizing s with
  | nil =>
      obtain rfl : s = t := Option.some.inj h
      exact hs
  | cons e es ih =>
      obtain ⟨s', he, h'⟩ := M.run_cons_eq_some.mp h
      exact ih (hstep s e s' hs he) h'

/-- **The invariant rule**: a predicate that holds initially and is preserved by every
enabled step holds in every reachable state. -/
theorem Reachable.invariant {I : σ → Prop}
    (hstep : ∀ s e s', I s → M.step s e = some s' → I s') {s₀ t : σ} (h₀ : I s₀)
    (h : M.Reachable s₀ t) : I t := by
  obtain ⟨es, hes⟩ := h
  exact run_invariant hstep h₀ hes

variable (M)

/-- `M.Always P s es`: `P` holds in `s` and in every state that executing `es` from `s`
passes through. -/
def Always (P : σ → Prop) : σ → List α → Prop
  | s, [] => P s
  | s, e :: es => P s ∧ ∀ s', M.step s e = some s' → Always P s' es

/-- `M.Along C s es`: every step taken when executing `es` from `s` meets the condition
`C`, which sees the state before the step and the event. -/
def Along (C : σ → α → Prop) : σ → List α → Prop
  | _, [] => True
  | s, e :: es => ∀ s', M.step s e = some s' → C s e ∧ Along C s' es

variable {M}

theorem Always.head {P : σ → Prop} {s : σ} {es : List α} (h : M.Always P s es) : P s := by
  cases es with
  | nil => exact h
  | cons e es => exact h.1

/-- Executing the events tells. -/
instance Always.decidable {P : σ → Prop} [DecidablePred P] :
    (s : σ) → (es : List α) → Decidable (M.Always P s es)
  | s, [] => inferInstanceAs (Decidable (P s))
  | s, e :: es =>
      match h : M.step s e with
      | none =>
          decidable_of_iff (P s) ⟨fun hP => ⟨hP, fun _ he => by cases h.symm.trans he⟩, And.left⟩
      | some t =>
          have : Decidable (M.Always P t es) := Always.decidable t es
          decidable_of_iff (P s ∧ M.Always P t es)
            ⟨fun hP => ⟨hP.1, fun _ he => Option.some.inj (h.symm.trans he) ▸ hP.2⟩,
              fun hP => ⟨hP.1, hP.2 t h⟩⟩

/-- An inductive predicate whose step needs what holds all along holds all along. -/
theorem Always.inductive {P I : σ → Prop}
    (hstep : ∀ s e s', I s → P s' → M.step s e = some s' → I s') {s : σ} {es : List α}
    (hs : I s) (hP : M.Always P s es) : M.Always I s es := by
  induction es generalizing s with
  | nil => exact hs
  | cons e es ih =>
      exact ⟨hs, fun s' he => ih (hstep s e s' hs (hP.2 s' he).head he) (hP.2 s' he)⟩

/-- What holds all along holds in the end. -/
theorem Always.last {P : σ → Prop} {s t : σ} {es : List α} (h : M.Always P s es)
    (hrun : M.run s es = some t) : P t := by
  induction es generalizing s with
  | nil =>
      obtain rfl : s = t := Option.some.inj hrun
      exact h
  | cons e es ih =>
      obtain ⟨s', he, hrest⟩ := M.run_cons_eq_some.mp hrun
      exact ih (h.2 s' he) hrest

theorem Always.and {P Q : σ → Prop} {s : σ} {es : List α} (h : M.Always P s es)
    (h' : M.Always Q s es) : M.Always (fun s => P s ∧ Q s) s es := by
  induction es generalizing s with
  | nil => exact ⟨h, h'⟩
  | cons e es ih => exact ⟨⟨h.1, h'.1⟩, fun s' he => ih (h.2 s' he) (h'.2 s' he)⟩

/-- `Always` is about every state reached by an initial segment of the events. -/
theorem always_iff {P : σ → Prop} {s : σ} {es : List α} :
    M.Always P s es ↔
      ∀ pre post t, es = pre ++ post → M.run s pre = some t → P t := by
  induction es generalizing s with
  | nil =>
      constructor
      · intro h pre post t hes ht
        obtain ⟨rfl, rfl⟩ := List.append_eq_nil_iff.mp hes.symm
        obtain rfl : s = t := Option.some.inj ht
        exact h
      · intro h
        exact h [] [] s rfl rfl
  | cons e es ih =>
      constructor
      · rintro ⟨hP, htail⟩ pre post t hes ht
        cases pre with
        | nil =>
            obtain rfl : s = t := Option.some.inj ht
            exact hP
        | cons e' pre =>
            obtain ⟨rfl, rfl⟩ := List.cons_eq_cons.mp hes
            obtain ⟨s', he, ht'⟩ := M.run_cons_eq_some.mp ht
            exact ih.mp (htail s' he) pre post t rfl ht'
      · intro h
        refine ⟨h [] (e :: es) s rfl rfl, fun s' he => ih.mpr ?_⟩
        intro pre post t hes ht
        exact h (e :: pre) post t (by rw [hes, List.cons_append])
          (M.run_cons_eq_some.mpr ⟨s', he, ht⟩)

/-- A predicate preserved by the steps that meet `C` holds throughout a run all of whose
steps meet `C`. -/
theorem always_of_along {I : σ → Prop} {C : σ → α → Prop}
    (hstep : ∀ s e s', I s → C s e → M.step s e = some s' → I s') {s : σ} {es : List α}
    (hs : I s) (h : M.Along C s es) : M.Always I s es := by
  induction es generalizing s with
  | nil => exact hs
  | cons e es ih =>
      exact ⟨hs, fun s' he => ih (hstep s e s' hs (h s' he).1 he) (h s' he).2⟩

/-- A predicate preserved by every step holds throughout every run. -/
theorem always_of_invariant {I : σ → Prop}
    (hstep : ∀ s e s', I s → M.step s e = some s' → I s') {s : σ} (hs : I s)
    (es : List α) : M.Always I s es := by
  induction es generalizing s with
  | nil => exact hs
  | cons e es ih => exact ⟨hs, fun s' he => ih (hstep s e s' hs he)⟩

theorem Always.imp {P Q : σ → Prop} (hPQ : ∀ s, P s → Q s) {s : σ} {es : List α}
    (h : M.Always P s es) : M.Always Q s es := by
  induction es generalizing s with
  | nil => exact hPQ s h
  | cons e es ih => exact ⟨hPQ s h.1, fun s' he => ih (h.2 s' he)⟩

/-- A predicate preserved by the steps that meet `C` holds after a run all of whose steps meet
`C`. -/
theorem run_along {I : σ → Prop} {C : σ → α → Prop}
    (hstep : ∀ s e s', I s → C s e → M.step s e = some s' → I s') {s t : σ} {es : List α}
    (hs : I s) (h : M.Along C s es) (hrun : M.run s es = some t) : I t :=
  always_iff.mp (always_of_along hstep hs h) es [] t (List.append_nil es).symm hrun

/-- Steps that meet two conditions. -/
theorem Along.and {C D : σ → α → Prop} {s : σ} {es : List α} (h : M.Along C s es)
    (h' : M.Along D s es) : M.Along (fun s e => C s e ∧ D s e) s es := by
  induction es generalizing s with
  | nil => trivial
  | cons e es ih =>
      intro s' hstep
      exact ⟨⟨(h s' hstep).1, (h' s' hstep).1⟩, ih (h s' hstep).2 (h' s' hstep).2⟩

/-- A condition that implies another one on the steps that are taken. -/
theorem Along.imp {C D : σ → α → Prop}
    (hCD : ∀ s e s', M.step s e = some s' → C s e → D s e) {s : σ} {es : List α}
    (h : M.Along C s es) : M.Along D s es := by
  induction es generalizing s with
  | nil => trivial
  | cons e es ih => exact fun s' hstep => ⟨hCD s e s' hstep (h s' hstep).1, ih (h s' hstep).2⟩

/-- An inductive predicate holds before every step. -/
theorem along_of_invariant {I : σ → Prop}
    (hstep : ∀ s e s', I s → M.step s e = some s' → I s') {s : σ} (hs : I s) (es : List α) :
    M.Along (fun s _ => I s) s es := by
  induction es generalizing s with
  | nil => trivial
  | cons e es ih => exact fun s' he => ⟨hs, ih (hstep s e s' hs he)⟩

/-- **Bounded by the end.** What every step only lets grow is, after each step of a run, below
what it is in the end. -/
theorem along_of_grows {β : Type*} {R : β → β → Prop} (hrefl : ∀ b, R b b)
    (htrans : ∀ a b c, R a b → R b c → R a c) {m : σ → β}
    (hstep : ∀ s e s', M.step s e = some s' → R (m s) (m s')) {s t : σ} {es : List α}
    (hrun : M.run s es = some t) :
    M.Along (fun s e => ∀ s', M.step s e = some s' → R (m s') (m t)) s es := by
  have hgrows : ∀ {s t : σ} {es : List α}, M.run s es = some t → R (m s) (m t) :=
    fun {s t es} hrun => run_invariant (I := fun u => R (m s) (m u))
      (fun u e u' h he => htrans _ _ _ h (hstep u e u' he)) (hrefl _) hrun
  induction es generalizing s with
  | nil => trivial
  | cons e es ih =>
      intro s' he
      obtain ⟨s'', he', hrest⟩ := M.run_cons_eq_some.mp hrun
      obtain rfl := Option.some.inj (he.symm.trans he')
      refine ⟨fun u hu => ?_, ih hrest⟩
      obtain rfl := Option.some.inj (he.symm.trans hu)
      exact hgrows hrest

/-- **The exact-condition rule.** Let `I` be preserved by the steps that meet `C` and
imply `P`, and let every other enabled step out of an `I`-state lead outside `P`. Then a
run from an `I`-state stays inside `P` exactly when all its steps meet `C`. -/
theorem always_iff_along {I P : σ → Prop} {C : σ → α → Prop}
    (himp : ∀ s, I s → P s)
    (hkeep : ∀ s e s', I s → C s e → M.step s e = some s' → I s')
    (hbreak : ∀ s e s', I s → ¬ C s e → M.step s e = some s' → ¬ P s')
    {s : σ} (hs : I s) (es : List α) :
    M.Always P s es ↔ M.Along C s es := by
  constructor
  · intro h
    induction es generalizing s with
    | nil => trivial
    | cons e es ih =>
        intro s' he
        have hC : C s e := by
          by_contra hC
          exact hbreak s e s' hs hC he (h.2 s' he).head
        exact ⟨hC, ih (hkeep s e s' hs hC he) (h.2 s' he)⟩
  · intro h
    exact (always_of_along hkeep hs h).imp himp

/-- **The high-water mark.** A number that every step raises to a measure of the state it leads
to is, in the end, the largest value the measure has had. -/
theorem peak {I : σ → Prop} {measure mark : σ → ℕ}
    (hstep : ∀ s e s', I s → M.step s e = some s' →
      I s' ∧ mark s' = max (mark s) (measure s')) {s t : σ} {es : List α} (hI : I s)
    (hs : mark s = measure s) (h : M.run s es = some t) :
    (∀ pre post u, es = pre ++ post → M.run s pre = some u → measure u ≤ mark t) ∧
      ∃ pre post u, es = pre ++ post ∧ M.run s pre = some u ∧ measure u = mark t := by
  -- induction from the right: the last step is the one that may raise the mark
  induction es using List.reverseRecOn generalizing t with
  | nil =>
      obtain rfl : s = t := Option.some.inj h
      refine ⟨fun pre post u hes hu => ?_, [], [], s, rfl, rfl, hs.symm⟩
      obtain ⟨rfl, -⟩ := List.append_eq_nil_iff.mp hes.symm
      obtain rfl : s = u := Option.some.inj hu
      exact hs.ge
  | append_singleton es e ih =>
      rw [run_append, Option.bind_eq_some_iff] at h
      obtain ⟨r, hr, hlast⟩ := h
      have hre : M.step r e = some t := by simpa [run_cons] using hlast
      have hIr : I r := run_invariant (fun s e s' hI he => (hstep s e s' hI he).1) hI hr
      have hmark := (hstep r e t hIr hre).2
      obtain ⟨hbelow, pre, post, u, hes, hu, hattained⟩ := ih hr
      have hwhole := M.run_concat hr hre
      refine ⟨fun pre' post' u' hes' hu' => ?_, ?_⟩
      · rcases List.eq_nil_or_concat' post' with rfl | ⟨post', e', rfl⟩
        · rw [List.append_nil] at hes'
          subst hes'
          obtain rfl := Option.some.inj (hwhole.symm.trans hu')
          rw [hmark]
          exact le_max_right _ _
        · rw [← List.append_assoc] at hes'
          obtain ⟨hes', -⟩ := List.append_inj' hes' rfl
          rw [hmark]
          exact (hbelow pre' post' u' hes' hu').trans (le_max_left _ _)
      · rcases Nat.le_total (mark r) (measure t) with hle | hle
        · exact ⟨es ++ [e], [], t, (List.append_nil _).symm, hwhole, by
            rw [hmark, max_eq_right hle]⟩
        · refine ⟨pre, post ++ [e], u, by rw [hes, List.append_assoc], hu, ?_⟩
          rw [hmark, max_eq_left hle, hattained]

/-- **The refinement rule.** Let `V` relate the states of two machines, and let every step of the
first be some steps of the second that `R` allows for its event. Then every run of the first is a
run of the second whose events are, event by event, what `R` allows. -/
theorem run_refines {τ β : Type*} {N : EventMachine τ β} {V : σ → τ → Prop}
    {R : α → List β → Prop}
    (hstep : ∀ s e s' t, V s t → M.step s e = some s' →
      ∃ fs t', R e fs ∧ N.run t fs = some t' ∧ V s' t') {s s' : σ} {t : τ} {es : List α}
    (hst : V s t) (h : M.run s es = some s') :
    ∃ traces t', List.Forall₂ R es traces ∧ N.run t traces.flatten = some t' ∧ V s' t' := by
  induction es generalizing s t with
  | nil =>
      obtain rfl : s = s' := Option.some.inj h
      exact ⟨[], t, .nil, rfl, hst⟩
  | cons e es ih =>
      obtain ⟨u, he, hrest⟩ := M.run_cons_eq_some.mp h
      obtain ⟨fs, v, hR, hfs, huv⟩ := hstep s e u t hst he
      obtain ⟨traces, t', hall, htraces, hV⟩ := ih huv hrest
      refine ⟨fs :: traces, t', .cons hR hall, ?_, hV⟩
      rw [List.flatten_cons, run_append, hfs, Option.bind_some, htraces]

end EventMachine
