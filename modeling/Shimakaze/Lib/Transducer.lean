import Mathlib.Data.List.Basic
import Mathlib.Tactic.Common

/-!
# Letter-by-Letter Transducers

A stateful map that turns every input letter into one output letter: the shape of a stream
cipher, whose key stream is the state. `Transducer.run f s xs` feeds `xs` to the step
function `f` from the state `s` and returns the output with the state it ends in.

## Main results

* `run_append`: **segmentation does not matter** — running on two pieces in turn is
  running on their concatenation.
* `run_take`: the output of an initial segment is the initial segment of the output.
* `getElem?_run`: one letter of the output.
* `Inverts.run`: a step function that undoes another letter by letter, state by state,
  undoes it on whole inputs and ends in the same state.
-/

namespace Transducer

variable {σ α β γ : Type*}

/-- Run a transducer over a list of letters. -/
def run (f : σ → α → β × σ) : σ → List α → List β × σ
  | s, [] => ([], s)
  | s, a :: as => ((f s a).1 :: (run f (f s a).2 as).1, (run f (f s a).2 as).2)

@[simp] theorem run_nil (f : σ → α → β × σ) (s : σ) : run f s [] = ([], s) := rfl

theorem run_cons (f : σ → α → β × σ) (s : σ) (a : α) (as : List α) :
    run f s (a :: as) = ((f s a).1 :: (run f (f s a).2 as).1, (run f (f s a).2 as).2) := rfl

/-- Running on two pieces in turn is running on their concatenation. -/
theorem run_append (f : σ → α → β × σ) (s : σ) (as bs : List α) :
    run f s (as ++ bs) =
      ((run f s as).1 ++ (run f (run f s as).2 bs).1, (run f (run f s as).2 bs).2) := by
  induction as generalizing s with
  | nil => rfl
  | cons a as ih => simp only [List.cons_append, run_cons, ih]

@[simp] theorem length_run (f : σ → α → β × σ) (s : σ) (as : List α) :
    (run f s as).1.length = as.length := by
  induction as generalizing s with
  | nil => rfl
  | cons a as ih => simp only [run_cons, List.length_cons, ih]

/-- The output of an initial segment is the initial segment of the output. -/
theorem run_take (f : σ → α → β × σ) (s : σ) (as : List α) (n : ℕ) :
    (run f s (as.take n)).1 = (run f s as).1.take n := by
  rcases Nat.le_total n as.length with hn | hn
  · have h := congrArg Prod.fst (run_append f s (as.take n) (as.drop n))
    rw [List.take_append_drop] at h
    rw [h, List.take_left' (by rw [length_run, List.length_take, Nat.min_eq_left hn])]
  · rw [List.take_of_length_le hn, List.take_of_length_le (by rw [length_run]; exact hn)]

/-- The letter at one place of the output: the step function at the state the letters before
lead to. -/
theorem getElem?_run (f : σ → α → β × σ) (s : σ) (as : List α) (i : ℕ) :
    (run f s as).1[i]? = as[i]?.map fun a => (f (run f s (as.take i)).2 a).1 := by
  induction as generalizing s i with
  | nil => rfl
  | cons a as ih =>
      cases i with
      | zero => rfl
      | succ i => exact ih (f s a).2 i

/-- `Inverts g f`: from every state, `g` recovers the letter `f` consumed and moves to the
state `f` moved to. -/
def Inverts (g : σ → β → α × σ) (f : σ → α → β × σ) : Prop :=
  ∀ s a, g s (f s a).1 = (a, (f s a).2)

/-- An inverse step function inverts whole runs and ends in the same state. -/
theorem Inverts.run {g : σ → β → α × σ} {f : σ → α → β × σ} (h : Inverts g f) (s : σ)
    (as : List α) : run g s (run f s as).1 = (as, (run f s as).2) := by
  induction as generalizing s with
  | nil => rfl
  | cons a as ih => rw [run_cons f, run_cons g, h s a, ih]

end Transducer
