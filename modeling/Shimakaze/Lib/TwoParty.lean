import Mathlib.Logic.Function.Basic
import Shimakaze.Lib.EventMachine

/-!
# Two Parties Joined by Channels

Two parties, one on each `Side`, are joined by two first-in-first-out channels. A party
takes a local step or receives the front of the channel towards it, any number of messages
at a time, and appends what it sends to its own channel. A `Link` gives the two step
functions; `Link.machine` is the joint system as an event machine.

Most properties of such a system are about one direction: what one party has sent, what is
in flight, and what the other has received. Their proofs would all repeat the bookkeeping
of the two sides, so it is done once here.

## Main results

* `Link.Directed`: what a property of one direction has to satisfy — a step of the sender
  and a step of the receiver keep it.
* `Link.Directed.of_symmetric`: for a property that reads the same from both ends, the
  steps of one party are enough.
* `Link.Directed.reachable`: **the direction rule** — such a property holds in both
  directions of every reachable state.
-/

/-- One of two parties. -/
inductive Side
  | left
  | right
  deriving DecidableEq

namespace Side

/-- The other party. -/
def other : Side → Side
  | left => right
  | right => left

@[simp] theorem other_other (p : Side) : p.other.other = p := by cases p <;> rfl

theorem other_ne (p : Side) : p.other ≠ p := by cases p <;> decide

theorem ne_other (p : Side) : p ≠ p.other := by cases p <;> decide

theorem eq_or_eq_other (p q : Side) : p = q ∨ p = q.other := by cases p <;> cases q <;> decide

end Side

/-- The steps of two parties with states `σ`: a local step driven by `ι`, and the receipt of
some messages `μ`. Each may be impossible, and each may send. -/
structure Link (σ μ ι : Type*) where
  act : Side → σ → ι → Option (σ × List μ)
  recv : Side → σ → List μ → Option (σ × List μ)

/-- The two parties and what each has sent and the other has not received. -/
structure LinkState (σ μ : Type*) where
  party : Side → σ
  channel : Side → List μ

/-- A step of the joint system; the side is the one that acts or receives. -/
inductive LinkEvent (ι : Type*)
  | act (side : Side) (i : ι)
  | deliver (side : Side) (count : ℕ)

namespace Link

variable {σ μ ι : Type*} (L : Link σ μ ι)

/-- The joint system. -/
def machine : EventMachine (LinkState σ μ) (LinkEvent ι) where
  step j
    | .act p i =>
        (L.act p (j.party p) i).map fun r =>
          ⟨Function.update j.party p r.1,
            Function.update j.channel p (j.channel p ++ r.2)⟩
    | .deliver p n =>
        (L.recv p (j.party p) ((j.channel p.other).take n)).map fun r =>
          ⟨Function.update j.party p r.1,
            Function.update (Function.update j.channel p.other ((j.channel p.other).drop n)) p
              (j.channel p ++ r.2)⟩

/-- A property `I p s r forward backward` of the direction from `p` to the other party, with
sender `s`, receiver `r` and the two channels, is kept by the steps of both. -/
structure Directed (I : Side → σ → σ → List μ → List μ → Prop) : Prop where
  senderActs : ∀ p s r forward backward i s' out, I p s r forward backward →
    L.act p s i = some (s', out) → I p s' r (forward ++ out) backward
  senderReceives : ∀ p s r forward backward chunk s' out,
    I p s r forward (chunk ++ backward) →
    L.recv p s chunk = some (s', out) → I p s' r (forward ++ out) backward
  receiverActs : ∀ p s r forward backward i r' out, I p s r forward backward →
    L.act p.other r i = some (r', out) → I p s r' forward (backward ++ out)
  receiverReceives : ∀ p s r forward backward chunk r' out,
    I p s r (chunk ++ forward) backward →
    L.recv p.other r chunk = some (r', out) → I p s r' forward (backward ++ out)

variable {L}

/-- A property that reads the same from both ends is directed as soon as the steps of the
sender keep it. -/
theorem Directed.of_symmetric {I : Side → σ → σ → List μ → List μ → Prop}
    (hsymm : ∀ p s r forward backward, I p s r forward backward → I p.other r s backward forward)
    (hact : ∀ p s r forward backward i s' out, I p s r forward backward →
      L.act p s i = some (s', out) → I p s' r (forward ++ out) backward)
    (hrecv : ∀ p s r forward backward chunk s' out, I p s r forward (chunk ++ backward) →
      L.recv p s chunk = some (s', out) → I p s' r (forward ++ out) backward) :
    L.Directed I where
  senderActs := hact
  senderReceives := hrecv
  receiverActs p s r forward backward i r' out h hstep := by
    have hkept := hsymm _ _ _ _ _ (hact p.other r s _ _ i r' out (hsymm _ _ _ _ _ h) hstep)
    rwa [Side.other_other] at hkept
  receiverReceives p s r forward backward chunk r' out h hstep := by
    have hkept := hsymm _ _ _ _ _ (hrecv p.other r s _ _ chunk r' out (hsymm _ _ _ _ _ h) hstep)
    rwa [Side.other_other] at hkept

/-- A step keeps a directed property in both directions. -/
theorem Directed.step {I : Side → σ → σ → List μ → List μ → Prop} (hI : L.Directed I)
    {j j' : LinkState σ μ} {e : LinkEvent ι}
    (h : ∀ p, I p (j.party p) (j.party p.other) (j.channel p) (j.channel p.other))
    (hstep : L.machine.step j e = some j') :
    ∀ p, I p (j'.party p) (j'.party p.other) (j'.channel p) (j'.channel p.other) := by
  intro p
  cases e with
  | act q i =>
      obtain ⟨⟨s', out⟩, hact, rfl⟩ := Option.map_eq_some_iff.mp hstep
      rcases p.eq_or_eq_other q with rfl | rfl
      · have hkept := hI.senderActs p _ _ _ _ i s' out (h p) hact
        simpa [p.other_ne] using hkept
      · have hq := h q.other
        rw [Side.other_other] at hq
        have hkept := hI.receiverActs q.other _ _ _ _ i s' out hq (by rwa [Side.other_other])
        simpa [q.other_ne] using hkept
  | deliver q n =>
      obtain ⟨⟨s', out⟩, hrecv, rfl⟩ := Option.map_eq_some_iff.mp hstep
      rcases p.eq_or_eq_other q with rfl | rfl
      · have hp := h p
        rw [← List.take_append_drop n (j.channel p.other)] at hp
        have hkept := hI.senderReceives p _ _ _ _ _ s' out hp hrecv
        simpa [p.other_ne, p.ne_other] using hkept
      · have hq := h q.other
        rw [Side.other_other, ← List.take_append_drop n (j.channel q.other)] at hq
        have hkept := hI.receiverReceives q.other _ _ _ _ _ s' out hq
          (by rwa [Side.other_other])
        simpa [q.other_ne, q.ne_other] using hkept

/-- **The direction rule**: a directed property that holds initially in both directions
holds in both directions of every reachable state. -/
theorem Directed.reachable {I : Side → σ → σ → List μ → List μ → Prop} (hI : L.Directed I)
    {j j' : LinkState σ μ}
    (h : ∀ p, I p (j.party p) (j.party p.other) (j.channel p) (j.channel p.other))
    (hreach : L.machine.Reachable j j') :
    ∀ p, I p (j'.party p) (j'.party p.other) (j'.channel p) (j'.channel p.other) :=
  EventMachine.Reachable.invariant
    (I := fun j : LinkState σ μ =>
      ∀ p, I p (j.party p) (j.party p.other) (j.channel p) (j.channel p.other))
    (fun _ _ _ h hstep => hI.step h hstep) h hreach

end Link
