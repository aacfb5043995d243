import Shimakaze.Lib.TwoParty

/-!
# Two Parties on a Network That Loses, Repeats and Reorders

Two parties, one on each `Side`, post messages, and any message a party has ever posted may
reach the other one: never, once or often, and in any order. So the network has no state of its
own. It is the list of what each party has posted, which is part of the party's state, and a
delivery is a position in that list. A `LossyLink` gives the steps of the parties;
`LossyLink.machine` is the joint system as an event machine.

Some properties hold only while the network keeps within limits, or while the parties are used
as they should be. `LossyLink.Meets` states such conditions on a step: `A` on what a party does,
and `C` on what is delivered to whom.

## Main results

* `LossyLink.Directed`: what a property of one direction has to satisfy — each kind of step
  keeps it.
* `LossyLink.Directed.run`: **the direction rule** — such a property holds in both directions
  after a run whose steps meet the conditions.
-/

/-- The steps of two parties with states `σ`: a local step driven by `ι`, and the receipt of the
message `μ` at a position of what the other party has posted. Each may be impossible. -/
structure LossyLink (σ μ ι : Type*) where
  act : Side → σ → ι → Option σ
  recv : Side → σ → ℕ → μ → Option σ
  /-- All that a party has posted so far. -/
  posted : σ → List μ

/-- A step of the joint system; the side is the one that acts or receives. -/
inductive LossyEvent (ι : Type*)
  | act (side : Side) (i : ι)
  | deliver (side : Side) (position : ℕ)

namespace LossyLink

variable {σ μ ι : Type*} (L : LossyLink σ μ ι)

/-- The joint system. -/
def machine : EventMachine (Side → σ) (LossyEvent ι) where
  step j
    | .act p i => (L.act p (j p) i).map (Function.update j p)
    | .deliver p k =>
        (L.posted (j p.other))[k]?.bind fun message =>
          (L.recv p (j p) k message).map (Function.update j p)

/-- A step meets the conditions `A`, on a local step of a party, and `C`, on a delivery from one
party to the other. -/
def Meets (A : Side → σ → ι → Prop) (C : Side → σ → σ → ℕ → Prop) (j : Side → σ) :
    LossyEvent ι → Prop
  | .act p i => A p (j p) i
  | .deliver p k => C p.other (j p.other) (j p) k

/-- A property `I p s r` of the direction from `p` to the other party, with sender `s` and
receiver `r`, is kept by the steps of both that meet the conditions. -/
structure Directed (A : Side → σ → ι → Prop) (C : Side → σ → σ → ℕ → Prop)
    (I : Side → σ → σ → Prop) : Prop where
  senderActs : ∀ p s r i s', I p s r → A p s i → L.act p s i = some s' → I p s' r
  senderReceives : ∀ p s r k message s', I p s r → L.recv p s k message = some s' → I p s' r
  receiverActs : ∀ p s r i r', I p s r → L.act p.other r i = some r' → I p s r'
  receiverReceives : ∀ p s r k message r', I p s r → (L.posted s)[k]? = some message →
    C p s r k → L.recv p.other r k message = some r' → I p s r'

variable {L} {A : Side → σ → ι → Prop} {C : Side → σ → σ → ℕ → Prop} {I : Side → σ → σ → Prop}

/-- A step that meets the conditions keeps a directed property in both directions. -/
theorem Directed.step (hI : L.Directed A C I) {j j' : Side → σ} {e : LossyEvent ι}
    (h : ∀ p, I p (j p) (j p.other)) (hmeets : Meets A C j e)
    (hstep : L.machine.step j e = some j') : ∀ p, I p (j' p) (j' p.other) := by
  intro p
  cases e with
  | act q i =>
      obtain ⟨s', hact, rfl⟩ := Option.map_eq_some_iff.mp hstep
      rcases p.eq_or_eq_other q with rfl | rfl
      · have hkept := hI.senderActs p _ _ i s' (h p) hmeets hact
        simpa [p.other_ne] using hkept
      · have hq := h q.other
        rw [Side.other_other] at hq
        have hkept := hI.receiverActs q.other _ _ i s' hq (by rwa [Side.other_other])
        simpa [q.other_ne] using hkept
  | deliver q k =>
      obtain ⟨message, hmessage, hstep⟩ := Option.bind_eq_some_iff.mp hstep
      obtain ⟨s', hrecv, rfl⟩ := Option.map_eq_some_iff.mp hstep
      rcases p.eq_or_eq_other q with rfl | rfl
      · have hkept := hI.senderReceives p _ _ k message s' (h p) hrecv
        simpa [p.other_ne] using hkept
      · have hq := h q.other
        rw [Side.other_other] at hq
        have hkept := hI.receiverReceives q.other _ _ k message s' hq hmessage hmeets
          (by rwa [Side.other_other])
        simpa [q.other_ne] using hkept

/-- **The direction rule**: a directed property that holds initially in both directions holds in
both directions after every run whose steps meet the conditions. -/
theorem Directed.run (hI : L.Directed A C I) {j t : Side → σ} {es : List (LossyEvent ι)}
    (h : ∀ p, I p (j p) (j p.other)) (hmeets : L.machine.Along (Meets A C) j es)
    (hrun : L.machine.run j es = some t) : ∀ p, I p (t p) (t p.other) :=
  EventMachine.run_along (I := fun j : Side → σ => ∀ p, I p (j p) (j p.other))
    (fun _ _ _ h hmeets hstep => hI.step h hmeets hstep) h hmeets hrun

end LossyLink
