import Mathlib.Data.List.Basic
import Mathlib.Tactic.Common

/-!
# Incremental Framing

A receiver that gets a byte stream in arrivals it does not control keeps the undecoded
tail in a buffer and, on every arrival, takes complete items off the front of the buffer
until it needs more bytes or meets an error. `Framing` is the decision such a receiver
makes about its buffer: `step s buf` says whether more bytes are needed, the buffer is
malformed, or an item is complete and how many letters it takes. The two stability fields
say that a decision other than "more" looks only at the letters it is about, so later
arrivals do not change it.

## Main results

* `drain_append`: **arrival boundaries do not matter** — draining a concatenation is draining
  the first part and going on with its tail, for well-formed and malformed streams alike.
* `drain_encode_append`: items written by a matching encoder come back in order.
* `drain_of_encode_eq_append`: an initial segment of an encoded stream never fails and
  yields an initial segment of the items.
* `tail_of_encode`: what is held between two arrivals of an encoded stream.
-/

/-- What a receiver decides about its buffer. -/
inductive Verdict (ι ε : Type*)
  /-- The buffer does not hold a complete item yet. -/
  | more
  /-- The buffer is malformed. -/
  | fail (error : ε)
  /-- The first `size` letters are a complete item. -/
  | item (item : ι) (size : ℕ)

/-- The framing of a stream of letters `β` into items `ι`, with errors `ε` and a decoder
state `σ` that changes from item to item. -/
structure Framing (σ β ι ε : Type*) where
  step : σ → List β → Verdict ι ε
  next : σ → ι → σ
  size_pos : ∀ {s buf i n}, step s buf = .item i n → 0 < n
  size_le : ∀ {s buf i n}, step s buf = .item i n → n ≤ buf.length
  item_append : ∀ {s buf i n} (later : List β),
    step s buf = .item i n → step s (buf ++ later) = .item i n
  fail_append : ∀ {s buf e} (later : List β),
    step s buf = .fail e → step s (buf ++ later) = .fail e

/-- How a receiver stands after an arrival: stopped by an error, or waiting with a decoder
state and an undecoded tail. -/
inductive Standing (σ β ε : Type*)
  | failed (error : ε)
  | waiting (state : σ) (tail : List β)

/-- The items taken off a stream, and how the receiver stands. -/
structure Parsed (σ β ι ε : Type*) where
  items : List ι
  standing : Standing σ β ε

namespace Parsed

variable {σ β ι ε : Type*}

/-- Put items that were decoded earlier in front. -/
def after (earlier : List ι) (r : Parsed σ β ι ε) : Parsed σ β ι ε :=
  ⟨earlier ++ r.items, r.standing⟩

@[simp] theorem after_items (earlier : List ι) (r : Parsed σ β ι ε) :
    (r.after earlier).items = earlier ++ r.items := rfl

@[simp] theorem after_standing (earlier : List ι) (r : Parsed σ β ι ε) :
    (r.after earlier).standing = r.standing := rfl

@[simp] theorem after_nil (r : Parsed σ β ι ε) : r.after [] = r := rfl

theorem after_after (as bs : List ι) (r : Parsed σ β ι ε) :
    (r.after bs).after as = r.after (as ++ bs) := by
  simp only [after, List.append_assoc]

end Parsed

namespace Framing

variable {σ β ι ε : Type*} (F : Framing σ β ι ε)

/-- Take complete items off the front of the buffer until more letters are needed or the
buffer is malformed. -/
def drain (s : σ) (buf : List β) : Parsed σ β ι ε :=
  match _h : F.step s buf with
  | .more => ⟨[], .waiting s buf⟩
  | .fail e => ⟨[], .failed e⟩
  | .item i n => (drain (F.next s i) (buf.drop n)).after [i]
termination_by buf.length
decreasing_by
  have hpos := F.size_pos ‹_›
  have hle := F.size_le ‹_›
  simp only [List.length_drop]
  omega

variable {F}

theorem drain_of_more {s : σ} {buf : List β} (h : F.step s buf = .more) :
    F.drain s buf = ⟨[], .waiting s buf⟩ := by
  rw [drain]; split <;> simp_all

theorem drain_of_fail {s : σ} {buf : List β} {e : ε} (h : F.step s buf = .fail e) :
    F.drain s buf = ⟨[], .failed e⟩ := by
  rw [drain]; split <;> simp_all

theorem drain_of_item {s : σ} {buf : List β} {i : ι} {n : ℕ}
    (h : F.step s buf = .item i n) :
    F.drain s buf = (F.drain (F.next s i) (buf.drop n)).after [i] := by
  rw [drain]; split <;> simp_all

/-- A receiver that waits holds a tail that is not a complete item. -/
theorem step_eq_more_of_drain {s s' : σ} {buf tail : List β}
    (h : (F.drain s buf).standing = .waiting s' tail) : F.step s' tail = .more := by
  induction s, buf using Framing.drain.induct F with
  | case1 s buf hmore =>
      rw [drain_of_more hmore] at h
      obtain ⟨rfl, rfl⟩ := Standing.waiting.inj h
      exact hmore
  | case2 s buf e hfail =>
      rw [drain_of_fail hfail] at h
      cases h
  | case3 s buf i n hitem ih =>
      rw [drain_of_item hitem] at h
      exact ih h

variable (F)

/-- One arrival: a stopped receiver ignores it, a waiting one drains its tail and the
arrival together. -/
def feed (r : Parsed σ β ι ε) (arrival : List β) : Parsed σ β ι ε :=
  match r.standing with
  | .failed _ => r
  | .waiting s tail => (F.drain s (tail ++ arrival)).after r.items

theorem feed_of_failed {r : Parsed σ β ι ε} {e : ε} (h : r.standing = .failed e)
    (arrival : List β) : F.feed r arrival = r := by
  simp only [feed, h]

theorem feed_of_waiting {r : Parsed σ β ι ε} {s : σ} {tail : List β}
    (h : r.standing = .waiting s tail) (arrival : List β) :
    F.feed r arrival = (F.drain s (tail ++ arrival)).after r.items := by
  simp only [feed, h]

/-- Earlier items pass through an arrival unchanged. -/
theorem feed_after (earlier : List ι) (r : Parsed σ β ι ε) (arrival : List β) :
    F.feed (r.after earlier) arrival = (F.feed r arrival).after earlier := by
  cases h : r.standing with
  | failed e => rw [F.feed_of_failed h, F.feed_of_failed (r := r.after earlier) h]
  | waiting s tail =>
      rw [F.feed_of_waiting h, F.feed_of_waiting (r := r.after earlier) h,
        Parsed.after_items, Parsed.after_after]

/-- Draining a concatenation is draining the first part and feeding the second. -/
theorem drain_append (s : σ) (a b : List β) :
    F.drain s (a ++ b) = F.feed (F.drain s a) b := by
  induction s, a using Framing.drain.induct F with
  | case1 s a hmore => rw [drain_of_more hmore, F.feed_of_waiting rfl, Parsed.after_nil]
  | case2 s a e hfail =>
      rw [drain_of_fail hfail, drain_of_fail (F.fail_append b hfail), F.feed_of_failed rfl]
  | case3 s a i n hitem ih =>
      rw [drain_of_item hitem, drain_of_item (F.item_append b hitem),
        List.drop_append_of_le_length (F.size_le hitem), ih, F.feed_after]

/-! ### Streams written by a matching encoder -/

/-- `encode` writes items the framing recognises: whatever follows, the letters of an item
are taken off as that item. -/
def Encodes (encode : ι → List β) (good : σ → ι → Prop) : Prop :=
  ∀ s i, good s i → ∀ later, F.step s (encode i ++ later) = .item i (encode i).length

/-- A list of items that is well formed from the state `s` on. -/
def GoodItems (good : σ → ι → Prop) : σ → List ι → Prop
  | _, [] => True
  | s, i :: is => good s i ∧ GoodItems good (F.next s i) is

/-- The decoder state after a list of items. -/
def nextAll (s : σ) (is : List ι) : σ := is.foldl F.next s

variable {F} {encode : ι → List β} {good : σ → ι → Prop}

/-- Items written by a matching encoder come back in order, and the receiver goes on with
what follows them. -/
theorem drain_encode_append (henc : F.Encodes encode good) {s : σ} {is : List ι}
    (hgood : F.GoodItems good s is) (later : List β) :
    F.drain s ((is.map encode).flatten ++ later) =
      (F.drain (F.nextAll s is) later).after is := by
  induction is generalizing s with
  | nil => rfl
  | cons i is ih =>
      rw [List.map_cons, List.flatten_cons, List.append_assoc,
        drain_of_item (henc s i hgood.1 _), List.drop_left, ih hgood.2, Parsed.after_after]
      rfl

/-- The framing of a whole encoded stream, when nothing is left over. -/
theorem drain_encode (henc : F.Encodes encode good) {s : σ} {is : List ι}
    (hgood : F.GoodItems good s is) (hnil : F.step (F.nextAll s is) [] = .more) :
    F.drain s (is.map encode).flatten = ⟨is, .waiting (F.nextAll s is) []⟩ := by
  have h := drain_encode_append henc hgood []
  rw [List.append_nil, drain_of_more hnil] at h
  rw [h, Parsed.after, List.append_nil]

/-- **An initial segment of an encoded stream** never fails; the items it yields are an
initial segment of the encoded items, and feeding the rest completes them. -/
theorem drain_of_encode_eq_append (henc : F.Encodes encode good) {s : σ} {is : List ι}
    (hgood : F.GoodItems good s is) (hnil : F.step (F.nextAll s is) [] = .more)
    {a b : List β} (hab : (is.map encode).flatten = a ++ b) :
    ∃ s' tail, (F.drain s a).standing = .waiting s' tail ∧ (F.drain s a).items <+: is := by
  have h := F.drain_append s a b
  rw [← hab, drain_encode henc hgood hnil] at h
  cases hst : (F.drain s a).standing with
  | failed e =>
      rw [F.feed_of_failed hst] at h
      rw [← h] at hst
      cases hst
  | waiting s' tail =>
      rw [F.feed_of_waiting hst] at h
      refine ⟨s', tail, rfl, (F.drain s' (tail ++ b)).items, ?_⟩
      exact (congrArg Parsed.items h).symm

/-- A proper initial segment of an encoded item is not complete. -/
theorem step_eq_more_of_encode (henc : F.Encodes encode good) {s : σ} {i : ι} {a more : List β}
    (hgood : good s i) (hi : encode i = a ++ more) (hshort : a.length < (encode i).length) :
    F.step s a = .more := by
  have hitem := henc s i hgood []
  rw [List.append_nil, hi] at hitem
  cases hstep : F.step s a with
  | more => rfl
  | fail e =>
      rw [F.fail_append more hstep] at hitem
      cases hitem
  | item j n =>
      rw [F.item_append more hstep] at hitem
      obtain ⟨-, rfl⟩ := Verdict.item.inj hitem
      have hle := F.size_le hstep
      rw [← hi] at hle
      omega

/-- **Between two arrivals** a receiver of an encoded stream holds nothing, or a proper initial
segment of one encoded item. -/
theorem tail_of_encode (henc : F.Encodes encode good) {s s' : σ} {is items : List ι}
    {a b tail : List β} (hgood : F.GoodItems good s is)
    (hab : (is.map encode).flatten = a ++ b)
    (hdrain : F.drain s a = ⟨items, .waiting s' tail⟩) :
    tail = [] ∨ ∃ i ∈ is, ∃ more, more ≠ [] ∧ encode i = tail ++ more := by
  induction is generalizing s a items with
  | nil =>
      obtain ⟨rfl, -⟩ := List.append_eq_nil_iff.mp hab.symm
      left
      have hstanding := congrArg Parsed.standing hdrain
      cases hstep : F.step s [] with
      | more =>
          rw [drain_of_more hstep] at hstanding
          exact (Standing.waiting.inj hstanding).2.symm
      | fail e =>
          rw [drain_of_fail hstep] at hstanding
          cases hstanding
      | item i n =>
          have hpos := F.size_pos hstep
          have hle := F.size_le hstep
          rw [List.length_nil] at hle
          omega
  | cons i is ih =>
      rw [List.map_cons, List.flatten_cons] at hab
      have hinitial : a <+: encode i ++ (is.map encode).flatten := ⟨b, hab.symm⟩
      rcases Nat.lt_or_ge a.length (encode i).length with hshort | hlong
      · obtain ⟨more, hmore⟩ :=
          List.prefix_of_prefix_length_le hinitial (List.prefix_append _ _)
            (Nat.le_of_lt hshort)
        rw [drain_of_more (step_eq_more_of_encode henc hgood.1 hmore.symm hshort)] at hdrain
        obtain ⟨-, hstanding⟩ := Parsed.mk.inj hdrain
        obtain ⟨-, rfl⟩ := Standing.waiting.inj hstanding
        refine Or.inr ⟨i, List.mem_cons_self, more, ?_, hmore.symm⟩
        rintro rfl
        rw [← hmore, List.append_nil] at hshort
        exact Nat.lt_irrefl _ hshort
      · obtain ⟨rest, rfl⟩ :=
          List.prefix_of_prefix_length_le (List.prefix_append _ _) hinitial hlong
        rw [List.append_assoc, List.append_cancel_left_eq] at hab
        rw [drain_of_item (henc s i hgood.1 rest), List.drop_left] at hdrain
        obtain ⟨-, hstanding⟩ := Parsed.mk.inj hdrain
        refine (@ih (F.next s i) (F.drain (F.next s i) rest).items rest hgood.2 hab ?_).imp_right ?_
        · rw [← hstanding]
        · rintro ⟨j, hj, hmore⟩
          exact ⟨j, List.mem_cons_of_mem _ hj, hmore⟩

/-! ### Streams of recognised chunks -/

section Recognised

variable (F)

/-- Whatever follows it, `chunk` is taken off as the item `i`. -/
def Recognises (s : σ) (chunk : List β) (i : ι) : Prop :=
  ∀ later, F.step s (chunk ++ later) = .item i chunk.length

/-- Chunks that are recognised one after another, the items they are taken off as, and the
decoder state after them. Unlike with an encoder, different chunks may stand for one item. -/
inductive Chunks : σ → List (List β) → List ι → σ → Prop
  | nil (s : σ) : Chunks s [] [] s
  | cons {s s' : σ} {chunk : List β} {i : ι} {chunks : List (List β)} {items : List ι}
      (h : F.Recognises s chunk i) (hrest : Chunks (F.next s i) chunks items s') :
      Chunks s (chunk :: chunks) (i :: items) s'

variable {F}

/-- **A stream of recognised chunks** is taken apart into their items, and nothing is left. -/
theorem drain_chunks {s s' : σ} {chunks : List (List β)} {items : List ι}
    (h : F.Chunks s chunks items s') (hnil : F.step s' [] = .more) :
    F.drain s chunks.flatten = ⟨items, .waiting s' []⟩ := by
  induction h with
  | nil s => exact drain_of_more hnil
  | cons h _ ih =>
      rw [List.flatten_cons, drain_of_item (h _), List.drop_left, ih hnil]
      rfl

end Recognised

end Framing
