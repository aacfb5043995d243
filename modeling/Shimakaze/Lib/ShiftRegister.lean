import Mathlib.Data.Nat.Bitwise
import Mathlib.Logic.Function.Iterate

/-!
# Reflected Shift Registers

A cyclic redundancy check keeps a remainder in a register that moves down by one bit at a
time. In the reflected form the bit that leaves at the bottom decides whether the polynomial
is added, and a bit of the message is added to the bit about to leave. Programs run over
the message several bits at a time with a lookup table instead. This module holds the
register, of any width and with any polynomial, and what makes the two agree: a step is linear
in exclusive or, and a register whose low bits are zero only moves down.

## Main results

* `shift_xor`: a step is linear.
* `run_bits_eq`: the bits of a word fed one by one are the word added at once and as many steps.
* `run_bits_eq_lookup`: **the table step** — the steps of the low bits, looked up, and the
  register moved down.
-/

namespace ShiftRegister

variable {w : ℕ} (polynomial : BitVec w)

/-- One step of the register. -/
def shift (state : BitVec w) : BitVec w :=
  if state.getLsbD 0 then polynomial ^^^ (state >>> 1) else state >>> 1

/-- One bit of the message, least significant bits first. -/
def feed (state : BitVec w) (bit : Bool) : BitVec w :=
  if state.getLsbD 0 ^^ bit then polynomial ^^^ (state >>> 1) else state >>> 1

/-- A whole message, bit by bit. -/
def run (state : BitVec w) (message : List Bool) : BitVec w :=
  message.foldl (feed polynomial) state

/-- The low `n` bits of a word, least significant first. -/
def bits {v : ℕ} (n : ℕ) (word : BitVec v) : List Bool := (List.range n).map word.getLsbD

/-- A word without its bits from `n` on. -/
def low (n : ℕ) (word : BitVec w) : BitVec w := word &&& BitVec.ofNat w (2 ^ n - 1)

/-! ### Feeding is stepping -/

/-- A bit that is fed may be taken from a word that was already added to the register. -/
theorem feed_xor (state word : BitVec w) :
    feed polynomial (state ^^^ word) (word.getLsbD 0) =
      shift polynomial state ^^^ (word >>> 1) := by
  have hbit : ((state ^^^ word).getLsbD 0 ^^ word.getLsbD 0) = state.getLsbD 0 := by
    rw [BitVec.getLsbD_xor, Bool.xor_assoc, Bool.xor_self, Bool.xor_false]
  rw [feed, shift, hbit, BitVec.ushiftRight_xor_distrib]
  cases state.getLsbD 0 with
  | false => rfl
  | true => exact (BitVec.xor_assoc ..).symm

theorem run_append (state : BitVec w) (message more : List Bool) :
    run polynomial state (message ++ more) = run polynomial (run polynomial state message) more :=
  List.foldl_append

/-- **Bits fed one by one**: the whole word may be added at once, and what has not been fed yet
is taken out again. Induction on the number of bits. -/
theorem run_bits_eq (n : ℕ) (state word : BitVec w) :
    run polynomial state (bits n word) =
      (shift polynomial)^[n] (state ^^^ word) ^^^ (word >>> n) := by
  induction n with
  | zero =>
      rw [BitVec.ushiftRight_zero, Function.iterate_zero_apply, BitVec.xor_assoc, BitVec.xor_self,
        BitVec.xor_zero]
      rfl
  | succ n ih =>
      have hbit : word.getLsbD n = (word >>> n).getLsbD 0 := by
        rw [BitVec.getLsbD_ushiftRight, Nat.add_zero]
      rw [bits, List.range_succ, List.map_append, run_append, ← bits, ih]
      change feed polynomial _ (word.getLsbD n) = _
      rw [hbit, feed_xor, Function.iterate_succ_apply', BitVec.shiftRight_add]

/-! ### Linearity -/

/-- **A step is linear** in exclusive or. -/
theorem shift_xor (a b : BitVec w) :
    shift polynomial (a ^^^ b) = shift polynomial a ^^^ shift polynomial b := by
  have hleft : ∀ x y : BitVec w, polynomial ^^^ (x ^^^ y) = x ^^^ (polynomial ^^^ y) := by
    intro x y
    rw [← BitVec.xor_assoc, BitVec.xor_comm polynomial x, BitVec.xor_assoc]
  simp only [shift, BitVec.getLsbD_xor, BitVec.ushiftRight_xor_distrib]
  cases a.getLsbD 0 with
  | false =>
      cases b.getLsbD 0 with
      | false => rfl
      | true => exact hleft _ _
  | true =>
      cases b.getLsbD 0 with
      | false => exact (BitVec.xor_assoc ..).symm
      | true =>
          rw [Bool.xor_self, if_neg Bool.false_ne_true, if_pos rfl, if_pos rfl, ← hleft,
            BitVec.xor_assoc, ← BitVec.xor_assoc polynomial, BitVec.xor_self, BitVec.zero_xor]

theorem iterate_shift_xor (n : ℕ) (a b : BitVec w) :
    (shift polynomial)^[n] (a ^^^ b) =
      (shift polynomial)^[n] a ^^^ (shift polynomial)^[n] b := by
  induction n with
  | zero => rfl
  | succ n ih =>
      rw [Function.iterate_succ_apply', Function.iterate_succ_apply', Function.iterate_succ_apply',
        ih, shift_xor]

/-- A register whose low bits are zero only moves down while these leave. -/
theorem iterate_shift_of_low_zero {n : ℕ} {state : BitVec w}
    (h : ∀ i < n, state.getLsbD i = false) : (shift polynomial)^[n] state = state >>> n := by
  induction n with
  | zero => exact (BitVec.ushiftRight_zero state).symm
  | succ n ih =>
      have hbit : (state >>> n).getLsbD 0 = false := by
        rw [BitVec.getLsbD_ushiftRight]
        exact h n (Nat.lt_succ_self n)
      rw [Function.iterate_succ_apply', ih fun i hi => h i (Nat.lt_succ_of_lt hi), shift, hbit,
        if_neg Bool.false_ne_true, BitVec.shiftRight_add]

/-! ### The table step -/

theorem getLsbD_low (n : ℕ) (word : BitVec w) (i : ℕ) :
    (low n word).getLsbD i = (word.getLsbD i && decide (i < n)) := by
  rw [low, BitVec.getLsbD_and, BitVec.getLsbD_ofNat, Nat.testBit_two_pow_sub_one]
  by_cases hi : i < w
  · simp [hi]
  · simp [BitVec.getLsbD_of_ge word i (not_lt.mp hi)]

/-- **The table step.** Feeding the low bits of a word is the steps of the low bits of the sum,
which depend on these bits only, and the register moved down. -/
theorem run_bits_eq_lookup (n : ℕ) (state word : BitVec w) :
    run polynomial state (bits n word) =
      (shift polynomial)^[n] (low n (state ^^^ word)) ^^^ (state >>> n) := by
  set sum := state ^^^ word with hsum
  have hsplit : sum = low n sum ^^^ (low n sum ^^^ sum) := by
    rw [← BitVec.xor_assoc, BitVec.xor_self, BitVec.zero_xor]
  have hhigh : (shift polynomial)^[n] (low n sum ^^^ sum) = sum >>> n := by
    rw [iterate_shift_of_low_zero polynomial fun i hi => ?_]
    · rw [BitVec.ushiftRight_xor_distrib]
      have hzero : low n sum >>> n = 0#w := BitVec.eq_of_getLsbD_eq fun i _ => by
        rw [BitVec.getLsbD_ushiftRight, getLsbD_low, BitVec.getLsbD_zero]
        simp
      rw [hzero, BitVec.zero_xor]
    · rw [BitVec.getLsbD_xor, getLsbD_low, decide_eq_true hi, Bool.and_true, Bool.xor_self]
  have hsteps : (shift polynomial)^[n] sum = (shift polynomial)^[n] (low n sum) ^^^ sum >>> n := by
    conv_lhs => rw [hsplit]
    rw [iterate_shift_xor, hhigh]
  rw [run_bits_eq, ← hsum, hsteps, BitVec.xor_assoc, hsum, BitVec.ushiftRight_xor_distrib,
    BitVec.xor_assoc, BitVec.xor_self, BitVec.xor_zero]

end ShiftRegister
