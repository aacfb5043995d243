import Mathlib.Data.Nat.ModEq
import Mathlib.Tactic.Linarith
import Shimakaze.Fec.Codec

/-!
# Groups on the Wheel of Sequence Numbers

Counted without wrap, packet `k` of group `g` has the number `g * size + k`; the header
carries that number modulo `paws_`, the largest multiple of the group size below `2 ^ 32`.
The decoder divides the wrapped number into a wrapped group number and an index, and orders
wrapped group numbers by a signed 32-bit difference. That difference is the true one, off by
the few numbers that are skipped at the wrap, as long as the groups are not too far apart.

## Main results

* `seqAt_div`, `seqAt_mod`: what the decoder reads off a wrapped number.
* `timediff_groups`: the decoder's order of groups.
* `groupId_injective`: wrapped group numbers tell near groups apart.
-/

namespace Shimakaze

/-- The number of groups before the sequence numbers wrap. -/
def groupCount (size : ℕ) : ℕ := (2 ^ 32 - 1) / size

/-- The sequence number the header carries for the number `n` counted without wrap. -/
def seqAt (size n : ℕ) : UInt32 := UInt32.ofNat (n % (groupCount size * size))

/-- The wrapped group number of a group. -/
def groupId (size group : ℕ) : UInt32 := UInt32.ofNat (group % groupCount size)

/-- How far apart groups may be: `2 ^ 28 / shard_size`. -/
def reach (size : ℕ) : ℕ := 2 ^ 28 / size

section Wheel

variable {size : ℕ}

/-- The wheel ends at most one group short of `2 ^ 32`. -/
theorem wheel_bounds (hpos : 0 < size) :
    groupCount size * size < 2 ^ 32 ∧ 2 ^ 32 ≤ groupCount size * size + size := by
  have hmod := Nat.mod_lt (2 ^ 32 - 1) hpos
  have hdiv := Nat.div_add_mod (2 ^ 32 - 1) size
  rw [groupCount, Nat.mul_comm]
  omega

/-- There are many more groups than may lie between two delivered packets. -/
theorem groupCount_large (hpos : 0 < size) (hsize : size ≤ 256) :
    8 * reach size ≤ groupCount size ∧ 3 < reach size := by
  have hreach : reach size * size ≤ 2 ^ 28 := Nat.div_mul_le_self _ _
  have hfar : 8 * reach size * size ≤ 2 ^ 32 - 1 := by
    calc 8 * reach size * size = 8 * (reach size * size) := Nat.mul_assoc ..
      _ ≤ 8 * 2 ^ 28 := Nat.mul_le_mul_left 8 hreach
      _ ≤ 2 ^ 32 - 1 := by decide
  refine ⟨(Nat.le_div_iff_mul_le hpos).mpr hfar, ?_⟩
  calc 3 < 2 ^ 28 / 256 := by decide
    _ ≤ reach size := Nat.div_le_div_left hsize hpos

theorem groupCount_pos (hpos : 0 < size) (hsize : size ≤ 256) : 0 < groupCount size := by
  have h := groupCount_large hpos hsize
  omega

theorem wheel_pos (hpos : 0 < size) (hsize : size ≤ 256) : 0 < groupCount size * size :=
  Nat.mul_pos (groupCount_pos hpos hsize) hpos

theorem toNat_ofNat_size (hsize : size ≤ 256) : (UInt32.ofNat size).toNat = size := by
  rw [UInt32.toNat_ofNat']
  exact Nat.mod_eq_of_lt (by omega)

/-- `paws_` is the length of the wheel. -/
theorem toNat_paws (hpos : 0 < size) (hsize : size ≤ 256) :
    (0xffffffff / UInt32.ofNat size * UInt32.ofNat size).toNat = groupCount size * size := by
  rw [UInt32.toNat_mul, UInt32.toNat_div, toNat_ofNat_size hsize]
  exact Nat.mod_eq_of_lt (wheel_bounds hpos).1

/-! ### Headers -/

theorem toNat_seqAt (hpos : 0 < size) (hsize : size ≤ 256) (n : ℕ) :
    (seqAt size n).toNat = n % (groupCount size * size) := by
  rw [seqAt, UInt32.toNat_ofNat']
  exact Nat.mod_eq_of_lt ((Nat.mod_lt n (wheel_pos hpos hsize)).trans (wheel_bounds hpos).1)

theorem toNat_groupId (hpos : 0 < size) (hsize : size ≤ 256) (g : ℕ) :
    (groupId size g).toNat = g % groupCount size := by
  have hlt := Nat.mod_lt g (groupCount_pos hpos hsize)
  have hle : groupCount size ≤ 2 ^ 32 - 1 := Nat.div_le_self _ _
  rw [groupId, UInt32.toNat_ofNat']
  exact Nat.mod_eq_of_lt (by omega)

/-- The wrapped group number the decoder reads off a sequence number. -/
theorem seqAt_div (hpos : 0 < size) (hsize : size ≤ 256) (n : ℕ) :
    seqAt size n / UInt32.ofNat size = groupId size (n / size) := by
  rw [← UInt32.toNat_inj, UInt32.toNat_div, toNat_seqAt hpos hsize, toNat_ofNat_size hsize,
    toNat_groupId hpos hsize, Nat.mul_comm, Nat.mod_mul_right_div_self]

/-- The index in the group the decoder reads off a sequence number. -/
theorem seqAt_mod (hpos : 0 < size) (hsize : size ≤ 256) (n : ℕ) :
    (seqAt size n % UInt32.ofNat size).toNat = n % size := by
  rw [UInt32.toNat_mod, toNat_seqAt hpos hsize, toNat_ofNat_size hsize, Nat.mod_mul_left_mod]

/-- Counting on by at most the rest of a group stays on the wheel: the group of `n` ends at or
before the end of the wheel. -/
theorem seqAt_room (hpos : 0 < size) (hsize : size ≤ 256) {n step : ℕ}
    (hstep : n % size + step ≤ size) :
    n % (groupCount size * size) + step ≤ groupCount size * size := by
  have hlt := Nat.mod_lt n (wheel_pos hpos hsize)
  have hsplit := Nat.div_add_mod (n % (groupCount size * size)) size
  rw [Nat.mod_mul_left_mod] at hsplit
  have hgroup : n % (groupCount size * size) / size + 1 ≤ groupCount size :=
    Nat.div_lt_of_lt_mul (Nat.mul_comm size _ ▸ hlt)
  have hend : size * (n % (groupCount size * size) / size) + size ≤ groupCount size * size := by
    calc size * (n % (groupCount size * size) / size) + size =
          (n % (groupCount size * size) / size + 1) * size := by ring
      _ ≤ groupCount size * size := Nat.mul_le_mul_right size hgroup
  omega

/-- Counting on: adding at most a group never exceeds 32 bits, and wraps with the wheel. -/
theorem seqAt_add (hpos : 0 < size) (hsize : size ≤ 256) {paws : UInt32}
    (hpaws : paws.toNat = groupCount size * size) (n : ℕ) (step : UInt32)
    (hstep : n % size + step.toNat ≤ size) :
    (seqAt size n + step) % paws = seqAt size (n + step.toNat) := by
  have hwheel := wheel_bounds hpos
  have hroom := seqAt_room hpos hsize hstep
  have hfit : (n % (groupCount size * size) + step.toNat) % 2 ^ 32 =
      n % (groupCount size * size) + step.toNat := Nat.mod_eq_of_lt (by omega)
  rw [← UInt32.toNat_inj, UInt32.toNat_mod, UInt32.toNat_add, hpaws, toNat_seqAt hpos hsize,
    toNat_seqAt hpos hsize, hfit, Nat.mod_add_mod]

/-! ### The order of groups -/

/-- The signed difference of two 32-bit numbers is the true one, reduced. -/
theorem toInt_timediff (a b : UInt32) :
    (timediff a b).toInt = Int.bmod ((a.toNat : ℤ) - b.toNat) (2 ^ 32) := by
  show (a - b).toBitVec.toInt = _
  rw [UInt32.toBitVec_sub, BitVec.toInt_sub, BitVec.toInt_eq_toNat_bmod,
    BitVec.toInt_eq_toNat_bmod, Int.bmod_sub_bmod, Int.sub_bmod_bmod]
  rfl

/-- The signed difference of two 32-bit numbers is the true one wherever it fits. -/
theorem timediff_eq {a b : UInt32} {d : ℤ} (hd : ((a.toNat : ℤ) - b.toNat) % 2 ^ 32 = d % 2 ^ 32)
    (hlow : -2 ^ 31 ≤ d) (hhigh : d < 2 ^ 31) : (timediff a b).toInt = d := by
  rw [toInt_timediff, ← Int.emod_bmod]
  have hd' : ((a.toNat : ℤ) - b.toNat) % ((2 ^ 32 : ℕ) : ℤ) = d % ((2 ^ 32 : ℕ) : ℤ) := hd
  rw [hd', Int.emod_bmod]
  exact Int.bmod_eq_of_le (by norm_num; omega) (by norm_num; omega)

/-- The first number of a wrapped group, counted without wrap and modulo `2 ^ 32`: every wrap
skips the numbers between the end of the wheel and `2 ^ 32`. -/
theorem groupId_mul (hpos : 0 < size) (hsize : size ≤ 256) (g : ℕ) :
    ((groupId size g * UInt32.ofNat size).toNat : ℤ) =
      g * size - g / groupCount size * (groupCount size * size) := by
  have hlt : g % groupCount size * size < 2 ^ 32 :=
    calc g % groupCount size * size ≤ groupCount size * size :=
          Nat.mul_le_mul_right size (Nat.mod_lt g (groupCount_pos hpos hsize)).le
      _ < 2 ^ 32 := (wheel_bounds hpos).1
  rw [UInt32.toNat_mul, toNat_groupId hpos hsize, toNat_ofNat_size hsize, Nat.mod_eq_of_lt hlt]
  have hsplit := Nat.div_add_mod g (groupCount size)
  have hcast : (g : ℤ) =
      groupCount size * (g / groupCount size : ℕ) + (g % groupCount size : ℕ) := by
    exact_mod_cast hsplit.symm
  push_cast at hcast ⊢
  linear_combination (-(size : ℤ)) * hcast

/-- **The decoder's order of groups**, for groups that are not too far apart: the true
difference in numbers, plus at most one group size if the wrap lies between them. -/
theorem timediff_groups (hpos : 0 < size) (hsize : size ≤ 256) {g h : ℕ} (hle : h ≤ g)
    (hnear : g ≤ h + 2 * reach size) :
    ∃ skipped : ℕ, skipped ≤ size ∧ (g = h → skipped = 0) ∧
      (timediff (groupId size g * UInt32.ofNat size)
        (groupId size h * UInt32.ofNat size)).toInt = (g - h) * size + skipped ∧
      (timediff (groupId size h * UInt32.ofNat size)
        (groupId size g * UInt32.ofNat size)).toInt = -((g - h) * size + skipped) := by
  have hlarge := groupCount_large hpos hsize
  have hwheel := wheel_bounds hpos
  have hcount := groupCount_pos hpos hsize
  have hreach : reach size * size ≤ 2 ^ 28 := Nat.div_mul_le_self _ _
  -- At most one wrap lies between the groups.
  obtain ⟨wraps, hwraps, hle1⟩ :
      ∃ wraps : ℕ, g / groupCount size = h / groupCount size + wraps ∧ wraps ≤ 1 := by
    have hmono : h / groupCount size ≤ g / groupCount size := Nat.div_le_div_right hle
    have hnext : g / groupCount size ≤ (h + groupCount size) / groupCount size :=
      Nat.div_le_div_right (by omega)
    rw [Nat.add_div_right h hcount] at hnext
    exact ⟨g / groupCount size - h / groupCount size, by omega, by omega⟩
  have hdistance : (g - h) * size ≤ 2 ^ 29 :=
    calc (g - h) * size ≤ 2 * reach size * size := Nat.mul_le_mul_right size (by omega)
      _ = 2 * (reach size * size) := Nat.mul_assoc ..
      _ ≤ 2 ^ 29 := by omega
  have hdistance' : ((g : ℤ) - h) * size ≤ 2 ^ 29 := by
    have hcast : (((g - h) * size : ℕ) : ℤ) = ((g : ℤ) - h) * size := by
      rw [Nat.cast_mul, Nat.cast_sub hle]
    rw [← hcast]
    exact_mod_cast hdistance
  have hnonneg : 0 ≤ ((g : ℤ) - h) * size :=
    mul_nonneg (sub_nonneg.mpr (by exact_mod_cast hle)) (Int.natCast_nonneg size)
  have hskip : wraps * (2 ^ 32 - groupCount size * size) ≤ size :=
    calc wraps * (2 ^ 32 - groupCount size * size) ≤ 1 * (2 ^ 32 - groupCount size * size) :=
          Nat.mul_le_mul_right _ hle1
      _ ≤ size := by omega
  have hcastSkip : ((wraps * (2 ^ 32 - groupCount size * size) : ℕ) : ℤ) =
      wraps * (2 ^ 32 - groupCount size * size) := by
    rw [Nat.cast_mul, Nat.cast_sub hwheel.1.le]
    push_cast
    ring
  have hmul := groupId_mul hpos hsize g
  have hmul' := groupId_mul hpos hsize h
  have hwraps' : ((g / groupCount size : ℕ) : ℤ) = (h / groupCount size : ℕ) + wraps := by
    exact_mod_cast hwraps
  push_cast at hwraps'
  refine ⟨wraps * (2 ^ 32 - groupCount size * size), hskip, fun heq => ?_, ?_, ?_⟩
  · subst heq
    have hzero : wraps = 0 := by omega
    rw [hzero, Nat.zero_mul]
  · refine timediff_eq ?_ (by omega) (by omega)
    rw [hmul, hmul', hcastSkip, hwraps']
    exact Int.modEq_iff_dvd.mpr ⟨wraps, by ring⟩
  · refine timediff_eq ?_ (by omega) (by omega)
    rw [hmul, hmul', hcastSkip, hwraps']
    exact Int.modEq_iff_dvd.mpr ⟨-wraps, by ring⟩

/-- The decoder takes a group for newer exactly if it is. -/
theorem timediff_pos_iff (hpos : 0 < size) (hsize : size ≤ 256) {g h : ℕ}
    (hup : g ≤ h + 2 * reach size) (hdown : h ≤ g + 2 * reach size) :
    timediff (groupId size g * UInt32.ofNat size) (groupId size h * UInt32.ofNat size) > 0 ↔
      h < g := by
  have hzero : (0 : Int32).toInt = 0 := rfl
  rw [gt_iff_lt, Int32.lt_iff_toInt_lt, hzero]
  rcases le_or_gt g h with hle | hlt
  · obtain ⟨skipped, -, -, -, hdiff⟩ := timediff_groups hpos hsize hle hdown
    have hnonneg : 0 ≤ ((h : ℤ) - g) * size :=
      mul_nonneg (sub_nonneg.mpr (by exact_mod_cast hle)) (Int.natCast_nonneg size)
    rw [hdiff]
    omega
  · obtain ⟨skipped, -, -, hdiff, -⟩ := timediff_groups hpos hsize hlt.le hup
    have hpositive : 0 < ((g : ℤ) - h) * size :=
      mul_pos (sub_pos.mpr (by exact_mod_cast hlt)) (by exact_mod_cast hpos)
    rw [hdiff]
    omega

/-- The limit of the discarding loop. -/
theorem toInt_maxAge (hsize : size ≤ 256) :
    (maxShardSets * UInt32.ofNat size).toInt32.toInt = 3 * size := by
  have hmul : (maxShardSets * UInt32.ofNat size).toNat = 3 * size := by
    rw [UInt32.toNat_mul, toNat_ofNat_size hsize]
    exact Nat.mod_eq_of_lt (show 3 * size < 2 ^ 32 by omega)
  show (maxShardSets * UInt32.ofNat size).toBitVec.toInt = _
  rw [BitVec.toInt_eq_toNat_of_lt, show (maxShardSets * UInt32.ofNat size).toBitVec.toNat =
    3 * size from hmul]
  · push_cast
    rfl
  · rw [show (maxShardSets * UInt32.ofNat size).toBitVec.toNat = 3 * size from hmul]
    omega

/-- **Which sets are discarded**: none that is at most two groups old, and every one that is
more than three groups old. At three groups it depends on whether the wrap lies between. -/
theorem discarded_bounds (hpos : 0 < size) (hsize : size ≤ 256) {g h : ℕ} (hle : h ≤ g)
    (hnear : g ≤ h + 2 * reach size) :
    (timediff (groupId size g * UInt32.ofNat size) (groupId size h * UInt32.ofNat size) >
      (maxShardSets * UInt32.ofNat size).toInt32 → 2 < g - h) ∧
    (3 < g - h → timediff (groupId size g * UInt32.ofNat size)
      (groupId size h * UInt32.ofNat size) > (maxShardSets * UInt32.ofNat size).toInt32) := by
  obtain ⟨skipped, hskipped, -, hdiff, -⟩ := timediff_groups hpos hsize hle hnear
  obtain ⟨age, rfl⟩ := Nat.exists_eq_add_of_le hle
  rw [gt_iff_lt, Int32.lt_iff_toInt_lt, toInt_maxAge hsize, hdiff, Nat.add_sub_cancel_left]
  push_cast
  rw [add_sub_cancel_left]
  refine ⟨fun hold => ?_, fun hold => ?_⟩
  · by_contra hyoung
    have hmul : (age : ℤ) * size ≤ 2 * size :=
      mul_le_mul_of_nonneg_right (by omega) (Int.natCast_nonneg size)
    omega
  · have hmul : (4 : ℤ) * size ≤ age * size :=
      mul_le_mul_of_nonneg_right (by omega) (Int.natCast_nonneg size)
    omega

/-- **Near groups have different wrapped numbers.** -/
theorem groupId_injective (hpos : 0 < size) (hsize : size ≤ 256) {g h : ℕ}
    (hup : g ≤ h + 2 * reach size) (hdown : h ≤ g + 2 * reach size)
    (heq : groupId size g = groupId size h) : g = h := by
  have hlarge := groupCount_large hpos hsize
  have hmod : g % groupCount size = h % groupCount size := by
    rw [← toNat_groupId hpos hsize, heq, toNat_groupId hpos hsize]
  exact Nat.ModEq.eq_of_abs_lt hmod (by rw [abs_lt]; omega)

end Wheel

end Shimakaze
