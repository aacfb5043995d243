import Mathlib.Algebra.CharP.Lemmas
import Mathlib.Algebra.CharP.Two
import Mathlib.Algebra.Field.Basic
import Mathlib.Tactic.Ring

/-!
# Arithmetic in GF(256)

The erasure code of `fec.cpp` computes with bytes as elements of a field of 256 elements:
addition is bitwise exclusive or, multiplication is the shift-and-add loop `gf_mul` with the
reduction constant `0x1d`, and the inverse is the power 254.

The field laws are not checked case by case. Multiplying by a fixed byte is an additive map
that commutes with doubling, and such a map is determined by its value at `1`
(`gfMul_of_additive`): commutativity, associativity and the equation `a ^ 256 = a` are three
uses of that one fact. What is left to evaluate is a handful of products and the squares of
the 256 bytes.

## Main results

* `gfMul_comm`, `gfMul_assoc`, `gfMul_xor`: the laws of the product.
* `Gf256`: the bytes with these operations, a field.
* `gfInv_eq`: the code's inverse is the inverse of that field.
-/

namespace Shimakaze

/-! ### The code -/

/-- What one round of `gf_mul` does to `a`: shift it left and, if the top bit fell out,
reduce by `0x1d`. -/
def gfDouble (a : UInt8) : UInt8 :=
  if a &&& 0x80 ≠ 0 then (a <<< 1) ^^^ 0x1d else a <<< 1

/-- The loop of `gf_mul`: add `a` in for the low bit of `b`, double `a`, halve `b`. The
count bounds the rounds; `b` is zero after eight. -/
def gfMulLoop : ℕ → UInt8 → UInt8 → UInt8 → UInt8
  | 0, _, _, result => result
  | rounds + 1, a, b, result =>
      if b = 0 then result
      else gfMulLoop rounds (gfDouble a) (b >>> 1) (if b &&& 1 ≠ 0 then result ^^^ a else result)

/-- `gf_mul`: the product of two bytes. -/
def gfMul (a b : UInt8) : UInt8 := gfMulLoop 8 a b 0

/-- `gf_pow`: the power of a byte, by repeated multiplication. -/
def gfPow (value : UInt8) : ℕ → UInt8
  | 0 => 1
  | power + 1 => gfMul (gfPow value power) value

/-- `gf_inv`: the inverse of a byte, the power 254. -/
def gfInv (value : UInt8) : Except String UInt8 :=
  if value = 0 then .error "cannot invert zero in GF(256)" else .ok (gfPow value 254)

/-! ### The loop is additive in its first factor -/

/-- The top bit of a byte. -/
theorem and_top_ne_zero (a : UInt8) : a &&& 0x80 ≠ 0 ↔ a.toBitVec.msb = true := by
  have hbits : ∀ v : BitVec 8, ¬ v &&& 128#8 = 0#8 ↔ v.msb = true := by decide
  rw [ne_eq, ← UInt8.toBitVec_inj]
  exact hbits a.toBitVec

/-- Doubling is additive. -/
theorem gfDouble_xor (a b : UInt8) : gfDouble (a ^^^ b) = gfDouble a ^^^ gfDouble b := by
  have hshift : (a ^^^ b) <<< 1 = a <<< 1 ^^^ b <<< 1 := by
    rw [← UInt8.toBitVec_inj]
    simp [BitVec.shiftLeft_xor_distrib]
  simp only [gfDouble, and_top_ne_zero, hshift, UInt8.toBitVec_xor, BitVec.msb_xor]
  cases a.toBitVec.msb <;> cases b.toBitVec.msb
  · simp
  · simp [UInt8.xor_assoc]
  · simp [UInt8.xor_assoc, UInt8.xor_comm (0x1d : UInt8)]
  · have hcancel : ∀ x y c : UInt8, x ^^^ c ^^^ (y ^^^ c) = x ^^^ y := fun x y c => by
      rw [UInt8.xor_assoc, UInt8.xor_comm y c, ← UInt8.xor_assoc c c y, UInt8.xor_self,
        UInt8.zero_xor]
    simp [hcancel]

/-- The loop adds the product to what it has so far. -/
theorem gfMulLoop_result (rounds : ℕ) (a b r : UInt8) :
    gfMulLoop rounds a b r = r ^^^ gfMulLoop rounds a b 0 := by
  induction rounds generalizing a b r with
  | zero => simp [gfMulLoop]
  | succ n ih =>
      simp only [gfMulLoop]
      by_cases hb : b = 0
      · simp [hb]
      · by_cases hlow : b &&& 1 ≠ 0
        · simp only [if_neg hb, if_pos hlow, UInt8.zero_xor]
          rw [ih _ _ (r ^^^ a), ih _ _ a, UInt8.xor_assoc]
        · simp only [if_neg hb, if_neg hlow]
          exact ih _ _ r

/-- One round of the loop: the low bit of `b` chooses whether `a` is added. The early exit
on `b = 0` makes no difference. -/
theorem gfMulLoop_succ (rounds : ℕ) (a b : UInt8) :
    gfMulLoop (rounds + 1) a b 0 =
      (if b &&& 1 ≠ 0 then a else 0) ^^^ gfMulLoop rounds (gfDouble a) (b >>> 1) 0 := by
  have hzero : ∀ n x, gfMulLoop n x 0 0 = 0 := fun n x => by cases n <;> simp [gfMulLoop]
  rw [gfMulLoop]
  by_cases hb : b = 0
  · subst hb
    simp [hzero]
  · rw [if_neg hb, UInt8.zero_xor, gfMulLoop_result]

/-- The loop is additive in `a`. -/
theorem gfMulLoop_xor (rounds : ℕ) (a a' b : UInt8) :
    gfMulLoop rounds (a ^^^ a') b 0 = gfMulLoop rounds a b 0 ^^^ gfMulLoop rounds a' b 0 := by
  induction rounds generalizing a a' b with
  | zero => simp [gfMulLoop]
  | succ n ih =>
      have hswap : ∀ w x y z : UInt8, w ^^^ x ^^^ (y ^^^ z) = w ^^^ y ^^^ (x ^^^ z) :=
        fun w x y z => by
          rw [UInt8.xor_assoc, ← UInt8.xor_assoc x y z, UInt8.xor_comm x y, UInt8.xor_assoc,
            ← UInt8.xor_assoc w y (x ^^^ z)]
      rw [gfMulLoop_succ, gfMulLoop_succ, gfMulLoop_succ, gfDouble_xor, ih]
      by_cases hlow : b &&& 1 ≠ 0
      · simp only [if_pos hlow]
        exact hswap a a' _ _
      · simp [if_neg hlow]

/-- Doubling goes through the loop. -/
theorem gfMulLoop_double (rounds : ℕ) (a b : UInt8) :
    gfMulLoop rounds (gfDouble a) b 0 = gfDouble (gfMulLoop rounds a b 0) := by
  have hzero : gfDouble 0 = 0 := by decide
  induction rounds generalizing a b with
  | zero => simp [gfMulLoop, hzero]
  | succ n ih =>
      rw [gfMulLoop_succ, gfMulLoop_succ, gfDouble_xor, ih]
      by_cases hlow : b &&& 1 ≠ 0
      · simp [if_pos hlow]
      · simp [if_neg hlow, hzero]

/-! ### The laws of the product -/

/-- The product is additive in its first factor. -/
theorem gfMul_xor (a a' b : UInt8) : gfMul (a ^^^ a') b = gfMul a b ^^^ gfMul a' b :=
  gfMulLoop_xor 8 a a' b

@[simp] theorem one_gfMul (b : UInt8) : gfMul 1 b = b := by
  have hbits : ∀ v : BitVec 8, gfMul 1 (UInt8.ofBitVec v) = UInt8.ofBitVec v := by
    decide +kernel
  simpa using hbits b.toBitVec

@[simp] theorem zero_gfMul (b : UInt8) : gfMul 0 b = 0 := by
  have h := gfMul_xor 0 0 b
  rwa [UInt8.xor_self, UInt8.xor_self] at h

/-- A map that is additive and commutes with doubling carries the loop over. -/
theorem gfMulLoop_of_additive {f : UInt8 → UInt8} (hadd : ∀ a b, f (a ^^^ b) = f a ^^^ f b)
    (hdouble : ∀ a, f (gfDouble a) = gfDouble (f a)) (rounds : ℕ) (a b : UInt8) :
    f (gfMulLoop rounds a b 0) = gfMulLoop rounds (f a) b 0 := by
  have hzero : f 0 = 0 := by
    have h := hadd 0 0
    rwa [UInt8.xor_self, UInt8.xor_self] at h
  induction rounds generalizing a b with
  | zero => simpa [gfMulLoop] using hzero
  | succ n ih =>
      rw [gfMulLoop_succ, gfMulLoop_succ, hadd, ih, hdouble]
      by_cases hlow : b &&& 1 ≠ 0
      · simp [if_pos hlow]
      · simp [if_neg hlow, hzero]

/-- **A map that is additive and commutes with doubling** is multiplication by its value
at `1`. -/
theorem gfMul_of_additive {f : UInt8 → UInt8} (hadd : ∀ a b, f (a ^^^ b) = f a ^^^ f b)
    (hdouble : ∀ a, f (gfDouble a) = gfDouble (f a)) (b : UInt8) :
    f b = gfMul (f 1) b := by
  have h := gfMulLoop_of_additive hadd hdouble 8 1 b
  rwa [show gfMulLoop 8 1 b 0 = b from one_gfMul b] at h

/-- Two factors on the right change places. -/
theorem gfMul_right_comm (x a b : UInt8) : gfMul (gfMul x a) b = gfMul (gfMul x b) a :=
  gfMulLoop_of_additive (f := fun y => gfMul y b) (fun a a' => gfMul_xor a a' b)
    (fun a => gfMulLoop_double 8 a b) 8 x a

theorem gfMul_comm (a b : UInt8) : gfMul a b = gfMul b a := by
  have h := gfMul_right_comm 1 a b
  rwa [one_gfMul, one_gfMul] at h

theorem gfMul_assoc (a b c : UInt8) : gfMul (gfMul a b) c = gfMul a (gfMul b c) := by
  rw [gfMul_comm a (gfMul b c), gfMul_comm a b, gfMul_right_comm]

/-- Doubling is multiplication by two. -/
theorem gfDouble_eq (a : UInt8) : gfDouble a = gfMul 2 a :=
  gfMul_of_additive gfDouble_xor (fun _ => rfl) a

/-! ### The field -/

/-- A byte as an element of the field of 256 elements. -/
@[ext] structure Gf256 where
  byte : UInt8
  deriving DecidableEq

namespace Gf256

instance : Zero Gf256 := ⟨⟨0⟩⟩
instance : One Gf256 := ⟨⟨1⟩⟩
instance : Add Gf256 := ⟨fun a b => ⟨a.byte ^^^ b.byte⟩⟩
instance : Neg Gf256 := ⟨fun a => a⟩
instance : Mul Gf256 := ⟨fun a b => ⟨gfMul a.byte b.byte⟩⟩

@[simp] theorem mk_zero : (⟨0⟩ : Gf256) = 0 := rfl
@[simp] theorem mk_one : (⟨1⟩ : Gf256) = 1 := rfl
@[simp] theorem mk_xor (a b : UInt8) : (⟨a ^^^ b⟩ : Gf256) = ⟨a⟩ + ⟨b⟩ := rfl
@[simp] theorem mk_gfMul (a b : UInt8) : (⟨gfMul a b⟩ : Gf256) = ⟨a⟩ * ⟨b⟩ := rfl

@[simp] theorem byte_zero : (0 : Gf256).byte = 0 := rfl
@[simp] theorem byte_one : (1 : Gf256).byte = 1 := rfl
@[simp] theorem byte_add (a b : Gf256) : (a + b).byte = a.byte ^^^ b.byte := rfl
@[simp] theorem byte_mul (a b : Gf256) : (a * b).byte = gfMul a.byte b.byte := rfl

/-- The bytes under exclusive or and `gf_mul` are a commutative ring. -/
instance : CommRing Gf256 where
  add_assoc a b c := Gf256.ext (UInt8.xor_assoc a.byte b.byte c.byte)
  add_comm a b := Gf256.ext (UInt8.xor_comm a.byte b.byte)
  zero_add a := Gf256.ext UInt8.zero_xor
  add_zero a := Gf256.ext UInt8.xor_zero
  neg_add_cancel a := Gf256.ext UInt8.xor_self
  mul_assoc a b c := Gf256.ext (gfMul_assoc a.byte b.byte c.byte)
  mul_comm a b := Gf256.ext (gfMul_comm a.byte b.byte)
  one_mul a := Gf256.ext (one_gfMul a.byte)
  mul_one a := Gf256.ext ((gfMul_comm a.byte 1).trans (one_gfMul a.byte))
  zero_mul a := Gf256.ext (zero_gfMul a.byte)
  mul_zero a := Gf256.ext ((gfMul_comm a.byte 0).trans (zero_gfMul a.byte))
  right_distrib a b c := Gf256.ext (gfMul_xor a.byte b.byte c.byte)
  left_distrib a b c := Gf256.ext (by
    show gfMul a.byte (b.byte ^^^ c.byte) = gfMul a.byte b.byte ^^^ gfMul a.byte c.byte
    rw [gfMul_comm, gfMul_xor, gfMul_comm b.byte, gfMul_comm c.byte])
  nsmul := nsmulRec
  zsmul := zsmulRec

instance : Nontrivial Gf256 := ⟨0, 1, by decide⟩

/-- Every element is its own negative. -/
@[simp] theorem add_self (a : Gf256) : a + a = 0 := Gf256.ext UInt8.xor_self

instance : CharP Gf256 2 :=
  CharTwo.of_one_ne_zero_of_two_eq_zero (by decide)
    ((one_add_one_eq_two (R := Gf256)).symm.trans (add_self 1))

/-- `gf_pow` is the power in the ring. -/
theorem mk_gfPow (value : UInt8) (power : ℕ) : (⟨gfPow value power⟩ : Gf256) = ⟨value⟩ ^ power := by
  induction power with
  | zero => rfl
  | succ n ih => rw [gfPow, mk_gfMul, ih, pow_succ]

/-- **Every element is its own power 256.** Raising to the power 256 is additive, and it
commutes with doubling because it fixes two. -/
theorem pow_256 (a : Gf256) : a ^ 256 = a := by
  have hadd : ∀ x y : Gf256, (x + y) ^ 256 = x ^ 256 + y ^ 256 := fun x y =>
    add_pow_char_pow x y 2 8
  have htwo : (⟨2⟩ : Gf256) ^ 256 = ⟨2⟩ := by
    have hsquares : ((((((((⟨2⟩ : Gf256) ^ 2) ^ 2) ^ 2) ^ 2) ^ 2) ^ 2) ^ 2) ^ 2 = ⟨2⟩ := by
      simp only [sq]
      decide +kernel
    simpa only [← pow_mul] using hsquares
  have hdouble : ∀ x : UInt8, (⟨gfDouble x⟩ : Gf256) ^ 256 = ⟨2⟩ * (⟨x⟩ : Gf256) ^ 256 :=
    fun x => by rw [gfDouble_eq, mk_gfMul, mul_pow, htwo]
  have h := gfMul_of_additive (f := fun x => ((⟨x⟩ : Gf256) ^ 256).byte)
    (fun x y => congrArg Gf256.byte (hadd ⟨x⟩ ⟨y⟩))
    (fun x => (congrArg Gf256.byte (hdouble x)).trans (gfDouble_eq _).symm) a.byte
  refine Gf256.ext (h.trans ?_)
  have hone : ((⟨1⟩ : Gf256) ^ 256).byte = 1 := by rw [mk_one, one_pow]; rfl
  simp only [hone, one_gfMul]

/-- Only zero and one are their own squares. -/
theorem eq_zero_or_one_of_idempotent {e : Gf256} (h : e * e = e) : e = 0 ∨ e = 1 := by
  have hbits : ∀ v : BitVec 8, gfMul (UInt8.ofBitVec v) (UInt8.ofBitVec v) = UInt8.ofBitVec v →
      UInt8.ofBitVec v = 0 ∨ UInt8.ofBitVec v = 1 := by
    decide +kernel
  have hbyte := hbits e.byte.toBitVec (by simpa using congrArg Gf256.byte h)
  exact hbyte.imp (fun h => Gf256.ext (by simpa using h)) fun h => Gf256.ext (by simpa using h)

/-- The power 254 of a nonzero element is its inverse: the power 255 is its own square and
not zero. -/
theorem mul_pow_254 {a : Gf256} (h : a ≠ 0) : a * a ^ 254 = 1 := by
  have hidem : a * a ^ 254 * (a * a ^ 254) = a * a ^ 254 :=
    calc a * a ^ 254 * (a * a ^ 254) = a ^ 256 * a ^ 254 := by ring
      _ = a * a ^ 254 := by rw [pow_256]
  refine (eq_zero_or_one_of_idempotent hidem).resolve_left fun hzero => h ?_
  calc a = a ^ 256 := (pow_256 a).symm
    _ = a * a ^ 254 * a := by ring
    _ = 0 := by rw [hzero, zero_mul]

/-- **The bytes under exclusive or and `gf_mul` are a field.** -/
instance : Field Gf256 where
  inv a := a ^ 254
  mul_inv_cancel a h := mul_pow_254 h
  inv_zero := zero_pow (by decide)
  nnqsmul := _
  nnqsmul_def := fun _ _ => rfl
  qsmul := _
  qsmul_def := fun _ _ => rfl

end Gf256

/-- **The code's inverse** is the inverse of the field, and it fails on zero only. -/
theorem gfInv_eq (value : UInt8) (h : value ≠ 0) :
    gfInv value = .ok ((⟨value⟩ : Gf256)⁻¹).byte := by
  rw [gfInv, if_neg h]
  exact congrArg Except.ok (congrArg Gf256.byte (Gf256.mk_gfPow value 254))

end Shimakaze
