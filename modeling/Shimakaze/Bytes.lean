import Mathlib.Data.List.Basic
import Mathlib.Tactic.Common
import Mathlib.Data.Nat.Bitwise

/-!
# Byte Strings and Little-Endian Fields

Every buffer of the program is a `std::vector<char>` or a span over one; the model's
buffers are lists of bytes. The fixed-width fields of the wire formats are little-endian,
and each source file carries its own copy of the same four helpers (`smux.cpp`, `fec.cpp`,
`snappy_stream.cpp`); they are modelled once here.

A reader takes the bytes from its position on (`header + 2` is `header.drop 2`), and the
callers only read after a length check, so the value of a read past the end is never used.

## Main results

* `readLe16_writeLe16`, `readLe32_writeLe32`, `readLen24_writeLen24`: what a writer put
  down is what the reader at the same position gets back, whatever follows.
-/

namespace Shimakaze

/-- A byte string: the contents of a `std::vector<char>` or of a span. -/
abbrev Bytes := List UInt8

/-- `write_le16`: the two bytes of a 16-bit value, least significant first. -/
def writeLe16 (value : UInt16) : Bytes :=
  [value.toUInt8, (value >>> 8).toUInt8]

/-- `write_le32`: the four bytes of a 32-bit value, least significant first. -/
def writeLe32 (value : UInt32) : Bytes :=
  [value.toUInt8, (value >>> 8).toUInt8, (value >>> 16).toUInt8, (value >>> 24).toUInt8]

/-- `read_le16`: the 16-bit value in the first two bytes. -/
def readLe16 : Bytes → UInt16
  | b₀ :: b₁ :: _ => b₀.toUInt16 ||| (b₁.toUInt16 <<< 8)
  | _ => 0

/-- `read_le32`: the 32-bit value in the first four bytes. -/
def readLe32 : Bytes → UInt32
  | b₀ :: b₁ :: b₂ :: b₃ :: _ =>
      b₀.toUInt32 ||| (b₁.toUInt32 <<< 8) ||| (b₂.toUInt32 <<< 16) ||| (b₃.toUInt32 <<< 24)
  | _ => 0

/-- `write_len24`: the three bytes of a length, least significant first. -/
def writeLen24 (length : ℕ) : Bytes :=
  [UInt8.ofNat (length % 256), UInt8.ofNat (length / 256 % 256),
    UInt8.ofNat (length / 65536 % 256)]

/-- `read_len24`: the length in the first three bytes. -/
def readLen24 : Bytes → ℕ
  | b₀ :: b₁ :: b₂ :: _ => b₀.toNat + b₁.toNat * 256 + b₂.toNat * 65536
  | _ => 0

@[simp] theorem length_writeLe16 (value : UInt16) : (writeLe16 value).length = 2 := rfl

@[simp] theorem length_writeLe32 (value : UInt32) : (writeLe32 value).length = 4 := rfl

@[simp] theorem length_writeLen24 (length : ℕ) : (writeLen24 length).length = 3 := rfl

/-! ### The value of a field

The readers combine shifted bytes with bitwise or. The bytes occupy disjoint bits, so the
value is the base-256 sum of the bytes, and the round trips are arithmetic. -/

/-- Or-ing a byte above a value that ends below it adds the shifted byte. -/
private theorem or_shifted_byte {a w k : ℕ} (b : UInt8) (ha : a < 2 ^ k)
    (hw : k + 8 ≤ w) : a ||| b.toNat <<< k % 2 ^ w = a + b.toNat * 2 ^ k := by
  have hb : b.toNat <<< k < 2 ^ w := by
    rw [Nat.shiftLeft_eq]
    calc b.toNat * 2 ^ k < 2 ^ 8 * 2 ^ k :=
          Nat.mul_lt_mul_of_pos_right b.toNat_lt (Nat.two_pow_pos k)
      _ = 2 ^ (k + 8) := by rw [Nat.mul_comm, ← Nat.pow_add]
      _ ≤ 2 ^ w := Nat.pow_le_pow_right (by decide) hw
  rw [Nat.mod_eq_of_lt hb, Nat.shiftLeft_eq, Nat.mul_comm b.toNat, Nat.or_comm,
    ← Nat.two_pow_add_eq_or_of_lt ha, Nat.add_comm]

/-- The value of a 16-bit field is the base-256 value of its two bytes. -/
theorem toNat_readLe16 (b₀ b₁ : UInt8) (rest : Bytes) :
    (readLe16 (b₀ :: b₁ :: rest)).toNat = b₀.toNat + b₁.toNat * 2 ^ 8 := by
  have h := or_shifted_byte (w := 16) (k := 8) b₁ b₀.toNat_lt (by decide)
  simpa [readLe16] using h

/-- The value of a 32-bit field is the base-256 value of its four bytes. -/
theorem toNat_readLe32 (b₀ b₁ b₂ b₃ : UInt8) (rest : Bytes) :
    (readLe32 (b₀ :: b₁ :: b₂ :: b₃ :: rest)).toNat =
      b₀.toNat + b₁.toNat * 2 ^ 8 + b₂.toNat * 2 ^ 16 + b₃.toNat * 2 ^ 24 := by
  have h₀ := b₀.toNat_lt
  have h₁ := b₁.toNat_lt
  have h₂ := b₂.toNat_lt
  have e₁ := or_shifted_byte (w := 32) (k := 8) b₁ b₀.toNat_lt (by decide)
  have e₂ := or_shifted_byte (w := 32) (k := 16) (a := b₀.toNat + b₁.toNat * 2 ^ 8) b₂
    (by omega) (by decide)
  have e₃ := or_shifted_byte (w := 32) (k := 24)
    (a := b₀.toNat + b₁.toNat * 2 ^ 8 + b₂.toNat * 2 ^ 16) b₃ (by omega) (by decide)
  rw [← e₃, ← e₂, ← e₁]
  simp [readLe32]

/-! ### Reading back what was written -/

/-- A 16-bit field reads back as it was written. -/
@[simp] theorem readLe16_writeLe16 (value : UInt16) (rest : Bytes) :
    readLe16 (writeLe16 value ++ rest) = value := by
  have h := value.toNat_lt
  refine UInt16.toNat_inj.mp ?_
  rw [writeLe16, List.cons_append, List.cons_append, toNat_readLe16]
  simp only [UInt16.toNat_toUInt8, UInt16.toNat_shiftRight, Nat.shiftRight_eq_div_pow,
    UInt16.reduceToNat, Nat.reduceMod, Nat.reducePow]
  omega

/-- A 32-bit field reads back as it was written. -/
@[simp] theorem readLe32_writeLe32 (value : UInt32) (rest : Bytes) :
    readLe32 (writeLe32 value ++ rest) = value := by
  have h := value.toNat_lt
  refine UInt32.toNat_inj.mp ?_
  rw [writeLe32, List.cons_append, List.cons_append, List.cons_append, List.cons_append,
    toNat_readLe32]
  simp only [UInt32.toNat_toUInt8, UInt32.toNat_shiftRight, Nat.shiftRight_eq_div_pow,
    UInt32.reduceToNat, Nat.reduceMod, Nat.reducePow]
  omega

/-- Writing down what was read gives the bytes back. -/
theorem writeLe32_readLe32 {bytes : Bytes} (h : 4 ≤ bytes.length) :
    writeLe32 (readLe32 bytes) = bytes.take 4 := by
  match bytes, h with
  | b₀ :: b₁ :: b₂ :: b₃ :: rest, _ =>
      have hvalue := toNat_readLe32 b₀ b₁ b₂ b₃ rest
      have h₀ := b₀.toNat_lt
      have h₁ := b₁.toNat_lt
      have h₂ := b₂.toNat_lt
      have h₃ := b₃.toNat_lt
      simp only [writeLe32, List.take_succ_cons, List.take_zero, List.cons.injEq, and_true,
        ← UInt8.toNat_inj, UInt32.toNat_toUInt8, UInt32.toNat_shiftRight, UInt32.reduceToNat,
        Nat.reduceMod, Nat.shiftRight_eq_div_pow, hvalue]
      omega

/-- A 24-bit length reads back as it was written, as long as it fits. -/
theorem readLen24_writeLen24 {length : ℕ} (h : length < 2 ^ 24) (rest : Bytes) :
    readLen24 (writeLen24 length ++ rest) = length := by
  simp only [readLen24, writeLen24, List.cons_append, List.nil_append, UInt8.toNat_ofNat']
  omega

/-- A reader only looks at its own field: bytes that come later do not change it. -/
theorem readLe16_append {b : Bytes} (h : 2 ≤ b.length) (rest : Bytes) :
    readLe16 (b ++ rest) = readLe16 b := by
  match b, h with
  | _ :: _ :: _, _ => rfl

/-- A reader only looks at its own field: bytes that come later do not change it. -/
theorem readLe32_append {b : Bytes} (h : 4 ≤ b.length) (rest : Bytes) :
    readLe32 (b ++ rest) = readLe32 b := by
  match b, h with
  | _ :: _ :: _ :: _ :: _, _ => rfl

/-- A reader only looks at its own field: bytes that come later do not change it. -/
theorem readLen24_append {b : Bytes} (h : 3 ≤ b.length) (rest : Bytes) :
    readLen24 (b ++ rest) = readLen24 b := by
  match b, h with
  | _ :: _ :: _ :: _, _ => rfl

end Shimakaze
