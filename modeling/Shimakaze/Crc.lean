import Shimakaze.Bytes
import Shimakaze.Lib.ShiftRegister

/-!
# Table-Driven Checksums

`crypto.cpp` and `snappy_stream.cpp` each fill a table for a reflected CRC and run over the
bytes with it; the two differ in the polynomial only. The checksum is defined bit by bit, as a
run of a shift register, and the table is the register's steps for each value of a byte.

## Main results

* `crcUpdate_eq_run`: one step with the table takes the eight bits of a byte.
* `crc32_eq_bitwise`: the loops of the code compute the checksums bit by bit.
-/

namespace Shimakaze

/-- One of the eight shift steps that fill a table entry. -/
def crcShift (polynomial crc : UInt32) : UInt32 :=
  if crc &&& 1 ≠ 0 then polynomial ^^^ (crc >>> 1) else crc >>> 1

/-- The lookup table of a reflected CRC with the given polynomial. -/
def crcTable (polynomial : UInt32) : Vector UInt32 256 :=
  Vector.ofFn fun i => (List.range 8).foldl (fun crc _ => crcShift polynomial crc)
    (UInt32.ofNat i)

/-- One byte of the table-driven loop: `table[(crc ^ byte) & 0xff] ^ (crc >> 8)`. -/
def crcUpdate (table : Vector UInt32 256) (crc : UInt32) (byte : UInt8) : UInt32 :=
  have h : ((crc ^^^ byte.toUInt32) &&& 0xff).toNat < 256 := by
    rw [UInt32.toNat_and]
    exact Nat.lt_succ_of_le Nat.and_le_right
  table[((crc ^^^ byte.toUInt32) &&& 0xff).toNat] ^^^ (crc >>> 8)

/-- The checksum of a byte string with the given polynomial. -/
def crc32 (polynomial : UInt32) (data : Bytes) : UInt32 :=
  data.foldl (crcUpdate (crcTable polynomial)) 0xffffffff ^^^ 0xffffffff

/-- `crc32_ieee`. -/
def crc32Ieee (data : Bytes) : UInt32 := crc32 0xedb88320 data

/-- `crc32c`. -/
def crc32c (data : Bytes) : UInt32 := crc32 0x82f63b78 data

/-! ### The definition bit by bit -/

/-- The bits of a byte string, in the order in which a reflected register takes them. -/
def messageBits (data : Bytes) : List Bool :=
  data.flatMap fun byte => ShiftRegister.bits 8 byte.toBitVec

/-- The reflected CRC with the given polynomial: the register starts with all ones, takes the
message bit by bit, and is inverted at the end. -/
def crc32Bitwise (polynomial : UInt32) (data : Bytes) : UInt32 :=
  UInt32.ofBitVec
    (ShiftRegister.run polynomial.toBitVec 0xffffffff#32 (messageBits data)) ^^^ 0xffffffff

/-! ### The table and the register -/

/-- A shift step of the code is a step of the register. -/
theorem toBitVec_crcShift (polynomial crc : UInt32) :
    (crcShift polynomial crc).toBitVec =
      ShiftRegister.shift polynomial.toBitVec crc.toBitVec := by
  have hbit : crc &&& 1 ≠ 0 ↔ crc.toBitVec.getLsbD 0 = true := by
    have hand : (crc &&& 1).toBitVec = (BitVec.ofBool (crc.toBitVec.getLsbD 0)).setWidth 32 :=
      BitVec.and_one_eq_setWidth_ofBool_getLsbD
    rw [ne_eq, ← UInt32.toBitVec_inj, hand]
    cases crc.toBitVec.getLsbD 0 <;> decide
  rw [crcShift, ShiftRegister.shift]
  by_cases hlow : crc &&& 1 ≠ 0
  · rw [if_pos hlow, if_pos (hbit.mp hlow)]
    rfl
  · rw [if_neg hlow, if_neg fun h => hlow (hbit.mpr h)]
    rfl

theorem toBitVec_iterate_crcShift (polynomial crc : UInt32) (n : ℕ) :
    ((crcShift polynomial)^[n] crc).toBitVec =
      (ShiftRegister.shift polynomial.toBitVec)^[n] crc.toBitVec := by
  induction n with
  | zero => rfl
  | succ n ih =>
      rw [Function.iterate_succ_apply', Function.iterate_succ_apply', toBitVec_crcShift, ih]

/-- The entries of the table. -/
theorem getElem_crcTable (polynomial : UInt32) {i : ℕ} (hi : i < 256) :
    (crcTable polynomial)[i] = (crcShift polynomial)^[8] (UInt32.ofNat i) := by
  rw [crcTable, Vector.getElem_ofFn, List.foldl_const, List.length_range]

/-- The bits of a byte stay what they are in a wider word. -/
theorem bits_toUInt32 (byte : UInt8) :
    ShiftRegister.bits 8 byte.toUInt32.toBitVec = ShiftRegister.bits 8 byte.toBitVec := by
  refine List.map_congr_left fun i hi => ?_
  have hlt : i < 32 := (List.mem_range.mp hi).trans (by decide)
  rw [UInt8.toBitVec_toUInt32, BitVec.getLsbD_setWidth, decide_eq_true hlt, Bool.true_and]

/-- **One step with the table** takes the eight bits of a byte. -/
theorem crcUpdate_eq_run (polynomial crc : UInt32) (byte : UInt8) :
    (crcUpdate (crcTable polynomial) crc byte).toBitVec =
      ShiftRegister.run polynomial.toBitVec crc.toBitVec
        (ShiftRegister.bits 8 byte.toBitVec) := by
  rw [← bits_toUInt32, ShiftRegister.run_bits_eq_lookup, crcUpdate, UInt32.toBitVec_xor,
    getElem_crcTable, toBitVec_iterate_crcShift, UInt32.ofNat_toNat]
  rfl

/-- Eight shift steps of the register with the byte added are one step with the table. -/
theorem crcUpdate_eq_iterate (polynomial crc : UInt32) (byte : UInt8) :
    crcUpdate (crcTable polynomial) crc byte =
      (crcShift polynomial)^[8] (crc ^^^ byte.toUInt32) := by
  have hbyte : byte.toUInt32.toBitVec >>> 8 = 0#32 := BitVec.eq_of_toNat_eq (by
    have hlt := byte.toNat_lt
    rw [BitVec.toNat_ushiftRight, Nat.shiftRight_eq_div_pow]
    exact Nat.div_eq_of_lt hlt)
  apply UInt32.toBitVec_inj.mp
  rw [crcUpdate_eq_run, ← bits_toUInt32, ShiftRegister.run_bits_eq, toBitVec_iterate_crcShift,
    hbyte, BitVec.xor_zero, UInt32.toBitVec_xor]

/-- The loop over the bytes is the register's run over all their bits. Induction on the bytes. -/
theorem toBitVec_foldl_crcUpdate (polynomial crc : UInt32) (data : Bytes) :
    (data.foldl (crcUpdate (crcTable polynomial)) crc).toBitVec =
      ShiftRegister.run polynomial.toBitVec crc.toBitVec (messageBits data) := by
  induction data generalizing crc with
  | nil => rfl
  | cons byte data ih =>
      rw [List.foldl_cons, ih, crcUpdate_eq_run, ← ShiftRegister.run_append]
      rfl

/-- The loop of the code computes the checksum. -/
theorem crc32_eq_bitwise (polynomial : UInt32) (data : Bytes) :
    crc32 polynomial data = crc32Bitwise polynomial data := by
  have hloop := toBitVec_foldl_crcUpdate polynomial 0xffffffff data
  rw [crc32, crc32Bitwise]
  exact congrArg (· ^^^ 0xffffffff) (UInt32.toBitVec_inj.mp hloop)

/-- **The table-driven checksums are the bitwise ones.** For every polynomial, register and
byte, a step with the table is eight shift steps of the register with the byte added, which is
the run over the bits of the byte; and for every byte string, the two loops of the code compute
the reflected CRC-32 and CRC-32C bit by bit. -/
theorem checksums_eq_bitwise :
    (∀ (polynomial crc : UInt32) (byte : UInt8),
      crcUpdate (crcTable polynomial) crc byte =
          (crcShift polynomial)^[8] (crc ^^^ byte.toUInt32) ∧
        crcUpdate (crcTable polynomial) crc byte =
          UInt32.ofBitVec (ShiftRegister.run polynomial.toBitVec crc.toBitVec
            (ShiftRegister.bits 8 byte.toBitVec))) ∧
    (∀ data : Bytes, crc32Ieee data = crc32Bitwise 0xedb88320 data) ∧
    ∀ data : Bytes, crc32c data = crc32Bitwise 0x82f63b78 data := by
  refine ⟨fun polynomial crc byte => ⟨crcUpdate_eq_iterate polynomial crc byte, ?_⟩,
    crc32_eq_bitwise _, crc32_eq_bitwise _⟩
  exact UInt32.toBitVec_inj.mp (crcUpdate_eq_run polynomial crc byte)

/-- The check value of CRC-32: the checksum of the digits from 1 to 9. -/
example : crc32Ieee [49, 50, 51, 52, 53, 54, 55, 56, 57] = 0xcbf43926 := by decide +kernel

end Shimakaze
