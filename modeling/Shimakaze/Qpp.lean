import Mathlib.Data.Nat.Digits.Defs
import Mathlib.Logic.Equiv.Basic
import Shimakaze.Bytes
import Shimakaze.Lib.Transducer

/-!
# The Quantum Permutation Pad

`QppPad` is a table of pseudo-random permutations of the byte values together with their
inverses, and a `QppStream` encrypts a byte stream with it: a `xoshiro256**` generator
picks the permutation and a mask for every byte. The two directions of a stream keep
separate generator states that start from the same seed.

The primitives of the cryptographic library (PBKDF2, HMAC, the AES block function) are not
part of the repository and enter as the parameter `QppPrims`, about which nothing is
assumed. A pad is a structure that carries the proof that its reverse table undoes it, so
the construction has to show that shuffling keeps a permutation and that `reverse_pad`
inverts any permutation.

## Main results

* `Qpp.shuffleLoop_distinct`, `Qpp.lookup_reversePad`: shuffling keeps a permutation, for
  any pseudo-random choices, and the reverse table inverts it.
* `QppPad.decrypt_encrypt`: **the stream law** — from equal generator states, decrypting an
  encrypted byte string gives it back and leaves the two generators equal again.
* `QppStream.cipher_append`, `QppStream.decipher_append`: a direction of a stream works on
  the byte stream, not on the calls that carry it.
* `QppStream.calls_round_trip`: the round trip over any cuts into calls on both sides.
-/

namespace Shimakaze

/-- The primitives of the cryptographic library the pad is derived with. -/
structure QppPrims where
  /-- `pbkdf2_sha1 seed salt iterations`. -/
  pbkdf2Sha1 : Bytes → Bytes → ℕ → Vector UInt8 32
  /-- `hmac_sha256 key message`. -/
  hmacSha256 : Bytes → Bytes → Vector UInt8 32
  /-- `AES::Encryption::ProcessBlock` under a key. -/
  aesProcessBlock : Vector UInt8 32 → Vector UInt8 16 → Vector UInt8 16

/-- Stand-ins for a tunnel without a pad, which calls none of the primitives. -/
def QppPrims.uncalled : QppPrims where
  pbkdf2Sha1 _ _ _ := Vector.replicate 32 0
  hmacSha256 _ _ := Vector.replicate 32 0
  aesProcessBlock _ block := block

namespace Qpp

/-! ### Constants -/

def padIdentifierPrefix : Bytes := "QPP_".toUTF8.data.toList
def pmSelectorIdentifier : Bytes := "PERMUTATION_MATRIX_SELECTOR".toUTF8.data.toList
def shuffleSalt : Bytes := "___QUANTUM_PERMUTATION_PAD_SHUFFLE_SALT___".toUTF8.data.toList
def prngSalt : Bytes := "___QUANTUM_PERMUTATION_PAD_PRNG_SALT___".toUTF8.data.toList
def chunkDeriveSalt : Bytes := "___QUANTUM_PERMUTATION_PAD_SEED_DERIVE___".toUTF8.data.toList
def pbkdf2Loops : ℕ := 128
def chunkDeriveLoops : ℕ := 1024
def minimumSeedLength : ℕ := 211
def chunkCount : ℕ := (minimumSeedLength + 31) / 32

/-! ### The generator -/

/-- `std::rotl` on 64 bits, for the constant rotations of the generator. -/
def rotl (x : UInt64) (k : UInt64) : UInt64 := (x <<< k) ||| (x >>> (64 - k))

/-- The four words of the `xoshiro256**` state. -/
structure Xoshiro where
  s0 : UInt64
  s1 : UInt64
  s2 : UInt64
  s3 : UInt64
  deriving DecidableEq

/-- `xoshiro256ss`: the next output and the next state. -/
def xoshiro256ss (state : Xoshiro) : UInt64 × Xoshiro :=
  let result := rotl (state.s1 * 5) 7 * 9
  let t := state.s1 <<< 17
  let s2 := state.s2 ^^^ state.s0
  let s3 := state.s3 ^^^ state.s1
  let s1 := state.s1 ^^^ s2
  let s0 := state.s0 ^^^ s3
  (result, ⟨s0, s1, s2 ^^^ t, rotl s3 45⟩)

/-- `read_le64`: the 64-bit value of eight bytes, least significant first. -/
def readLe64 (bytes : Bytes) : UInt64 :=
  bytes.foldr (fun b acc => b.toUInt64 ||| (acc <<< 8)) 0

/-- `QppPad::Rand`: the generator, the word in use and how many of its bytes are used. -/
structure Rand where
  xoshiro : Xoshiro
  seed64 : UInt64
  count : UInt8
  deriving DecidableEq

/-- The end of one round of the cipher loops: the next byte of the word, or the next word
after the eighth. -/
def Rand.advance (rand : Rand) : Rand :=
  let count := rand.count + 1
  if count = 8 then
    let next := xoshiro256ss rand.xoshiro
    ⟨next.2, next.1, 0⟩
  else
    { rand with count := count }

/-- `QppPad::create_prng`. -/
def createPrng (prims : QppPrims) (seed : Bytes) : Rand :=
  let mac := prims.hmacSha256 seed pmSelectorIdentifier
  let xoshiro := (prims.pbkdf2Sha1 mac.toList prngSalt pbkdf2Loops).toList
  let state : Xoshiro :=
    ⟨readLe64 (xoshiro.take 8), readLe64 ((xoshiro.drop 8).take 8),
      readLe64 ((xoshiro.drop 16).take 8), readLe64 ((xoshiro.drop 24).take 8)⟩
  let first := xoshiro256ss state
  ⟨first.2, first.1, 0⟩

/-! ### Building the pads -/

/-- The 256 entries of one table. -/
abbrev Table := Vector UInt8 256

/-- `pad[x]` for a byte `x`. -/
def lookup (pad : Table) (x : UInt8) : UInt8 :=
  have h : x.toNat < 256 := x.toNat_lt
  pad[x.toNat]

/-- `fill_pad`: the identity table. -/
def fillPad : Table := Vector.ofFn fun i => UInt8.ofNat i

/-- `reverse_pad`: entry `pad[i]` of the result is `i`, written in the order of `i`. -/
def reversePad (pad : Table) : Table :=
  (List.finRange 256).foldl
    (fun rpad (i : Fin 256) => rpad.set pad[i].toNat (UInt8.ofNat i) pad[i].toNat_lt)
    (Vector.replicate 256 0)

/-- `binary_string`: the binary digits, most significant first. -/
def binaryString (value : UInt16) : Bytes :=
  if value = 0 then [48]
  else ((Nat.digits 2 value.toNat).map fun bit => if bit ≠ 0 then 49 else 48).reverse

/-- `mod_big_endian`: the big-endian number of the bytes, modulo `modulus`. -/
def modBigEndian (bytes : Bytes) (modulus : ℕ) : ℕ :=
  bytes.foldl (fun result byte => (result * 256 + byte.toNat) % modulus) 0

/-- One pass of the AES blocks over the digest: each key encrypts both halves in place. -/
def stirDigest (prims : QppPrims) (aesKeys : List (Vector UInt8 32))
    (sum : Vector UInt8 32) : Vector UInt8 32 :=
  aesKeys.foldl
    (fun sum key =>
      prims.aesProcessBlock key (Vector.ofFn fun i => sum[i.val]) ++
        prims.aesProcessBlock key (Vector.ofFn fun i => sum[16 + i.val]))
    sum

/-- The index `mod_big_endian(sum, i + 1)` that entry `i` is swapped with. -/
theorem modBigEndian_lt (bytes : Bytes) (i : ℕ) : modBigEndian bytes (i + 1) < i + 1 := by
  rcases List.eq_nil_or_concat bytes with rfl | ⟨init, last, rfl⟩
  · exact Nat.succ_pos i
  · rw [modBigEndian, List.concat_eq_append, List.foldl_append]
    exact Nat.mod_lt _ (Nat.succ_pos i)

/-- The loop of `shuffle_pad` from index `i` down to `1`. -/
def shuffleLoop (prims : QppPrims) (aesKeys : List (Vector UInt8 32)) :
    (i : ℕ) → i < 256 → Vector UInt8 32 → Table → Table
  | 0, _, _, pad => pad
  | i + 1, hi, sum, pad =>
      let sum := stirDigest prims aesKeys sum
      let j := modBigEndian sum.toList (i + 1 + 1)
      shuffleLoop prims aesKeys i (Nat.lt_of_succ_lt hi) sum
        (pad.swap (i + 1) j hi (Nat.lt_of_lt_of_le (modBigEndian_lt _ _) hi))

/-- `shuffle_pad`. -/
def shufflePad (prims : QppPrims) (chunk : Vector UInt8 32) (pad : Table) (padId : UInt16)
    (aesKeys : List (Vector UInt8 32)) : Table :=
  shuffleLoop prims aesKeys 255 (by decide)
    (prims.hmacSha256 chunk.toList (padIdentifierPrefix ++ binaryString padId)) pad

/-- `seed_to_chunks`: as many derived chunks as hold a seed of the least recommended length. -/
def seedToChunks (prims : QppPrims) (seed : Bytes) : Vector (Vector UInt8 32) chunkCount :=
  let expanded :=
    if seed.length < 32 then (prims.pbkdf2Sha1 seed chunkDeriveSalt pbkdf2Loops).toList
    else seed
  Vector.ofFn fun c =>
    let chunk := (List.range 32).map fun i =>
      expanded.getD ((c.val * 32 + i) % expanded.length) 0
    prims.pbkdf2Sha1 chunk chunkDeriveSalt chunkDeriveLoops

/-! ### Shuffling keeps a permutation, and reversing inverts it -/

/-- A table without repeated entries. -/
def Distinct (pad : Table) : Prop :=
  ∀ i j : Fin 256, pad[i] = pad[j] → i = j

theorem fillPad_distinct : Distinct fillPad := by
  intro i j h
  simp only [fillPad, Fin.getElem_fin, Vector.getElem_ofFn] at h
  have h' := congrArg UInt8.toNat h
  simp only [UInt8.toNat_ofNat'] at h'
  omega

/-- Exchanging two entries creates no repetition. -/
theorem Distinct.swap {pad : Table} (h : Distinct pad) {a b : ℕ} (ha : a < 256)
    (hb : b < 256) : Distinct (pad.swap a b ha hb) := by
  -- each entry of the new table is the old entry at the exchanged index
  have key : ∀ i : Fin 256, (pad.swap a b ha hb)[i] =
      pad[Equiv.swap (⟨a, ha⟩ : Fin 256) ⟨b, hb⟩ i] := by
    intro i
    simp only [Fin.getElem_fin, Vector.getElem_swap, Equiv.swap_apply_def, Fin.ext_iff]
    split <;> [skip; split] <;> rfl
  intro i j hij
  rw [key, key] at hij
  exact (Equiv.swap _ _).injective (h _ _ hij)

/-- The shuffle loop keeps a table without repetitions. -/
theorem shuffleLoop_distinct (prims : QppPrims) (aesKeys : List (Vector UInt8 32)) :
    ∀ (i : ℕ) (hi : i < 256) (sum : Vector UInt8 32) (pad : Table), Distinct pad →
      Distinct (shuffleLoop prims aesKeys i hi sum pad)
  | 0, _, _, _, h => h
  | i + 1, hi, _, _, h =>
      shuffleLoop_distinct prims aesKeys i (Nat.lt_of_succ_lt hi) _ _ (h.swap _ _)

/-- Writing `pad[k] ↦ k` for the indices `k` of a list leaves the entry of every other index
alone. -/
theorem reversePad_loop_of_notMem {pad : Table} (h : Distinct pad) {i : Fin 256} :
    ∀ (l : List (Fin 256)) (rpad : Table), i ∉ l →
      lookup (l.foldl (fun rpad (k : Fin 256) =>
        rpad.set pad[k].toNat (UInt8.ofNat k) pad[k].toNat_lt) rpad) pad[i] =
      lookup rpad pad[i]
  | [], _, _ => rfl
  | k :: l, rpad, hi => by
      rw [List.foldl_cons, reversePad_loop_of_notMem h l _ (List.not_mem_of_not_mem_cons hi)]
      have hne : pad[k].toNat ≠ pad[i].toNat := fun he =>
        List.ne_of_not_mem_cons hi (h k i (UInt8.toNat_inj.mp he)).symm
      exact Vector.getElem_set_ne _ _ hne

/-- Writing `pad[k] ↦ k` for the indices `k` of a list makes the entries of these indices
point back. -/
theorem reversePad_loop_of_mem {pad : Table} (h : Distinct pad) {i : Fin 256} :
    ∀ (l : List (Fin 256)) (rpad : Table), i ∈ l →
      lookup (l.foldl (fun rpad (k : Fin 256) =>
        rpad.set pad[k].toNat (UInt8.ofNat k) pad[k].toNat_lt) rpad) pad[i] = UInt8.ofNat i
  | k :: l, rpad, hi => by
      rw [List.foldl_cons]
      by_cases hl : i ∈ l
      · exact reversePad_loop_of_mem h l _ hl
      · obtain rfl : i = k := (List.mem_cons.mp hi).resolve_right hl
        rw [reversePad_loop_of_notMem h l _ hl]
        exact Vector.getElem_set_self _

/-- `reverse_pad` inverts every table without repetitions. -/
theorem lookup_reversePad {pad : Table} (h : Distinct pad) (x : UInt8) :
    lookup (reversePad pad) (lookup pad x) = x := by
  have hx := reversePad_loop_of_mem h (i := ⟨x.toNat, x.toNat_lt⟩) (List.finRange 256)
    (Vector.replicate 256 0) (List.mem_finRange _)
  rw [Fin.getElem_fin] at hx
  exact hx.trans (UInt8.ofNat_toNat)

end Qpp

open Qpp

/-- One pad: a permutation table with its reverse table. The proof that the second undoes
the first is part of the structure, so no other pair of tables can be built. -/
structure PermutationPad where
  pad : Table
  rpad : Table
  rpad_pad : ∀ x, lookup rpad (lookup pad x) = x

/-- `QppPad`: the pads, at least one. -/
structure QppPad where
  numPads : UInt16
  pads : Vector PermutationPad numPads.toNat
  numPads_pos : 0 < numPads.toNat

namespace QppPad

/-- One round of the loop of the `QppPad` constructor: fill, shuffle, reverse. -/
def makePad (prims : QppPrims) (chunks : Vector (Vector UInt8 32) chunkCount)
    (aesKeys : List (Vector UInt8 32)) (i : ℕ) : PermutationPad :=
  have hchunk : i % chunkCount < chunkCount := Nat.mod_lt i (by decide)
  let chunk := chunks[i % chunkCount]
  { pad := shufflePad prims chunk fillPad (UInt16.ofNat i) aesKeys
    rpad := reversePad (shufflePad prims chunk fillPad (UInt16.ofNat i) aesKeys)
    rpad_pad := lookup_reversePad (shuffleLoop_distinct _ _ _ _ _ _ fillPad_distinct) }

/-- The constructor `QppPad(seed, num_pads)`. -/
def make (prims : QppPrims) (seed : Bytes) (numPads : UInt16) : Except String QppPad :=
  if h : numPads.toNat = 0 then
    throw "QPPCount must be greater than 0 when QPP is enabled"
  else
    let chunks := seedToChunks prims seed
    let aesKeys := chunks.toList.map fun chunk =>
      prims.pbkdf2Sha1 chunk.toList shuffleSalt pbkdf2Loops
    pure
      { numPads := numPads
        pads := Vector.ofFn fun i => makePad prims chunks aesKeys i.val
        numPads_pos := Nat.pos_of_ne_zero h }

/-- Any number of pads from one on can be set up. -/
theorem make_ok (prims : QppPrims) (seed : Bytes) {numPads : UInt16} (h : 1 ≤ numPads.toNat) :
    ∃ pad, make prims seed numPads = .ok pad ∧ pad.numPads = numPads :=
  ⟨_, dif_neg (Nat.one_le_iff_ne_zero.mp h), rfl⟩

/-- The pad the generator word selects: `static_cast<uint16_t>(r) % num_pads_`. -/
def select (pad : QppPad) (rand : Rand) : PermutationPad :=
  have h : rand.seed64.toUInt16.toNat % pad.numPads.toNat < pad.numPads.toNat :=
    Nat.mod_lt _ pad.numPads_pos
  pad.pads[rand.seed64.toUInt16.toNat % pad.numPads.toNat]

/-- The mask `static_cast<uint8_t>(r >> (count * 8))`. -/
def mask (rand : Rand) : UInt8 := (rand.seed64 >>> (rand.count.toUInt64 * 8)).toUInt8

/-- One round of the loop of `QppPad::encrypt`. -/
def encryptByte (pad : QppPad) (rand : Rand) (plain : UInt8) : UInt8 × Rand :=
  (lookup (pad.select rand).pad (plain ^^^ mask rand), rand.advance)

/-- One round of the loop of `QppPad::decrypt`. -/
def decryptByte (pad : QppPad) (rand : Rand) (cipher : UInt8) : UInt8 × Rand :=
  (lookup (pad.select rand).rpad cipher ^^^ mask rand, rand.advance)

/-- `QppPad::encrypt`: the encrypted bytes and the generator afterwards. -/
def encrypt (pad : QppPad) (rand : Rand) (data : Bytes) : Bytes × Rand :=
  Transducer.run pad.encryptByte rand data

/-- `QppPad::decrypt`: the decrypted bytes and the generator afterwards. -/
def decrypt (pad : QppPad) (rand : Rand) (data : Bytes) : Bytes × Rand :=
  Transducer.run pad.decryptByte rand data

/-- Byte by byte, decryption undoes encryption and moves the generator the same way. -/
theorem decryptByte_inverts (pad : QppPad) :
    Transducer.Inverts pad.decryptByte pad.encryptByte := by
  intro rand plain
  simp only [decryptByte, encryptByte, PermutationPad.rpad_pad, UInt8.xor_assoc,
    UInt8.xor_self, UInt8.xor_zero]

/-- **The stream law.** From equal generator states, decrypting an encrypted byte string
gives it back and leaves the generators equal. -/
theorem decrypt_encrypt (pad : QppPad) (rand : Rand) (data : Bytes) :
    pad.decrypt rand (pad.encrypt rand data).1 = (data, (pad.encrypt rand data).2) :=
  pad.decryptByte_inverts.run rand data

end QppPad

/-! ### The two directions of a stream -/

/-- `QppStream`: a pad, if the configuration asks for one, and a generator for each
direction. -/
structure QppStream where
  pad : Option QppPad
  writeRand : Rand
  readRand : Rand

/-- The generator of a default-constructed `QppPad::Rand`. -/
def Qpp.Rand.zero : Rand := ⟨⟨0, 0, 0, 0⟩, 0, 0⟩

namespace QppStream

/-- The constructor `QppStream(pad, seed)`. -/
def make (prims : QppPrims) (pad : Option QppPad) (seed : Bytes) : QppStream :=
  match pad with
  | some pad => ⟨some pad, createPrng prims seed, createPrng prims seed⟩
  | none => ⟨none, Rand.zero, Rand.zero⟩

/-- `encrypt` of the bytes written so far does nothing when there is no pad. -/
def cipher (pad : Option QppPad) (rand : Rand) (data : Bytes) : Bytes × Rand :=
  match pad with
  | some pad => pad.encrypt rand data
  | none => (data, rand)

/-- The counterpart of `cipher` for the reading side. -/
def decipher (pad : Option QppPad) (rand : Rand) (data : Bytes) : Bytes × Rand :=
  match pad with
  | some pad => pad.decrypt rand data
  | none => (data, rand)

theorem cipher_append (pad : Option QppPad) (rand : Rand) (a b : Bytes) :
    cipher pad rand (a ++ b) =
      ((cipher pad rand a).1 ++ (cipher pad (cipher pad rand a).2 b).1,
        (cipher pad (cipher pad rand a).2 b).2) := by
  cases pad with
  | none => rfl
  | some pad => exact Transducer.run_append _ _ _ _

theorem decipher_append (pad : Option QppPad) (rand : Rand) (a b : Bytes) :
    decipher pad rand (a ++ b) =
      ((decipher pad rand a).1 ++ (decipher pad (decipher pad rand a).2 b).1,
        (decipher pad (decipher pad rand a).2 b).2) := by
  cases pad with
  | none => rfl
  | some pad => exact Transducer.run_append _ _ _ _

@[simp] theorem cipher_nil (pad : Option QppPad) (rand : Rand) :
    cipher pad rand [] = ([], rand) := by
  cases pad <;> rfl

@[simp] theorem decipher_nil (pad : Option QppPad) (rand : Rand) :
    decipher pad rand [] = ([], rand) := by
  cases pad <;> rfl

@[simp] theorem length_cipher (pad : Option QppPad) (rand : Rand) (data : Bytes) :
    (cipher pad rand data).1.length = data.length := by
  cases pad with
  | none => rfl
  | some pad => exact Transducer.length_run _ _ _

@[simp] theorem length_decipher (pad : Option QppPad) (rand : Rand) (data : Bytes) :
    (decipher pad rand data).1.length = data.length := by
  cases pad with
  | none => rfl
  | some pad => exact Transducer.length_run _ _ _

/-- The reading side gets back what the writing side put in, for an initial segment of any
length. -/
theorem decipher_take_cipher (pad : Option QppPad) (rand : Rand) (data : Bytes) (n : ℕ) :
    (decipher pad rand ((cipher pad rand data).1.take n)).1 = data.take n := by
  cases pad with
  | none => rfl
  | some pad =>
      have h : (Transducer.run pad.encryptByte rand data).1.take n =
          (Transducer.run pad.encryptByte rand (data.take n)).1 :=
        (Transducer.run_take _ _ _ _).symm
      simp only [decipher, cipher, QppPad.decrypt, QppPad.encrypt, h,
        pad.decryptByte_inverts.run]

/-- `QppStream::encrypt`. -/
def encrypt (stream : QppStream) (data : Bytes) : Bytes × QppStream :=
  let out := cipher stream.pad stream.writeRand data
  (out.1, { stream with writeRand := out.2 })

/-- `QppStream::decrypt`. -/
def decrypt (stream : QppStream) (data : Bytes) : Bytes × QppStream :=
  let out := decipher stream.pad stream.readRand data
  (out.1, { stream with readRand := out.2 })

/-! ### Consecutive calls -/

/-- Consecutive `encrypt` calls: what each leaves in its buffer, and the stream afterwards. -/
def encryptCalls (stream : QppStream) (calls : List Bytes) : List Bytes × QppStream :=
  Transducer.run encrypt stream calls

/-- Consecutive `decrypt` calls. -/
def decryptCalls (stream : QppStream) (calls : List Bytes) : List Bytes × QppStream :=
  Transducer.run decrypt stream calls

/-- **Encrypting in pieces** is encrypting the pieces put together. -/
theorem encryptCalls_spec (stream : QppStream) (calls : List Bytes) :
    (stream.encryptCalls calls).1.flatten =
      (cipher stream.pad stream.writeRand calls.flatten).1 ∧
    (stream.encryptCalls calls).2 =
      { stream with writeRand := (cipher stream.pad stream.writeRand calls.flatten).2 } := by
  induction calls generalizing stream with
  | nil => exact ⟨by simp [encryptCalls], by simp [encryptCalls]⟩
  | cons call calls ih =>
      obtain ⟨hbytes, hstream⟩ := ih (stream.encrypt call).2
      have hcons : stream.encryptCalls (call :: calls) =
          ((stream.encrypt call).1 :: ((stream.encrypt call).2.encryptCalls calls).1,
            ((stream.encrypt call).2.encryptCalls calls).2) := rfl
      rw [hcons, List.flatten_cons, List.flatten_cons, cipher_append, hbytes, hstream]
      exact ⟨rfl, rfl⟩

/-- **Decrypting in pieces** is decrypting the pieces put together. -/
theorem decryptCalls_spec (stream : QppStream) (calls : List Bytes) :
    (stream.decryptCalls calls).1.flatten =
      (decipher stream.pad stream.readRand calls.flatten).1 ∧
    (stream.decryptCalls calls).2 =
      { stream with readRand := (decipher stream.pad stream.readRand calls.flatten).2 } := by
  induction calls generalizing stream with
  | nil => exact ⟨by simp [decryptCalls], by simp [decryptCalls]⟩
  | cons call calls ih =>
      obtain ⟨hbytes, hstream⟩ := ih (stream.decrypt call).2
      have hcons : stream.decryptCalls (call :: calls) =
          ((stream.decrypt call).1 :: ((stream.decrypt call).2.decryptCalls calls).1,
            ((stream.decrypt call).2.decryptCalls calls).2) := rfl
      rw [hcons, List.flatten_cons, List.flatten_cons, decipher_append, hbytes, hstream]
      exact ⟨rfl, rfl⟩

/-- **The stream round trip, however the bytes are cut.** Every number of pads from one on can
be set up; two streams of one pad and one seed undo each other over any cuts of the bytes into
`encrypt` calls and of the encrypted bytes into `decrypt` calls, and end with the writing and
the reading generator in one state. -/
theorem calls_round_trip (prims : QppPrims) (padSeed seed : Bytes) (numPads : UInt16)
    (hpads : 1 ≤ numPads.toNat) :
    ∃ pad, QppPad.make prims padSeed numPads = .ok pad ∧ pad.numPads = numPads ∧
      ∀ writes reads : List Bytes,
        reads.flatten = ((make prims (some pad) seed).encryptCalls writes).1.flatten →
        ((make prims (some pad) seed).decryptCalls reads).1.flatten = writes.flatten ∧
        ((make prims (some pad) seed).decryptCalls reads).2.readRand =
          ((make prims (some pad) seed).encryptCalls writes).2.writeRand := by
  obtain ⟨pad, hpad, hnum⟩ := QppPad.make_ok prims padSeed hpads
  refine ⟨pad, hpad, hnum, ?_⟩
  intro writes reads hreads
  obtain ⟨hwritten, hwriter⟩ := encryptCalls_spec (make prims (some pad) seed) writes
  obtain ⟨hread, hreader⟩ := decryptCalls_spec (make prims (some pad) seed) reads
  rw [hreader, hwriter, hread, hreads, hwritten]
  -- One generator state on both sides, so the two directions of the pad meet.
  have hlaw := pad.decrypt_encrypt (createPrng prims seed) writes.flatten
  exact Prod.ext_iff.mp hlaw

/-- Two writes, read back in one piece of one byte and the rest. -/
theorem two_writes_round_trip :
    ∃ pad encrypted, QppPad.make .uncalled [1, 2, 3] 61 = .ok pad ∧
      encrypted = ((make .uncalled (some pad) [1, 2, 3]).encryptCalls [[7, 8], [9]]).1.flatten ∧
      ((make .uncalled (some pad) [1, 2, 3]).decryptCalls
        [encrypted.take 1, encrypted.drop 1]).1.flatten = [7, 8, 9] := by
  obtain ⟨pad, hpad, -, hlaw⟩ := calls_round_trip .uncalled [1, 2, 3] [1, 2, 3] 61 (by decide)
  refine ⟨pad, _, hpad, rfl, (hlaw [[7, 8], [9]] _ ?_).1⟩
  rw [List.flatten_cons, List.flatten_singleton, List.take_append_drop]

end QppStream

end Shimakaze
