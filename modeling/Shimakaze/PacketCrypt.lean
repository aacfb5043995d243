import Shimakaze.Config
import Shimakaze.Crc
import Shimakaze.Lib.CipherFeedback

/-!
# Packet Encryption

`PacketCrypt` of `crypto.cpp` turns a packet into a datagram: sixteen random bytes, the
checksum of the packet, the packet, and over all of it the configured method. Reading a
datagram undoes the method and checks the checksum. The methods `null`, which does nothing,
and `aes-128-gcm`, which has a format of its own, do without this header.

The cryptographic library is not part of the repository and enters as `CryptoLib`. The block
functions have the lengths their types say and are arbitrary otherwise; the code applies them
in the forward direction only.

## Main results

* `PacketCrypt.cryptBytes_cryptBytes`: the two directions of every header method undo each
  other.
* `PacketCrypt.decrypt_eq_some_iff`: reading accepts exactly the datagrams written, and gives
  back the packet they were written for.
* `PacketCrypt.create_ok`: the constructor succeeds for every method and key.
* `PacketCrypt.length_encrypt`: a datagram is longer than its packet by `overhead()`.
-/

namespace Shimakaze

/-! ### The cryptographic library -/

/-- `CryptoPP::BlockTransformation`: a block size and `ProcessBlock`. -/
structure BlockTransformation where
  blockSize : ℕ
  processBlock : Vector UInt8 blockSize → Vector UInt8 blockSize

/-- `ProcessBlock` on a pointer: it reads a block from there. -/
def BlockTransformation.process (block : BlockTransformation) (input : Bytes) : Bytes :=
  (block.processBlock (Vector.ofFn fun i => input.getD i 0)).toList

@[simp] theorem BlockTransformation.length_process (block : BlockTransformation) (input : Bytes) :
    (block.process input).length = block.blockSize := by
  rw [process, Vector.length_toList]

/-- The block ciphers of the library that the code names. -/
inductive BlockCipher
  | aes
  | blowfish
  | twofish
  | cast128
  | desEde3
  | tea
  | xtea
  | sm4
  deriving DecidableEq

/-- The functions of the cryptographic library. -/
structure CryptoLib where
  /-- `PKCS5_PBKDF2_HMAC<SHA1>`: secret, salt, iterations and the size to derive. -/
  pbkdf2Sha1 : Bytes → Bytes → ℕ → (size : ℕ) → Vector UInt8 size
  /-- A block cipher with its key set; `none` when that throws `CryptoPP::Exception`. -/
  makeBlockCipher : BlockCipher → Bytes → Option BlockTransformation
  /-- The key stream of Salsa20 under a key and an initial vector. -/
  salsa20 : Vector UInt8 32 → Vector UInt8 8 → ℕ → UInt8
  /-- `GCM<AES>::Encryption` under a key and a nonce: the ciphertext and the tag. -/
  gcmEncrypt : Bytes → Bytes → (packet : Bytes) → Vector UInt8 packet.length × Vector UInt8 16
  /-- `GCM<AES>::Decryption` under a key and a nonce; `none` when it does not verify. -/
  gcmDecrypt : Bytes → Bytes → (payload : Bytes) → Bytes → Option (Vector UInt8 payload.length)

/-- The block size of a cipher. -/
def BlockCipher.blockSize : BlockCipher → ℕ
  | .aes | .twofish | .sm4 => 16
  | .blowfish | .cast128 | .desEde3 | .tea | .xtea => 8

/-- The lengths of the keys a cipher takes. -/
def BlockCipher.takesKey (length : ℕ) : BlockCipher → Bool
  | .aes | .twofish => length = 16 || length = 24 || length = 32
  | .blowfish => 4 ≤ length && length ≤ 56
  | .cast128 => 5 ≤ length && length ≤ 16
  | .desEde3 => length = 24
  | .tea | .xtea | .sm4 => length = 16

/-- What the library documents about setting a key: a cipher takes keys of its lengths, and
has its block size. -/
def CryptoLib.Lawful (lib : CryptoLib) : Prop :=
  ∀ (cipher : BlockCipher) (key : Bytes), cipher.takesKey key.length →
    ∃ block, lib.makeBlockCipher cipher key = some block ∧ block.blockSize = cipher.blockSize

/-! ### Constants -/

namespace PacketCrypt

/-- `nonce_size`. -/
def nonceSize : ℕ := 16

/-- `crypt_header_size`: the nonce and the checksum. -/
def cryptHeaderSize : ℕ := 20

/-- `mtu_limit`. -/
def mtuLimit : ℕ := 1500

/-- `aes_gcm_nonce_size`. -/
def aesGcmNonceSize : ℕ := 12

/-- `aes_gcm_tag_size`. -/
def aesGcmTagSize : ℕ := 16

/-- `initial_vector`. -/
def initialVector : Bytes :=
  [167, 115, 79, 156, 18, 172, 27, 1, 164, 21, 242, 193, 252, 120, 230, 107]

/-- `PacketCrypt::Method`. -/
inductive Method
  | null
  | none
  | block
  | salsa20
  | xorStream
  | aesGcm
  deriving DecidableEq

/-- The block ciphers the code goes on with: those of block size 8 or 16. -/
def SupportedCipher := { block : BlockTransformation // block.blockSize = 8 ∨ block.blockSize = 16 }

/-- What the constructor can throw: an exception of the library, or an error of its own. -/
inductive Failure
  | library
  | runtimeError (message : String)
  deriving DecidableEq

end PacketCrypt

open PacketCrypt

/-- `PacketCrypt`. `block_size_` is the block size of `block_`. -/
structure PacketCrypt where
  method : Method := .null
  cipherKey : Vector UInt8 32 := Vector.replicate 32 0
  xorTable : Bytes := []
  block : Option SupportedCipher := none
  cipherKeySize : ℕ := 0

namespace PacketCrypt

/-! ### The constructor -/

/-- `normalize_method`. -/
def normalizeMethod (method : String) : String := String.ofList (method.toList.map Char.toLower)

/-- `derive_key`. -/
def deriveKey (lib : CryptoLib) (key : Bytes) : Vector UInt8 32 :=
  lib.pbkdf2Sha1 key "kcp-go".toUTF8.data.toList 4096 32

/-- `derive_xor_table`. -/
def deriveXorTable (lib : CryptoLib) (key : Bytes) : Bytes :=
  (lib.pbkdf2Sha1 key "sH3CIVoF#rWLtJo6".toUTF8.data.toList 32 mtuLimit).toList

/-- The first bytes of the derived key, in a key of 32 bytes. -/
def cipherKeyOf (derivedKey : Vector UInt8 32) (size : ℕ) : Vector UInt8 32 :=
  Vector.ofFn fun i => if i.val < size then derivedKey[i.val] else 0

/-- `select_block` of the constructor. -/
def selectBlock (lib : CryptoLib) (derivedKey : Vector UInt8 32) (keySize : ℕ)
    (cipher : BlockCipher) : Except Failure PacketCrypt :=
  let size := if keySize = 0 then 32 else keySize
  match lib.makeBlockCipher cipher ((cipherKeyOf derivedKey size).toList.take size) with
  | none => throw .library
  | some block =>
      if h : block.blockSize = 8 ∨ block.blockSize = 16 then
        pure
          { method := .block
            cipherKey := cipherKeyOf derivedKey size
            block := some ⟨block, h⟩
            cipherKeySize := size }
      else throw (.runtimeError "unsupported Shimakaze block cipher size")

/-- The choice of the method, before exceptions of the library are caught. -/
def selectMethod (lib : CryptoLib) (derivedKey : Vector UInt8 32) (method : String) :
    Except Failure PacketCrypt :=
  match method with
  | "null" => pure { method := .null }
  | "none" => pure { method := .none }
  | "aes-128" => selectBlock lib derivedKey 16 .aes
  | "aes-192" => selectBlock lib derivedKey 24 .aes
  | "aes" | "aes-256" => selectBlock lib derivedKey 32 .aes
  | "blowfish" => selectBlock lib derivedKey 0 .blowfish
  | "twofish" => selectBlock lib derivedKey 0 .twofish
  | "cast5" => selectBlock lib derivedKey 16 .cast128
  | "3des" => selectBlock lib derivedKey 24 .desEde3
  | "tea" => selectBlock lib derivedKey 16 .tea
  | "xtea" => selectBlock lib derivedKey 16 .xtea
  | "sm4" => selectBlock lib derivedKey 16 .sm4
  | "salsa20" => pure { method := .salsa20, cipherKey := derivedKey, cipherKeySize := 32 }
  | "xor" => pure { method := .xorStream, xorTable := deriveXorTable lib derivedKey.toList }
  | "aes-128-gcm" =>
      pure { method := .aesGcm, cipherKey := cipherKeyOf derivedKey 16, cipherKeySize := 16 }
  | _ => selectBlock lib derivedKey 32 .aes

/-- The constructor: an exception of the library falls back to AES. -/
def create (lib : CryptoLib) (config : BaseConfig) : Except Failure PacketCrypt :=
  let derivedKey := deriveKey lib config.key
  match selectMethod lib derivedKey (normalizeMethod config.crypt) with
  | .error .library => selectBlock lib derivedKey 32 .aes
  | result => result

/-! ### The methods -/

variable (lib : CryptoLib) (crypt : PacketCrypt)

/-- `block_cfb_crypt`: `current` starts as the image of the initial vector. Every round of the
loop takes a full block off the data but the last, so its length bounds the rounds. -/
def blockCfbCrypt (data : Bytes) (encrypting : Bool) : Bytes :=
  match crypt.block with
  | none => data
  | some block =>
      CipherFeedback.crypt block.val.blockSize block.val.process (· ^^^ ·) encrypting data.length
        (block.val.process initialVector) data

/-- `salsa20_crypt`: the first eight bytes are the initial vector and stay as they are. -/
def salsa20Crypt (data : Bytes) : Bytes :=
  if data.length ≤ 8 then data
  else
    data.take 8 ++ (data.drop 8).mapIdx fun i byte =>
      byte ^^^ lib.salsa20 crypt.cipherKey (Vector.ofFn fun i => data.getD i 0) i

/-- `xor_crypt`: only as many bytes as the table has are changed. -/
def xorCrypt (data : Bytes) : Bytes :=
  if crypt.xorTable = [] then data
  else
    let count := min data.length crypt.xorTable.length
    List.zipWith (· ^^^ ·) (data.take count) (crypt.xorTable.take count) ++ data.drop count

/-- The `switch` over the methods with a header, in both directions. -/
def cryptBytes (encrypting : Bool) (bytes : Bytes) : Bytes :=
  match crypt.method with
  | .none => bytes
  | .block => crypt.blockCfbCrypt bytes encrypting
  | .salsa20 => crypt.salsa20Crypt lib bytes
  | .xorStream => crypt.xorCrypt bytes
  | .null => bytes
  | .aesGcm => bytes

/-- `aes_gcm_encrypt`. -/
def aesGcmEncrypt (nonce packet : Bytes) : Except String Bytes :=
  if packet.length > 2147483647 then throw "packet too large for AES-GCM encryption"
  else
    let (payload, tag) :=
      lib.gcmEncrypt (crypt.cipherKey.toList.take crypt.cipherKeySize) nonce packet
    pure (nonce ++ payload.toList ++ tag.toList)

/-- `aes_gcm_decrypt`. -/
def aesGcmDecrypt (packet : Bytes) : Option Bytes :=
  if packet.length < aesGcmNonceSize + aesGcmTagSize then none
  else
    let payloadSize := packet.length - aesGcmNonceSize - aesGcmTagSize
    (lib.gcmDecrypt (crypt.cipherKey.toList.take crypt.cipherKeySize)
      (packet.take aesGcmNonceSize) ((packet.drop aesGcmNonceSize).take payloadSize)
      (packet.drop (aesGcmNonceSize + payloadSize))).map Vector.toList

/-- `PacketCrypt::encrypt`, with the bytes that `fill_random` draws; AES-GCM draws twelve. -/
def encrypt (nonce : Vector UInt8 16) (packet : Bytes) : Except String Bytes :=
  if crypt.method = .null then pure packet
  else if crypt.method = .aesGcm then
    crypt.aesGcmEncrypt lib (nonce.toList.take aesGcmNonceSize) packet
  else
    pure (crypt.cryptBytes lib true (nonce.toList ++ writeLe32 (crc32Ieee packet) ++ packet))

/-- `PacketCrypt::decrypt`. -/
def decrypt (packet : Bytes) : Option Bytes :=
  if crypt.method = .null then some packet
  else if crypt.method = .aesGcm then crypt.aesGcmDecrypt lib packet
  else if packet.length < cryptHeaderSize then none
  else
    let decoded := crypt.cryptBytes lib false packet
    let payload := decoded.drop cryptHeaderSize
    if crc32Ieee payload ≠ readLe32 (decoded.drop nonceSize) then none else some payload

/-- `PacketCrypt::overhead`. -/
def overhead : ℕ :=
  if crypt.method = .null then 0
  else if crypt.method = .aesGcm then aesGcmNonceSize + aesGcmTagSize
  else cryptHeaderSize

variable {lib crypt}

/-! ### The two directions undo each other -/

/-- The mask of a byte cancels. -/
theorem xor_xor_cancel (a k : UInt8) : a ^^^ k ^^^ k = a := by
  rw [UInt8.xor_assoc, UInt8.xor_self, UInt8.xor_zero]

/-- The feedback mode keeps the length. -/
theorem length_blockCfbCrypt (data : Bytes) (encrypting : Bool) :
    (crypt.blockCfbCrypt data encrypting).length = data.length := by
  rw [blockCfbCrypt]
  cases crypt.block with
  | none => rfl
  | some block =>
      exact CipherFeedback.length_crypt block.val.length_process _ _ _ _
        (block.val.length_process _)

/-- The feedback mode in one direction undoes the other. -/
theorem blockCfbCrypt_blockCfbCrypt (data : Bytes) (encrypting : Bool) :
    crypt.blockCfbCrypt (crypt.blockCfbCrypt data encrypting) (!encrypting) = data := by
  have hlength := @length_blockCfbCrypt crypt data encrypting
  simp only [blockCfbCrypt] at hlength ⊢
  cases hblock : crypt.block with
  | none => rfl
  | some block =>
      simp only [hblock] at hlength ⊢
      have hsize : 0 < block.val.blockSize := by
        rcases block.property with hsize | hsize <;> omega
      rw [hlength]
      exact CipherFeedback.crypt_crypt hsize block.val.length_process xor_xor_cancel encrypting _ _
        data le_rfl (block.val.length_process _)

/-- The key stream keeps the length. -/
theorem length_salsa20Crypt (data : Bytes) :
    (crypt.salsa20Crypt lib data).length = data.length := by
  rw [salsa20Crypt]
  by_cases hshort : data.length ≤ 8
  · rw [if_pos hshort]
  · rw [if_neg hshort, List.length_append, List.length_mapIdx, List.length_take, List.length_drop]
    omega

/-- Adding the key stream twice gives the bytes back: the initial vector it depends on stays
as it is. -/
theorem salsa20Crypt_salsa20Crypt (data : Bytes) :
    crypt.salsa20Crypt lib (crypt.salsa20Crypt lib data) = data := by
  have hlength := @length_salsa20Crypt lib crypt data
  by_cases hshort : data.length ≤ 8
  · simp only [salsa20Crypt, if_pos hshort]
  · set stream := lib.salsa20 crypt.cipherKey (Vector.ofFn fun i => data.getD i 0) with hstream
    have hcrypt : crypt.salsa20Crypt lib data =
        data.take 8 ++ (data.drop 8).mapIdx fun i byte => byte ^^^ stream i := by
      rw [salsa20Crypt, if_neg hshort]
    have hhead : (data.take 8).length = 8 := List.length_take_of_le (by omega)
    have hvector : (Vector.ofFn fun i : Fin 8 => (crypt.salsa20Crypt lib data).getD i 0) =
        Vector.ofFn fun i : Fin 8 => data.getD i 0 := by
      refine congrArg Vector.ofFn (funext fun i => ?_)
      rw [hcrypt, List.getD_append _ _ _ _ (by omega), List.getD_eq_getElem?_getD,
        List.getElem?_take_of_lt i.2, List.getD_eq_getElem?_getD]
    rw [salsa20Crypt, if_neg (by omega), hvector, ← hstream, hcrypt, List.take_left' hhead,
      List.drop_left' hhead, List.mapIdx_mapIdx]
    have hcancel : (fun i byte => byte ^^^ stream i ^^^ stream i) = fun (_ : ℕ) byte => byte :=
      funext fun i => funext fun byte => xor_xor_cancel byte (stream i)
    simp only [Function.comp_def, hcancel]
    rw [List.mapIdx_eq_zipIdx_map]
    simp

/-- The table keeps the length. -/
theorem length_xorCrypt (data : Bytes) : (crypt.xorCrypt data).length = data.length := by
  rw [xorCrypt]
  by_cases hempty : crypt.xorTable = []
  · rw [if_pos hempty]
  · rw [if_neg hempty]
    simp only [List.length_append, List.length_zipWith, List.length_take, List.length_drop]
    omega

/-- Adding the table twice gives the bytes back. -/
theorem xorCrypt_xorCrypt (data : Bytes) : crypt.xorCrypt (crypt.xorCrypt data) = data := by
  have hlength := @length_xorCrypt crypt data
  by_cases hempty : crypt.xorTable = []
  · simp only [xorCrypt, if_pos hempty]
  · set count := min data.length crypt.xorTable.length with hcount
    have hcrypt : crypt.xorCrypt data = CipherFeedback.mix (· ^^^ ·) (data.take count)
        (crypt.xorTable.take count) ++ data.drop count := by
      rw [xorCrypt, if_neg hempty]
      rfl
    have hle : (data.take count).length ≤ (crypt.xorTable.take count).length := by
      rw [List.length_take, List.length_take]
      omega
    have hmix : (CipherFeedback.mix (· ^^^ ·) (data.take count)
        (crypt.xorTable.take count)).length = count := by
      rw [CipherFeedback.length_mix hle, List.length_take]
      omega
    rw [xorCrypt, if_neg hempty]
    dsimp only
    rw [hlength, ← hcount, hcrypt, List.take_left' hmix, List.drop_left' hmix]
    have hcancel := @CipherFeedback.mix_mix _ (· ^^^ ·) xor_xor_cancel _ _ hle
    rw [CipherFeedback.mix] at hcancel
    rw [hcancel, List.take_append_drop]

/-- Every method keeps the length. -/
theorem length_cryptBytes (encrypting : Bool) (bytes : Bytes) :
    (crypt.cryptBytes lib encrypting bytes).length = bytes.length := by
  rw [cryptBytes]
  cases crypt.method with
  | block => exact length_blockCfbCrypt bytes encrypting
  | salsa20 => exact length_salsa20Crypt bytes
  | xorStream => exact length_xorCrypt bytes
  | _ => rfl

/-- **The two directions of a method undo each other.** -/
theorem cryptBytes_cryptBytes (encrypting : Bool) (bytes : Bytes) :
    crypt.cryptBytes lib (!encrypting) (crypt.cryptBytes lib encrypting bytes) = bytes := by
  simp only [cryptBytes]
  cases crypt.method with
  | block => exact blockCfbCrypt_blockCfbCrypt bytes encrypting
  | salsa20 => exact salsa20Crypt_salsa20Crypt bytes
  | xorStream => exact xorCrypt_xorCrypt bytes
  | _ => rfl

/-! ### Reading what was written -/

/-- The packet behind its header: the nonce and the checksum. -/
def withHeader (nonce : Vector UInt8 16) (packet : Bytes) : Bytes :=
  nonce.toList ++ writeLe32 (crc32Ieee packet) ++ packet

theorem length_header (nonce : Vector UInt8 16) (packet : Bytes) :
    (nonce.toList ++ writeLe32 (crc32Ieee packet)).length = cryptHeaderSize := by
  rw [List.length_append, Vector.length_toList, length_writeLe32]
  rfl

theorem length_withHeader (nonce : Vector UInt8 16) (packet : Bytes) :
    (withHeader nonce packet).length = cryptHeaderSize + packet.length := by
  rw [withHeader, List.length_append, length_header]

/-- What a method with a header writes. -/
theorem encrypt_eq (hnull : crypt.method ≠ .null) (hgcm : crypt.method ≠ .aesGcm)
    (nonce : Vector UInt8 16) (packet : Bytes) :
    crypt.encrypt lib nonce packet = .ok (crypt.cryptBytes lib true (withHeader nonce packet)) := by
  rw [encrypt, if_neg hnull, if_neg hgcm]
  rfl

/-- What was written reads as the packet. -/
theorem decrypt_written (hnull : crypt.method ≠ .null) (hgcm : crypt.method ≠ .aesGcm)
    (nonce : Vector UInt8 16) (packet : Bytes) :
    crypt.decrypt lib (crypt.cryptBytes lib true (withHeader nonce packet)) = some packet := by
  have hheader := length_header nonce packet
  have hlong : ¬ (crypt.cryptBytes lib true (withHeader nonce packet)).length <
      cryptHeaderSize := by
    rw [length_cryptBytes, length_withHeader]
    omega
  have hback : crypt.cryptBytes lib false (crypt.cryptBytes lib true (withHeader nonce packet)) =
      withHeader nonce packet := cryptBytes_cryptBytes true _
  have hcrc : readLe32 ((withHeader nonce packet).drop nonceSize) = crc32Ieee packet := by
    have hnonce : nonce.toList.length = nonceSize := Vector.length_toList
    rw [withHeader, List.append_assoc, List.drop_left' hnonce, readLe32_writeLe32]
  have hpayload : (withHeader nonce packet).drop cryptHeaderSize = packet :=
    List.drop_left' hheader
  rw [decrypt, if_neg hnull, if_neg hgcm, if_neg hlong, hback]
  dsimp only
  rw [hcrc, hpayload, if_neg (not_not.mpr rfl)]

/-- What reads as a packet was written for it, with the nonce it starts with. -/
theorem exists_nonce (hnull : crypt.method ≠ .null) (hgcm : crypt.method ≠ .aesGcm)
    {datagram packet : Bytes} (h : crypt.decrypt lib datagram = some packet) :
    ∃ nonce, crypt.encrypt lib nonce packet = .ok datagram := by
  rw [decrypt, if_neg hnull, if_neg hgcm] at h
  by_cases hshort : datagram.length < cryptHeaderSize
  · rw [if_pos hshort] at h
    cases h
  rw [if_neg hshort] at h
  dsimp only at h
  set decoded := crypt.cryptBytes lib false datagram with hdecoded
  have hlength : decoded.length = datagram.length := length_cryptBytes false datagram
  have hsizes : nonceSize = 16 ∧ cryptHeaderSize = 20 := ⟨rfl, rfl⟩
  by_cases hcrc : crc32Ieee (decoded.drop cryptHeaderSize) = readLe32 (decoded.drop nonceSize)
  · rw [if_neg (not_not.mpr hcrc)] at h
    obtain rfl := Option.some.inj h
    have hnonce : (decoded.take nonceSize).length = 16 := List.length_take_of_le (by omega)
    refine ⟨⟨(decoded.take nonceSize).toArray, hnonce⟩, ?_⟩
    have hchecksum : writeLe32 (crc32Ieee (decoded.drop cryptHeaderSize)) =
        (decoded.drop nonceSize).take 4 := by
      rw [hcrc]
      exact writeLe32_readLe32 (by rw [List.length_drop]; omega)
    have hrest : (decoded.drop nonceSize).drop 4 = decoded.drop cryptHeaderSize :=
      List.drop_drop ..
    have hwhole : withHeader ⟨(decoded.take nonceSize).toArray, hnonce⟩
        (decoded.drop cryptHeaderSize) = decoded := by
      rw [withHeader, hchecksum, Vector.toList_mk, List.toList_toArray, List.append_assoc, ← hrest,
        List.take_append_drop, List.take_append_drop]
    rw [encrypt_eq hnull hgcm, hwhole, hdecoded]
    exact congrArg Except.ok (cryptBytes_cryptBytes false datagram)
  · rw [if_pos hcrc] at h
    cases h

/-- **Reading accepts exactly what is written.** For every method with a header: a datagram
reads as a packet if and only if some nonce makes the packet into that datagram. So reading
undoes writing for every packet, and everything else is rejected. -/
theorem decrypt_eq_some_iff (lib : CryptoLib) (crypt : PacketCrypt) (hnull : crypt.method ≠ .null)
    (hgcm : crypt.method ≠ .aesGcm) :
    (∀ q p : Bytes, crypt.decrypt lib q = some p ↔
      ∃ nonce, crypt.encrypt lib nonce p = .ok q) ∧
    (∀ nonce p, ∃ q, crypt.encrypt lib nonce p = .ok q ∧ crypt.decrypt lib q = some p) ∧
    ∀ q, (∀ nonce p, crypt.encrypt lib nonce p ≠ .ok q) → crypt.decrypt lib q = none := by
  have hencrypt := @encrypt_eq lib _ hnull hgcm
  have hread := @decrypt_written lib _ hnull hgcm
  refine ⟨fun q p => ⟨exists_nonce hnull hgcm, fun ⟨nonce, hnonce⟩ => ?_⟩,
    fun nonce p => ⟨_, hencrypt nonce p, hread nonce p⟩, fun q hq => ?_⟩
  · obtain rfl := Except.ok.inj ((hencrypt nonce p).symm.trans hnonce)
    exact hread nonce p
  · cases hdecrypt : crypt.decrypt lib q with
    | none => rfl
    | some p =>
        obtain ⟨nonce, hnonce⟩ := exists_nonce hnull hgcm hdecrypt
        exact absurd hnonce (hq nonce p)

/-- Stand-ins for a tunnel with a block cipher, which calls none of these functions. -/
def withoutLibrary : CryptoLib where
  pbkdf2Sha1 _ _ _ size := Vector.replicate size 0
  makeBlockCipher _ _ := none
  salsa20 _ _ _ := 0
  gcmEncrypt _ _ packet := (Vector.replicate packet.length 0, Vector.replicate 16 0)
  gcmDecrypt _ _ _ _ := none

/-- A cipher of block size 8 whose last block is not full: a packet of three bytes is read
back, and nineteen bytes are rejected. -/
theorem three_bytes_read_back :
    ∃ crypt : PacketCrypt, crypt.method = .block ∧
      (∃ q, crypt.encrypt withoutLibrary (Vector.replicate 16 7) [1, 2, 3] = .ok q ∧
        crypt.decrypt withoutLibrary q = some [1, 2, 3]) ∧
      ∀ p, crypt.decrypt withoutLibrary (List.replicate 19 0) ≠ some p := by
  let crypt : PacketCrypt :=
    { method := .block, block := some ⟨⟨8, fun block => (block.map (· + 1)).reverse⟩, .inl rfl⟩ }
  obtain ⟨hiff, hread, -⟩ := decrypt_eq_some_iff withoutLibrary crypt (by decide) (by decide)
  refine ⟨crypt, rfl, hread (Vector.replicate 16 7) [1, 2, 3], fun p hp => ?_⟩
  obtain ⟨nonce, hnonce⟩ := (hiff _ p).mp hp
  rw [encrypt_eq (by decide) (by decide)] at hnonce
  have hlength := congrArg List.length (Except.ok.inj hnonce)
  rw [length_cryptBytes, length_withHeader, List.length_replicate] at hlength
  exact absurd hlength (by simp only [cryptHeaderSize]; omega)

/-! ### The constructor does not throw -/

/-- A cipher that takes keys of the size that is cut off the derived key. -/
theorem selectBlock_ok (hlib : lib.Lawful) (derivedKey : Vector UInt8 32) {keySize : ℕ}
    {cipher : BlockCipher} (hsize : (if keySize = 0 then 32 else keySize) ≤ 32)
    (hkey : cipher.takesKey (if keySize = 0 then 32 else keySize)) :
    ∃ crypt, selectBlock lib derivedKey keySize cipher = .ok crypt := by
  have hlength : ((cipherKeyOf derivedKey (if keySize = 0 then 32 else keySize)).toList.take
      (if keySize = 0 then 32 else keySize)).length = if keySize = 0 then 32 else keySize := by
    rw [List.length_take, Vector.length_toList]
    omega
  obtain ⟨block, hblock, hblockSize⟩ := hlib cipher _ (hlength ▸ hkey)
  have hsupported : block.blockSize = 8 ∨ block.blockSize = 16 := by
    rw [hblockSize]
    cases cipher <;> decide
  simp only [selectBlock, hblock]
  exact ⟨_, dif_pos hsupported⟩

/-- **The constructor succeeds**, whatever the method and the key. -/
theorem create_ok (hlib : lib.Lawful) (config : BaseConfig) :
    ∃ crypt, create lib config = .ok crypt := by
  have hmethod : ∃ crypt, selectMethod lib (deriveKey lib config.key)
      (normalizeMethod config.crypt) = .ok crypt := by
    rw [selectMethod.eq_def]
    split <;> first
      | exact ⟨_, rfl⟩
      | exact selectBlock_ok hlib _ (by decide) (by decide)
  obtain ⟨crypt, hcrypt⟩ := hmethod
  exact ⟨crypt, by rw [create, hcrypt]⟩

/-! ### The size of a datagram -/

/-- **A datagram is longer than its packet by the overhead**, with every method. -/
theorem length_encrypt {nonce : Vector UInt8 16} {packet datagram : Bytes}
    (h : crypt.encrypt lib nonce packet = .ok datagram) :
    datagram.length = packet.length + crypt.overhead := by
  by_cases hnull : crypt.method = .null
  · rw [encrypt, if_pos hnull] at h
    obtain rfl := Except.ok.inj h
    rw [overhead, if_pos hnull, Nat.add_zero]
  by_cases hgcm : crypt.method = .aesGcm
  · rw [encrypt, if_neg hnull, if_pos hgcm, aesGcmEncrypt] at h
    rw [overhead, if_neg hnull, if_pos hgcm]
    by_cases hlarge : packet.length > 2147483647
    · rw [if_pos hlarge] at h
      cases h
    · rw [if_neg hlarge] at h
      obtain rfl := Except.ok.inj h
      simp only [List.length_append, List.length_take, Vector.length_toList]
      simp only [aesGcmNonceSize, aesGcmTagSize]
      omega
  · obtain rfl := Except.ok.inj ((encrypt_eq hnull hgcm nonce packet).symm.trans h)
    rw [overhead, if_neg hnull, if_neg hgcm, length_cryptBytes, length_withHeader,
      Nat.add_comm]

end PacketCrypt

end Shimakaze
