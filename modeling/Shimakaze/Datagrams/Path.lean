import Shimakaze.KcpTransport
import Shimakaze.Fec.Delivery
import Shimakaze.Lib.LossyNetwork

/-!
# From One Transport to the Other

Two transports of a tunnel, one on each side, exchange datagrams over a network that loses,
repeats and reorders them. What the KCP of one side outputs is encoded, encrypted, perhaps held
back by the rate limiter, and sent; what arrives is decrypted as the receive handlers do,
decoded, and given to the KCP of the other side. A handler may also drop a datagram, but that
is a loss like any other.

Decoding tells groups apart by numbers that wrap around, so it relies on the network not to
deliver a datagram that is too old: `InReach` is what the erasure code needs, and without it
there is no condition.

## Main results

* `PacketCrypt.decrypt_encrypt`: every method reads back what it wrote.
* `KcpTransport.Queued.encryptAndEnqueue`: the socket gets what is enqueued, in order.
* `Encodes.encode`: the packets that are made for an output.
-/

namespace Shimakaze

/-! ### Reading back -/

/-- What the library documents about AES-GCM: a ciphertext with its tag decrypts. -/
def CryptoLib.Opens (lib : CryptoLib) : Prop :=
  ∀ key nonce packet : Bytes,
    (lib.gcmDecrypt key nonce (lib.gcmEncrypt key nonce packet).1.toList
      (lib.gcmEncrypt key nonce packet).2.toList).map Vector.toList = some packet

namespace PacketCrypt

variable {lib : CryptoLib} {crypt : PacketCrypt}

/-- The nonce, the ciphertext and the tag lie one after the other. -/
theorem aesGcmDecrypt_aesGcmEncrypt (hlib : lib.Opens) {nonce packet datagram : Bytes}
    (hnonce : nonce.length = aesGcmNonceSize)
    (h : crypt.aesGcmEncrypt lib nonce packet = .ok datagram) :
    crypt.aesGcmDecrypt lib datagram = some packet := by
  rw [aesGcmEncrypt] at h
  split_ifs at h
  obtain rfl := Except.ok.inj h
  have hopens := hlib (crypt.cipherKey.toList.take crypt.cipherKeySize) nonce packet
  have htag : (lib.gcmEncrypt (crypt.cipherKey.toList.take crypt.cipherKeySize) nonce
      packet).2.toList.length = aesGcmTagSize := Vector.length_toList
  generalize (lib.gcmEncrypt (crypt.cipherKey.toList.take crypt.cipherKeySize) nonce
    packet).1.toList = payload at hopens ⊢
  generalize (lib.gcmEncrypt (crypt.cipherKey.toList.take crypt.cipherKeySize) nonce
    packet).2.toList = tag at hopens htag ⊢
  have hlength : (nonce ++ payload ++ tag).length =
      aesGcmNonceSize + payload.length + aesGcmTagSize := by
    rw [List.length_append, List.length_append, hnonce, htag]
  have hsize : (nonce ++ payload ++ tag).length - aesGcmNonceSize - aesGcmTagSize =
      payload.length := by omega
  rw [aesGcmDecrypt, if_neg (by omega)]
  dsimp only
  rw [hsize, List.append_assoc, List.take_left' hnonce, List.drop_left' hnonce,
    List.take_left' rfl, ← List.drop_drop, List.drop_left' hnonce, List.drop_left' rfl]
  exact hopens

/-- **Every method reads back what it wrote.** -/
theorem decrypt_encrypt (hlib : lib.Opens) {nonce : Vector UInt8 16} {packet datagram : Bytes}
    (h : crypt.encrypt lib nonce packet = .ok datagram) :
    crypt.decrypt lib datagram = some packet := by
  by_cases hnull : crypt.method = .null
  · rw [encrypt, if_pos hnull] at h
    rw [decrypt, if_pos hnull, Except.ok.inj h]
  by_cases hgcm : crypt.method = .aesGcm
  · rw [encrypt, if_neg hnull, if_pos hgcm] at h
    rw [decrypt, if_neg hnull, if_pos hgcm]
    exact aesGcmDecrypt_aesGcmEncrypt hlib (by simp [aesGcmNonceSize]) h
  · rw [encrypt_eq hnull hgcm] at h
    rw [← Except.ok.inj h]
    exact decrypt_written hnull hgcm nonce packet

/-- The constructor looks at the method and the key only. -/
theorem create_congr {config config' : BaseConfig} (hcrypt : config'.crypt = config.crypt)
    (hkey : config'.key = config.key) : create lib config' = create lib config := by
  rw [create, create, hcrypt, hkey]

end PacketCrypt

/-! ### The two ends -/

/-- A transport in a run with its peer. -/
structure PathEnd where
  progress : KcpTransport.Progress
  /-- For each datagram enqueued, the number of the output it was made for, and its place among
  the datagrams made for it. -/
  origins : List (ℕ × ℕ) := []
  /-- The datagrams of the peer that the transport took in, by their places on the socket. -/
  heard : List ℕ := []
  /-- The packets given to `ikcp_input`. -/
  given : List Bytes := []

namespace PathEnd

variable (lib : CryptoLib) (e : PathEnd)

/-- What happens at one end but for arrivals. -/
def act (event : KcpTransport.Event) : Option PathEnd :=
  match event with
  | .input _ => none
  | event =>
      (KcpTransport.step lib e.progress event).map fun progress =>
        { e with
          progress
          origins := e.origins ++
            (List.range (progress.enqueued.length - e.progress.enqueued.length)).map
              fun i => (e.progress.encoded.length, i) }

/-- A datagram of the peer arrives. An exception out of `decode` leaves no state to go on
from. -/
def recv (k : ℕ) (datagram : Bytes) : Option PathEnd :=
  match e.progress.transport.crypt.decrypt lib datagram with
  | none => some e
  | some decoded =>
      if e.progress.transport.closing then some e
      else
        match e.progress.transport.input decoded with
        | .error _ => none
        | .ok (packets, transport) =>
            some { e with
              progress := { e.progress with transport }
              heard := e.heard ++ [k]
              given := e.given ++ packets }

end PathEnd

/-- The two ends and the network between them. -/
def datagramPath (lib : CryptoLib) : LossyLink PathEnd Bytes KcpTransport.Event where
  act _ e event := e.act lib event
  recv _ e k datagram := e.recv lib k datagram
  posted e := e.progress.transport.socket

/-- The group of the erasure code that a datagram was sent in. -/
def PathEnd.groupOf (e : PathEnd) (k : ℕ) : ℕ :=
  ((e.origins[k]?.map Prod.fst).getD 0) / e.progress.transport.fec.dataShards

/-- The highest group that some datagrams of a sender were sent in. -/
def PathEnd.highest (e : PathEnd) (heard : List ℕ) : ℕ :=
  heard.foldl (fun highest k => max highest (e.groupOf k)) 0

/-- A datagram that is not too old, nor too new, for what has arrived before it. -/
def InReach (sender receiver : PathEnd) (k : ℕ) : Prop :=
  sender.progress.transport.fec.enabled = true →
    sender.groupOf k ≤ sender.highest receiver.heard +
        2 ^ 28 / sender.progress.transport.fec.shardSize ∧
      sender.highest receiver.heard ≤ sender.groupOf k +
        2 ^ 28 / sender.progress.transport.fec.shardSize

/-! ### The queue of a transport -/

namespace KcpTransport

/-- What was enqueued is on the socket, or waits behind it in order. -/
structure Queued (transport : KcpTransport) (enqueued : List Bytes) : Prop where
  queue : transport.socket ++ transport.pendingUdp = enqueued
  unpaced : transport.config.ratelimit ≤ 0 → transport.pendingUdp = []

variable {lib : CryptoLib} {transport : KcpTransport} {enqueued : List Bytes}

/-- A function that leaves the queue alone. -/
theorem Queued.of_same (h : Queued transport enqueued) {after : KcpTransport}
    (hconfig : after.config = transport.config) (hsocket : after.socket = transport.socket)
    (hpending : after.pendingUdp = transport.pendingUdp) : Queued after enqueued :=
  ⟨by rw [hsocket, hpending, h.queue], by rw [hconfig, hpending]; exact h.unpaced⟩

theorem Queued.schedule (h : Queued transport enqueued) (now : ℕ) :
    Queued (transport.scheduleRateLimitedSend now) enqueued := by
  rw [scheduleRateLimitedSend]
  split
  · exact h
  · exact h.of_same rfl rfl rfl

theorem Queued.enqueue (h : Queued transport enqueued) (payload : Bytes) (now : ℕ) :
    Queued (transport.enqueueUdpPacket payload now) (enqueued ++ [payload]) := by
  rw [enqueueUdpPacket]
  split_ifs with hunpaced
  · refine ⟨?_, h.unpaced⟩
    have hqueue := h.queue
    rw [h.unpaced hunpaced, List.append_nil] at hqueue
    dsimp only
    rw [h.unpaced hunpaced, List.append_nil, hqueue]
  · apply Queued.schedule
    refine ⟨?_, fun habsurd => absurd habsurd hunpaced⟩
    dsimp only
    rw [← List.append_assoc, h.queue]

/-- The rate timer moves a datagram from the queue to the socket. -/
theorem Queued.rateTimerFired (h : Queued transport enqueued) (error : Bool)
    (sentAt rescheduledAt : ℕ) :
    Queued (transport.rateTimerFired error sentAt rescheduledAt) enqueued := by
  rw [KcpTransport.rateTimerFired]
  dsimp only
  split_ifs
  · exact h.of_same rfl rfl rfl
  · cases hpending : transport.pendingUdp with
    | nil => exact h.of_same rfl rfl hpending.symm
    | cons payload pending =>
        apply Queued.schedule
        refine ⟨?_, fun hunpaced => ?_⟩
        · rw [← h.queue, hpending]
          exact List.append_assoc _ _ _
        · have habsurd := h.unpaced hunpaced
          rw [hpending] at habsurd
          cases habsurd

/-- The loop enqueues the encryptions of the first packets, in order. -/
theorem Queued.encryptAndEnqueue (h : Queued transport enqueued) (now : ℕ)
    (packets : List (Bytes × Vector UInt8 16)) :
    Queued (encryptAndEnqueue lib now packets transport).2
      (enqueued ++ (encryptAndEnqueue lib now packets transport).1) ∧
    ∀ (i : ℕ) (datagram : Bytes),
      (encryptAndEnqueue lib now packets transport).1[i]? = some datagram →
      ∃ packet nonce, packets[i]? = some (packet, nonce) ∧
        transport.crypt.encrypt lib nonce packet = .ok datagram := by
  induction packets generalizing transport enqueued with
  | nil =>
      rw [KcpTransport.encryptAndEnqueue, List.append_nil]
      exact ⟨h, fun i datagram hi => absurd hi (by simp)⟩
  | cons packet packets ih =>
      obtain ⟨packet, nonce⟩ := packet
      rw [KcpTransport.encryptAndEnqueue]
      cases hencrypt : transport.crypt.encrypt lib nonce packet with
      | error message =>
          refine ⟨?_, fun i datagram hi => absurd hi (by simp)⟩
          rw [List.append_nil]
          exact h.of_same rfl rfl rfl
      | ok payload =>
          obtain ⟨hqueued, hmade⟩ := ih (h.enqueue payload now)
          refine ⟨by rwa [List.append_assoc] at hqueued, fun i datagram hi => ?_⟩
          cases i with
          | zero =>
              obtain rfl := Option.some.inj hi
              exact ⟨_, _, rfl, hencrypt⟩
          | succ i =>
              obtain ⟨made, nonce, hmade, hdatagram⟩ := hmade i datagram hi
              rw [(@enqueueUdpPacket_frame transport payload now).1] at hdatagram
              exact ⟨made, nonce, hmade, hdatagram⟩

end KcpTransport

/-! ### What the datagrams carry -/

/-- The place in its group of packet `i` among those made for output `t`. -/
def placeOf (d t i : ℕ) : ℕ := if i = 0 then t % d else d + (i - 1)

/-- Packet `i` among those made for output `t`: the output itself, or with the erasure code a
packet of its group. -/
def Made (codec : FecCodec) (packets : ℕ → Bytes) (t i : ℕ) (packet : Bytes) : Prop :=
  if codec.enabled then
    packet = packetAt codec.dataShards codec.parityShards codec.rs packets (t / codec.dataShards)
      (placeOf codec.dataShards t i) ∧
    FecCodec.Sent codec.dataShards codec.parityShards (t + 1) (t / codec.dataShards)
      (placeOf codec.dataShards t i) ∧
    (i ≠ 0 → t % codec.dataShards + 1 = codec.dataShards)
  else packet = packets t

/-- The encoder after the outputs before `t`, if there is one. -/
def Encodes (codec : FecCodec) (packets : ℕ → Bytes) (t : ℕ) (encoder : FecCodec) : Prop :=
  encoder.enabled = codec.enabled ∧
    (codec.enabled = true →
      encoder.rs = codec.rs ∧
        FecCodec.EncoderInv codec.dataShards codec.parityShards packets t encoder)

/-- **One output**: the packets made for it. -/
theorem Encodes.encode {codec encoder : FecCodec} {packets : ℕ → Bytes} {t : ℕ}
    (h : Encodes codec packets t encoder) (currentMillis : UInt32) :
    Encodes codec packets (t + 1) (encoder.encode (packets t) currentMillis).2 ∧
    ∀ (i : ℕ) (packet : Bytes), (encoder.encode (packets t) currentMillis).1[i]? = some packet →
      Made codec packets t i packet := by
  obtain ⟨hsame, hencoder⟩ := h
  rw [Encodes, FecCodec.encode_enabled, and_iff_right hsame]
  by_cases henabled : codec.enabled = true
  · obtain ⟨hrs, hinv⟩ := hencoder henabled
    obtain ⟨parity, after, hencode, hafter, hafterRs, hparity⟩ :=
      FecCodec.encode_spec hinv currentMillis
    have hdpos := hinv.ready.data_pos
    have hsplit : t / codec.dataShards * codec.dataShards + t % codec.dataShards = t :=
      Nat.div_add_mod' _ _
    have hlt : t % codec.dataShards < codec.dataShards := Nat.mod_lt _ hdpos
    rw [hrs] at hencode hparity
    rw [hencode]
    refine ⟨fun _ => ⟨hafterRs.trans hrs, hafter⟩, fun i packet hi => ?_⟩
    rw [Made, if_pos henabled]
    cases i with
    | zero =>
        obtain rfl := Option.some.inj hi
        refine ⟨rfl, ⟨?_, fun _ => ?_, fun hge => ?_⟩, fun habsurd => absurd rfl habsurd⟩
        · rw [placeOf, if_pos rfl]
          omega
        · rw [placeOf, if_pos rfl]
          exact hsplit.trans_lt (Nat.lt_succ_self t)
        · rw [placeOf, if_pos rfl] at hge
          omega
    | succ i =>
        rcases hparity with rfl | ⟨hlast, rfl⟩
        · exact absurd hi (by simp)
        · rw [List.getElem?_cons_succ, List.getElem?_map] at hi
          obtain ⟨j, hj, rfl⟩ := Option.map_eq_some_iff.mp hi
          obtain ⟨hi', rfl⟩ := List.getElem?_eq_some_iff.mp hj
          rw [List.length_range] at hi'
          rw [List.getElem_range, placeOf, if_neg (Nat.succ_ne_zero i), Nat.add_sub_cancel]
          refine ⟨rfl, ⟨by omega, fun habsurd => by omega, fun _ => ?_⟩, fun _ => hlast⟩
          rw [Nat.add_mul]
          omega
  · rw [FecCodec.encode, if_neg (by rw [hsame]; exact henabled)]
    refine ⟨fun habsurd => absurd habsurd henabled, fun i packet hi => ?_⟩
    rw [Made, if_neg henabled]
    exact (List.mem_singleton.mp (List.mem_of_getElem? hi))

end Shimakaze
