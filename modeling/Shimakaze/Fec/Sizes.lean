import Shimakaze.Fec.Decoder

/-!
# Packet Sizes of the Erasure-Coding Layer

A data packet is longer than what it carries by the whole header, a parity packet by the
header without the size field, but its shard counts that field in. With the running maximum
bounded, both stay within `overhead()` of the longest packet that was encoded.

## Main results

* `FecCodec.encode_sizes`: the sizes of what one call sends, and the bound it keeps.
* `FecCodec.exists_encoded`: the packet itself is among what is sent, with its headers.
* `FecCodec.decode_frame`: decoding leaves the encoder as it is.
-/

namespace Shimakaze

/-! ### Parity shards keep their length -/

theorem length_accumulate (coefficient : UInt8) (out shard : Bytes) :
    (accumulate coefficient out shard).length = out.length := by
  induction out generalizing shard with
  | nil => cases shard <;> rfl
  | cons o out ih =>
      cases shard with
      | nil => rfl
      | cons s shard => exact congrArg (· + 1) (ih shard)

theorem length_accumulateRow (row : List UInt8) (shards : ℕ → Bytes) (count : ℕ) (out : Bytes) :
    (accumulateRow row shards count out).length = out.length := by
  rw [accumulateRow]
  induction List.range count generalizing out with
  | nil => rfl
  | cons r rest ih =>
      rw [List.foldl_cons, ih]
      by_cases hzero : row.getD r 0 = 0
      · rw [if_pos hzero]
      · rw [if_neg hzero, length_accumulate]

/-- Coding fills the parity shards and keeps their length. -/
theorem ReedSolomon.length_of_mem_encode (rs : ReedSolomon) (data parity : List Bytes) {len : ℕ}
    (h : ∀ shard ∈ parity, shard.length = len) :
    ∀ shard ∈ rs.encode data parity, shard.length = len := by
  rw [ReedSolomon.encode]
  induction List.range rs.parityShards generalizing parity with
  | nil => exact h
  | cons p rest ih =>
      rw [List.foldl_cons]
      refine ih _ fun shard hshard => ?_
      by_cases hp : p < parity.length
      · rcases List.mem_or_eq_of_mem_set hshard with hshard | rfl
        · exact h shard hshard
        · rw [length_accumulateRow, List.length_map, List.getD_eq_getElem _ _ hp]
          exact h _ (List.getElem_mem hp)
      · rw [List.set_eq_of_length_le (not_lt.mp hp)] at hshard
        exact h shard hshard

namespace FecCodec

variable {codec : FecCodec}

/-- `FecCodec::overhead`. -/
def overhead (codec : FecCodec) : ℕ := if codec.enabled then fecHeaderSizePlusSize else 0

/-! ### What encoding sends -/

theorem length_sealPacket (codec : FecCodec) (body : Bytes) (type : UInt16) :
    (codec.sealPacket (List.replicate fecHeaderSize 0 ++ body) type).1.length =
      fecHeaderSize + body.length := by
  simp only [sealPacket, List.drop_left' List.length_replicate, List.length_append,
    length_writeLe32, length_writeLe16]
  rfl

/-- Sealing the parity packets counts on and changes nothing else; each is as long as its shard
and the header. -/
theorem sealParity_sizes (codec : FecCodec) {shards : List Bytes} {len : ℕ}
    (h : ∀ shard ∈ shards, shard.length = len) :
    (codec.sealParity shards).2 =
      { codec with nextSeq := (codec.sealParity shards).2.nextSeq } ∧
    ∀ packet ∈ (codec.sealParity shards).1, packet.length = fecHeaderSize + len := by
  induction shards generalizing codec with
  | nil => exact ⟨rfl, fun packet hpacket => absurd hpacket List.not_mem_nil⟩
  | cons shard shards ih =>
      obtain ⟨hframe, hsizes⟩ :=
        ih (codec.sealPacket (List.replicate fecHeaderSize 0 ++ shard) fecTypeParity).2
          fun s hs => h s (List.mem_cons_of_mem _ hs)
      refine ⟨?_, fun packet hpacket => ?_⟩
      · rw [sealParity]
        dsimp only
        rw [hframe]
        rfl
      · rw [sealParity] at hpacket
        rcases List.mem_cons.mp hpacket with rfl | hpacket
        · rw [length_sealPacket, h shard List.mem_cons_self]
        · exact hsizes packet hpacket

/-- The end of a group: the size of the parity packets, and what is left as it is. -/
theorem finishGroup_sizes (codec : FecCodec) (now : ℤ) :
    (codec.finishGroup now).2 =
      { codec with
        nextSeq := (codec.finishGroup now).2.nextSeq
        encodeShards := (codec.finishGroup now).2.encodeShards } ∧
    ∀ packet ∈ (codec.finishGroup now).1, packet.length = fecHeaderSize + codec.maxShardLen := by
  rw [finishGroup]
  by_cases hrecent : codec.latestPacketMs ≠ 0 ∧ now - codec.latestPacketMs < maxFecEncodeLatencyMs
  · rw [if_pos hrecent]
    dsimp only
    obtain ⟨hframe, hsizes⟩ := sealParity_sizes
      { codec with
        encodeShards := codec.encodeShards.map fun item => resize item codec.maxShardLen }
      (@ReedSolomon.length_of_mem_encode codec.rs
        (codec.encodeShards.map fun item => resize item codec.maxShardLen)
        (List.replicate codec.parityShards (List.replicate codec.maxShardLen 0))
        codec.maxShardLen fun shard hshard => by
          rw [List.eq_of_mem_replicate hshard, List.length_replicate])
    refine ⟨?_, hsizes⟩
    rw [hframe]
  · rw [if_neg hrecent]
    exact ⟨rfl, fun packet hpacket => absurd hpacket List.not_mem_nil⟩

/-- **One call of the encoder**: it leaves the decoder as it is, keeps a bound on the running
maximum, and sends nothing longer than that bound allows. -/
theorem encode_sizes (codec : FecCodec) {packet : Bytes} {bound : ℕ} (currentMillis : UInt32)
    (hpacket : packet.length ≤ bound) (hmax : codec.maxShardLen ≤ bound + 2) :
    (codec.encode packet currentMillis).2 =
      { codec with
        nextSeq := (codec.encode packet currentMillis).2.nextSeq
        shardCount := (codec.encode packet currentMillis).2.shardCount
        maxShardLen := (codec.encode packet currentMillis).2.maxShardLen
        latestPacketMs := (codec.encode packet currentMillis).2.latestPacketMs
        encodeShards := (codec.encode packet currentMillis).2.encodeShards } ∧
    (codec.encode packet currentMillis).2.maxShardLen ≤ bound + 2 ∧
    ∀ sent ∈ (codec.encode packet currentMillis).1, sent.length ≤ bound + codec.overhead := by
  rw [overhead, encode]
  by_cases henabled : codec.enabled = true
  · rw [if_pos henabled, if_pos henabled, List.append_assoc]
    dsimp only
    set sealed := codec.sealPacket (List.replicate fecHeaderSize 0 ++
      (writeLe16 (UInt16.ofNat (packet.length + 2)) ++ packet)) fecTypeData with hsealed
    have hsizes : fecHeaderSize = 6 ∧ fecHeaderSizePlusSize = 8 := ⟨rfl, rfl⟩
    have hdata : sealed.1.length = fecHeaderSize + (packet.length + 2) := by
      rw [hsealed, length_sealPacket, List.length_append, length_writeLe16]
      omega
    have hframe : sealed.2 = { codec with nextSeq := sealed.2.nextSeq } := rfl
    have hmax' : max sealed.2.maxShardLen (sealed.1.drop fecHeaderSize).length ≤ bound + 2 := by
      rw [hframe, List.length_drop, hdata]
      dsimp only
      omega
    by_cases hfull : sealed.2.shardCount + 1 = sealed.2.dataShards
    · rw [if_pos hfull]
      dsimp only
      set filled : FecCodec := { sealed.2 with
        maxShardLen := max sealed.2.maxShardLen (sealed.1.drop fecHeaderSize).length
        encodeShards := sealed.2.encodeShards.set sealed.2.shardCount
          (sealed.1.drop fecHeaderSize)
        shardCount := sealed.2.shardCount + 1 } with hfilled
      obtain ⟨hgroup, hparity⟩ := finishGroup_sizes filled currentMillis.toNat
      refine ⟨?_, Nat.zero_le _, fun sent hsent => ?_⟩
      · rw [hgroup]
        rfl
      · rcases List.mem_cons.mp hsent with rfl | hsent
        · omega
        · have hlength := hparity sent hsent
          have hbound : filled.maxShardLen ≤ bound + 2 := hmax'
          omega
    · rw [if_neg hfull]
      refine ⟨rfl, hmax', fun sent hsent => ?_⟩
      obtain rfl := List.mem_singleton.mp hsent
      omega
  · rw [if_neg henabled, if_neg henabled]
    refine ⟨rfl, hmax, fun sent hsent => ?_⟩
    obtain rfl := List.mem_singleton.mp hsent
    omega

/-- Encoding leaves the decoder as it is. -/
theorem encode_frame (codec : FecCodec) (packet : Bytes) (currentMillis : UInt32) :
    (codec.encode packet currentMillis).2 =
      { codec with
        nextSeq := (codec.encode packet currentMillis).2.nextSeq
        shardCount := (codec.encode packet currentMillis).2.shardCount
        maxShardLen := (codec.encode packet currentMillis).2.maxShardLen
        latestPacketMs := (codec.encode packet currentMillis).2.latestPacketMs
        encodeShards := (codec.encode packet currentMillis).2.encodeShards } :=
  (codec.encode_sizes currentMillis (le_max_left packet.length codec.maxShardLen)
    (le_trans (le_max_right ..) (Nat.le_add_right _ 2))).1

/-- Encoding leaves the layer enabled or disabled. -/
theorem encode_enabled (codec : FecCodec) (packet : Bytes) (currentMillis : UInt32) :
    (codec.encode packet currentMillis).2.enabled = codec.enabled :=
  (congrArg FecCodec.enabled (codec.encode_frame packet currentMillis)).trans rfl

/-- The overhead depends on whether the layer is enabled only. -/
theorem overhead_congr {codec codec' : FecCodec} (h : codec.enabled = codec'.enabled) :
    codec.overhead = codec'.overhead := by
  rw [overhead, overhead, h]

/-- The first packet that a call sends is the one it was given, with its headers. -/
theorem exists_encoded (codec : FecCodec) (packet : Bytes) (currentMillis : UInt32) :
    ∃ sent ∈ (codec.encode packet currentMillis).1,
      sent.length = packet.length + codec.overhead := by
  rw [overhead, encode]
  by_cases henabled : codec.enabled = true
  · rw [if_pos henabled, if_pos henabled, List.append_assoc]
    dsimp only
    set sealed := codec.sealPacket (List.replicate fecHeaderSize 0 ++
      (writeLe16 (UInt16.ofNat (packet.length + 2)) ++ packet)) fecTypeData with hsealed
    have hsizes : fecHeaderSize = 6 ∧ fecHeaderSizePlusSize = 8 := ⟨rfl, rfl⟩
    have hdata : sealed.1.length = packet.length + fecHeaderSizePlusSize := by
      rw [hsealed, length_sealPacket, List.length_append, length_writeLe16]
      omega
    by_cases hfull : sealed.2.shardCount + 1 = sealed.2.dataShards
    · rw [if_pos hfull]
      exact ⟨sealed.1, List.mem_cons_self, hdata⟩
    · rw [if_neg hfull]
      exact ⟨sealed.1, List.mem_cons_self, hdata⟩
  · rw [if_neg henabled, if_neg henabled]
    exact ⟨packet, List.mem_singleton_self packet, rfl⟩

/-! ### What decoding leaves alone -/

/-- Adding a shard changes the table of sets only. -/
theorem addShard_frame {shardId : UInt32} {index : ℕ} {packet : Bytes} {isData : Bool}
    {out : List Bytes} {after : FecCodec}
    (h : codec.addShard shardId index packet isData = .ok (out, after)) :
    after = { codec with decodeSets := after.decodeSets } := by
  rw [addShard] at h
  by_cases hfull : codec.dataShards ≤ ((codec.shardSet shardId).insert index
      (packet.drop fecHeaderSize) isData).present.count true
  · simp only [if_pos hfull] at h
    cases hrecover : codec.recover ((codec.shardSet shardId).insert index
        (packet.drop fecHeaderSize) isData) with
    | error message =>
        rw [hrecover] at h
        cases h
    | ok recovered =>
        rw [hrecover] at h
        obtain ⟨-, rfl⟩ := Prod.mk.inj (Except.ok.inj h)
        rfl
  · simp only [if_neg hfull] at h
    obtain ⟨-, rfl⟩ := Prod.mk.inj (Except.ok.inj h)
    rfl

/-- Collecting a packet changes the decoder's tables only. -/
theorem collect_frame {packet : Bytes} {out : List Bytes} {after : FecCodec}
    (h : codec.collect packet = .ok (out, after)) :
    after = { codec with
      newestShardId := after.newestShardId
      decodeSets := after.decodeSets } := by
  rw [collect] at h
  by_cases hrepeat : (codec.shardSet (packetSeq packet / codec.shardSize32)).present.getD
      (packetSeq packet % codec.shardSize32).toNat false = true
  · simp only [if_pos hrepeat] at h
    obtain ⟨-, rfl⟩ := Prod.mk.inj (Except.ok.inj h)
    rfl
  · simp only [if_neg hrepeat] at h
    cases hadd : codec.addShard (packetSeq packet / codec.shardSize32)
        (packetSeq packet % codec.shardSize32).toNat packet
        (packetFlag packet = fecTypeData) with
    | error message =>
        rw [hadd] at h
        cases h
    | ok added =>
        obtain ⟨payloads, codec'⟩ := added
        rw [hadd] at h
        obtain ⟨-, rfl⟩ := Prod.mk.inj (Except.ok.inj h)
        have hadded := addShard_frame hadd
        rw [(advance_spec codec' _).2, hadded]

/-- **Decoding leaves the encoder as it is.** -/
theorem decode_frame {packet : Bytes} {out : List Bytes} {after : FecCodec}
    (h : codec.decode packet = .ok (out, after)) :
    after = { codec with
      newestShardId := after.newestShardId
      decodeSets := after.decodeSets } := by
  rw [decode] at h
  by_cases hshort : ¬ codec.enabled ∨ packet.length < fecHeaderSizePlusSize
  · rw [if_pos hshort] at h
    obtain ⟨-, rfl⟩ := Prod.mk.inj (Except.ok.inj h)
    rfl
  rw [if_neg hshort] at h
  dsimp only at h
  by_cases hforeign : packetFlag packet ≠ fecTypeData ∧ packetFlag packet ≠ fecTypeParity ∧
      packetFlag packet ≠ fecTypeOob
  · rw [if_pos hforeign] at h
    obtain ⟨-, rfl⟩ := Prod.mk.inj (Except.ok.inj h)
    rfl
  rw [if_neg hforeign] at h
  by_cases hoob : packetFlag packet = fecTypeOob
  · rw [if_pos hoob] at h
    obtain ⟨-, rfl⟩ := Prod.mk.inj (Except.ok.inj h)
    rfl
  rw [if_neg hoob] at h
  by_cases hseq : codec.paws ≤ packetSeq packet
  · rw [if_pos hseq] at h
    obtain ⟨-, rfl⟩ := Prod.mk.inj (Except.ok.inj h)
    rfl
  rw [if_neg hseq] at h
  cases hcollect : codec.collect packet with
  | error message =>
      rw [hcollect] at h
      cases h
  | ok result =>
      obtain ⟨recovered, codec'⟩ := result
      rw [hcollect] at h
      obtain ⟨-, rfl⟩ := Prod.mk.inj (Except.ok.inj h)
      exact collect_frame hcollect

end FecCodec

end Shimakaze
