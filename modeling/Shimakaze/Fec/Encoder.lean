import Shimakaze.Fec.Groups
import Shimakaze.Lib.Transducer

/-!
# What the Encoder Sends

Packet `t` handed to the encoder is data packet `t % d` of group `t / d`. This module says
what the packets on the wire are in these terms, for a whole run of calls: a header with the
group and the place in the group, followed by the shard, which is the packet behind a size
field for the data and a row of the codeword of the padded data for the parity.

## Main results

* `FecCodec.create_spec`: an enabled configuration gives a codec ready for its group size.
* `FecCodec.encode_spec`: what one call sends and how it leaves the encoder.
* `FecCodec.encodeAll_spec`: what the calls of a run send.
-/

namespace Shimakaze

/-! ### A codec that is ready -/

namespace FecCodec

/-- A codec set up for `d` data and `p` parity shards. -/
structure Ready (codec : FecCodec) (d p : ℕ) : Prop where
  enabled_eq : codec.enabled = true
  data_eq : codec.dataShards = d
  parity_eq : codec.parityShards = p
  size_eq : codec.shardSize = d + p
  paws_eq : codec.paws.toNat = groupCount (d + p) * (d + p)
  rs_valid : codec.rs.Valid d p
  data_pos : 0 < d
  parity_pos : 0 < p
  size_le : d + p ≤ 256

/-- The parts of a codec that no operation changes. -/
theorem Ready.of_same {codec codec' : FecCodec} {d p : ℕ} (h : codec.Ready d p)
    (henabled : codec'.enabled = codec.enabled) (hdata : codec'.dataShards = codec.dataShards)
    (hparity : codec'.parityShards = codec.parityShards)
    (hsize : codec'.shardSize = codec.shardSize) (hpaws : codec'.paws = codec.paws)
    (hrs : codec'.rs = codec.rs) : codec'.Ready d p where
  enabled_eq := henabled.trans h.enabled_eq
  data_eq := hdata.trans h.data_eq
  parity_eq := hparity.trans h.parity_eq
  size_eq := hsize.trans h.size_eq
  paws_eq := hpaws ▸ h.paws_eq
  rs_valid := hrs ▸ h.rs_valid
  data_pos := h.data_pos
  parity_pos := h.parity_pos
  size_le := h.size_le

/-- A codec nothing has been done with. -/
structure Fresh (codec : FecCodec) : Prop where
  seq_eq : codec.nextSeq = 0
  count_eq : codec.shardCount = 0
  maxLen_eq : codec.maxShardLen = 0
  newest_eq : codec.newestShardId = 0
  shards_eq : codec.encodeShards = List.replicate codec.dataShards []
  sets_eq : codec.decodeSets = []

/-- **Setting up the codec** of an enabled configuration does not fail. -/
theorem create_spec {config : BaseConfig} {d p : ℕ} (hd : config.datashard.toInt = d)
    (hp : config.parityshard.toInt = p) (hdpos : 0 < d) (hppos : 0 < p) (hsum : d + p ≤ 256) :
    ∃ codec, create config = .ok codec ∧ codec.Ready d p ∧ codec.Fresh := by
  have hsumInt : (config.datashard + config.parityshard).toInt = d + p := by
    rw [Int32.toInt_add, hd, hp]
    exact Int.bmod_eq_of_le (by omega) (by omega)
  have henabled : 0 < config.datashard ∧ 0 < config.parityshard ∧
      config.datashard + config.parityshard ≤ 256 := by
    have hzero : (0 : Int32).toInt = 0 := rfl
    have hlimit : (256 : Int32).toInt = 256 := rfl
    rw [Int32.lt_iff_toInt_lt, Int32.lt_iff_toInt_lt, Int32.le_iff_toInt_le, hsumInt, hd, hp,
      hzero, hlimit]
    omega
  obtain ⟨rs, hrs, hvalid⟩ := ReedSolomon.create_spec hdpos hsum
  have hmade : ReedSolomon.ofShards config.datashard config.parityshard = .ok rs := by
    rw [ReedSolomon.ofShards, if_neg (by omega), hd, hp, Int.toNat_natCast, Int.toNat_natCast, hrs]
  have hsize : (config.datashard + config.parityshard).toInt.toNat = d + p := by
    rw [hsumInt]
    omega
  refine ⟨{ dataShards := d, parityShards := p, shardSize := d + p, enabled := true, rs := rs
            paws := 0xffffffff / UInt32.ofNat (d + p) * UInt32.ofNat (d + p)
            encodeShards := List.replicate d [] }, ?_, ?_, ?_⟩
  · rw [create, if_pos henabled, hd, hp, Int.toNat_natCast, Int.toNat_natCast, hmade, hsize]
    rfl
  · exact ⟨rfl, rfl, rfl, rfl, toNat_paws (by omega) hsum, hvalid, hdpos, hppos, hsum⟩
  · exact ⟨rfl, rfl, rfl, rfl, rfl, rfl⟩

/-- A codec that was just made has not seen a packet. -/
theorem create_unused {config : BaseConfig} {codec : FecCodec} (h : create config = .ok codec) :
    codec.latestPacketMs = 0 ∧ codec.maxShardLen = 0 := by
  rw [create] at h
  split at h
  · cases hrs : ReedSolomon.ofShards config.datashard config.parityshard with
    | error message =>
        rw [hrs] at h
        cases h
    | ok rs =>
        rw [hrs] at h
        obtain rfl := Except.ok.inj h
        exact ⟨rfl, rfl⟩
  · obtain rfl := Except.ok.inj h
    exact ⟨rfl, rfl⟩

/-- **The constructor succeeds** on shard counts that sum to at most 256, and a codec that it
enables is ready. -/
theorem create_ok {config : BaseConfig} (hd : 0 ≤ config.datashard.toInt)
    (hp : 0 ≤ config.parityshard.toInt)
    (hsum : config.datashard.toInt + config.parityshard.toInt ≤ 256) :
    ∃ codec, create config = .ok codec ∧ (codec.enabled = true → ∃ d p, codec.Ready d p) := by
  by_cases hshards : 0 < config.datashard.toInt ∧ 0 < config.parityshard.toInt
  · obtain ⟨codec, hcreate, hready, -⟩ := create_spec
      (Int.toNat_of_nonneg hd).symm (Int.toNat_of_nonneg hp).symm (by omega) (by omega) (by omega)
    exact ⟨codec, hcreate, fun _ => ⟨_, _, hready⟩⟩
  · have hdisabled : ¬ (0 < config.datashard ∧ 0 < config.parityshard ∧
        config.datashard + config.parityshard ≤ 256) := by
      rw [Int32.lt_iff_toInt_lt, Int32.lt_iff_toInt_lt]
      exact fun h => hshards ⟨h.1, h.2.1⟩
    rw [create, if_neg hdisabled]
    exact ⟨_, rfl, fun henabled => absurd henabled (by simp)⟩

/-- **The constructor throws** where the sum of the shards wraps around: the negative number
passes for an enabled group size. -/
theorem create_of_wrapped {config : BaseConfig} (hd : 0 < config.datashard.toInt)
    (hp : 0 < config.parityshard.toInt)
    (hwraps : 2 ^ 31 ≤ config.datashard.toInt + config.parityshard.toInt) :
    ∃ message, create config = .error message := by
  have hnegative : (config.datashard + config.parityshard).toInt < 0 := by
    have hdlt := config.datashard.toInt_lt
    have hplt := config.parityshard.toInt_lt
    rw [Int32.toInt_add, Int.bmod]
    omega
  have henabled : 0 < config.datashard ∧ 0 < config.parityshard ∧
      config.datashard + config.parityshard ≤ 256 := by
    have hzero : (0 : Int32).toInt = 0 := rfl
    have hlimit : (256 : Int32).toInt = 256 := rfl
    rw [Int32.lt_iff_toInt_lt, Int32.lt_iff_toInt_lt, Int32.le_iff_toInt_le, hzero, hlimit]
    omega
  rw [create, if_pos henabled, ReedSolomon.ofShards, if_pos hnegative]
  exact ⟨_, rfl⟩

/-- A codec that was just made is ready for its shards, if it is enabled. -/
theorem create_ready {config : BaseConfig} {codec : FecCodec}
    (hdata : 0 ≤ config.datashard.toInt)
    (hparity : 0 ≤ config.parityshard.toInt)
    (hsum : config.datashard.toInt + config.parityshard.toInt ≤ 256)
    (hcreate : create config = .ok codec) (henabled : codec.enabled = true) :
    codec.Ready codec.dataShards codec.parityShards ∧ codec.Fresh := by
  have hpos : 0 < config.datashard.toInt ∧ 0 < config.parityshard.toInt := by
    by_contra hnone
    rw [create, if_neg (by
      rw [Int32.lt_iff_toInt_lt, Int32.lt_iff_toInt_lt]
      exact fun h => hnone ⟨h.1, h.2.1⟩)] at hcreate
    obtain rfl := Except.ok.inj hcreate
    exact absurd henabled (by simp)
  obtain ⟨made, hmade, hready, hfresh⟩ := create_spec
    (Int.toNat_of_nonneg hdata).symm (Int.toNat_of_nonneg hparity).symm (by omega) (by omega)
    (by omega)
  obtain rfl := Except.ok.inj (hcreate.symm.trans hmade)
  rw [hready.data_eq, hready.parity_eq]
  exact ⟨hready, hfresh⟩

end FecCodec

/-! ### The packets of a group -/

section Packets

variable (d p : ℕ) (rs : ReedSolomon) (packets : ℕ → Bytes)

/-- The shard of a packet: its size, with the size field counted in, and its bytes. -/
def dataShardOf (packet : Bytes) : Bytes :=
  writeLe16 (UInt16.ofNat (packet.length + 2)) ++ packet

/-- Data shard `k` of group `g`. -/
def dataShardAt (g k : ℕ) : Bytes := dataShardOf (packets (g * d + k))

/-- The length of the longest of the first `n` data shards of group `g`. -/
def longest (g n : ℕ) : ℕ :=
  (List.range n).foldl (fun len k => max len (dataShardAt d packets g k).length) 0

/-- The data shards of group `g`, padded to one length. -/
def paddedData (g : ℕ) : List Bytes :=
  (List.range d).map fun k => resize (dataShardAt d packets g k) (longest d packets g d)

/-- All shards of group `g`, padded to one length. -/
def groupCodeword (g : ℕ) : List Bytes :=
  paddedData d packets g ++ rs.encode (paddedData d packets g)
    (List.replicate p (List.replicate (longest d packets g d) 0))

/-- Shard `k` of group `g` as it is sent. -/
def shardAt (g k : ℕ) : Bytes :=
  if k < d then dataShardAt d packets g k else (groupCodeword d p rs packets g).getD k []

/-- Packet `k` of group `g`. -/
def packetAt (g k : ℕ) : Bytes :=
  writeLe32 (seqAt (d + p) (g * (d + p) + k)) ++
    writeLe16 (if k < d then fecTypeData else fecTypeParity) ++ shardAt d p rs packets g k

end Packets

/-! ### One call -/

namespace FecCodec

variable {d p : ℕ} {packets : ℕ → Bytes} {codec : FecCodec}

/-- The encoder after the first `t` packets. -/
structure EncoderInv (d p : ℕ) (packets : ℕ → Bytes) (t : ℕ) (codec : FecCodec) : Prop where
  ready : codec.Ready d p
  count_eq : codec.shardCount = t % d
  seq_eq : codec.nextSeq = seqAt (d + p) (t / d * (d + p) + t % d)
  length_eq : codec.encodeShards.length = d
  shards_eq : ∀ k < t % d, codec.encodeShards.getD k [] = dataShardAt d packets (t / d) k
  maxLen_eq : codec.maxShardLen = longest d packets (t / d) (t % d)

/-- A fresh encoder. -/
theorem EncoderInv.init (h : codec.Ready d p) (hfresh : codec.Fresh) :
    EncoderInv d p packets 0 codec where
  ready := h
  count_eq := hfresh.count_eq.trans (Nat.zero_mod d).symm
  seq_eq := by
    have hpos := h.data_pos
    rw [hfresh.seq_eq, ← UInt32.toNat_inj, toNat_seqAt (by omega) h.size_le]
    simp
  length_eq := by rw [hfresh.shards_eq, List.length_replicate, h.data_eq]
  shards_eq k hk := absurd hk (by simp)
  maxLen_eq := by rw [hfresh.maxLen_eq]; simp [longest]

/-- The invariant is about the encoder's part of the codec. -/
theorem EncoderInv.of_same {t : ℕ} (h : EncoderInv d p packets t codec) {codec' : FecCodec}
    (hready : codec'.Ready d p) (hcount : codec'.shardCount = codec.shardCount)
    (hseq : codec'.nextSeq = codec.nextSeq) (hshards : codec'.encodeShards = codec.encodeShards)
    (hmaxLen : codec'.maxShardLen = codec.maxShardLen) : EncoderInv d p packets t codec' where
  ready := hready
  count_eq := hcount.trans h.count_eq
  seq_eq := hseq.trans h.seq_eq
  length_eq := hshards ▸ h.length_eq
  shards_eq := hshards ▸ h.shards_eq
  maxLen_eq := hmaxLen.trans h.maxLen_eq

/-- Sealing writes the header in place of the first six bytes and counts on. -/
theorem sealPacket_eq (h : codec.Ready d p) {n : ℕ} (hseq : codec.nextSeq = seqAt (d + p) n)
    (hroom : n % (d + p) + 1 ≤ d + p) (body : Bytes) (type : UInt16) :
    codec.sealPacket (List.replicate fecHeaderSize 0 ++ body) type =
      (writeLe32 (seqAt (d + p) n) ++ writeLe16 type ++ body,
        { codec with nextSeq := seqAt (d + p) (n + 1) }) := by
  have hpos := h.data_pos
  have hcount : (seqAt (d + p) n + 1) % codec.paws = seqAt (d + p) (n + 1) :=
    seqAt_add (by omega) h.size_le h.paws_eq n 1 hroom
  rw [sealPacket, hseq, hcount, List.drop_left' List.length_replicate]

/-- The parity packets carry consecutive numbers. -/
theorem sealParity_eq (h : codec.Ready d p) {n : ℕ} (hseq : codec.nextSeq = seqAt (d + p) n)
    (shards : List Bytes) (hroom : n % (d + p) + shards.length ≤ d + p) :
    codec.sealParity shards =
      ((List.range shards.length).map fun j =>
          writeLe32 (seqAt (d + p) (n + j)) ++ writeLe16 fecTypeParity ++ shards.getD j [],
        { codec with nextSeq := seqAt (d + p) (n + shards.length) }) := by
  induction shards generalizing codec n with
  | nil => simp [sealParity, ← hseq]
  | cons shard shards ih =>
      rw [List.length_cons] at hroom
      have hnext : (n + 1) % (d + p) ≤ n % (d + p) + 1 := by
        rw [Nat.add_mod_eq_add_mod_right 1 (Nat.mod_mod n (d + p)).symm]
        exact Nat.mod_le _ _
      have hready : Ready { codec with nextSeq := seqAt (d + p) (n + 1) } d p :=
        h.of_same rfl rfl rfl rfl rfl rfl
      have hrest := ih hready (n := n + 1) rfl (by omega)
      rw [sealParity, sealPacket_eq h hseq (by omega)]
      simp only
      rw [hrest, List.length_cons, List.range_succ_eq_map, List.map_cons, List.map_map]
      refine Prod.ext (congrArg₂ List.cons rfl (List.map_congr_left fun j _ => ?_)) ?_
      · simp only [Function.comp_apply, List.getD_cons_succ]
        rw [show n + 1 + j = n + (j + 1) by omega]
      · rw [show n + 1 + shards.length = n + (shards.length + 1) by omega]

/-- A parity shard is a row of the codeword behind the data. -/
theorem shardAt_parity {rs : ReedSolomon} (g j : ℕ) :
    shardAt d p rs packets g (d + j) =
      (rs.encode (paddedData d packets g)
        (List.replicate p (List.replicate (longest d packets g d) 0))).getD j [] := by
  rw [shardAt, if_neg (by omega), groupCodeword, List.getD_append_right _ _ _ _
    (by simp [paddedData])]
  simp [paddedData]

/-- **The end of a group**: its parity packets or none, and on to the next group. -/
theorem finishGroup_spec (h : codec.Ready d p) {g : ℕ} (now : ℤ)
    (hseq : codec.nextSeq = seqAt (d + p) (g * (d + p) + d))
    (hshards : codec.encodeShards = (List.range d).map (dataShardAt d packets g))
    (hmax : codec.maxShardLen = longest d packets g d) :
    ∃ parity codec', codec.finishGroup now = (parity, codec') ∧
      (parity = [] ∨ parity = (List.range p).map fun j => packetAt d p codec.rs packets g (d + j)) ∧
      codec'.nextSeq = seqAt (d + p) ((g + 1) * (d + p)) ∧ codec'.Ready d p ∧
      codec'.rs = codec.rs ∧ codec'.encodeShards.length = d := by
  have hdpos := h.data_pos
  have hppos := h.parity_pos
  have hend : g * (d + p) + d + p = (g + 1) * (d + p) := by ring
  have hmod : (g * (d + p) + d) % (d + p) = d := Nat.mul_add_mod_of_lt (by omega)
  by_cases hrecent : codec.latestPacketMs ≠ 0 ∧ now - codec.latestPacketMs < maxFecEncodeLatencyMs
  · have hpadded : codec.encodeShards.map (fun item => resize item codec.maxShardLen) =
        paddedData d packets g := by
      rw [hshards, hmax, paddedData, List.map_map]
      rfl
    have hready : Ready { codec with encodeShards := paddedData d packets g } d p :=
      h.of_same rfl rfl rfl rfl rfl rfl
    obtain ⟨parity, hparity⟩ : ∃ parity, parity = codec.rs.encode (paddedData d packets g)
      (List.replicate p (List.replicate (longest d packets g d) 0)) := ⟨_, rfl⟩
    have hlength : parity.length = p := by
      rw [hparity, codec.rs.encode_eq _ _ (by rw [List.length_replicate, h.rs_valid.parity_eq]),
        List.length_map, List.length_range, h.rs_valid.parity_eq]
    have hsealed := sealParity_eq hready hseq parity (by rw [hmod, hlength])
    have hpackets : ((List.range parity.length).map fun j =>
        writeLe32 (seqAt (d + p) (g * (d + p) + d + j)) ++ writeLe16 fecTypeParity ++
          parity.getD j []) =
        (List.range p).map fun j => packetAt d p codec.rs packets g (d + j) := by
      rw [hlength]
      refine List.map_congr_left fun j _ => ?_
      rw [packetAt, shardAt_parity, ← hparity, if_neg (by omega), Nat.add_assoc]
    refine ⟨_, { codec with
      encodeShards := paddedData d packets g
      nextSeq := seqAt (d + p) ((g + 1) * (d + p)) }, ?_, .inr rfl, rfl,
      h.of_same rfl rfl rfl rfl rfl rfl, rfl, by simp [paddedData]⟩
    have hcoded : codec.rs.encode (paddedData d packets g)
        (List.replicate codec.parityShards (List.replicate codec.maxShardLen 0)) = parity := by
      rw [h.parity_eq, hmax, hparity]
    rw [finishGroup, if_pos hrecent]
    simp only [hpadded, hcoded]
    rw [hsealed, hpackets, hlength, hend]
  · refine ⟨[], codec.skipParity, by rw [finishGroup, if_neg hrecent], .inl rfl, ?_,
      h.of_same rfl rfl rfl rfl rfl rfl, rfl, by simp [skipParity, hshards]⟩
    have hskip : (UInt32.ofNat p).toNat = p := by
      rw [UInt32.toNat_ofNat']
      exact Nat.mod_eq_of_lt (by have := h.size_le; omega)
    have hcount := seqAt_add (by omega) h.size_le h.paws_eq (g * (d + p) + d)
      (UInt32.ofNat p) (by rw [hmod, hskip])
    rw [hskip, hend] at hcount
    rw [skipParity, hseq, h.parity_eq, hcount]

/-- The packet of a data shard. -/
theorem packetAt_data (rs : ReedSolomon) (g : ℕ) {k : ℕ} (hk : k < d) :
    packetAt d p rs packets g k = writeLe32 (seqAt (d + p) (g * (d + p) + k)) ++
      writeLe16 fecTypeData ++ dataShardAt d packets g k := by
  rw [packetAt, shardAt, if_pos hk, if_pos hk]

theorem longest_succ (g k : ℕ) : longest d packets g (k + 1) =
    max (longest d packets g k) (dataShardAt d packets g k).length := by
  rw [longest, List.range_succ, List.foldl_append]
  rfl

/-- The shards of the group with the one of the next packet put in. -/
theorem EncoderInv.getD_set {t : ℕ} (h : EncoderInv d p packets t codec) :
    ∀ k < t % d + 1, (codec.encodeShards.set codec.shardCount
      (dataShardAt d packets (t / d) (t % d))).getD k [] = dataShardAt d packets (t / d) k := by
  intro k hk
  have hlt := Nat.mod_lt t h.ready.data_pos
  rw [h.count_eq]
  rcases Nat.lt_succ_iff_lt_or_eq.mp hk with hk | rfl
  · rw [← h.shards_eq k hk, List.getD_eq_getElem?_getD, List.getElem?_set_ne (by omega),
      List.getD_eq_getElem?_getD]
  · have hroom : t % d < codec.encodeShards.length := h.length_eq ▸ hlt
    rw [List.getD_eq_getElem _ _ (by rwa [List.length_set]), List.getElem_set_self]

/-- **One call** sends packet `t % d` of group `t / d`, and at the end of the group its parity
packets or none. -/
theorem encode_spec {t : ℕ} (h : EncoderInv d p packets t codec) (currentMillis : UInt32) :
    ∃ parity codec', codec.encode (packets t) currentMillis =
        (packetAt d p codec.rs packets (t / d) (t % d) :: parity, codec') ∧
      EncoderInv d p packets (t + 1) codec' ∧ codec'.rs = codec.rs ∧
      (parity = [] ∨ t % d + 1 = d ∧
        parity = (List.range p).map fun j => packetAt d p codec.rs packets (t / d) (d + j)) := by
  have hready := h.ready
  have hdpos := hready.data_pos
  have hlt := Nat.mod_lt t hdpos
  have hsplit : t / d * d + t % d = t := Nat.div_add_mod' t d
  have hmod : (t / d * (d + p) + t % d) % (d + p) = t % d := Nat.mul_add_mod_of_lt (by omega)
  have hsealed := sealPacket_eq hready h.seq_eq (by omega)
    (writeLe16 (UInt16.ofNat ((packets t).length + 2)) ++ packets t) fecTypeData
  have hshard : writeLe16 (UInt16.ofNat ((packets t).length + 2)) ++ packets t =
      dataShardAt d packets (t / d) (t % d) := by
    rw [dataShardAt, hsplit, dataShardOf]
  have hpacket := @packetAt_data d p packets codec.rs (t / d) (t % d) hlt
  rw [hshard, ← hpacket] at hsealed
  have hdrop : (packetAt d p codec.rs packets (t / d) (t % d)).drop fecHeaderSize =
      dataShardAt d packets (t / d) (t % d) := by
    rw [hpacket]
    exact List.drop_left' rfl
  rw [encode, if_pos hready.enabled_eq, List.append_assoc, hshard, hsealed]
  simp only [hdrop]
  have hget := h.getD_set
  have hsetLength : (codec.encodeShards.set codec.shardCount
      (dataShardAt d packets (t / d) (t % d))).length = d := by
    rw [List.length_set, h.length_eq]
  have hmax : max codec.maxShardLen (dataShardAt d packets (t / d) (t % d)).length =
      longest d packets (t / d) (t % d + 1) := by
    rw [longest_succ, h.maxLen_eq]
  by_cases hend : t % d + 1 = d
  · have hsucc : (t + 1) / d = t / d + 1 ∧ (t + 1) % d = 0 :=
      (Nat.div_mod_unique hdpos).mpr ⟨by rw [Nat.mul_comm, Nat.add_mul]; omega, hdpos⟩
    have hfull : codec.shardCount + 1 = codec.dataShards := by
      rw [h.count_eq, hready.data_eq, hend]
    have hall : codec.encodeShards.set codec.shardCount
        (dataShardAt d packets (t / d) (t % d)) =
          (List.range d).map (dataShardAt d packets (t / d)) := by
      refine List.ext_getElem (by simpa using hsetLength) fun k hk hk' => ?_
      rw [← List.getD_eq_getElem _ [] hk, hget k (by omega), List.getElem_map, List.getElem_range]
    have hready' : Ready { codec with
        nextSeq := seqAt (d + p) (t / d * (d + p) + t % d + 1)
        maxShardLen := max codec.maxShardLen (dataShardAt d packets (t / d) (t % d)).length
        encodeShards := codec.encodeShards.set codec.shardCount
          (dataShardAt d packets (t / d) (t % d))
        shardCount := codec.shardCount + 1 } d p := hready.of_same rfl rfl rfl rfl rfl rfl
    obtain ⟨parity, after, hfinish, hparity, hseq, hafter, hrs, hlength⟩ :=
      finishGroup_spec hready' (currentMillis.toNat : ℤ) (by rw [Nat.add_assoc, hend]) hall
        (by rw [hmax, hend])
    rw [if_pos hfull, hfinish]
    refine ⟨parity, _, rfl, ?_, hrs, hparity.imp_right fun h => ⟨hend, h⟩⟩
    exact {
      ready := hafter.of_same rfl rfl rfl rfl rfl rfl
      count_eq := hsucc.2.symm
      seq_eq := by rw [hsucc.1, hsucc.2]; exact hseq
      length_eq := hlength
      shards_eq := fun k hk => absurd hk (by rw [hsucc.2]; omega)
      maxLen_eq := by rw [hsucc.2]; rfl }
  · have hsucc : (t + 1) / d = t / d ∧ (t + 1) % d = t % d + 1 :=
      (Nat.div_mod_unique hdpos).mpr ⟨by rw [Nat.mul_comm]; omega, by omega⟩
    have hfull : ¬ codec.shardCount + 1 = codec.dataShards := by
      rw [h.count_eq, hready.data_eq]
      exact hend
    rw [if_neg hfull]
    refine ⟨[], _, rfl, ?_, rfl, .inl rfl⟩
    exact {
      ready := hready.of_same rfl rfl rfl rfl rfl rfl
      count_eq := by rw [hsucc.2, h.count_eq]
      seq_eq := by rw [hsucc.1, hsucc.2, Nat.add_assoc]
      length_eq := hsetLength
      shards_eq := by rw [hsucc.1, hsucc.2]; exact hget
      maxLen_eq := by rw [hsucc.1, hsucc.2]; exact hmax }

/-! ### A run of calls -/

end FecCodec

/-- A call of `encode`: the packet, and the reading of the clock it takes. -/
structure EncodeCall where
  packet : Bytes
  currentMillis : UInt32

namespace FecCodec

variable {d p : ℕ} {codec : FecCodec}

/-- One call of a run. -/
def encodeCall (codec : FecCodec) (call : EncodeCall) : List Bytes × FecCodec :=
  codec.encode call.packet call.currentMillis

/-- The packets each call of a run sends. -/
def encodeAll (codec : FecCodec) (calls : List EncodeCall) : List (List Bytes) :=
  (Transducer.run encodeCall codec calls).1

/-- The packets handed to the calls of a run, by their number. -/
def packetsOf (calls : List EncodeCall) (t : ℕ) : Bytes := (calls.map EncodeCall.packet).getD t []

/-- A run from the packet `t` on. -/
theorem run_spec {packets : ℕ → Bytes} :
    ∀ (calls : List EncodeCall) {t : ℕ} {codec : FecCodec}, EncoderInv d p packets t codec →
      (∀ i, i < calls.length → packetsOf calls i = packets (t + i)) →
      ∀ i < calls.length, ∃ parity,
        (codec.encodeAll calls)[i]? =
          some (packetAt d p codec.rs packets ((t + i) / d) ((t + i) % d) :: parity) ∧
        (parity = [] ∨ (t + i) % d + 1 = d ∧ parity = (List.range p).map fun j =>
          packetAt d p codec.rs packets ((t + i) / d) (d + j)) := by
  intro calls
  induction calls with
  | nil => exact fun _ _ i hi => absurd hi (Nat.not_lt_zero i)
  | cons call calls ih =>
      intro t codec h hcalls i hi
      have hfirst : call.packet = packets t := hcalls 0 (Nat.succ_pos _)
      obtain ⟨parity, after, hencode, hafter, hrs, hparity⟩ := encode_spec h call.currentMillis
      have hstep : encodeCall codec call =
          (packetAt d p codec.rs packets (t / d) (t % d) :: parity, after) := by
        rw [encodeCall, hfirst, hencode]
      have hrun : codec.encodeAll (call :: calls) =
          (packetAt d p codec.rs packets (t / d) (t % d) :: parity) :: after.encodeAll calls := by
        rw [encodeAll, Transducer.run_cons, hstep]
        rfl
      rw [hrun]
      match i with
      | 0 => exact ⟨parity, rfl, hparity⟩
      | i + 1 =>
          have hrest := ih hafter (fun j hj => by
            have hnext := hcalls (j + 1) (Nat.succ_lt_succ hj)
            rw [Nat.add_right_comm, Nat.add_assoc, ← hnext]
            rfl) i (Nat.lt_of_succ_lt_succ hi)
          rw [hrs, show t + 1 + i = t + (i + 1) by omega] at hrest
          simpa using hrest

/-- **What the calls of a run send**: call `t` sends packet `t % d` of group `t / d`, and the
last call of a group may send the parity packets of the group behind it. -/
theorem encodeAll_spec (h : codec.Ready d p) (hfresh : codec.Fresh) (calls : List EncodeCall)
    {t : ℕ} (ht : t < calls.length) :
    ∃ parity, (codec.encodeAll calls)[t]? =
        some (packetAt d p codec.rs (packetsOf calls) (t / d) (t % d) :: parity) ∧
      (parity = [] ∨ t % d + 1 = d ∧ parity = (List.range p).map fun j =>
        packetAt d p codec.rs (packetsOf calls) (t / d) (d + j)) := by
  have hinit : EncoderInv d p (packetsOf calls) 0 codec := .init h hfresh
  have hrun := run_spec calls hinit (fun i _ => by rw [Nat.zero_add]) t ht
  simpa only [Nat.zero_add] using hrun

end FecCodec

end Shimakaze
