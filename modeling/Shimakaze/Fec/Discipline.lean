import Shimakaze.Fec.Decoder

/-!
# The Sequence Numbers of the Encoder

Two counters advance on different schedules: `shardCount` with every packet, back to zero at
the end of a group, and `nextSeq` with every packet sealed and with every skip of the parity,
back to zero at `paws`. A decoder reads the group and the place of a packet off its sequence
number, so the two have to stay aligned whatever the clock says, on runs of any length.

## Main results

* `FecCodec.run_encoderInv`: where the counters are after any calls.
* `FecCodec.sequence_discipline`: **the counters stay aligned, no addition wraps, every
  packet carries the number of its place, and a number comes back only after all groups.**
-/

namespace Shimakaze

namespace FecCodec

/-! ### The additions -/

/-- The operands of the addition in `seal_packet`. -/
def sealOperands (codec : FecCodec) : UInt32 × UInt32 := (codec.nextSeq, 1)

/-- The operands of the addition in `skip_parity`. -/
def skipOperands (codec : FecCodec) : UInt32 × UInt32 :=
  (codec.nextSeq, UInt32.ofNat codec.parityShards)

/-- The operands of the additions made while the parity packets are sealed. -/
def parityOperands (codec : FecCodec) : List Bytes → List (UInt32 × UInt32)
  | [] => []
  | shard :: shards =>
      codec.sealOperands ::
        (codec.sealPacket (List.replicate fecHeaderSize 0 ++ shard) fecTypeParity).2.parityOperands
          shards

/-- The operands of the additions at the end of a group. -/
def finishOperands (codec : FecCodec) (now : ℤ) : List (UInt32 × UInt32) :=
  if codec.latestPacketMs ≠ 0 ∧ now - codec.latestPacketMs < maxFecEncodeLatencyMs then
    let encodeShards := codec.encodeShards.map fun item => resize item codec.maxShardLen
    codec.parityOperands (codec.rs.encode encodeShards
      (List.replicate codec.parityShards (List.replicate codec.maxShardLen 0)))
  else [codec.skipOperands]

/-- The operands of the 32-bit additions of one call of `encode`. -/
def encodeOperands (codec : FecCodec) (call : EncodeCall) : List (UInt32 × UInt32) :=
  let (dataPacket, after) := codec.sealPacket (List.replicate fecHeaderSize 0 ++
    writeLe16 (UInt16.ofNat (call.packet.length + 2)) ++ call.packet) fecTypeData
  let shard := dataPacket.drop fecHeaderSize
  codec.sealOperands ::
    if codec.shardCount + 1 = codec.dataShards then
      { after with
        maxShardLen := max codec.maxShardLen shard.length
        encodeShards := codec.encodeShards.set codec.shardCount shard
        shardCount := codec.shardCount + 1 }.finishOperands call.currentMillis.toNat
    else []

/-! ### What the numbers say -/

/-- The group a packet says it belongs to. -/
def wireGroup (codec : FecCodec) (packet : Bytes) : ℕ :=
  (packetSeq packet).toNat / codec.shardSize

/-- The place in its group a packet says it has. -/
def wireIndex (codec : FecCodec) (packet : Bytes) : ℕ :=
  (packetSeq packet).toNat % codec.shardSize

/-- Packet `a` of those that call `i` of a run sends; packet 0 is the data packet. -/
def sentAt (codec : FecCodec) (calls : List EncodeCall) (i a : ℕ) : Option Bytes :=
  (codec.encodeAll calls)[i]?.bind fun sent => sent[a]?

/-- The counters between two calls. -/
structure Aligned (codec : FecCodec) : Prop where
  seq_lt : codec.nextSeq < codec.paws
  seq_mod : codec.nextSeq.toNat % codec.shardSize = codec.shardCount
  count_lt : codec.shardCount < codec.dataShards

/-- The numbers of the packets a run sends. -/
structure Numbered (codec : FecCodec) (calls : List EncodeCall) : Prop where
  data : ∀ i x, codec.sentAt calls i 0 = some x →
    packetFlag x = fecTypeData ∧ codec.wireIndex x = i % codec.dataShards ∧
      codec.wireIndex x < codec.dataShards
  parity : ∀ i a x, 0 < a → codec.sentAt calls i a = some x →
    packetFlag x = fecTypeParity ∧ codec.dataShards ≤ codec.wireIndex x
  group : ∀ i j a b x y, codec.sentAt calls i a = some x → codec.sentAt calls j b = some y →
    i / codec.dataShards = j / codec.dataShards → codec.wireGroup x = codec.wireGroup y
  /-- No group straddles the wrap. -/
  whole : ∀ i a x, codec.sentAt calls i a = some x →
    (codec.wireGroup x + 1) * codec.shardSize ≤ codec.paws.toNat
  /-- Between two packets of one number all groups are used. -/
  reuse : ∀ i j a b x y, i ≤ j → codec.sentAt calls i a = some x →
    codec.sentAt calls j b = some y → (i, a) ≠ (j, b) → packetSeq x = packetSeq y →
    ∀ m < codec.paws.toNat / codec.shardSize, ∃ t z, i / codec.dataShards ≤ t / codec.dataShards ∧
      t < j ∧ codec.sentAt calls t 0 = some z ∧ codec.wireGroup z = m

variable {codec : FecCodec} {d p : ℕ} {packets : ℕ → Bytes} {calls : List EncodeCall}

/-! ### The counters after any calls -/

/-- A run from packet `t` on keeps the encoder's invariant. -/
theorem run_encoderInv (calls : List EncodeCall) :
    ∀ {t : ℕ} {codec : FecCodec}, EncoderInv d p packets t codec →
      (∀ i, i < calls.length → packetsOf calls i = packets (t + i)) →
      EncoderInv d p packets (t + calls.length) (Transducer.run encodeCall codec calls).2 := by
  induction calls with
  | nil => exact fun h _ => h
  | cons call calls ih =>
      intro t codec h hcalls
      have hfirst : call.packet = packets t := hcalls 0 (Nat.succ_pos _)
      obtain ⟨parity, after, hencode, hafter, -, -⟩ := encode_spec h call.currentMillis
      have hstep : encodeCall codec call =
          (packetAt d p codec.rs packets (t / d) (t % d) :: parity, after) := by
        rw [encodeCall, hfirst, hencode]
      have hrest := ih hafter fun j hj => by
        have hnext := hcalls (j + 1) (Nat.succ_lt_succ hj)
        rw [Nat.add_right_comm, Nat.add_assoc, ← hnext]
        rfl
      rw [Transducer.run_cons, hstep, List.length_cons]
      rwa [Nat.add_assoc, Nat.add_comm 1] at hrest

/-- The invariant says that the counters are aligned. -/
theorem EncoderInv.aligned {t : ℕ} (h : EncoderInv d p packets t codec) : codec.Aligned := by
  have hready := h.ready
  have hdpos := hready.data_pos
  have hlt := Nat.mod_lt t hdpos
  refine ⟨?_, ?_, ?_⟩
  · rw [UInt32.lt_iff_toNat_lt, hready.paws_eq, h.seq_eq, toNat_seqAt (by omega) hready.size_le]
    exact Nat.mod_lt _ (wheel_pos (by omega) hready.size_le)
  · rw [h.seq_eq, toNat_seqAt (by omega) hready.size_le, hready.size_eq, Nat.mod_mul_left_mod,
      h.count_eq, Nat.mul_add_mod_of_lt (by omega)]
  · rw [h.count_eq, hready.data_eq]
    exact hlt

/-! ### No addition wraps -/

/-- Counting on within a group does not wrap. -/
theorem seqAt_add_lt (h : codec.Ready d p) {n step : ℕ} (hstep : n % (d + p) + step ≤ d + p) :
    (seqAt (d + p) n).toNat + step < 2 ^ 32 := by
  have hpos := h.data_pos
  rw [toNat_seqAt (by omega) h.size_le]
  exact (seqAt_room (by omega) h.size_le hstep).trans_lt (wheel_bounds (by omega)).1

theorem parityOperands_lt (h : codec.Ready d p) {n : ℕ} (hseq : codec.nextSeq = seqAt (d + p) n)
    (shards : List Bytes) (hroom : n % (d + p) + shards.length ≤ d + p) :
    ∀ o ∈ codec.parityOperands shards, o.1.toNat + o.2.toNat < 2 ^ 32 := by
  induction shards generalizing codec n with
  | nil => exact fun o ho => absurd ho List.not_mem_nil
  | cons shard shards ih =>
      rw [List.length_cons] at hroom
      have hnext : (n + 1) % (d + p) ≤ n % (d + p) + 1 := by
        rw [Nat.add_mod_eq_add_mod_right 1 (Nat.mod_mod n (d + p)).symm]
        exact Nat.mod_le _ _
      intro o ho
      rw [parityOperands, sealPacket_eq h hseq (by omega)] at ho
      rcases List.mem_cons.mp ho with rfl | ho
      · rw [sealOperands, hseq]
        exact @seqAt_add_lt codec d p h n 1 (by omega)
      · have hready : Ready { codec with nextSeq := seqAt (d + p) (n + 1) } d p :=
          h.of_same rfl rfl rfl rfl rfl rfl
        exact ih hready (n := n + 1) rfl (by omega) o ho

/-- The additions at the end of a group, whose number is the place behind the data. -/
theorem finishOperands_lt (h : codec.Ready d p) {g : ℕ} (now : ℤ)
    (hseq : codec.nextSeq = seqAt (d + p) (g * (d + p) + d)) :
    ∀ o ∈ codec.finishOperands now, o.1.toNat + o.2.toNat < 2 ^ 32 := by
  have hppos := h.parity_pos
  have hmod : (g * (d + p) + d) % (d + p) = d := Nat.mul_add_mod_of_lt (by omega)
  intro o ho
  rw [finishOperands] at ho
  split at ho
  · refine parityOperands_lt h hseq _ ?_ o ho
    rw [hmod, codec.rs.encode_eq _ _ (by rw [List.length_replicate, h.rs_valid.parity_eq,
      h.parity_eq]), List.length_map, List.length_range, h.rs_valid.parity_eq]
  · have hskip : (UInt32.ofNat p).toNat = p := by
      rw [UInt32.toNat_ofNat']
      exact Nat.mod_eq_of_lt (by have := h.size_le; omega)
    rw [List.mem_singleton.mp ho, skipOperands, hseq, h.parity_eq, hskip]
    exact seqAt_add_lt h (by rw [hmod])

/-- **No addition of a call wraps.** -/
theorem EncoderInv.encodeOperands_lt {t : ℕ} (h : EncoderInv d p packets t codec)
    (call : EncodeCall) : ∀ o ∈ codec.encodeOperands call, o.1.toNat + o.2.toNat < 2 ^ 32 := by
  have hready := h.ready
  have hdpos := hready.data_pos
  have hlt := Nat.mod_lt t hdpos
  have hmod : (t / d * (d + p) + t % d) % (d + p) = t % d := Nat.mul_add_mod_of_lt (by omega)
  intro o ho
  rw [encodeOperands, List.append_assoc, sealPacket_eq hready h.seq_eq (by omega)] at ho
  rcases List.mem_cons.mp ho with rfl | ho
  · rw [sealOperands, h.seq_eq]
    exact @seqAt_add_lt codec d p hready _ 1 (by omega)
  · split at ho
    · rename_i hend
      rw [h.count_eq, hready.data_eq] at hend
      refine finishOperands_lt (d := d) (p := p) (g := t / d) ?_ _ ?_ o ho
      · exact hready.of_same rfl rfl rfl rfl rfl rfl
      · rw [Nat.add_assoc, hend]
    · exact absurd ho List.not_mem_nil

/-! ### The numbers on the wire -/

/-- **Every packet of a run** is a packet of the group of its call: the first the data packet
of the call, the others parity packets. -/
theorem sentAt_eq (h : codec.Ready d p) (hfresh : codec.Fresh) {i a : ℕ} {x : Bytes}
    (hx : codec.sentAt calls i a = some x) :
    ∃ k < d + p, x = packetAt d p codec.rs (packetsOf calls) (i / d) k ∧ i < calls.length ∧
      (a = 0 ∧ k = i % d ∨ 0 < a ∧ i % d + 1 = d ∧ k + 1 = d + a) := by
  have hdpos := h.data_pos
  have hlt := Nat.mod_lt i hdpos
  have hi : i < calls.length := by
    by_contra hle
    rw [sentAt, List.getElem?_eq_none (by rw [encodeAll, Transducer.length_run]; omega)] at hx
    cases hx
  obtain ⟨parity, hsent, hparity⟩ := encodeAll_spec h hfresh calls hi
  rw [sentAt, hsent, Option.bind_some] at hx
  cases a with
  | zero =>
      rw [List.getElem?_cons_zero] at hx
      exact ⟨i % d, by omega, (Option.some.inj hx).symm, hi, .inl ⟨rfl, rfl⟩⟩
  | succ a =>
      rw [List.getElem?_cons_succ] at hx
      rcases hparity with rfl | ⟨hend, rfl⟩
      · cases hx
      · obtain ⟨ha, hxa⟩ := List.getElem?_eq_some_iff.mp hx
        rw [List.length_map, List.length_range] at ha
        rw [List.getElem_map, List.getElem_range] at hxa
        exact ⟨d + a, by omega, hxa.symm, hi, .inr ⟨Nat.succ_pos a, hend, by omega⟩⟩

/-- The data packet of a call. -/
theorem sentAt_data (h : codec.Ready d p) (hfresh : codec.Fresh) {t : ℕ} (ht : t < calls.length) :
    codec.sentAt calls t 0 =
      some (packetAt d p codec.rs (packetsOf calls) (t / d) (t % d)) := by
  obtain ⟨parity, hsent, -⟩ := encodeAll_spec h hfresh calls ht
  rw [sentAt, hsent]
  rfl

/-- What the number of a packet says. -/
theorem wire_packetAt (h : codec.Ready d p) (g : ℕ) {k : ℕ} (hk : k < d + p) :
    codec.wireGroup (packetAt d p codec.rs packets g k) = g % groupCount (d + p) ∧
    codec.wireIndex (packetAt d p codec.rs packets g k) = k := by
  have hpos := h.data_pos
  obtain ⟨hgroup, hindex, -, -, -⟩ := read_packetAt h codec.rs packets g hk
  have hsize : codec.shardSize32.toNat = codec.shardSize := by
    rw [shardSize32, h.size_eq, toNat_ofNat_size h.size_le]
  rw [← UInt32.toNat_inj, UInt32.toNat_div, hsize, toNat_groupId (by omega) h.size_le] at hgroup
  rw [UInt32.toNat_mod, hsize] at hindex
  exact ⟨hgroup, hindex⟩

/-- **A wrapped group number comes back only after all others**: between two groups of one
number there is one of every number. -/
theorem exists_group_between {count g g' : ℕ} (hlt : g < g') (hmod : g % count = g' % count)
    {m : ℕ} (hm : m < count) : ∃ between, g ≤ between ∧ between < g' ∧ between % count = m := by
  have hfar : g + count ≤ g' := by
    have hdvd : count ∣ g' - g := (Nat.modEq_iff_dvd' hlt.le).mp hmod
    have hle := Nat.le_of_dvd (by omega) hdvd
    omega
  -- The first group from `g` on whose number is `m`.
  have hsplit := Nat.div_add_mod g count
  have hbase := Nat.mod_lt g (show 0 < count by omega)
  rcases le_or_gt (g % count) m with hle | hgt
  · refine ⟨count * (g / count) + m, by omega, by omega, ?_⟩
    rw [Nat.mul_add_mod, Nat.mod_eq_of_lt hm]
  · refine ⟨count * (g / count + 1) + m, by rw [Nat.mul_add]; omega,
      by rw [Nat.mul_add]; omega, ?_⟩
    rw [Nat.mul_add_mod, Nat.mod_eq_of_lt hm]

/-- **The numbers of a run.** -/
theorem numbered (h : codec.Ready d p) (hfresh : codec.Fresh) (calls : List EncodeCall) :
    codec.Numbered calls := by
  have hdpos := h.data_pos
  have hcount := groupCount_pos (show 0 < d + p by omega) h.size_le
  have hgroups : codec.paws.toNat / codec.shardSize = groupCount (d + p) := by
    rw [h.paws_eq, h.size_eq, Nat.mul_div_cancel _ (by omega)]
  refine ⟨fun i x hx => ?_, fun i a x ha hx => ?_, fun i j a b x y hx hy hij => ?_,
    fun i a x hx => ?_, fun i j a b x y hij hx hy hne hseq m hm => ?_⟩
  · obtain ⟨k, hk, rfl, -, ⟨-, rfl⟩ | ⟨ha, -⟩⟩ := sentAt_eq h hfresh hx
    · have hlt := Nat.mod_lt i hdpos
      rw [(wire_packetAt h _ hk).2, h.data_eq, (read_packetAt h codec.rs _ _ hk).2.2.1, if_pos hlt]
      exact ⟨rfl, rfl, hlt⟩
    · exact absurd ha (Nat.lt_irrefl 0)
  · obtain ⟨k, hk, rfl, -, ⟨rfl, -⟩ | ⟨-, -, hka⟩⟩ := sentAt_eq h hfresh hx
    · exact absurd ha (Nat.lt_irrefl 0)
    · rw [(wire_packetAt h _ hk).2, h.data_eq, (read_packetAt h codec.rs _ _ hk).2.2.1,
        if_neg (by omega)]
      exact ⟨rfl, by omega⟩
  · obtain ⟨k, hk, rfl, -, -⟩ := sentAt_eq h hfresh hx
    obtain ⟨l, hl, rfl, -, -⟩ := sentAt_eq h hfresh hy
    rw [h.data_eq] at hij
    rw [(wire_packetAt h _ hk).1, (wire_packetAt h _ hl).1, hij]
  · obtain ⟨k, hk, rfl, -, -⟩ := sentAt_eq h hfresh hx
    rw [(wire_packetAt h _ hk).1, h.paws_eq, h.size_eq]
    exact Nat.mul_le_mul_right _ (Nat.mod_lt _ hcount)
  · obtain ⟨k, hk, rfl, -, hka⟩ := sentAt_eq h hfresh hx
    obtain ⟨l, hl, rfl, hj, hlb⟩ := sentAt_eq h hfresh hy
    have hindex : k = l := by
      rw [← (wire_packetAt h (i / d) hk).2, ← (wire_packetAt h (j / d) hl).2, wireIndex, wireIndex,
        hseq]
    have hgroup : i / d % groupCount (d + p) = j / d % groupCount (d + p) := by
      rw [← (wire_packetAt h (i / d) hk).1, ← (wire_packetAt h (j / d) hl).1, wireGroup, wireGroup,
        hseq]
    have hi := Nat.div_add_mod i d
    have hj' := Nat.div_add_mod j d
    have hi' := Nat.mod_lt i hdpos
    have hlt : i / d < j / d := by
      refine lt_of_le_of_ne (Nat.div_le_div_right hij) fun heq => hne ?_
      rw [heq] at hi
      rcases hka with ⟨rfl, hka⟩ | ⟨ha, hend, hka⟩ <;> rcases hlb with ⟨rfl, hlb⟩ | ⟨hb, hend', hlb⟩
      · rw [show i = j by omega]
      · omega
      · have hjlt := Nat.mod_lt j hdpos
        omega
      · rw [show i = j by omega, show a = b by omega]
    rw [hgroups] at hm
    obtain ⟨between, hfrom, hto, hnumber⟩ := exists_group_between hlt hgroup hm
    have hstart : between * d + d ≤ j := by
      calc between * d + d = (between + 1) * d := by ring
        _ ≤ j / d * d := Nat.mul_le_mul_right d hto
        _ ≤ j := Nat.div_mul_le_self j d
    have hdiv : between * d / d = between := Nat.mul_div_cancel _ hdpos
    refine ⟨between * d, _, by rw [h.data_eq, hdiv]; exact hfrom, by omega,
      sentAt_data h hfresh (by omega), ?_⟩
    rw [(wire_packetAt h _ (by have := Nat.mod_lt (between * d) hdpos; omega)).1, hdiv, hnumber]

/-- **The sequence discipline**: for every configuration with parity, every run of calls and
every clock, the counters are aligned between calls, no 32-bit addition of the next call
wraps, and the packets of the run carry the numbers of their places. -/
theorem sequence_discipline (config : BaseConfig) (hdata : 1 ≤ config.datashard.toInt)
    (hparity : 1 ≤ config.parityshard.toInt)
    (hsum : config.datashard.toInt + config.parityshard.toInt ≤ 256) :
    ∃ codec, create config = .ok codec ∧ ∀ calls : List EncodeCall,
      (Transducer.run encodeCall codec calls).2.Aligned ∧
      (∀ call, ∀ o ∈ (Transducer.run encodeCall codec calls).2.encodeOperands call,
        o.1.toNat + o.2.toNat < 2 ^ 32) ∧
      codec.Numbered calls := by
  obtain ⟨d, hd⟩ := Int.eq_ofNat_of_zero_le (show 0 ≤ config.datashard.toInt by omega)
  obtain ⟨p, hp⟩ := Int.eq_ofNat_of_zero_le (show 0 ≤ config.parityshard.toInt by omega)
  obtain ⟨codec, hcreate, hready, hfresh⟩ :=
    create_spec hd hp (by omega) (by omega) (by omega)
  refine ⟨codec, hcreate, fun calls => ?_⟩
  have hstart : EncoderInv d p (packetsOf calls) 0 codec := .init hready hfresh
  have hinv := run_encoderInv calls hstart (fun i _ => by rw [Nat.zero_add])
  exact ⟨hinv.aligned, hinv.encodeOperands_lt, numbered hready hfresh calls⟩

/-- Groups of two data packets and one parity packet. -/
theorem groups_of_three_disciplined :
    ∃ codec, create { datashard := 2, parityshard := 1 } = .ok codec ∧
      ∀ calls : List EncodeCall,
        (Transducer.run encodeCall codec calls).2.Aligned ∧
        (∀ call, ∀ o ∈ (Transducer.run encodeCall codec calls).2.encodeOperands call,
          o.1.toNat + o.2.toNat < 2 ^ 32) ∧
        codec.Numbered calls :=
  sequence_discipline { datashard := 2, parityshard := 1 } (by decide) (by decide) (by decide)

end FecCodec

end Shimakaze
