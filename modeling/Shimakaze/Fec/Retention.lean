import Shimakaze.Fec.Safety
import Shimakaze.Lib.EventMachine

/-!
# The Sets the Decoder Keeps

A set is made for every group a packet names, and dropped when it is complete or when the
newest group moves on and leaves it more than three groups behind. Nothing is dropped while
the newest group stays: a packet of a group that is already that old leaves a set that stays
until the newest group moves. With a single data shard it does not, since every shard
completes its set.

Sets that are young in the decoder's order lie on an arc of the circle of 32-bit numbers, at
least a group size apart, and so are bounded in number.

## Main results

* `FecCodec.decode_cases`: what decoding does to the table of sets.
* `FecCodec.length_le_of_young`: young sets are bounded in number.
* `FecCodec.retention_iff`: **the sets stay young and bounded in number exactly if no packet
  of an old group is collected.**
-/

namespace Shimakaze

namespace FecCodec

variable {codec : FecCodec} {d p : ℕ}

/-! ### What decoding does to the table -/

/-- **What decoding does to the decoder**: nothing, or it puts the shard in and advances. -/
theorem decode_cases (h : codec.Ready d p) {packet : Bytes} {out : List Bytes}
    {after : FecCodec} (hdecode : codec.decode packet = .ok (out, after)) :
    (codec.Collected packet → codec.Repeated packet) ∧ after = codec ∨
    codec.Collected packet ∧ ¬ codec.Repeated packet ∧
      after = { codec with decodeSets := codec.setsWith packet }.advance
        (codec.shardIdOf packet) := by
  by_cases hpacket : codec.Collected packet
  · rw [decode_of_collected h hpacket] at hdecode
    cases hcollect : codec.collect packet with
    | error e =>
        rw [hcollect] at hdecode
        cases hdecode
    | ok result =>
        obtain ⟨payloads, next⟩ := result
        rw [hcollect] at hdecode
        obtain ⟨-, rfl⟩ := Prod.mk.inj (Except.ok.inj hdecode)
        rcases collect_cases hcollect with ⟨hrepeat, -, hsame⟩ | ⟨hnew, -, hafter⟩
        · exact .inl ⟨fun _ => hrepeat, hsame⟩
        · exact .inr ⟨hpacket, hnew, hafter⟩
  · obtain ⟨_, hkeep, -⟩ := decode_of_not_collected h hpacket
    rw [hkeep] at hdecode
    exact .inl ⟨fun hcollected => absurd hcollected hpacket,
      (Prod.mk.inj (Except.ok.inj hdecode)).2.symm⟩

/-! ### Young sets -/

/-- How far a group lies behind the newest one, as the decoder measures it. -/
def age (codec : FecCodec) (shardId : UInt32) : Int32 :=
  timediff (codec.newestShardId * codec.shardSize32) (shardId * codec.shardSize32)

/-- The greatest age at which a set is kept: three groups. -/
def maxAge (codec : FecCodec) : Int32 := (maxShardSets * codec.shardSize32).toInt32

/-- What is to hold of the sets kept: they are young, and bounded in number. -/
structure Retention (codec : FecCodec) : Prop where
  young : ∀ entry ∈ codec.decodeSets, codec.age entry.1 ≤ codec.maxAge
  few : codec.decodeSets.length ≤ 2 ^ 31 / codec.shardSize + 4

/-- A packet that is collected into a set of its own although its group is old. -/
def Stale (codec : FecCodec) (packet : Bytes) : Prop :=
  codec.Collected packet ∧ codec.maxAge < codec.age (codec.shardIdOf packet) ∧
    2 ≤ codec.dataShards

/-- What holds of the table as long as no old group comes in. -/
structure TableInv (d p : ℕ) (codec : FecCodec) : Prop where
  ready : codec.Ready d p
  sized : codec.Sized (d + p)
  keys_nodup : (codec.decodeSets.map Prod.fst).Nodup
  keys_lt : ∀ entry ∈ codec.decodeSets, entry.1.toNat < groupCount (d + p)
  young : ∀ entry ∈ codec.decodeSets, codec.age entry.1 ≤ codec.maxAge

/-- A fresh decoder keeps nothing. -/
theorem TableInv.init (h : codec.Ready d p) (hfresh : codec.Fresh) : TableInv d p codec := by
  have hnone : ∀ entry, entry ∉ codec.decodeSets := fun entry hentry => by
    rw [hfresh.sets_eq] at hentry
    cases hentry
  refine ⟨h, fun entry hentry => absurd hentry (hnone entry), ?_,
    fun entry hentry => absurd hentry (hnone entry),
    fun entry hentry => absurd hentry (hnone entry)⟩
  rw [hfresh.sets_eq]
  exact List.nodup_nil

/-! ### Young sets are bounded in number -/

/-- Numbers that are apart stay apart on the circle. -/
theorem bmod_spaced {newest a b width : ℤ} (hlow : width ≤ b - a)
    (hhigh : b - a + width ≤ 2 ^ 32) :
    width ≤ |Int.bmod (newest - a) (2 ^ 32) - Int.bmod (newest - b) (2 ^ 32)| := by
  have ha := Int.bmod_emod (x := newest - a) (m := 2 ^ 32)
  have hb := Int.bmod_emod (x := newest - b) (m := 2 ^ 32)
  push_cast at ha hb
  rw [le_abs]
  generalize Int.bmod (newest - a) (2 ^ 32) = x at *
  generalize Int.bmod (newest - b) (2 ^ 32) = y at *
  omega

/-- Two groups below the end of the wheel are at least a group size apart on the circle. -/
theorem age_spaced (h : codec.Ready d p) {a b : UInt32} (hlt : a.toNat < b.toNat)
    (hb : b.toNat < groupCount (d + p)) :
    ((d + p : ℕ) : ℤ) ≤ |(codec.age a).toInt - (codec.age b).toInt| := by
  have hpos := h.data_pos
  have hwheel := wheel_bounds (show 0 < d + p by omega)
  have hmul : ∀ c : UInt32, c.toNat < groupCount (d + p) →
      (c * codec.shardSize32).toNat = c.toNat * (d + p) := fun c hc => by
    rw [UInt32.toNat_mul, shardSize32, h.size_eq, toNat_ofNat_size h.size_le]
    exact Nat.mod_eq_of_lt ((Nat.mul_le_mul_right (d + p) hc.le).trans_lt hwheel.1)
  have hlow : a.toNat * (d + p) + (d + p) ≤ b.toNat * (d + p) := by
    calc a.toNat * (d + p) + (d + p) = (a.toNat + 1) * (d + p) := by ring
      _ ≤ b.toNat * (d + p) := Nat.mul_le_mul_right _ hlt
  have hhigh : b.toNat * (d + p) + (d + p) ≤ groupCount (d + p) * (d + p) := by
    calc b.toNat * (d + p) + (d + p) = (b.toNat + 1) * (d + p) := by ring
      _ ≤ groupCount (d + p) * (d + p) := Nat.mul_le_mul_right _ hb
  rw [age, age, toInt_timediff, toInt_timediff, hmul a (hlt.trans hb), hmul b hb]
  exact bmod_spaced (by omega) (by omega)

/-- Things apart on an interval are bounded in number. -/
theorem length_le_of_spaced {α : Type*} {things : List α} (hnodup : things.Nodup)
    {place : α → ℤ} {low : ℤ} {span width : ℕ} (hwidth : 0 < width)
    (hin : ∀ a ∈ things, low ≤ place a ∧ place a ≤ low + span)
    (hspaced : ∀ a ∈ things, ∀ b ∈ things, a ≠ b → (width : ℤ) ≤ |place a - place b|) :
    things.length ≤ span / width + 1 := by
  -- Slots on the interval are one width long, so that no two things share one.
  have hslots : (things.map fun a => (place a - low).toNat / width).Nodup := by
    refine List.Nodup.map_on (fun a ha b hb heq => ?_) hnodup
    by_contra hne
    have hapart := hspaced a ha b hb hne
    have hlow := (hin a ha).1
    have hlow' := (hin b hb).1
    have hamod := Nat.div_add_mod (place a - low).toNat width
    have hbmod := Nat.div_add_mod (place b - low).toNat width
    have halt := Nat.mod_lt (place a - low).toNat hwidth
    have hblt := Nat.mod_lt (place b - low).toNat hwidth
    rw [heq] at hamod
    rw [le_abs] at hapart
    omega
  have hsub : (things.map fun a => (place a - low).toNat / width) ⊆
      List.range (span / width + 1) := by
    intro slot hslot
    obtain ⟨a, ha, rfl⟩ := List.mem_map.mp hslot
    have hhigh := (hin a ha).2
    exact List.mem_range.mpr (Nat.lt_succ_of_le (Nat.div_le_div_right (by omega)))
  have hcard := (List.subperm_of_subset hslots hsub).length_le
  rwa [List.length_map, List.length_range] at hcard

theorem Ready.toInt_maxAge (h : codec.Ready d p) : codec.maxAge.toInt = 3 * (d + p : ℕ) := by
  rw [maxAge, shardSize32, h.size_eq, Shimakaze.toInt_maxAge h.size_le]

/-- **Young sets are bounded in number**: their ages lie in an interval a little longer than
half the circle, at least a group size apart. -/
theorem length_le_of_young (h : codec.Ready d p)
    (hnodup : (codec.decodeSets.map Prod.fst).Nodup)
    (hkeys : ∀ entry ∈ codec.decodeSets, entry.1.toNat < groupCount (d + p))
    (hyoung : ∀ entry ∈ codec.decodeSets, codec.age entry.1 ≤ codec.maxAge) :
    codec.decodeSets.length ≤ 2 ^ 31 / codec.shardSize + 4 := by
  have hpos : 0 < d + p := by
    have := h.data_pos
    omega
  have hin : ∀ id ∈ codec.decodeSets.map Prod.fst, -2 ^ 31 ≤ (codec.age id).toInt ∧
      (codec.age id).toInt ≤ -2 ^ 31 + (2 ^ 31 + 3 * (d + p) : ℕ) := by
    intro id hid
    obtain ⟨entry, hentry, rfl⟩ := List.mem_map.mp hid
    have hage := Int32.le_iff_toInt_le.mp (hyoung entry hentry)
    have hlow := (codec.age entry.1).toBitVec.le_toInt
    rw [h.toInt_maxAge] at hage
    simp only [Nat.reduceSub, Int32.toInt_toBitVec] at hlow
    omega
  have hspaced : ∀ a ∈ codec.decodeSets.map Prod.fst, ∀ b ∈ codec.decodeSets.map Prod.fst,
      a ≠ b → ((d + p : ℕ) : ℤ) ≤ |(codec.age a).toInt - (codec.age b).toInt| := by
    intro a ha b hb hne
    obtain ⟨left, hleft, rfl⟩ := List.mem_map.mp ha
    obtain ⟨right, hright, rfl⟩ := List.mem_map.mp hb
    rcases lt_or_gt_of_ne (fun heq => hne (UInt32.toNat_inj.mp heq)) with hlt | hgt
    · exact age_spaced h hlt (hkeys right hright)
    · rw [abs_sub_comm]
      exact age_spaced h hgt (hkeys left hleft)
  have hcard := length_le_of_spaced hnodup hpos hin hspaced
  rwa [List.length_map, Nat.add_mul_div_right _ _ hpos, ← h.size_eq] at hcard

/-! ### One call -/

/-- The order of two groups is not both ways. -/
theorem timediff_not_pos {a b : UInt32} (h : 0 < (timediff a b).toInt) :
    ¬ timediff b a > 0 := by
  have hzero : (0 : Int32).toInt = 0 := rfl
  rw [gt_iff_lt, Int32.lt_iff_toInt_lt, hzero]
  rw [toInt_timediff] at h ⊢
  have hab := Int.bmod_emod (x := (a.toNat : ℤ) - b.toNat) (m := 2 ^ 32)
  have hba := Int.bmod_emod (x := (b.toNat : ℤ) - a.toNat) (m := 2 ^ 32)
  have hhigh := Int.bmod_lt (x := (a.toNat : ℤ) - b.toNat) (m := 2 ^ 32) (by decide)
  have hhigh' := Int.bmod_lt (x := (b.toNat : ℤ) - a.toNat) (m := 2 ^ 32) (by decide)
  push_cast at hab hba hhigh hhigh'
  generalize Int.bmod ((a.toNat : ℤ) - b.toNat) (2 ^ 32) = x at *
  generalize Int.bmod ((b.toNat : ℤ) - a.toNat) (2 ^ 32) = y at *
  omega

/-- Advancing leaves only young sets, unless it does nothing. -/
theorem advance_young (codec : FecCodec) (shardId : UInt32) :
    (∀ entry ∈ (codec.advance shardId).decodeSets,
      (codec.advance shardId).age entry.1 ≤ (codec.advance shardId).maxAge) ∨
    codec.advance shardId = codec := by
  rw [advance]
  split
  · refine .inl fun entry hentry => ?_
    have hkept := of_decide_eq_true (List.mem_filter.mp hentry).2
    exact Int32.not_lt.mp hkept
  · exact .inr rfl

/-- The group of a collected packet lies below the end of the wheel. -/
theorem shardIdOf_lt (h : codec.Ready d p) {packet : Bytes} (hpacket : codec.Collected packet) :
    (codec.shardIdOf packet).toNat < groupCount (d + p) := by
  have hseq := UInt32.lt_iff_toNat_lt.mp hpacket.2.2
  rw [h.paws_eq, Nat.mul_comm] at hseq
  rw [shardIdOf, UInt32.toNat_div, shardSize32, h.size_eq, toNat_ofNat_size h.size_le]
  exact Nat.div_lt_of_lt_mul hseq

/-- The set of a collected packet holds at least its shard. -/
theorem count_setWith_pos (h : codec.Ready d p) (hsized : codec.Sized (d + p)) {packet : Bytes}
    (hpacket : codec.Collected packet) : 1 ≤ (codec.setWith packet).present.count true := by
  have hin := decode_inRange h hsized hpacket
  have hplace : (packetSeq packet % codec.shardSize32).toNat <
      (codec.shardSet (packetSeq packet / codec.shardSize32)).present.length :=
    hin.place.1.present_length ▸ hin.place.2
  rw [Nat.one_le_iff_ne_zero, ← Nat.pos_iff_ne_zero, List.count_pos_iff, setWith,
    ShardSet.insert]
  exact List.mem_set hplace true

/-- The table keeps its keys apart. -/
theorem nodup_setsWith (hnodup : (codec.decodeSets.map Prod.fst).Nodup) (packet : Bytes) :
    ((codec.setsWith packet).map Prod.fst).Nodup := by
  have herase : ((eraseSet (codec.shardIdOf packet) codec.decodeSets).map Prod.fst).Nodup :=
    hnodup.sublist (List.filter_sublist.map _)
  rw [setsWith]
  split
  · exact herase
  · refine List.nodup_cons.mpr ⟨fun hmem => ?_, herase⟩
    obtain ⟨entry, hentry, hkey⟩ := List.mem_map.mp hmem
    exact of_decide_eq_true (List.mem_filter.mp hentry).2 hkey

/-- What is in the table was there, or is the set of the packet, not complete. -/
theorem mem_setsWith {packet : Bytes} {entry : UInt32 × ShardSet}
    (h : entry ∈ codec.setsWith packet) :
    entry ∈ codec.decodeSets ∨ entry.1 = codec.shardIdOf packet ∧
      (codec.setWith packet).present.count true < codec.dataShards := by
  rw [setsWith] at h
  split at h
  · exact .inl (List.mem_filter.mp h).1
  · rename_i hfull
    rcases List.mem_cons.mp h with rfl | h
    · exact .inr ⟨rfl, not_le.mp hfull⟩
    · exact .inl (List.mem_filter.mp h).1

/-- **Packets that are not stale keep the sets young.** -/
theorem TableInv.decode (h : TableInv d p codec) {packet : Bytes} {out : List Bytes}
    {after : FecCodec} (hfresh : ¬ codec.Stale packet)
    (hdecode : codec.decode packet = .ok (out, after)) : TableInv d p after := by
  obtain ⟨_, _, hok, hready, hsized⟩ := decode_ok h.ready h.sized packet
  rw [hdecode] at hok
  obtain ⟨-, rfl⟩ := Prod.mk.inj (Except.ok.inj hok)
  rcases decode_cases h.ready hdecode with ⟨-, rfl⟩ | ⟨hpacket, -, rfl⟩
  · exact h
  have hkeys : ∀ entry ∈ codec.setsWith packet, entry.1.toNat < groupCount (d + p) := by
    intro entry hentry
    rcases mem_setsWith hentry with hentry | ⟨hkey, -⟩
    · exact h.keys_lt entry hentry
    · rw [hkey]
      exact shardIdOf_lt h.ready hpacket
  have hyoung : ∀ entry ∈ codec.setsWith packet, codec.age entry.1 ≤ codec.maxAge := by
    intro entry hentry
    rcases mem_setsWith hentry with hentry | ⟨hkey, hcount⟩
    · exact h.young entry hentry
    · have hshards := count_setWith_pos h.ready h.sized hpacket
      rw [hkey]
      by_contra hold
      exact hfresh ⟨hpacket, Int32.not_le.mp hold, by omega⟩
  have hadvance := advance_spec { codec with decodeSets := codec.setsWith packet }
    (codec.shardIdOf packet)
  refine ⟨hready, hsized, ?_, fun entry hentry => hkeys entry (hadvance.1 hentry), ?_⟩
  · have hsublist : (({ codec with decodeSets := codec.setsWith packet }.advance
        (codec.shardIdOf packet)).decodeSets).Sublist (codec.setsWith packet) := by
      rw [advance]
      split
      · exact List.filter_sublist
      · exact List.Sublist.refl _
    exact (nodup_setsWith h.keys_nodup packet).sublist (hsublist.map _)
  · rcases advance_young { codec with decodeSets := codec.setsWith packet }
      (codec.shardIdOf packet) with hall | hsame
    · exact hall
    · rw [hsame]
      exact hyoung

/-- **A stale packet leaves an old set.** -/
theorem TableInv.decode_stale (h : TableInv d p codec) {packet : Bytes} {out : List Bytes}
    {after : FecCodec} (hstale : codec.Stale packet)
    (hdecode : codec.decode packet = .ok (out, after)) : ¬ after.Retention := by
  obtain ⟨hpacket, hold, hshards⟩ := hstale
  -- There is no set of the group yet: the sets are young.
  have hnone : codec.decodeSets.lookup (codec.shardIdOf packet) = none := by
    cases hlookup : codec.decodeSets.lookup (codec.shardIdOf packet) with
    | none => rfl
    | some set => exact absurd (h.young _ (mem_of_lookup hlookup)) (Int32.not_le.mpr hold)
  have hempty : (codec.shardSet (codec.shardIdOf packet)).present =
      List.replicate codec.shardSize false := by
    rw [FecCodec.shardSet, hnone]
    rfl
  have hin := decode_inRange h.ready h.sized hpacket
  have hcount : (codec.setWith packet).present.count true = 1 := by
    have hplace : (packetSeq packet % codec.shardSize32).toNat <
        (List.replicate codec.shardSize false).length := by
      rw [List.length_replicate]
      exact hin.place.2
    rw [setWith, ShardSet.insert]
    rw [shardIdOf] at hempty
    simp only [hempty]
    rw [List.count_set hplace]
    simp [List.count_replicate]
  have hstored : (codec.shardIdOf packet, codec.setWith packet) ∈ codec.setsWith packet := by
    rw [setsWith, if_neg (by omega)]
    exact List.mem_cons_self
  have hstay : { codec with decodeSets := codec.setsWith packet }.advance
      (codec.shardIdOf packet) = { codec with decodeSets := codec.setsWith packet } := by
    have hpositive : 0 < (codec.age (codec.shardIdOf packet)).toInt := by
      have hlt := Int32.lt_iff_toInt_lt.mp hold
      rw [h.ready.toInt_maxAge] at hlt
      omega
    exact if_neg (timediff_not_pos hpositive)
  rcases decode_cases h.ready hdecode with ⟨hrepeat, -⟩ | ⟨-, -, rfl⟩
  · have habsent := hrepeat hpacket
    rw [Repeated, hempty] at habsent
    simp at habsent
  · intro hretention
    rw [hstay] at hretention
    exact absurd (hretention.young _ hstored) (Int32.not_le.mpr hold)

/-! ### Whole runs -/

/-- The decoder, fed one byte string after another. -/
def decodeMachine : EventMachine FecCodec Bytes where
  step codec packet := (codec.decode packet).toOption.map Prod.snd

/-- A step of the machine is a call of `decode`. -/
theorem decodeMachine_step {packet : Bytes} {after : FecCodec}
    (h : decodeMachine.step codec packet = some after) :
    ∃ out, codec.decode packet = .ok (out, after) := by
  obtain ⟨⟨out, next⟩, hresult, rfl⟩ := Option.map_eq_some_iff.mp h
  exact ⟨out, ok_of_toOption hresult⟩

/-- No input stops the decoder. -/
theorem decodeMachine_run (packets : List Bytes) (h : codec.Ready d p)
    (hsized : codec.Sized (d + p)) : ∃ after, decodeMachine.run codec packets = some after := by
  induction packets generalizing codec with
  | nil => exact ⟨codec, rfl⟩
  | cons packet packets ih =>
      obtain ⟨out, next, hdecode, hready, hsets⟩ := decode_ok h hsized packet
      obtain ⟨after, hrun⟩ := ih hready hsets
      have hstep : decodeMachine.step codec packet = some next := by
        show (codec.decode packet).toOption.map Prod.snd = some next
        rw [hdecode]
        rfl
      exact ⟨after, decodeMachine.run_cons_eq_some.mpr ⟨next, hstep, hrun⟩⟩

/-- **What the decoder keeps**: for every configuration with parity and whatever byte strings
come in, after each of them the sets kept are at most three groups old and bounded in number
exactly if none of the byte strings is a packet of an older group, or shards are complete one
by one. -/
theorem retention_iff (config : BaseConfig) (hdata : 1 ≤ config.datashard.toInt)
    (hparity : 1 ≤ config.parityshard.toInt)
    (hsum : config.datashard.toInt + config.parityshard.toInt ≤ 256) :
    ∃ codec, create config = .ok codec ∧ ∀ packets : List Bytes,
      (∃ after, decodeMachine.run codec packets = some after) ∧
      (decodeMachine.Always Retention codec packets ↔
        decodeMachine.Along (fun codec packet => ¬ codec.Stale packet) codec packets) := by
  obtain ⟨d, hd⟩ := Int.eq_ofNat_of_zero_le (show 0 ≤ config.datashard.toInt by omega)
  obtain ⟨p, hp⟩ := Int.eq_ofNat_of_zero_le (show 0 ≤ config.parityshard.toInt by omega)
  obtain ⟨codec, hcreate, hready, hfresh⟩ :=
    create_spec hd hp (by omega) (by omega) (by omega)
  have hinit := TableInv.init hready hfresh
  refine ⟨codec, hcreate, fun packets => ⟨decodeMachine_run packets hready hinit.sized, ?_⟩⟩
  refine EventMachine.always_iff_along (I := TableInv d p) (fun _ h =>
    ⟨h.young, length_le_of_young h.ready h.keys_nodup h.keys_lt h.young⟩) ?_ ?_ hinit packets
  · intro s packet t hs hfresh ht
    obtain ⟨out, hdecode⟩ := decodeMachine_step ht
    exact hs.decode hfresh hdecode
  · intro s packet t hs hstale ht
    obtain ⟨out, hdecode⟩ := decodeMachine_step ht
    exact hs.decode_stale (not_not.mp hstale) hdecode

/-- Groups of two data packets and one parity packet. -/
theorem groups_of_three_retention :
    ∃ codec, create { datashard := 2, parityshard := 1 } = .ok codec ∧ ∀ packets : List Bytes,
      (∃ after, decodeMachine.run codec packets = some after) ∧
      (decodeMachine.Always Retention codec packets ↔
        decodeMachine.Along (fun codec packet => ¬ codec.Stale packet) codec packets) :=
  retention_iff { datashard := 2, parityshard := 1 } (by decide) (by decide) (by decide)

/-- A packet of group 5, then one of group 0: the set of the old group stays. -/
theorem old_group_kept :
    ∃ codec after, create { datashard := 2, parityshard := 1 } = .ok codec ∧
      decodeMachine.run codec [[15, 0, 0, 0, 0xf1, 0, 2, 0], [0, 0, 0, 0, 0xf1, 0, 2, 0]] =
        some after ∧ ¬ after.Retention := by
  have hrun : ((create { datashard := 2, parityshard := 1 }).toOption.bind fun codec =>
      (decodeMachine.run codec [[15, 0, 0, 0, 0xf1, 0, 2, 0], [0, 0, 0, 0, 0xf1, 0, 2, 0]]).map
        fun after => (after.newestShardId, after.decodeSets.map Prod.fst, after.shardSize)) =
      some (5, [0, 5], 3) := by decide +kernel
  obtain ⟨codec, hcreate, hcodec⟩ := Option.bind_eq_some_iff.mp hrun
  obtain ⟨after, hafter, hstate⟩ := Option.map_eq_some_iff.mp hcodec
  obtain ⟨hnewest, hkeys, hsize⟩ : after.newestShardId = 5 ∧
      after.decodeSets.map Prod.fst = [0, 5] ∧ after.shardSize = 3 := by simpa using hstate
  refine ⟨codec, after, ok_of_toOption hcreate, hafter, fun hretention => ?_⟩
  have hold : (0 : UInt32) ∈ after.decodeSets.map Prod.fst := by
    rw [hkeys]
    decide
  obtain ⟨entry, hentry, hkey⟩ := List.mem_map.mp hold
  have hyoung := hretention.young entry hentry
  rw [age, maxAge, hkey, shardSize32, hnewest, hsize] at hyoung
  exact absurd hyoung (by decide)

end FecCodec

end Shimakaze
