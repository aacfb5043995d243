import Shimakaze.Fec.ShardSets

/-!
# The Decoder

The decoder against what the encoder sends. Counted without wrap, every set in the table
belongs to one group near the highest delivered so far: a wrapped group number is reused
only after more groups than two deliveries may be apart, and a set is found under its number
only by packets of its own group. With the recovery of a single group, soundness and
completeness of the whole run are one invariant.

## Main results

* `FecCodec.decode_ok`: decoding never throws, for any bytes.
* `FecCodec.decode_sound`: whatever is lost, repeated or reordered, everything returned is a
  packet handed to the encoder.
* `FecCodec.decode_complete`: a group with parity is returned as a whole once enough of it
  has arrived in time.
-/

namespace Shimakaze

namespace FecCodec

variable {codec : FecCodec} {d p : ℕ}

/-! ### The table of sets -/

section Table

variable {sets : List (UInt32 × ShardSet)} {a b : UInt32}

/-- Looking a number up among the entries a condition on numbers keeps. -/
theorem lookup_filter (keep : UInt32 → Bool) (sets : List (UInt32 × ShardSet)) (a : UInt32) :
    (sets.filter fun entry => keep entry.1).lookup a =
      if keep a = true then sets.lookup a else none := by
  induction sets with
  | nil => simp
  | cons entry sets ih =>
      obtain ⟨key, set⟩ := entry
      by_cases hkey : a = key
      · subst hkey
        by_cases hkeep : keep a = true
        · rw [List.filter_cons_of_pos (by simpa using hkeep), if_pos hkeep,
            List.lookup_cons_self, List.lookup_cons_self]
        · rw [List.filter_cons_of_neg (by simpa using hkeep), ih]
          simp [hkeep]
      · have hne : (a == key) = false := by simpa using hkey
        by_cases hkeep : keep key = true
        · rw [List.filter_cons_of_pos (by simpa using hkeep), List.lookup_cons, List.lookup_cons,
            hne]
          exact ih
        · rw [List.filter_cons_of_neg (by simpa using hkeep), List.lookup_cons, hne]
          exact ih

theorem lookup_eraseSet : (eraseSet a sets).lookup b = if b = a then none else sets.lookup b := by
  have h : (eraseSet a sets).lookup b = _ := lookup_filter (fun key => decide (key ≠ a)) sets b
  rw [h]
  by_cases hba : b = a
  · simp [hba]
  · simp [hba]

theorem lookup_storeSet {set : ShardSet} :
    (storeSet a set sets).lookup b = if b = a then some set else sets.lookup b := by
  rw [storeSet, List.lookup_cons]
  by_cases hba : b = a
  · subst hba
    simp
  · have hne : (b == a) = false := by simpa using hba
    rw [hne, lookup_eraseSet, if_neg hba, if_neg hba]

/-- An entry that is looked up is in the table. -/
theorem mem_of_lookup {set : ShardSet} (h : sets.lookup a = some set) : (a, set) ∈ sets := by
  induction sets with
  | nil => cases h
  | cons entry sets ih =>
      obtain ⟨key, other⟩ := entry
      rw [List.lookup_cons] at h
      cases hkey : a == key with
      | true =>
          rw [hkey] at h
          obtain rfl := Option.some.inj h
          rw [beq_iff_eq.mp hkey]
          exact List.mem_cons_self
      | false =>
          rw [hkey] at h
          exact List.mem_cons_of_mem _ (ih h)

end Table

/-! ### Any packet -/

/-- A set is what its number leads to in the table. -/
theorem shardSet_congr {codec' : FecCodec} {a : UInt32} (hsize : codec'.shardSize = codec.shardSize)
    (hlookup : codec'.decodeSets.lookup a = codec.decodeSets.lookup a) :
    codec'.shardSet a = codec.shardSet a := by
  rw [FecCodec.shardSet, FecCodec.shardSet, hsize, hlookup]

/-- All sets of the table have their places. -/
def Sized (codec : FecCodec) (size : ℕ) : Prop :=
  ∀ entry ∈ codec.decodeSets, entry.2.Sized size

/-- The set a shard is put into has its places. -/
theorem Sized.shardSet (h : codec.Sized codec.shardSize) (shardId : UInt32) :
    (codec.shardSet shardId).Sized codec.shardSize := by
  rw [FecCodec.shardSet]
  by_cases hempty : ((codec.decodeSets.lookup shardId).getD {}).shards.isEmpty = true
  · rw [if_pos hempty]
    exact ⟨List.length_replicate, List.length_replicate, List.length_replicate⟩
  · rw [if_neg hempty]
    cases hlookup : codec.decodeSets.lookup shardId with
    | none => simp [hlookup] at hempty
    | some set => exact h _ (mem_of_lookup hlookup)

/-- A set that was stored is found again. -/
theorem shardSet_stored (h : codec.Ready d p) {set : ShardSet} (hset : set.Sized (d + p))
    (shardId : UInt32) :
    FecCodec.shardSet { codec with decodeSets := storeSet shardId set codec.decodeSets } shardId =
      set := by
  have hpos := h.data_pos
  have hnonempty : ¬ set.shards.isEmpty = true := by
    rw [List.isEmpty_iff, ← List.length_eq_zero_iff, hset.shards_length]
    omega
  rw [FecCodec.shardSet, lookup_storeSet, if_pos rfl, Option.getD_some, if_neg hnonempty]

/-- Advancing changes the newest group and drops sets. -/
theorem advance_spec (codec : FecCodec) (shardId : UInt32) :
    (codec.advance shardId).decodeSets ⊆ codec.decodeSets ∧
    codec.advance shardId = { codec with
      newestShardId := (codec.advance shardId).newestShardId
      decodeSets := (codec.advance shardId).decodeSets } := by
  rw [advance]
  split
  · exact ⟨List.filter_sublist.subset, rfl⟩
  · exact ⟨List.Subset.refl _, rfl⟩

theorem Ready.advance (h : codec.Ready d p) (shardId : UInt32) :
    (codec.advance shardId).Ready d p := by
  rw [(advance_spec codec shardId).2]
  exact h.of_same rfl rfl rfl rfl rfl rfl

/-- **Adding a shard does not throw**, and the sets keep their places. -/
theorem addShard_ok (h : codec.Ready d p) (hsized : codec.Sized (d + p)) (shardId : UInt32)
    (index : ℕ) (packet : Bytes) (isData : Bool) :
    ∃ payloads codec', codec.addShard shardId index packet isData = .ok (payloads, codec') ∧
      codec'.Ready d p ∧ codec'.Sized (d + p) := by
  have hset := ((h.size_eq ▸ hsized : codec.Sized codec.shardSize).shardSet shardId).insert index
    (packet.drop fecHeaderSize) isData
  rw [h.size_eq] at hset
  rw [addShard]
  by_cases hfull : codec.dataShards ≤
      ((codec.shardSet shardId).insert index (packet.drop fecHeaderSize) isData).present.count true
  · obtain ⟨payloads, hrecover⟩ := recover_ok h hset (h.data_eq ▸ hfull)
    simp only [if_pos hfull, hrecover]
    exact ⟨payloads, _, rfl, h.of_same rfl rfl rfl rfl rfl rfl, fun entry hentry =>
      hsized entry (List.mem_filter.mp hentry).1⟩
  · simp only [if_neg hfull]
    refine ⟨[], _, rfl, h.of_same rfl rfl rfl rfl rfl rfl, fun entry hentry => ?_⟩
    rcases List.mem_cons.mp hentry with rfl | hentry
    · exact hset
    · exact hsized entry (List.mem_filter.mp hentry).1

/-- Collecting a packet does not throw, and the sets keep their places. -/
theorem collect_ok (h : codec.Ready d p) (hsized : codec.Sized (d + p)) (packet : Bytes) :
    ∃ payloads codec', codec.collect packet = .ok (payloads, codec') ∧ codec'.Ready d p ∧
      codec'.Sized (d + p) := by
  rw [collect]
  by_cases hpresent : (codec.shardSet (packetSeq packet / codec.shardSize32)).present.getD
      (packetSeq packet % codec.shardSize32).toNat false = true
  · simp only [if_pos hpresent]
    exact ⟨[], codec, rfl, h, hsized⟩
  · obtain ⟨payloads, after, hadd, hready, hsets⟩ := addShard_ok h hsized
      (packetSeq packet / codec.shardSize32) (packetSeq packet % codec.shardSize32).toNat packet
      (packetFlag packet = fecTypeData)
    simp only [if_neg hpresent, hadd]
    exact ⟨payloads, _, rfl, hready.advance _, fun entry hentry =>
      hsets entry ((advance_spec after _).1 hentry)⟩

/-- The packets `decode` collects: long enough, of a data or parity type, and with a sequence
number below the limit. -/
def Collected (codec : FecCodec) (packet : Bytes) : Prop :=
  fecHeaderSizePlusSize ≤ packet.length ∧
    (packetFlag packet = fecTypeData ∨ packetFlag packet = fecTypeParity) ∧
    packetSeq packet < codec.paws

/-- A packet that is collected goes into its set. -/
theorem decode_of_collected (h : codec.Ready d p) {packet : Bytes}
    (hpacket : codec.Collected packet) :
    codec.decode packet = (do
      let (recovered, codec) ← codec.collect packet
      return ((if packetFlag packet = fecTypeData then [packet.drop fecHeaderSizePlusSize]
        else []) ++ recovered, codec)) := by
  obtain ⟨hlength, htype, hseq⟩ := hpacket
  have hshort : ¬ (¬ codec.enabled ∨ packet.length < fecHeaderSizePlusSize) := by
    rw [h.enabled_eq]
    simpa using hlength
  have hforeign : ¬ (packetFlag packet ≠ fecTypeData ∧ packetFlag packet ≠ fecTypeParity ∧
      packetFlag packet ≠ fecTypeOob) := fun hne => htype.elim hne.1 hne.2.1
  have hoob : packetFlag packet ≠ fecTypeOob := by
    rcases htype with htype | htype
    · rw [htype]
      decide
    · rw [htype]
      decide
  rw [decode, if_neg hshort]
  dsimp only
  rw [if_neg hforeign, if_neg hoob, if_neg (UInt32.not_le.mpr hseq)]

/-- A packet that is not collected leaves the decoder as it is. If it is too short or of
another type it is returned itself, and if it is data its payload is. -/
theorem decode_of_not_collected (h : codec.Ready d p) {packet : Bytes}
    (hpacket : ¬ codec.Collected packet) :
    ∃ out, codec.decode packet = .ok (out, codec) ∧ ∀ v ∈ out,
      (packet.length < fecHeaderSizePlusSize ∨ packetFlag packet ≠ fecTypeData ∧
        packetFlag packet ≠ fecTypeParity ∧ packetFlag packet ≠ fecTypeOob) ∧ v = packet ∨
      (fecHeaderSizePlusSize ≤ packet.length ∧ packetFlag packet = fecTypeData) ∧
        v = packet.drop fecHeaderSizePlusSize := by
  rw [decode]
  by_cases hshort : ¬ codec.enabled ∨ packet.length < fecHeaderSizePlusSize
  · rw [if_pos hshort]
    refine ⟨_, rfl, fun v hv => .inl ⟨.inl ?_, List.mem_singleton.mp hv⟩⟩
    exact hshort.resolve_left (not_not.mpr h.enabled_eq)
  rw [if_neg hshort]
  dsimp only
  by_cases hforeign : packetFlag packet ≠ fecTypeData ∧ packetFlag packet ≠ fecTypeParity ∧
      packetFlag packet ≠ fecTypeOob
  · rw [if_pos hforeign]
    exact ⟨_, rfl, fun v hv => .inl ⟨.inr hforeign, List.mem_singleton.mp hv⟩⟩
  rw [if_neg hforeign]
  by_cases hoob : packetFlag packet = fecTypeOob
  · rw [if_pos hoob]
    exact ⟨_, rfl, fun v hv => absurd hv List.not_mem_nil⟩
  rw [if_neg hoob]
  have hlength : fecHeaderSizePlusSize ≤ packet.length := not_lt.mp (not_or.mp hshort).2
  have hseq : codec.paws ≤ packetSeq packet := by
    by_contra hlow
    refine hpacket ⟨hlength, ?_, UInt32.not_le.mp hlow⟩
    by_contra hneither
    obtain ⟨hdata, hparity⟩ := not_or.mp hneither
    exact hforeign ⟨hdata, hparity, hoob⟩
  rw [if_pos hseq]
  refine ⟨_, rfl, fun v hv => ?_⟩
  by_cases hdata : packetFlag packet = fecTypeData
  · rw [if_pos hdata] at hv
    exact .inr ⟨⟨hlength, hdata⟩, List.mem_singleton.mp hv⟩
  · rw [if_neg hdata] at hv
    exact absurd hv List.not_mem_nil

/-- **Decoding does not throw**, whatever the bytes, and the sets keep their places. -/
theorem decode_ok (h : codec.Ready d p) (hsized : codec.Sized (d + p)) (packet : Bytes) :
    ∃ out codec', codec.decode packet = .ok (out, codec') ∧ codec'.Ready d p ∧
      codec'.Sized (d + p) := by
  by_cases hpacket : codec.Collected packet
  · obtain ⟨payloads, after, hcollect, hready, hsets⟩ := collect_ok h hsized packet
    rw [decode_of_collected h hpacket, hcollect]
    exact ⟨_, _, rfl, hready, hsets⟩
  · obtain ⟨out, hdecode, -⟩ := decode_of_not_collected h hpacket
    exact ⟨out, codec, hdecode, h, hsized⟩

/-! ### Packets of the encoder -/

section Honest

variable {packets : ℕ → Bytes}

/-- What the decoder reads off a packet of the encoder. -/
theorem read_packetAt (h : codec.Ready d p) (rs : ReedSolomon) (packets : ℕ → Bytes) (g : ℕ)
    {k : ℕ} (hk : k < d + p) :
    packetSeq (packetAt d p rs packets g k) / codec.shardSize32 = groupId (d + p) g ∧
    (packetSeq (packetAt d p rs packets g k) % codec.shardSize32).toNat = k ∧
    packetFlag (packetAt d p rs packets g k) = (if k < d then fecTypeData else fecTypeParity) ∧
    (packetAt d p rs packets g k).drop fecHeaderSize = shardAt d p rs packets g k ∧
    ¬ codec.paws ≤ packetSeq (packetAt d p rs packets g k) := by
  have hpos := h.data_pos
  have hseq : packetSeq (packetAt d p rs packets g k) = seqAt (d + p) (g * (d + p) + k) := by
    rw [packetSeq, packetAt, List.append_assoc, readLe32_writeLe32]
  have hdiv : (g * (d + p) + k) / (d + p) = g := by
    rw [Nat.mul_comm, Nat.mul_add_div (by omega), Nat.div_eq_of_lt hk, Nat.add_zero]
  refine ⟨?_, ?_, ?_, List.drop_left' rfl, ?_⟩
  · rw [hseq, shardSize32, h.size_eq, seqAt_div (by omega) h.size_le, hdiv]
  · rw [hseq, shardSize32, h.size_eq, seqAt_mod (by omega) h.size_le, Nat.mul_add_mod_of_lt hk]
  · rw [packetFlag, packetAt, List.append_assoc, List.drop_left' (length_writeLe32 _),
      readLe16_writeLe16]
  · rw [hseq, UInt32.le_iff_toNat_le, h.paws_eq, toNat_seqAt (by omega) h.size_le, not_le]
    exact Nat.mod_lt _ (wheel_pos (by omega) h.size_le)

/-- A shard of a group holds at least its size field. -/
theorem two_le_length_shardAt (h : codec.Ready d p) (packets : ℕ → Bytes) (g : ℕ) {k : ℕ}
    (hk : k < d + p) :
    2 ≤ (shardAt d p codec.rs packets g k).length := by
  have hdata : ∀ j, 2 ≤ (dataShardAt d packets g j).length := fun j => by
    rw [dataShardAt, dataShardOf, List.length_append, length_writeLe16]
    omega
  by_cases hkd : k < d
  · rw [shardAt, if_pos hkd]
    exact hdata k
  · rw [(length_shardAt h hk).2 (not_lt.mp hkd)]
    exact (hdata 0).trans (length_dataShardAt_le h.data_pos)

/-- **Decoding a packet of the encoder**: the payload of a data packet, and what collecting
the packet recovers. -/
theorem decode_packetAt (h : codec.Ready d p) (packets : ℕ → Bytes) (g : ℕ) {k : ℕ}
    (hk : k < d + p) :
    codec.decode (packetAt d p codec.rs packets g k) = (do
      let (recovered, codec) ← codec.collect (packetAt d p codec.rs packets g k)
      return ((if k < d then [packets (g * d + k)] else []) ++ recovered, codec)) := by
  obtain ⟨-, -, hflag, hdrop, hseq⟩ := read_packetAt h codec.rs packets g hk
  have hlong : fecHeaderSizePlusSize ≤ (packetAt d p codec.rs packets g k).length := by
    have hshard := two_le_length_shardAt h packets g hk
    have hlength := congrArg List.length hdrop
    rw [List.length_drop] at hlength
    have hsix : fecHeaderSize = 6 := rfl
    have height : fecHeaderSizePlusSize = 8 := rfl
    omega
  have htype : packetFlag (packetAt d p codec.rs packets g k) = fecTypeData ∨
      packetFlag (packetAt d p codec.rs packets g k) = fecTypeParity := by
    rw [hflag]
    split_ifs
    · exact .inl rfl
    · exact .inr rfl
  have hout : k < d → (packetAt d p codec.rs packets g k).drop fecHeaderSizePlusSize =
      packets (g * d + k) := fun hkd => by
    have hsplit : fecHeaderSizePlusSize = fecHeaderSize + 2 := rfl
    rw [hsplit, ← List.drop_drop, hdrop, shardAt, if_pos hkd]
    exact List.drop_left' (length_writeLe16 _)
  rw [decode_of_collected h ⟨hlong, htype, UInt32.not_le.mp hseq⟩, hflag]
  by_cases hkd : k < d
  · rw [if_pos hkd, if_pos rfl, if_pos hkd, hout hkd]
  · rw [if_neg hkd, if_neg (by decide), if_neg hkd]

/-- The shards present are at most those that have arrived. -/
theorem count_present_le {arrived : Finset ℕ} {g : ℕ} {set : ShardSet}
    (h : Honest codec d p packets arrived g set) (hsize : codec.shardSize = d + p) :
    set.present.count true ≤ arrived.card := by
  have hcount : (codec.presentIndices set).length = set.present.count true :=
    length_presentIndices (hsize ▸ h.sized)
  rw [← hcount, ← List.toFinset_card_of_nodup nodup_presentIndices]
  refine Finset.card_le_card fun i hi => ?_
  exact (h.shard_eq i (mem_presentIndices.mp (List.mem_toFinset.mp hi)).2).1

/-- If all of some shards are present, they are at most the shards present. -/
theorem card_le_count {some : Finset ℕ} {set : ShardSet} (hset : set.Sized codec.shardSize)
    (h : ∀ k ∈ some, set.present.getD k false = true) :
    some.card ≤ set.present.count true := by
  rw [← length_presentIndices hset, ← List.toFinset_card_of_nodup nodup_presentIndices]
  refine Finset.card_le_card fun i hi => List.mem_toFinset.mpr (mem_presentIndices.mpr ⟨?_, h i hi⟩)
  exact lt_of_present (p := 0) hset (h i hi)

/-- The flags after a shard was put in. -/
theorem present_insert {set : ShardSet} {index : ℕ} (hindex : index < set.present.length)
    (shard : Bytes) (isData : Bool) (k : ℕ) :
    (set.insert index shard isData).present.getD k false =
      if k = index then true else set.present.getD k false := by
  by_cases hk : k = index
  · subst hk
    simp [ShardSet.insert, hindex]
  · rw [if_neg hk, ShardSet.insert, List.getD_eq_getElem?_getD,
      List.getElem?_set_ne (Ne.symm hk), List.getD_eq_getElem?_getD]

/-- What was there is still there, and the shard that was put in. -/
theorem present_insert_of_mem {set : ShardSet} {index : ℕ} (hindex : index < set.present.length)
    (shard : Bytes) (isData : Bool) {held : Finset ℕ}
    (hheld : ∀ k ∈ held, set.present.getD k false = true) :
    ∀ k ∈ insert index held, (set.insert index shard isData).present.getD k false = true := by
  intro k hk
  rw [present_insert hindex]
  split_ifs with heq
  · rfl
  · exact hheld k (Finset.mem_of_mem_insert_of_ne hk heq)

/-- The shards after a shard was put in. -/
theorem shards_insert {set : ShardSet} {index : ℕ} (hindex : index < set.shards.length)
    (shard : Bytes) (isData : Bool) (k : ℕ) :
    (set.insert index shard isData).shards.getD k [] =
      if k = index then shard else set.shards.getD k [] := by
  by_cases hk : k = index
  · subst hk
    simp [ShardSet.insert, hindex]
  · rw [if_neg hk, ShardSet.insert, List.getD_eq_getElem?_getD,
      List.getElem?_set_ne (Ne.symm hk), List.getD_eq_getElem?_getD]

/-- **An arrived shard joins its set.** -/
theorem Honest.insert {arrived : Finset ℕ} {g : ℕ} {set : ShardSet}
    (h : Honest codec d p packets arrived g set) {k : ℕ} (hk : k < d + p) (isData : Bool) :
    Honest codec d p packets (insert k arrived) g
      (set.insert k (shardAt d p codec.rs packets g k) isData) := by
  refine ⟨h.sized.insert _ _ _, fun j hj => ?_⟩
  rw [present_insert (h.sized.present_length ▸ hk)] at hj
  rw [shards_insert (h.sized.shards_length ▸ hk)]
  by_cases hjk : j = k
  · subst hjk
    exact ⟨Finset.mem_insert_self _ _, if_pos rfl⟩
  · rw [if_neg hjk] at hj
    rw [if_neg hjk]
    exact ⟨Finset.mem_insert_of_mem (h.shard_eq j hj).1, (h.shard_eq j hj).2⟩

/-! ### Advancing -/

/-- **Advancing**: the newest group is the highest, sets that stay are near it, and the sets
of the last groups stay. -/
theorem advance_groups (h : codec.Ready d p) {highest g : ℕ}
    (hnewest : codec.newestShardId = groupId (d + p) highest)
    (hup : g ≤ highest + reach (d + p)) (hdown : highest ≤ g + reach (d + p)) :
    (codec.advance (groupId (d + p) g)).newestShardId = groupId (d + p) (max highest g) ∧
    (∀ entry ∈ (codec.advance (groupId (d + p) g)).decodeSets, ∀ m ≤ max highest g,
      highest ≤ m + reach (d + p) ∨ m = g → entry.1 = groupId (d + p) m →
        max highest g ≤ m + reach (d + p)) ∧
    ∀ m ≤ max highest g, max highest g ≤ m + 2 →
      (codec.advance (groupId (d + p) g)).shardSet (groupId (d + p) m) =
        codec.shardSet (groupId (d + p) m) := by
  have hpos := h.data_pos
  have hlarge := groupCount_large (show 0 < d + p by omega) h.size_le
  have hsize32 : codec.shardSize32 = UInt32.ofNat (d + p) := by rw [shardSize32, h.size_eq]
  have hnewer := timediff_pos_iff (show 0 < d + p by omega) h.size_le (g := g) (h := highest)
    (by omega) (by omega)
  rw [advance, hnewest, hsize32]
  by_cases hlt : highest < g
  · rw [if_pos (hnewer.mpr hlt), max_eq_right hlt.le]
    refine ⟨rfl, fun entry hentry m hm hnear hkey => ?_, fun m hm hrecent => ?_⟩
    · have hkept := (List.mem_filter.mp hentry).2
      rw [hkey] at hkept
      have hold := (discarded_bounds (show 0 < d + p by omega) h.size_le hm (by omega)).2
      by_contra hfar
      refine absurd (hold (by omega)) ?_
      simpa [hsize32, shardSize32, h.size_eq] using hkept
    · have hyoung := (discarded_bounds (show 0 < d + p by omega) h.size_le hm (by omega)).1
      refine shardSet_congr rfl ((lookup_filter (fun key => decide ¬ timediff
        (groupId (d + p) g * codec.shardSize32) (key * codec.shardSize32) >
          (maxShardSets * codec.shardSize32).toInt32) _ _).trans (if_pos (decide_eq_true ?_)))
      rw [hsize32]
      exact fun hold => absurd (hyoung hold) (by omega)
  · rw [if_neg (fun hpos => hlt (hnewer.mp hpos)), max_eq_left (not_lt.mp hlt)]
    refine ⟨hnewest, fun entry _ m hm hnear _ => ?_, fun _ _ _ => rfl⟩
    rcases hnear with hnear | rfl
    · exact hnear
    · exact hdown

/-! ### The invariant of a run -/

/-- Shard `k` of group `g` is sent by an encoder that gets `count` packets. -/
structure Sent (d p count g k : ℕ) : Prop where
  index_lt : k < d + p
  data_lt : k < d → g * d + k < count
  parity_le : d ≤ k → (g + 1) * d ≤ count

theorem Sent.mono {d p count count' g k : ℕ} (h : Sent d p count g k) (hle : count ≤ count') :
    Sent d p count' g k :=
  ⟨h.index_lt, fun hk => (h.data_lt hk).trans_le hle, fun hk => (h.parity_le hk).trans hle⟩

/-- The decoder after some packets of an encoder that gets `count` packets: `arrived g` are
the shards of group `g` delivered so far, `highest` is the highest group among them, and
`outs` is everything returned so far. -/
structure DecoderInv (d p : ℕ) (packets : ℕ → Bytes) (count : ℕ) (arrived : ℕ → Finset ℕ)
    (highest : ℕ) (outs : List Bytes) (codec : FecCodec) : Prop where
  ready : codec.Ready d p
  newest_eq : codec.newestShardId = groupId (d + p) highest
  sets_honest : ∀ entry ∈ codec.decodeSets, ∃ m ≤ highest, highest ≤ m + reach (d + p) ∧
    entry.1 = groupId (d + p) m ∧ Honest codec d p packets (arrived m) m entry.2
  arrived_le : ∀ g, ∀ k ∈ arrived g, g ≤ highest
  arrived_sent : ∀ g, ∀ k ∈ arrived g, Sent d p count g k
  /-- Everything returned is a packet handed to the encoder. -/
  sound : ∀ v ∈ outs, ∃ t < count, v = packets t
  /-- The data packets that arrived are returned. -/
  returned : ∀ g, ∀ k ∈ arrived g, k < d → packets (g * d + k) ∈ outs
  /-- A recent group that is not complete yet has all its shards in its set. -/
  kept : ∀ g, highest ≤ g + 2 → (arrived g).card < d → ∀ k ∈ arrived g,
    (codec.shardSet (groupId (d + p) g)).present.getD k false = true
  /-- A recent group that is complete is returned as a whole. -/
  full : ∀ g, highest ≤ g + 2 → d ≤ (arrived g).card → ∀ i < d, packets (g * d + i) ∈ outs

variable {count highest : ℕ} {arrived : ℕ → Finset ℕ} {outs : List Bytes}

/-- A fresh decoder takes group 0 for the newest. -/
theorem Fresh.newest_group (hfresh : codec.Fresh) (h : codec.Ready d p) :
    codec.newestShardId = groupId (d + p) 0 := by
  have hpos := h.data_pos
  rw [hfresh.newest_eq, ← UInt32.toNat_inj, toNat_groupId (by omega) h.size_le, Nat.zero_mod]
  rfl

/-- A fresh decoder. -/
theorem DecoderInv.init (h : codec.Ready d p) (hfresh : codec.Fresh) :
    DecoderInv d p packets count (fun _ => ∅) 0 [] codec where
  ready := h
  newest_eq := hfresh.newest_group h
  sets_honest entry hentry := by
    rw [hfresh.sets_eq] at hentry
    exact absurd hentry List.not_mem_nil
  arrived_le _ k hk := absurd hk (Finset.notMem_empty k)
  arrived_sent _ k hk := absurd hk (Finset.notMem_empty k)
  sound v hv := absurd hv List.not_mem_nil
  returned _ k hk := absurd hk (Finset.notMem_empty k)
  kept _ _ _ k hk := absurd hk (Finset.notMem_empty k)
  full g _ hcard := by
    have hpos := h.data_pos
    rw [Finset.card_empty] at hcard
    omega

/-- The invariant is about the decoder's part of the codec. -/
theorem DecoderInv.of_same (h : DecoderInv d p packets count arrived highest outs codec)
    {codec' : FecCodec} (hready : codec'.Ready d p)
    (hnewest : codec'.newestShardId = codec.newestShardId)
    (hsets : codec'.decodeSets = codec.decodeSets) (hrs : codec'.rs = codec.rs) :
    DecoderInv d p packets count arrived highest outs codec' where
  ready := hready
  newest_eq := hnewest.trans h.newest_eq
  sets_honest entry hentry := by
    obtain ⟨m, hm, hnear, hkey, hhonest⟩ := h.sets_honest entry (hsets ▸ hentry)
    exact ⟨m, hm, hnear, hkey, hhonest.sized, fun k hk => hrs ▸ hhonest.shard_eq k hk⟩
  arrived_le := h.arrived_le
  arrived_sent := h.arrived_sent
  sound := h.sound
  returned := h.returned
  kept g hrecent hcard k hk := by
    rw [shardSet_congr (hready.size_eq.trans h.ready.size_eq.symm) (by rw [hsets])]
    exact h.kept g hrecent hcard k hk
  full := h.full

/-- The encoder may have got more packets since. -/
theorem DecoderInv.mono (h : DecoderInv d p packets count arrived highest outs codec)
    {count' : ℕ} (hle : count ≤ count') :
    DecoderInv d p packets count' arrived highest outs codec where
  ready := h.ready
  newest_eq := h.newest_eq
  sets_honest := h.sets_honest
  arrived_le := h.arrived_le
  arrived_sent g k hk := (h.arrived_sent g k hk).mono hle
  sound v hv := by
    obtain ⟨t, ht, hvt⟩ := h.sound v hv
    exact ⟨t, ht.trans_le hle, hvt⟩
  returned := h.returned
  kept := h.kept
  full := h.full

/-- A set that is not in the table yet holds nothing. -/
theorem honest_of_lookup_none (h : codec.Ready d p) {shardId : UInt32}
    (hnone : codec.decodeSets.lookup shardId = none) (arrived : Finset ℕ) (g : ℕ) :
    Honest codec d p packets arrived g (codec.shardSet shardId) := by
  rw [shardSet, hnone]
  simp only [Option.getD_none, List.isEmpty_nil, if_true]
  refine ⟨⟨?_, ?_, ?_⟩, fun k hk => ?_⟩
  · rw [List.length_replicate, h.size_eq]
  · rw [List.length_replicate, h.size_eq]
  · rw [List.length_replicate, h.size_eq]
  · rw [List.getD_eq_getElem?_getD, List.getElem?_getD_replicate_default_eq] at hk
    cases hk

/-- **The set found for a packet** holds shards of the packet's own group only. -/
theorem DecoderInv.honest_shardSet (h : DecoderInv d p packets count arrived highest outs codec)
    {g : ℕ} (hup : g ≤ highest + reach (d + p)) (hdown : highest ≤ g + reach (d + p)) :
    Honest codec d p packets (arrived g) g (codec.shardSet (groupId (d + p) g)) := by
  have hpos := h.ready.data_pos
  cases hlookup : codec.decodeSets.lookup (groupId (d + p) g) with
  | none => exact honest_of_lookup_none h.ready hlookup (arrived g) g
  | some set =>
      rw [shardSet, hlookup]
      obtain ⟨m, hm, hnear, hkey, hhonest⟩ := h.sets_honest _ (mem_of_lookup hlookup)
      have heq : g = m := groupId_injective (show 0 < d + p by omega) h.ready.size_le
        (by omega) (by omega) hkey
      subst heq
      have hfull : ¬ set.shards.isEmpty = true := by
        rw [List.isEmpty_iff, ← List.length_eq_zero_iff, hhonest.sized.shards_length]
        omega
      rw [Option.getD_some, if_neg hfull]
      exact hhonest

/-- The shards arrived after one more. -/
def arrive (arrived : ℕ → Finset ℕ) (g k : ℕ) : ℕ → Finset ℕ :=
  Function.update arrived g (insert k (arrived g))

theorem arrive_self (arrived : ℕ → Finset ℕ) (g k : ℕ) :
    arrive arrived g k g = insert k (arrived g) := Function.update_self ..

theorem arrive_of_ne {g m : ℕ} (hne : m ≠ g) (arrived : ℕ → Finset ℕ) (k : ℕ) :
    arrive arrived g k m = arrived m := Function.update_of_ne hne ..

theorem subset_arrive (arrived : ℕ → Finset ℕ) (g k m : ℕ) : arrived m ⊆ arrive arrived g k m := by
  by_cases hm : m = g
  · subst hm
    rw [arrive_self]
    exact Finset.subset_insert _ _
  · rw [arrive_of_ne hm]

theorem mem_arrive {g k m j : ℕ} :
    j ∈ arrive arrived g k m ↔ j ∈ arrived m ∨ m = g ∧ j = k := by
  by_cases hm : m = g
  · subst hm
    rw [arrive_self, Finset.mem_insert, or_comm, and_iff_right rfl]
  · rw [arrive_of_ne hm, or_iff_left fun h => hm h.1]

/-- What adding a shard of group `g` makes of the table, before the step to a newer group. -/
structure Added (d p : ℕ) (packets : ℕ → Bytes) (count : ℕ) (arrived : ℕ → Finset ℕ)
    (highest g k : ℕ) (before after : FecCodec) (recovered : List Bytes) : Prop where
  ready : after.Ready d p
  newest_eq : after.newestShardId = before.newestShardId
  rs_eq : after.rs = before.rs
  sets_honest : ∀ entry ∈ after.decodeSets, ∃ m ≤ max highest g,
    (highest ≤ m + reach (d + p) ∨ m = g) ∧ entry.1 = groupId (d + p) m ∧
      Honest before d p packets (arrive arrived g k m) m entry.2
  others : ∀ a, a ≠ groupId (d + p) g → after.shardSet a = before.shardSet a
  kept : highest ≤ g + 2 → (arrive arrived g k g).card < d → ∀ j ∈ arrive arrived g k g,
    (after.shardSet (groupId (d + p) g)).present.getD j false = true
  full : highest ≤ g + 2 → (arrived g).card < d → d ≤ (arrive arrived g k g).card → ∀ i < d,
    i ∉ arrive arrived g k g → packets (g * d + i) ∈ recovered
  sound : ∀ v ∈ recovered, ∃ t < count, v = packets t

/-- **Adding a shard** of a packet of the encoder that is not in its set yet. -/
theorem addShard_spec (h : DecoderInv d p packets count arrived highest outs codec)
    (hpackets : ∀ t, (packets t).length ≤ 65533) {g k : ℕ} (hsent : Sent d p count g k)
    (hup : g ≤ highest + reach (d + p)) (hdown : highest ≤ g + reach (d + p)) (isData : Bool) :
    ∃ recovered after, codec.addShard (groupId (d + p) g) k
        (packetAt d p codec.rs packets g k) isData = .ok (recovered, after) ∧
      Added d p packets count arrived highest g k codec after recovered := by
  have hhonest := (h.honest_shardSet hup hdown).insert hsent.index_lt isData
  have hdrop : (packetAt d p codec.rs packets g k).drop fecHeaderSize =
      shardAt d p codec.rs packets g k := List.drop_left' rfl
  have hold : ∀ entry ∈ codec.decodeSets, ∃ m ≤ max highest g,
      (highest ≤ m + reach (d + p) ∨ m = g) ∧ entry.1 = groupId (d + p) m ∧
        Honest codec d p packets (arrive arrived g k m) m entry.2 := fun entry hentry => by
    obtain ⟨m, hm, hnear, hkey, hset⟩ := h.sets_honest entry hentry
    exact ⟨m, hm.trans (le_max_left ..), .inl hnear, hkey, hset.mono (subset_arrive ..)⟩
  rw [addShard, hdrop]
  obtain ⟨set, hset⟩ : ∃ set, set = (codec.shardSet (groupId (d + p) g)).insert k
    (shardAt d p codec.rs packets g k) isData := ⟨_, rfl⟩
  rw [← hset] at hhonest ⊢
  rw [← arrive_self] at hhonest
  have hsized : set.Sized codec.shardSize := h.ready.size_eq ▸ hhonest.sized
  have hstaying : ∀ {m : ℕ}, m ≠ g → arrive arrived g k m = arrived m := fun hm =>
    arrive_of_ne hm arrived k
  -- While the group is incomplete and recent, everything of it that arrived is in the set.
  have hpresent : highest ≤ g + 2 → (arrived g).card < d → ∀ j ∈ arrive arrived g k g,
      set.present.getD j false = true := by
    intro hrecent hcard
    have hplaces := (h.honest_shardSet hup hdown).sized.present_length
    rw [hset, arrive_self]
    exact present_insert_of_mem (hsent.index_lt.trans_eq hplaces.symm) _ _
      (h.kept g hrecent hcard)
  have hgrow : (arrived g).card ≤ (arrive arrived g k g).card :=
    Finset.card_le_card (subset_arrive ..)
  by_cases hfull : codec.dataShards ≤ set.present.count true
  · have henough : d ≤ set.present.count true := h.ready.data_eq ▸ hfull
    obtain ⟨payloads, hrecover, hmissing, hsound⟩ :=
      recover_honest h.ready hhonest hpackets henough
    simp only [if_pos hfull, hrecover]
    refine ⟨payloads, _, rfl, ?_⟩
    exact {
      ready := h.ready.of_same rfl rfl rfl rfl rfl rfl
      newest_eq := rfl
      rs_eq := rfl
      sets_honest := fun entry hentry => hold entry (List.mem_filter.mp hentry).1
      others := fun a ha => shardSet_congr rfl (lookup_eraseSet.trans (if_neg ha))
      kept := fun _ hcard => by
        have hle := count_present_le hhonest h.ready.size_eq
        omega
      full := fun _ _ _ i hi hnot => hmissing i hi (by
        by_contra hkept
        exact hnot (hhonest.shard_eq i (by simpa using hkept)).1)
      sound := fun v hv => by
        obtain ⟨⟨i, hi, rfl⟩, parity, hparity, hge⟩ := hsound v hv
        rw [arrive_self] at hparity
        have hle : (g + 1) * d ≤ count := by
          rcases Finset.mem_insert.mp hparity with rfl | hparity
          · exact hsent.parity_le hge
          · exact (h.arrived_sent g parity hparity).parity_le hge
        rw [Nat.add_mul] at hle
        exact ⟨g * d + i, by omega, rfl⟩ }
  · simp only [if_neg hfull]
    refine ⟨[], _, rfl, ?_⟩
    have hstored := shardSet_stored h.ready hhonest.sized (groupId (d + p) g)
    exact {
      ready := h.ready.of_same rfl rfl rfl rfl rfl rfl
      newest_eq := rfl
      rs_eq := rfl
      sets_honest := fun entry hentry => by
        rcases List.mem_cons.mp hentry with rfl | hentry
        · exact ⟨g, le_max_right .., .inr rfl, rfl, hhonest⟩
        · exact hold entry (List.mem_filter.mp hentry).1
      others := fun a ha => shardSet_congr rfl (lookup_storeSet.trans (if_neg ha))
      kept := fun hrecent hcard j hj => by
        rw [hstored]
        exact hpresent hrecent (hgrow.trans_lt hcard) j hj
      full := fun hrecent hcard hall => by
        have hle := card_le_count hsized (hpresent hrecent hcard)
        rw [h.ready.data_eq] at hfull
        omega
      sound := fun v hv => absurd hv List.not_mem_nil }

/-- Returning more packets of the encoder changes nothing else. -/
theorem DecoderInv.append (h : DecoderInv d p packets count arrived highest outs codec)
    {more : List Bytes} (hmore : ∀ v ∈ more, ∃ t < count, v = packets t) :
    DecoderInv d p packets count arrived highest (outs ++ more) codec where
  ready := h.ready
  newest_eq := h.newest_eq
  sets_honest := h.sets_honest
  arrived_le := h.arrived_le
  arrived_sent := h.arrived_sent
  sound v hv := (List.mem_append.mp hv).elim (h.sound v) (hmore v)
  returned g k hk hkd := List.mem_append_left _ (h.returned g k hk hkd)
  kept := h.kept
  full g hrecent hcard i hi := List.mem_append_left _ (h.full g hrecent hcard i hi)

/-- The packet that a data packet carries, and nothing for a parity packet. -/
def carried (d : ℕ) (packets : ℕ → Bytes) (g k : ℕ) : List Bytes :=
  if k < d then [packets (g * d + k)] else []

theorem carried_sound {g k : ℕ} (hsent : Sent d p count g k) :
    ∀ v ∈ carried d packets g k, ∃ t < count, v = packets t := by
  intro v hv
  by_cases hkd : k < d
  · rw [carried, if_pos hkd] at hv
    exact ⟨_, hsent.data_lt hkd, List.mem_singleton.mp hv⟩
  · rw [carried, if_neg hkd] at hv
    exact absurd hv List.not_mem_nil

/-- **The step to a newer group** completes the effect of a packet that was added. -/
theorem Added.advance (h : DecoderInv d p packets count arrived highest outs codec)
    {g k : ℕ} (hsent : Sent d p count g k) (hup : g ≤ highest + reach (d + p))
    (hdown : highest ≤ g + reach (d + p)) {after : FecCodec} {recovered : List Bytes}
    (hadded : Added d p packets count arrived highest g k codec after recovered) :
    DecoderInv d p packets count (arrive arrived g k) (max highest g)
      (outs ++ (carried d packets g k ++ recovered)) (after.advance (groupId (d + p) g)) := by
  have hpos := h.ready.data_pos
  have hlarge := groupCount_large (show 0 < d + p by omega) h.ready.size_le
  obtain ⟨hnewest, hnear, hstays⟩ := advance_groups hadded.ready
    (hadded.newest_eq.trans h.newest_eq) hup hdown
  have hrs : (after.advance (groupId (d + p) g)).rs = codec.rs := by
    rw [(advance_spec after _).2]
    exact hadded.rs_eq
  have harrivedLe : ∀ m, ∀ j ∈ arrive arrived g k m, m ≤ max highest g := by
    intro m j hj
    rcases mem_arrive.mp hj with hold | ⟨rfl, -⟩
    · exact (h.arrived_le m j hold).trans (le_max_left ..)
    · exact le_max_right ..
  have hreturned : ∀ m, ∀ j ∈ arrive arrived g k m, j < d →
      packets (m * d + j) ∈ outs ++ (carried d packets g k ++ recovered) := by
    intro m j hj hjd
    rcases mem_arrive.mp hj with hold | ⟨rfl, rfl⟩
    · exact List.mem_append_left _ (h.returned m j hold hjd)
    · refine List.mem_append_right _ (List.mem_append_left _ ?_)
      rw [carried, if_pos hjd]
      exact List.mem_singleton_self _
  exact {
    ready := hadded.ready.advance _
    newest_eq := hnewest
    sets_honest := fun entry hentry => by
      obtain ⟨m, hm, hclose, hkey, hset⟩ :=
        hadded.sets_honest entry ((advance_spec after _).1 hentry)
      refine ⟨m, hm, hnear entry hentry m hm hclose hkey, hkey, hset.sized, fun j hj => ?_⟩
      rw [hrs]
      exact hset.shard_eq j hj
    arrived_le := harrivedLe
    arrived_sent := by
      intro m j hj
      rcases mem_arrive.mp hj with hold | ⟨rfl, rfl⟩
      · exact h.arrived_sent m j hold
      · exact hsent
    sound := fun v hv => by
      rcases List.mem_append.mp hv with hv | hv
      · exact h.sound v hv
      · exact (List.mem_append.mp hv).elim (carried_sound hsent v) (hadded.sound v)
    returned := hreturned
    kept := fun m hrecent hcard j hj => by
      have hm := harrivedLe m j hj
      rw [hstays m hm hrecent]
      by_cases hmg : m = g
      · subst hmg
        exact hadded.kept (by omega) hcard j hj
      · rw [arrive_of_ne hmg] at hj hcard
        have hle := h.arrived_le m j hj
        have hne : groupId (d + p) m ≠ groupId (d + p) g := fun heq =>
          hmg (groupId_injective (show 0 < d + p by omega) h.ready.size_le (by omega) (by omega)
            heq)
        rw [hadded.others _ hne]
        exact h.kept m (by omega) hcard j hj
    full := fun m hrecent hcard i hi => by
      by_cases harrived : i ∈ arrive arrived g k m
      · exact hreturned m i harrived hi
      · by_cases hcomplete : d ≤ (arrived m).card
        · exact List.mem_append_left _ (h.full m (by omega) hcomplete i hi)
        · by_cases hmg : m = g
          · subst hmg
            exact List.mem_append_right _ (List.mem_append_right _
              (hadded.full (by omega) (not_le.mp hcomplete) hcard i hi harrived))
          · rw [arrive_of_ne hmg] at hcard
            exact absurd hcard hcomplete }

/-- **One packet**: decoding a packet of the encoder that lies near the highest group keeps
the invariant. -/
theorem decode_step (h : DecoderInv d p packets count arrived highest outs codec)
    (hpackets : ∀ t, (packets t).length ≤ 65533) {g k : ℕ} (hsent : Sent d p count g k)
    (hup : g ≤ highest + reach (d + p)) (hdown : highest ≤ g + reach (d + p)) :
    ∃ out after, codec.decode (packetAt d p codec.rs packets g k) = .ok (out, after) ∧
      DecoderInv d p packets count (arrive arrived g k) (max highest g) (outs ++ out) after ∧
      after.rs = codec.rs := by
  have hdecode := decode_packetAt h.ready packets g hsent.index_lt
  obtain ⟨hdiv, hmod, -, -, -⟩ := read_packetAt h.ready codec.rs packets g hsent.index_lt
  rw [collect] at hdecode
  dsimp only at hdecode
  rw [hdiv, hmod] at hdecode
  by_cases hpresent : (codec.shardSet (groupId (d + p) g)).present.getD k false = true
  · rw [if_pos hpresent] at hdecode
    have hk := ((h.honest_shardSet hup hdown).shard_eq k hpresent).1
    have hsame : arrive arrived g k = arrived := by
      rw [arrive, Finset.insert_eq_of_mem hk, Function.update_eq_self]
    have hmax : max highest g = highest := max_eq_left (h.arrived_le g k hk)
    refine ⟨carried d packets g k ++ [], codec, hdecode, ?_, rfl⟩
    rw [hsame, hmax, List.append_nil]
    exact h.append (carried_sound hsent)
  · rw [if_neg hpresent] at hdecode
    obtain ⟨recovered, after, hadd, hadded⟩ := addShard_spec h hpackets hsent hup hdown
      (packetFlag (packetAt d p codec.rs packets g k) = fecTypeData)
    rw [hadd] at hdecode
    refine ⟨_, _, hdecode, hadded.advance h hsent hup hdown, ?_⟩
    rw [(advance_spec after _).2]
    exact hadded.rs_eq

end Honest

end FecCodec

end Shimakaze
