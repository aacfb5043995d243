import Mathlib.Data.Finset.Card
import Shimakaze.Fec.Encoder

/-!
# Shard Sets

What the decoder does with one shard set, and with the table of sets. A set that holds `d`
shards can always be reconstructed, whatever bytes they are; if the shards are those of one
group of the encoder, padding makes them a codeword again, and the payloads recovered are
the packets of the group that are not in the set.

## Main results

* `FecCodec.recover_ok`: recovery does not throw, for any shards.
* `FecCodec.recover_honest`: recovery of the missing packets of a group.
-/

namespace Shimakaze

/-! ### Filling up -/

@[simp] theorem length_resize (bytes : Bytes) (size : ℕ) : (resize bytes size).length = size := by
  rw [resize, List.length_append, List.length_take, List.length_replicate]
  omega

/-- Filling up to a size that is not smaller only appends. -/
theorem resize_of_le {bytes : Bytes} {size : ℕ} (h : bytes.length ≤ size) :
    resize bytes size = bytes ++ List.replicate (size - bytes.length) 0 := by
  rw [resize, List.take_of_length_le h]

/-- A loop that replaces the elements at several different places. -/
theorem getD_foldl_set {f : Bytes → Bytes} :
    ∀ (places : List ℕ) (shards : List Bytes), places.Nodup →
      (∀ i ∈ places, i < shards.length) → ∀ k,
      (places.foldl (fun shards i => shards.set i (f (shards.getD i []))) shards).getD k [] =
        if k ∈ places then f (shards.getD k []) else shards.getD k [] := by
  intro places
  induction places with
  | nil => exact fun _ _ _ k => by simp
  | cons i places ih =>
      intro shards hnodup hrange k
      obtain ⟨hnot, hnodup⟩ := List.nodup_cons.mp hnodup
      have hi := hrange i List.mem_cons_self
      rw [List.foldl_cons, ih _ hnodup (fun j hj => by
        rw [List.length_set]
        exact hrange j (List.mem_cons_of_mem _ hj))]
      by_cases hki : k = i
      · subst hki
        rw [if_neg hnot, if_pos List.mem_cons_self,
          List.getD_eq_getElem _ _ (by rwa [List.length_set]), List.getElem_set_self]
      · have hset : (shards.set i (f (shards.getD i []))).getD k [] = shards.getD k [] := by
          rw [List.getD_eq_getElem?_getD, List.getElem?_set_ne (Ne.symm hki),
            List.getD_eq_getElem?_getD]
        rw [hset]
        by_cases hmem : k ∈ places
        · rw [if_pos hmem, if_pos (List.mem_cons_of_mem _ hmem)]
        · rw [if_neg hmem, if_neg (fun hcons => (List.mem_cons.mp hcons).elim hki hmem)]

/-- A set with places for `size` shards. -/
structure ShardSet.Sized (set : ShardSet) (size : ℕ) : Prop where
  shards_length : set.shards.length = size
  present_length : set.present.length = size
  dataShard_length : set.dataShard.length = size

/-- Putting a shard in keeps the places. -/
theorem ShardSet.Sized.insert {set : ShardSet} {size : ℕ} (h : set.Sized size) (index : ℕ)
    (shard : Bytes) (isData : Bool) : (set.insert index shard isData).Sized size where
  shards_length := (List.length_set ..).trans h.shards_length
  present_length := (List.length_set ..).trans h.present_length
  dataShard_length := (List.length_set ..).trans h.dataShard_length

namespace FecCodec

variable {codec : FecCodec} {d p : ℕ} {set : ShardSet}

/-! ### One set -/

theorem mem_presentIndices {i : ℕ} :
    i ∈ codec.presentIndices set ↔ i < codec.shardSize ∧ set.present.getD i false = true := by
  rw [presentIndices, List.mem_filter, List.mem_range]

theorem nodup_presentIndices : (codec.presentIndices set).Nodup :=
  List.nodup_range.filter _

/-- The number of shards present. -/
theorem length_presentIndices (hset : set.Sized codec.shardSize) :
    (codec.presentIndices set).length = set.present.count true := by
  rw [presentIndices, ← hset.present_length, ReedSolomon.length_filter_present]

/-- The padded shards: those present filled up, the others as they are. -/
theorem getD_paddedShards (hset : set.Sized codec.shardSize) {k : ℕ} (hk : k < codec.shardSize) :
    (codec.paddedShards set).getD k [] =
      if set.present.getD k false = true then resize (set.shards.getD k []) (codec.maxLen set)
      else set.shards.getD k [] := by
  rw [paddedShards, getD_foldl_set (f := fun shard => resize shard (codec.maxLen set)) _ _
    nodup_presentIndices fun i hi => hset.shards_length ▸ (mem_presentIndices.mp hi).1]
  simp only [mem_presentIndices, hk, true_and]

/-- Padding keeps the places. -/
theorem length_paddedShards (hset : set.Sized codec.shardSize) :
    (codec.paddedShards set).length = codec.shardSize := by
  have hloop : ∀ (places : List ℕ) (shards : List Bytes), (places.foldl (fun shards i =>
      shards.set i (resize (shards.getD i []) (codec.maxLen set))) shards).length =
        shards.length := by
    intro places
    induction places with
    | nil => exact fun _ => rfl
    | cons i places ih => exact fun shards => (ih _).trans (List.length_set ..)
  rw [paddedShards, hloop, hset.shards_length]

/-- **Recovery does not throw**, whatever the shards are. -/
theorem recover_ok (h : codec.Ready d p) (hset : set.Sized (d + p))
    (henough : d ≤ set.present.count true) : ∃ payloads, codec.recover set = .ok payloads := by
  have hchosen : d ≤ (codec.rs.validIndices set.present).length := by
    rw [ReedSolomon.length_validIndices h.rs_valid hset.present_length]
    omega
  obtain ⟨hlength, rows, hinjective, hrows⟩ := ReedSolomon.exists_rows h.rs_valid hchosen
  obtain ⟨dataDecode, hinvert, -, -⟩ :=
    ReedSolomon.invert_chosen h.rs_valid hlength hinjective fun r => (hrows r).1
  have hreconstruct := ReedSolomon.reconstructData_of_enough (codec.paddedShards set)
    (by rw [h.rs_valid.data_eq, hlength]) hinvert
  rw [recover]
  by_cases hall : ((codec.presentIndices set).filter fun i => i < codec.dataShards).length ≠
      codec.dataShards
  · rw [if_pos hall, hreconstruct]
    exact ⟨_, rfl⟩
  · rw [if_neg hall]
    exact ⟨_, rfl⟩

/-! ### The set of a group -/

section Honest

variable {packets : ℕ → Bytes} {arrived : Finset ℕ} {g : ℕ}

/-- A set whose shards are shards of group `g` that have arrived. -/
structure Honest (codec : FecCodec) (d p : ℕ) (packets : ℕ → Bytes) (arrived : Finset ℕ) (g : ℕ)
    (set : ShardSet) : Prop where
  sized : set.Sized (d + p)
  shard_eq : ∀ k, set.present.getD k false = true →
    k ∈ arrived ∧ set.shards.getD k [] = shardAt d p codec.rs packets g k

/-- Later arrivals change nothing about a set. -/
theorem Honest.mono (h : Honest codec d p packets arrived g set) {arrived' : Finset ℕ}
    (hle : arrived ⊆ arrived') : Honest codec d p packets arrived' g set :=
  ⟨h.sized, fun k hk => ⟨hle (h.shard_eq k hk).1, (h.shard_eq k hk).2⟩⟩

/-- Shards present have their places. -/
theorem lt_of_present (hset : set.Sized (d + p)) {k : ℕ}
    (hk : set.present.getD k false = true) : k < d + p := by
  by_contra hge
  rw [List.getD_eq_default _ _ (by rw [hset.present_length]; omega)] at hk
  exact Bool.false_ne_true hk

/-- The loop for the longest shard, over any list of places. -/
theorem foldl_max (f : ℕ → ℕ) (places : List ℕ) (start : ℕ) :
    start ≤ places.foldl (fun len i => max len (f i)) start ∧
    (∀ i ∈ places, f i ≤ places.foldl (fun len i => max len (f i)) start) ∧
    ∀ bound, start ≤ bound → (∀ i ∈ places, f i ≤ bound) →
      places.foldl (fun len i => max len (f i)) start ≤ bound := by
  induction places generalizing start with
  | nil => exact ⟨le_rfl, fun i hi => absurd hi List.not_mem_nil, fun _ h _ => h⟩
  | cons j places ih =>
      obtain ⟨hstart, hmem, hbound⟩ := ih (max start (f j))
      refine ⟨(le_max_left ..).trans hstart, fun i hi => ?_, fun bound hs hall => ?_⟩
      · rcases List.mem_cons.mp hi with rfl | hi
        · exact (le_max_right ..).trans hstart
        · exact hmem i hi
      · exact hbound bound (max_le hs (hall j List.mem_cons_self))
          fun i hi => hall i (List.mem_cons_of_mem _ hi)

/-- The data shards of a group are not longer than the longest. -/
theorem length_dataShardAt_le {k : ℕ} (hk : k < d) :
    (dataShardAt d packets g k).length ≤ longest d packets g d :=
  (foldl_max (fun k => (dataShardAt d packets g k).length) (List.range d) 0).2.1 k
    (List.mem_range.mpr hk)

/-- The padded data of a group has one length. -/
theorem length_of_mem_paddedData : ∀ shard ∈ paddedData d packets g,
    shard.length = longest d packets g d := by
  intro shard hshard
  obtain ⟨k, -, rfl⟩ := List.mem_map.mp hshard
  exact length_resize _ _

/-- **The shards of a group are a codeword** of its padded data. -/
theorem groupCodeword_codeword (h : codec.Ready d p) (packets : ℕ → Bytes) (g : ℕ) :
    Codeword d (d + p) (longest d packets g d) codec.rs.matrix (paddedData d packets g)
      (groupCodeword d p codec.rs packets g) :=
  ReedSolomon.encode_codeword h.rs_valid (by simp [paddedData]) length_of_mem_paddedData
    List.length_replicate fun shard hshard => by
      rw [List.eq_of_mem_replicate hshard, List.length_replicate]

/-- Every shard of a group, filled up, is its part of the codeword. -/
theorem resize_shardAt (h : codec.Ready d p) {k : ℕ} (hk : k < d + p) :
    resize (shardAt d p codec.rs packets g k) (longest d packets g d) =
      (groupCodeword d p codec.rs packets g).getD k [] := by
  rw [shardAt]
  by_cases hkd : k < d
  · rw [if_pos hkd, groupCodeword, List.getD_append _ _ _ _ (by simpa [paddedData] using hkd)]
    simp [paddedData, hkd]
  · have hlength := (groupCodeword_codeword h packets g).shard_length k hk
    rw [if_neg hkd, resize_of_le hlength.le, hlength, Nat.sub_self, List.replicate_zero,
      List.append_nil]

/-- A shard of a group is not longer than the codeword, and a parity shard is as long. -/
theorem length_shardAt (h : codec.Ready d p) {k : ℕ} (hk : k < d + p) :
    (shardAt d p codec.rs packets g k).length ≤ longest d packets g d ∧
    (d ≤ k → (shardAt d p codec.rs packets g k).length = longest d packets g d) := by
  rw [shardAt]
  by_cases hkd : k < d
  · rw [if_pos hkd]
    exact ⟨length_dataShardAt_le hkd, fun hge => absurd hkd (not_lt.mpr hge)⟩
  · have hlength := (groupCodeword_codeword h packets g).shard_length k hk
    rw [if_neg hkd]
    exact ⟨hlength.le, fun _ => hlength⟩

/-- The payload of a padded data shard is the packet it was made from. -/
theorem payload_resize {packet : Bytes} (hpacket : packet.length ≤ 65533) {len : ℕ}
    (hlen : (dataShardOf packet).length ≤ len) :
    payload (resize (dataShardOf packet) len) = some packet := by
  have hshard : (dataShardOf packet).length = packet.length + 2 := by
    rw [dataShardOf, List.length_append, length_writeLe16, Nat.add_comm]
  have hsize : (readLe16 (resize (dataShardOf packet) len)).toNat = packet.length + 2 := by
    rw [resize_of_le hlen, dataShardOf, List.append_assoc, readLe16_writeLe16,
      UInt16.toNat_ofNat']
    exact Nat.mod_eq_of_lt (by omega)
  have hlong : ¬ (resize (dataShardOf packet) len).length < 2 := by
    rw [length_resize]
    omega
  have hfits : 2 ≤ packet.length + 2 ∧
      packet.length + 2 ≤ (resize (dataShardOf packet) len).length := by
    rw [length_resize]
    omega
  rw [payload, if_neg hlong, hsize, if_pos hfits, resize_of_le hlen, ← hshard,
    List.take_left' rfl]
  exact congrArg some (List.drop_left' (length_writeLe16 _))

/-- A set with `d` shards that lacks a data shard holds a parity shard. -/
theorem exists_parity (hsize : codec.shardSize = d + p) (hdata : codec.dataShards = d)
    (hset : set.Sized (d + p)) (henough : d ≤ set.present.count true)
    (hmissing : ((codec.presentIndices set).filter fun i => i < codec.dataShards).length ≠
      codec.dataShards) : ∃ k, d ≤ k ∧ set.present.getD k false = true := by
  by_contra hnone
  push Not at hnone
  rw [hdata] at hmissing
  have hall : (codec.presentIndices set).filter (fun i => i < d) = codec.presentIndices set := by
    refine List.filter_eq_self.mpr fun i hi => decide_eq_true ?_
    by_contra hge
    exact hnone i (not_lt.mp hge) (mem_presentIndices.mp hi).2
  have hatMost : ((codec.presentIndices set).filter fun i => i < d).length ≤ d := by
    have hsub : (codec.presentIndices set).filter (fun i => i < d) ⊆ List.range d := fun i hi =>
      List.mem_range.mpr (by simpa using (List.mem_filter.mp hi).2)
    have hle := (List.subperm_of_subset (nodup_presentIndices.filter _) hsub).length_le
    rwa [List.length_range] at hle
  have hcount : (codec.presentIndices set).length = set.present.count true :=
    length_presentIndices (hsize ▸ hset)
  rw [hall] at hmissing hatMost
  omega

/-- If all data shards are there, none is missing. -/
theorem present_of_dataPresent (hdata : codec.dataShards = d)
    (hall : ((codec.presentIndices set).filter fun i => i < codec.dataShards).length =
      codec.dataShards) {k : ℕ} (hk : k < d) : set.present.getD k false = true := by
  rw [hdata] at hall
  have hsub : (codec.presentIndices set).filter (fun i => i < d) ⊆ List.range d := fun i hi =>
    List.mem_range.mpr (by simpa using (List.mem_filter.mp hi).2)
  have hperm := (List.subperm_of_subset (nodup_presentIndices.filter _) hsub).perm_of_length_le
    (by rw [hall, List.length_range])
  have hmem := hperm.mem_iff.mpr (List.mem_range.mpr hk)
  exact (mem_presentIndices.mp (List.mem_filter.mp hmem).1).2

/-- **Recovery of the missing packets** of a group: everything returned is a packet of the
group, every packet whose shard is not in the set is returned, and something is returned
only if a parity shard has arrived. -/
theorem recover_honest (h : codec.Ready d p) (hset : Honest codec d p packets arrived g set)
    (hpackets : ∀ t, (packets t).length ≤ 65533) (henough : d ≤ set.present.count true) :
    ∃ payloads, codec.recover set = .ok payloads ∧
      (∀ i < d, set.present.getD i false = false → packets (g * d + i) ∈ payloads) ∧
      ∀ v ∈ payloads, (∃ i < d, v = packets (g * d + i)) ∧ ∃ k ∈ arrived, d ≤ k := by
  have hsized : set.Sized codec.shardSize := h.size_eq ▸ hset.sized
  by_cases hall : ((codec.presentIndices set).filter fun i => i < codec.dataShards).length =
      codec.dataShards
  · refine ⟨[], by rw [recover, if_neg (not_not.mpr hall)]; rfl, fun i hi hmissing => ?_,
      fun v hv => absurd hv List.not_mem_nil⟩
    rw [present_of_dataPresent h.data_eq hall hi] at hmissing
    cases hmissing
  · obtain ⟨parity, hparity, hpresent⟩ :=
      exists_parity h.size_eq h.data_eq hset.sized henough hall
    have hparityLt := lt_of_present hset.sized hpresent
    -- The parity shard is as long as the codeword, so padding restores the codeword.
    have hmaxLen : codec.maxLen set = longest d packets g d := by
      obtain ⟨-, hmem, hbound⟩ := foldl_max (fun i => (set.shards.getD i []).length)
        (codec.presentIndices set) 0
      refine le_antisymm (hbound _ (Nat.zero_le _) fun i hi => ?_) ?_
      · have hi := (mem_presentIndices.mp hi).2
        rw [(hset.shard_eq i hi).2]
        exact (length_shardAt h (lt_of_present hset.sized hi)).1
      · have hle := hmem parity (mem_presentIndices.mpr ⟨h.size_eq ▸ hparityLt, hpresent⟩)
        rwa [(hset.shard_eq parity hpresent).2, (length_shardAt h hparityLt).2 hparity] at hle
    have hagree : ∀ k < d + p, set.present.getD k false = true →
        (codec.paddedShards set).getD k [] =
          (groupCodeword d p codec.rs packets g).getD k [] := fun k hk hkept => by
      rw [getD_paddedShards hsized (h.size_eq ▸ hk), if_pos hkept, hmaxLen,
        (hset.shard_eq k hkept).2, resize_shardAt h hk]
    have hchosen : d ≤ (codec.rs.validIndices set.present).length := by
      rw [ReedSolomon.length_validIndices h.rs_valid hset.sized.present_length]
      omega
    have hreconstruct := ReedSolomon.reconstructData_spec h.rs_valid h.data_pos
      (groupCodeword_codeword h packets g) (by simp [paddedData]) length_of_mem_paddedData
      ((length_paddedShards hsized).trans h.size_eq) hagree hchosen
    have hpayload : ∀ i < d, payload ((paddedData d packets g ++
        (codec.paddedShards set).drop d).getD i []) = some (packets (g * d + i)) := fun i hi => by
      rw [List.getD_append _ _ _ _ (by simpa [paddedData] using hi)]
      have hshard : (paddedData d packets g).getD i [] =
          resize (dataShardOf (packets (g * d + i))) (longest d packets g d) := by
        simp [paddedData, hi, dataShardAt]
      rw [hshard]
      exact payload_resize (hpackets _) (length_dataShardAt_le hi)
    refine ⟨(List.range d).filterMap fun i => if set.present.getD i false then none else
      payload ((paddedData d packets g ++ (codec.paddedShards set).drop d).getD i []), ?_,
      fun i hi hmissing => ?_, fun v hv => ?_⟩
    · rw [recover, if_pos hall, hreconstruct, h.data_eq]
      rfl
    · refine List.mem_filterMap.mpr ⟨i, List.mem_range.mpr hi, ?_⟩
      rw [if_neg (by rw [hmissing]; exact Bool.false_ne_true), hpayload i hi]
    · obtain ⟨i, hi, hv⟩ := List.mem_filterMap.mp hv
      have hid := List.mem_range.mp hi
      refine ⟨⟨i, hid, ?_⟩, parity, (hset.shard_eq parity hpresent).1, hparity⟩
      by_cases hkept : set.present.getD i false = true
      · rw [if_pos hkept] at hv
        cases hv
      · rw [if_neg hkept, hpayload i hid] at hv
        exact (Option.some.inj hv).symm

end Honest

end FecCodec

end Shimakaze
