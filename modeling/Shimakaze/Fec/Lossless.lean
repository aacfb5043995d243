import Shimakaze.Fec.Delivery
import Shimakaze.Fec.Discipline

/-!
# A Network that Loses Nothing

Everything the encoder sends, decoded in order. The data packets of a group are returned one
by one, and the last of them completes the set of the group, which is dropped. The parity
packets that follow find no set and make a new one. If there are fewer of them than data
shards, they stay there and return nothing; if there are as many, they complete the set by
themselves, and the decoder recovers packets it has already returned.

## Main results

* `FecCodec.Lockstep.decode`: what one packet returns when nothing is lost.
* `FecCodec.encodeAll_parity_iff`: which calls send parity packets.
* `FecCodec.lossless_iff`: **the packets come out once each and in order exactly if there are
  fewer parity than data shards, or no call sends parity packets.**
-/

namespace Shimakaze

namespace FecCodec

variable {codec : FecCodec} {d p : ℕ} {packets : ℕ → Bytes}

/-! ### The decoder in step with the encoder -/

/-- The decoder when the packets of group `g` come in and the newest group seen is `newest`:
the set of the group holds exactly the shards `held`. -/
structure Lockstep (d p : ℕ) (packets : ℕ → Bytes) (newest g : ℕ) (held : Finset ℕ)
    (codec : FecCodec) : Prop where
  ready : codec.Ready d p
  newest_eq : codec.newestShardId = groupId (d + p) newest
  newest_le : newest ≤ g
  le_newest : g ≤ newest + 1
  near : ∀ entry ∈ codec.decodeSets, ∃ m ≤ newest, newest ≤ m + reach (d + p) ∧
    entry.1 = groupId (d + p) m
  honest : Honest codec d p packets held g (codec.shardSet (groupId (d + p) g))
  present : ∀ k ∈ held, (codec.shardSet (groupId (d + p) g)).present.getD k false = true

/-- A fresh decoder waits for group 0. -/
theorem Lockstep.init (h : codec.Ready d p) (hfresh : codec.Fresh) :
    Lockstep d p packets 0 0 ∅ codec where
  ready := h
  newest_eq := hfresh.newest_group h
  newest_le := le_rfl
  le_newest := Nat.zero_le _
  near entry hentry := by
    rw [hfresh.sets_eq] at hentry
    exact absurd hentry List.not_mem_nil
  honest := honest_of_lookup_none h (by rw [hfresh.sets_eq]; rfl) ∅ 0
  present k hk := absurd hk (Finset.notMem_empty k)

/-- **On to the next group**: no set is there under its number. -/
theorem Lockstep.next {g : ℕ} {held : Finset ℕ} (h : Lockstep d p packets g g held codec) :
    Lockstep d p packets g (g + 1) ∅ codec := by
  have hpos := h.ready.data_pos
  have hlarge := groupCount_large (show 0 < d + p by omega) h.ready.size_le
  have hnone : codec.decodeSets.lookup (groupId (d + p) (g + 1)) = none := by
    cases hlookup : codec.decodeSets.lookup (groupId (d + p) (g + 1)) with
    | none => rfl
    | some set =>
        obtain ⟨m, hm, hnear, hkey⟩ := h.near _ (mem_of_lookup hlookup)
        have hsame : g + 1 = m := groupId_injective (show 0 < d + p by omega) h.ready.size_le
          (by omega) (by omega) hkey
        omega
  exact {
    ready := h.ready
    newest_eq := h.newest_eq
    newest_le := Nat.le_succ g
    le_newest := le_rfl
    near := h.near
    honest := honest_of_lookup_none h.ready hnone ∅ (g + 1)
    present := fun k hk => absurd hk (Finset.notMem_empty k) }

/-- What is left in the set of a group after one more shard: nothing if the set is complete. -/
def heldAfter (d : ℕ) (held : Finset ℕ) (k : ℕ) : Finset ℕ :=
  if d ≤ held.card + 1 then ∅ else insert k held

/-- What a shard that is not held yet recovers. -/
structure Recovers (d : ℕ) (packets : ℕ → Bytes) (g : ℕ) (held : Finset ℕ) (k : ℕ)
    (recovered : List Bytes) : Prop where
  few : held.card + 1 < d → recovered = []
  data : insert k held ⊆ Finset.range d → recovered = []
  full : d ≤ held.card + 1 → ∀ i < d, i ∉ insert k held → packets (g * d + i) ∈ recovered

/-- The table after a shard was put in, before the step to a newer group. -/
structure Put (d p : ℕ) (packets : ℕ → Bytes) (newest g : ℕ) (held : Finset ℕ)
    (before after : FecCodec) : Prop where
  ready : after.Ready d p
  newest_eq : after.newestShardId = before.newestShardId
  rs_eq : after.rs = before.rs
  near : ∀ entry ∈ after.decodeSets, ∃ m ≤ max newest g,
    (newest ≤ m + reach (d + p) ∨ m = g) ∧ entry.1 = groupId (d + p) m
  honest : Honest before d p packets held g (after.shardSet (groupId (d + p) g))
  present : ∀ k ∈ held, (after.shardSet (groupId (d + p) g)).present.getD k false = true

/-- **A shard goes into its set**, and a complete set is dropped. -/
theorem Lockstep.addShard {newest g : ℕ} {held : Finset ℕ}
    (h : Lockstep d p packets newest g held codec) (hpackets : ∀ t, (packets t).length ≤ 65533)
    {k : ℕ} (hk : k < d + p) (hnew : k ∉ held) (isData : Bool) :
    ∃ recovered after, codec.addShard (groupId (d + p) g) k (packetAt d p codec.rs packets g k)
        isData = .ok (recovered, after) ∧
      Put d p packets newest g (heldAfter d held k) codec after ∧
      Recovers d packets g held k recovered := by
  have hready := h.ready
  have hhonest := h.honest.insert hk isData
  have hdrop : (packetAt d p codec.rs packets g k).drop fecHeaderSize =
      shardAt d p codec.rs packets g k := List.drop_left' rfl
  have hold : ∀ entry ∈ codec.decodeSets, ∃ m ≤ max newest g,
      (newest ≤ m + reach (d + p) ∨ m = g) ∧ entry.1 = groupId (d + p) m := fun entry hentry => by
    obtain ⟨m, hm, hnear, hkey⟩ := h.near entry hentry
    exact ⟨m, hm.trans (le_max_left ..), .inl hnear, hkey⟩
  rw [FecCodec.addShard, hdrop]
  obtain ⟨set, hset⟩ : ∃ set, set = (codec.shardSet (groupId (d + p) g)).insert k
    (shardAt d p codec.rs packets g k) isData := ⟨_, rfl⟩
  rw [← hset] at hhonest ⊢
  have hpresent : ∀ j ∈ insert k held, set.present.getD j false = true := by
    rw [hset]
    exact present_insert_of_mem (hk.trans_eq h.honest.sized.present_length.symm) _ _ h.present
  have hcard : (insert k held).card = held.card + 1 := Finset.card_insert_of_notMem hnew
  have hcount : set.present.count true = held.card + 1 := by
    rw [← hcard]
    exact le_antisymm (count_present_le hhonest hready.size_eq)
      (card_le_count (hready.size_eq ▸ hhonest.sized) hpresent)
  by_cases hcomplete : codec.dataShards ≤ set.present.count true
  · have hfull : d ≤ held.card + 1 := by rwa [hready.data_eq, hcount] at hcomplete
    obtain ⟨payloads, hrecover, hmissing, hsound⟩ :=
      recover_honest hready hhonest hpackets (hcount ▸ hfull)
    simp only [if_pos hcomplete, hrecover]
    refine ⟨payloads, _, rfl, ?_, ?_⟩
    · have hnone : (eraseSet (groupId (d + p) g) codec.decodeSets).lookup (groupId (d + p) g) =
          none := lookup_eraseSet.trans (if_pos rfl)
      have hready' : Ready { codec with
          decodeSets := eraseSet (groupId (d + p) g) codec.decodeSets } d p :=
        hready.of_same rfl rfl rfl rfl rfl rfl
      have hempty := @honest_of_lookup_none _ d p packets hready' _ hnone ∅ g
      rw [heldAfter, if_pos hfull]
      exact {
        ready := hready'
        newest_eq := rfl
        rs_eq := rfl
        near := fun entry hentry => hold entry (List.mem_filter.mp hentry).1
        honest := ⟨hempty.sized, hempty.shard_eq⟩
        present := fun j hj => absurd hj (Finset.notMem_empty j) }
    · refine ⟨fun hlt => absurd hfull (by omega), fun hdata => ?_, fun _ i hi hnot => ?_⟩
      · rw [List.eq_nil_iff_forall_not_mem]
        intro v hv
        obtain ⟨-, parity, hparity, hge⟩ := hsound v hv
        exact absurd (Finset.mem_range.mp (hdata hparity)) (not_lt.mpr hge)
      · refine hmissing i hi ?_
        by_contra hkept
        exact hnot (hhonest.shard_eq i (by simpa using hkept)).1
  · have hfull : ¬ d ≤ held.card + 1 := by rwa [hready.data_eq, hcount] at hcomplete
    simp only [if_neg hcomplete]
    refine ⟨[], _, rfl, ?_, ⟨fun _ => rfl, fun _ => rfl, fun hle => absurd hle hfull⟩⟩
    have hstored := shardSet_stored hready hhonest.sized (groupId (d + p) g)
    rw [heldAfter, if_neg hfull]
    exact {
      ready := hready.of_same rfl rfl rfl rfl rfl rfl
      newest_eq := rfl
      rs_eq := rfl
      near := fun entry hentry => by
        rcases List.mem_cons.mp hentry with rfl | hentry
        · exact ⟨g, le_max_right .., .inr rfl, rfl⟩
        · exact hold entry (List.mem_filter.mp hentry).1
      honest := by rwa [hstored]
      present := by rwa [hstored] }

/-- **One packet of the group that is coming in**, not held yet: it returns what it carries
and what it recovers. -/
theorem Lockstep.decode {newest g : ℕ} {held : Finset ℕ}
    (h : Lockstep d p packets newest g held codec) (hpackets : ∀ t, (packets t).length ≤ 65533)
    {k : ℕ} (hk : k < d + p) (hnew : k ∉ held) :
    ∃ recovered after, codec.decode (packetAt d p codec.rs packets g k) =
        .ok (carried d packets g k ++ recovered, after) ∧
      Lockstep d p packets g g (heldAfter d held k) after ∧ after.rs = codec.rs ∧
      Recovers d packets g held k recovered := by
  have hle := h.newest_le
  have hnext := h.le_newest
  have hlarge := groupCount_large (show 0 < d + p by omega) h.ready.size_le
  have hdecode := decode_packetAt h.ready packets g hk
  obtain ⟨hdiv, hmod, -, -, -⟩ := read_packetAt h.ready codec.rs packets g hk
  have hfree : ¬ (codec.shardSet (groupId (d + p) g)).present.getD k false = true := fun hthere =>
    hnew (h.honest.shard_eq k hthere).1
  rw [collect] at hdecode
  dsimp only at hdecode
  rw [hdiv, hmod, if_neg hfree] at hdecode
  obtain ⟨recovered, after, hadd, hput, hrecovers⟩ := h.addShard hpackets hk hnew
    (packetFlag (packetAt d p codec.rs packets g k) = fecTypeData)
  rw [hadd] at hdecode
  obtain ⟨hnewest, hnear, hstays⟩ := advance_groups hput.ready
    (hput.newest_eq.trans h.newest_eq) (show g ≤ newest + reach (d + p) by omega)
    (show newest ≤ g + reach (d + p) by omega)
  rw [max_eq_right hle] at hnewest hnear hstays
  have hrs : (after.advance (groupId (d + p) g)).rs = codec.rs := by
    rw [(advance_spec after _).2]
    exact hput.rs_eq
  have hkeep := hstays g le_rfl (Nat.le_add_right g 2)
  refine ⟨recovered, _, hdecode, ?_, hrs, hrecovers⟩
  exact {
    ready := hput.ready.advance _
    newest_eq := hnewest
    newest_le := le_rfl
    le_newest := Nat.le_succ g
    near := fun entry hentry => by
      obtain ⟨m, hm, hclose, hkey⟩ := hput.near entry ((advance_spec after _).1 hentry)
      rw [max_eq_right hle] at hm
      exact ⟨m, hm, hnear entry hentry m hm hclose hkey, hkey⟩
    honest := by
      rw [hkeep]
      refine ⟨hput.honest.sized, fun j hj => ?_⟩
      rw [hrs]
      exact hput.honest.shard_eq j hj
    present := by
      rw [hkeep]
      exact hput.present }

/-! ### The packets of one call -/

/-- Decoding goes on where it stopped. -/
theorem decodeAll_cons {packet : Bytes} {rest : List Bytes} {out : List Bytes}
    {next last : FecCodec} {results : List (List Bytes)}
    (hdecode : codec.decode packet = .ok (out, next))
    (hrest : next.decodeAll rest = .ok (results, last)) :
    codec.decodeAll (packet :: rest) = .ok (out :: results, last) := by
  rw [decodeAll, hdecode]
  simp only [bind, Except.bind, hrest]
  rfl

theorem decodeAll_append {first rest : List Bytes} {next last : FecCodec}
    {results more : List (List Bytes)} (hfirst : codec.decodeAll first = .ok (results, next))
    (hrest : next.decodeAll rest = .ok (more, last)) :
    codec.decodeAll (first ++ rest) = .ok (results ++ more, last) := by
  induction first generalizing codec results with
  | nil =>
      obtain ⟨rfl, rfl⟩ := Prod.mk.inj (Except.ok.inj hfirst)
      exact hrest
  | cons packet first ih =>
      rw [decodeAll] at hfirst
      cases hdecode : codec.decode packet with
      | error e =>
          rw [hdecode] at hfirst
          cases hfirst
      | ok result =>
          obtain ⟨out, middle⟩ := result
          rw [hdecode] at hfirst
          simp only [bind, Except.bind] at hfirst
          cases htail : middle.decodeAll first with
          | error e =>
              rw [htail] at hfirst
              cases hfirst
          | ok tail =>
              obtain ⟨outs, end_⟩ := tail
              rw [htail] at hfirst
              obtain ⟨rfl, rfl⟩ := Prod.mk.inj (Except.ok.inj hfirst)
              exact decodeAll_cons hdecode (ih htail)

theorem heldAfter_subset {held : Finset ℕ} {j : ℕ} (h : held ⊆ Finset.Ico d (d + j)) :
    heldAfter d held (d + j) ⊆ Finset.Ico d (d + (j + 1)) := by
  rw [heldAfter]
  split
  · exact Finset.empty_subset _
  · refine Finset.insert_subset (Finset.mem_Ico.mpr (by omega)) (h.trans ?_)
    exact Finset.Ico_subset_Ico_right (by omega)

/-- **The parity packets of a group**, from some place on, when its set holds parity shards
only: they return nothing if they are too few to complete it, and something otherwise. -/
theorem Lockstep.decodeParity (hpackets : ∀ t, (packets t).length ≤ 65533) {g : ℕ} (n : ℕ) :
    ∀ {j : ℕ} {held : Finset ℕ} {codec : FecCodec}, Lockstep d p packets g g held codec →
      held ⊆ Finset.Ico d (d + j) → j + n ≤ p →
      ∃ results after held', codec.decodeAll
          ((List.range n).map fun i => packetAt d p codec.rs packets g (d + j + i)) =
            .ok (results, after) ∧
        Lockstep d p packets g g held' after ∧ after.rs = codec.rs ∧
        (held.card + n < d → results.flatten = []) ∧
        (d ≤ held.card + n → 0 < n → results.flatten ≠ []) := by
  induction n with
  | zero =>
      intro j held codec h _ _
      exact ⟨[], codec, held, rfl, h, rfl, fun _ => rfl, fun _ hpos => absurd hpos (by omega)⟩
  | succ n ih =>
      intro j held codec h hheld hroom
      have hdpos := h.ready.data_pos
      have hnew : d + j ∉ held := fun hmem => by
        have hlt := (Finset.mem_Ico.mp (hheld hmem)).2
        omega
      obtain ⟨recovered, after, hdecode, hafter, hrs, hrecovers⟩ :=
        h.decode hpackets (show d + j < d + p by omega) hnew
      obtain ⟨results, last, held', hrun, hlast, hlastRs, hfew, hfull⟩ :=
        ih hafter (heldAfter_subset hheld) (by omega)
      have hnothing : carried d packets g (d + j) = [] := if_neg (by omega)
      have hcons : ((List.range (n + 1)).map fun i =>
          packetAt d p codec.rs packets g (d + j + i)) =
          packetAt d p codec.rs packets g (d + j) ::
            (List.range n).map fun i => packetAt d p after.rs packets g (d + (j + 1) + i) := by
        rw [List.range_succ_eq_map, List.map_cons, List.map_map, hrs]
        refine congrArg₂ List.cons rfl (List.map_congr_left fun i _ => ?_)
        rw [Function.comp_apply, show d + j + (i + 1) = d + (j + 1) + i by omega]
      refine ⟨(carried d packets g (d + j) ++ recovered) :: results, last, held', ?_, hlast,
        hlastRs.trans hrs, fun hle => ?_, fun hge _ => ?_⟩
      · rw [hcons]
        exact decodeAll_cons hdecode hrun
      · have hcard : (heldAfter d held (d + j)).card = held.card + 1 := by
          rw [heldAfter, if_neg (by omega), Finset.card_insert_of_notMem hnew]
        rw [List.flatten_cons, hnothing, hrecovers.few (by omega), hfew (by omega)]
        rfl
      · rw [List.flatten_cons, hnothing]
        by_cases hcomplete : d ≤ held.card + 1
        · have hfirst := hrecovers.full hcomplete 0 hdpos fun hmem => by
            rcases Finset.mem_insert.mp hmem with hzero | hmem
            · omega
            · have hle := (Finset.mem_Ico.mp (hheld hmem)).1
              omega
          exact List.ne_nil_of_mem (List.mem_append_left _ hfirst)
        · have hcard : (heldAfter d held (d + j)).card = held.card + 1 := by
            rw [heldAfter, if_neg hcomplete, Finset.card_insert_of_notMem hnew]
          exact List.append_ne_nil_of_right_ne_nil _ (hfull (by omega) (by omega))

/-- **The packets of one call**: the packet handed to the call comes out, and again packets
of its group if there are parity packets, and as many as data shards. -/
theorem Lockstep.decodeCall (hpackets : ∀ t, (packets t).length ≤ 65533) {t newest : ℕ}
    (h : Lockstep d p packets newest (t / d) (Finset.range (t % d)) codec) {parity : List Bytes}
    (hparity : parity = [] ∨ t % d + 1 = d ∧
      parity = (List.range p).map fun j => packetAt d p codec.rs packets (t / d) (d + j)) :
    ∃ results after again newest',
      codec.decodeAll (packetAt d p codec.rs packets (t / d) (t % d) :: parity) =
        .ok (results, after) ∧
      Lockstep d p packets newest' ((t + 1) / d) (Finset.range ((t + 1) % d)) after ∧
      after.rs = codec.rs ∧ results.flatten = packets t :: again ∧
      (again = [] ↔ p < d ∨ parity = []) := by
  have hdpos := h.ready.data_pos
  have hppos := h.ready.parity_pos
  have hlt := Nat.mod_lt t hdpos
  have hsplit : t / d * d + t % d = t := Nat.div_add_mod' t d
  obtain ⟨recovered, middle, hdecode, hmiddle, hrs, hrecovers⟩ :=
    h.decode hpackets (show t % d < d + p by omega) Finset.notMem_range_self
  have hinsert : insert (t % d) (Finset.range (t % d)) = Finset.range (t % d + 1) :=
    Finset.range_add_one.symm
  have hnothing : recovered = [] := hrecovers.data (by
    rw [hinsert]
    exact Finset.range_subset_range.mpr hlt)
  have hout : carried d packets (t / d) (t % d) ++ recovered = [packets t] := by
    rw [carried, if_pos hlt, hnothing, hsplit, List.append_nil]
  rw [hout] at hdecode
  by_cases hend : t % d + 1 = d
  · have hsucc : (t + 1) / d = t / d + 1 ∧ (t + 1) % d = 0 :=
      (Nat.div_mod_unique hdpos).mpr ⟨by rw [Nat.mul_comm, Nat.add_mul]; omega, hdpos⟩
    rw [heldAfter, Finset.card_range, if_pos hend.ge] at hmiddle
    rw [hsucc.1, hsucc.2, Finset.range_zero]
    rcases hparity with rfl | ⟨-, rfl⟩
    · refine ⟨[[packets t]], middle, [], t / d, decodeAll_cons hdecode rfl, hmiddle.next, hrs,
        rfl, iff_of_true rfl (.inr rfl)⟩
    · obtain ⟨results, after, held, hrun, hafter, hafterRs, hfew, hfull⟩ :=
        hmiddle.decodeParity hpackets p (j := 0) (Finset.empty_subset _) (by omega)
      rw [Finset.card_empty, Nat.zero_add] at hfew hfull
      rw [hrs] at hrun
      refine ⟨[packets t] :: results, after, results.flatten, t / d, decodeAll_cons hdecode hrun,
        hafter.next, hafterRs.trans hrs, rfl, fun hnone => .inl ?_, fun hor => ?_⟩
      · by_contra hge
        exact hfull (not_lt.mp hge) hppos hnone
      · rcases hor with hfewer | hnone
        · exact hfew hfewer
        · exact absurd (congrArg List.length hnone) (by simpa using hppos.ne')
  · have hsucc : (t + 1) / d = t / d ∧ (t + 1) % d = t % d + 1 :=
      (Nat.div_mod_unique hdpos).mpr ⟨by rw [Nat.mul_comm]; omega, by omega⟩
    rw [heldAfter, Finset.card_range, if_neg (by omega), hinsert] at hmiddle
    rw [hsucc.1, hsucc.2]
    obtain rfl : parity = [] := hparity.resolve_right fun hlast => hend hlast.1
    exact ⟨[[packets t]], middle, [], t / d, decodeAll_cons hdecode rfl, hmiddle, hrs, rfl,
      iff_of_true rfl (.inr rfl)⟩

/-! ### A run of calls -/

/-- **A run of calls from packet `t` on**, decoded in order. -/
theorem Lockstep.run (hpackets : ∀ t, (packets t).length ≤ 65533) (calls : List EncodeCall) :
    ∀ {t newest : ℕ} {encoder decoder : FecCodec}, EncoderInv d p packets t encoder →
      Lockstep d p packets newest (t / d) (Finset.range (t % d)) decoder →
      decoder.rs = encoder.rs → (∀ i < calls.length, packetsOf calls i = packets (t + i)) →
      ∃ results after, decoder.decodeAll (encoder.encodeAll calls).flatten = .ok (results, after) ∧
        calls.length ≤ results.flatten.length ∧
        (results.flatten = calls.map EncodeCall.packet ↔
          p < d ∨ ∀ sent ∈ encoder.encodeAll calls, sent.length ≤ 1) := by
  induction calls with
  | nil =>
      intro t newest encoder decoder _ _ _ _
      exact ⟨[], decoder, rfl, le_rfl,
        iff_of_true rfl (.inr fun sent hsent => absurd hsent List.not_mem_nil)⟩
  | cons call calls ih =>
      intro t newest encoder decoder hencoder hdecoder hrs hcalls
      have hfirst : call.packet = packets t := hcalls 0 (Nat.succ_pos _)
      obtain ⟨parity, next, hencode, hnext, hnextRs, hparity⟩ :=
        encode_spec hencoder call.currentMillis
      have hstep : encodeCall encoder call =
          (packetAt d p encoder.rs packets (t / d) (t % d) :: parity, next) := by
        rw [encodeCall, hfirst, hencode]
      rw [← hrs] at hparity
      obtain ⟨results, middle, again, newest', hrun, hmiddle, hmiddleRs, hflat, hagain⟩ :=
        hdecoder.decodeCall hpackets
          (hparity : parity = [] ∨ t % d + 1 = d ∧ parity = (List.range p).map fun j =>
            packetAt d p decoder.rs packets (t / d) (d + j))
      obtain ⟨more, after, hrest, hlength, hiff⟩ := ih hnext hmiddle
        (hmiddleRs.trans (hrs.trans hnextRs.symm)) fun i hi => by
          have hlater := hcalls (i + 1) (Nat.succ_lt_succ hi)
          rw [Nat.add_right_comm, Nat.add_assoc, ← hlater]
          rfl
      have hsent : encoder.encodeAll (call :: calls) =
          (packetAt d p encoder.rs packets (t / d) (t % d) :: parity) :: next.encodeAll calls := by
        rw [encodeAll, Transducer.run_cons, hstep]
        rfl
      rw [hsent, List.flatten_cons, ← hrs]
      refine ⟨results ++ more, after, decodeAll_append hrun hrest, ?_, ?_⟩
      · rw [List.flatten_append, hflat, List.length_append, List.length_cons, List.length_cons]
        omega
      rw [List.flatten_append, hflat, List.map_cons, hfirst, List.cons_append, List.cons_inj_right]
      have hnothing : again ++ more.flatten = calls.map EncodeCall.packet ↔
          again = [] ∧ more.flatten = calls.map EncodeCall.packet := by
        constructor
        · intro heq
          have hlengths := congrArg List.length heq
          rw [List.length_append, List.length_map] at hlengths
          have hnil : again = [] := List.length_eq_zero_iff.mp (by omega)
          exact ⟨hnil, by rwa [hnil, List.nil_append] at heq⟩
        · rintro ⟨hnil, heq⟩
          rw [hnil, heq, List.nil_append]
      have hshort : (packetAt d p decoder.rs packets (t / d) (t % d) :: parity).length ≤ 1 ↔
          parity = [] := by
        rw [List.length_cons, ← List.length_eq_zero_iff]
        omega
      rw [hnothing, hagain, hiff, List.forall_mem_cons, hshort,
        or_and_left]

/-! ### Which calls send parity packets -/

theorem length_sealParity (shards : List Bytes) :
    (codec.sealParity shards).1.length = shards.length := by
  induction shards generalizing codec with
  | nil => rfl
  | cons shard shards ih =>
      rw [sealParity, List.length_cons, List.length_cons, ih]

/-- **One call** sends parity packets if it ends a group, soon enough after the call before. -/
theorem encodeCall_parity_iff {t : ℕ} (h : EncoderInv d p packets t codec) (call : EncodeCall) :
    ((encodeCall codec call).1.length ≤ 1 ↔ ¬ (t % d + 1 = d ∧ codec.latestPacketMs ≠ 0 ∧
      (call.currentMillis.toNat : ℤ) - codec.latestPacketMs < maxFecEncodeLatencyMs)) ∧
    (encodeCall codec call).2.latestPacketMs = call.currentMillis.toNat := by
  have hready := h.ready
  have hppos := hready.parity_pos
  have hend : codec.shardCount + 1 = codec.dataShards ↔ t % d + 1 = d := by
    rw [h.count_eq, hready.data_eq]
  rw [encodeCall, encode, if_pos hready.enabled_eq, sealPacket]
  dsimp only
  by_cases hlast : codec.shardCount + 1 = codec.dataShards
  · rw [if_pos hlast, finishGroup]
    refine ⟨?_, rfl⟩
    by_cases hrecent : codec.latestPacketMs ≠ 0 ∧
        (call.currentMillis.toNat : ℤ) - codec.latestPacketMs < maxFecEncodeLatencyMs
    · refine iff_of_false ?_ (not_not.mpr ⟨hend.mp hlast, hrecent⟩)
      rw [if_pos hrecent]
      simp only [List.length_cons, length_sealParity]
      rw [codec.rs.encode_eq _ _ (by rw [List.length_replicate, hready.rs_valid.parity_eq,
        hready.parity_eq]), List.length_map, List.length_range, hready.rs_valid.parity_eq]
      omega
    · rw [if_neg hrecent]
      exact iff_of_true le_rfl fun hdue => hrecent hdue.2
  · rw [if_neg hlast]
    exact ⟨iff_of_true le_rfl fun hdue => hlast (hend.mpr hdue.1), rfl⟩

/-- The encoder after the first `i` calls. -/
theorem encoderInv_take (h : codec.Ready d p) (hfresh : codec.Fresh) (calls : List EncodeCall)
    {i : ℕ} (hi : i ≤ calls.length) :
    EncoderInv d p (packetsOf (calls.take i)) i
      (Transducer.run encodeCall codec (calls.take i)).2 := by
  have hstart : EncoderInv d p (packetsOf (calls.take i)) 0 codec := .init h hfresh
  have hinv := run_encoderInv (calls.take i) hstart (fun j _ => by rw [Nat.zero_add])
  rwa [Nat.zero_add, List.length_take, Nat.min_eq_left hi] at hinv

/-- Some call that ends a group comes less than 500 ms after the call before it, by a clock
that read something else than zero then. -/
def ParityDue (d : ℕ) (calls : List EncodeCall) : Prop :=
  ∃ i before call, calls[i]? = some before ∧ calls[i + 1]? = some call ∧ (i + 2) % d = 0 ∧
    before.currentMillis ≠ 0 ∧
    (call.currentMillis.toNat : ℤ) - before.currentMillis.toNat < maxFecEncodeLatencyMs

/-- A packet ends its group exactly if the next one starts one. -/
theorem mod_add_one_eq_iff (hd : 0 < d) (t : ℕ) : t % d + 1 = d ↔ (t + 1) % d = 0 := by
  have hlt := Nat.mod_lt t hd
  rw [← Nat.mod_add_mod]
  constructor
  · intro heq
    rw [heq, Nat.mod_self]
  · intro hzero
    by_contra hne
    rw [Nat.mod_eq_of_lt (by omega)] at hzero
    omega

/-- **Which runs send parity packets.** -/
theorem encodeAll_parity_iff (h : codec.Ready d p) (hfresh : codec.Fresh)
    (hlatest : codec.latestPacketMs = 0) (calls : List EncodeCall) :
    (∀ sent ∈ codec.encodeAll calls, sent.length ≤ 1) ↔ ¬ ParityDue d calls := by
  have hdpos := h.data_pos
  obtain ⟨state, hstate⟩ : ∃ state : ℕ → FecCodec, ∀ i,
      state i = (Transducer.run encodeCall codec (calls.take i)).2 := ⟨_, fun _ => rfl⟩
  -- What call `i` sends, and the clock the next call compares with.
  have hcall : ∀ i call, calls[i]? = some call →
      (codec.encodeAll calls)[i]? = some (encodeCall (state i) call).1 ∧
      ((encodeCall (state i) call).1.length ≤ 1 ↔ ¬ ((i + 1) % d = 0 ∧
        (state i).latestPacketMs ≠ 0 ∧ (call.currentMillis.toNat : ℤ) - (state i).latestPacketMs <
          maxFecEncodeLatencyMs)) ∧
      (state (i + 1)).latestPacketMs = call.currentMillis.toNat := by
    intro i call hi
    obtain ⟨hlt, -⟩ := List.getElem?_eq_some_iff.mp hi
    have hinv := encoderInv_take h hfresh calls hlt.le
    rw [← hstate] at hinv
    obtain ⟨hparity, hclock⟩ := encodeCall_parity_iff hinv call
    refine ⟨?_, ?_, ?_⟩
    · rw [encodeAll, Transducer.getElem?_run, hi, Option.map_some, hstate]
    · rw [hparity, mod_add_one_eq_iff hdpos]
    · rw [hstate (i + 1), List.take_add_one, hi, Transducer.run_append, ← hstate]
      exact hclock
  constructor
  · rintro hshort ⟨i, before, call, hbefore, hafter, hend, hne, hsoon⟩
    obtain ⟨hsent, hiff, -⟩ := hcall (i + 1) call hafter
    refine hiff.mp (hshort _ (List.mem_of_getElem? hsent)) ⟨hend, ?_, ?_⟩
    · rw [(hcall i before hbefore).2.2]
      exact_mod_cast fun hzero => hne (UInt32.toNat_inj.mp hzero)
    · rwa [(hcall i before hbefore).2.2]
  · intro hnever sent hsent
    obtain ⟨i, hi⟩ := List.getElem?_of_mem hsent
    have hlt : i < calls.length := by
      obtain ⟨hlt, -⟩ := List.getElem?_eq_some_iff.mp hi
      rwa [encodeAll, Transducer.length_run] at hlt
    obtain ⟨hsent', hiff, -⟩ := hcall i calls[i] (List.getElem?_eq_getElem hlt)
    rw [hi] at hsent'
    rw [Option.some.inj hsent', hiff]
    rintro ⟨hend, hne, hsoon⟩
    cases i with
    | zero =>
        refine hne ?_
        rw [hstate]
        exact hlatest
    | succ i =>
        have hi' : i < calls.length := Nat.lt_of_succ_lt hlt
        have hclock := (hcall i calls[i] (List.getElem?_eq_getElem hi')).2.2
        rw [hclock] at hne hsoon
        refine hnever ⟨i, calls[i], calls[i + 1], List.getElem?_eq_getElem hi',
          List.getElem?_eq_getElem hlt, hend, fun hzero => hne ?_, hsoon⟩
        rw [hzero]
        rfl

/-- **Without loss**: for every configuration with parity and any clock, encoder and decoder
are set up and nothing throws, and decoding in order all that was sent returns the packets
once each and in order exactly if there are fewer parity than data shards, or no parity
packets are due. -/
theorem lossless_iff (sender receiver : BaseConfig) (hdata : 1 ≤ sender.datashard.toInt)
    (hparity : 1 ≤ sender.parityshard.toInt)
    (hsum : sender.datashard.toInt + sender.parityshard.toInt ≤ 256)
    (hdataSame : receiver.datashard = sender.datashard)
    (hparitySame : receiver.parityshard = sender.parityshard) :
    ∃ encoder decoder, create sender = .ok encoder ∧ create receiver = .ok decoder ∧
      ∀ calls : List EncodeCall, (∀ call ∈ calls, call.packet.length ≤ 65533) →
        ∃ results after, decoder.decodeAll (encoder.encodeAll calls).flatten =
            .ok (results, after) ∧
          (results.flatten = calls.map EncodeCall.packet ↔
            sender.parityshard.toInt < sender.datashard.toInt ∨
              ¬ ParityDue sender.datashard.toInt.toNat calls) := by
  obtain ⟨d, hd⟩ := Int.eq_ofNat_of_zero_le (show 0 ≤ sender.datashard.toInt by omega)
  obtain ⟨p, hp⟩ := Int.eq_ofNat_of_zero_le (show 0 ≤ sender.parityshard.toInt by omega)
  obtain ⟨codec, hcreate, hready, hfresh⟩ :=
    create_spec hd hp (by omega) (by omega) (by omega)
  refine ⟨codec, codec, hcreate, (create_congr hdataSame hparitySame).trans hcreate,
    fun calls hsize => ?_⟩
  have hlockstep : Lockstep d p (packetsOf calls) 0 (0 / d) (Finset.range (0 % d)) codec := by
    rw [Nat.zero_div, Nat.zero_mod, Finset.range_zero]
    exact .init hready hfresh
  obtain ⟨results, after, hrun, -, hiff⟩ := Lockstep.run (length_packetsOf hsize) calls
    (.init hready hfresh) hlockstep rfl (fun i _ => by rw [Nat.zero_add])
  refine ⟨results, after, hrun, ?_⟩
  rw [hiff, encodeAll_parity_iff hready hfresh (create_unused hcreate).1, hd, hp, Int.toNat_natCast,
    Nat.cast_lt]

/-- Groups of two data packets and one parity packet. -/
theorem groups_of_three_lossless :
    ∃ encoder decoder, create { datashard := 2, parityshard := 1 } = .ok encoder ∧
      create { datashard := 2, parityshard := 1 } = .ok decoder ∧
      ∀ calls : List EncodeCall, (∀ call ∈ calls, call.packet.length ≤ 65533) →
        ∃ results after, decoder.decodeAll (encoder.encodeAll calls).flatten =
            .ok (results, after) ∧
          (results.flatten = calls.map EncodeCall.packet ↔
            (1 : Int32).toInt < (2 : Int32).toInt ∨ ¬ ParityDue (2 : Int32).toInt.toNat calls) :=
  lossless_iff { datashard := 2, parityshard := 1 } { datashard := 2, parityshard := 1 }
    (by decide) (by decide) (by decide) rfl rfl

/-- One data and one parity shard: the second of two packets comes out twice. -/
theorem second_packet_twice :
    ∃ codec results after, create { datashard := 1, parityshard := 1 } = .ok codec ∧
      codec.decodeAll (codec.encodeAll [⟨[1], 5⟩, ⟨[2], 10⟩]).flatten = .ok (results, after) ∧
      results.flatten ≠ [[1], [2]] := by
  have hrun : ((create { datashard := 1, parityshard := 1 }).toOption.bind fun codec =>
      (codec.decodeAll (codec.encodeAll [⟨[1], 5⟩, ⟨[2], 10⟩]).flatten).toOption.map fun result =>
        result.1.flatten) = some [[1], [2], [2]] := by decide +kernel
  obtain ⟨codec, hcreate, hcodec⟩ := Option.bind_eq_some_iff.mp hrun
  obtain ⟨⟨results, after⟩, hafter, hresults⟩ := Option.map_eq_some_iff.mp hcodec
  refine ⟨codec, results, after, ok_of_toOption hcreate, ok_of_toOption hafter, ?_⟩
  rw [show results.flatten = [[1], [2], [2]] from hresults]
  decide

end FecCodec

end Shimakaze
