import Shimakaze.Fec.Decoder

/-!
# From Encoder to Decoder

A run of the erasure-coding layer: packets are handed to an encoder, the network loses,
repeats and reorders what it sends, and a decoder with the same shard counts gets the rest.
The one thing asked of the network is that a delivered packet is not too far from the
newest group delivered, counted without wrap.

## Main results

* `FecCodec.decode_sound`: every payload the decoder returns was handed to the encoder.
* `FecCodec.decode_complete`: a group is returned as a whole once enough of its packets
  have arrived, as long as the deliveries have not run ahead by more than two groups.
-/

namespace Shimakaze

namespace FecCodec

/-- A run of `decode` calls: what each call returns, and the decoder afterwards. -/
def decodeAll (codec : FecCodec) : List Bytes → Except String (List (List Bytes) × FecCodec)
  | [] => return ([], codec)
  | packet :: packets => do
      let (out, codec) ← codec.decode packet
      let (outs, codec) ← codec.decodeAll packets
      return (out :: outs, codec)

/-- A packet that is delivered, with its group counted without wrap. -/
structure Delivery where
  group : ℕ
  packet : Bytes

/-- The packet was sent by some call of the run, in its group. -/
def Produced (encoder : FecCodec) (calls : List EncodeCall) (delivery : Delivery) : Prop :=
  ∃ t out, (encoder.encodeAll calls)[t]? = some out ∧ delivery.packet ∈ out ∧
    delivery.group = t / encoder.dataShards

/-- Every packet lies within `2 ^ 28 / shard_size` groups of the highest group delivered
before it. -/
def WithinReach (shardSize : ℕ) : ℕ → List Delivery → Prop
  | _, [] => True
  | highest, delivery :: deliveries =>
      delivery.group ≤ highest + 2 ^ 28 / shardSize ∧
        highest ≤ delivery.group + 2 ^ 28 / shardSize ∧
        WithinReach shardSize (max highest delivery.group) deliveries

variable {codec : FecCodec} {d p : ℕ} {calls : List EncodeCall}

/-- Encoder and decoder start alike: the constructor looks at the shard counts only. -/
theorem create_congr {config config' : BaseConfig} (hdata : config'.datashard = config.datashard)
    (hparity : config'.parityshard = config.parityshard) : create config' = create config := by
  rw [create, create, hdata, hparity]

/-- **What a delivered packet is**: a packet of its group that the encoder sent. -/
theorem Produced.exists_index (h : codec.Ready d p) (hfresh : codec.Fresh) {delivery : Delivery}
    (hproduced : Produced codec calls delivery) :
    ∃ k, delivery.packet = packetAt d p codec.rs (packetsOf calls) delivery.group k ∧
      Sent d p calls.length delivery.group k := by
  obtain ⟨t, out, hout, hmem, hgroup⟩ := hproduced
  have hdpos := h.data_pos
  have ht : t < calls.length := by
    obtain ⟨ht, -⟩ := List.getElem?_eq_some_iff.mp hout
    rwa [encodeAll, Transducer.length_run] at ht
  obtain ⟨parity, hsent, hparity⟩ := encodeAll_spec h hfresh calls ht
  rw [hout] at hsent
  obtain rfl := Option.some.inj hsent
  rw [h.data_eq] at hgroup
  have hlt := Nat.mod_lt t hdpos
  have hsplit : t / d * d + t % d = t := Nat.div_add_mod' t d
  rw [hgroup]
  rcases List.mem_cons.mp hmem with hdata | hmem
  · exact ⟨t % d, hdata, by omega, fun _ => by omega, fun hge => absurd hlt (not_lt.mpr hge)⟩
  · rcases hparity with rfl | ⟨hlast, rfl⟩
    · exact absurd hmem List.not_mem_nil
    · obtain ⟨j, hj, hpacket⟩ := List.mem_map.mp hmem
      have hjp := List.mem_range.mp hj
      exact ⟨d + j, hpacket.symm, by omega, fun hdata => by omega, fun _ => by
        rw [Nat.add_mul]
        omega⟩

/-- **A run of deliveries** keeps the invariant, and everything delivered has arrived. -/
theorem decodeAll_spec {packets : ℕ → Bytes} {count : ℕ}
    (hpackets : ∀ t, (packets t).length ≤ 65533) :
    ∀ (deliveries : List Delivery) {arrived : ℕ → Finset ℕ} {highest : ℕ} {outs : List Bytes}
      {codec : FecCodec}, DecoderInv d p packets count arrived highest outs codec →
      (∀ x ∈ deliveries, ∃ k, x.packet = packetAt d p codec.rs packets x.group k ∧
        Sent d p count x.group k) →
      WithinReach (d + p) highest deliveries →
      ∃ results after arrived' highest', codec.decodeAll (deliveries.map Delivery.packet) =
          .ok (results, after) ∧
        DecoderInv d p packets count arrived' highest' (outs ++ results.flatten) after ∧
        (∀ g, arrived g ⊆ arrived' g) ∧
        (∀ x ∈ deliveries, ∃ k ∈ arrived' x.group,
          x.packet = packetAt d p codec.rs packets x.group k) ∧
        ∀ bound, highest ≤ bound → (∀ x ∈ deliveries, x.group ≤ bound) → highest' ≤ bound := by
  intro deliveries
  induction deliveries with
  | nil =>
      intro arrived highest outs codec h _ _
      exact ⟨[], codec, arrived, highest, rfl, by simpa using h, fun g => Finset.Subset.refl _,
        fun x hx => absurd hx List.not_mem_nil, fun bound hle _ => hle⟩
  | cons x deliveries ih =>
      intro arrived highest outs codec h hsent hreach
      obtain ⟨k, hpacket, hk⟩ := hsent x List.mem_cons_self
      obtain ⟨hup, hdown, hrest⟩ := hreach
      obtain ⟨out, after, hdecode, hafter, hrs⟩ := decode_step h hpackets hk hup hdown
      obtain ⟨results, last, arrived', highest', hrun, hlast, hsubset, hall, hbound⟩ := ih hafter
        (fun y hy => by
          rw [hrs]
          exact hsent y (List.mem_cons_of_mem _ hy)) hrest
      refine ⟨out :: results, last, arrived', highest', ?_, ?_,
        fun g => (subset_arrive ..).trans (hsubset g), fun y hy => ?_, fun bound hle hgroups => ?_⟩
      · rw [List.map_cons, decodeAll, hpacket, hdecode]
        simp only [bind, Except.bind, hrun]
        rfl
      · rwa [List.flatten_cons, ← List.append_assoc]
      · rcases List.mem_cons.mp hy with rfl | hy
        · refine ⟨k, hsubset _ ?_, hpacket⟩
          rw [arrive_self]
          exact Finset.mem_insert_self _ _
        · rw [← hrs]
          exact hall y hy
      · exact hbound bound (max_le hle (hgroups x List.mem_cons_self))
          fun y hy => hgroups y (List.mem_cons_of_mem _ hy)

/-- The packets of a run are not longer than its longest call. -/
theorem length_packetsOf (h : ∀ call ∈ calls, call.packet.length ≤ 65533) (t : ℕ) :
    (packetsOf calls t).length ≤ 65533 := by
  by_cases ht : t < (calls.map EncodeCall.packet).length
  · rw [packetsOf, List.getD_eq_getElem _ _ ht, List.getElem_map]
    exact h _ (List.getElem_mem _)
  · rw [packetsOf, List.getD_eq_default _ _ (not_lt.mp ht)]
    exact Nat.zero_le _

/-- The packet of a call of the run. -/
theorem packetsOf_mem {t : ℕ} (ht : t < calls.length) :
    calls[t]?.map EncodeCall.packet = some (packetsOf calls t) := by
  rw [packetsOf, ← List.getElem?_map, List.getD_eq_getElem _ _ (by simpa using ht),
    List.getElem?_eq_getElem]

/-- **Soundness.** Encoder and decoder are set up without failing, and whatever packets of the
encoder are delivered, in whatever order and however often, within reach of the highest group
so far, decoding does not throw and every payload returned was handed to the encoder. -/
theorem decode_sound (sender receiver : BaseConfig) (hdata : 1 ≤ sender.datashard.toInt)
    (hparity : 1 ≤ sender.parityshard.toInt)
    (hsum : sender.datashard.toInt + sender.parityshard.toInt ≤ 256)
    (hdataSame : receiver.datashard = sender.datashard)
    (hparitySame : receiver.parityshard = sender.parityshard)
    (calls : List EncodeCall) (hsize : ∀ call ∈ calls, call.packet.length ≤ 65533) :
    ∃ encoder decoder, create sender = .ok encoder ∧ create receiver = .ok decoder ∧
      ∀ deliveries : List Delivery, (∀ x ∈ deliveries, Produced encoder calls x) →
        WithinReach encoder.shardSize 0 deliveries →
        ∃ results after, decoder.decodeAll (deliveries.map Delivery.packet) = .ok (results, after) ∧
          ∀ out ∈ results, ∀ payload ∈ out, payload ∈ calls.map EncodeCall.packet := by
  obtain ⟨d, hd⟩ := Int.eq_ofNat_of_zero_le (show 0 ≤ sender.datashard.toInt by omega)
  obtain ⟨p, hp⟩ := Int.eq_ofNat_of_zero_le (show 0 ≤ sender.parityshard.toInt by omega)
  obtain ⟨codec, hcreate, hready, hfresh⟩ :=
    create_spec hd hp (by omega) (by omega) (by omega)
  refine ⟨codec, codec, hcreate, (create_congr hdataSame hparitySame).trans hcreate, ?_⟩
  intro deliveries hproduced hreach
  rw [hready.size_eq] at hreach
  have hinit : DecoderInv d p (packetsOf calls) calls.length (fun _ => ∅) 0 [] codec :=
    .init hready hfresh
  obtain ⟨results, after, arrived, highest, hrun, hinv, -, -, -⟩ := decodeAll_spec
    (length_packetsOf hsize) deliveries hinit
    (fun x hx => (hproduced x hx).exists_index hready hfresh) hreach
  refine ⟨results, after, hrun, fun out hout payload hpayload => ?_⟩
  obtain ⟨t, ht, rfl⟩ := hinv.sound payload (List.mem_flatten.mpr ⟨out, hout, hpayload⟩)
  obtain ⟨call, hcall, hpacket⟩ := Option.map_eq_some_iff.mp (packetsOf_mem ht)
  exact List.mem_map.mpr ⟨call, List.mem_of_getElem? hcall, hpacket⟩

/-- A group of two with one packet lost: what the decoder returns was handed to the
encoder. -/
theorem one_lost_of_two_sound :
    ∃ codec results after, create { datashard := 2, parityshard := 1 } = .ok codec ∧
      codec.decodeAll [[1, 0, 0, 0, 241, 0, 3, 0, 9], [2, 0, 0, 0, 242, 0, 9, 0, 17, 6, 5]] =
        .ok (results, after) ∧
      ∀ out ∈ results, ∀ payload ∈ out, payload ∈ [[1, 2, 3], [9]] := by
  obtain ⟨encoder, decoder, hencoder, hdecoder, h⟩ :=
    decode_sound { datashard := 2, parityshard := 1 } { datashard := 2, parityshard := 1 }
      (by decide) (by decide) (by decide) rfl rfl [⟨[1, 2, 3], 5⟩, ⟨[9], 10⟩] (by decide)
  have hcodec : create { datashard := 2, parityshard := 1 } =
      .ok { dataShards := 2, parityShards := 1, shardSize := 3, enabled := true, paws := 4294967295
            encodeShards := [[], []], rs := ⟨2, 1, 3, [[1, 0], [0, 1], [3, 2]]⟩ } := by rfl
  obtain rfl := Except.ok.inj (hencoder.symm.trans hcodec)
  obtain ⟨results, after, hrun, hall⟩ := h
    [⟨0, [1, 0, 0, 0, 241, 0, 3, 0, 9]⟩, ⟨0, [2, 0, 0, 0, 242, 0, 9, 0, 17, 6, 5]⟩]
    (fun x hx => ⟨1, [[1, 0, 0, 0, 241, 0, 3, 0, 9], [2, 0, 0, 0, 242, 0, 9, 0, 17, 6, 5]],
      by rfl, by simpa using List.mem_map_of_mem (f := Delivery.packet) hx, by
        rcases List.mem_pair.mp hx with rfl | rfl <;> rfl⟩)
    ⟨by decide, by decide, by decide, by decide, trivial⟩
  exact ⟨decoder, results, after, hdecoder, hrun, hall⟩

/-- Packets of a group of which enough arrived are packets of the run. -/
theorem lt_count_of_full {packets : ℕ → Bytes} {count highest g : ℕ} {arrived : ℕ → Finset ℕ}
    {outs : List Bytes} (h : DecoderInv d p packets count arrived highest outs codec)
    (hcard : d ≤ (arrived g).card) {i : ℕ} (hi : i < d) : g * d + i < count := by
  by_cases hparity : ∃ k ∈ arrived g, d ≤ k
  · obtain ⟨k, hk, hge⟩ := hparity
    have hle := (h.arrived_sent g k hk).parity_le hge
    rw [Nat.add_mul] at hle
    omega
  · -- Only data packets arrived, so all of them did.
    push Not at hparity
    have hsub : arrived g ⊆ Finset.range d := fun k hk => Finset.mem_range.mpr (hparity k hk)
    have hall : arrived g = Finset.range d :=
      Finset.eq_of_subset_of_card_le hsub (by rwa [Finset.card_range])
    exact (h.arrived_sent g i (hall ▸ Finset.mem_range.mpr hi)).data_lt hi

/-- **Completeness.** Once as many different packets of a group as there are data shards have
been delivered, and up to then no packet of a group more than two groups ahead, every packet
of the group has been returned. The group may have been sent with parity packets or
without. -/
theorem decode_complete (sender receiver : BaseConfig) (hdata : 1 ≤ sender.datashard.toInt)
    (hparity : 1 ≤ sender.parityshard.toInt)
    (hsum : sender.datashard.toInt + sender.parityshard.toInt ≤ 256)
    (hdataSame : receiver.datashard = sender.datashard)
    (hparitySame : receiver.parityshard = sender.parityshard)
    (calls : List EncodeCall) (hsize : ∀ call ∈ calls, call.packet.length ≤ 65533) :
    ∃ encoder decoder, create sender = .ok encoder ∧ create receiver = .ok decoder ∧
      ∀ (deliveries : List Delivery) (group : ℕ), (∀ x ∈ deliveries, Produced encoder calls x) →
        WithinReach encoder.shardSize 0 deliveries →
        (∀ x ∈ deliveries, x.group ≤ group + 2) →
        encoder.dataShards ≤ ((deliveries.filter fun x => x.group = group).map
          Delivery.packet).toFinset.card →
        ∃ results after, decoder.decodeAll (deliveries.map Delivery.packet) = .ok (results, after) ∧
          ∀ i < encoder.dataShards, ∃ payload,
            calls[group * encoder.dataShards + i]?.map EncodeCall.packet = some payload ∧
              payload ∈ results.flatten := by
  obtain ⟨d, hd⟩ := Int.eq_ofNat_of_zero_le (show 0 ≤ sender.datashard.toInt by omega)
  obtain ⟨p, hp⟩ := Int.eq_ofNat_of_zero_le (show 0 ≤ sender.parityshard.toInt by omega)
  obtain ⟨codec, hcreate, hready, hfresh⟩ :=
    create_spec hd hp (by omega) (by omega) (by omega)
  refine ⟨codec, codec, hcreate, (create_congr hdataSame hparitySame).trans hcreate, ?_⟩
  intro deliveries group hproduced hreach hahead henough
  rw [hready.size_eq] at hreach
  rw [hready.data_eq] at henough ⊢
  have hinit : DecoderInv d p (packetsOf calls) calls.length (fun _ => ∅) 0 [] codec :=
    .init hready hfresh
  obtain ⟨results, after, arrived, highest, hrun, hinv, -, harrived, hbound⟩ := decodeAll_spec
    (length_packetsOf hsize) deliveries hinit
    (fun x hx => (hproduced x hx).exists_index hready hfresh) hreach
  -- Different packets of the group are different shards of it.
  have hcard : d ≤ (arrived group).card := by
    refine henough.trans (le_trans (Finset.card_le_card fun packet hpacket => ?_)
      (Finset.card_image_le (f := packetAt d p codec.rs (packetsOf calls) group)))
    obtain ⟨x, hx, rfl⟩ := List.mem_map.mp (List.mem_toFinset.mp hpacket)
    obtain ⟨hx, hgroup⟩ := List.mem_filter.mp hx
    obtain ⟨k, hk, hpacket⟩ := harrived x hx
    rw [of_decide_eq_true hgroup] at hk hpacket
    exact Finset.mem_image.mpr ⟨k, hk, hpacket.symm⟩
  have hrecent := hbound (group + 2) (Nat.zero_le _) hahead
  refine ⟨results, after, hrun, fun i hi => ⟨packetsOf calls (group * d + i), ?_, ?_⟩⟩
  · exact packetsOf_mem (lt_count_of_full hinv hcard hi)
  · exact hinv.full group hrecent hcard i hi

/-- A group of two with one packet lost: both packets are returned. -/
theorem one_lost_of_two_complete :
    ∃ codec results after, create { datashard := 2, parityshard := 1 } = .ok codec ∧
      codec.decodeAll [[1, 0, 0, 0, 241, 0, 3, 0, 9], [2, 0, 0, 0, 242, 0, 9, 0, 17, 6, 5]] =
        .ok (results, after) ∧
      [1, 2, 3] ∈ results.flatten ∧ [9] ∈ results.flatten := by
  obtain ⟨encoder, decoder, hencoder, hdecoder, h⟩ :=
    decode_complete { datashard := 2, parityshard := 1 } { datashard := 2, parityshard := 1 }
      (by decide) (by decide) (by decide) rfl rfl [⟨[1, 2, 3], 5⟩, ⟨[9], 10⟩] (by decide)
  have hcodec : create { datashard := 2, parityshard := 1 } =
      .ok { dataShards := 2, parityShards := 1, shardSize := 3, enabled := true, paws := 4294967295
            encodeShards := [[], []], rs := ⟨2, 1, 3, [[1, 0], [0, 1], [3, 2]]⟩ } := by rfl
  obtain rfl := Except.ok.inj (hencoder.symm.trans hcodec)
  obtain ⟨results, after, hrun, hall⟩ := h
    [⟨0, [1, 0, 0, 0, 241, 0, 3, 0, 9]⟩, ⟨0, [2, 0, 0, 0, 242, 0, 9, 0, 17, 6, 5]⟩] 0
    (fun x hx => ⟨1, [[1, 0, 0, 0, 241, 0, 3, 0, 9], [2, 0, 0, 0, 242, 0, 9, 0, 17, 6, 5]],
      by rfl, by simpa using List.mem_map_of_mem (f := Delivery.packet) hx, by
        rcases List.mem_pair.mp hx with rfl | rfl <;> rfl⟩)
    ⟨by decide, by decide, by decide, by decide, trivial⟩
    (fun x hx => by rcases List.mem_pair.mp hx with rfl | rfl <;> decide) (by decide)
  obtain ⟨first, hfirst, hfirstMem⟩ := hall 0 (by decide)
  obtain ⟨second, hsecond, hsecondMem⟩ := hall 1 (by decide)
  obtain rfl : [1, 2, 3] = first := Option.some.inj hfirst
  obtain rfl : [9] = second := Option.some.inj hsecond
  exact ⟨decoder, results, after, hdecoder, hrun, hfirstMem, hsecondMem⟩

end FecCodec

end Shimakaze
