import Shimakaze.Datagrams.Path

/-!
# One Direction of the Path

`OneWay` says what the datagrams of a sender are and what the receiver has made of those that
it heard. Both ends do other things in between: the sender takes in the datagrams of the other
direction, and the receiver sends its own. The encoder and the decoder are two parts of one
codec, and each function changes one of them only.

## Main results

* `OneWay.sender_acts`, `OneWay.sender_receives`, `OneWay.receiver_acts`,
  `OneWay.receiver_receives`: every kind of step keeps it, and a delivery does not throw.
-/

namespace Shimakaze

/-- What the receiver has decoded, once the encoder has got `count` outputs: with the erasure
code the shards that have arrived are those of the datagrams it heard. -/
def Decodes (codec : FecCodec) (packets : ℕ → Bytes) (count : ℕ) (s r : PathEnd) : Prop :=
  if codec.enabled then
    ∃ arrived, FecCodec.DecoderInv codec.dataShards codec.parityShards packets count arrived
        (s.highest r.heard) r.given r.progress.transport.fec ∧
      ∀ k ∈ r.heard, ∃ t i, s.origins[k]? = some (t, i) ∧
        placeOf codec.dataShards t i ∈ arrived (t / codec.dataShards)
  else ∀ packet ∈ r.given, ∃ t < count, packet = packets t

/-! ### One direction -/

/-- One direction of a path whose two codecs started as `codec`: what the sender's datagrams
are, and what the receiver has made of those it heard. -/
structure OneWay (lib : CryptoLib) (codec : FecCodec) (packets : ℕ → Bytes) (s r : PathEnd) :
    Prop where
  queued : s.progress.transport.Queued s.progress.enqueued
  origins_length : s.origins.length = s.progress.enqueued.length
  origins_lt : ∀ origin ∈ s.origins, origin.1 < s.progress.encoded.length
  origins_nodup : s.origins.Nodup
  made : ∀ (k : ℕ) (datagram : Bytes), s.progress.enqueued[k]? = some datagram →
    ∃ t i packet, s.origins[k]? = some (t, i) ∧ Made codec packets t i packet ∧
      s.progress.transport.crypt.decrypt lib datagram = some packet
  crypt_eq : r.progress.transport.crypt = s.progress.transport.crypt
  shards_eq : s.progress.transport.fec.dataShards = codec.dataShards
  encodes : Encodes codec packets s.progress.encoded.length s.progress.transport.fec
  rs_eq : r.progress.transport.fec.enabled = codec.enabled ∧
    r.progress.transport.fec.rs = codec.rs
  heard_lt : ∀ k ∈ r.heard, k < s.origins.length
  decodes : Decodes codec packets s.progress.encoded.length s r

variable {lib : CryptoLib} {codec : FecCodec} {packets : ℕ → Bytes} {s s' r r' : PathEnd}

/-- Later datagrams do not change the groups of the ones before. -/
theorem highest_congr (horigins : s.origins <+: s'.origins)
    (hshards : s'.progress.transport.fec.dataShards = s.progress.transport.fec.dataShards)
    {heard : List ℕ} (hheard : ∀ k ∈ heard, k < s.origins.length) :
    s'.highest heard = s.highest heard := by
  refine List.foldl_ext _ _ _ fun highest k hk => ?_
  obtain ⟨later, hlater⟩ := horigins
  rw [PathEnd.groupOf, PathEnd.groupOf, hshards, ← hlater, List.getElem?_append_left (hheard k hk)]

/-- What was decoded stays so when the sender goes on, in whatever way. -/
theorem Decodes.sender (h : Decodes codec packets s.progress.encoded.length s r)
    (horigins : s.origins <+: s'.origins)
    (hshards : s'.progress.transport.fec.dataShards = s.progress.transport.fec.dataShards)
    (hencoded : s.progress.encoded.length ≤ s'.progress.encoded.length)
    (hheard : ∀ k ∈ r.heard, k < s.origins.length) :
    Decodes codec packets s'.progress.encoded.length s' r := by
  rw [Decodes] at h ⊢
  split_ifs at h ⊢ with henabled
  · obtain ⟨arrived, hdecoder, hplaces⟩ := h
    refine ⟨arrived, ?_, fun k hk => ?_⟩
    · rw [highest_congr horigins hshards hheard]
      exact hdecoder.mono hencoded
    · obtain ⟨t, i, horigin, hplace⟩ := hplaces k hk
      obtain ⟨later, hlater⟩ := horigins
      refine ⟨t, i, ?_, hplace⟩
      rw [← hlater, List.getElem?_append_left (hheard k hk)]
      exact horigin
  · exact fun packet hpacket =>
      (h packet hpacket).imp fun t ht => ⟨ht.1.trans_le hencoded, ht.2⟩

/-- What the sender does besides sending. -/
theorem OneWay.sender_rests (h : OneWay lib codec packets s r)
    (hqueued : s'.progress.transport.Queued s'.progress.enqueued)
    (horigins : s'.origins = s.origins)
    (henqueued : s'.progress.enqueued = s.progress.enqueued)
    (hencoded : s'.progress.encoded = s.progress.encoded)
    (hcrypt : s'.progress.transport.crypt = s.progress.transport.crypt)
    (hshards : s'.progress.transport.fec.dataShards = s.progress.transport.fec.dataShards)
    (hencodes : Encodes codec packets s.progress.encoded.length s'.progress.transport.fec) :
    OneWay lib codec packets s' r where
  queued := hqueued
  origins_length := by rw [horigins, henqueued, h.origins_length]
  origins_lt := by rw [horigins, hencoded]; exact h.origins_lt
  origins_nodup := horigins ▸ h.origins_nodup
  made := by rw [henqueued, horigins, hcrypt]; exact h.made
  crypt_eq := h.crypt_eq.trans hcrypt.symm
  shards_eq := hshards.trans h.shards_eq
  encodes := by rw [hencoded]; exact hencodes
  rs_eq := h.rs_eq
  heard_lt := horigins ▸ h.heard_lt
  decodes := h.decodes.sender (horigins ▸ List.prefix_refl _) hshards
    (congrArg List.length hencoded).ge h.heard_lt

/-- **The sender sends** an output. -/
theorem OneWay.sender_sends (hlib : lib.Opens) (h : OneWay lib codec packets s r) {buffer : Bytes}
    (hbuffer : buffer = packets s.progress.encoded.length) (currentMillis : UInt32)
    (nonces : ℕ → Vector UInt8 16) (now : ℕ) :
    OneWay lib codec packets
      { s with
        progress :=
          { transport :=
              (s.progress.transport.sendUdp lib buffer currentMillis nonces now).2
            encoded := s.progress.encoded ++ [buffer]
            enqueued := s.progress.enqueued ++
              (s.progress.transport.sendUdp lib buffer currentMillis nonces now).1 }
        origins := s.origins ++
          (List.range (s.progress.transport.sendUdp lib buffer currentMillis nonces
            now).1.length).map fun i => (s.progress.encoded.length, i) } r := by
  obtain ⟨hencodes, hmade⟩ := h.encodes.encode currentMillis
  rw [← hbuffer] at hencodes hmade
  have hqueue := @KcpTransport.Queued.encryptAndEnqueue lib _ s.progress.enqueued
    (@KcpTransport.Queued.of_same _ _ h.queued { s.progress.transport with
      fec := (s.progress.transport.fec.encode buffer currentMillis).2 } rfl rfl rfl) now
    ((s.progress.transport.fec.encode buffer currentMillis).1.mapIdx
      fun i packet => (packet, nonces i))
  obtain ⟨hcrypt, hfec⟩ :=
    @KcpTransport.sendUdp_frame lib s.progress.transport buffer currentMillis nonces now
  change KcpTransport.Queued (s.progress.transport.sendUdp lib buffer currentMillis nonces now).2
      (s.progress.enqueued ++
        (s.progress.transport.sendUdp lib buffer currentMillis nonces now).1) ∧
    ∀ (i : ℕ) (datagram : Bytes),
      (s.progress.transport.sendUdp lib buffer currentMillis nonces now).1[i]? = some datagram →
        _ at hqueue
  generalize s.progress.transport.sendUdp lib buffer currentMillis nonces now = sent at *
  obtain ⟨hqueued, hdatagrams⟩ := hqueue
  have hshards : sent.2.fec.dataShards = s.progress.transport.fec.dataShards := by
    rw [hfec]
    exact (congrArg FecCodec.dataShards (FecCodec.encode_frame ..)).trans rfl
  refine ⟨hqueued, ?_, ?_, ?_, ?_, h.crypt_eq.trans hcrypt.symm, hshards.trans h.shards_eq, ?_,
    h.rs_eq, ?_, ?_⟩
  · simp only [List.length_append, List.length_map, List.length_range, h.origins_length]
  · intro origin horigin
    rw [List.length_append, List.length_singleton]
    rcases List.mem_append.mp horigin with hold | hnew
    · exact (h.origins_lt origin hold).trans (Nat.lt_succ_self _)
    · obtain ⟨i, -, rfl⟩ := List.mem_map.mp hnew
      exact Nat.lt_succ_self _
  · refine h.origins_nodup.append ((List.nodup_range).map fun i j hij => (Prod.mk.inj hij).2) ?_
    intro origin hold hnew
    obtain ⟨i, -, rfl⟩ := List.mem_map.mp hnew
    exact absurd (h.origins_lt _ hold) (Nat.lt_irrefl _)
  · intro k datagram hk
    rcases Nat.lt_or_ge k s.progress.enqueued.length with hlt | hge
    · rw [List.getElem?_append_left hlt] at hk
      obtain ⟨t, i, packet, horigin, hpacket, hdecrypt⟩ := h.made k datagram hk
      refine ⟨t, i, packet, ?_, hpacket, hcrypt ▸ hdecrypt⟩
      rw [List.getElem?_append_left (h.origins_length ▸ hlt)]
      exact horigin
    · rw [List.getElem?_append_right hge] at hk
      obtain ⟨packet, nonce, hpacket, hencrypt⟩ := hdatagrams _ datagram hk
      rw [List.getElem?_mapIdx] at hpacket
      obtain ⟨made, hget, hpair⟩ := Option.map_eq_some_iff.mp hpacket
      obtain ⟨rfl, -⟩ := Prod.mk.inj hpair
      refine ⟨s.progress.encoded.length, k - s.progress.enqueued.length, made, ?_,
        hmade _ made hget, ?_⟩
      · have hroom := (List.getElem?_eq_some_iff.mp hk).1
        rw [List.getElem?_append_right (h.origins_length ▸ hge), List.getElem?_map,
          h.origins_length, List.getElem?_range hroom]
        rfl
      · rw [hcrypt]
        exact PacketCrypt.decrypt_encrypt hlib hencrypt
  · rw [List.length_append, List.length_singleton, hfec]
    exact hencodes
  · intro k hk
    rw [List.length_append]
    exact (h.heard_lt k hk).trans_le (Nat.le_add_right _ _)
  · refine h.decodes.sender (List.prefix_append _ _) hshards ?_ h.heard_lt
    rw [List.length_append]
    exact Nat.le_add_right _ _

/-- **The sender acts.** -/
theorem OneWay.sender_acts (hlib : lib.Opens) (h : OneWay lib codec packets s r)
    {event : KcpTransport.Event} (hact : s.act lib event = some s')
    (hpackets : ∀ t < s'.progress.encoded.length,
      s'.progress.encoded[t]? = some (packets t)) :
    OneWay lib codec packets s' r := by
  have hnone : (List.range (s.progress.enqueued.length - s.progress.enqueued.length)).map
      (fun i => (s.progress.encoded.length, i)) = [] := by rw [Nat.sub_self]; rfl
  cases event with
  | output buffer currentMillis nonces now =>
      obtain ⟨progress, hstep, rfl⟩ := Option.map_eq_some_iff.mp hact
      rw [KcpTransport.step] at hstep
      split_ifs at hstep with hignored
      · obtain rfl := Option.some.inj hstep
        exact h.sender_rests h.queued (by rw [hnone, List.append_nil]) rfl rfl rfl rfl h.encodes
      · obtain rfl := Option.some.inj hstep
        have hbuffer : buffer = packets s.progress.encoded.length := by
          have hlast := hpackets s.progress.encoded.length (by
            rw [List.length_append, List.length_singleton]
            exact Nat.lt_succ_self _)
          dsimp only at hlast
          rw [List.getElem?_concat_length] at hlast
          exact Option.some.inj hlast
        have hsends := h.sender_sends hlib hbuffer currentMillis nonces now
        dsimp only
        rw [List.length_append, Nat.add_sub_cancel_left]
        exact hsends
  | input packet => cases hact
  | rateTimer error sentAt rescheduledAt =>
      obtain ⟨progress, hstep, rfl⟩ := Option.map_eq_some_iff.mp hact
      rw [KcpTransport.step] at hstep
      split_ifs at hstep
      obtain rfl := Option.some.inj hstep
      obtain ⟨hcrypt, hfec⟩ := @KcpTransport.rateTimerFired_frame s.progress.transport error
        sentAt rescheduledAt
      exact h.sender_rests (h.queued.rateTimerFired error sentAt rescheduledAt)
        (by rw [hnone, List.append_nil]) rfl rfl hcrypt (congrArg FecCodec.dataShards hfec)
        (hfec ▸ h.encodes)
  | close =>
      obtain rfl := Option.some.inj hact
      exact h.sender_rests (h.queued.of_same rfl rfl rfl)
        ((congrArg (s.origins ++ ·) hnone).trans (List.append_nil _)) rfl rfl rfl rfl h.encodes

/-- What a transport does with a packet that arrives: a closed one and an empty packet are
ignored, any other one is decoded. -/
theorem recv_cases {e e' : PathEnd} {k : ℕ} {datagram : Bytes}
    (h : e.recv lib k datagram = some e') :
    e' = e ∨ ∃ decoded out after, e.progress.transport.crypt.decrypt lib datagram = some decoded ∧
      (decoded = [] ∧ out = [] ∧ after = e.progress.transport.fec ∨
        decoded ≠ [] ∧ e.progress.transport.fec.decode decoded = .ok (out, after)) ∧
      e' = { e with
        progress := { e.progress with transport := { e.progress.transport with fec := after } }
        heard := e.heard ++ [k]
        given := e.given ++ out } := by
  rw [PathEnd.recv] at h
  cases hdecrypt : e.progress.transport.crypt.decrypt lib datagram with
  | none =>
      rw [hdecrypt] at h
      exact .inl (Option.some.inj h).symm
  | some decoded =>
      rw [hdecrypt] at h
      dsimp only at h
      split_ifs at h with hclosing
      · exact .inl (Option.some.inj h).symm
      · right
        rw [KcpTransport.input] at h
        by_cases hempty : decoded = []
        · rw [if_pos (.inr hempty)] at h
          exact ⟨decoded, [], _, rfl, .inl ⟨hempty, rfl, rfl⟩, (Option.some.inj h).symm⟩
        · rw [if_neg (by simp [hclosing, hempty])] at h
          cases hdecode : e.progress.transport.fec.decode decoded with
          | error message =>
              rw [hdecode] at h
              cases h
          | ok result =>
              rw [hdecode] at h
              exact ⟨decoded, _, _, rfl, .inr ⟨hempty, hdecode⟩, (Option.some.inj h).symm⟩

/-- Decoding leaves what the encoder needs. -/
theorem Encodes.decode {t : ℕ} {encoder after : FecCodec} (h : Encodes codec packets t encoder)
    (hframe : after = { encoder with
      newestShardId := after.newestShardId
      decodeSets := after.decodeSets }) : Encodes codec packets t after := by
  obtain ⟨hsame, hencoder⟩ := h
  rw [hframe]
  refine ⟨hsame, fun henabled => ?_⟩
  obtain ⟨hrs, hinv⟩ := hencoder henabled
  exact ⟨hrs, hinv.of_same (hinv.ready.of_same rfl rfl rfl rfl rfl rfl) rfl rfl rfl rfl⟩

/-- The decoder's part of a codec is all that decoding changes. -/
theorem decoded_frame {encoder after : FecCodec} {decoded : Bytes} {out : List Bytes}
    (h : decoded = [] ∧ out = [] ∧ after = encoder ∨
      decoded ≠ [] ∧ encoder.decode decoded = .ok (out, after)) :
    after = { encoder with
      newestShardId := after.newestShardId
      decodeSets := after.decodeSets } := by
  rcases h with ⟨-, -, rfl⟩ | ⟨-, hdecode⟩
  · rfl
  · exact FecCodec.decode_frame hdecode

/-- **The sender takes in a datagram** of the other direction. -/
theorem OneWay.sender_receives (h : OneWay lib codec packets s r) {k : ℕ} {datagram : Bytes}
    (hrecv : s.recv lib k datagram = some s') : OneWay lib codec packets s' r := by
  rcases recv_cases hrecv with rfl | ⟨decoded, out, after, -, hdecode, rfl⟩
  · exact h
  · have hframe := decoded_frame hdecode
    exact h.sender_rests (h.queued.of_same rfl rfl rfl) rfl rfl rfl rfl
      ((congrArg FecCodec.dataShards hframe).trans rfl) (h.encodes.decode hframe)

/-- What an end does by itself changes nothing that its decoder looks at. -/
theorem act_frame {e e' : PathEnd} {event : KcpTransport.Event} (h : e.act lib event = some e') :
    e'.heard = e.heard ∧ e'.given = e.given ∧
      e'.progress.transport.crypt = e.progress.transport.crypt ∧
      e'.progress.transport.fec =
        { e.progress.transport.fec with
          nextSeq := e'.progress.transport.fec.nextSeq
          shardCount := e'.progress.transport.fec.shardCount
          maxShardLen := e'.progress.transport.fec.maxShardLen
          latestPacketMs := e'.progress.transport.fec.latestPacketMs
          encodeShards := e'.progress.transport.fec.encodeShards } := by
  cases event with
  | output buffer currentMillis nonces now =>
      obtain ⟨progress, hstep, rfl⟩ := Option.map_eq_some_iff.mp h
      rw [KcpTransport.step] at hstep
      split_ifs at hstep
      · obtain rfl := Option.some.inj hstep
        exact ⟨rfl, rfl, rfl, rfl⟩
      · obtain rfl := Option.some.inj hstep
        obtain ⟨hcrypt, hfec⟩ := @KcpTransport.sendUdp_frame lib e.progress.transport buffer
          currentMillis nonces now
        have hframe := e.progress.transport.fec.encode_frame buffer currentMillis
        rw [← hfec] at hframe
        exact ⟨rfl, rfl, hcrypt, hframe⟩
  | input packet => cases h
  | rateTimer error sentAt rescheduledAt =>
      obtain ⟨progress, hstep, rfl⟩ := Option.map_eq_some_iff.mp h
      rw [KcpTransport.step] at hstep
      split_ifs at hstep
      obtain rfl := Option.some.inj hstep
      obtain ⟨hcrypt, hfec⟩ := @KcpTransport.rateTimerFired_frame e.progress.transport error
        sentAt rescheduledAt
      refine ⟨rfl, rfl, hcrypt, ?_⟩
      dsimp only
      rw [hfec]
  | close =>
      obtain rfl := Option.some.inj h
      exact ⟨rfl, rfl, rfl, rfl⟩

/-- **The receiver acts.** -/
theorem OneWay.receiver_acts (h : OneWay lib codec packets s r) {event : KcpTransport.Event}
    (hact : r.act lib event = some r') : OneWay lib codec packets s r' := by
  obtain ⟨hheard, hgiven, hcrypt, hfec⟩ := act_frame hact
  refine ⟨h.queued, h.origins_length, h.origins_lt, h.origins_nodup, h.made,
    hcrypt.trans h.crypt_eq, h.shards_eq, h.encodes, ?_, hheard ▸ h.heard_lt, ?_⟩
  · rw [hfec]
    exact h.rs_eq
  · have hdecodes := h.decodes
    rw [Decodes] at hdecodes ⊢
    rw [hheard, hgiven]
    split_ifs at hdecodes ⊢ with henabled
    · obtain ⟨arrived, hdecoder, hplaces⟩ := hdecodes
      refine ⟨arrived, hdecoder.of_same ?_ ?_ ?_ ?_, hplaces⟩
      · rw [hfec]
        exact hdecoder.ready.of_same rfl rfl rfl rfl rfl rfl
      all_goals rw [hfec]
    · exact hdecodes

/-- A packet of the erasure code is never empty. -/
theorem packetAt_ne_nil (d n : ℕ) (rs : ReedSolomon) (g k : ℕ) :
    packetAt d n rs packets g k ≠ [] := by
  intro hnil
  have hlength := congrArg List.length hnil
  rw [packetAt, List.length_append, List.length_append, length_writeLe32] at hlength
  exact absurd hlength (by simp)

/-- **The receiver takes in a datagram** that is neither too old nor too new. -/
theorem OneWay.receiver_receives (h : OneWay lib codec packets s r)
    (hpackets : codec.enabled = true → ∀ t, (packets t).length ≤ 65533) {k : ℕ} {datagram : Bytes}
    (hposted : s.progress.transport.socket[k]? = some datagram) (hreach : InReach s r k) :
    ∃ r', r.recv lib k datagram = some r' ∧ OneWay lib codec packets s r' := by
  have hlt := (List.getElem?_eq_some_iff.mp hposted).1
  have hsent : s.progress.enqueued[k]? = some datagram := by
    rw [← h.queued.queue, List.getElem?_append_left hlt]
    exact hposted
  have hk : k < s.origins.length := by
    rw [h.origins_length]
    exact (List.getElem?_eq_some_iff.mp hsent).1
  obtain ⟨t, i, packet, horigin, hmade, hdecrypt⟩ := h.made k datagram hsent
  have ht : t < s.progress.encoded.length := h.origins_lt _ (List.mem_of_getElem? horigin)
  have hgroup : s.groupOf k = t / codec.dataShards := by
    rw [PathEnd.groupOf, horigin, h.shards_eq]
    rfl
  have hhighest : s.highest (r.heard ++ [k]) =
      max (s.highest r.heard) (t / codec.dataShards) := by
    rw [PathEnd.highest, List.foldl_append, ← hgroup]
    rfl
  rw [← h.crypt_eq] at hdecrypt
  rw [PathEnd.recv, hdecrypt]
  dsimp only
  split_ifs with hclosing
  · exact ⟨r, rfl, h⟩
  have hdecodes := h.decodes
  rw [Decodes] at hdecodes
  rw [Made] at hmade
  by_cases henabled : codec.enabled = true
  · rw [if_pos henabled] at hmade hdecodes
    obtain ⟨rfl, hplace, -⟩ := hmade
    obtain ⟨arrived, hdecoder, hplaces⟩ := hdecodes
    have hsenderReady := (h.encodes.2 henabled).2.ready
    obtain ⟨hup, hdown⟩ := hreach (hsenderReady.enabled_eq)
    rw [hgroup, hsenderReady.size_eq] at hup hdown
    obtain ⟨out, after, hdecode, hafter, hrs⟩ := FecCodec.decode_step hdecoder
      (hpackets henabled) (hplace.mono (Nat.succ_le_of_lt ht)) hup hdown
    rw [h.rs_eq.2] at hdecode
    rw [KcpTransport.input, if_neg (by simp [hclosing, packetAt_ne_nil]), hdecode]
    refine ⟨_, rfl, h.queued, h.origins_length, h.origins_lt, h.origins_nodup, h.made, h.crypt_eq,
      h.shards_eq, h.encodes, ⟨hafter.ready.enabled_eq.trans henabled.symm,
        hrs.trans h.rs_eq.2⟩, ?_, ?_⟩
    · exact List.forall_mem_append.mpr ⟨h.heard_lt, List.forall_mem_singleton.mpr hk⟩
    · rw [Decodes, if_pos henabled]
      refine ⟨_, hhighest ▸ hafter, fun j hj => ?_⟩
      rcases List.mem_append.mp hj with hold | hnew
      · obtain ⟨t', i', horigin', hmem⟩ := hplaces j hold
        exact ⟨t', i', horigin', FecCodec.subset_arrive arrived _ _ _ hmem⟩
      · rw [List.mem_singleton.mp hnew]
        refine ⟨t, i, horigin, ?_⟩
        rw [FecCodec.arrive_self]
        exact Finset.mem_insert_self _ _
  · rw [if_neg henabled] at hmade hdecodes
    have hframe : ∃ out, r.progress.transport.input packet = .ok (out, r.progress.transport) ∧
        ∀ v ∈ out, v = packet := by
      rw [KcpTransport.input]
      by_cases hempty : packet = []
      · rw [if_pos (.inr hempty)]
        exact ⟨[], rfl, fun v hv => absurd hv List.not_mem_nil⟩
      · have hoff : ¬ r.progress.transport.fec.enabled = true := by
          rw [h.rs_eq.1]
          exact henabled
        rw [if_neg (by simp [hclosing, hempty]), FecCodec.decode, if_pos (.inl hoff)]
        exact ⟨[packet], rfl, fun v hv => List.mem_singleton.mp hv⟩
    obtain ⟨out, hinput, hout⟩ := hframe
    rw [hinput]
    refine ⟨_, rfl, h.queued, h.origins_length, h.origins_lt, h.origins_nodup, h.made, h.crypt_eq,
      h.shards_eq, h.encodes, h.rs_eq, ?_, ?_⟩
    · exact List.forall_mem_append.mpr ⟨h.heard_lt, List.forall_mem_singleton.mpr hk⟩
    · rw [Decodes, if_neg henabled]
      intro v hv
      rcases List.mem_append.mp hv with hold | hnew
      · exact hdecodes v hold
      · exact ⟨t, ht, (hout v hnew).trans hmade⟩

end Shimakaze
