import Shimakaze.Config.Parse
import Shimakaze.Datagrams.OneWay

/-!
# What KCP Is Given

Over whole runs of both ends, with the datagrams of both directions in any order: nothing is
made up on the way from one KCP to the other, and the erasure code makes up for what is lost.

## Main results

* `timely_of_few`: as long as there are few enough outputs, no datagram is too old.
* `given_was_output`: **KCP is given nothing but what the other KCP has output**, and nothing
  that arrives makes the receiver throw.
* `lost_outputs_given`: with the erasure code, a group of which enough datagrams arrive in time
  is given to KCP as a whole, lost datagrams included.
-/

namespace Shimakaze

variable {lib : CryptoLib} {codec : FecCodec} {packets : ℕ → Bytes} {s r : PathEnd}

/-! ### Runs -/

/-- The outputs of an end are never forgotten. -/
theorem encoded_initial {j j' : Side → PathEnd} {event : LossyEvent KcpTransport.Event}
    (hstep : (datagramPath lib).machine.step j event = some j') (p : Side) :
    (j p).progress.encoded <+: (j' p).progress.encoded := by
  have hother {q : Side} {e : PathEnd} (h : (j q).progress.encoded <+: e.progress.encoded) :
      (j p).progress.encoded <+: (Function.update j q e p).progress.encoded := by
    by_cases hpq : p = q
    · subst hpq
      rwa [Function.update_self]
    · rw [Function.update_of_ne hpq]
  cases event with
  | act q event =>
      obtain ⟨e, hact, rfl⟩ := Option.map_eq_some_iff.mp hstep
      refine hother ?_
      have hgrows : ∀ {progress}, KcpTransport.step lib (j q).progress event = some progress →
          (j q).progress.encoded <+: progress.encoded := fun hprogress => by
        rcases KcpTransport.step_cases hprogress with ⟨_, _, _, _, -, rfl⟩ | ⟨hencoded, -⟩
        · exact List.prefix_append _ _
        · exact hencoded ▸ List.prefix_refl _
      cases event with
      | input packet => cases hact
      | close =>
          obtain rfl := Option.some.inj hact
          exact List.prefix_refl _
      | _ =>
          obtain ⟨progress, hprogress, rfl⟩ := Option.map_eq_some_iff.mp hact
          exact hgrows hprogress
  | deliver q k =>
      obtain ⟨datagram, -, hstep⟩ := Option.bind_eq_some_iff.mp hstep
      obtain ⟨e, hrecv, rfl⟩ := Option.map_eq_some_iff.mp hstep
      refine hother ?_
      rcases recv_cases hrecv with rfl | ⟨decoded, out, after, -, -, rfl⟩
      · exact List.prefix_refl _
      · exact List.prefix_refl _

/-- The two sides of a tunnel agree on the encryption and the erasure code. -/
structure SameTunnel (config config' : BaseConfig) : Prop where
  crypt_eq : config'.crypt = config.crypt
  key_eq : config'.key = config.key
  datashard_eq : config'.datashard = config.datashard
  parityshard_eq : config'.parityshard = config.parityshard

/-- The network delivers no datagram that is too old or too new for the erasure code. -/
def Timely (lib : CryptoLib) (start : Side → PathEnd)
    (events : List (LossyEvent KcpTransport.Event)) : Prop :=
  (datagramPath lib).machine.Along
    (LossyLink.Meets (fun _ _ _ => True) fun _ s r k => InReach s r k) start events

/-- The outputs of an end by their number. -/
def PathEnd.outputs (e : PathEnd) (t : ℕ) : Bytes := e.progress.encoded.getD t []

/-- Each kind of step keeps one direction of the path, if the outputs are what they are in the
end. -/
theorem oneWay_directed (hlib : lib.Opens) {ends : Side → PathEnd}
    (hsizes : codec.enabled = true → ∀ p t, ((ends p).outputs t).length ≤ 65533) :
    (datagramPath lib).Directed
      (fun p s event => ∀ s', s.act lib event = some s' →
        s'.progress.encoded <+: (ends p).progress.encoded)
      (fun _ s r k => InReach s r k)
      (fun p s r => OneWay lib codec (ends p).outputs s r) where
  senderActs p s r event s' h hprefix hact := by
    refine h.sender_acts hlib hact fun t ht => ?_
    obtain ⟨later, hlater⟩ := hprefix s' hact
    rw [PathEnd.outputs, ← hlater, List.getD_eq_getElem?_getD, List.getElem?_append_left ht,
      List.getElem?_eq_getElem ht]
    rfl
  senderReceives p s r k datagram s' h hrecv := h.sender_receives hrecv
  receiverActs p s r event r' h hact := h.receiver_acts hact
  receiverReceives p s r k datagram r' h hposted hreach hrecv := by
    obtain ⟨next, hnext, hkept⟩ := h.receiver_receives (fun henabled => hsizes henabled p) hposted
      hreach
    obtain rfl := Option.some.inj (hnext.symm.trans hrecv)
    exact hkept

/-- The datagrams of an end were made for outputs it has had. -/
def PathEnd.Counted (shardSize : ℕ) (e : PathEnd) : Prop :=
  (∀ origin ∈ e.origins, origin.1 < e.progress.encoded.length) ∧
    e.progress.transport.fec.shardSize = shardSize

theorem PathEnd.Counted.act {e e' : PathEnd} {event : KcpTransport.Event} {shardSize : ℕ}
    (h : e.Counted shardSize) (hact : e.act lib event = some e') : e'.Counted shardSize := by
  obtain ⟨-, -, -, hfec⟩ := act_frame hact
  refine ⟨?_, (congrArg FecCodec.shardSize hfec).trans h.2⟩
  cases event with
  | input packet => cases hact
  | close =>
      obtain rfl := Option.some.inj hact
      simpa using h.1
  | rateTimer error sentAt rescheduledAt =>
      obtain ⟨progress, hstep, rfl⟩ := Option.map_eq_some_iff.mp hact
      rw [KcpTransport.step] at hstep
      split_ifs at hstep
      obtain rfl := Option.some.inj hstep
      simpa using h.1
  | output buffer currentMillis nonces now =>
      obtain ⟨progress, hstep, rfl⟩ := Option.map_eq_some_iff.mp hact
      rw [KcpTransport.step] at hstep
      split_ifs at hstep
      · obtain rfl := Option.some.inj hstep
        simpa using h.1
      · obtain rfl := Option.some.inj hstep
        intro origin horigin
        dsimp only at horigin ⊢
        rw [List.length_append, List.length_singleton]
        rcases List.mem_append.mp horigin with hold | hnew
        · exact (h.1 origin hold).trans (Nat.lt_succ_self _)
        · obtain ⟨i, -, rfl⟩ := List.mem_map.mp hnew
          exact Nat.lt_succ_self _

theorem PathEnd.Counted.recv {e e' : PathEnd} {k shardSize : ℕ} {datagram : Bytes}
    (h : e.Counted shardSize) (hrecv : e.recv lib k datagram = some e') :
    e'.Counted shardSize := by
  rcases recv_cases hrecv with rfl | ⟨decoded, out, after, -, hdecode, rfl⟩
  · exact h
  · exact ⟨h.1, (congrArg FecCodec.shardSize (decoded_frame hdecode)).trans h.2⟩

/-- The groups of datagrams are not more than the outputs. -/
theorem PathEnd.Counted.groupOf_le {e : PathEnd} {shardSize : ℕ} (h : e.Counted shardSize)
    (k : ℕ) : e.groupOf k ≤ e.progress.encoded.length := by
  rw [PathEnd.groupOf]
  cases horigin : e.origins[k]? with
  | none => simp
  | some origin =>
      exact (Nat.div_le_self _ _).trans (h.1 origin (List.mem_of_getElem? horigin)).le

theorem PathEnd.Counted.highest_le {e : PathEnd} {shardSize : ℕ} (h : e.Counted shardSize)
    (heard : List ℕ) : e.highest heard ≤ e.progress.encoded.length := by
  rw [PathEnd.highest]
  exact List.foldlRecOn (motive := fun highest => highest ≤ e.progress.encoded.length) heard _
    (Nat.zero_le _) fun highest hle k _ => max_le hle (h.groupOf_le k)

/-- **Nothing is too old** while the outputs of each end are few enough. -/
theorem timely_of_few {start ends : Side → PathEnd}
    {events : List (LossyEvent KcpTransport.Event)}
    (hrun : (datagramPath lib).machine.run start events = some ends)
    (hstart : ∀ p, (start p).origins = [])
    (hfew : ∀ p, (ends p).progress.encoded.length ≤
      2 ^ 28 / (start p).progress.transport.fec.shardSize) : Timely lib start events := by
  have hupdate {j : Side → PathEnd} {q : Side} {e : PathEnd}
      (h : ∀ p, (j p).Counted (start p).progress.transport.fec.shardSize)
      (he : e.Counted (start q).progress.transport.fec.shardSize) (p : Side) :
      (Function.update j q e p).Counted (start p).progress.transport.fec.shardSize := by
    by_cases hpq : p = q
    · subst hpq
      rwa [Function.update_self]
    · rw [Function.update_of_ne hpq]
      exact h p
  have hcounted := EventMachine.along_of_invariant
    (I := fun j : Side → PathEnd =>
      ∀ p, (j p).Counted (start p).progress.transport.fec.shardSize)
    (M := (datagramPath lib).machine) (fun j event j' h hstep => by
      cases event with
      | act q event =>
          obtain ⟨e, hact, rfl⟩ := Option.map_eq_some_iff.mp hstep
          exact hupdate h ((h q).act hact)
      | deliver q k =>
          obtain ⟨datagram, -, hstep⟩ := Option.bind_eq_some_iff.mp hstep
          obtain ⟨e, hrecv, rfl⟩ := Option.map_eq_some_iff.mp hstep
          exact hupdate h ((h q).recv hrecv))
    (fun p => ⟨fun origin horigin => absurd (hstart p ▸ horigin) List.not_mem_nil, rfl⟩) events
  have hgrows := EventMachine.along_of_grows
    (R := fun before after : Side → List Bytes => ∀ p, before p <+: after p)
    (fun _ _ => List.prefix_refl _) (fun _ _ _ h h' p => (h p).trans (h' p))
    (m := fun j p => (j p).progress.encoded) (fun _ _ _ hstep p => encoded_initial hstep p) hrun
  refine (hcounted.and hgrows).imp fun j event j' hstep h => ?_
  cases event with
  | act p event => trivial
  | deliver p k =>
      intro _
      have hends := ((encoded_initial hstep p.other).trans (h.2 j' hstep p.other)).length_le
      have hgroup := (h.1 p.other).groupOf_le k
      have hhighest := (h.1 p.other).highest_le (j p).heard
      have hall := hends.trans (hfew p.other)
      rw [(h.1 p.other).2]
      omega

/-- Nothing has been sent yet. -/
theorem OneWay.start {created created' : KcpTransport} (hcrypt : created'.crypt = created.crypt)
    (hfec : created.fec = codec) (hfec' : created'.fec = codec)
    (hready : codec.enabled = true →
      codec.Ready codec.dataShards codec.parityShards ∧ codec.Fresh)
    (hsocket : created.socket = []) (hpending : created.pendingUdp = []) :
    OneWay lib codec packets { progress := { transport := created } }
      { progress := { transport := created' } } where
  queued := ⟨by simp [hsocket, hpending], fun _ => hpending⟩
  origins_length := rfl
  origins_lt _ horigin := absurd horigin List.not_mem_nil
  origins_nodup := List.nodup_nil
  made k datagram hk := absurd hk (by simp)
  crypt_eq := hcrypt
  shards_eq := congrArg FecCodec.dataShards hfec
  encodes := ⟨congrArg FecCodec.enabled hfec, fun henabled => ⟨congrArg FecCodec.rs hfec, by
    obtain ⟨hready, hfresh⟩ := hready henabled
    dsimp only
    rw [hfec]
    exact .init hready hfresh⟩⟩
  rs_eq := ⟨congrArg FecCodec.enabled hfec', congrArg FecCodec.rs hfec'⟩
  heard_lt _ hk := absurd hk List.not_mem_nil
  decodes := by
    rw [Decodes]
    split_ifs with henabled
    · obtain ⟨hready, hfresh⟩ := hready henabled
      refine ⟨fun _ => ∅, ?_, fun k hk => absurd hk List.not_mem_nil⟩
      dsimp only
      rw [hfec']
      exact .init hready hfresh
    · exact fun packet hpacket => absurd hpacket List.not_mem_nil

/-- The output and the place among its packets determine the place in the group, and the other
way round. -/
theorem placeOf_injective {d t t' i i' : ℕ} (hlast : i ≠ 0 → t % d + 1 = d)
    (hlast' : i' ≠ 0 → t' % d + 1 = d) (hd : 0 < d) (hgroup : t / d = t' / d)
    (hplace : placeOf d t i = placeOf d t' i') : (t, i) = (t', i') := by
  have hlt := Nat.mod_lt t hd
  have hlt' := Nat.mod_lt t' hd
  have hsplit := Nat.div_add_mod' t d
  have hsplit' := Nat.div_add_mod' t' d
  rw [hgroup] at hsplit
  rw [placeOf, placeOf] at hplace
  rw [Prod.mk.injEq]
  split_ifs at hplace with hzero hzero' hzero'
  · omega
  · omega
  · omega
  · have hsame := hlast hzero
    have hsame' := hlast' hzero'
    omega

/-- Different datagrams of a group are different shards of it. -/
theorem OneWay.card_heard_le (h : OneWay lib codec packets s r) (henabled : codec.enabled = true)
    {arrived : ℕ → Finset ℕ} (hplaces : ∀ k ∈ r.heard, ∃ t i, s.origins[k]? = some (t, i) ∧
      placeOf codec.dataShards t i ∈ arrived (t / codec.dataShards)) (g : ℕ) :
    (r.heard.filter fun k => s.groupOf k = g).toFinset.card ≤ (arrived g).card := by
  have hd := (h.encodes.2 henabled).2.ready.data_pos
  have hfound : ∀ k ∈ (r.heard.filter fun k => s.groupOf k = g).toFinset, ∃ t i,
      s.origins[k]? = some (t, i) ∧ t / codec.dataShards = g ∧
        placeOf codec.dataShards t i ∈ arrived g ∧
        (i ≠ 0 → t % codec.dataShards + 1 = codec.dataShards) := by
    intro k hk
    obtain ⟨hheard, hgroup⟩ := List.mem_filter.mp (List.mem_toFinset.mp hk)
    obtain ⟨t, i, horigin, hplace⟩ := hplaces k hheard
    have hsame : t / codec.dataShards = g := by
      rw [← of_decide_eq_true hgroup, PathEnd.groupOf, horigin, h.shards_eq]
      rfl
    have hlt : k < s.progress.enqueued.length := h.origins_length ▸ h.heard_lt k hheard
    obtain ⟨t', i', packet, horigin', hmade, -⟩ := h.made k _ (List.getElem?_eq_getElem hlt)
    obtain ⟨rfl, rfl⟩ := Prod.mk.inj (Option.some.inj (horigin.symm.trans horigin'))
    rw [Made, if_pos henabled] at hmade
    exact ⟨t, i, horigin, hsame, hsame ▸ hplace, hmade.2.2⟩
  refine Finset.card_le_card_of_injOn
    (fun k => (s.origins[k]?.map fun origin => placeOf codec.dataShards origin.1 origin.2).getD 0)
    (fun k hk => ?_) fun k hk k' hk' hplace => ?_
  · obtain ⟨t, i, horigin, -, hplace, -⟩ := hfound k hk
    dsimp only
    rw [horigin]
    exact hplace
  · obtain ⟨t, i, horigin, hgroup, -, hlast⟩ := hfound k hk
    obtain ⟨t', i', horigin', hgroup', -, hlast'⟩ := hfound k' hk'
    dsimp only at hplace
    rw [horigin, horigin'] at hplace
    have hsame := placeOf_injective hlast hlast' hd (hgroup.trans hgroup'.symm) hplace
    refine (List.getElem?_inj (List.getElem?_eq_some_iff.mp horigin).1 h.origins_nodup).mp ?_
    rw [horigin, horigin', hsame]

/-- What was given to KCP was output by the other one. -/
theorem OneWay.given_mem (h : OneWay lib codec s.outputs s r) {packet : Bytes}
    (hpacket : packet ∈ r.given) : packet ∈ s.progress.encoded := by
  obtain ⟨t, ht, rfl⟩ : ∃ t < s.progress.encoded.length, packet = s.outputs t := by
    have hdecodes := h.decodes
    rw [Decodes] at hdecodes
    split_ifs at hdecodes
    · obtain ⟨arrived, hdecoder, -⟩ := hdecodes
      exact hdecoder.sound packet hpacket
    · exact hdecodes packet hpacket
  rw [PathEnd.outputs, List.getD_eq_getElem _ _ ht]
  exact List.getElem_mem ht

section Runs

variable (lib : CryptoLib) (hlib : lib.Opens) (ikcpSetmtu : Int32 → Int32)
  (config : Side → BaseConfig) (haccepted : ∀ p, (config p).Accepted)
  (hsum : ∀ p, (config p).datashard.toInt + (config p).parityshard.toInt ≤ 256)
  (hsame : SameTunnel (config .left) (config .right)) (transport : Side → KcpTransport)
  (hcreate : ∀ p, KcpTransport.create lib ikcpSetmtu (config p) = .ok (transport p))
  (events : List (LossyEvent KcpTransport.Event)) (ends : Side → PathEnd)
  (hrun : (datagramPath lib).machine.run (fun p => { progress := { transport := transport p } })
    events = some ends)
  (hmtu : ∀ p, ∀ packet ∈ (ends p).progress.encoded,
    (packet.length : ℤ) ≤ (transport p).kcpMtu.toInt)
  (htimely : Timely lib (fun p => { progress := { transport := transport p } }) events)

include hlib haccepted hsum hsame hcreate hrun hmtu htimely

/-- **Every run** keeps both directions of the path. -/
theorem run_oneWay : ∃ codec : FecCodec, (∀ p, (transport p).fec = codec) ∧
    (codec.enabled = true → ∀ p t, ((ends p).outputs t).length ≤ 65533) ∧
    ∀ p, OneWay lib codec (ends p).outputs (ends p) (ends p.other) := by
  have hshards p := (haccepted p).shards_le (by have hle := hsum p; omega)
  obtain ⟨codec, hcodec, hcrypts⟩ : ∃ codec : FecCodec, (∀ p, (transport p).fec = codec ∧
      FecCodec.create (config p) = .ok codec) ∧
      (transport .right).crypt = (transport .left).crypt := by
    obtain ⟨crypt, fec, kcpMtu, hcrypt, hfec, -, hleft⟩ := KcpTransport.create_parts (hcreate .left)
    obtain ⟨crypt', fec', kcpMtu', hcrypt', hfec', -, hright⟩ :=
      KcpTransport.create_parts (hcreate .right)
    rw [PacketCrypt.create_congr hsame.crypt_eq hsame.key_eq, hcrypt] at hcrypt'
    have hagree := hfec'
    rw [FecCodec.create_congr hsame.datashard_eq hsame.parityshard_eq, hfec] at hagree
    obtain rfl := Except.ok.inj hcrypt'
    obtain rfl := Except.ok.inj hagree
    refine ⟨fec, fun p => ?_, by rw [hleft, hright]⟩
    cases p with
    | left => exact ⟨by rw [hleft], hfec⟩
    | right => exact ⟨by rw [hright], hfec'⟩
  have hready : codec.enabled = true →
      codec.Ready codec.dataShards codec.parityShards ∧ codec.Fresh :=
    FecCodec.create_ready (hshards .left).1 (hshards .left).2.1 (hshards .left).2.2
      (hcodec .left).2
  have hsizes : codec.enabled = true → ∀ p t, ((ends p).outputs t).length ≤ 65533 := by
    intro henabled p t
    obtain ⟨-, -, hroom⟩ := KcpTransport.create_mtu (haccepted p) (hcreate p)
    have hrange := (haccepted p).mtu_range
    have hoverhead : (transport p).fec.overhead = 8 := by
      rw [(hcodec p).1, FecCodec.overhead, if_pos henabled]
      rfl
    rw [PathEnd.outputs, List.getD_eq_getElem?_getD]
    cases hget : (ends p).progress.encoded[t]? with
    | none => exact Nat.zero_le _
    | some packet =>
        have hle := hmtu p packet (List.mem_of_getElem? hget)
        rw [Option.getD_some]
        omega
  refine ⟨codec, fun p => (hcodec p).1, hsizes, ?_⟩
  refine (oneWay_directed hlib hsizes).run (fun p => ?_) ?_ hrun
  · obtain ⟨crypt, fec, kcpMtu, -, -, -, hparts⟩ := KcpTransport.create_parts (hcreate p)
    refine .start ?_ (hcodec p).1 (hcodec p.other).1 hready (by rw [hparts]) (by rw [hparts])
    cases p with
    | left => exact hcrypts
    | right => exact hcrypts.symm
  · -- along the run the outputs are a beginning of those in the end
    have hgrows := EventMachine.along_of_grows
      (R := fun before after : Side → List Bytes => ∀ p, before p <+: after p)
      (fun _ _ => List.prefix_refl _) (fun _ _ _ h h' p => (h p).trans (h' p))
      (m := fun j p => (j p).progress.encoded) (fun _ _ _ hstep p => encoded_initial hstep p) hrun
    refine (hgrows.and htimely).imp fun j event j' hstep h => ?_
    cases event with
    | act p event =>
        intro e hact
        have hprefix := h.1 (Function.update j p e) (Option.map_eq_some_iff.mpr ⟨e, hact, rfl⟩) p
        rwa [Function.update_self] at hprefix
    | deliver p k => exact h.2

/-- **KCP is given nothing but what the other KCP has output.** However the network loses,
repeats and reorders the datagrams of two transports of one tunnel, each packet given to KCP on
one side was output by KCP on the other one, byte for byte; and nothing that is delivered next
makes the receiver throw. -/
theorem given_was_output (p : Side) :
    (∀ packet ∈ (ends p.other).given, packet ∈ (ends p).progress.encoded) ∧
    ∀ k < (ends p).progress.transport.socket.length, InReach (ends p) (ends p.other) k →
      ∃ after, (datagramPath lib).machine.step ends (.deliver p.other k) = some after := by
  obtain ⟨codec, -, hsizes, hways⟩ := run_oneWay lib hlib ikcpSetmtu config haccepted hsum hsame
    transport hcreate events ends hrun hmtu htimely
  refine ⟨fun packet hpacket => (hways p).given_mem hpacket, fun k hk hreach => ?_⟩
  obtain ⟨e, he, -⟩ := (hways p).receiver_receives (fun henabled => hsizes henabled p)
    (List.getElem?_eq_getElem hk) hreach
  have hposted : ((datagramPath lib).posted (ends p.other.other))[k]? =
      some (ends p).progress.transport.socket[k] := by
    rw [Side.other_other]
    exact List.getElem?_eq_getElem hk
  exact ⟨_, Option.bind_eq_some_iff.mpr ⟨_, hposted, Option.map_eq_some_iff.mpr ⟨e, he, rfl⟩⟩⟩

/-- **Lost outputs are given all the same.** With the erasure code: once as many datagrams of a
group as it has data shards have been taken in, in whatever order and whatever else was, and
none of a group more than two groups ahead, all outputs of the group have been given to KCP. -/
theorem lost_outputs_given (p : Side) (henabled : (transport p).fec.enabled = true) (g : ℕ)
    (hrecent : (ends p).highest (ends p.other).heard ≤ g + 2)
    (henough : (transport p).fec.dataShards ≤
      ((ends p.other).heard.filter fun k => (ends p).groupOf k = g).toFinset.card) :
    ∀ i < (transport p).fec.dataShards, ∃ packet,
      (ends p).progress.encoded[g * (transport p).fec.dataShards + i]? = some packet ∧
        packet ∈ (ends p.other).given := by
  obtain ⟨codec, hcodec, -, hways⟩ := run_oneWay lib hlib ikcpSetmtu config haccepted hsum hsame
    transport hcreate events ends hrun hmtu htimely
  rw [hcodec p] at henabled henough ⊢
  have h := hways p
  have hdecodes := h.decodes
  rw [Decodes, if_pos henabled] at hdecodes
  obtain ⟨arrived, hdecoder, hplaces⟩ := hdecodes
  have hcard := henough.trans (h.card_heard_le henabled hplaces g)
  intro i hi
  have hlt := FecCodec.lt_count_of_full hdecoder hcard hi
  refine ⟨_, List.getElem?_eq_getElem hlt, ?_⟩
  have hgiven := hdecoder.full g hrecent hcard i hi
  rwa [PathEnd.outputs, List.getD_eq_getElem _ _ hlt] at hgiven

end Runs

/-- A library whose AES-GCM does nothing, for tunnels without it. -/
def openLibrary : CryptoLib :=
  { PacketCrypt.withoutLibrary with
    gcmEncrypt := fun _ _ packet => (⟨packet.toArray, rfl⟩, Vector.replicate 16 0)
    gcmDecrypt := fun _ _ payload _ => some ⟨payload.toArray, rfl⟩ }

theorem openLibrary_opens : openLibrary.Opens := fun _ _ packet => by
  simp [openLibrary]

/-- A tunnel with two data shards and one parity shard. -/
def triadConfig : BaseConfig := { crypt := "none", datashard := 2, parityshard := 1 }

/-- Its transport. -/
def triad : KcpTransport :=
  { config := triadConfig
    crypt := { method := .none }
    fec :=
      { dataShards := 2, parityShards := 1, shardSize := 3, enabled := true, paws := 4294967295
        encodeShards := [[], []], rs := ⟨2, 1, 3, [[1, 0], [0, 1], [3, 2]]⟩ }
    kcpMtu := 1322 }

theorem create_triad :
    KcpTransport.create openLibrary (fun _ => 0) triadConfig = .ok triad := by rfl

/-- Two outputs make three datagrams, and the third one arrives twice, before the first one. The
second one is lost. -/
def triadEvents : List (LossyEvent KcpTransport.Event) :=
  [.act .left (.output [1, 2, 3] 5 (fun _ => Vector.replicate 16 0) 0),
    .act .left (.output [9] 10 (fun _ => Vector.replicate 16 0) 1),
    .deliver .right 2, .deliver .right 2, .deliver .right 0]

/-- The run of these events. -/
theorem triad_runs : ∃ ends : Side → PathEnd,
    (datagramPath openLibrary).machine.run (fun _ => { progress := { transport := triad } })
      triadEvents = some ends ∧
    (ends .left).progress.encoded = [[1, 2, 3], [9]] ∧ (ends .right).progress.encoded = [] ∧
    (ends .right).heard = [2, 2, 0] ∧ (ends .left).origins = [(0, 0), (1, 0), (1, 1)] ∧
    (ends .left).progress.transport.fec.dataShards = 2 := by
  have hview : ((datagramPath openLibrary).machine.run
      (fun _ => { progress := { transport := triad } }) triadEvents).map (fun ends =>
        ([(ends .left).progress.encoded, (ends .right).progress.encoded],
          (ends .right).heard, (ends .left).origins,
          (ends .left).progress.transport.fec.dataShards)) =
      some ([[[1, 2, 3], [9]], []], [2, 2, 0], [(0, 0), (1, 0), (1, 1)], 2) := by
    decide +kernel
  obtain ⟨ends, hrun, hstate⟩ := Option.map_eq_some_iff.mp hview
  simp only [Prod.mk.injEq, List.cons.injEq] at hstate
  obtain ⟨⟨hleft, hright, -⟩, hstate⟩ := hstate
  exact ⟨ends, hrun, hleft, hright, hstate⟩

/-- Its outputs are small and few. -/
theorem triad_keeps {ends : Side → PathEnd}
    (hrun : (datagramPath openLibrary).machine.run
      (fun _ => { progress := { transport := triad } }) triadEvents = some ends)
    (hleft : (ends .left).progress.encoded = [[1, 2, 3], [9]])
    (hright : (ends .right).progress.encoded = []) :
    (∀ p, ∀ packet ∈ (ends p).progress.encoded, (packet.length : ℤ) ≤ triad.kcpMtu.toInt) ∧
      Timely openLibrary (fun _ => { progress := { transport := triad } }) triadEvents := by
  refine ⟨fun p packet hpacket => ?_, timely_of_few hrun (fun _ => rfl) fun p => ?_⟩
  · cases p with
    | left =>
        rw [hleft] at hpacket
        revert packet
        decide
    | right =>
        rw [hright] at hpacket
        exact absurd hpacket List.not_mem_nil
  · cases p with
    | left =>
        rw [hleft]
        decide
    | right =>
        rw [hright]
        exact Nat.zero_le _

/-- What arrives twice and out of order is an output nevertheless. -/
theorem reordered_outputs_given : ∃ ends : Side → PathEnd,
    (datagramPath openLibrary).machine.run (fun _ => { progress := { transport := triad } })
      triadEvents = some ends ∧
    (ends .right).heard = [2, 2, 0] ∧ ∀ packet ∈ (ends .right).given, packet ∈ [[1, 2, 3], [9]] := by
  obtain ⟨ends, hrun, hleft, hright, hheard, -, -⟩ := triad_runs
  obtain ⟨hmtu, htimely⟩ := triad_keeps hrun hleft hright
  refine ⟨ends, hrun, hheard, fun packet hpacket => ?_⟩
  rw [← hleft]
  exact (given_was_output openLibrary openLibrary_opens (fun _ => 0) (fun _ => triadConfig)
    (fun _ => by decide) (fun _ => by decide) ⟨rfl, rfl, rfl, rfl⟩ (fun _ => triad)
    (fun _ => create_triad) triadEvents ends hrun hmtu htimely .left).1 packet hpacket

/-- The second output is given, though its own datagram is lost. -/
theorem lost_output_given : ∃ ends : Side → PathEnd,
    (datagramPath openLibrary).machine.run (fun _ => { progress := { transport := triad } })
      triadEvents = some ends ∧
    1 ∉ (ends .right).heard ∧ (ends .left).progress.encoded[1]? = some [9] ∧
    [9] ∈ (ends .right).given := by
  obtain ⟨ends, hrun, hleft, hright, hheard, horigins, hshards⟩ := triad_runs
  obtain ⟨hmtu, htimely⟩ := triad_keeps hrun hleft hright
  have hgroup (k : ℕ) : (ends .left).groupOf k =
      (([(0, 0), (1, 0), (1, 1)][k]?.map Prod.fst).getD 0) / 2 := by
    rw [PathEnd.groupOf, horigins, hshards]
  obtain ⟨packet, hpacket, hgiven⟩ := lost_outputs_given openLibrary openLibrary_opens (fun _ => 0)
    (fun _ => triadConfig) (fun _ => by decide) (fun _ => by decide) ⟨rfl, rfl, rfl, rfl⟩
    (fun _ => triad) (fun _ => create_triad) triadEvents ends hrun hmtu htimely .left rfl 0
    (by
      simp only [PathEnd.highest, Side.other, hheard, hgroup]
      decide)
    (by
      simp only [Side.other, hheard, hgroup]
      decide) 1 (by decide)
  have hsecond : (ends .left).progress.encoded[1]? = some [9] := by rw [hleft]; rfl
  obtain rfl := Option.some.inj (hsecond.symm.trans hpacket)
  exact ⟨ends, hrun, by rw [hheard]; decide, hsecond, hgiven⟩

end Shimakaze
