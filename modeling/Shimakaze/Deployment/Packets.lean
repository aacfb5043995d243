import Shimakaze.Datagrams.Delivery
import Shimakaze.Deployment.Streams

/-!
# The Packets of Two Running Programs

A connection of the client and a session of the server are the two ends of a path of datagrams,
as soon as nobody else speaks for them: each packet that a program has passed to one of the two
transports is what a datagram on the socket of the other one decrypts to. Which of them the
network delivers, how often and in which order is open. A run of the programs is then a run of
the path, and KCP is given nothing but what the other KCP has output.

What the programs rely on KCP for is the next step: given nothing else, it delivers an initial
segment of what the session at the other end has sent. The streams then arrive intact.

## Main results

* `path_follows`: what happens to a transport inside a program happens at an end of the path.
* `Deployment.packets_genuine`: **each packet given to KCP in one program was output by KCP in the
  other one**.
* `Deployment.streams_over_network`: **the streams of the programs are intact** over a network
  that loses, repeats and reorders datagrams.
-/

namespace Shimakaze

open EventMachine (Stands)

variable {lib : CryptoLib} {setting : Setting} {ends : Side → PathEnd} {p : Side}
  {crypt : PacketCrypt}

/-! ### A path without the erasure code -/

/-- Without the erasure code nothing is too old or too new. -/
theorem timely_of_disabled {start : Side → PathEnd} (events : List (LossyEvent KcpTransport.Event))
    (hstart : ∀ p, (start p).progress.transport.fec.enabled = false) : Timely lib start events := by
  have hupdate {j : Side → PathEnd} {q : Side} {e : PathEnd}
      (h : ∀ p, (j p).progress.transport.fec.enabled = false)
      (he : e.progress.transport.fec.enabled = false) :
      ∀ p, (Function.update j q e p).progress.transport.fec.enabled = false :=
    (Function.forall_update_iff j fun _ e => e.progress.transport.fec.enabled = false).mpr
      ⟨he, fun p _ => h p⟩
  refine (EventMachine.along_of_invariant
    (I := fun j : Side → PathEnd => ∀ p, (j p).progress.transport.fec.enabled = false)
    (fun j event j' h hstep => ?_) hstart events).imp fun j event j' hstep h => ?_
  · cases event with
    | act q event =>
        obtain ⟨e, hact, rfl⟩ := Option.map_eq_some_iff.mp hstep
        obtain ⟨-, -, -, hfec⟩ := act_frame hact
        exact hupdate h ((congrArg FecCodec.enabled hfec).trans (h q))
    | deliver q k =>
        obtain ⟨datagram, -, hstep⟩ := Option.bind_eq_some_iff.mp hstep
        obtain ⟨e, hrecv, rfl⟩ := Option.map_eq_some_iff.mp hstep
        refine hupdate h ?_
        rcases recv_cases hrecv with rfl | ⟨decoded, out, after, -, hdecode, rfl⟩
        · exact h q
        · exact (congrArg FecCodec.enabled (decoded_frame hdecode)).trans (h q)
  · cases event with
    | act q event => trivial
    | deliver q k => exact fun henabled => absurd ((h q.other).symm.trans henabled) (by decide)

/-! ### A transport at an end of the path -/

/-- An event that brings no packet. -/
theorem act_of_step {e : PathEnd} {event : KcpTransport.Event} {progress : KcpTransport.Progress}
    (hpacket : event.packet = none) (h : KcpTransport.step lib e.progress event = some progress) :
    ∃ e', e.act lib event = some e' ∧ e'.progress = progress ∧ e'.given = e.given := by
  have hact : e.act lib event = (KcpTransport.step lib e.progress event).map fun progress =>
      { e with
        progress
        origins := e.origins ++
          (List.range (progress.enqueued.length - e.progress.enqueued.length)).map
            fun i => (e.progress.encoded.length, i) } := by
    cases event with
    | input packet => cases hpacket
    | _ => rfl
  rw [hact, h]
  exact ⟨_, rfl, rfl, rfl⟩

/-- A packet that is taken in. A closed transport ignores it in the one way and in the other. -/
theorem recv_of_input {e : PathEnd} {datagram packet : Bytes} {packets : List Bytes}
    {taken : KcpTransport} (k : ℕ)
    (hdecrypt : e.progress.transport.crypt.decrypt lib datagram = some packet)
    (hinput : e.progress.transport.input packet = .ok (packets, taken)) :
    ∃ e', e.recv lib k datagram = some e' ∧
      e'.progress = { e.progress with transport := taken } ∧ e'.given = e.given ++ packets := by
  rw [PathEnd.recv, hdecrypt]
  dsimp only
  by_cases hclosing : e.progress.transport.closing = true
  · rw [KcpTransport.input, if_pos (.inl hclosing)] at hinput
    obtain ⟨rfl, rfl⟩ := Prod.mk.inj (Except.ok.inj hinput)
    rw [if_pos hclosing, List.append_nil]
    exact ⟨e, rfl, rfl, rfl⟩
  · rw [if_neg hclosing, hinput]
    exact ⟨_, rfl, rfl, rfl⟩

/-- The encryption of an end stays. -/
theorem path_crypt {event : LossyEvent KcpTransport.Event} {ends' : Side → PathEnd}
    (h : (datagramPath lib).machine.step ends event = some ends') (q : Side) :
    (ends' q).progress.transport.crypt = (ends q).progress.transport.crypt := by
  cases event with
  | act p event =>
      obtain ⟨e, hact, rfl⟩ := Option.map_eq_some_iff.mp h
      obtain ⟨-, -, hcrypt, -⟩ := act_frame hact
      by_cases hqp : q = p
      · subst hqp
        rwa [Function.update_self]
      · rw [Function.update_of_ne hqp]
  | deliver p k =>
      obtain ⟨datagram, -, hrest⟩ := Option.bind_eq_some_iff.mp h
      obtain ⟨e, hrecv, rfl⟩ := Option.map_eq_some_iff.mp hrest
      by_cases hqp : q = p
      · subst hqp
        rw [Function.update_self]
        rcases recv_cases hrecv with rfl | ⟨decoded, out, after, -, -, rfl⟩ <;> rfl
      · rw [Function.update_of_ne hqp]

theorem path_crypt_run {events : List (LossyEvent KcpTransport.Event)} {ends' : Side → PathEnd}
    (h : (datagramPath lib).machine.run ends events = some ends') (q : Side) :
    (ends' q).progress.transport.crypt = (ends q).progress.transport.crypt :=
  EventMachine.run_invariant
    (I := fun j : Side → PathEnd =>
      (j q).progress.transport.crypt = (ends q).progress.transport.crypt)
    (fun _ _ _ hsame hstep => (path_crypt hstep q).trans hsame) rfl h

/-- What reaches a transport is on the socket of the other one. -/
def Carried (lib : CryptoLib) (crypt : PacketCrypt) (socket packets : List Bytes) : Prop :=
  ∀ packet ∈ packets, ∃ datagram ∈ socket, crypt.decrypt lib datagram = some packet

instance (lib : CryptoLib) (crypt : PacketCrypt) (socket packets : List Bytes) :
    Decidable (Carried lib crypt socket packets) :=
  inferInstanceAs (Decidable (∀ packet ∈ packets, ∃ datagram ∈ socket, _ = _))

/-- **One event.** -/
theorem path_step (hcrypt : (ends p).progress.transport.crypt = crypt)
    {event : KcpTransport.Event} {after : KcpTransport.Progress × List Bytes}
    (hcarried : Carried lib crypt (ends p.other).progress.transport.socket event.packet.toList)
    (hstep : (KcpTransport.givingMachine lib).step ((ends p).progress, (ends p).given) event =
      some after) :
    ∃ lossy e, (datagramPath lib).machine.step ends lossy = some (Function.update ends p e) ∧
      (e.progress, e.given) = after := by
  obtain ⟨progress, hprogress, rfl⟩ := Option.map_eq_some_iff.mp hstep
  cases hpacket : event.packet with
  | none =>
      obtain ⟨e, hact, hsame, hgiven⟩ := act_of_step hpacket hprogress
      refine ⟨.act p event, e, Option.map_eq_some_iff.mpr ⟨e, hact, rfl⟩, ?_⟩
      dsimp only
      rw [hsame, hgiven, KcpTransport.gives_of_packet_eq_none hpacket, List.append_nil]
  | some packet =>
      obtain rfl : event = .input packet := by
        cases event with
        | input packet' => exact congrArg _ (Option.some.inj hpacket)
        | _ => cases hpacket
      obtain ⟨datagram, hmem, hdecrypt⟩ := hcarried packet (List.mem_singleton_self packet)
      obtain ⟨k, hk⟩ := List.mem_iff_getElem?.mp hmem
      rw [KcpTransport.step] at hprogress
      cases hinput : (ends p).progress.transport.input packet with
      | error message =>
          rw [hinput] at hprogress
          cases hprogress
      | ok result =>
          obtain ⟨packets, taken⟩ := result
          rw [hinput] at hprogress
          obtain rfl := Option.some.inj hprogress
          obtain ⟨e, hrecv, hsame, hgiven⟩ := recv_of_input k (hcrypt ▸ hdecrypt) hinput
          refine ⟨.deliver p k, e, Option.bind_eq_some_iff.mpr ⟨datagram, hk,
            Option.map_eq_some_iff.mpr ⟨e, hrecv, rfl⟩⟩, ?_⟩
          dsimp only [KcpTransport.gives]
          rw [hsame, hgiven, hinput]

/-- **A transport inside a program** is an end of the path. -/
theorem path_follows (hcrypt : (ends p).progress.transport.crypt = crypt)
    {events : List KcpTransport.Event} {after : KcpTransport.Progress × List Bytes}
    (hcarried : Carried lib crypt (ends p.other).progress.transport.socket
      (events.filterMap KcpTransport.Event.packet))
    (hrun : (KcpTransport.givingMachine lib).run ((ends p).progress, (ends p).given) events =
      some after) :
    ∃ lossy e, (datagramPath lib).machine.run ends lossy = some (Function.update ends p e) ∧
      (e.progress, e.given) = after := by
  induction events generalizing ends with
  | nil =>
      obtain rfl := Option.some.inj hrun
      exact ⟨[], ends p, congrArg some (Function.update_eq_self p ends).symm, rfl⟩
  | cons event events ih =>
      obtain ⟨next, hstep, hrest⟩ := EventMachine.run_cons_eq_some _ |>.mp hrun
      have hparts : Carried lib crypt (ends p.other).progress.transport.socket
            event.packet.toList ∧
          Carried lib crypt (ends p.other).progress.transport.socket
            (events.filterMap KcpTransport.Event.packet) := by
        rw [Carried, List.filterMap_cons] at hcarried
        cases hpacket : event.packet with
        | none =>
            rw [hpacket] at hcarried
            exact ⟨fun packet hmem => absurd hmem List.not_mem_nil, hcarried⟩
        | some packet =>
            rw [hpacket] at hcarried
            exact ⟨fun other hmem => hcarried other (List.mem_singleton.mp hmem ▸
              List.mem_cons_self), fun other hmem => hcarried other (List.mem_cons_of_mem _ hmem)⟩
      obtain ⟨lossy, e, he, rfl⟩ := path_step hcrypt hparts.1 hstep
      have hself : Function.update ends p e p = e := Function.update_self p e ends
      have hother : Function.update ends p e p.other = ends p.other :=
        Function.update_of_ne p.other_ne e ends
      obtain ⟨more, e', he', hafter⟩ := @ih (Function.update ends p e)
        ((path_crypt he p).trans hcrypt) (by rw [hother]; exact hparts.2)
        (by rw [hself]; exact hrest)
      rw [Function.update_idem] at he'
      exact ⟨lossy :: more, e', EventMachine.run_cons_eq_some _ |>.mpr ⟨_, he, he'⟩, hafter⟩

/-- The same for a session that goes on in a program. -/
theorem path_continues {part after : SessionEntry × List Bytes}
    (hat : ((ends p).progress, (ends p).given) = (part.1.transport, part.1.given))
    (hcrypt : (ends p).progress.transport.crypt = crypt)
    (h : SessionEntry.Continues lib setting part after)
    (hcarried : Carried lib crypt (ends p.other).progress.transport.socket after.2) :
    ∃ lossy e, (datagramPath lib).machine.run ends lossy = some (Function.update ends p e) ∧
      (e.progress, e.given) = (after.1.transport, after.1.given) := by
  obtain ⟨packets, hruns, hpackets⟩ := h
  obtain ⟨events, hrun, htaken⟩ := hruns.transport
  rw [← hat] at hrun
  refine path_follows hcrypt (fun packet hmem => hcarried packet ?_) hrun
  rw [hpackets]
  exact List.mem_append_right _ (htaken ▸ hmem)

/-! ### Both programs -/

namespace Deployment

variable {Address : Type}

/-- Two programs whose transports make a tunnel: they have one library, their settings are accepted
and agree on the encryption and the erasure code, and these are the transports they make. -/
structure SharedTunnel (setup : Setup Address) where
  lib : CryptoLib
  ikcpSetmtu : Int32 → Int32
  transport : Side → KcpTransport
  config : Side → BaseConfig
  client_crypto : setup.client.lib.crypto = lib
  server_crypto : setup.server.lib.crypto = lib
  client_setmtu : setup.client.lib.ikcpSetmtu = ikcpSetmtu
  server_setmtu : setup.server.lib.ikcpSetmtu = ikcpSetmtu
  client_config : config .left = setup.client.setting.config
  server_config : config .right = setup.server.setting.config
  opens : lib.Opens
  accepted : ∀ p, (config p).Accepted
  shards : ∀ p, (config p).datashard.toInt + (config p).parityshard.toInt ≤ 256
  same : SameTunnel (config .left) (config .right)
  made : ∀ p, KcpTransport.create lib ikcpSetmtu (config p) = .ok (transport p)

/-- Both codecs are made alike. -/
theorem SharedTunnel.fec_eq {setup : Setup Address} (tunnel : SharedTunnel setup) (p : Side) :
    (tunnel.transport p).fec = (tunnel.transport .left).fec := by
  cases p with
  | left => rfl
  | right =>
      obtain ⟨crypt, fec, kcpMtu, -, hfec, -, hparts⟩ :=
        KcpTransport.create_parts (tunnel.made .left)
      obtain ⟨crypt', fec', kcpMtu', -, hfec', -, hparts'⟩ :=
        KcpTransport.create_parts (tunnel.made .right)
      rw [FecCodec.create_congr tunnel.same.datashard_eq tunnel.same.parityshard_eq, hfec] at hfec'
      rw [hparts, hparts']
      exact (Except.ok.inj hfec').symm

/-- The packets that a program has passed to a session: none before it is made. -/
def taken (held : Option (SessionEntry × List Bytes)) : List Bytes := held.elim [] Prod.snd

/-- What the transport of a session has put on its socket. -/
def posted (held : Option (SessionEntry × List Bytes)) : List Bytes :=
  held.elim [] fun held => held.1.transport.transport.socket

/-- What KCP has output at a session. -/
def outputs (held : Option (SessionEntry × List Bytes)) : List Bytes :=
  held.elim [] fun held => held.1.transport.encoded

section Tunnel

variable {setup : Setup Address} (tunnel : SharedTunnel setup) (i j k : ℕ)

/-- Nobody else speaks for a connection and a session: each packet that has been passed to one of
them is what a datagram of the other one decrypts to. -/
def Carries (deployment : Deployment Address) : Prop :=
  Carried tunnel.lib (tunnel.transport .left).crypt (posted (deployment.server.session j k))
      (taken (deployment.client.session i)) ∧
    Carried tunnel.lib (tunnel.transport .right).crypt (posted (deployment.client.session i))
      (taken (deployment.server.session j k))

instance : DecidablePred (Carries tunnel i j k) := fun _ => inferInstanceAs (Decidable (_ ∧ _))

/-- KCP keeps to its mtu at both ends, and with the erasure code its outputs are few enough for
the sequence numbers. -/
def Bounded (deployment : Deployment Address) : Prop :=
  (∀ packet ∈ outputs (deployment.client.session i),
    (packet.length : ℤ) ≤ (tunnel.transport .left).kcpMtu.toInt) ∧
  (∀ packet ∈ outputs (deployment.server.session j k),
    (packet.length : ℤ) ≤ (tunnel.transport .right).kcpMtu.toInt) ∧
  ((tunnel.transport .left).fec.enabled = true →
    (outputs (deployment.client.session i)).length ≤
        2 ^ 28 / (tunnel.transport .left).fec.shardSize ∧
      (outputs (deployment.server.session j k)).length ≤
        2 ^ 28 / (tunnel.transport .left).fec.shardSize)

instance : DecidablePred (Bounded tunnel i j k) := fun _ => inferInstanceAs (Decidable (_ ∧ _ ∧ _))

/-- As soon as both are there, KCP has been given nothing but what the other KCP has output. -/
def Genuine (i j k : ℕ) (deployment : Deployment Address) : Prop :=
  ∀ left right, deployment.client.session i = some left →
    deployment.server.session j k = some right →
    (∀ packet ∈ right.1.given, packet ∈ left.1.transport.encoded) ∧
      ∀ packet ∈ left.1.given, packet ∈ right.1.transport.encoded

/-- A session that was just set up has taken in nothing and sent nothing. -/
theorem stands_packets {ikcpSetmtu : Int32 → Int32} {client : Bool}
    {handler : Option SmuxStream.Start} {held : Option (SessionEntry × List Bytes)}
    {part : SessionEntry × List Bytes}
    (h : Stands (SessionEntry.New lib ikcpSetmtu setting client handler) held part) :
    taken held = part.2 ∧ posted held = part.1.transport.transport.socket := by
  cases held with
  | some held =>
      obtain rfl : held = part := h
      exact ⟨rfl, rfl⟩
  | none =>
      obtain ⟨⟨transport, smux, now, hpart, hcreate, -⟩, hnothing⟩ := h
      obtain ⟨crypt, fec, kcpMtu, -, -, -, rfl⟩ := KcpTransport.create_parts hcreate
      rw [hnothing, hpart]
      exact ⟨rfl, rfl⟩

variable [DecidableEq Address]

/-- What holds of both programs and of a path between a connection and a session, made or not. -/
structure PathInv (deployment : Deployment Address) : Prop extends Inv setup deployment where
  path : ∀ left right,
    Client.SessionStands setup.client (deployment.client.session i) left →
    Server.SessionStands setup.server (deployment.server.session j k) right →
    ∃ lossy ends, (datagramPath tunnel.lib).machine.run
        (fun p => { progress := { transport := tunnel.transport p } }) lossy = some ends ∧
      (∀ p, (ends p).progress.transport.crypt = (tunnel.transport p).crypt) ∧
      ((ends .left).progress, (ends .left).given) = (left.1.transport, left.1.given) ∧
      ((ends .right).progress, (ends .right).given) = (right.1.transport, right.1.given)

variable {tunnel i j k} {deployment after : Deployment Address}

/-- When both have started, the path is new. -/
theorem PathInv.start {lib : ClientLib} {config : ClientConfig}
    {opened : UInt16 → Except String Unit}
    (hclient : Client.create lib config = .ok (setup.client, deployment.client))
    (hserver : Server.start setup.server {} opened = .ok deployment.server) :
    PathInv tunnel i j k deployment := by
  obtain ⟨hinv, hnone, hnone'⟩ := start_inv hclient hserver
  refine ⟨hinv, fun left right hleft hright => ?_⟩
  rw [hnone] at hleft
  rw [hnone'] at hright
  obtain ⟨⟨made, smux, now, hleftEq, hmade, -⟩, -⟩ := hleft
  obtain ⟨⟨made', smux', now', hrightEq, hmade', -⟩, -⟩ := hright
  rw [tunnel.client_crypto, tunnel.client_setmtu, ← tunnel.client_config, tunnel.made] at hmade
  rw [tunnel.server_crypto, tunnel.server_setmtu, ← tunnel.server_config, tunnel.made] at hmade'
  refine ⟨[], _, rfl, fun _ => rfl, ?_, ?_⟩
  · rw [hleftEq, ← Except.ok.inj hmade]
  · rw [hrightEq, ← Except.ok.inj hmade']

/-- **One event** of either program. -/
theorem PathInv.step (hlib : setup.server.lib.Lawful) (h : PathInv tunnel i j k deployment)
    {event : Event setup} (hcarries : after.Carries tunnel i j k)
    (hstep : (machine setup).step deployment event = some after) :
    PathInv tunnel i j k after := by
  obtain ⟨hinv, hclient, hserver⟩ := h.toInv.step hlib hstep
  refine ⟨hinv, fun left right hleft hright => ?_⟩
  obtain ⟨hleftTaken, hleftPosted⟩ := stands_packets hleft
  obtain ⟨hrightTaken, hrightPosted⟩ := stands_packets hright
  rw [Carries, hleftTaken, hleftPosted, hrightTaken, hrightPosted] at hcarries
  cases event with
  | client event =>
      obtain ⟨client, -, rfl⟩ := Option.map_eq_some_iff.mp hstep
      obtain ⟨before, hbefore, hgoes⟩ := (hclient i).stands SessionEntry.Continues.refl hleft
      obtain ⟨lossy, ends, hrun, hcrypt, hatLeft, hatRight⟩ := h.path before right hbefore hright
      have hsocket : (ends .right).progress.transport.socket =
          right.1.transport.transport.socket := by rw [(Prod.mk.inj hatRight).1]
      obtain ⟨more, e, hmore, hat⟩ := path_continues hatLeft (hcrypt .left)
        (tunnel.client_crypto ▸ hgoes) (hsocket ▸ hcarries.1 :
          Carried _ _ (ends (Side.other .left)).progress.transport.socket _)
      refine ⟨lossy ++ more, Function.update ends .left e, ?_, ?_, hat, hatRight⟩
      · rw [EventMachine.run_append, hrun]
        exact hmore
      · exact fun p => (path_crypt_run hmore p).trans (hcrypt p)
  | server event =>
      obtain ⟨server, -, rfl⟩ := Option.map_eq_some_iff.mp hstep
      obtain ⟨before, hbefore, hgoes⟩ := (hserver j k).stands SessionEntry.Continues.refl hright
      obtain ⟨lossy, ends, hrun, hcrypt, hatLeft, hatRight⟩ := h.path left before hleft hbefore
      have hsocket : (ends .left).progress.transport.socket =
          left.1.transport.transport.socket := by rw [(Prod.mk.inj hatLeft).1]
      obtain ⟨more, e, hmore, hat⟩ := path_continues hatRight (hcrypt .right)
        (tunnel.server_crypto ▸ hgoes) (hsocket ▸ hcarries.2 :
          Carried _ _ (ends (Side.other .right)).progress.transport.socket _)
      refine ⟨lossy ++ more, Function.update ends .right e, ?_, ?_, hatLeft, hat⟩
      · rw [EventMachine.run_append, hrun]
        exact hmore
      · exact fun p => (path_crypt_run hmore p).trans (hcrypt p)

/-- **What comes of it**: whatever holds of the path alone. -/
theorem PathInv.genuine (h : PathInv tunnel i j k deployment)
    (hbounded : deployment.Bounded tunnel i j k) : deployment.Genuine i j k := by
  rintro left right hleft hright
  obtain ⟨hmtu, hmtu', hfew⟩ := hbounded
  rw [hleft] at hmtu hfew
  rw [hright] at hmtu' hfew
  obtain ⟨lossy, ends, hpath, -, hatLeft, hatRight⟩ :=
    h.path left right (by rw [hleft]; rfl) (by rw [hright]; rfl)
  obtain ⟨hprogress, hgiven⟩ := Prod.mk.inj hatLeft
  obtain ⟨hprogress', hgiven'⟩ := Prod.mk.inj hatRight
  have htimely : Timely tunnel.lib
      (fun p => { progress := { transport := tunnel.transport p } }) lossy := by
    cases henabled : (tunnel.transport .left).fec.enabled with
    | true =>
        refine timely_of_few hpath (fun _ => rfl) fun p => ?_
        cases p with
        | left =>
            rw [hprogress]
            exact (hfew henabled).1
        | right =>
            rw [hprogress', tunnel.fec_eq]
            exact (hfew henabled).2
    | false =>
        exact timely_of_disabled lossy fun p =>
          (congrArg FecCodec.enabled (tunnel.fec_eq p)).trans henabled
  have hmtus : ∀ p, ∀ packet ∈ (ends p).progress.encoded,
      (packet.length : ℤ) ≤ (tunnel.transport p).kcpMtu.toInt := by
    intro p
    cases p with
    | left =>
        rw [hprogress]
        exact hmtu
    | right =>
        rw [hprogress']
        exact hmtu'
  obtain ⟨codec, -, -, hways⟩ := run_oneWay tunnel.lib tunnel.opens tunnel.ikcpSetmtu
    tunnel.config tunnel.accepted tunnel.shards tunnel.same tunnel.transport tunnel.made lossy ends
    hpath hmtus htimely
  constructor
  · rintro packet hpacket
    have hmem := (hways .left).given_mem (hgiven'.symm ▸ hpacket)
    rw [hprogress] at hmem
    exact hmem
  · rintro packet hpacket
    have hmem := (hways .right).given_mem (hgiven.symm ▸ hpacket)
    rw [hprogress'] at hmem
    exact hmem

end Tunnel

variable [DecidableEq Address]

/-- **KCP is given nothing but what the other KCP has output**, in the running programs. A client
and a server whose transports make a tunnel run side by side, with whatever other connections,
sessions and senders there are, and nobody else speaks for one connection of the client and one
session of the server. Then each packet given to KCP in the one was output by KCP in the other,
byte for byte. -/
theorem packets_genuine (setup : Setup Address) (lib : ClientLib) (config : ClientConfig)
    (opened : UInt16 → Except String Unit) (start : Deployment Address)
    (hclient : Client.create lib config = .ok (setup.client, start.client))
    (hserver : Server.start setup.server {} opened = .ok start.server)
    (hlib : setup.server.lib.Lawful) (tunnel : SharedTunnel setup) (events : List (Event setup))
    (deployment : Deployment Address)
    (hrun : (machine setup).run start events = some deployment) (i j k : ℕ)
    (hcarries : (machine setup).Always (Carries tunnel i j k) start events)
    (hbounded : deployment.Bounded tunnel i j k)
    (c : Connection Address) (hc : deployment.client.connections[i]? = some c)
    (listener : Server.UdpListener Address)
    (hlistener : deployment.server.listeners[j]? = some listener)
    (session : ServerSession Address) (hsession : listener.entries[k]? = some session) :
    (∀ packet ∈ session.given, packet ∈ c.transport.encoded) ∧
      ∀ packet ∈ c.given, packet ∈ session.transport.encoded := by
  have hpath : (machine setup).Always (PathInv tunnel i j k) start events :=
    hcarries.inductive (fun _ _ _ h hcarries hstep => h.step hlib hcarries hstep)
      (.start hclient hserver)
  exact (hpath.last hrun).genuine hbounded _ _ (Client.session_eq hc)
    (Server.session_eq hlistener hsession)

/-- A transport without encryption and erasure code. -/
def plainTransport : KcpTransport :=
  { config := {}
    crypt := {}
    fec :=
      { dataShards := 0, parityShards := 0, shardSize := 0, enabled := false
        rs := ⟨0, 0, 0, []⟩ }
    kcpMtu := 1350 }

/-- A client and a server with one library. -/
def plainPair : Setup String where
  client :=
    { Client.plainSetup 1 0 600 with
      lib := { (Client.plainSetup 1 0 600).lib with crypto := openLibrary } }
  server := { Server.plainServer with lib := { Server.plainServer.lib with crypto := openLibrary } }

/-- What they make: no encryption and no erasure code. -/
def plainTunnel : SharedTunnel plainPair where
  lib := openLibrary
  ikcpSetmtu _ := 0
  config
    | .left => plainPair.client.setting.config
    | .right => plainPair.server.setting.config
  transport
    | .left => { plainTransport with config := plainPair.client.setting.config }
    | .right => { plainTransport with config := plainPair.server.setting.config }
  client_crypto := rfl
  server_crypto := rfl
  client_setmtu := rfl
  server_setmtu := rfl
  client_config := rfl
  server_config := rfl
  opens := openLibrary_opens
  accepted p := by cases p <;> decide
  shards p := by cases p <;> decide
  same := ⟨rfl, rfl, rfl, rfl⟩
  made p := by cases p <;> rfl

theorem create_plainPair : Client.create plainPair.client.lib plainPair.client.config =
    .ok (plainPair.client, Client.plainStart 1) :=
  Client.create_crypto (Client.create_plain 1 0 600) openLibrary rfl

theorem start_plainPair :
    Server.start plainPair.server {} (fun _ => .ok ()) = .ok Server.plainStarted :=
  (Server.start_opens_ports plainPair.server _ {}).trans rfl

/-- KCP outputs one packet at the client, and it arrives at the server. -/
theorem first_packet_genuine : ∃ deployment c listener session,
    (machine plainPair).run ⟨Client.plainStart 1, Server.plainStarted⟩
      [.client (.accepted false (Client.plainDial 1 0 600 [⟨7, by decide⟩])),
        .client (.ran 0 (.output [7, 0, 0, 0, 1] 0 fun _ => Vector.replicate 16 0)),
        .server (.received 0 ⟨"10.0.0.1", 4000⟩ [7, 0, 0, 0, 1] [])] = some deployment ∧
    deployment.client.connections[0]? = some c ∧
    deployment.server.listeners[0]? = some listener ∧ listener.entries[0]? = some session ∧
    session.given = [[7, 0, 0, 0, 1]] ∧ ∀ packet ∈ session.given, packet ∈ c.transport.encoded := by
  obtain ⟨events, hevents⟩ : ∃ events : List (Event plainPair), events =
      [.client (.accepted false (Client.plainDial 1 0 600 [⟨7, by decide⟩])),
        .client (.ran 0 (.output [7, 0, 0, 0, 1] 0 fun _ => Vector.replicate 16 0)),
        .server (.received 0 ⟨"10.0.0.1", 4000⟩ [7, 0, 0, 0, 1] [])] := ⟨_, rfl⟩
  have halways : (machine plainPair).Always (fun deployment =>
      deployment.Carries plainTunnel 0 0 0 ∧ deployment.Bounded plainTunnel 0 0 0)
      ⟨Client.plainStart 1, Server.plainStarted⟩ events := by
    rw [hevents]
    decide +kernel
  have hview : ((machine plainPair).run ⟨Client.plainStart 1, Server.plainStarted⟩ events).map
      (fun deployment =>
        (deployment.client.connections[0]?.map fun c => c.conv,
          deployment.server.listeners[0]?.bind fun listener =>
            listener.entries[0]?.map fun session => session.given)) =
      some (some 7, some [[7, 0, 0, 0, 1]]) := by
    rw [hevents]
    decide +kernel
  obtain ⟨deployment, hrun, hboth⟩ := Option.map_eq_some_iff.mp hview
  obtain ⟨hfirst, hsecond⟩ := Prod.mk.inj hboth
  obtain ⟨c, hc, -⟩ := Option.map_eq_some_iff.mp hfirst
  obtain ⟨listener, hlistener, hentry⟩ := Option.bind_eq_some_iff.mp hsecond
  obtain ⟨session, hsession, hgiven⟩ := Option.map_eq_some_iff.mp hentry
  exact ⟨deployment, c, listener, session, hevents ▸ hrun, hc, hlistener, hsession, hgiven,
    (packets_genuine plainPair _ _ _ ⟨Client.plainStart 1, Server.plainStarted⟩ create_plainPair
      start_plainPair ⟨Function.injective_id, fun _ _ => rfl⟩ plainTunnel events deployment hrun
      0 0 0 (halways.imp fun _ h => h.1) (halways.last hrun).2 c hc listener hlistener session
      hsession).1⟩

/-- **The streams are intact over the network.** A client and a server whose settings agree and
whose transports make a tunnel run side by side, with whatever other connections, sessions and
senders there are. Nobody else speaks for one connection of the client and one session of the
server; and KCP, as long as it is given nothing but what the other KCP has output, delivers an
initial segment of what the other session has sent. Then in each direction what a stream has
completely written to its local socket is an initial segment of what was queued on the stream of
the same id at the other end, and a stream without such a counterpart has written nothing. -/
theorem streams_over_network (setup : Setup Address) (lib : ClientLib) (config : ClientConfig)
    (opened : UInt16 → Except String Unit) (start : Deployment Address)
    (hclient : Client.create lib config = .ok (setup.client, start.client))
    (hserver : Server.start setup.server {} opened = .ok start.server)
    (hagree : setup.client.setting.Agree setup.server.setting)
    (hlib : setup.server.lib.Lawful) (hsnappy : setup.client.setting.snappy.Lawful)
    (tunnel : SharedTunnel setup) (events : List (Event setup)) (deployment : Deployment Address)
    (hrun : (machine setup).run start events = some deployment) (i j k : ℕ)
    (hcarries : (machine setup).Always (Carries tunnel i j k) start events)
    (hbounded : (machine setup).Always (Bounded tunnel i j k) start events)
    (hkcp : (machine setup).Always
      (fun deployment => deployment.Genuine i j k → deployment.Delivers i j k) start events)
    (c : Connection Address) (hc : deployment.client.connections[i]? = some c)
    (listener : Server.UdpListener Address)
    (hlistener : deployment.server.listeners[j]? = some listener)
    (session : ServerSession Address) (hsession : listener.entries[k]? = some session) :
    (∀ y ∈ session.smux.objects,
      (∀ x ∈ c.smux.objects, x.id = y.id → y.history.written <+: x.history.queued) ∧
        ((∀ x ∈ c.smux.objects, x.id ≠ y.id) → y.history.written = [])) ∧
    ∀ y ∈ c.smux.objects,
      (∀ x ∈ session.smux.objects, x.id = y.id → y.history.written <+: x.history.queued) ∧
        ((∀ x ∈ session.smux.objects, x.id ≠ y.id) → y.history.written = []) := by
  have hpath : (machine setup).Always (PathInv tunnel i j k) start events :=
    hcarries.inductive (fun _ _ _ h hcarries hstep => h.step hlib hcarries hstep)
      (.start hclient hserver)
  have hdelivers : (machine setup).Always (Delivers i j k) start events :=
    ((hpath.and hbounded).and hkcp).imp fun _ h => h.2 (h.1.1.genuine h.1.2)
  have hjoined : (machine setup).Always (JoinedInv setup i j k) start events :=
    hdelivers.inductive (fun _ _ _ h hkcp hstep => h.step hlib hagree hsnappy hkcp hstep)
      (.start hagree hclient hserver)
  exact (hjoined.last hrun).intact (Client.session_eq hc) (Server.session_eq hlistener hsession)

/-- One byte goes over the network in one packet of KCP. -/
theorem byte_over_network : ∃ deployment c listener session x y,
    (machine plainPair).run ⟨Client.plainStart 1, Server.plainStarted⟩
      [.client (.accepted false (Client.plainDial 1 0 600 [⟨7, by decide⟩])),
        .client (.ran 0 (.completed 0 (.readStored [7]))),
        .client (.ran 0 (.completed 0 .readDone)),
        .client (.ran 0 (.output [7, 0, 0, 0, 1] 0 fun _ => Vector.replicate 16 0)),
        .server (.received 0 ⟨"10.0.0.1", 4000⟩ [7, 0, 0, 0, 1]
          [[2, 0, 0, 0, 3, 0, 0, 0, 2, 2, 1, 0, 3, 0, 0, 0, 7]]),
        .server (.ran 0 0 (.completed 0 (.resolved none))),
        .server (.ran 0 0 (.completed 0 (.connected none))),
        .server (.ran 0 0 (.completed 0 .writeDone))] = some deployment ∧
    deployment.client.connections[0]? = some c ∧
    deployment.server.listeners[0]? = some listener ∧ listener.entries[0]? = some session ∧
    c.smux.objects = [x] ∧ session.smux.objects = [y] ∧ y.history.written = [7] ∧
    y.history.written <+: x.history.queued := by
  obtain ⟨events, hevents⟩ : ∃ events : List (Event plainPair), events =
      [.client (.accepted false (Client.plainDial 1 0 600 [⟨7, by decide⟩])),
        .client (.ran 0 (.completed 0 (.readStored [7]))),
        .client (.ran 0 (.completed 0 .readDone)),
        .client (.ran 0 (.output [7, 0, 0, 0, 1] 0 fun _ => Vector.replicate 16 0)),
        .server (.received 0 ⟨"10.0.0.1", 4000⟩ [7, 0, 0, 0, 1]
          [[2, 0, 0, 0, 3, 0, 0, 0, 2, 2, 1, 0, 3, 0, 0, 0, 7]]),
        .server (.ran 0 0 (.completed 0 (.resolved none))),
        .server (.ran 0 0 (.completed 0 (.connected none))),
        .server (.ran 0 0 (.completed 0 .writeDone))] := ⟨_, rfl⟩
  have halways : (machine plainPair).Always (fun deployment =>
      deployment.Carries plainTunnel 0 0 0 ∧ deployment.Bounded plainTunnel 0 0 0 ∧
        deployment.Delivers 0 0 0) ⟨Client.plainStart 1, Server.plainStarted⟩ events := by
    rw [hevents]
    decide +kernel
  have hview : ((machine plainPair).run ⟨Client.plainStart 1, Server.plainStarted⟩ events).map
      (fun deployment =>
        (deployment.client.connections[0]?.map fun c => c.smux.objects.map SmuxStream.id,
          deployment.server.listeners[0]?.bind fun listener =>
            listener.entries[0]?.map fun session =>
              session.smux.objects.map fun y => (y.id, y.history.written))) =
      some (some [3], some [(3, [7])]) := by
    rw [hevents]
    decide +kernel
  obtain ⟨deployment, hrun, hboth⟩ := Option.map_eq_some_iff.mp hview
  obtain ⟨hfirst, hsecond⟩ := Prod.mk.inj hboth
  obtain ⟨c, hc, hxs⟩ := Option.map_eq_some_iff.mp hfirst
  obtain ⟨listener, hlistener, hentry⟩ := Option.bind_eq_some_iff.mp hsecond
  obtain ⟨session, hsession, hys⟩ := Option.map_eq_some_iff.mp hentry
  obtain ⟨x, hx, hxid⟩ := List.map_eq_singleton_iff.mp hxs
  obtain ⟨y, hy, hyview⟩ := List.map_eq_singleton_iff.mp hys
  obtain ⟨hyid, hwritten⟩ := Prod.mk.inj hyview
  refine ⟨deployment, c, listener, session, x, y, hevents ▸ hrun, hc, hlistener, hsession, hx, hy,
    hwritten, ?_⟩
  have h := (streams_over_network plainPair _ _ _ ⟨Client.plainStart 1, Server.plainStarted⟩
    create_plainPair start_plainPair ⟨rfl, rfl, rfl, rfl, rfl, rfl, rfl⟩
    ⟨Function.injective_id, fun _ _ => rfl⟩ (fun _ => rfl) plainTunnel events deployment hrun 0 0 0
    (halways.imp fun _ h => h.1) (halways.imp fun _ h => h.2.1) (halways.imp fun _ h _ => h.2.2)
    c hc listener hlistener session hsession).1
  exact (h y (hy ▸ List.mem_singleton_self y)).1 x (hx ▸ List.mem_singleton_self x)
    (hxid.trans hyid.symm)

end Deployment

end Shimakaze
