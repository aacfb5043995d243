import Shimakaze.Lib.TwoParty
import Shimakaze.Smux.Agreement

/-!
# The Tunnel

A client and a server session with the same settings, joined by a transport that delivers
each side's bytes to the other in order, in arrivals of any sizes. Between arrivals either
side opens streams, completes operations of their local sockets, closes streams, keeps the
session alive or closes it, in any order.

## Main results

* `tunnelInv_directed`: the invariant of the two sessions and the bytes in flight.
* `tunnel_integrity`: **end to end** — what a stream has written to its local socket is an
  initial segment of what was queued on the stream of the same id at the other end.
-/

namespace Shimakaze

open Ledger (LedgerInv)

/-- A session and its clock, in nanoseconds. -/
structure Endpoint where
  session : SmuxSession
  now : ℕ

/-- What can happen at one end, apart from an arrival. -/
inductive EndpointEvent
  /-- Time passes. -/
  | elapse (nanoseconds : ℕ)
  | session (e : SessionEvent)
  deriving DecidableEq

/-- An end after its session ran: what the session gave to the transport is sent. -/
def Endpoint.sent (p : Endpoint) (s : SmuxSession) : Endpoint × Bytes :=
  (⟨{ s with outbox := [] }, p.now⟩, s.outbox)

/-- Two sessions with the same settings and a transport between them. -/
def tunnel (setting : Setting) : Link Endpoint UInt8 EndpointEvent where
  act _ p
    | .elapse nanoseconds => some (⟨p.session, p.now + nanoseconds⟩, [])
    | .session e => (p.session.act setting p.now e).map p.sent
  recv _ p bytes := some (p.sent (p.session.onTransportBytes setting p.now bytes))

/-- Both sessions before anything has gone over the transport. -/
def tunnelStart (left right : SmuxSession) (now : Side → ℕ) : LinkState Endpoint UInt8 where
  party
    | .left => ⟨left, now .left⟩
    | .right => ⟨right, now .right⟩
  channel _ := []

variable {setting a b : Setting} {s r f : SmuxSession} {forward backward chunk : Bytes}

/-! ### The invariant -/

/-- How far `r` has come with what `s` sent, when the bytes `forward` are in flight. -/
structure Heard (setting : Setting) (s r : SmuxSession) (forward : Bytes) : Prop where
  dispatched : r.dispatched <+: s.frames
  received : r.closed = false → ∃ arrived, r.Received setting arrived ∧
    arrived ++ forward = transportBytes setting {} s.frames

/-- A session whose output has all been handed over. -/
structure HandedOver (setting : Setting) (s : SmuxSession) : Prop where
  compressor : s.compressor = compressorAfter setting {} s.frames
  outbox : s.outbox = []

/-- **The invariant of the tunnel**, seen from the session `s`. -/
structure TunnelInv (setting : Setting) (s r : SmuxSession) (forward backward : Bytes) :
    Prop where
  books : LedgerInv setting s.ledger
  books' : LedgerInv setting r.ledger
  roles : r.client = !s.client
  pads : r.qppPad = s.qppPad
  sent : HandedOver setting s
  sent' : HandedOver setting r
  heard : Heard setting s r forward
  heard' : Heard setting r s backward

theorem TunnelInv.symm (h : TunnelInv setting s r forward backward) :
    TunnelInv setting r s backward forward :=
  ⟨h.books', h.books, by rw [h.roles, Bool.not_not], h.pads.symm, h.sent', h.sent, h.heard',
    h.heard⟩

/-- Only an arrival changes how far `s` has come. -/
theorem Heard.act (h : Heard setting r s backward) {now : ℕ} {e : SessionEvent}
    (hact : s.act setting now e = some f) : Heard setting r f backward := by
  have hevolves : SmuxSession.Evolves setting r.frames s f := SmuxSession.act_evolves hact
  have hprogress := SmuxSession.act_progress hact
  simp only [SmuxSession.progress, Prod.mk.injEq] at hprogress
  obtain ⟨hdispatched, hbuffer, hdecoder⟩ := hprogress
  refine ⟨hdispatched ▸ h.dispatched, fun hopen => ?_⟩
  have hwasOpen : s.closed = false := by
    rw [← Bool.not_eq_true]
    exact fun hclosed => absurd (hopen.symm.trans (hevolves.stays_closed hclosed)) (by decide)
  obtain ⟨arrived, ⟨-, hparsed⟩, hflight⟩ := h.received hwasOpen
  exact ⟨arrived, ⟨hopen, by rw [hdispatched, hbuffer, hdecoder]; exact hparsed⟩, hflight⟩

/-- An arrival takes the front of what is in flight. -/
theorem Heard.arrive (hlib : setting.snappy.Lawful)
    (hsendable : ∀ frame ∈ r.frames, frame.Sendable setting.config)
    (h : Heard setting r s (chunk ++ backward)) (now : ℕ) :
    Heard setting r (s.onTransportBytes setting now chunk) backward := by
  by_cases hclosed : s.closed
  · rw [SmuxSession.onTransportBytes_of_ignored (Or.inl hclosed)]
    exact ⟨h.dispatched, fun hopen => absurd (hopen.symm.trans hclosed) (by decide)⟩
  · obtain ⟨arrived, hreceived, hflight⟩ := h.received (by simpa using hclosed)
    obtain ⟨hdispatched, hopen, -⟩ := hreceived.onTransportBytes hlib hsendable now
      (by rw [List.append_assoc]; exact hflight)
    exact ⟨hdispatched, fun hstays => ⟨_, hopen hstays, by rw [List.append_assoc]; exact hflight⟩⟩

/-- It reads the same at both ends. -/
theorem Heard.agree (hagree : a.Agree b) (h : Heard a s r forward) : Heard b s r forward where
  dispatched := h.dispatched
  received hopen := by
    obtain ⟨arrived, hreceived, hflight⟩ := h.received hopen
    exact ⟨arrived, hagree.received hreceived, hagree.transportBytes_eq ▸ hflight⟩

/-- The invariant reads the same at both ends. -/
theorem TunnelInv.agree (hagree : a.Agree b) (h : TunnelInv a s r forward backward) :
    TunnelInv b s r forward backward :=
  ⟨hagree.ledgerInv h.books, hagree.ledgerInv h.books', h.roles, h.pads,
    ⟨hagree.compressorAfter_eq ▸ h.sent.compressor, h.sent.outbox⟩,
    ⟨hagree.compressorAfter_eq ▸ h.sent'.compressor, h.sent'.outbox⟩, h.heard.agree hagree,
    h.heard'.agree hagree⟩

/-- The other side is a proper peer. -/
theorem TunnelInv.peerFrames (h : TunnelInv setting s r forward backward) :
    SmuxSession.PeerFrames setting s.ledger r.frames := by
  have horderly : Orderly (!s.client) r.frames := h.roles ▸ h.books'.orderly
  refine ⟨h.books'.sendable, horderly, fun id hid hne => ?_⟩
  obtain ⟨x, hx, rfl⟩ := h.books'.answered id hne
  rcases h.books'.origin x hx with hown | hother
  · exact absurd (hid.symm.trans (horderly.parity x.id hown)).symm (ownParity_not _)
  · obtain ⟨later, hlater⟩ := h.heard.dispatched
    refine h.books.opened x.id ?_
    simp only [SmuxSession.ledger] at hother ⊢
    rw [← hlater, synIds_append]
    exact List.mem_append_left _ hother

/-- **A step of one side.** Its output joins the bytes in flight; how far it has come with
the other's bytes is for the kind of step to say. -/
theorem TunnelInv.step (h : TunnelInv setting s r forward backward)
    (hf : SmuxSession.Evolves setting r.frames s f) {backward' : Bytes}
    (hheard : Heard setting r f backward') :
    TunnelInv setting { f with outbox := [] } r (forward ++ f.outbox) backward' := by
  obtain ⟨sent, hemits⟩ := hf.emits
  refine ⟨hf.sound h.peerFrames hheard.dispatched h.books, h.books', ?_, ?_, ⟨?_, rfl⟩, h.sent',
    ⟨?_, fun hopen => ?_⟩, ⟨hheard.dispatched, fun hopen => ?_⟩⟩
  · exact h.roles.trans (congrArg _ hf.client_eq.symm)
  · exact h.pads.trans hf.qppPad_eq.symm
  · simp only [hemits.compressor, hemits.frames, h.sent.compressor, compressorAfter_append]
  · exact h.heard.dispatched.trans ⟨sent, hemits.frames.symm⟩
  · obtain ⟨arrived, hreceived, hflight⟩ := h.heard.received hopen
    refine ⟨arrived, hreceived, ?_⟩
    simp only [hemits.frames, hemits.outbox, h.sent.outbox, h.sent.compressor,
      transportBytes_append, List.nil_append, ← hflight, List.append_assoc]
  · obtain ⟨arrived, hreceived, hflight⟩ := hheard.received hopen
    exact ⟨arrived, ⟨hreceived.isOpen, hreceived.parsed⟩, hflight⟩

/-- An event that is not an arrival. -/
theorem TunnelInv.act (h : TunnelInv setting s r forward backward) {now : ℕ} {e : SessionEvent}
    (hact : s.act setting now e = some f) :
    TunnelInv setting { f with outbox := [] } r (forward ++ f.outbox) backward :=
  h.step (SmuxSession.act_evolves hact) (h.heard'.act hact)

/-- An arrival. -/
theorem TunnelInv.arrive (hlib : setting.snappy.Lawful)
    (h : TunnelInv setting s r forward (chunk ++ backward)) (now : ℕ) :
    TunnelInv setting { s.onTransportBytes setting now chunk with outbox := [] } r
      (forward ++ (s.onTransportBytes setting now chunk).outbox) backward :=
  h.step (s.onTransportBytes_evolves now chunk) (h.heard'.arrive hlib h.books'.sendable now)

/-- The two sides take turns in one invariant. -/
theorem tunnelInv_directed (hlib : setting.snappy.Lawful) :
    (tunnel setting).Directed fun _ (p q : Endpoint) forward backward =>
      TunnelInv setting p.session q.session forward backward := by
  refine Link.Directed.of_symmetric (fun _ _ _ _ _ h => h.symm) ?_ ?_
  · intro side p q forward backward e p' out h hstep
    cases e with
    | elapse nanoseconds =>
        obtain ⟨rfl, rfl⟩ := Prod.mk.inj (Option.some.inj hstep)
        rw [List.append_nil]
        exact h
    | session e =>
        obtain ⟨f, hf, hsent⟩ := Option.map_eq_some_iff.mp hstep
        obtain ⟨rfl, rfl⟩ := Prod.mk.inj hsent
        exact h.act hf
  · intro side p q forward backward chunk p' out h hstep
    obtain ⟨rfl, rfl⟩ := Prod.mk.inj (Option.some.inj hstep)
    exact h.arrive hlib p.now

/-! ### End to end -/

/-- Two sessions that were just set up with settings that agree. -/
theorem launch_tunnelInv (hagree : a.Agree b) {client : Bool}
    {handler handler' : Option SmuxStream.Start} {now now' : ℕ}
    (hs : SmuxSession.launch a client handler now = .ok s)
    (hr : SmuxSession.launch b (!client) handler' now' = .ok r) :
    TunnelInv a s r [] [] := by
  have hreceived := SmuxSession.launch_received hs
  have hreceived' := hagree.symm.received (SmuxSession.launch_received hr)
  obtain ⟨pad, timer, hpad, rfl⟩ := SmuxSession.launch_eq_ok hs
  obtain ⟨pad', timer', hpad', rfl⟩ := SmuxSession.launch_eq_ok hr
  obtain rfl := Except.ok.inj (hpad.symm.trans (hagree.makePad_eq.trans hpad'))
  have hbooks (client : Bool) (handler : Option SmuxStream.Start) (timer : Option ℕ) (now : ℕ) :
      LedgerInv a (SmuxSession.ledger
        { client := client, acceptHandler := handler, keepaliveTimer := timer, qppPad := pad
          lastActivity := now, nextStreamId := if client then 1 else 0 }) := by
    refine ⟨⟨by simp [SmuxSession.ledger], by simp [SmuxSession.ledger],
      by simp [SmuxSession.ledger], ?_, by simp [SmuxSession.ledger, synIds],
      ⟨by simp [SmuxSession.ledger, synIds], by simp [SmuxSession.ledger, synIds],
        by simp [SmuxSession.ledger]⟩, by simp [SmuxSession.ledger], by simp [SmuxSession.ledger]⟩,
      by simp [SmuxSession.ledger]⟩
    cases client <;> rfl
  have hsent (client : Bool) (handler : Option SmuxStream.Start) (timer : Option ℕ) (now : ℕ) :
      HandedOver a
        { client := client, acceptHandler := handler, keepaliveTimer := timer, qppPad := pad
          lastActivity := now, nextStreamId := if client then 1 else 0 } :=
    ⟨by simp [compressorAfter], rfl⟩
  have hnothing : ([] : Bytes) ++ [] = transportBytes a {} [] := by
    simp [transportBytes, compressedItems]
  exact ⟨hbooks _ _ _ _, hbooks _ _ _ _, rfl, rfl, hsent _ _ _ _, hsent _ _ _ _,
    ⟨List.nil_prefix, fun _ => ⟨[], hreceived', hnothing⟩⟩,
    ⟨List.nil_prefix, fun _ => ⟨[], hreceived, hnothing⟩⟩⟩

/-- What two streams of one id have to do with each other. -/
theorem TunnelInv.written_initial (h : TunnelInv setting s r forward backward)
    {x y : SmuxStream} (hx : x ∈ s.objects) (hy : y ∈ r.objects) (hid : x.id = y.id) :
    y.history.written <+: x.history.queued := by
  obtain ⟨sent, hqueued, -, hout, -⟩ := (h.books.accord x hx).sends
  obtain ⟨got, hgot, hreceived, -, -⟩ := (h.books'.accord y hy).receives
  have hbacklog := (h.books'.accord y hy).backlog
  have hpads : r.ledger.qppPad = s.ledger.qppPad := h.pads
  rw [hpads] at hreceived
  -- what was decrypted is an initial segment of what was encrypted
  have hcipher : got <+: (QppStream.cipher s.qppPad (setting.seed s.qppPad) sent).1 := by
    refine (hgot.trans (payloads_initial h.heard.dispatched)).trans ?_
    rw [← hid]
    exact hout
  have hplain : y.traffic.received <+: sent := by
    rw [hreceived, List.prefix_iff_eq_take.mp hcipher]
    exact (QppStream.decipher_take_cipher _ _ _ _).symm ▸ List.take_prefix _ _
  have hwritten : y.history.written <+: y.traffic.received :=
    ⟨y.traffic.unwritten, hbacklog.symm⟩
  have hsent : sent <+: x.history.queued := ⟨pendingBytes x.pendingOutbound, hqueued.symm⟩
  exact (hwritten.trans hplain).trans hsent

/-- A stream without a counterpart has received nothing. -/
theorem TunnelInv.written_nil (h : TunnelInv setting s r forward backward) {y : SmuxStream}
    (hy : y ∈ r.objects) (hnone : ∀ x ∈ s.objects, x.id ≠ y.id) : y.history.written = [] := by
  obtain ⟨got, hgot, hreceived, -, -⟩ := (h.books'.accord y hy).receives
  have hbacklog := (h.books'.accord y hy).backlog
  have hout : payloads y.id s.frames = [] := by
    by_contra hne
    obtain ⟨x, hx, hid⟩ := h.books.answered y.id hne
    exact hnone x hx hid
  have hnil : got = [] :=
    List.prefix_nil.mp (hout ▸ hgot.trans (payloads_initial h.heard.dispatched))
  rw [hnil, QppStream.decipher_nil] at hreceived
  rw [hreceived] at hbacklog
  exact (List.append_eq_nil_iff.mp hbacklog.symm).1

/-- **End-to-end integrity.** In every state of a tunnel and in each direction, stream ids
are unique at each end, and for every stream of the receiving end the payload bytes it has
completely written to its local socket are an initial segment of the bytes queued on the
stream of the same id at the sending end; a stream without such a counterpart has written
nothing. -/
theorem tunnel_integrity (hlib : setting.snappy.Lawful)
    {handler : Side → Option SmuxStream.Start} {now : Side → ℕ} {left right : SmuxSession}
    (hleft : SmuxSession.launch setting true (handler .left) (now .left) = .ok left)
    (hright : SmuxSession.launch setting false (handler .right) (now .right) = .ok right)
    {j : LinkState Endpoint UInt8}
    (hreach : (tunnel setting).machine.Reachable (tunnelStart left right now) j) (p : Side) :
    let sender := (j.party p).session
    let receiver := (j.party p.other).session
    (sender.objects.map SmuxStream.id).Nodup ∧ (receiver.objects.map SmuxStream.id).Nodup ∧
      ∀ y ∈ receiver.objects,
        (∀ x ∈ sender.objects, x.id = y.id → y.history.written <+: x.history.queued) ∧
        ((∀ x ∈ sender.objects, x.id ≠ y.id) → y.history.written = []) := by
  intro sender receiver
  have hinit : ∀ p, TunnelInv setting ((tunnelStart left right now).party p).session
      ((tunnelStart left right now).party p.other).session [] [] := by
    intro p
    cases p with
    | left => exact launch_tunnelInv (.refl setting) hleft hright
    | right => exact launch_tunnelInv (.refl setting) hright hleft
  have h : TunnelInv setting sender receiver _ _ :=
    (tunnelInv_directed hlib).reachable hinit hreach p
  exact ⟨h.books.distinct, h.books'.distinct, fun y hy =>
    ⟨fun x hx hid => h.written_initial hx hy hid, h.written_nil hy⟩⟩

/-- One byte goes through a tunnel, its frames cut inside their headers. -/
theorem byte_through_tunnel :
    let setting : Setting := ⟨{ nocomp := true }, .uncalled, ⟨id, some⟩⟩
    ∃ left right j x y, SmuxSession.launch setting true none 0 = .ok left ∧
      SmuxSession.launch setting false (some .serverTcp) 0 = .ok right ∧
      (tunnel setting).machine.run (tunnelStart left right fun _ => 0)
        [.act .left (.session (.openStream .clientTcp)),
          .act .left (.session (.completion 0 (.readStored [7]))),
          .act .left (.session (.completion 0 .readDone)), .deliver .right 3, .deliver .right 9,
          .deliver .right 5, .act .right (.session (.completion 0 (.resolved none))),
          .act .right (.session (.completion 0 (.connected none))),
          .act .right (.session (.completion 0 .writeDone))] = some j ∧
      (j.party .left).session.objects = [x] ∧ (j.party .right).session.objects = [y] ∧
      y.history.written = [7] ∧ y.history.written <+: x.history.queued := by
  intro setting
  have hleft : SmuxSession.launch setting true none 0 =
      .ok { client := true, nextStreamId := 1, keepaliveTimer := some 10 } := rfl
  have hright : SmuxSession.launch setting false (some .serverTcp) 0 =
      .ok { client := false, nextStreamId := 0, keepaliveTimer := some 10,
            acceptHandler := some .serverTcp } := rfl
  have hrun : ((tunnel setting).machine.run
        (tunnelStart { client := true, nextStreamId := 1, keepaliveTimer := some 10 }
          { client := false, nextStreamId := 0, keepaliveTimer := some 10,
            acceptHandler := some .serverTcp } fun _ => 0)
        [.act .left (.session (.openStream .clientTcp)),
          .act .left (.session (.completion 0 (.readStored [7]))),
          .act .left (.session (.completion 0 .readDone)), .deliver .right 3, .deliver .right 9,
          .deliver .right 5, .act .right (.session (.completion 0 (.resolved none))),
          .act .right (.session (.completion 0 (.connected none))),
          .act .right (.session (.completion 0 .writeDone))]).map
        (fun j => ((j.party .left).session.objects.map SmuxStream.id,
          (j.party .right).session.objects.map fun y => (y.id, y.history.written))) =
      some ([3], [(3, [7])]) := by decide +kernel
  obtain ⟨j, hj, hview⟩ := Option.map_eq_some_iff.mp hrun
  obtain ⟨hxs, hys⟩ := Prod.mk.inj hview
  obtain ⟨x, hx, hxid⟩ := List.map_eq_singleton_iff.mp hxs
  obtain ⟨y, hy, hyview⟩ := List.map_eq_singleton_iff.mp hys
  obtain ⟨hyid, hwritten⟩ := Prod.mk.inj hyview
  refine ⟨_, _, j, x, y, hleft, hright, hj, hx, hy, hwritten, ?_⟩
  have h := @tunnel_integrity setting (fun _ => rfl)
    (fun | .left => none | .right => some .serverTcp) (fun _ => 0) _ _ hleft hright j ⟨_, hj⟩ .left
  exact (h.2.2 y (hy ▸ List.mem_singleton_self y)).1 x (hx ▸ List.mem_singleton_self x)
    (hxid.trans hyid.symm)

end Shimakaze
