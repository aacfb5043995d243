import Shimakaze.Smux.Ledger

/-!
# How a Session Evolves

Every member function of a session keeps its books, whatever it was given by the peer, as
long as the frames that came in are an initial segment of the frames of an orderly peer.
`Evolves` says this of the states before and after a function, together with what went out
meanwhile; it is reflexive and transitive, so loops need no invariant of their own.

## Main results

* `dispatch_evolves`: one incoming frame.
* `onTransportBytes_evolves`: a whole arrival, well formed or not.
* `act_evolves`: everything else that can happen to a session.
-/

namespace Shimakaze

open Ledger (LedgerInv)

/-! ### Events of a session -/

/-- What can happen to a session apart from arrivals. -/
inductive SessionEvent
  /-- A local connection is accepted: `open_stream` and `start_client`. -/
  | openStream (kind : SmuxStream.Start)
  /-- An operation of a stream object completes. -/
  | completion (index : ℕ) (c : SmuxStream.Completion)
  | closeStream (index : ℕ)
  /-- The keepalive timer expires. -/
  | keepalive
  | close
  deriving DecidableEq

/-- An event of a session at the time `now`; `none` when it cannot happen. -/
def SmuxSession.act (setting : Setting) (s : SmuxSession) (now : ℕ) :
    SessionEvent → Option SmuxSession
  | .openStream kind =>
      match s.openStream setting with
      | .ok (s, index) => some (s.onObject setting index fun r => (r.start kind).quiet)
      | .error _ => none
  | .completion index c =>
      s.objects[index]?.bind fun r => (r.complete setting.config c).map (s.settle setting index)
  | .closeStream index => some (s.onObject setting index SmuxStream.close)
  | .keepalive =>
      if s.keepaliveTimer.isSome then
        some (keepaliveTick setting { s with keepaliveTimer := none } now)
      else none
  | .close => some (s.close setting)

namespace SmuxSession

variable {setting : Setting} {s f g : SmuxSession} {peer : List Frame}

/-! ### The relation -/

/-- What the frames of the peer have to be like: acceptable and orderly, and with data only
for streams that it opened or that were announced to it. -/
structure PeerFrames (setting : Setting) (l : Ledger) (peer : List Frame) : Prop where
  sendable : ∀ frame ∈ peer, frame.Sendable setting.config
  orderly : Orderly (!l.client) peer
  answers : ∀ id, id.toNat % 2 = ownParity l.client → payloads id peer ≠ [] →
    id.toNat ≤ l.nextStreamId.toNat

/-- `f` is a later state of the session `s`. -/
structure Proceeds (setting : Setting) (s f : SmuxSession) : Prop where
  emits : ∃ sent, Emits setting s f sent
  grows : s.dispatched <+: f.dispatched
  client_eq : f.client = s.client
  qppPad_eq : f.qppPad = s.qppPad
  next_le : s.nextStreamId.toNat ≤ f.nextStreamId.toNat
  stays_closed : s.closed = true → f.closed = true

/-- `f` is a later state of `s`, and keeps the books if what was dispatched is an initial
segment of the peer's frames. -/
structure Evolves (setting : Setting) (peer : List Frame) (s f : SmuxSession) : Prop
    extends Proceeds setting s f where
  sound : PeerFrames setting s.ledger peer → f.dispatched <+: peer →
    LedgerInv setting s.ledger → LedgerInv setting f.ledger

theorem Proceeds.trans (h : Proceeds setting s f) (h' : Proceeds setting f g) :
    Proceeds setting s g where
  emits := by
    obtain ⟨sent, hsent⟩ := h.emits
    obtain ⟨more, hmore⟩ := h'.emits
    exact ⟨sent ++ more, hsent.trans hmore⟩
  grows := h.grows.trans h'.grows
  client_eq := h'.client_eq.trans h.client_eq
  qppPad_eq := h'.qppPad_eq.trans h.qppPad_eq
  next_le := h.next_le.trans h'.next_le
  stays_closed hclosed := h'.stays_closed (h.stays_closed hclosed)

/-- The peer's frames stay what they have to be. -/
theorem Proceeds.peerFrames (h : Proceeds setting s f) (hpeer : PeerFrames setting s.ledger peer) :
    PeerFrames setting f.ledger peer := by
  have hclient : f.ledger.client = s.ledger.client := h.client_eq
  exact ⟨hpeer.sendable, hclient ▸ hpeer.orderly, fun id hid hne =>
    (hpeer.answers id (hclient ▸ hid) hne).trans h.next_le⟩

/-- A change that the books do not record. -/
theorem Evolves.of_ledger (hledger : f.ledger = s.ledger) (houtbox : f.outbox = s.outbox)
    (hcompressor : f.compressor = s.compressor) : Evolves setting peer s f where
  emits := ⟨[], .of_eq (congrArg Ledger.frames hledger) houtbox hcompressor⟩
  grows := by
    have h : f.dispatched = s.dispatched := congrArg Ledger.dispatched hledger
    exact h ▸ List.prefix_refl _
  client_eq := congrArg Ledger.client hledger
  qppPad_eq := congrArg Ledger.qppPad hledger
  next_le := by
    have h : f.nextStreamId = s.nextStreamId := congrArg Ledger.nextStreamId hledger
    exact h ▸ le_rfl
  stays_closed hclosed := (congrArg Ledger.closed hledger).trans hclosed
  sound _ _ h := hledger ▸ h

theorem Evolves.refl (s : SmuxSession) : Evolves setting peer s s := .of_ledger rfl rfl rfl

theorem Evolves.trans (h : Evolves setting peer s f) (h' : Evolves setting peer f g) :
    Evolves setting peer s g where
  toProceeds := h.toProceeds.trans h'.toProceeds
  sound hpeer hdispatched hs :=
    h'.sound (h.peerFrames hpeer) hdispatched (h.sound hpeer (h'.grows.trans hdispatched) hs)

/-- A list of functions in turn. -/
theorem Evolves.foldl {α : Type*} (step : SmuxSession → α → SmuxSession)
    (hstep : ∀ s a, Evolves setting peer s (step s a)) (as : List α) (s : SmuxSession) :
    Evolves setting peer s (as.foldl step s) := by
  induction as generalizing s with
  | nil => exact .refl s
  | cons a as ih => exact (hstep s a).trans (ih _)

/-! ### Stream functions -/

/-- `send_frame` touches neither the table nor the objects. -/
theorem sendFrame_tables (s : SmuxSession) (command : Command) (streamId : UInt32)
    (payload : Bytes) :
    (s.sendFrame setting command streamId payload).streams = s.streams ∧
      (s.sendFrame setting command streamId payload).objects = s.objects := by
  rw [sendFrame]
  split_ifs <;> exact ⟨rfl, rfl⟩

theorem foldl_perform_objects (calls : List SessionCall) (s : SmuxSession) :
    (calls.foldl (perform setting) s).objects = s.objects := by
  induction calls generalizing s with
  | nil => rfl
  | cons call calls ih =>
      rw [List.foldl_cons, ih]
      cases call with
      | sendFrame command streamId payload => exact (s.sendFrame_tables command streamId payload).2
      | sendUpdate streamId consumed window => exact (s.sendFrame_tables .upd streamId _).2
      | streamClosed => rfl

theorem foldl_perform_streams (calls : List SessionCall) (s : SmuxSession) :
    (calls.foldl (perform setting) s).streams =
      s.streams.filter fun entry => SessionCall.streamClosed entry.1 ∉ calls := by
  induction calls generalizing s with
  | nil => simp
  | cons call calls ih =>
      rw [List.foldl_cons, ih]
      cases call with
      | sendFrame command streamId payload =>
          simp [perform, (s.sendFrame_tables command streamId payload).1]
      | sendUpdate streamId consumed window =>
          simp [perform, sendUpdate, (s.sendFrame_tables .upd streamId _).1]
      | streamClosed streamId =>
          rw [perform, streamClosed, List.filter_filter]
          refine List.filter_congr fun entry _ => ?_
          simp [Bool.and_comm]

/-- The books after a stream function. -/
theorem settle_ledger (s : SmuxSession) (index : ℕ) (o : Outcome) :
    (s.settle setting index o).ledger = s.ledger.settled index o := by
  have hkept := @foldl_perform_kept setting o.calls
    { s with objects := s.objects.set index o.stream }
  have hframes := (@foldl_perform_emits setting o.calls
    { s with objects := s.objects.set index o.stream }).frames
  simp only [kept, Prod.mk.injEq] at hkept
  obtain ⟨⟨hclosed, hdispatched, -⟩, hclient, -, hpad, hnext⟩ := hkept
  simp only [ledger, settle, Ledger.settled, hclosed, hdispatched, hclient, hpad, hnext, hframes,
    foldl_perform_objects, foldl_perform_streams]

/-- What a stream function puts on the transport. -/
theorem settle_emits (s : SmuxSession) (index : ℕ) (o : Outcome) :
    Emits setting s (s.settle setting index o) (transmitted s.closed o.calls) := by
  have h := @foldl_perform_emits setting o.calls
    { s with objects := s.objects.set index o.stream }
  exact ⟨h.frames, h.outbox, h.compressor⟩

theorem settle_proceeds (s : SmuxSession) (index : ℕ) (o : Outcome) :
    Proceeds setting s (s.settle setting index o) := by
  have hledger := @settle_ledger setting s index o
  have hdispatched : (s.settle setting index o).dispatched = s.dispatched :=
    congrArg Ledger.dispatched hledger
  have hnext : (s.settle setting index o).nextStreamId = s.nextStreamId :=
    congrArg Ledger.nextStreamId hledger
  exact ⟨⟨_, s.settle_emits index o⟩, hdispatched ▸ List.prefix_refl _,
    congrArg Ledger.client hledger, congrArg Ledger.qppPad hledger, hnext ▸ le_rfl,
    fun hclosed => (congrArg Ledger.closed hledger).trans hclosed⟩

/-- A stream function whose outcome keeps the books. -/
theorem settle_evolves {index : ℕ} {o : Outcome}
    (hsound : PeerFrames setting s.ledger peer → s.dispatched <+: peer →
      LedgerInv setting s.ledger → LedgerInv setting (s.ledger.settled index o)) :
    Evolves setting peer s (s.settle setting index o) := by
  have hproceeds := @settle_proceeds setting s index o
  refine ⟨hproceeds, fun hpeer hdispatched hs => ?_⟩
  rw [settle_ledger]
  exact hsound hpeer (hproceeds.grows.trans hdispatched) hs

/-- A function of the stream object at a position, if there is one. -/
theorem onObject_evolves {index : ℕ} {fn : SmuxStream → Outcome}
    (hsound : ∀ r, s.objects[index]? = some r → PeerFrames setting s.ledger peer →
      s.dispatched <+: peer → LedgerInv setting s.ledger →
      LedgerInv setting (s.ledger.settled index (fn r))) :
    Evolves setting peer s (s.onObject setting index fn) := by
  rw [onObject]
  split
  · next r hr => exact settle_evolves (hsound r hr)
  · exact .refl s

/-- The reaction of the stream the table has for an id, other than to data. -/
theorem onStream_evolves {streamId : UInt32} {fn : SmuxStream → Outcome} {e : StreamEvent}
    (he : e ≠ .sessionExpired) (hdata : ∀ payload, e ≠ .data payload)
    (hreact : PeerFrames setting s.ledger peer → s.dispatched <+: peer →
      ∀ r : SmuxStream, r.closed = false → r.sessionAlive = true →
        r.react setting.config e = some (fn r)) :
    Evolves setting peer s (s.onStream setting streamId fn) := by
  rw [onStream]
  split
  · next index hlookup =>
    refine onObject_evolves fun r hr hpeer hdispatched hs => ?_
    obtain ⟨x, hx, -, hopen⟩ := hs.table streamId index hlookup
    obtain rfl := Option.some.inj (hr.symm.trans hx)
    have hr' := hs.accord r (List.mem_of_getElem? hr)
    exact hs.react hr he hdata (hreact hpeer hdispatched r hopen hr'.alive)
  · exact .refl s

/-! ### Closing -/

theorem onObject_close_evolves (s : SmuxSession) (index : ℕ) :
    Evolves setting peer s (s.onObject setting index SmuxStream.close) :=
  onObject_evolves fun _ hr _ _ hs => hs.react (e := .close) hr (by simp) (by simp) rfl

theorem close_evolves (s : SmuxSession) : Evolves setting peer s (s.close setting) := by
  rw [close]
  split_ifs with hclosed
  · exact .refl s
  · have hshut : Evolves setting peer s
        { s with closed := true, keepaliveTimer := none, streams := [] } :=
      ⟨⟨⟨[], .of_eq rfl rfl rfl⟩, List.prefix_refl _, rfl, rfl, le_rfl, fun _ => rfl⟩,
        fun _ _ hs => hs.shut⟩
    have hall := @Evolves.foldl setting peer _
      (fun (s : SmuxSession) (entry : UInt32 × ℕ) => s.onObject setting entry.2 SmuxStream.close)
      (fun s entry => s.onObject_close_evolves entry.2) s.streams
      { s with closed := true, keepaliveTimer := none, streams := [] }
    exact (hshut.trans hall).trans (.of_ledger rfl rfl rfl)

theorem protocolError_evolves (s : SmuxSession) (message : String) :
    Evolves setting peer s (s.protocolError setting message) := by
  have hmessage : Evolves setting peer s { s with protocolErrorMessage := some message } :=
    .of_ledger rfl rfl rfl
  exact hmessage.trans (close_evolves _)

/-! ### Receiving -/

/-- Taking note of a frame. -/
theorem note_proceeds (s : SmuxSession) (frame : Frame) :
    Proceeds setting s { s with dispatched := s.dispatched ++ [frame] } :=
  ⟨⟨[], .of_eq rfl rfl rfl⟩, List.prefix_append _ _, rfl, rfl, le_rfl, id⟩

theorem note_evolves (s : SmuxSession) {frame : Frame} (hframe : frame.command ≠ .psh) :
    Evolves setting peer s { s with dispatched := s.dispatched ++ [frame] } :=
  ⟨s.note_proceeds frame, fun _ _ hs => hs.note hframe⟩

/-- A SYN of the peer is for an id that no stream has, and no data came in for it. -/
theorem fresh_of_syn (hpeer : PeerFrames setting s.ledger peer) {frame : Frame}
    (hsyn : frame.command = .syn) (hdispatched : s.dispatched ++ [frame] <+: peer)
    (hs : LedgerInv setting s.ledger) :
    (∀ r ∈ s.objects, r.id ≠ frame.streamId) ∧ payloads frame.streamId s.dispatched = [] := by
  obtain ⟨later, hlater⟩ := hdispatched
  have hids : synIds [frame] = [frame.streamId] := by
    rw [synIds, List.filter_cons_of_pos (by simpa using hsyn)]
    rfl
  have hpeerIds : synIds peer = synIds s.dispatched ++ ([frame.streamId] ++ synIds later) := by
    rw [← hlater, synIds_append, synIds_append, hids, List.append_assoc]
  constructor
  · intro r hr hid
    rcases hs.origin r hr with hown | hother
    · have hparity := hs.orderly.parity r.id hown
      have hparity' := hpeer.orderly.parity frame.streamId (by simp [hpeerIds])
      rw [← hid, hparity] at hparity'
      exact ownParity_not _ hparity'.symm
    · have honce := hpeer.orderly.once
      rw [hpeerIds] at honce
      exact (List.nodup_append.mp honce).2.2 _ hother frame.streamId (by simp) hid
  · exact hpeer.orderly.first s.dispatched frame later (by rw [← hlater]; simp) hsyn

theorem accept_evolves (s : SmuxSession) (index : ℕ) :
    Evolves setting peer s (s.accept setting index) := by
  rw [accept]
  split
  · next kind _ => exact onObject_evolves fun _ hr _ _ hs => hs.start hr kind
  · exact .refl s

theorem dispatch_syn_evolves (s : SmuxSession) {frame : Frame} (hsyn : frame.command = .syn) :
    Evolves setting peer s
      (addStream setting { s with dispatched := s.dispatched ++ [frame] } frame.streamId) := by
  refine ⟨⟨⟨[], .of_eq rfl rfl rfl⟩, List.prefix_append _ _, rfl, rfl, le_rfl, id⟩,
    fun hpeer hdispatched hs => ?_⟩
  obtain ⟨hfresh, hinn⟩ := fresh_of_syn hpeer hsyn hdispatched hs
  have hnoted : LedgerInv setting (s.ledger.noted frame) := hs.note (by simp [hsyn])
  refine hnoted.add hfresh (Or.inr ?_) ?_
  · simp [ledger, Ledger.noted, synIds, hsyn]
  · have hnone : payloads frame.streamId [frame] = [] := payloads_eq_nil (by simp [hsyn])
    rw [Ledger.noted, payloads_append, hnone, List.append_nil]
    exact hinn

theorem dispatch_psh_evolves (s : SmuxSession) {frame : Frame} (hpsh : frame.command = .psh) :
    Evolves setting peer s
      (onStream setting { s with dispatched := s.dispatched ++ [frame] } frame.streamId
        fun stream => stream.onData frame.payload) := by
  have hnote := @note_proceeds setting s frame
  rw [onStream]
  split
  · next index hlookup =>
    rw [onObject]
    split
    · next r hr =>
      refine ⟨hnote.trans (settle_proceeds _ index _), fun _ _ hs => ?_⟩
      rw [settle_ledger]
      exact hs.deliver hpsh hlookup hr
    · next hr =>
      refine ⟨hnote, fun _ _ hs => ?_⟩
      obtain ⟨x, hx, -⟩ := hs.table frame.streamId index hlookup
      exact absurd (hr.symm.trans hx) (by simp)
  · next hlookup => exact ⟨hnote, fun _ _ hs => hs.note_unknown hlookup⟩

/-- **One incoming frame.** -/
theorem dispatch_evolves (s : SmuxSession) (frame : Frame) :
    Evolves setting peer s (s.dispatch setting frame) := by
  simp only [dispatch]
  split
  · next hnop => exact s.note_evolves (by simp [hnop])
  · next hsyn =>
    split_ifs
    · exact s.note_evolves (by simp [hsyn])
    · exact (s.dispatch_syn_evolves hsyn).trans (accept_evolves _ _)
  · next hfin =>
    refine (s.note_evolves (by simp [hfin])).trans
      (onStream_evolves (e := .fin) (by simp) (by simp) fun _ _ r hopen halive => ?_)
    exact SmuxStream.react_fin.mpr ⟨hopen, halive, rfl⟩
  · next hpsh => exact s.dispatch_psh_evolves hpsh
  · next hupd =>
    refine (s.note_evolves (by simp [hupd])).trans
      (onStream_evolves (e := .update (readLe32 frame.payload) (readLe32 (frame.payload.drop 4)))
        (by simp) (by simp) fun hpeer hdispatched r hopen halive => ?_)
    have hmem : frame ∈ peer := hdispatched.subset (by simp)
    exact SmuxStream.react_update.mpr
      ⟨hopen, halive, ((hpeer.sendable frame hmem).2 hupd).1, rfl⟩

/-- Induction on the fuel: every round is a dispatch, or ends the loop. -/
theorem consumeLoop_evolves (fuel : ℕ) (s : SmuxSession) :
    Evolves setting peer s (consumeLoop setting fuel s) := by
  induction fuel generalizing s with
  | zero => exact .refl s
  | succ fuel ih =>
      rw [consumeLoop]
      split_ifs
      · exact .refl s
      · split
        · exact .refl s
        · exact s.protocolError_evolves _
        · next frame size _ =>
          have htaken : Evolves setting peer (s.dispatch setting frame)
              { s.dispatch setting frame with
                receiveBuffer := (s.dispatch setting frame).receiveBuffer.drop size } :=
            .of_ledger rfl rfl rfl
          exact ((s.dispatch_evolves frame).trans htaken).trans (ih _)

theorem consumeStreamBytes_evolves (s : SmuxSession) (bytes : Bytes) :
    Evolves setting peer s (s.consumeStreamBytes setting bytes) := by
  rw [consumeStreamBytes]
  split_ifs
  · exact s.protocolError_evolves _
  · have hbuffer : Evolves setting peer s { s with receiveBuffer := s.receiveBuffer ++ bytes } :=
      .of_ledger rfl rfl rfl
    exact hbuffer.trans (consumeLoop_evolves _ _)

/-- **A whole arrival.** -/
theorem onTransportBytes_evolves (s : SmuxSession) (now : ℕ) (bytes : Bytes) :
    Evolves setting peer s (s.onTransportBytes setting now bytes) := by
  by_cases hignored : s.closed ∨ bytes = []
  · rw [onTransportBytes_of_ignored hignored]
    exact .refl s
  · rw [not_or, Bool.not_eq_true] at hignored
    have hunpack : Evolves setting peer s (s.unpack setting now bytes).1 := by
      rw [unpack]
      split_ifs <;> exact .of_ledger rfl rfl rfl
    rw [onTransportBytes_eq hignored.1 now hignored.2]
    split
    · next chunks _ =>
      exact hunpack.trans (Evolves.foldl _ (fun s chunk => s.consumeStreamBytes_evolves chunk) _ _)
    · exact hunpack.trans (protocolError_evolves _ _)

/-! ### Everything else -/

/-- What `open_stream` does, if it does not throw. -/
theorem openStream_eq_ok {index : ℕ} (h : s.openStream setting = .ok (f, index)) :
    s.closed = false ∧ (s.nextStreamId + 2).toNat = s.nextStreamId.toNat + 2 ∧
      f = addStream setting (sendFrame setting { s with nextStreamId := s.nextStreamId + 2 } .syn
        (s.nextStreamId + 2) []) (s.nextStreamId + 2) := by
  rw [openStream] at h
  split_ifs at h with hclosed hexhausted
  obtain ⟨rfl, -⟩ := Prod.mk.inj (Except.ok.inj h)
  refine ⟨by simpa using hclosed, ?_, rfl⟩
  have hlt := s.nextStreamId.toNat_lt
  rw [UInt32.lt_iff_toNat_lt, UInt32.toNat_add] at hexhausted
  rw [UInt32.toNat_add]
  have htwo : (2 : UInt32).toNat = 2 := rfl
  omega

/-- A frame that gets through is entered in the books. -/
theorem sendFrame_ledger (hopen : s.closed = false) {command : Command} {streamId : UInt32}
    {payload : Bytes} (hlen : payload.length ≤ 65535) :
    (s.sendFrame setting command streamId payload).ledger =
      { s.ledger with frames := s.frames ++ [(⟨command, streamId, payload⟩ : Frame)] } := by
  rw [sendFrame]
  rw [if_neg (by simp [hopen, hlen])]
  cases setting.config.nocomp <;> rfl

theorem openStream_evolves {index : ℕ} (h : s.openStream setting = .ok (f, index)) :
    Evolves setting peer s f := by
  obtain ⟨hopen, hnext, rfl⟩ := openStream_eq_ok h
  set sid := s.nextStreamId + 2
  have hopen : SmuxSession.closed { s with nextStreamId := sid } = false := hopen
  set t := sendFrame setting { s with nextStreamId := sid } .syn sid [] with ht
  have hemits : Emits setting { s with nextStreamId := sid } t [⟨.syn, sid, []⟩] :=
    sendFrame_emits hopen (Nat.zero_le _)
  have hledger : (addStream setting t sid).ledger = (s.ledger.announced sid).added setting sid := by
    have hsent : t.ledger = s.ledger.announced sid := sendFrame_ledger hopen (Nat.zero_le _)
    rw [← hsent]
    rfl
  have hdispatched : (addStream setting t sid).dispatched = s.dispatched :=
    congrArg Ledger.dispatched hledger
  have hnext' : (addStream setting t sid).nextStreamId = sid :=
    congrArg Ledger.nextStreamId hledger
  refine ⟨⟨⟨_, hemits.frames, hemits.outbox, hemits.compressor⟩,
    hdispatched ▸ List.prefix_refl _, congrArg Ledger.client hledger,
    congrArg Ledger.qppPad hledger, ?_, fun hclosed => (congrArg Ledger.closed hledger).trans
      hclosed⟩, fun hpeer hinitial hs => ?_⟩
  · rw [hnext']
    omega
  · rw [hdispatched] at hinitial
    have hparity : sid.toNat % 2 = ownParity s.client := by
      have hown : s.nextStreamId.toNat % 2 = ownParity s.client := hs.next
      omega
    have hforeign : sid ∉ synIds s.dispatched := by
      intro hmem
      obtain ⟨later, rfl⟩ := hinitial
      have hother := hpeer.orderly.parity sid (by
        rw [synIds_append]
        exact List.mem_append_left _ hmem)
      exact ownParity_not _ (hother.symm.trans hparity)
    have hnone : payloads sid peer = [] := by
      by_contra hne
      have hle : sid.toNat ≤ s.nextStreamId.toNat := hpeer.answers sid hparity hne
      omega
    have hlt : s.ledger.nextStreamId.toNat < sid.toNat := by
      rw [hnext]
      exact Nat.lt_add_of_pos_right (by decide)
    rw [hledger]
    refine (hs.announce hnext hforeign).add (hs.fresh hlt hforeign) (Or.inl ?_) ?_
    · simp [Ledger.announced, synIds_singleton]
    · exact List.prefix_nil.mp (hnone ▸ payloads_initial hinitial)

/-- The frame of a keepalive. -/
theorem sendFrame_nop_evolves (s : SmuxSession) :
    Evolves setting peer s (s.sendFrame setting .nop 0 []) := by
  by_cases hclosed : s.closed
  · rw [sendFrame_of_dropped (Or.inl hclosed)]
    exact .refl s
  · have hopen : s.closed = false := by simpa using hclosed
    have hledger := @sendFrame_ledger setting s hopen .nop 0 [] (Nat.zero_le _)
    have hnext : (s.sendFrame setting .nop 0 []).nextStreamId = s.nextStreamId :=
      congrArg Ledger.nextStreamId hledger
    have hdispatched : (s.sendFrame setting .nop 0 []).dispatched = s.dispatched :=
      congrArg Ledger.dispatched hledger
    refine ⟨⟨⟨_, sendFrame_emits hopen (Nat.zero_le _)⟩, hdispatched ▸ List.prefix_refl _,
      congrArg Ledger.client hledger, congrArg Ledger.qppPad hledger, hnext ▸ le_rfl,
      fun hclosed => (congrArg Ledger.closed hledger).trans hclosed⟩, fun _ _ hs => ?_⟩
    rw [hledger]
    exact hs.addFrame (by simp) (by simp) ⟨by simp, by simp⟩

theorem keepaliveTick_evolves (s : SmuxSession) (now : ℕ) :
    Evolves setting peer s (s.keepaliveTick setting now) := by
  rw [keepaliveTick]
  simp only
  split_ifs
  · exact .refl s
  · exact s.sendFrame_nop_evolves.trans (close_evolves _)
  · refine s.sendFrame_nop_evolves.trans ?_
    rw [startKeepaliveTimer]
    split_ifs <;> exact .of_ledger rfl rfl rfl

/-- **Everything else that can happen to a session.** -/
theorem act_evolves {now : ℕ} {e : SessionEvent} (h : s.act setting now e = some f) :
    Evolves setting peer s f := by
  cases e with
  | openStream kind =>
      simp only [act] at h
      split at h
      · next t index hopen =>
        obtain rfl := Option.some.inj h
        exact (openStream_evolves hopen).trans
          (onObject_evolves fun _ hr _ _ hs => hs.start hr kind)
      · exact absurd h (by simp)
  | completion index c =>
      simp only [act, Option.bind_eq_some_iff, Option.map_eq_some_iff] at h
      obtain ⟨r, hr, o, ho, rfl⟩ := h
      exact settle_evolves fun _ _ hs => hs.react (e := .completion c) hr (by simp) (by simp) ho
  | closeStream index =>
      obtain rfl := Option.some.inj h
      exact s.onObject_close_evolves index
  | keepalive =>
      simp only [act] at h
      split_ifs at h
      obtain rfl := Option.some.inj h
      have hexpired : Evolves setting peer s { s with keepaliveTimer := none } :=
        .of_ledger rfl rfl rfl
      exact hexpired.trans (keepaliveTick_evolves _ now)
  | close =>
      obtain rfl := Option.some.inj h
      exact s.close_evolves

/-! ### What an event leaves to the receiving side -/

/-- The part of a session that tells how far it has come with the transport's bytes. -/
def progress (s : SmuxSession) : List Frame × Bytes × SnappyStreamDecoder :=
  (s.dispatched, s.receiveBuffer, s.decompressor)

/-- The part of a session that only arrivals write: besides its progress, the time of the last
one and the error it may have led to. -/
def inbound (s : SmuxSession) :
    (List Frame × Bytes × SnappyStreamDecoder) × ℕ × Option String :=
  (s.progress, s.lastActivity, s.protocolErrorMessage)

theorem sendFrame_inbound (s : SmuxSession) (command : Command) (streamId : UInt32)
    (payload : Bytes) : (s.sendFrame setting command streamId payload).inbound = s.inbound := by
  rw [sendFrame]
  split_ifs <;> rfl

theorem foldl_perform_inbound (calls : List SessionCall) (s : SmuxSession) :
    (calls.foldl (perform setting) s).inbound = s.inbound := by
  induction calls generalizing s with
  | nil => rfl
  | cons call calls ih =>
      rw [List.foldl_cons, ih]
      cases call with
      | sendFrame command streamId payload => exact s.sendFrame_inbound _ _ _
      | sendUpdate streamId consumed window => exact s.sendFrame_inbound _ _ _
      | streamClosed streamId => rfl

theorem onObject_inbound (s : SmuxSession) (index : ℕ) (fn : SmuxStream → Outcome) :
    (s.onObject setting index fn).inbound = s.inbound := by
  rw [onObject.eq_def]
  split
  · exact foldl_perform_inbound _ _
  · rfl

theorem close_inbound (s : SmuxSession) : (s.close setting).inbound = s.inbound := by
  have hfold (entries : List (UInt32 × ℕ)) (s : SmuxSession) :
      (entries.foldl (fun s entry => s.onObject setting entry.2 SmuxStream.close) s).inbound =
        s.inbound := by
    induction entries generalizing s with
    | nil => rfl
    | cons entry entries ih => rw [List.foldl_cons, ih, onObject_inbound]
  rw [close]
  split_ifs
  · rfl
  · exact hfold s.streams
      { s with closed := true, keepaliveTimer := none, streams := [] }

theorem keepaliveTick_inbound (s : SmuxSession) (now : ℕ) :
    (s.keepaliveTick setting now).inbound = s.inbound := by
  have hnop := @sendFrame_inbound setting s .nop 0 []
  simp only [keepaliveTick]
  split_ifs
  · rfl
  · rw [close_inbound]
    exact hnop
  · rw [startKeepaliveTimer]
    split_ifs <;> exact hnop

/-- Only an arrival changes it. -/
theorem act_inbound {now : ℕ} {e : SessionEvent} (h : s.act setting now e = some f) :
    f.inbound = s.inbound := by
  cases e with
  | openStream kind =>
      simp only [act] at h
      split at h
      · next t index hopen =>
        obtain rfl := Option.some.inj h
        obtain ⟨-, -, rfl⟩ := openStream_eq_ok hopen
        rw [onObject_inbound]
        exact sendFrame_inbound { s with nextStreamId := s.nextStreamId + 2 } _ _ _
      · exact absurd h (by simp)
  | completion index c =>
      simp only [act, Option.bind_eq_some_iff, Option.map_eq_some_iff] at h
      obtain ⟨r, -, o, -, rfl⟩ := h
      exact foldl_perform_inbound o.calls { s with objects := s.objects.set index o.stream }
  | closeStream index =>
      obtain rfl := Option.some.inj h
      exact s.onObject_inbound index _
  | keepalive =>
      simp only [act] at h
      split_ifs at h
      obtain rfl := Option.some.inj h
      exact keepaliveTick_inbound { s with keepaliveTimer := none } now
  | close =>
      obtain rfl := Option.some.inj h
      exact s.close_inbound

/-- Only an arrival makes progress. -/
theorem act_progress {now : ℕ} {e : SessionEvent} (h : s.act setting now e = some f) :
    f.progress = s.progress :=
  congrArg Prod.fst (act_inbound h)

end SmuxSession

end Shimakaze
