import Shimakaze.Smux.Evolution

/-!
# Invariants of a Session

A session does what it does by running functions of its streams and carrying out their
calls, by making streams, by sending frames of its own and by closing. An invariant that
survives each of these survives every member function, whatever bytes the peer sends.
`Upkeep` lists what has to be shown; the induction over chunks, rounds and table entries is
done here once.

## Main results

* `Upkeep.onTransportBytes`: an arrival of arbitrary bytes.
* `Upkeep.act`: everything else, given what `open_stream` does.
-/

namespace Shimakaze

namespace SmuxSession

variable {setting : Setting} {s t : SmuxSession}

/-- The part of a session its invariants are about. -/
def standing (s : SmuxSession) : (Bool × List (UInt32 × ℕ)) × List SmuxStream × List Frame :=
  ((s.closed, s.streams), s.objects, s.frames)

/-- A relation `R` between a stream and what comes of a function of it holds for every
function a session runs. -/
structure Conduct (config : BaseConfig) (R : SmuxStream → Outcome → Prop) : Prop where
  start : ∀ (r : SmuxStream) (kind : SmuxStream.Start), R r (r.start kind).quiet
  close : ∀ r : SmuxStream, R r r.close
  onFin : ∀ r : SmuxStream, R r (r.onFin config)
  onData : ∀ (r : SmuxStream) (payload : Bytes), R r (r.onData payload)
  onUpdate : ∀ (r : SmuxStream) (consumed window : UInt32),
    R r (r.onUpdate config consumed window)
  complete : ∀ (r : SmuxStream) (c : SmuxStream.Completion) (o : Outcome),
    r.complete config c = some o → R r o

theorem Conduct.and {config : BaseConfig} {R R' : SmuxStream → Outcome → Prop}
    (h : Conduct config R) (h' : Conduct config R') :
    Conduct config fun r o => R r o ∧ R' r o where
  start r kind := ⟨h.start r kind, h'.start r kind⟩
  close r := ⟨h.close r, h'.close r⟩
  onFin r := ⟨h.onFin r, h'.onFin r⟩
  onData r payload := ⟨h.onData r payload, h'.onData r payload⟩
  onUpdate r consumed window := ⟨h.onUpdate r consumed window, h'.onUpdate r consumed window⟩
  complete r c o ho := ⟨h.complete r c o ho, h'.complete r c o ho⟩

/-- A session runs no function of a stream but these. -/
theorem Conduct.of_reaction {config : BaseConfig} {R : SmuxStream → Outcome → Prop}
    (hR : SmuxStream.Reaction config R) : Conduct config R where
  start := hR.start
  close := hR.close
  onFin := hR.onFin
  onData := hR.onData
  onUpdate := hR.onUpdate
  complete _ _ _ ho := hR.complete ho

/-- What an invariant `I` of a session has to survive. -/
structure Upkeep (setting : Setting) (R : SmuxStream → Outcome → Prop)
    (I : SmuxSession → Prop) : Prop where
  conduct : Conduct setting.config R
  congr : ∀ s t : SmuxSession, t.standing = s.standing → I s → I t
  settle : ∀ (s : SmuxSession) (index : ℕ) (r : SmuxStream) (o : Outcome), I s →
    s.objects[index]? = some r → R r o → I (s.settle setting index o)
  shut : ∀ s : SmuxSession, I s →
    I { s with closed := true, keepaliveTimer := none, streams := [] }
  add : ∀ (s : SmuxSession) (streamId : UInt32), I s → s.closed = false →
    s.streams.lookup streamId = none → I (s.addStream setting streamId)
  nop : ∀ s : SmuxSession, I s → I (s.sendFrame setting .nop 0 [])

namespace Upkeep

variable {R : SmuxStream → Outcome → Prop} {I : SmuxSession → Prop}

theorem onObject (hI : Upkeep setting R I) (h : I s) (index : ℕ) {fn : SmuxStream → Outcome}
    (hfn : ∀ r, R r (fn r)) : I (s.onObject setting index fn) := by
  rw [SmuxSession.onObject.eq_def]
  split
  · next r hr => exact hI.settle s index r _ h hr (hfn r)
  · exact h

theorem onStream (hI : Upkeep setting R I) (h : I s) (streamId : UInt32)
    {fn : SmuxStream → Outcome} (hfn : ∀ r, R r (fn r)) :
    I (s.onStream setting streamId fn) := by
  rw [SmuxSession.onStream.eq_def]
  split
  · exact hI.onObject h _ hfn
  · exact h

/-! ### Closing -/

theorem closeObjects (hI : Upkeep setting R I) (h : I s) (entries : List (UInt32 × ℕ)) :
    I (entries.foldl (fun s entry => s.onObject setting entry.2 SmuxStream.close) s) := by
  induction entries generalizing s with
  | nil => exact h
  | cons entry entries ih => exact ih (hI.onObject h entry.2 hI.conduct.close)

theorem close (hI : Upkeep setting R I) (h : I s) : I (s.close setting) := by
  rw [SmuxSession.close]
  split_ifs
  · exact h
  · refine hI.congr _ _ ?_ (hI.closeObjects (hI.shut s h) s.streams)
    rfl

theorem protocolError (hI : Upkeep setting R I) (h : I s) (message : String) :
    I (s.protocolError setting message) :=
  hI.close (hI.congr s { s with protocolErrorMessage := some message } rfl h)

/-! ### Receiving -/

theorem accept (hI : Upkeep setting R I) (h : I s) (index : ℕ) :
    I (s.accept setting index) := by
  rw [SmuxSession.accept.eq_def]
  split
  · next kind _ => exact hI.onObject h index fun r => hI.conduct.start r kind
  · exact h

/-- One incoming frame. -/
theorem dispatch (hI : Upkeep setting R I) (h : I s) (hopen : s.closed = false)
    (frame : Frame) : I (s.dispatch setting frame) := by
  have hnoted : I { s with dispatched := s.dispatched ++ [frame] } := hI.congr s _ rfl h
  simp only [SmuxSession.dispatch]
  split
  · exact hnoted
  · split_ifs with hknown
    · exact hnoted
    · exact hI.accept
        (hI.add _ frame.streamId hnoted hopen (Option.not_isSome_iff_eq_none.mp hknown)) _
  · exact hI.onStream hnoted _ hI.conduct.onFin
  · exact hI.onStream hnoted _ fun r => hI.conduct.onData r frame.payload
  · exact hI.onStream hnoted _ fun r => hI.conduct.onUpdate r _ _

/-- Induction on the fuel: every round is a dispatch on an open session, or ends the loop. -/
theorem consumeLoop (hI : Upkeep setting R I) (fuel : ℕ) (h : I s) :
    I (consumeLoop setting fuel s) := by
  induction fuel generalizing s with
  | zero => exact h
  | succ fuel ih =>
      rw [SmuxSession.consumeLoop]
      split_ifs with hclosed
      · exact h
      · split
        · exact h
        · exact hI.protocolError h _
        · next frame size _ =>
          have hopen : s.closed = false := Bool.eq_false_iff.mpr hclosed
          exact ih (hI.congr (s.dispatch setting frame) _ rfl (hI.dispatch h hopen frame))

theorem consumeStreamBytes (hI : Upkeep setting R I) (h : I s) (bytes : Bytes) :
    I (s.consumeStreamBytes setting bytes) := by
  rw [SmuxSession.consumeStreamBytes]
  split_ifs
  · exact hI.protocolError h _
  · exact hI.consumeLoop _ (hI.congr s _ rfl h)

theorem consumeChunks (hI : Upkeep setting R I) (h : I s) (chunks : List Bytes) :
    I (chunks.foldl (SmuxSession.consumeStreamBytes setting) s) := by
  induction chunks generalizing s with
  | nil => exact h
  | cons chunk chunks ih => exact ih (hI.consumeStreamBytes h chunk)

/-- **An arrival of any bytes.** -/
theorem onTransportBytes (hI : Upkeep setting R I) (h : I s) (now : ℕ) (bytes : Bytes) :
    I (s.onTransportBytes setting now bytes) := by
  by_cases hignored : s.closed ∨ bytes = []
  · rw [onTransportBytes_of_ignored hignored]
    exact h
  · rw [not_or, Bool.not_eq_true] at hignored
    have hunpack : I (s.unpack setting now bytes).1 := by
      refine hI.congr s _ ?_ h
      rw [unpack]
      split_ifs <;> rfl
    rw [onTransportBytes_eq hignored.1 now hignored.2]
    split
    · exact hI.consumeChunks hunpack _
    · exact hI.protocolError hunpack _

/-! ### Everything else -/

theorem keepaliveTick (hI : Upkeep setting R I) (h : I s) (now : ℕ) :
    I (s.keepaliveTick setting now) := by
  have hsent := hI.nop s h
  simp only [SmuxSession.keepaliveTick]
  split_ifs
  · exact h
  · exact hI.close hsent
  · refine hI.congr _ _ ?_ hsent
    rw [startKeepaliveTimer]
    split_ifs <;> rfl

/-- **Everything but an arrival**, given that the invariant survives `open_stream`. -/
theorem act (hI : Upkeep setting R I) (h : I s) {now : ℕ} {e : SessionEvent}
    (hopen : ∀ (kind : SmuxStream.Start) (f : SmuxSession) (index : ℕ), e = .openStream kind →
      s.openStream setting = .ok (f, index) → I f)
    (hact : s.act setting now e = some t) : I t := by
  cases e with
  | openStream kind =>
      simp only [SmuxSession.act] at hact
      split at hact
      · next f index hok =>
        obtain rfl := Option.some.inj hact
        exact hI.onObject (hopen kind f index rfl hok) index fun r => hI.conduct.start r kind
      · exact absurd hact (by simp)
  | completion index c =>
      simp only [SmuxSession.act, Option.bind_eq_some_iff, Option.map_eq_some_iff] at hact
      obtain ⟨r, hr, o, ho, rfl⟩ := hact
      exact hI.settle s index r o h hr (hI.conduct.complete r c o ho)
  | closeStream index =>
      obtain rfl := Option.some.inj hact
      exact hI.onObject h index hI.conduct.close
  | keepalive =>
      simp only [SmuxSession.act] at hact
      split_ifs at hact
      obtain rfl := Option.some.inj hact
      exact hI.keepaliveTick (hI.congr s { s with keepaliveTimer := none } rfl h) now
  | close =>
      obtain rfl := Option.some.inj hact
      exact hI.close h

end Upkeep

end SmuxSession

end Shimakaze
