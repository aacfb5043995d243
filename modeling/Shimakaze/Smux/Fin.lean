import Shimakaze.Smux.Traffic

/-!
# The Last Frame of a Stream

A FIN announces that nothing more will be sent: the peer shuts down the send side of its
local socket on it. `send_local_fin` sends at most one, guarded by `local_fin_sent_`, and
no read is started after it. The flush has no such guard: a read that was outstanding when
a write error sent the FIN, or a window update that frees bytes which waited for credit,
still sends them.

## Main results

* `flushes_calls`, `FinStep`: what an event sends — PSH frames if it flushes, at most a FIN
  otherwise.
* `always_finalFin_iff`: **the FIN of a run is its last frame, at every moment, exactly when
  no event of the run flushes sendable bytes after it.**
-/

namespace Shimakaze

/-- No FIN and no PSH after a FIN. -/
def FinalFin (calls : List SessionCall) : Prop :=
  calls.Pairwise fun earlier later => earlier.isFin → ¬ later.isFin ∧ ¬ later.isPsh

/-- A FIN in front makes the rest free of FIN and PSH; without one the rest decides. -/
theorem finalFin_append {a b : List SessionCall} (ha : FinalFin a) (hb : FinalFin b)
    (hab : (∃ call ∈ a, call.isFin) → ∀ call ∈ b, ¬ call.isFin ∧ ¬ call.isPsh) :
    FinalFin (a ++ b) :=
  List.pairwise_append.mpr ⟨ha, hb, fun x hx y hy hfin => hab ⟨x, hx, hfin⟩ y hy⟩

/-- Calls without a FIN. -/
theorem finalFin_of_no_fin {calls : List SessionCall} (h : ∀ call ∈ calls, ¬ call.isFin) :
    FinalFin calls :=
  (List.pairwise_of_forall fun _ _ => trivial).imp_of_mem
    (fun hx _ _ hfin => absurd hfin (h _ hx))

namespace SmuxStream

variable {config : BaseConfig} {s : SmuxStream}

/-! ### Events that do not flush -/

/-- What a function without a flush sends on a stream with the two flags `fin`
(`local_fin_sent_`) and `alive`: no PSH, and a FIN only as the one that sets the flag. -/
structure FinStep (fin alive : Bool) (o : Outcome) : Prop where
  noPsh : ∀ call ∈ o.calls, ¬ call.isPsh
  alive_eq : o.stream.sessionAlive = alive
  fin_or : (o.stream.localFinSent = fin ∧ ∀ call ∈ o.calls, ¬ call.isFin) ∨
    (fin = false ∧ o.stream.localFinSent ∧ FinalFin o.calls ∧
      (alive → ∃ call ∈ o.calls, call.isFin))

/-- A function that makes only calls other than frames. -/
theorem FinStep.of_calls {fin alive : Bool} {o : Outcome} (hfin : o.stream.localFinSent = fin)
    (halive : o.stream.sessionAlive = alive)
    (hcalls : ∀ call ∈ o.calls, ¬ call.isFin ∧ ¬ call.isPsh) : FinStep fin alive o where
  noPsh call h := (hcalls call h).2
  alive_eq := halive
  fin_or := Or.inl ⟨hfin, fun call h => (hcalls call h).1⟩

/-- A function that makes no calls. -/
theorem FinStep.quiet {fin alive : Bool} (hfin : s.localFinSent = fin)
    (halive : s.sessionAlive = alive) : FinStep fin alive s.quiet :=
  FinStep.of_calls hfin halive (by simp)

/-- Functions in sequence: a FIN of the first sets the flag the second sees. -/
theorem FinStep.andThen {fin alive : Bool} {o : Outcome} {f : SmuxStream → Outcome}
    (ho : FinStep fin alive o)
    (hf : ∀ t : SmuxStream, FinStep t.localFinSent t.sessionAlive (f t)) :
    FinStep fin alive (o.andThen f) := by
  obtain ⟨hpsh, halive, hfin⟩ := ho
  obtain ⟨hpsh', halive', hfin'⟩ := hf o.stream
  rw [halive] at halive' hfin'
  have hnoPsh : ∀ call ∈ o.calls ++ (f o.stream).calls, ¬ call.isPsh := by
    intro call h
    rcases List.mem_append.mp h with h | h
    · exact hpsh call h
    · exact hpsh' call h
  refine ⟨hnoPsh, halive', ?_⟩
  rcases hfin with ⟨hflag, hno⟩ | ⟨hunset, hset, hfinal, hsent⟩
  · rw [hflag] at hfin'
    rcases hfin' with ⟨hflag', hno'⟩ | ⟨hunset', hset', hfinal', hsent'⟩
    · refine Or.inl ⟨hflag', fun call h => ?_⟩
      rcases List.mem_append.mp h with h | h
      · exact hno call h
      · exact hno' call h
    · refine Or.inr ⟨hunset', hset', ?_, fun ha => ?_⟩
      · exact finalFin_append (finalFin_of_no_fin hno) hfinal'
          fun ⟨call, h, hcall⟩ => absurd hcall (hno call h)
      · obtain ⟨call, h, hcall⟩ := hsent' ha
        exact ⟨call, List.mem_append_right _ h, hcall⟩
  · rcases hfin' with ⟨hflag', hno'⟩ | ⟨hunset', -⟩
    · refine Or.inr ⟨hunset, hflag'.trans hset, ?_, fun ha => ?_⟩
      · exact finalFin_append hfinal (finalFin_of_no_fin hno')
          fun _ call h => ⟨hno' call h, hpsh' call h⟩
      · obtain ⟨call, h, hcall⟩ := hsent ha
        exact ⟨call, List.mem_append_left _ h, hcall⟩
    · exact absurd (hunset'.symm.trans hset) (by decide)

section flags

variable {fin alive : Bool} (hfin : s.localFinSent = fin) (halive : s.sessionAlive = alive)

include hfin halive

theorem sendLocalFin_finStep : FinStep fin alive s.sendLocalFin := by
  subst hfin halive
  cases hset : s.localFinSent with
  | true =>
      rw [sendLocalFin, if_pos (Or.inl hset)]
      exact FinStep.quiet hset rfl
  | false =>
      cases hclosed : s.closed with
      | true =>
          rw [sendLocalFin, if_pos (Or.inr hclosed)]
          exact FinStep.quiet hset rfl
      | false =>
          rw [sendLocalFin, if_neg (by simp [hset, hclosed])]
          refine ⟨?_, rfl, Or.inr ⟨rfl, rfl, ?_, ?_⟩⟩
          · cases s.sessionAlive <;> simp [SessionCall.isPsh]
          · cases s.sessionAlive <;> simp [FinalFin]
          · intro halive
            simp [halive, SessionCall.isFin]

theorem maybeFinish_finStep : FinStep fin alive (maybeFinish config s) := by
  obtain ⟨timer, h⟩ := maybeFinish_eq config s
  rw [h]
  exact FinStep.quiet hfin halive

/-- The end of the error branches: the FIN, and perhaps the close timer. -/
theorem sendLocalFin_maybeFinish_finStep :
    FinStep fin alive (s.sendLocalFin.andThen (maybeFinish config)) :=
  (sendLocalFin_finStep hfin halive).andThen fun _ => maybeFinish_finStep rfl rfl

theorem close_finStep : FinStep fin alive s.close := by
  rw [close]
  split_ifs
  · exact FinStep.quiet hfin halive
  · refine (sendLocalFin_finStep hfin halive).andThen fun t => FinStep.of_calls rfl rfl ?_
    cases t.sessionAlive <;> simp [SessionCall.isFin, SessionCall.isPsh]

theorem markPayloadConsumed_finStep (bytes : ℕ) :
    FinStep fin alive (markPayloadConsumed config s bytes) := by
  obtain ⟨numRead, incr, h⟩ := markPayloadConsumed_stream config s bytes
  refine FinStep.of_calls (by rw [h]; exact hfin) (by rw [h]; exact halive) ?_
  intro call hcall
  obtain ⟨consumed, window, rfl⟩ := markPayloadConsumed_calls config s bytes call hcall
  simp [SessionCall.isFin, SessionCall.isPsh]

theorem readErrorHandler_finStep (error : ErrorCode) :
    FinStep fin alive (readErrorHandler config s error) := by
  rw [readErrorHandler]
  split_ifs
  · exact sendLocalFin_maybeFinish_finStep hfin halive
  · exact close_finStep hfin halive

theorem writeHandler_finStep : FinStep fin alive (writeHandler config s) := by
  rw [writeHandler]
  refine FinStep.andThen (markPayloadConsumed_finStep (by exact hfin) (by exact halive) _)
    fun t => ?_
  exact maybeFinish_finStep (by simp) (by simp)

theorem writeErrorHandler_finStep (error : ErrorCode) :
    FinStep fin alive (writeErrorHandler config s error) := by
  unfold writeErrorHandler
  simp only
  split_ifs
  · exact sendLocalFin_maybeFinish_finStep hfin halive
  · exact close_finStep hfin halive

theorem resolveHandler_finStep (error : Option ErrorCode) :
    FinStep fin alive (resolveHandler s error) := by
  cases error with
  | some error => exact close_finStep hfin halive
  | none => exact FinStep.quiet hfin halive

theorem connectHandler_finStep (error : Option ErrorCode) :
    FinStep fin alive (connectHandler s error) := by
  cases error with
  | some error => exact close_finStep hfin halive
  | none => exact FinStep.quiet (by simpa using hfin) (by simpa using halive)

theorem onData_finStep (payload : Bytes) : FinStep fin alive (s.onData payload) := by
  rw [onData]
  split_ifs
  · exact FinStep.quiet hfin halive
  · exact FinStep.quiet (by simpa [enqueueTcpWrite] using hfin)
      (by simpa [enqueueTcpWrite] using halive)

theorem onFin_finStep : FinStep fin alive (s.onFin config) := by
  rw [onFin]
  split_ifs
  · exact FinStep.quiet hfin halive
  · exact maybeFinish_finStep (by simpa using hfin) (by simpa using halive)

end flags

/-! ### Events that flush -/

/-- A flush finds something to send and may send it. -/
def CanSend (config : BaseConfig) (s : SmuxStream) : Prop :=
  s.sessionAlive ∧ s.closed = false ∧ s.outboundBytes ≠ [] ∧
    ¬ (config.flowControlled ∧ s.availablePeerWindow ≤ 0)

/-- **What a flush sends**: PSH frames only, and one exactly when it can send. -/
theorem flushes_calls (config : BaseConfig) (t : SmuxStream) :
    (∀ call ∈ (tryFlushOutbound config t).calls, call.isPsh ∧ ¬ call.isFin) ∧
      ((tryFlushOutbound config t).calls = [] ↔ ¬ t.CanSend config) := by
  by_cases hdead : t.sessionAlive = false ∨ t.closed
  · rw [tryFlushOutbound_of_dead hdead]
    refine ⟨by simp, fun _ hsend => ?_, fun _ => rfl⟩
    rcases hdead with h | h
    · exact absurd hsend.1 (by simp [h])
    · exact absurd (hsend.2.1.symm.trans h) (by decide)
  · rw [not_or, Bool.not_eq_false, Bool.not_eq_true] at hdead
    obtain ⟨pieces, hf⟩ := tryFlushOutbound_flushed config hdead.1 hdead.2
    constructor
    · intro call hcall
      rw [hf.calls, List.mem_map] at hcall
      obtain ⟨piece, -, rfl⟩ := hcall
      simp [SessionCall.isPsh, SessionCall.isFin]
    · have hnil : (tryFlushOutbound config t).calls = [] ↔ pieces = [] := by
        rw [hf.calls, List.map_eq_nil_iff]
        have hlen := congrArg List.length
          (map_length_cipherPieces t.qpp.pad t.qpp.writeRand pieces)
        rw [List.length_map, List.length_map] at hlen
        rw [← List.length_eq_zero_iff, hlen, List.length_eq_zero_iff]
      rw [hnil, hf.pieces_eq_nil_iff]
      simp only [CanSend, hdead.1, hdead.2, true_and, not_and, ne_eq]
      tauto

/-- An event that does not flush, apart from the end of the session. -/
theorem react_finStep {e : StreamEvent} {o : Outcome} (hflush : s.flushInput e = none)
    (he : e ≠ .sessionExpired) (hreact : s.react config e = some o) :
    FinStep s.localFinSent s.sessionAlive o := by
  cases e with
  | completion c =>
      cases c with
      | readStored data =>
          obtain ⟨-, reads, -, rfl⟩ := react_readStored.mp hreact
          exact FinStep.quiet rfl rfl
      | readDone =>
          obtain ⟨own, ops, hreads, -⟩ := react_readDone.mp hreact
          exact absurd hflush (by simp [flushInput, hreads])
      | readFailed error =>
          obtain ⟨ops, -, rfl⟩ := react_readFailed.mp hreact
          exact readErrorHandler_finStep (by rfl) (by rfl) error
      | writeDone =>
          obtain ⟨-, rfl⟩ := react_writeDone.mp hreact
          exact writeHandler_finStep rfl rfl
      | writeFailed error =>
          obtain ⟨-, rfl⟩ := react_writeFailed.mp hreact
          exact writeErrorHandler_finStep rfl rfl error
      | resolved error =>
          obtain ⟨-, rfl⟩ := react_resolved.mp hreact
          exact resolveHandler_finStep rfl rfl error
      | connected error =>
          obtain ⟨-, rfl⟩ := react_connected.mp hreact
          exact connectHandler_finStep rfl rfl error
      | closeTimerExpired =>
          obtain ⟨-, rfl⟩ := react_closeTimerExpired.mp hreact
          exact close_finStep rfl rfl
  | data payload =>
      obtain ⟨-, -, rfl⟩ := react_data.mp hreact
      exact onData_finStep rfl rfl payload
  | fin =>
      obtain ⟨-, -, rfl⟩ := react_fin.mp hreact
      exact onFin_finStep rfl rfl
  | update consumed window => exact absurd hflush (by simp [flushInput])
  | close =>
      obtain rfl := react_close.mp hreact
      exact close_finStep rfl rfl
  | sessionExpired => exact absurd rfl he

/-- Only the end of the session takes the session away. -/
theorem react_sessionAlive {e : StreamEvent} {o : Outcome} (he : e ≠ .sessionExpired)
    (hreact : s.react config e = some o) : o.stream.sessionAlive = s.sessionAlive := by
  cases hinput : s.flushInput e with
  | none => exact (react_finStep hinput he hreact).alive_eq
  | some t =>
      obtain rfl := react_of_flushInput hinput hreact
      have halive := flush_readOn_view config t sessionAlive (fun _ _ _ => rfl) (by simp)
      exact halive.trans (flushInput_flags hinput).2.1

/-! ### Runs -/

/-- An event does not flush sendable bytes after the FIN. -/
def NoLateFlush (config : BaseConfig) (s : SmuxStream) (e : StreamEvent) : Prop :=
  s.localFinSent → ∀ t, s.flushInput e = some t → ¬ t.CanSend config

end SmuxStream

open SmuxStream

/-- The invariant of a run: the FIN is final, and the flag tells whether it was sent; only
on a stream that has lost its session may the flag be set without a FIN. -/
structure FinInv (r : StreamRun) : Prop where
  final : FinalFin r.calls
  flagged : (∃ call ∈ r.calls, call.isFin) → r.stream.localFinSent
  sent : r.stream.localFinSent → r.stream.sessionAlive → ∃ call ∈ r.calls, call.isFin

variable {config : BaseConfig} {r : StreamRun} {e : StreamEvent} {o : Outcome}

/-- A flush that finds nothing sendable after the FIN keeps the invariant. -/
theorem FinInv.flush (h : FinInv r) {t : SmuxStream} (hinput : r.stream.flushInput e = some t)
    (hlate : r.stream.localFinSent → ¬ t.CanSend config) :
    FinInv ⟨((tryFlushOutbound config t).andThen readOn).stream,
      r.calls ++ ((tryFlushOutbound config t).andThen readOn).calls⟩ := by
  obtain ⟨hfin, halive, -⟩ := flushInput_flags hinput
  have hfin' := flush_readOn_view config t localFinSent (fun _ _ _ => rfl) (by simp)
  have halive' := flush_readOn_view config t sessionAlive (fun _ _ _ => rfl) (by simp)
  obtain ⟨hpsh, hnil⟩ := flushes_calls config t
  rw [Outcome.andThen_calls, readOn_calls, List.append_nil]
  refine ⟨?_, ?_, ?_⟩
  · refine finalFin_append h.final (finalFin_of_no_fin fun call hc => (hpsh call hc).2) ?_
    intro hfinned
    rw [hnil.mpr (hlate (h.flagged hfinned))]
    simp
  · rintro ⟨call, hc, hcall⟩
    rcases List.mem_append.mp hc with hc | hc
    · exact (hfin'.trans hfin).trans (h.flagged ⟨call, hc, hcall⟩)
    · exact absurd hcall (hpsh call hc).2
  · intro hset hal
    obtain ⟨call, hc, hcall⟩ := h.sent ((hfin'.trans hfin).symm.trans hset)
      ((halive'.trans halive).symm.trans hal)
    exact ⟨call, List.mem_append_left _ hc, hcall⟩

/-- So does an event that does not flush. -/
theorem FinInv.finStep (h : FinInv r)
    (hstep : FinStep r.stream.localFinSent r.stream.sessionAlive o) :
    FinInv ⟨o.stream, r.calls ++ o.calls⟩ := by
  obtain ⟨hpsh, halive, hfin⟩ := hstep
  rcases hfin with ⟨hflag, hno⟩ | ⟨hunset, hset, hfinal, hsent⟩
  · refine ⟨?_, ?_, ?_⟩
    · exact finalFin_append h.final (finalFin_of_no_fin hno)
        fun _ call hc => ⟨hno call hc, hpsh call hc⟩
    · rintro ⟨call, hc, hcall⟩
      rcases List.mem_append.mp hc with hc | hc
      · exact hflag.trans (h.flagged ⟨call, hc, hcall⟩)
      · exact absurd hcall (hno call hc)
    · intro hset hal
      obtain ⟨call, hc, hcall⟩ := h.sent (hflag.symm.trans hset) (halive.symm.trans hal)
      exact ⟨call, List.mem_append_left _ hc, hcall⟩
  · refine ⟨?_, fun _ => hset, ?_⟩
    · refine finalFin_append h.final hfinal fun hfinned => ?_
      exact absurd (hunset.symm.trans (h.flagged hfinned)) (by decide)
    · intro _ hal
      obtain ⟨call, hc, hcall⟩ := hsent (halive.symm.trans hal)
      exact ⟨call, List.mem_append_right _ hc, hcall⟩

/-- **Every event without a late flush keeps the invariant.** -/
theorem FinInv.react (h : FinInv r) (hlate : r.stream.NoLateFlush config e)
    (hreact : r.stream.react config e = some o) : FinInv ⟨o.stream, r.calls ++ o.calls⟩ := by
  cases hinput : r.stream.flushInput e with
  | some t =>
      obtain rfl := react_of_flushInput hinput hreact
      exact h.flush hinput fun hset => hlate hset t hinput
  | none =>
      by_cases he : e = .sessionExpired
      · rw [he] at hreact
        obtain rfl := react_sessionExpired.mp hreact
        refine ⟨?_, ?_, ?_⟩
        · simpa using h.final
        · simpa using h.flagged
        · intro _ hal
          exact absurd hal (by simp)
      · exact h.finStep (react_finStep hinput he hreact)

/-- A late flush sends a PSH after the FIN. -/
theorem FinInv.late (h : FinInv r) (hlate : ¬ r.stream.NoLateFlush config e)
    (hreact : r.stream.react config e = some o) : ¬ FinalFin (r.calls ++ o.calls) := by
  simp only [NoLateFlush, not_forall, not_not] at hlate
  obtain ⟨hset, t, hinput, hsend⟩ := hlate
  obtain rfl := react_of_flushInput hinput hreact
  obtain ⟨hpsh, hnil⟩ := flushes_calls config t
  have halive : r.stream.sessionAlive := (flushInput_flags hinput).2.1.symm.trans hsend.1
  obtain ⟨fin, hmem, hfin⟩ := h.sent hset halive
  cases hcalls : (tryFlushOutbound config t).calls with
  | nil => exact absurd hsend (hnil.mp hcalls)
  | cons psh rest =>
      have hmem' : psh ∈ (tryFlushOutbound config t).calls := by simp [hcalls]
      intro hfinal
      rw [Outcome.andThen_calls, readOn_calls, List.append_nil] at hfinal
      have hcross := (List.pairwise_append.mp hfinal).2.2 fin hmem psh hmem' hfin
      exact hcross.2 (hpsh psh hmem').1

/-- A stream that was only started has sent nothing. -/
theorem startedStream_finInv (prims : QppPrims) (config : BaseConfig) (pad : Option QppPad)
    (id : UInt32) (kind : SmuxStream.Start) : FinInv (startedStream prims config pad id kind) := by
  have hunset : ((SmuxStream.make prims config pad id).start kind).localFinSent = false := by
    cases kind <;> simp [start, make]
  refine ⟨List.Pairwise.nil, ?_, ?_⟩
  · rintro ⟨call, hc, -⟩
    exact absurd hc (by simp [startedStream])
  · intro hset
    exact absurd (hunset.symm.trans hset) (by decide)

/-- **The exact condition for a final FIN.** However a stream is started, at every moment of
a run its frames hold at most one FIN and no PSH after it, exactly when no read handler and
no window update of the run flushes, after the FIN, on an open stream of a live session
with bytes queued and credit left. -/
theorem always_finalFin_iff (prims : QppPrims) (config : BaseConfig) (pad : Option QppPad)
    (id : UInt32) (kind : SmuxStream.Start) (es : List StreamEvent) :
    (streamMachine config).Always (fun r => FinalFin r.calls)
        (startedStream prims config pad id kind) es ↔
      (streamMachine config).Along (fun r e => r.stream.NoLateFlush config e)
        (startedStream prims config pad id kind) es := by
  refine EventMachine.always_iff_along (I := FinInv) (fun _ h => h.final) ?_ ?_
    (startedStream_finInv prims config pad id kind) es
  · intro r e r' h hlate hstep
    obtain ⟨o, hreact, rfl⟩ := streamMachine_step.mp hstep
    exact h.react hlate hreact
  · intro r e r' h hlate hstep
    obtain ⟨o, hreact, rfl⟩ := streamMachine_step.mp hstep
    exact h.late hlate hreact

/-- A write to a local client that stopped receiving fails with a broken pipe and sends the
FIN; the read that is still outstanding then delivers a byte, which is sent after it. -/
theorem read_after_write_error_sends_after_fin :
    ¬ (streamMachine {}).Always (fun r => FinalFin r.calls)
        (startedStream .uncalled {} none 3 .clientUnix)
        [.data [1], .completion (.writeFailed .brokenPipe), .completion (.readStored [7]),
          .completion .readDone] := by
  have hrun : (((streamMachine {}).run (startedStream .uncalled {} none 3 .clientUnix)
      [.data [1], .completion (.writeFailed .brokenPipe), .completion (.readStored [7]),
        .completion .readDone]).map fun r => r.calls) =
      some [.sendFrame .fin 3 [], .sendFrame .psh 3 [7]] := rfl
  obtain ⟨r, hr, hcalls⟩ := Option.map_eq_some_iff.mp hrun
  intro h
  have hfinal := EventMachine.always_iff.mp h _ [] r (List.append_nil _).symm hr
  rw [hcalls] at hfinal
  exact absurd hfinal (by simp [FinalFin, SessionCall.isFin, SessionCall.isPsh])

end Shimakaze
