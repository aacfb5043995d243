import Shimakaze.Smux.Drain
import Shimakaze.Smux.HalfClose
import Shimakaze.Smux.Reads
import Shimakaze.Smux.Traffic

/-!
# The Release of Finished Streams

A stream that both sides are done with is closed by its close timer, which `maybe_finish`
arms. The function checks that the write queue is empty and is called after a FIN was sent
or received and after a completed write. Two ways to the end of a stream pass it by: a
buffer whose write failed stays in the queue, which is then never empty again, and nothing
calls it when a flush empties the outbound queue after the local FIN.

`Released` says that a finished stream is closed or about to be closed. Whether a write has
failed is not recorded in the stream, so the runs here carry it beside the stream.

## Main results

* `Released.react`, `Leaks.not_released`: an event keeps a stream released exactly when it
  is not one of the events of `Leaks`.
* `always_released_iff`: **a run releases its stream at every moment exactly when no event
  of the run leaks.**
-/

namespace Shimakaze

/-- The read errors that end the local side without a failure. -/
def ErrorCode.EndsReading (error : ErrorCode) : Prop :=
  error = .eof ∨ error = .connectionReset ∨ error = .operationAborted

/-- The write errors that end the local side without a failure. -/
def ErrorCode.EndsWriting (error : ErrorCode) : Prop :=
  error = .operationAborted ∨ error = .connectionReset ∨ error = .brokenPipe

/-- A write to the local socket ends with an error. -/
def StreamEvent.isWriteError : StreamEvent → Bool
  | .completion (.writeFailed _) => true
  | _ => false

/-- A run of a stream, and whether a write to the local socket has failed in it. -/
structure WatchedRun where
  run : StreamRun
  writeFailed : Bool := false

/-- The life of one stream, watched for failed writes. -/
def watchedMachine (config : BaseConfig) : EventMachine WatchedRun StreamEvent where
  step w e :=
    ((streamMachine config).step w.run e).map fun run => ⟨run, e.isWriteError || w.writeFailed⟩

/-- A step of the watched machine is a reaction of the stream. -/
theorem watchedMachine_step {config : BaseConfig} {w w' : WatchedRun} {e : StreamEvent} :
    (watchedMachine config).step w e = some w' ↔
      ∃ o, w.run.stream.react config e = some o ∧
        w' = ⟨⟨o.stream, w.run.calls ++ o.calls⟩, e.isWriteError || w.writeFailed⟩ := by
  simp only [watchedMachine, Option.map_eq_some_iff, streamMachine_step]
  constructor
  · rintro ⟨run, ⟨o, hreact, rfl⟩, rfl⟩
    exact ⟨o, hreact, rfl⟩
  · rintro ⟨o, hreact, rfl⟩
    exact ⟨_, ⟨o, hreact, rfl⟩, rfl⟩

namespace SmuxStream

/-! ### Finished and released streams -/

/-- Both FINs are there, the socket is idle, and everything received has been written as
far as it can be. -/
structure Settled (s : SmuxStream) (writeFailed : Bool) : Prop where
  localFin : s.localFinSent
  remoteFin : s.remoteFinReceived
  reads : s.reads = []
  write : s.tcpWriteActive = false
  written : s.pendingTcpWrites = [] ∨ writeFailed

/-- Settled, with nothing left to send: both sides are done with the stream. -/
structure Finished (s : SmuxStream) (writeFailed : Bool) : Prop
    extends Settled s writeFailed where
  outbound : s.pendingOutbound = []

/-- A finished stream is closed, or its close timer is armed. -/
def Released (s : SmuxStream) (writeFailed : Bool) : Prop :=
  s.Finished writeFailed → s.closed ∨ s.closeTimer.isSome

/-- The events that finish an open stream and do not arm its close timer: the error of a
write that ends the local side, the end of the reads or the peer's FIN behind a failed
write, and a flush that empties the outbound queue. -/
def Leaks (config : BaseConfig) (s : SmuxStream) (writeFailed : Bool) (e : StreamEvent) :
    Prop :=
  s.closed = false ∧ s.closeTimer = none ∧
    match e with
    | .completion (.writeFailed error) =>
        error.EndsWriting ∧ s.remoteFinReceived ∧ s.reads = [] ∧ s.pendingOutbound = []
    | .completion (.readFailed error) =>
        error.EndsReading ∧ s.remoteFinReceived ∧ s.reads = [.waiting] ∧
          s.tcpWriteActive = false ∧ s.pendingOutbound = [] ∧ writeFailed ∧
          s.pendingTcpWrites ≠ []
    | .fin =>
        s.localFinSent ∧ s.remoteFinReceived = false ∧ s.reads = [] ∧
          s.tcpWriteActive = false ∧ s.pendingOutbound = [] ∧ writeFailed ∧
          s.pendingTcpWrites ≠ []
    | e => ∃ t, s.flushInput e = some t ∧ t.Settled writeFailed ∧ t.Drains config

/-- A write is active only on a connected socket and a queue that is not empty. -/
def WriteReady (s : SmuxStream) : Prop :=
  s.tcpWriteActive → s.tcpReady ∧ s.pendingTcpWrites ≠ []

variable {config : BaseConfig} {s t : SmuxStream} {writeFailed : Bool} {e : StreamEvent}
  {o : Outcome}

/-! ### Active writes -/

theorem WriteReady.of_draining (h : s.draining = t.draining) (hs : WriteReady s) :
    WriteReady t := by
  obtain ⟨⟨hpending, hactive, -, -⟩, -, hready, -⟩ := draining_eq h
  rw [WriteReady, ← hactive, ← hpending, ← hready]
  exact hs

/-- A stream without an active write. -/
theorem WriteReady.of_idle (h : s.tcpWriteActive = false) : WriteReady s :=
  fun hactive => absurd (h.symm.trans hactive) (by decide)

/-- Starting the next write keeps to it, whatever was there before. -/
theorem WriteReady.flushTcpWrites (h : WriteReady s) : WriteReady s.flushTcpWrites := by
  rw [SmuxStream.flushTcpWrites]
  split_ifs with hcond
  · exact h
  · simp only [not_or, not_not] at hcond
    exact fun _ => ⟨hcond.2.1, hcond.2.2.2⟩

theorem shutdownTcpSendIfReady_writeReady (h : WriteReady s) :
    WriteReady s.shutdownTcpSendIfReady := by
  have hin := s.shutdownTcpSendIfReady_inbound
  have hready := s.shutdownTcpSendIfReady_readiness
  simp only [inbound, readiness, InboundView.mk.injEq, ReadinessView.mk.injEq] at hin hready
  rw [WriteReady, hin.1, hin.2.1, hready.1]
  exact h

theorem WriteReady.close (h : WriteReady s) : WriteReady s.close.stream := by
  have hview := s.close_view (fun s => (s.tcpWriteActive, s.tcpReady, s.pendingTcpWrites))
    fun _ _ _ _ _ _ => rfl
  simp only [Prod.mk.injEq] at hview
  rw [WriteReady, hview.1, hview.2.1, hview.2.2]
  exact h

/-- **Every event keeps active writes in order.** -/
theorem writeReady_receiving (config : BaseConfig) : Receiving config WriteReady where
  congr _ _ hst h := h.of_draining hst
  close _ h := h.close
  data s payload h := by
    rw [SmuxStream.onData]
    split_ifs
    · exact h
    · refine WriteReady.flushTcpWrites fun hactive => ⟨(h hactive).1, ?_⟩
      simp
  fin s h := by
    rw [SmuxStream.onFin]
    split_ifs
    · exact h
    · exact WriteReady.of_draining (maybeFinish_draining _).symm
        (shutdownTcpSendIfReady_writeReady h)
  written s h hactive := by
    refine WriteReady.of_draining (maybeFinish_draining _).symm
      (shutdownTcpSendIfReady_writeReady (WriteReady.flushTcpWrites ?_))
    exact WriteReady.of_draining (markPayloadConsumed_draining _ _).symm
      (WriteReady.of_idle rfl)
  unwritten s error h hactive := by
    simp only [writeErrorHandler]
    split_ifs
    · exact WriteReady.of_draining (sendLocalFin_maybeFinish_draining _).symm
        (WriteReady.of_idle rfl)
    · exact WriteReady.close (WriteReady.of_idle rfl)
  resolved s error h hres := by
    cases error with
    | some error => exact WriteReady.close h
    | none => exact h
  connected s error h hconn := by
    cases error with
    | some error => exact WriteReady.close h
    | none =>
        refine shutdownTcpSendIfReady_writeReady (WriteReady.of_draining
          (startTcpRead_draining _).symm (WriteReady.flushTcpWrites ?_))
        exact fun hactive => ⟨rfl, (h hactive).2⟩

/-! ### What arms the close timer -/

/-- A closed stream is released. -/
theorem released_of_closed (h : s.closed) : s.Released writeFailed := fun _ => Or.inl h

/-- A stream stays released as long as nothing is finished on it. -/
theorem Released.mono {writeFailed' : Bool} (h : s.Released writeFailed)
    (hfinished : t.Finished writeFailed' → s.Finished writeFailed)
    (hclosed : t.closed = s.closed) (htimer : t.closeTimer = s.closeTimer) :
    t.Released writeFailed' := by
  intro hfin
  rw [hclosed, htimer]
  exact h (hfinished hfin)

/-- Storing bytes for a read does not end it. -/
theorem storeRead_ne_nil {data : Bytes} {ops reads : List ReadOp}
    (h : storeRead data ops = some reads) : reads ≠ [] := by
  cases ops with
  | nil => exact absurd h (by simp [storeRead])
  | cons op ops =>
      cases op with
      | waiting =>
          obtain rfl := Option.some.inj h
          simp
      | stored own =>
          obtain ⟨rest, -, rfl⟩ := Option.map_eq_some_iff.mp h
          simp

/-- With a buffer in the write queue `maybe_finish` does nothing. -/
theorem maybeFinish_of_queued (h : s.pendingTcpWrites ≠ []) :
    maybeFinish config s = s.quiet := by
  rw [maybeFinish]
  split_ifs with hclosed hfin
  · rfl
  · exact absurd hfin.2.2.1 h
  · rfl

/-- With an empty write queue it releases a finished stream. -/
theorem maybeFinish_released (h : s.pendingTcpWrites = []) :
    (maybeFinish config s).stream.Released writeFailed := by
  obtain ⟨timer, htimer⟩ := maybeFinish_eq config s
  rintro ⟨⟨hlocal, hremote, -, hwrite, -⟩, hpending⟩
  rw [htimer] at hlocal hremote hwrite hpending
  have hidle : ¬ s.tcpWriteActive := (Bool.eq_false_iff (b := s.tcpWriteActive)).mp hwrite
  cases hclosed : s.closed with
  | true =>
      rw [htimer]
      exact Or.inl hclosed
  | false =>
      refine Or.inr ?_
      rw [maybeFinish, if_neg (by simp [hclosed]),
        if_pos ⟨hlocal, hremote, h, hidle, hpending⟩]
      rfl

/-- A connected stream with a queue is writing, unless it is closed. -/
theorem closed_of_flushTcpWrites_idle (hready : s.tcpReady) (hpending : s.pendingTcpWrites ≠ [])
    (hidle : s.flushTcpWrites.tcpWriteActive = false) : s.closed := by
  rw [flushTcpWrites] at hidle
  split_ifs at hidle with hcond
  rcases hcond with hclosed | hready' | hactive | hempty
  · exact hclosed
  · exact absurd hready hready'
  · exact absurd (hidle.symm.trans hactive) (by decide)
  · exact absurd hempty hpending

/-- After a completed write a finished stream is released. -/
theorem writeHandler_released (hready : s.tcpReady) :
    (writeHandler config s).stream.Released writeFailed := by
  simp only [writeHandler, Outcome.andThen_stream]
  set v := (markPayloadConsumed config
    { s with
      tcpWriteActive := false
      pendingTcpWrites := s.pendingTcpWrites.tail
      history := { s.history with
        written := s.history.written ++ s.pendingTcpWrites.headD [] } }
    (s.pendingTcpWrites.headD []).length).stream with hv
  have hvready : v.tcpReady := by
    obtain ⟨numRead, incr, h⟩ := markPayloadConsumed_stream config _ _
    rw [hv, h]
    exact hready
  have hin := v.flushTcpWrites.shutdownTcpSendIfReady_inbound
  simp only [inbound, InboundView.mk.injEq] at hin
  by_cases hqueue : v.flushTcpWrites.shutdownTcpSendIfReady.pendingTcpWrites = []
  · exact maybeFinish_released hqueue
  · rw [maybeFinish_of_queued hqueue, quiet_stream]
    intro hfin
    rw [hin.1, flushTcpWrites_pendingTcpWrites] at hqueue
    refine Or.inl ?_
    rw [shutdownTcpSendIfReady_closed, flushTcpWrites_closed]
    exact closed_of_flushTcpWrites_idle hvready hqueue (hin.2.1.symm.trans hfin.write)

/-! ### Flushes -/

/-- After the local FIN a flush starts no read. -/
theorem flush_readOn_of_localFin (hfin : t.localFinSent) :
    ((tryFlushOutbound config t).andThen readOn).stream = (tryFlushOutbound config t).stream := by
  obtain ⟨-, -, -, hfin'⟩ := tryFlushOutbound_reads config t
  rw [Outcome.andThen_stream]
  rcases (tryFlushOutbound config t).stream.readOn_eq with hr | ⟨-, hr⟩
  · rw [hr, quiet_stream]
  · rw [hr, quiet_stream, startTcpRead, if_pos]
    exact Or.inr (Or.inr (Or.inl (hfin'.trans hfin)))

/-- **What a flush finishes**: a settled stream whose queue it empties. -/
theorem flush_finished_iff (config : BaseConfig) (t : SmuxStream) (writeFailed : Bool) :
    ((tryFlushOutbound config t).andThen readOn).stream.Finished writeFailed ↔
      t.Settled writeFailed ∧ t.Drains config := by
  have hfin := flush_readOn_view config t localFinSent (fun _ _ _ => rfl) (by simp)
  obtain ⟨sent, pending, hsent⟩ := tryFlushOutbound_stream config t
  constructor
  · intro h
    have hlocal : t.localFinSent := hfin.symm.trans h.localFin
    rw [flush_readOn_of_localFin hlocal] at h
    have hdrains := (tryFlushOutbound_drains_iff config t).mp h.outbound
    rw [hsent] at h
    exact ⟨⟨hlocal, h.remoteFin, h.reads, h.write, h.written⟩, hdrains⟩
  · rintro ⟨h, hdrains⟩
    rw [flush_readOn_of_localFin h.localFin]
    have houtbound := (tryFlushOutbound_drains_iff config t).mpr hdrains
    rw [hsent] at houtbound ⊢
    exact ⟨⟨h.localFin, h.remoteFin, h.reads, h.write, h.written⟩, houtbound⟩

/-- A flush neither closes a stream nor touches its close timer, and the state it starts
from has both from the stream. -/
theorem flush_closing (hinput : s.flushInput e = some t) :
    ((tryFlushOutbound config t).andThen readOn).stream.closed = s.closed ∧
      ((tryFlushOutbound config t).andThen readOn).stream.closeTimer = s.closeTimer := by
  have hview := flush_readOn_view config t (fun t => (t.closed, t.closeTimer))
    (fun _ _ _ => rfl) (fun t => by rw [startTcpRead]; split_ifs <;> rfl)
  simp only [Prod.mk.injEq] at hview
  rw [hview.1, hview.2]
  refine ⟨(flushInput_flags hinput).2.2, ?_⟩
  rw [flushInput.eq_def] at hinput
  split at hinput
  · split at hinput
    · obtain rfl := Option.some.inj hinput
      rw [queueOutbound]
      split_ifs <;> rfl
    · exact absurd hinput (by simp)
  · obtain rfl := Option.some.inj hinput
    rfl
  · exact absurd hinput (by simp)

/-! ### The events -/

/-- Sending the FIN on an open stream. -/
theorem sendLocalFin_of_open (hopen : s.closed = false) :
    s.sendLocalFin.stream = { s with localFinSent := true } := by
  rw [sendLocalFin_stream, hopen, Bool.not_false, Bool.or_true]

/-- The end of the error branches on an open stream with an empty write queue. -/
theorem sendLocalFin_maybeFinish_released (hpending : s.pendingTcpWrites = []) :
    (s.sendLocalFin.andThen (maybeFinish config)).stream.Released writeFailed := by
  rw [Outcome.andThen_stream]
  refine maybeFinish_released ?_
  rw [sendLocalFin_stream]
  exact hpending

/-- The same with a buffer in the write queue: only the FIN goes out. -/
theorem sendLocalFin_maybeFinish_of_queued (hopen : s.closed = false)
    (hpending : s.pendingTcpWrites ≠ []) :
    (s.sendLocalFin.andThen (maybeFinish config)).stream = { s with localFinSent := true } := by
  rw [Outcome.andThen_stream, maybeFinish_of_queued, quiet_stream, sendLocalFin_of_open hopen]
  rw [sendLocalFin_stream]
  exact hpending

/-- The end of the error branches leaves a closed stream closed. -/
theorem sendLocalFin_maybeFinish_of_closed (hclosed : s.closed) :
    (s.sendLocalFin.andThen (maybeFinish config)).stream.Released writeFailed := by
  refine released_of_closed ?_
  rw [Outcome.andThen_stream, maybeFinish_view config _ closed fun _ _ => rfl,
    sendLocalFin_stream]
  exact hclosed

/-- A failed read. -/
theorem Released.readError {error : ErrorCode} {ops : List ReadOp}
    (hreads : s.reads = .waiting :: ops)
    (hleak : ¬ s.Leaks config writeFailed (.completion (.readFailed error))) :
    (readErrorHandler config { s with reads := ops } error).stream.Released writeFailed := by
  rw [readErrorHandler]
  split_ifs with herror
  · by_cases hclosed : s.closed
    · exact sendLocalFin_maybeFinish_of_closed hclosed
    have hopen : s.closed = false := Bool.eq_false_iff.mpr hclosed
    by_cases hpending : s.pendingTcpWrites = []
    · exact sendLocalFin_maybeFinish_released hpending
    · rw [sendLocalFin_maybeFinish_of_queued (s := { s with reads := ops }) hopen hpending]
      rintro ⟨⟨-, hremote, hops, hwrite, hwritten⟩, houtbound⟩
      refine Or.inr (Option.isSome_iff_ne_none.mpr fun htimer => hleak ⟨hopen, htimer, ?_⟩)
      simp only at hops
      rw [hops] at hreads
      exact ⟨herror, hremote, hreads, hwrite, houtbound, hwritten.resolve_left hpending,
        hpending⟩
  · exact released_of_closed (close_closed _)

/-- A failed write. -/
theorem Released.writeError {error : ErrorCode}
    (hleak : ¬ s.Leaks config writeFailed (.completion (.writeFailed error))) :
    (writeErrorHandler config s error).stream.Released true := by
  simp only [writeErrorHandler]
  split_ifs with herror
  · by_cases hclosed : s.closed
    · exact sendLocalFin_maybeFinish_of_closed hclosed
    have hopen : s.closed = false := Bool.eq_false_iff.mpr hclosed
    by_cases hpending : s.pendingTcpWrites = []
    · exact sendLocalFin_maybeFinish_released hpending
    · rw [sendLocalFin_maybeFinish_of_queued (s := { s with tcpWriteActive := false }) hopen
        hpending]
      rintro ⟨⟨-, hremote, hreads, -, -⟩, houtbound⟩
      refine Or.inr (Option.isSome_iff_ne_none.mpr fun htimer => hleak ⟨hopen, htimer, ?_⟩)
      exact ⟨herror, hremote, hreads, houtbound⟩
  · exact released_of_closed (close_closed _)

/-- The peer's FIN. -/
theorem Released.onFin (h : s.Released writeFailed)
    (hleak : ¬ s.Leaks config writeFailed .fin) (hopen : s.closed = false) :
    (s.onFin config).stream.Released writeFailed := by
  rw [SmuxStream.onFin]
  split_ifs with hremote
  · exact h
  · set t := shutdownTcpSendIfReady { s with remoteFinReceived := true } with ht
    have hview := shutdownTcpSendIfReady_view { s with remoteFinReceived := true }
      (fun s => (s.localFinSent, s.reads, s.tcpWriteActive, s.pendingOutbound,
        s.pendingTcpWrites, s.closeTimer)) fun _ _ _ _ => rfl
    simp only [Prod.mk.injEq, ← ht] at hview
    obtain ⟨hlocal', hreads', hwrite', houtbound', hpending', htimer'⟩ := hview
    by_cases hpending : t.pendingTcpWrites = []
    · exact maybeFinish_released hpending
    · rw [maybeFinish_of_queued hpending, quiet_stream]
      rintro ⟨⟨hlocal, -, hreads, hwrite, hwritten⟩, houtbound⟩
      refine Or.inr (Option.isSome_iff_ne_none.mpr fun htimer => hleak ?_)
      refine ⟨hopen, htimer'.symm.trans htimer, hlocal'.symm.trans hlocal, ?_⟩
      exact ⟨Bool.eq_false_iff.mpr hremote, hreads'.symm.trans hreads,
        hwrite'.symm.trans hwrite, houtbound'.symm.trans houtbound,
        hwritten.resolve_left hpending, hpending' ▸ hpending⟩

/-- A delivered payload leaves the stream writing, or queues behind a failed write. -/
theorem Released.onData (h : s.Released writeFailed) (payload : Bytes) :
    (s.onData payload).stream.Released writeFailed := by
  rw [SmuxStream.onData]
  split_ifs
  · exact h
  · simp only [quiet_stream, enqueueTcpWrite, flushTcpWrites]
    split_ifs
    · refine h.mono ?_ rfl rfl
      rintro ⟨⟨hlocal, hremote, hreads, hwrite, hwritten⟩, houtbound⟩
      exact ⟨⟨hlocal, hremote, hreads, hwrite, Or.inr (hwritten.resolve_left (by simp))⟩,
        houtbound⟩
    · intro hfin
      exact absurd hfin.write (by simp)

/-- Connecting finishes nothing that was not finished before. -/
theorem Released.connected (h : s.Released writeFailed) (error : Option ErrorCode) :
    (connectHandler s error).stream.Released writeFailed := by
  cases error with
  | some error => exact released_of_closed (close_closed _)
  | none =>
      set u : SmuxStream :=
        { s with connecting := .idle, serverConnecting := false, tcpReady := true } with hu
      have hview := u.flushTcpWrites.startTcpRead.shutdownTcpSendIfReady_view
        (fun s => ((s.localFinSent, s.remoteFinReceived, s.closed, s.closeTimer), s.reads,
          s.tcpWriteActive, s.pendingTcpWrites, s.pendingOutbound)) fun _ _ _ _ => rfl
      simp only [connectHandler, quiet_stream, ← hu]
      simp only [Prod.mk.injEq] at hview
      obtain ⟨⟨hlocal', hremote', hclosed', htimer'⟩, hreads', hwrite', hpending', hout'⟩ := hview
      have hstart : u.flushTcpWrites.startTcpRead.closeTimer = s.closeTimer := by
        simp only [startTcpRead, flushTcpWrites]
        split_ifs <;> rfl
      refine h.mono ?_ (hclosed'.trans (by simp [hu])) (htimer'.trans hstart)
      rintro ⟨⟨hlocal, hremote, hreads, hwrite, hwritten⟩, houtbound⟩
      rw [hlocal', startTcpRead_localFinSent, flushTcpWrites_localFinSent] at hlocal
      rw [hremote', startTcpRead_remoteFinReceived, flushTcpWrites_remoteFinReceived] at hremote
      rw [hreads', startTcpRead, if_pos (by simp [hlocal])] at hreads
      rw [hwrite', startTcpRead, if_pos (by simp [hlocal])] at hwrite
      rw [hpending', startTcpRead, if_pos (by simp [hlocal]),
        flushTcpWrites_pendingTcpWrites] at hwritten
      rw [hout', startTcpRead_pendingOutbound] at houtbound
      have hreadsEq := congrArg OutboundView.reads u.flushTcpWrites_outbound
      have houtEq := congrArg OutboundView.pendingOutbound u.flushTcpWrites_outbound
      refine ⟨⟨hlocal, hremote, hreadsEq.symm.trans hreads, ?_, hwritten⟩,
        houtEq.symm.trans houtbound⟩
      rw [flushTcpWrites] at hwrite
      split_ifs at hwrite
      exact hwrite

/-- A flush. -/
theorem Released.flush (hinput : s.flushInput e = some t)
    (hleak : ¬ (s.closed = false ∧ s.closeTimer = none ∧
      ∃ t, s.flushInput e = some t ∧ t.Settled writeFailed ∧ t.Drains config)) :
    ((tryFlushOutbound config t).andThen readOn).stream.Released writeFailed := by
  obtain ⟨hclosed, htimer⟩ := @flush_closing config _ _ _ hinput
  intro hfin
  obtain ⟨hsettled, hdrains⟩ := (flush_finished_iff config t writeFailed).mp hfin
  by_contra hno
  rw [hclosed, htimer, not_or, Bool.not_eq_true, Option.not_isSome_iff_eq_none] at hno
  exact hleak ⟨hno.1, hno.2, t, hinput, hsettled, hdrains⟩

/-- **Every event that does not leak keeps a stream released.** -/
theorem Released.react (h : s.Released writeFailed) (hready : s.WriteReady)
    (hleak : ¬ s.Leaks config writeFailed e) (hreact : s.react config e = some o) :
    o.stream.Released (e.isWriteError || writeFailed) := by
  cases e with
  | completion c =>
      cases c with
      | readStored data =>
          obtain ⟨-, reads, hstore, rfl⟩ := react_readStored.mp hreact
          intro hfin
          exact absurd hfin.reads (storeRead_ne_nil hstore)
      | readDone =>
          obtain ⟨own, ops, hreads, -⟩ := react_readDone.mp hreact
          have hinput : s.flushInput (.completion .readDone) =
              some (queueOutbound { s with reads := ops } (s.tcpReadBuffer.take own.length)) := by
            simp only [flushInput, hreads]
          obtain rfl := react_of_flushInput hinput hreact
          exact Released.flush hinput hleak
      | readFailed error =>
          obtain ⟨ops, hreads, rfl⟩ := react_readFailed.mp hreact
          exact Released.readError hreads hleak
      | writeDone =>
          obtain ⟨hactive, rfl⟩ := react_writeDone.mp hreact
          exact writeHandler_released (hready hactive).1
      | writeFailed error =>
          obtain ⟨-, rfl⟩ := react_writeFailed.mp hreact
          exact Released.writeError hleak
      | resolved error =>
          obtain ⟨-, rfl⟩ := react_resolved.mp hreact
          cases error with
          | some error => exact released_of_closed (close_closed _)
          | none =>
              refine h.mono ?_ rfl rfl
              rintro ⟨⟨hlocal, hremote, hreads, hwrite, hwritten⟩, houtbound⟩
              exact ⟨⟨hlocal, hremote, hreads, hwrite, hwritten⟩, houtbound⟩
      | connected error =>
          obtain ⟨-, rfl⟩ := react_connected.mp hreact
          exact h.connected error
      | closeTimerExpired =>
          obtain ⟨-, rfl⟩ := react_closeTimerExpired.mp hreact
          exact released_of_closed (close_closed _)
  | data payload =>
      obtain ⟨-, -, rfl⟩ := react_data.mp hreact
      exact h.onData payload
  | fin =>
      obtain ⟨hopen, -, rfl⟩ := react_fin.mp hreact
      exact h.onFin hleak hopen
  | update consumed window =>
      obtain rfl := react_of_flushInput rfl hreact
      exact Released.flush rfl hleak
  | close =>
      obtain rfl := react_close.mp hreact
      exact released_of_closed s.close_closed
  | sessionExpired =>
      obtain rfl := react_sessionExpired.mp hreact
      refine h.mono ?_ rfl rfl
      rintro ⟨⟨hlocal, hremote, hreads, hwrite, hwritten⟩, houtbound⟩
      exact ⟨⟨hlocal, hremote, hreads, hwrite, hwritten⟩, houtbound⟩

/-- A finished stream that is open and has no close timer. -/
theorem not_released_iff : ¬ s.Released writeFailed ↔
    s.Finished writeFailed ∧ s.closed = false ∧ s.closeTimer = none := by
  rw [Released, Classical.not_imp, not_or, Bool.not_eq_true, Option.not_isSome_iff_eq_none]

/-- A flush that leaks. -/
theorem Leaks.flush (hinput : s.flushInput e = some t)
    (hleak : s.closed = false ∧ s.closeTimer = none ∧
      ∃ t, s.flushInput e = some t ∧ t.Settled writeFailed ∧ t.Drains config) :
    ¬ ((tryFlushOutbound config t).andThen readOn).stream.Released writeFailed := by
  obtain ⟨hopen, htimer, t', hinput', hfinished⟩ := hleak
  obtain rfl : t = t' := Option.some.inj (hinput.symm.trans hinput')
  obtain ⟨hclosed', htimer'⟩ := @flush_closing config _ _ _ hinput
  rw [not_released_iff, hclosed', htimer']
  exact ⟨(flush_finished_iff config t writeFailed).mpr hfinished, hopen, htimer⟩

/-- **Every event that leaks leaves a finished stream open and without a close timer.** -/
theorem Leaks.not_released (hready : s.WriteReady) (hleak : s.Leaks config writeFailed e)
    (hreact : s.react config e = some o) :
    ¬ o.stream.Released (e.isWriteError || writeFailed) := by
  have hleak' := hleak
  obtain ⟨hopen, htimer, hcase⟩ := hleak
  cases e with
  | completion c =>
      cases c with
      | readDone =>
          obtain ⟨t, hinput, -⟩ := hcase
          obtain rfl := react_of_flushInput hinput hreact
          exact Leaks.flush hinput hleak'
      | readFailed error =>
          obtain ⟨ops, hreads, rfl⟩ := react_readFailed.mp hreact
          obtain ⟨herror, hremote, hreads', hwrite, houtbound, hfailed, hpending⟩ := hcase
          rw [hreads', List.cons.injEq] at hreads
          rw [ErrorCode.EndsReading] at herror
          rw [readErrorHandler, if_pos herror, not_released_iff,
            sendLocalFin_maybeFinish_of_queued (s := { s with reads := ops }) hopen hpending]
          exact ⟨⟨⟨rfl, hremote, hreads.2.symm, hwrite, Or.inr hfailed⟩,
            houtbound⟩, hopen, htimer⟩
      | writeFailed error =>
          obtain ⟨hactive, rfl⟩ := react_writeFailed.mp hreact
          obtain ⟨herror, hremote, hreads, houtbound⟩ := hcase
          rw [ErrorCode.EndsWriting] at herror
          simp only [writeErrorHandler]
          rw [if_pos herror, not_released_iff, sendLocalFin_maybeFinish_of_queued
            (s := { s with tcpWriteActive := false }) hopen (hready hactive).2]
          exact ⟨⟨⟨rfl, hremote, hreads, rfl, Or.inr rfl⟩, houtbound⟩, hopen, htimer⟩
      | readStored data => exact absurd hcase (by simp [flushInput])
      | writeDone => exact absurd hcase (by simp [flushInput])
      | resolved error => exact absurd hcase (by simp [flushInput])
      | connected error => exact absurd hcase (by simp [flushInput])
      | closeTimerExpired => exact absurd hcase (by simp [flushInput])
  | fin =>
      obtain ⟨-, -, rfl⟩ := react_fin.mp hreact
      obtain ⟨hlocal, hremote, hreads, hwrite, houtbound, hfailed, hpending⟩ := hcase
      -- the failed buffer keeps both checks from doing anything
      rw [SmuxStream.onFin, if_neg (by simp [hremote]), shutdownTcpSendIfReady,
        if_pos (Or.inr (Or.inr (Or.inl hpending))), maybeFinish_of_queued
          (s := { s with remoteFinReceived := true }) hpending,
        quiet_stream, not_released_iff]
      exact ⟨⟨⟨hlocal, rfl, hreads, hwrite, Or.inr hfailed⟩, houtbound⟩,
        hopen, htimer⟩
  | update consumed window =>
      obtain rfl := react_of_flushInput rfl hreact
      exact Leaks.flush rfl hleak'
  | data payload => exact absurd hcase (by simp [flushInput])
  | close => exact absurd hcase (by simp [flushInput])
  | sessionExpired => exact absurd hcase (by simp [flushInput])

/-- Every start function leaves a stream without a FIN and without an active write. -/
theorem start_released (prims : QppPrims) (config : BaseConfig) (pad : Option QppPad)
    (id : UInt32) (kind : Start) :
    ((make prims config pad id).start kind).Released false ∧
      ((make prims config pad id).start kind).WriteReady := by
  constructor
  · intro hfin
    have hlocal := hfin.localFin
    cases kind <;> simp [start, make] at hlocal
  · refine WriteReady.of_idle ?_
    cases kind <;> simp [start, make, flushTcpWrites, startTcpRead, hasPendingOutbound]

end SmuxStream

/-- A stream right after its start, watched for failed writes. -/
def watchedStart (prims : QppPrims) (config : BaseConfig) (pad : Option QppPad)
    (id : UInt32) (kind : SmuxStream.Start) : WatchedRun :=
  ⟨startedStream prims config pad id kind, false⟩

/-- **The exact condition for the release of finished streams.** However a stream is
started, at every moment of a run a stream that both sides are done with is closed or has
its close timer armed, exactly when no event of the run finishes the stream by an error of
a write, behind a failed write, or by a flush. -/
theorem always_released_iff (prims : QppPrims) (config : BaseConfig) (pad : Option QppPad)
    (id : UInt32) (kind : SmuxStream.Start) (es : List StreamEvent) :
    (watchedMachine config).Always (fun w => w.run.stream.Released w.writeFailed)
        (watchedStart prims config pad id kind) es ↔
      (watchedMachine config).Along (fun w e => ¬ w.run.stream.Leaks config w.writeFailed e)
        (watchedStart prims config pad id kind) es := by
  refine EventMachine.always_iff_along
    (I := fun w : WatchedRun =>
      w.run.stream.Released w.writeFailed ∧ w.run.stream.WriteReady)
    (fun _ h => h.1) ?_ ?_ (SmuxStream.start_released prims config pad id kind) es
  · intro w e w' h hleak hstep
    obtain ⟨o, hreact, rfl⟩ := watchedMachine_step.mp hstep
    exact ⟨h.1.react h.2 hleak hreact,
      (SmuxStream.writeReady_receiving config).react h.2 hreact⟩
  · intro w e w' h hleak hstep
    obtain ⟨o, hreact, rfl⟩ := watchedMachine_step.mp hstep
    exact (not_not.mp hleak).not_released h.2 hreact

/-- A local program closes its socket while a payload for it is being written: the write
fails with a broken pipe, the peer's FIN arrives and the read ends. Nothing closes the
stream from then on. -/
theorem stream_leaks_after_broken_pipe :
    ¬ (watchedMachine {}).Always (fun w => w.run.stream.Released w.writeFailed)
        (watchedStart .uncalled {} none 3 .clientTcp)
        [.data [1], .completion (.writeFailed .brokenPipe), .fin,
          .completion (.readFailed .eof)] := by
  have hrun : (((watchedMachine {}).run (watchedStart .uncalled {} none 3 .clientTcp)
      [.data [1], .completion (.writeFailed .brokenPipe), .fin,
        .completion (.readFailed .eof)]).map fun w : WatchedRun =>
          ((w.run.stream.localFinSent, w.run.stream.remoteFinReceived, w.run.stream.reads,
            w.run.stream.tcpWriteActive, w.run.stream.pendingOutbound, w.writeFailed),
            w.run.stream.closed, w.run.stream.closeTimer)) =
      some ((true, true, [], false, [], true), false, none) := rfl
  obtain ⟨w, hw, hview⟩ := Option.map_eq_some_iff.mp hrun
  simp only [Prod.mk.injEq] at hview
  obtain ⟨⟨hlocal, hremote, hreads, hwrite, houtbound, hfailed⟩, hopen, htimer⟩ := hview
  intro h
  have hreleased := EventMachine.always_iff.mp h _ [] w (List.append_nil _).symm hw
  exact SmuxStream.not_released_iff.mpr
    ⟨⟨⟨hlocal, hremote, hreads, hwrite, Or.inr hfailed⟩, houtbound⟩, hopen, htimer⟩ hreleased

end Shimakaze
