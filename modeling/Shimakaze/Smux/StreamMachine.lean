import Shimakaze.Lib.EventMachine
import Shimakaze.Smux.Views

/-!
# The Stream as an Event Machine

Everything that can happen to a stream after its start is a `StreamEvent`: an outstanding
operation completes, the session delivers a frame, the session closes the stream, or the
session object goes away. `streamMachine` runs events on a stream and collects the calls
the stream makes on its session, so a run of it is one interleaving of the stream's life.

Frames reach a stream through its session's table, from which `close` removes it, so a
delivery is enabled on an open stream of a live session only; window updates exist in
version 2 of the protocol only, every other version treating the frame as an error of the
session.

## Main results

* `react_readDone`, `react_update` and the other inversions: what each event does, so that
  the invariants of the later modules are a case analysis over `StreamEvent`.
* `Reaction`: what a relation has to satisfy to hold for everything that can happen to a
  stream, by one case analysis over the events (`Reaction.complete`, `Reaction.react`).
* `onData_reading`, `close_reading` and the like: the handlers that do not touch the
  reading side of a stream.
-/

namespace Shimakaze

/-- What can happen to a stream. -/
inductive StreamEvent
  | completion (c : SmuxStream.Completion)
  /-- A PSH frame is delivered. -/
  | data (payload : Bytes)
  /-- A FIN frame is delivered. -/
  | fin
  /-- An UPD frame is delivered. -/
  | update (consumed window : UInt32)
  /-- The session closes the stream. -/
  | close
  /-- The last owner of the session drops it. -/
  | sessionExpired
  deriving DecidableEq

namespace SmuxStream

/-- The reaction of a stream to an event; `none` when the event cannot happen. -/
def react (config : BaseConfig) (s : SmuxStream) : StreamEvent → Option Outcome
  | .completion c => s.complete config c
  | .data payload =>
      if s.closed ∨ ¬ s.sessionAlive then none else some (s.onData payload)
  | .fin => if s.closed ∨ ¬ s.sessionAlive then none else some (s.onFin config)
  | .update consumed window =>
      if s.closed ∨ ¬ s.sessionAlive ∨ ¬ config.flowControlled then none
      else some (s.onUpdate config consumed window)
  | .close => some s.close
  | .sessionExpired => some (quiet { s with sessionAlive := false })

end SmuxStream

/-- A stream and the calls it has made on its session, oldest first. -/
structure StreamRun where
  stream : SmuxStream
  calls : List SessionCall := []

/-- The life of one stream. -/
def streamMachine (config : BaseConfig) : EventMachine StreamRun StreamEvent where
  step r e := (r.stream.react config e).map fun o => ⟨o.stream, r.calls ++ o.calls⟩

/-- A step of the machine is a reaction of the stream. -/
theorem streamMachine_step {config : BaseConfig} {r r' : StreamRun} {e : StreamEvent} :
    (streamMachine config).step r e = some r' ↔
      ∃ o, r.stream.react config e = some o ∧ r' = ⟨o.stream, r.calls ++ o.calls⟩ := by
  simp only [streamMachine, Option.map_eq_some_iff]
  exact exists_congr fun o => and_congr_right fun _ => eq_comm

/-- A stream as `start_client` or `start_server` leaves it right after its construction. -/
def startedStream (prims : QppPrims) (config : BaseConfig) (pad : Option QppPad)
    (id : UInt32) (kind : SmuxStream.Start) : StreamRun :=
  ⟨(SmuxStream.make prims config pad id).start kind, []⟩

namespace SmuxStream

variable {config : BaseConfig} {s : SmuxStream} {o : Outcome}

/-! ### What an event does -/

theorem react_readStored {data : Bytes} :
    s.react config (.completion (.readStored data)) = some o ↔
      data.length ≤ readBufferSize ∧ ∃ reads, storeRead data s.reads = some reads ∧
        o = quiet { s with
          reads := reads, tcpReadBuffer := data ++ s.tcpReadBuffer.drop data.length } := by
  simp only [react, complete]
  split_ifs with h
  · simp only [h, true_and, Option.map_eq_some_iff]
    exact exists_congr fun reads => and_congr_right fun _ => eq_comm
  · simp [h]

theorem react_readDone :
    s.react config (.completion .readDone) = some o ↔
      ∃ own ops, s.reads = .stored own :: ops ∧
        o = readHandler config { s with reads := ops } own.length := by
  simp only [react, complete]
  cases s.reads with
  | nil => simp
  | cons op ops => cases op <;> simp [eq_comm]

theorem react_readFailed {error : ErrorCode} :
    s.react config (.completion (.readFailed error)) = some o ↔
      ∃ ops, s.reads = .waiting :: ops ∧
        o = readErrorHandler config { s with reads := ops } error := by
  simp only [react, complete]
  cases s.reads with
  | nil => simp
  | cons op ops => cases op <;> simp [eq_comm]

theorem react_writeDone :
    s.react config (.completion .writeDone) = some o ↔
      s.tcpWriteActive ∧ o = writeHandler config s := by
  simp only [react, complete]
  split_ifs with h <;> simp [h, eq_comm]

theorem react_writeFailed {error : ErrorCode} :
    s.react config (.completion (.writeFailed error)) = some o ↔
      s.tcpWriteActive ∧ o = writeErrorHandler config s error := by
  simp only [react, complete]
  split_ifs with h <;> simp [h, eq_comm]

theorem react_resolved {error : Option ErrorCode} :
    s.react config (.completion (.resolved error)) = some o ↔
      s.connecting = .resolving ∧ o = resolveHandler s error := by
  simp only [react, complete]
  split_ifs with h <;> simp [h, eq_comm]

theorem react_connected {error : Option ErrorCode} :
    s.react config (.completion (.connected error)) = some o ↔
      s.connecting = .connecting ∧ o = connectHandler s error := by
  simp only [react, complete]
  split_ifs with h <;> simp [h, eq_comm]

theorem react_closeTimerExpired :
    s.react config (.completion .closeTimerExpired) = some o ↔
      s.closeTimer.isSome ∧ o = close { s with closeTimer := none } := by
  simp only [react, complete]
  split_ifs with h <;> simp [h, eq_comm]

theorem react_data {payload : Bytes} :
    s.react config (.data payload) = some o ↔
      s.closed = false ∧ s.sessionAlive ∧ o = s.onData payload := by
  simp only [react]
  split_ifs with h
  · rcases h with h | h <;> simp [h]
  · rw [not_or, not_not, Bool.not_eq_true] at h
    simp [h, eq_comm]

theorem react_fin :
    s.react config .fin = some o ↔
      s.closed = false ∧ s.sessionAlive ∧ o = s.onFin config := by
  simp only [react]
  split_ifs with h
  · rcases h with h | h <;> simp [h]
  · rw [not_or, not_not, Bool.not_eq_true] at h
    simp [h, eq_comm]

theorem react_update {consumed window : UInt32} :
    s.react config (.update consumed window) = some o ↔
      s.closed = false ∧ s.sessionAlive ∧ config.flowControlled ∧
        o = s.onUpdate config consumed window := by
  simp only [react]
  split_ifs with h
  · rcases h with h | h | h <;> simp [h]
  · rw [not_or, not_or, not_not, not_not, Bool.not_eq_true] at h
    simp [h, eq_comm]

theorem react_close : s.react config .close = some o ↔ o = s.close := by
  simp only [react, Option.some.injEq, eq_comm]

theorem react_sessionExpired :
    s.react config .sessionExpired = some o ↔ o = quiet { s with sessionAlive := false } := by
  simp only [react, Option.some.injEq, eq_comm]

/-! ### The reading side

The part of the state that decides about reads: the outbound view and the readiness. -/

/-- The reading side of a stream. -/
def reading (s : SmuxStream) : OutboundView × ReadinessView := (s.outbound, s.readiness)

theorem close_reading (s : SmuxStream) : s.close.stream.reading = s.reading :=
  s.close_view reading fun _ _ _ _ _ _ => rfl

theorem maybeFinish_reading (s : SmuxStream) :
    (maybeFinish config s).stream.reading = s.reading :=
  maybeFinish_view config s reading fun _ _ => rfl

theorem sendLocalFin_reading (s : SmuxStream) : s.sendLocalFin.stream.reading = s.reading := by
  rw [sendLocalFin_stream]; rfl

theorem flushTcpWrites_reading (s : SmuxStream) : s.flushTcpWrites.reading = s.reading := by
  simp [reading]

theorem shutdownTcpSendIfReady_reading (s : SmuxStream) :
    s.shutdownTcpSendIfReady.reading = s.reading := by
  simp [reading]

theorem markPayloadConsumed_reading (s : SmuxStream) (bytes : ℕ) :
    (markPayloadConsumed config s bytes).stream.reading = s.reading := by
  obtain ⟨numRead, incr, h⟩ := markPayloadConsumed_stream config s bytes
  rw [h]; rfl

theorem readErrorHandler_reading (s : SmuxStream) (error : ErrorCode) :
    (readErrorHandler config s error).stream.reading = s.reading := by
  rw [readErrorHandler]
  split_ifs
  · rw [Outcome.andThen_stream, maybeFinish_reading, sendLocalFin_reading]
  · exact s.close_reading

theorem writeHandler_reading (s : SmuxStream) :
    (writeHandler config s).stream.reading = s.reading := by
  simp only [writeHandler, Outcome.andThen_stream]
  rw [maybeFinish_reading, shutdownTcpSendIfReady_reading, flushTcpWrites_reading,
    markPayloadConsumed_reading]
  rfl

theorem writeErrorHandler_reading (s : SmuxStream) (error : ErrorCode) :
    (writeErrorHandler config s error).stream.reading = s.reading := by
  simp only [writeErrorHandler]
  split_ifs
  · rw [Outcome.andThen_stream, maybeFinish_reading, sendLocalFin_reading]
    rfl
  · exact close_reading _

theorem onData_reading (s : SmuxStream) (payload : Bytes) :
    (s.onData payload).stream.reading = s.reading := by
  rw [onData]
  split_ifs
  · rfl
  · simp only [quiet_stream, enqueueTcpWrite, flushTcpWrites_reading]
    rfl

theorem onFin_reading (s : SmuxStream) : (s.onFin config).stream.reading = s.reading := by
  rw [onFin]
  split_ifs
  · rfl
  · rw [maybeFinish_reading, shutdownTcpSendIfReady_reading]
    rfl

/-! ### One argument for every event -/

/-- The part of a stream that only closing, the local FIN, a flush and the handler of a read
change. -/
def stance (s : SmuxStream) : (UInt32 × Bool) × (Bool × Bool) × Bytes × List PendingBuffer :=
  ((s.id, s.sessionAlive), (s.closed, s.localFinSent), s.tcpReadBuffer, s.pendingOutbound)

/-- What a relation between a stream and what comes of a function of it has to satisfy, so
that it holds for whatever happens to a stream. -/
structure Reaction (config : BaseConfig) (R : SmuxStream → Outcome → Prop) : Prop where
  congr : ∀ s t o, t.stance = s.stance → R t o → R s o
  quiet : ∀ s t : SmuxStream, t.stance = s.stance → R s t.quiet
  close : ∀ s : SmuxStream, R s s.close
  finish : ∀ s : SmuxStream, R s (s.sendLocalFin.andThen (maybeFinish config))
  written : ∀ s : SmuxStream, R s (writeHandler config s)
  flush : ∀ s : SmuxStream, R s ((tryFlushOutbound config s).andThen readOn)
  stored : ∀ (s : SmuxStream) (reads : List ReadOp) (data : Bytes),
    data.length ≤ readBufferSize →
    R s (SmuxStream.quiet
      { s with reads := reads, tcpReadBuffer := data ++ s.tcpReadBuffer.drop data.length })
  queued : ∀ (s : SmuxStream) (bytes : ℕ),
    R s ((tryFlushOutbound config (s.queueOutbound (s.tcpReadBuffer.take bytes))).andThen readOn)

theorem startTcpRead_stance (s : SmuxStream) : s.startTcpRead.stance = s.stance := by
  rw [startTcpRead]
  split_ifs <;> rfl

theorem flushTcpWrites_stance (s : SmuxStream) : s.flushTcpWrites.stance = s.stance := by
  rw [flushTcpWrites]
  split_ifs <;> rfl

theorem shutdownTcpSendIfReady_stance (s : SmuxStream) :
    s.shutdownTcpSendIfReady.stance = s.stance :=
  s.shutdownTcpSendIfReady_view stance fun _ _ _ _ => rfl

namespace Reaction

variable {R : SmuxStream → Outcome → Prop}

theorem start (hR : Reaction config R) (s : SmuxStream) (kind : Start) :
    R s (s.start kind).quiet := by
  refine hR.quiet _ _ ?_
  cases kind with
  | clientTcp =>
      rw [SmuxStream.start, startTcpRead_stance, flushTcpWrites_stance]
      rfl
  | clientUnix =>
      rw [SmuxStream.start, startTcpRead_stance, flushTcpWrites_stance]
      rfl
  | serverTcp => rfl
  | serverUnix => rfl

theorem onFin (hR : Reaction config R) (s : SmuxStream) : R s (s.onFin config) := by
  rw [SmuxStream.onFin]
  split_ifs
  · exact hR.quiet _ _ rfl
  · obtain ⟨timer, htimer⟩ :=
      maybeFinish_eq config (shutdownTcpSendIfReady { s with remoteFinReceived := true })
    rw [htimer]
    exact hR.quiet _ _ (shutdownTcpSendIfReady_stance { s with remoteFinReceived := true })

theorem onData (hR : Reaction config R) (s : SmuxStream) (payload : Bytes) :
    R s (s.onData payload) := by
  rw [SmuxStream.onData]
  split_ifs
  · exact hR.quiet _ _ rfl
  · refine hR.quiet _ _ ?_
    rw [enqueueTcpWrite, flushTcpWrites_stance]
    rfl

theorem onUpdate (hR : Reaction config R) (s : SmuxStream) (consumed window : UInt32) :
    R s (s.onUpdate config consumed window) :=
  hR.congr _ { s with peerConsumed := consumed, peerWindow := window } _ rfl (hR.flush _)

/-- **Every completion.** -/
theorem complete (hR : Reaction config R) {c : Completion} (h : s.complete config c = some o) :
    R s o := by
  have hreact : s.react config (.completion c) = some o := h
  cases c with
  | readStored data =>
      obtain ⟨hdata, reads, -, rfl⟩ := react_readStored.mp hreact
      exact hR.stored s reads data hdata
  | readDone =>
      obtain ⟨own, ops, -, rfl⟩ := react_readDone.mp hreact
      exact hR.congr _ { s with reads := ops } _ rfl (hR.queued _ own.length)
  | readFailed error =>
      obtain ⟨ops, -, rfl⟩ := react_readFailed.mp hreact
      refine hR.congr _ { s with reads := ops } _ rfl ?_
      rw [readErrorHandler]
      split_ifs
      · exact hR.finish _
      · exact hR.close _
  | writeDone =>
      obtain ⟨-, rfl⟩ := react_writeDone.mp hreact
      exact hR.written s
  | writeFailed error =>
      obtain ⟨-, rfl⟩ := react_writeFailed.mp hreact
      refine hR.congr _ { s with tcpWriteActive := false } _ rfl ?_
      simp only [writeErrorHandler]
      split_ifs
      · exact hR.finish _
      · exact hR.close _
  | resolved error =>
      obtain ⟨-, rfl⟩ := react_resolved.mp hreact
      cases error with
      | some error => exact hR.congr _ { s with connecting := .idle } _ rfl (hR.close _)
      | none => exact hR.quiet _ _ rfl
  | connected error =>
      obtain ⟨-, rfl⟩ := react_connected.mp hreact
      cases error with
      | some error =>
          exact hR.congr _ { s with connecting := .idle, serverConnecting := false } _ rfl
            (hR.close _)
      | none =>
          refine hR.quiet _ _ ?_
          rw [shutdownTcpSendIfReady_stance, startTcpRead_stance, flushTcpWrites_stance]
          rfl
  | closeTimerExpired =>
      obtain ⟨-, rfl⟩ := react_closeTimerExpired.mp hreact
      exact hR.congr _ { s with closeTimer := none } _ rfl (hR.close _)

/-- **Every event**, but the end of the session object. -/
theorem react (hR : Reaction config R) {e : StreamEvent} (he : e ≠ .sessionExpired)
    (h : s.react config e = some o) : R s o := by
  cases e with
  | completion c => exact hR.complete h
  | data payload =>
      obtain ⟨-, -, rfl⟩ := react_data.mp h
      exact hR.onData s payload
  | fin =>
      obtain ⟨-, -, rfl⟩ := react_fin.mp h
      exact hR.onFin s
  | update consumed window =>
      obtain ⟨-, -, -, rfl⟩ := react_update.mp h
      exact hR.onUpdate s consumed window
  | close =>
      obtain rfl := react_close.mp h
      exact hR.close s
  | sessionExpired => exact absurd rfl he

end Reaction

end SmuxStream

end Shimakaze
