import Shimakaze.Smux.StreamMachine

/-!
# The Half-Close

When the peer has sent its FIN and everything received has been written, the send side of
the local socket is shut down, so that the local program sees the end of the data.
`shutdown_tcp_send_if_ready` decides about it from four conditions and is called where one
of them may have become true: when the FIN arrives, when a write completes and when the
server's connection to its target is there.

`HalfCloseOrder` says what is wanted of a state: no shutdown has happened too early, and
none is missing. It holds whatever else happens to the stream, errors included.

## Main results

* `WriteOrder`, `WriteOrder.shutdownTcpSendIfReady`: the write queue holds what has been
  received and not written, and the check turns a well-kept stream into one without a
  missing shutdown.
* `Receiving`: what an invariant about the receiving end of a stream has to survive, so that
  every event keeps it (`Receiving.react`).
* `always_halfCloseOrder`: **in every run of every started stream, each shutdown finds the
  FIN received and all bytes written, and no shutdown that is due is missing.**
-/

namespace Shimakaze

namespace SmuxStream

/-- The socket `shutdown_tcp_send_if_ready` works on while the stream is open. -/
def localSide (s : SmuxStream) : Socket := s.localSocket.getD s.tcpSocket

/-- The send side of the local socket was shut down only after the FIN and the last byte,
and it is down when both have come and nothing is left to write. The second part is about
open streams: `close` shuts down both sides of a socket at any moment. -/
structure HalfCloseOrder (s : SmuxStream) : Prop where
  notEarly : ∀ record ∈ s.history.shutdowns,
    record.remoteFinReceived ∧ record.written = record.received
  recorded : s.closed = false → s.localSide.sendShutdown → s.history.shutdowns ≠ []
  notMissing : s.closed = false → s.remoteFinReceived → s.tcpReady →
    s.tcpWriteActive = false → s.pendingTcpWrites = [] → s.localSide.sendShutdown

/-- What the order rests on: the write queue holds the received bytes that have not been
written, a write is active only on a queue that is not empty, and the local socket of an
open stream is open once it is connected or connecting. -/
structure WriteOrder (s : SmuxStream) : Prop where
  received : s.history.received = s.history.written ++ s.pendingTcpWrites.flatten
  active : s.tcpWriteActive → s.pendingTcpWrites ≠ []
  opened : s.closed = false → s.tcpReady ∨ s.connecting = .connecting → s.localSide.isOpen
  resolving : s.connecting = .resolving → s.localSocket = none
  notEarly : ∀ record ∈ s.history.shutdowns,
    record.remoteFinReceived ∧ record.written = record.received
  recorded : s.closed = false → s.localSide.sendShutdown → s.history.shutdowns ≠ []

/-- The invariant of a stream's life. -/
structure HalfCloseInv (s : SmuxStream) : Prop extends WriteOrder s where
  notMissing : s.closed = false → s.remoteFinReceived → s.tcpReady →
    s.tcpWriteActive = false → s.pendingTcpWrites = [] → s.localSide.sendShutdown

theorem HalfCloseInv.order {s : SmuxStream} (h : HalfCloseInv s) : HalfCloseOrder s :=
  ⟨h.notEarly, h.recorded, h.notMissing⟩

variable {config : BaseConfig} {s t : SmuxStream}

/-! ### The part of the state the order is about -/

/-- The receiving end of a stream without its counters and cipher. -/
def draining (s : SmuxStream) : (List Bytes × Bool × Bytes × Bytes) × SocketView ×
    ReadinessView × Bool × Bool :=
  ((s.pendingTcpWrites, s.tcpWriteActive, s.history.received, s.history.written), s.sockets,
    s.readiness, s.remoteFinReceived, s.closed)

/-- Two streams with the same receiving end agree on everything the order reads. -/
theorem draining_eq (h : s.draining = t.draining) :
    (s.pendingTcpWrites = t.pendingTcpWrites ∧ s.tcpWriteActive = t.tcpWriteActive ∧
      s.history.received = t.history.received ∧ s.history.written = t.history.written) ∧
    (s.localSide = t.localSide ∧ s.localSocket = t.localSocket ∧
      s.history.shutdowns = t.history.shutdowns) ∧
    (s.tcpReady = t.tcpReady ∧ s.connecting = t.connecting ∧
      s.remoteFinReceived = t.remoteFinReceived ∧ s.closed = t.closed) := by
  simp only [draining, sockets, readiness, Prod.mk.injEq, SocketView.mk.injEq,
    ReadinessView.mk.injEq] at h
  obtain ⟨hwrites, ⟨htcp, hlocal, hshutdowns⟩, hreadiness, hfin, hclosed⟩ := h
  exact ⟨hwrites, ⟨by simp only [localSide, htcp, hlocal], hlocal, hshutdowns⟩,
    hreadiness.1, hreadiness.2, hfin, hclosed⟩

theorem WriteOrder.of_draining (h : s.draining = t.draining) (hs : WriteOrder s) :
    WriteOrder t := by
  obtain ⟨⟨hp, ha, hr, hw⟩, ⟨hside, hlocal, hsh⟩, hready, hconn, -, hclosed⟩ := draining_eq h
  refine ⟨?_, ?_, ?_, ?_, ?_, ?_⟩
  · rw [← hr, ← hw, ← hp]; exact hs.received
  · rw [← ha, ← hp]; exact hs.active
  · rw [← hclosed, ← hready, ← hconn, ← hside]; exact hs.opened
  · rw [← hconn, ← hlocal]; exact hs.resolving
  · rw [← hsh]; exact hs.notEarly
  · rw [← hclosed, ← hside, ← hsh]; exact hs.recorded

theorem HalfCloseInv.of_draining (h : s.draining = t.draining) (hs : HalfCloseInv s) :
    HalfCloseInv t := by
  have hwrite := hs.toWriteOrder.of_draining h
  obtain ⟨⟨hp, ha, -, -⟩, ⟨hside, -, -⟩, hready, -, hfin, hclosed⟩ := draining_eq h
  refine ⟨hwrite, ?_⟩
  rw [← hclosed, ← hfin, ← hready, ← ha, ← hp, ← hside]
  exact hs.notMissing

theorem maybeFinish_draining (s : SmuxStream) :
    (maybeFinish config s).stream.draining = s.draining :=
  maybeFinish_view config s draining fun _ _ => rfl

theorem sendLocalFin_maybeFinish_draining (s : SmuxStream) :
    (s.sendLocalFin.andThen (maybeFinish config)).stream.draining = s.draining := by
  rw [Outcome.andThen_stream, maybeFinish_draining, sendLocalFin_stream]
  rfl

theorem markPayloadConsumed_draining (s : SmuxStream) (bytes : ℕ) :
    (markPayloadConsumed config s bytes).stream.draining = s.draining := by
  obtain ⟨numRead, incr, h⟩ := markPayloadConsumed_stream config s bytes
  rw [h]; rfl

theorem startTcpRead_draining (s : SmuxStream) : s.startTcpRead.draining = s.draining := by
  rw [startTcpRead]; split_ifs <;> rfl

theorem flush_readOn_draining (s : SmuxStream) :
    ((tryFlushOutbound config s).andThen readOn).stream.draining = s.draining :=
  flush_readOn_view config s draining (fun _ _ _ => rfl) startTcpRead_draining

/-! ### The functions -/

/-- `flush_tcp_writes` starts a write only on a queue that is not empty. -/
theorem WriteOrder.flushTcpWrites (h : WriteOrder s) : WriteOrder s.flushTcpWrites := by
  rw [SmuxStream.flushTcpWrites]
  split_ifs with hcond
  · exact h
  · simp only [not_or] at hcond
    exact ⟨h.received, fun _ => hcond.2.2.2, h.opened, h.resolving, h.notEarly, h.recorded⟩

/-- Shutting down the send side while nothing is left to write, after the FIN. -/
theorem WriteOrder.shutdownSend (h : WriteOrder s) (hfin : s.remoteFinReceived)
    (hpending : s.pendingTcpWrites = []) : WriteOrder s.shutdownSend := by
  have hreceived := h.received
  rw [hpending, List.flatten_nil, List.append_nil] at hreceived
  have hrecords : ∀ record ∈ s.history.shutdowns ++
      [(⟨s.remoteFinReceived, s.history.received, s.history.written⟩ : ShutdownRecord)],
      record.remoteFinReceived ∧ record.written = record.received := by
    intro record hmem
    rcases List.mem_append.mp hmem with hmem | hmem
    · exact h.notEarly record hmem
    · rw [List.mem_singleton.mp hmem]
      exact ⟨hfin, hreceived.symm⟩
  have hopened := h.opened
  have hresolving := h.resolving
  rw [SmuxStream.shutdownSend]
  split
  · next l hl =>
    simp only [localSide, hl, Option.getD_some] at hopened
    split_ifs with hopen
    · exact ⟨h.received, h.active, fun _ _ => hopen,
        fun hc => absurd (hresolving hc) (by simp [hl]), hrecords, fun _ _ => by simp⟩
    · refine ⟨h.received, h.active, ?_, h.resolving, hrecords, fun _ _ => by simp⟩
      simpa only [localSide, hl, Option.getD_some] using hopened
    · exact h
  · next hl =>
    simp only [localSide, hl, Option.getD_none] at hopened
    split_ifs with hopen
    · refine ⟨h.received, h.active, fun _ _ => ?_, h.resolving, hrecords, fun _ _ => by simp⟩
      simpa only [localSide, hl, Option.getD_none] using hopen
    · exact h

/-- The shutdown of an open local socket is performed. -/
theorem shutdownSend_localSide (h : s.localSide.isOpen) :
    s.shutdownSend.localSide.sendShutdown := by
  rw [localSide] at h
  rw [shutdownSend]
  split
  · next l hl =>
    rw [hl, Option.getD_some] at h
    rw [if_pos h]
    rfl
  · next hl =>
    rw [hl, Option.getD_none] at h
    rw [if_pos h]
    simp only [localSide, hl, Option.getD_none]

/-- **The check**: on a well-kept stream it performs the shutdown exactly when it is due. -/
theorem WriteOrder.shutdownTcpSendIfReady (h : WriteOrder s) :
    HalfCloseInv s.shutdownTcpSendIfReady := by
  rw [SmuxStream.shutdownTcpSendIfReady]
  split_ifs with hcond
  · refine ⟨h, fun _ hfin hready hactive hpending => ?_⟩
    rcases hcond with hcond | hcond | hcond | hcond
    · exact absurd hfin hcond
    · exact absurd hcond (by simp [hactive])
    · exact absurd hpending hcond
    · exact absurd hready hcond
  · simp only [not_or, not_not] at hcond
    obtain ⟨hfin, -, hpending, hready⟩ := hcond
    have hwrite := h.shutdownSend hfin hpending
    refine ⟨hwrite, fun hclosed _ _ _ _ => ?_⟩
    have hclosed' : s.closed = false :=
      (s.shutdownSend_view SmuxStream.closed fun _ _ _ _ => rfl).symm.trans hclosed
    exact shutdownSend_localSide (h.opened hclosed' (Or.inl hready))

/-- A closed stream owes no shutdown. -/
theorem WriteOrder.of_closed (h : WriteOrder s) (hclosed : s.closed = true) :
    HalfCloseInv s :=
  ⟨h, fun ho => absurd (ho.symm.trans hclosed) (by decide)⟩

theorem WriteOrder.close (h : WriteOrder s) : HalfCloseInv s.close.stream := by
  cases hclosed : s.closed with
  | true =>
      rw [s.close_of_closed hclosed]
      exact h.of_closed hclosed
  | false =>
      rw [s.close_of_open hclosed, sendLocalFin_stream]
      refine WriteOrder.of_closed ⟨h.received, h.active, ?_, ?_, h.notEarly, ?_⟩ rfl
      · exact fun ho => absurd ho (by simp [teardown])
      · intro hc
        simp only [teardown, h.resolving hc, Option.map_none]
      · exact fun ho => absurd ho (by simp [teardown])

/-- A delivered payload is due to be written, so no shutdown is due. -/
theorem HalfCloseInv.onData (h : HalfCloseInv s) (payload : Bytes) :
    HalfCloseInv (s.onData payload).stream := by
  rw [SmuxStream.onData]
  split_ifs
  · exact h
  · simp only [quiet_stream, enqueueTcpWrite]
    refine ⟨WriteOrder.flushTcpWrites ?_, ?_⟩
    · refine ⟨?_, fun _ => by simp, h.opened, h.resolving, h.notEarly, h.recorded⟩
      simp only [h.received, List.flatten_append, List.flatten_cons, List.flatten_nil,
        List.append_nil, List.append_assoc]
    · intro _ _ _ _ hpending
      exact absurd hpending (by simp)

theorem HalfCloseInv.onFin (h : HalfCloseInv s) : HalfCloseInv (s.onFin config).stream := by
  rw [SmuxStream.onFin]
  split_ifs
  · exact h
  · refine HalfCloseInv.of_draining (maybeFinish_draining _).symm ?_
    exact WriteOrder.shutdownTcpSendIfReady ⟨h.received, h.active, h.opened, h.resolving,
      h.notEarly, h.recorded⟩

/-- A completed write moves the front of the queue to the written bytes. -/
theorem HalfCloseInv.writeDone (h : HalfCloseInv s) (hactive : s.tcpWriteActive) :
    HalfCloseInv (writeHandler config s).stream := by
  have hwritten : s.history.received =
      (s.history.written ++ s.pendingTcpWrites.headD []) ++ s.pendingTcpWrites.tail.flatten := by
    cases hp : s.pendingTcpWrites with
    | nil => exact absurd hp (h.active hactive)
    | cons front rest =>
        rw [h.received, hp, List.flatten_cons, List.append_assoc]
        rfl
  simp only [writeHandler, Outcome.andThen_stream]
  refine HalfCloseInv.of_draining (maybeFinish_draining _).symm ?_
  refine WriteOrder.shutdownTcpSendIfReady (WriteOrder.flushTcpWrites ?_)
  refine WriteOrder.of_draining (markPayloadConsumed_draining _ _).symm ?_
  exact ⟨hwritten, by simp, h.opened, h.resolving, h.notEarly,
    h.recorded⟩

/-- A failed write leaves its buffer in the queue, so no shutdown is due. -/
theorem HalfCloseInv.writeFailed (h : HalfCloseInv s) (hactive : s.tcpWriteActive)
    (error : ErrorCode) : HalfCloseInv (writeErrorHandler config s error).stream := by
  have hwrite : WriteOrder { s with tcpWriteActive := false } :=
    ⟨h.received, by simp, h.opened, h.resolving, h.notEarly,
      h.recorded⟩
  unfold writeErrorHandler
  simp only
  split_ifs
  · refine HalfCloseInv.of_draining (sendLocalFin_maybeFinish_draining _).symm
      ⟨hwrite, fun _ _ _ _ hpending => ?_⟩
    exact absurd hpending (h.active hactive)
  · exact hwrite.close

theorem HalfCloseInv.resolved (h : HalfCloseInv s) (hres : s.connecting = .resolving)
    (error : Option ErrorCode) : HalfCloseInv (resolveHandler s error).stream := by
  have hlocal := h.resolving hres
  have hrecorded := h.recorded
  have hmissing := h.notMissing
  simp only [localSide, hlocal, Option.getD_none] at hrecorded hmissing
  cases error with
  | some error =>
      refine WriteOrder.close ⟨h.received, h.active, fun hc hready => ?_, by simp,
        h.notEarly, h.recorded⟩
      rcases hready with hready | hready
      · exact h.opened hc (Or.inl hready)
      · exact absurd hready (by simp)
  | none =>
      have hwrite : WriteOrder (resolveHandler s none).stream := by
        refine ⟨h.received, h.active, fun _ _ => ?_, by simp [resolveHandler],
          h.notEarly, ?_⟩
        · simp only [resolveHandler, quiet_stream, localSide, hlocal, Option.getD_none]
        · simpa only [resolveHandler, quiet_stream, localSide, hlocal, Option.getD_none]
            using hrecorded
      refine ⟨hwrite, ?_⟩
      simpa only [resolveHandler, quiet_stream, localSide, hlocal, Option.getD_none]
        using hmissing

/-- Once connected, a stream performs a shutdown that became due while connecting. -/
theorem HalfCloseInv.connected (h : HalfCloseInv s) (hconn : s.connecting = .connecting)
    (error : Option ErrorCode) : HalfCloseInv (connectHandler s error).stream := by
  have hopened : s.closed = false → s.localSide.isOpen := fun hc => h.opened hc (Or.inr hconn)
  cases error with
  | some error =>
      exact WriteOrder.close ⟨h.received, h.active, fun hc _ => hopened hc, by simp,
        h.notEarly, h.recorded⟩
  | none =>
      refine WriteOrder.shutdownTcpSendIfReady
        (WriteOrder.of_draining (startTcpRead_draining _).symm (WriteOrder.flushTcpWrites ?_))
      exact ⟨h.received, h.active, fun hc _ => hopened hc, by simp, h.notEarly,
        h.recorded⟩

/-! ### The events -/

/-- What an invariant about the receiving end of a stream has to survive. -/
structure Receiving (config : BaseConfig) (P : SmuxStream → Prop) : Prop where
  congr : ∀ s t : SmuxStream, s.draining = t.draining → P s → P t
  close : ∀ s : SmuxStream, P s → P s.close.stream
  data : ∀ (s : SmuxStream) (payload : Bytes), P s → P (s.onData payload).stream
  fin : ∀ s : SmuxStream, P s → P (s.onFin config).stream
  written : ∀ s : SmuxStream, P s → s.tcpWriteActive → P (writeHandler config s).stream
  unwritten : ∀ (s : SmuxStream) (error : ErrorCode), P s → s.tcpWriteActive →
    P (writeErrorHandler config s error).stream
  resolved : ∀ (s : SmuxStream) (error : Option ErrorCode), P s → s.connecting = .resolving →
    P (resolveHandler s error).stream
  connected : ∀ (s : SmuxStream) (error : Option ErrorCode), P s →
    s.connecting = .connecting → P (connectHandler s error).stream

/-- **Every event keeps such an invariant**: the events of the sending side leave the
receiving end alone or close the stream. -/
theorem Receiving.react {P : SmuxStream → Prop} (hP : Receiving config P) (h : P s)
    {e : StreamEvent} {o : Outcome} (hreact : s.react config e = some o) : P o.stream := by
  cases e with
  | completion c =>
      cases c with
      | readStored data =>
          obtain ⟨-, reads, -, rfl⟩ := react_readStored.mp hreact
          exact hP.congr s _ rfl h
      | readDone =>
          obtain ⟨own, ops, -, rfl⟩ := react_readDone.mp hreact
          refine hP.congr s _ (Eq.trans ?_ (flush_readOn_draining _).symm) h
          rw [queueOutbound]
          split_ifs <;> rfl
      | readFailed error =>
          obtain ⟨ops, -, rfl⟩ := react_readFailed.mp hreact
          have hs : P { s with reads := ops } := hP.congr s _ rfl h
          rw [readErrorHandler]
          split_ifs
          · exact hP.congr _ _ (sendLocalFin_maybeFinish_draining _).symm hs
          · exact hP.close _ hs
      | writeDone =>
          obtain ⟨hactive, rfl⟩ := react_writeDone.mp hreact
          exact hP.written s h hactive
      | writeFailed error =>
          obtain ⟨hactive, rfl⟩ := react_writeFailed.mp hreact
          exact hP.unwritten s error h hactive
      | resolved error =>
          obtain ⟨hres, rfl⟩ := react_resolved.mp hreact
          exact hP.resolved s error h hres
      | connected error =>
          obtain ⟨hconn, rfl⟩ := react_connected.mp hreact
          exact hP.connected s error h hconn
      | closeTimerExpired =>
          obtain ⟨-, rfl⟩ := react_closeTimerExpired.mp hreact
          exact hP.close _ (hP.congr s { s with closeTimer := none } rfl h)
  | data payload =>
      obtain ⟨-, -, rfl⟩ := react_data.mp hreact
      exact hP.data s payload h
  | fin =>
      obtain ⟨-, -, rfl⟩ := react_fin.mp hreact
      exact hP.fin s h
  | update consumed window =>
      obtain ⟨-, -, -, rfl⟩ := react_update.mp hreact
      refine hP.congr s _ (Eq.trans ?_ (flush_readOn_draining _).symm) h
      rfl
  | close =>
      obtain rfl := react_close.mp hreact
      exact hP.close s h
  | sessionExpired =>
      obtain rfl := react_sessionExpired.mp hreact
      exact hP.congr s _ rfl h

/-- **Every event keeps the order.** -/
theorem halfCloseInv_receiving (config : BaseConfig) : Receiving config HalfCloseInv where
  congr _ _ hst h := h.of_draining hst
  close _ h := h.toWriteOrder.close
  data _ payload h := h.onData payload
  fin _ h := h.onFin
  written _ h hactive := h.writeDone hactive
  unwritten _ error h hactive := h.writeFailed hactive error
  resolved _ error h hres := h.resolved hres error
  connected _ error h hconn := h.connected hconn error

/-! ### Runs -/

/-- Every start function leaves a stream in order. -/
theorem start_halfCloseInv (prims : QppPrims) (config : BaseConfig) (pad : Option QppPad)
    (id : UInt32) (kind : Start) : HalfCloseInv ((make prims config pad id).start kind) := by
  have hfresh : ∀ s : SmuxStream, s.history = {} → s.pendingTcpWrites = [] →
      s.tcpWriteActive = false → s.remoteFinReceived = false → s.localSide.sendShutdown = false →
      (s.tcpReady ∨ s.connecting = .connecting → s.localSide.isOpen) →
      (s.connecting = .resolving → s.localSocket = none) → HalfCloseInv s := by
    intro s hhistory hpending hactive hfin hdown hopened hresolving
    have hwrite : WriteOrder s := by
      refine ⟨?_, ?_, fun _ => hopened, hresolving, ?_, ?_⟩
      · rw [hhistory, hpending]; rfl
      · intro ha
        exact absurd (hactive.symm.trans ha) (by decide)
      · intro record hmem
        rw [hhistory] at hmem
        exact absurd hmem (by simp)
      · intro _ hd
        exact absurd (hdown.symm.trans hd) (by decide)
    exact ⟨hwrite, fun _ hf => absurd (hfin.symm.trans hf) (by decide)⟩
  have hclient : ∀ s : SmuxStream, HalfCloseInv s → s.pendingTcpWrites = [] →
      HalfCloseInv s.flushTcpWrites.startTcpRead := by
    intro s hs hpending
    refine HalfCloseInv.of_draining (startTcpRead_draining _).symm ?_
    rwa [flushTcpWrites, if_pos (by simp [hpending])]
  cases kind with
  | clientTcp =>
      exact hclient _ (hfresh _ rfl rfl rfl rfl rfl (fun _ => rfl) (fun _ => rfl)) rfl
  | clientUnix =>
      exact hclient _ (hfresh _ rfl rfl rfl rfl rfl (fun _ => rfl) (by simp [make])) rfl
  | serverTcp =>
      exact hfresh _ rfl rfl rfl rfl rfl (by simp [start, make]) (fun _ => rfl)
  | serverUnix =>
      exact hfresh _ rfl rfl rfl rfl rfl (fun _ => rfl) (by simp [start])

end SmuxStream

/-- **The half-close is in order.** However a stream is started and whatever happens to it,
at every moment of its run each shutdown of the local socket's send side found the FIN
received and every payload byte received until then written, and an open, connected stream
that has received the FIN and has nothing left to write has performed the shutdown. -/
theorem always_halfCloseOrder (prims : QppPrims) (config : BaseConfig) (pad : Option QppPad)
    (id : UInt32) (kind : SmuxStream.Start) (es : List StreamEvent) :
    (streamMachine config).Always (fun r => r.stream.HalfCloseOrder)
      (startedStream prims config pad id kind) es := by
  refine (EventMachine.always_of_invariant (I := fun r => r.stream.HalfCloseInv) ?_
    (SmuxStream.start_halfCloseInv prims config pad id kind) es).imp
      fun _ h => h.order
  intro r e r' h hstep
  obtain ⟨o, hreact, rfl⟩ := streamMachine_step.mp hstep
  exact (SmuxStream.halfCloseInv_receiving config).react h hreact

end Shimakaze
