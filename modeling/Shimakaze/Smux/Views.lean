import Shimakaze.Smux.Flush

/-!
# Frame Lemmas of the Stream Functions

A stream falls into parts that different functions work on: the outbound side (reading
from the local socket and sending), the inbound side (receiving and writing to the local
socket), and the sockets. Each part is a view of the state, and each function leaves the
views it does not work on unchanged. The lemmas are simp lemmas, so the invariants of the
later modules see through the functions they are not about.
-/

namespace Shimakaze

/-- The outbound side of a stream. -/
structure OutboundView where
  reads : List ReadOp
  tcpReadBuffer : Bytes
  pendingOutbound : List PendingBuffer
  numWritten : UInt32
  peerConsumed : UInt32
  peerWindow : UInt32
  writeRand : Qpp.Rand
  queued : Bytes

/-- The inbound side of a stream. -/
structure InboundView where
  pendingTcpWrites : List Bytes
  tcpWriteActive : Bool
  numRead : UInt32
  incr : UInt32
  readRand : Qpp.Rand
  received : Bytes
  written : Bytes

/-- The sockets of a stream and what was shut down. -/
structure SocketView where
  tcpSocket : Socket
  localSocket : Option Socket
  shutdowns : List ShutdownRecord

/-- The progress of a stream's start: whether the socket is connected. -/
structure ReadinessView where
  tcpReady : Bool
  connecting : Connecting

namespace SmuxStream

def outbound (s : SmuxStream) : OutboundView :=
  ⟨s.reads, s.tcpReadBuffer, s.pendingOutbound, s.numWritten, s.peerConsumed, s.peerWindow,
    s.qpp.writeRand, s.history.queued⟩

def inbound (s : SmuxStream) : InboundView :=
  ⟨s.pendingTcpWrites, s.tcpWriteActive, s.numRead, s.incr, s.qpp.readRand,
    s.history.received, s.history.written⟩

def sockets (s : SmuxStream) : SocketView :=
  ⟨s.tcpSocket, s.localSocket, s.history.shutdowns⟩

def readiness (s : SmuxStream) : ReadinessView := ⟨s.tcpReady, s.connecting⟩

variable (config : BaseConfig) (s : SmuxStream)

/-! ### The outbound functions -/

section startTcpRead

@[simp] theorem startTcpRead_closed : s.startTcpRead.closed = s.closed := by
  rw [startTcpRead]; split_ifs <;> rfl

@[simp] theorem startTcpRead_sessionAlive : s.startTcpRead.sessionAlive = s.sessionAlive := by
  rw [startTcpRead]; split_ifs <;> rfl

@[simp] theorem startTcpRead_localFinSent : s.startTcpRead.localFinSent = s.localFinSent := by
  rw [startTcpRead]; split_ifs <;> rfl

@[simp] theorem startTcpRead_remoteFinReceived :
    s.startTcpRead.remoteFinReceived = s.remoteFinReceived := by
  rw [startTcpRead]; split_ifs <;> rfl

@[simp] theorem startTcpRead_pendingOutbound :
    s.startTcpRead.pendingOutbound = s.pendingOutbound := by
  rw [startTcpRead]; split_ifs <;> rfl

end startTcpRead

/-- The end of the handlers that flush either leaves the stream alone or starts a read. -/
theorem readOn_eq : s.readOn = s.quiet ∨
    (s.hasPendingOutbound = false ∧ s.readOn = s.startTcpRead.quiet) := by
  rw [readOn]
  cases h : s.hasPendingOutbound
  · exact Or.inr ⟨rfl, by simp⟩
  · exact Or.inl (by simp)

@[simp] theorem readOn_calls : s.readOn.calls = [] := rfl

/-- What a flush changes: nothing, or the bytes and buffers of the outbound side. -/
theorem tryFlushOutbound_stream : ∃ sent pending,
    (tryFlushOutbound config s).stream = s.sentBytes sent pending := by
  by_cases hdead : s.sessionAlive = false ∨ s.closed
  · rw [tryFlushOutbound_of_dead hdead]
    exact ⟨[], s.pendingOutbound, s.sentBytes_nil.symm⟩
  · rw [not_or, Bool.not_eq_false, Bool.not_eq_true] at hdead
    obtain ⟨pieces, h⟩ := tryFlushOutbound_flushed config hdead.1 hdead.2
    exact ⟨_, _, h.stream⟩

/-- A flush followed by `readOn`, seen through a view that neither touches. -/
theorem flush_readOn_view {β : Type*} (view : SmuxStream → β)
    (hsent : ∀ s sent pending, view (sentBytes s sent pending) = view s)
    (hread : ∀ s, view s.startTcpRead = view s) :
    view ((tryFlushOutbound config s).andThen readOn).stream = view s := by
  obtain ⟨sent, pending, h⟩ := tryFlushOutbound_stream config s
  rw [Outcome.andThen_stream]
  rcases (tryFlushOutbound config s).stream.readOn_eq with hr | ⟨-, hr⟩
  · rw [hr, quiet_stream, h, hsent]
  · rw [hr, quiet_stream, hread, h, hsent]

/-! ### The functions of the inbound side and of the stream's end -/

section flushTcpWrites

@[simp] theorem flushTcpWrites_outbound : s.flushTcpWrites.outbound = s.outbound := by
  rw [flushTcpWrites]; split_ifs <;> rfl

@[simp] theorem flushTcpWrites_readiness : s.flushTcpWrites.readiness = s.readiness := by
  rw [flushTcpWrites]; split_ifs <;> rfl

@[simp] theorem flushTcpWrites_closed : s.flushTcpWrites.closed = s.closed := by
  rw [flushTcpWrites]; split_ifs <;> rfl

@[simp] theorem flushTcpWrites_sessionAlive :
    s.flushTcpWrites.sessionAlive = s.sessionAlive := by
  rw [flushTcpWrites]; split_ifs <;> rfl

@[simp] theorem flushTcpWrites_localFinSent :
    s.flushTcpWrites.localFinSent = s.localFinSent := by
  rw [flushTcpWrites]; split_ifs <;> rfl

@[simp] theorem flushTcpWrites_remoteFinReceived :
    s.flushTcpWrites.remoteFinReceived = s.remoteFinReceived := by
  rw [flushTcpWrites]; split_ifs <;> rfl

@[simp] theorem flushTcpWrites_pendingTcpWrites :
    s.flushTcpWrites.pendingTcpWrites = s.pendingTcpWrites := by
  rw [flushTcpWrites]; split_ifs <;> rfl

end flushTcpWrites

section shutdownTcpSendIfReady

/-- Shutting down the send side changes only the sockets. -/
theorem shutdownSend_view {β : Type*} (view : SmuxStream → β)
    (hview : ∀ (s : SmuxStream) (t : Socket) (l : Option Socket) (r : List ShutdownRecord),
      view { s with
        tcpSocket := t, localSocket := l, history := { s.history with shutdowns := r } } =
      view s) :
    view s.shutdownSend = view s := by
  rw [shutdownSend]
  have h := hview s
  split
  · split_ifs
    · exact h s.tcpSocket _ _
    · have h' := h { s.tcpSocket with sendShutdown := true } s.localSocket
        (s.history.shutdowns ++ [⟨s.remoteFinReceived, s.history.received, s.history.written⟩])
      exact h'
    · rfl
  · split_ifs
    · have h' := h { s.tcpSocket with sendShutdown := true } s.localSocket
        (s.history.shutdowns ++ [⟨s.remoteFinReceived, s.history.received, s.history.written⟩])
      exact h'
    · rfl

/-- So does `shutdown_tcp_send_if_ready`. -/
theorem shutdownTcpSendIfReady_view {β : Type*} (view : SmuxStream → β)
    (hview : ∀ (s : SmuxStream) (t : Socket) (l : Option Socket) (r : List ShutdownRecord),
      view { s with
        tcpSocket := t, localSocket := l, history := { s.history with shutdowns := r } } =
      view s) :
    view s.shutdownTcpSendIfReady = view s := by
  rw [shutdownTcpSendIfReady]
  split_ifs
  · rfl
  · exact s.shutdownSend_view view hview

@[simp] theorem shutdownTcpSendIfReady_outbound :
    s.shutdownTcpSendIfReady.outbound = s.outbound :=
  s.shutdownTcpSendIfReady_view outbound fun _ _ _ _ => rfl

@[simp] theorem shutdownTcpSendIfReady_inbound :
    s.shutdownTcpSendIfReady.inbound = s.inbound :=
  s.shutdownTcpSendIfReady_view inbound fun _ _ _ _ => rfl

@[simp] theorem shutdownTcpSendIfReady_readiness :
    s.shutdownTcpSendIfReady.readiness = s.readiness :=
  s.shutdownTcpSendIfReady_view readiness fun _ _ _ _ => rfl

@[simp] theorem shutdownTcpSendIfReady_closed : s.shutdownTcpSendIfReady.closed = s.closed :=
  s.shutdownTcpSendIfReady_view closed fun _ _ _ _ => rfl

@[simp] theorem shutdownTcpSendIfReady_sessionAlive :
    s.shutdownTcpSendIfReady.sessionAlive = s.sessionAlive :=
  s.shutdownTcpSendIfReady_view sessionAlive fun _ _ _ _ => rfl

@[simp] theorem shutdownTcpSendIfReady_localFinSent :
    s.shutdownTcpSendIfReady.localFinSent = s.localFinSent :=
  s.shutdownTcpSendIfReady_view localFinSent fun _ _ _ _ => rfl

end shutdownTcpSendIfReady

/-- `maybe_finish` makes no calls and changes at most the close timer. -/
theorem maybeFinish_eq : ∃ timer, maybeFinish config s = quiet { s with closeTimer := timer } := by
  rw [maybeFinish]
  split_ifs
  · exact ⟨s.closeTimer, rfl⟩
  · exact ⟨_, rfl⟩
  · exact ⟨s.closeTimer, rfl⟩

/-- Every view without the close timer sees through `maybe_finish`. -/
theorem maybeFinish_view {β : Type*} (view : SmuxStream → β)
    (hview : ∀ (s : SmuxStream) (timer : Option ℕ), view { s with closeTimer := timer } = view s) :
    view (maybeFinish config s).stream = view s := by
  obtain ⟨timer, h⟩ := maybeFinish_eq config s
  rw [h, quiet_stream, hview]

@[simp] theorem maybeFinish_calls : (maybeFinish config s).calls = [] := by
  obtain ⟨timer, h⟩ := maybeFinish_eq config s
  rw [h, quiet_calls]

/-- `send_local_fin` changes only its flag. -/
theorem sendLocalFin_stream :
    s.sendLocalFin.stream = { s with localFinSent := s.localFinSent || !s.closed } := by
  obtain ⟨_, _, _, _, _, _, _, _, _, _, _, _, _, _, _, _, fin, _, closed, _⟩ := s
  rw [sendLocalFin]
  cases fin <;> cases closed <;> rfl

/-- The FIN goes out once, while the stream is open and the session exists. -/
theorem sendLocalFin_calls : s.sendLocalFin.calls =
    if s.localFinSent = false ∧ s.closed = false ∧ s.sessionAlive then
      [.sendFrame .fin s.id []] else [] := by
  rw [sendLocalFin]
  cases s.localFinSent <;> cases s.closed <;> cases s.sessionAlive <;> simp

/-- `close` on an open stream. -/
theorem close_of_open (h : s.closed = false) :
    s.close = ⟨s.sendLocalFin.stream.teardown,
      s.sendLocalFin.calls ++ if s.sessionAlive then [.streamClosed s.id] else []⟩ := by
  simp only [close, h, Bool.false_eq_true, if_false, Outcome.andThen, sendLocalFin_stream]

/-- `close` on a closed stream. -/
theorem close_of_closed (h : s.closed) : s.close = s.quiet := by
  simp only [close, h, if_true]

/-- Every view without the sockets, the timer and the two flags sees through `close`. -/
theorem close_view {β : Type*} (view : SmuxStream → β)
    (hview : ∀ (s : SmuxStream) (fin closed : Bool) (t : Socket) (l : Option Socket)
      (timer : Option ℕ), view { s with
        localFinSent := fin, closed := closed, tcpSocket := t, localSocket := l,
        closeTimer := timer } = view s) :
    view s.close.stream = view s := by
  cases h : s.closed with
  | true => rw [s.close_of_closed h, quiet_stream]
  | false =>
      rw [s.close_of_open h, sendLocalFin_stream]
      exact hview s _ _ _ _ _

/-- `close` leaves the stream closed. -/
@[simp] theorem close_closed : s.close.stream.closed = true := by
  cases h : s.closed with
  | true => rw [s.close_of_closed h]; exact h
  | false => rw [s.close_of_open h]; rfl

/-- `mark_payload_consumed` changes only the two counters of the receiver. -/
theorem markPayloadConsumed_stream (bytes : ℕ) : ∃ numRead incr,
    (markPayloadConsumed config s bytes).stream = { s with numRead := numRead, incr := incr } := by
  rw [markPayloadConsumed]
  simp only
  split_ifs
  · exact ⟨s.numRead, s.incr, rfl⟩
  · exact ⟨_, _, rfl⟩
  · exact ⟨_, _, rfl⟩

/-- It calls the session at most for an update. -/
theorem markPayloadConsumed_calls (bytes : ℕ) : ∀ call ∈ (markPayloadConsumed config s bytes).calls,
    ∃ consumed window, call = .sendUpdate s.id consumed window := by
  rw [markPayloadConsumed]
  simp only
  split_ifs
  · simp
  · intro call h
    exact ⟨_, _, List.mem_singleton.mp h⟩
  · simp

end SmuxStream

end Shimakaze
