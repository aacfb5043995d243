import Shimakaze.Config
import Shimakaze.Qpp

/-!
# The Multiplexed Stream

`SmuxStream` carries one local connection over a session. This module is the faithful
layer: every member function of `smux.cpp` as a function on the stream's state, under its
own name. A function that calls back into the session returns the calls it makes with the
new state (`Outcome`); none of these calls has a result the stream reads, so the session
can carry them out afterwards, in order.

The environment of a stream is part of the state as far as a handler can see it: the
outstanding socket operations, the armed timer, the connection attempt of the server side,
and whether the session object still exists. A `Completion` runs one of the outstanding
operations to its handler. `History` is written by the functions and read by none of them:
it records what passed through, so that properties can be stated.

Logging, socket options and the delay of the close timer have no effect on the state and
are left out, the delay apart, which is kept as the timer's value.
-/

namespace Shimakaze

/-- The error codes the handlers distinguish. -/
inductive ErrorCode
  | eof
  | connectionReset
  | operationAborted
  | brokenPipe
  | other
  deriving DecidableEq

/-- `SmuxSession::Command`. -/
inductive Command
  | syn
  | fin
  | psh
  | nop
  | upd
  deriving DecidableEq

/-- What a stream asks of its session. -/
inductive SessionCall
  | sendFrame (command : Command) (streamId : UInt32) (payload : Bytes)
  | sendUpdate (streamId consumed window : UInt32)
  | streamClosed (streamId : UInt32)
  deriving DecidableEq

/-- A stream socket, as far as the code looks at it. -/
structure Socket where
  isOpen : Bool := false
  sendShutdown : Bool := false
  deriving DecidableEq

/-- `SmuxStream::PendingBuffer`. -/
structure PendingBuffer where
  data : Bytes
  offset : ℕ := 0
  deriving DecidableEq

/-- An outstanding `async_read_some`: still waiting for the kernel, or done with the bytes
it stored in the read buffer, its handler not run yet. -/
inductive ReadOp
  | waiting
  | stored (own : Bytes)
  deriving DecidableEq

/-- The connection attempt of a server-side stream. -/
inductive Connecting
  | idle
  | resolving
  | connecting
  deriving DecidableEq

/-- What was true when the send side of the socket was shut down. -/
structure ShutdownRecord where
  remoteFinReceived : Bool
  received : Bytes
  written : Bytes

/-- What passed through a stream so far. No function reads it. -/
structure History where
  /-- The bytes passed to `queue_outbound`. -/
  queued : Bytes := []
  /-- The decrypted payload bytes put in the write queue. -/
  received : Bytes := []
  /-- The payload bytes completely written to the local socket. -/
  written : Bytes := []
  /-- The calls of `shutdown(shutdown_send)`. -/
  shutdowns : List ShutdownRecord := []

/-- The size of `tcp_read_buffer_`. -/
def readBufferSize : ℕ := 32 * 1024

/-- `SmuxStream`. -/
structure SmuxStream where
  id : UInt32
  /-- Whether `session_.lock()` still finds the session. -/
  sessionAlive : Bool := true
  tcpSocket : Socket := {}
  localSocket : Option Socket := none
  qpp : QppStream
  tcpReadBuffer : Bytes := List.replicate readBufferSize 0
  /-- The outstanding reads, oldest first. -/
  reads : List ReadOp := []
  pendingOutbound : List PendingBuffer := []
  pendingTcpWrites : List Bytes := []
  numRead : UInt32 := 0
  numWritten : UInt32 := 0
  incr : UInt32 := 0
  peerConsumed : UInt32 := 0
  peerWindow : UInt32 := 262144
  tcpReady : Bool := false
  tcpWriteActive : Bool := false
  localFinSent : Bool := false
  remoteFinReceived : Bool := false
  closed : Bool := false
  serverConnecting : Bool := false
  connecting : Connecting := .idle
  /-- The wait of `close_timer_`, with its delay in seconds. -/
  closeTimer : Option ℕ := none
  history : History := {}

/-- A stream after a function ran on it, and the calls the function made on the session. -/
structure Outcome where
  stream : SmuxStream
  calls : List SessionCall := []

/-- Run a further function on the stream; its calls come after those made so far. -/
def Outcome.andThen (o : Outcome) (f : SmuxStream → Outcome) : Outcome :=
  ⟨(f o.stream).stream, o.calls ++ (f o.stream).calls⟩

@[simp] theorem Outcome.andThen_stream (o : Outcome) (f : SmuxStream → Outcome) :
    (o.andThen f).stream = (f o.stream).stream := rfl

@[simp] theorem Outcome.andThen_calls (o : Outcome) (f : SmuxStream → Outcome) :
    (o.andThen f).calls = o.calls ++ (f o.stream).calls := rfl

namespace SmuxStream

/-- The constructor. -/
def make (prims : QppPrims) (config : BaseConfig) (pad : Option QppPad) (id : UInt32) :
    SmuxStream :=
  { id := id, qpp := QppStream.make prims pad config.key }

/-- A function that makes no calls on the session. -/
def quiet (s : SmuxStream) : Outcome := ⟨s, []⟩

@[simp] theorem quiet_stream (s : SmuxStream) : s.quiet.stream = s := rfl

@[simp] theorem quiet_calls (s : SmuxStream) : s.quiet.calls = [] := rfl

/-! ### The outbound side -/

/-- `has_pending_outbound`. -/
def hasPendingOutbound (s : SmuxStream) : Bool := !s.pendingOutbound.isEmpty

/-- `start_tcp_read`: start another read, unless one of the four conditions is met. -/
def startTcpRead (s : SmuxStream) : SmuxStream :=
  if s.closed ∨ ¬ s.tcpReady ∨ s.localFinSent ∨ s.hasPendingOutbound then s
  else { s with reads := s.reads ++ [.waiting] }

/-- `queue_outbound`. -/
def queueOutbound (s : SmuxStream) (payload : Bytes) : SmuxStream :=
  if payload = [] then s
  else
    { s with
      pendingOutbound := s.pendingOutbound ++ [{ data := payload }]
      history := { s.history with queued := s.history.queued ++ payload } }

/-- `available_peer_window`: the credit left, zero when the difference of the counters is
negative as a signed number. -/
def availablePeerWindow (s : SmuxStream) : ℤ :=
  let inflight := s.numWritten - s.peerConsumed
  if inflight.toInt32 < 0 then 0 else (s.peerWindow.toNat : ℤ) - inflight.toNat

/-- `chunk_size`: the size of the next piece, for a front buffer with `remaining` bytes. -/
def chunkSize (config : BaseConfig) (s : SmuxStream) (remaining : ℕ) : ℕ :=
  let allowed :=
    if config.flowControlled then min remaining s.availablePeerWindow.toNat else remaining
  min allowed config.maxFrame

/-- The loop of `try_flush_outbound`. A round drops an exhausted buffer, stops for want of
credit, or sends the next piece of the front buffer. -/
def flushLoop (config : BaseConfig) : ℕ → SmuxStream → Outcome
  | 0, s => s.quiet
  | fuel + 1, s =>
      match s.pendingOutbound with
      | [] => s.quiet
      | front :: rest =>
          let remaining := front.data.length - front.offset
          if remaining = 0 then flushLoop config fuel { s with pendingOutbound := rest }
          else if config.flowControlled ∧ s.availablePeerWindow ≤ 0 then s.quiet
          else
            let chunkSize := s.chunkSize config remaining
            let chunk := (front.data.drop front.offset).take chunkSize
            let encrypted := s.qpp.encrypt chunk
            Outcome.andThen
              ⟨{ s with
                  qpp := encrypted.2
                  pendingOutbound := ⟨front.data, front.offset + chunkSize⟩ :: rest
                  numWritten := s.numWritten + UInt32.ofNat chunkSize },
                [.sendFrame .psh s.id encrypted.1]⟩
              (flushLoop config fuel)

/-- The bound on the rounds of the flush loop: each round takes a byte or a buffer. -/
def flushFuel (s : SmuxStream) : ℕ :=
  (s.pendingOutbound.map fun b => b.data.length - b.offset + 1).sum

/-- `try_flush_outbound`. -/
def tryFlushOutbound (config : BaseConfig) (s : SmuxStream) : Outcome :=
  if ¬ s.sessionAlive ∨ s.closed then s.quiet else flushLoop config s.flushFuel s

/-- The end of the read handler and of `on_update`: read on if nothing is left to send. -/
def readOn (s : SmuxStream) : Outcome :=
  (if s.hasPendingOutbound then s else s.startTcpRead).quiet

/-! ### Finishing -/

/-- `send_local_fin`. -/
def sendLocalFin (s : SmuxStream) : Outcome :=
  if s.localFinSent ∨ s.closed then s.quiet
  else
    ⟨{ s with localFinSent := true },
      if s.sessionAlive then [.sendFrame .fin s.id []] else []⟩

/-- `schedule_close_after_fin`. -/
def scheduleCloseAfterFin (config : BaseConfig) (s : SmuxStream) : SmuxStream :=
  { s with closeTimer := some (max 0 config.closewait.toInt).toNat }

/-- `maybe_finish`. -/
def maybeFinish (config : BaseConfig) (s : SmuxStream) : Outcome :=
  if s.closed then s.quiet
  else if s.localFinSent ∧ s.remoteFinReceived ∧ s.pendingTcpWrites = [] ∧
      ¬ s.tcpWriteActive ∧ s.pendingOutbound = [] then
    (s.scheduleCloseAfterFin config).quiet
  else s.quiet

/-- The part of `close` after `closed_` is set: the timer and the sockets. -/
def teardown (s : SmuxStream) : SmuxStream :=
  { s with
    closed := true
    closeTimer := none
    localSocket := s.localSocket.map fun l => if l.isOpen then ⟨false, true⟩ else l
    tcpSocket := if s.tcpSocket.isOpen then ⟨false, true⟩ else s.tcpSocket }

/-- `close`. -/
def close (s : SmuxStream) : Outcome :=
  if s.closed then s.quiet
  else
    s.sendLocalFin.andThen fun s =>
      ⟨s.teardown, if s.sessionAlive then [.streamClosed s.id] else []⟩

/-- `fail_and_close`. -/
def failAndClose (s : SmuxStream) : Outcome := s.close

/-! ### The inbound side -/

/-- `flush_tcp_writes`: start writing the front of the queue, unless a write is active. -/
def flushTcpWrites (s : SmuxStream) : SmuxStream :=
  if s.closed ∨ ¬ s.tcpReady ∨ s.tcpWriteActive ∨ s.pendingTcpWrites = [] then s
  else { s with tcpWriteActive := true }

/-- `enqueue_tcp_write`. -/
def enqueueTcpWrite (s : SmuxStream) (payload : Bytes) : SmuxStream :=
  flushTcpWrites
    { s with
      pendingTcpWrites := s.pendingTcpWrites ++ [payload]
      history := { s.history with received := s.history.received ++ payload } }

/-- `on_data`. -/
def onData (s : SmuxStream) (payload : Bytes) : Outcome :=
  if s.closed ∨ payload = [] then s.quiet
  else
    let decoded := s.qpp.decrypt payload
    (enqueueTcpWrite { s with qpp := decoded.2 } decoded.1).quiet

/-- The send side of the socket, shut down; the first of the two sockets that is open. -/
def shutdownSend (s : SmuxStream) : SmuxStream :=
  let record : ShutdownRecord :=
    ⟨s.remoteFinReceived, s.history.received, s.history.written⟩
  let history := { s.history with shutdowns := s.history.shutdowns ++ [record] }
  match s.localSocket with
  | some l =>
      if l.isOpen then
        { s with localSocket := some { l with sendShutdown := true }, history := history }
      else if s.tcpSocket.isOpen then
        { s with tcpSocket := { s.tcpSocket with sendShutdown := true }, history := history }
      else s
  | none =>
      if s.tcpSocket.isOpen then
        { s with tcpSocket := { s.tcpSocket with sendShutdown := true }, history := history }
      else s

/-- `shutdown_tcp_send_if_ready`. -/
def shutdownTcpSendIfReady (s : SmuxStream) : SmuxStream :=
  if ¬ s.remoteFinReceived ∨ s.tcpWriteActive ∨ s.pendingTcpWrites ≠ [] ∨ ¬ s.tcpReady then s
  else s.shutdownSend

/-- `on_fin`. -/
def onFin (config : BaseConfig) (s : SmuxStream) : Outcome :=
  if s.remoteFinReceived then s.quiet
  else maybeFinish config (shutdownTcpSendIfReady { s with remoteFinReceived := true })

/-- `on_update`. -/
def onUpdate (config : BaseConfig) (s : SmuxStream) (consumed window : UInt32) : Outcome :=
  (tryFlushOutbound config { s with peerConsumed := consumed, peerWindow := window }).andThen
    readOn

/-- `mark_payload_consumed`. -/
def markPayloadConsumed (config : BaseConfig) (s : SmuxStream) (bytes : ℕ) : Outcome :=
  if ¬ s.sessionAlive ∨ ¬ config.flowControlled ∨ bytes = 0 then s.quiet
  else
    let numRead := s.numRead + UInt32.ofNat bytes
    let incr := s.incr + UInt32.ofNat bytes
    if config.updateThreshold ≤ incr.toNat ∨ numRead = UInt32.ofNat bytes then
      ⟨{ s with numRead := numRead, incr := 0 },
        [.sendUpdate s.id numRead (UInt32.ofNat config.advertisedWindow)]⟩
    else quiet { s with numRead := numRead, incr := incr }

/-! ### Handlers -/

/-- The read handler without an error: the bytes are taken out of the shared buffer. -/
def readHandler (config : BaseConfig) (s : SmuxStream) (bytes : ℕ) : Outcome :=
  (tryFlushOutbound config (s.queueOutbound (s.tcpReadBuffer.take bytes))).andThen readOn

/-- The read handler with an error. -/
def readErrorHandler (config : BaseConfig) (s : SmuxStream) (error : ErrorCode) : Outcome :=
  if error = .eof ∨ error = .connectionReset ∨ error = .operationAborted then
    s.sendLocalFin.andThen (maybeFinish config)
  else s.failAndClose

/-- The write handler without an error, for the front buffer of the queue. -/
def writeHandler (config : BaseConfig) (s : SmuxStream) : Outcome :=
  let front := s.pendingTcpWrites.headD []
  let s :=
    { s with
      tcpWriteActive := false
      pendingTcpWrites := s.pendingTcpWrites.tail
      history := { s.history with written := s.history.written ++ front } }
  (markPayloadConsumed config s front.length).andThen fun s =>
    maybeFinish config s.flushTcpWrites.shutdownTcpSendIfReady

/-- The write handler with an error: the failed buffer stays at the front of the queue. -/
def writeErrorHandler (config : BaseConfig) (s : SmuxStream) (error : ErrorCode) : Outcome :=
  let s := { s with tcpWriteActive := false }
  if error = .operationAborted ∨ error = .connectionReset ∨ error = .brokenPipe then
    s.sendLocalFin.andThen (maybeFinish config)
  else s.failAndClose

/-- The handler of `async_resolve`. -/
def resolveHandler (s : SmuxStream) : Option ErrorCode → Outcome
  | some _ => failAndClose { s with connecting := .idle }
  | none =>
      quiet { s with connecting := .connecting, tcpSocket := { s.tcpSocket with isOpen := true } }

/-- The handler of `async_connect`, for a host and for a unix target alike. -/
def connectHandler (s : SmuxStream) : Option ErrorCode → Outcome
  | some _ => failAndClose { s with connecting := .idle, serverConnecting := false }
  | none =>
      let s := { s with connecting := .idle, serverConnecting := false, tcpReady := true }
      s.flushTcpWrites.startTcpRead.shutdownTcpSendIfReady.quiet

/-! ### Starting -/

/-- How a stream is started. -/
inductive Start
  | clientTcp
  | clientUnix
  | serverTcp
  | serverUnix
  deriving DecidableEq

/-- `start_client` for both kinds of sockets, `start_server`, and `start_server_unix` for a path
that fits into an endpoint; what comes of another one is said where the server is. -/
def start (s : SmuxStream) : Start → SmuxStream
  | .clientTcp =>
      (flushTcpWrites { s with tcpSocket := ⟨true, false⟩, tcpReady := true }).startTcpRead
  | .clientUnix =>
      (flushTcpWrites
        { s with localSocket := some ⟨true, false⟩, tcpReady := true }).startTcpRead
  | .serverTcp => { s with serverConnecting := true, connecting := .resolving }
  | .serverUnix =>
      { s with
        serverConnecting := true
        localSocket := some ⟨true, false⟩
        connecting := .connecting }

/-! ### Completions -/

/-- The completion of an outstanding operation of a stream. -/
inductive Completion
  /-- The kernel stores bytes for the oldest waiting read. -/
  | readStored (data : Bytes)
  /-- The handler of the oldest read runs, after it stored its bytes. -/
  | readDone
  | readFailed (error : ErrorCode)
  /-- The active write has written its whole buffer. -/
  | writeDone
  | writeFailed (error : ErrorCode)
  | resolved (error : Option ErrorCode)
  | connected (error : Option ErrorCode)
  | closeTimerExpired
  deriving DecidableEq

/-- Give the bytes to the oldest waiting read. -/
def storeRead (data : Bytes) : List ReadOp → Option (List ReadOp)
  | [] => none
  | .waiting :: ops => some (.stored data :: ops)
  | .stored own :: ops => (storeRead data ops).map (.stored own :: ·)

/-- Run a completion to its handler; `none` when no such operation is outstanding. -/
def complete (config : BaseConfig) (s : SmuxStream) : Completion → Option Outcome
  | .readStored data =>
      if data.length ≤ readBufferSize then
        (storeRead data s.reads).map fun reads =>
          quiet { s with
            reads := reads
            tcpReadBuffer := data ++ s.tcpReadBuffer.drop data.length }
      else none
  | .readDone =>
      match s.reads with
      | .stored own :: ops => some (readHandler config { s with reads := ops } own.length)
      | _ => none
  | .readFailed error =>
      match s.reads with
      | .waiting :: ops => some (readErrorHandler config { s with reads := ops } error)
      | _ => none
  | .writeDone => if s.tcpWriteActive then some (writeHandler config s) else none
  | .writeFailed error =>
      if s.tcpWriteActive then some (writeErrorHandler config s error) else none
  | .resolved error => if s.connecting = .resolving then some (resolveHandler s error) else none
  | .connected error =>
      if s.connecting = .connecting then some (connectHandler s error) else none
  | .closeTimerExpired =>
      if s.closeTimer.isSome then some (close { s with closeTimer := none }) else none

end SmuxStream

end Shimakaze
