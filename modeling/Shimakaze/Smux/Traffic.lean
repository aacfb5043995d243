import Shimakaze.Smux.StreamMachine

/-!
# The Traffic of a Stream

The properties of two streams joined to each other depend on what passes through a stream,
not on its sockets, flags and timers. `Traffic` is that part of the state, and
`react_effect` sorts the events of `StreamEvent` into four kinds by what they do to it: an
event flushes, delivers a payload, completes a write, or leaves the traffic alone.

## Main results

* `react_effect`: the four kinds.
* `receive_traffic`, `writeHandler_traffic`, `flush_traffic`: what the first three do.
-/

namespace Shimakaze

/-! ### Frames -/

/-- A FIN frame. -/
def SessionCall.isFin : SessionCall → Bool
  | .sendFrame .fin _ _ => true
  | _ => false

/-- A PSH frame. -/
def SessionCall.isPsh : SessionCall → Bool
  | .sendFrame .psh _ _ => true
  | _ => false

/-- A window update. -/
def SessionCall.isUpdate : SessionCall → Bool
  | .sendUpdate _ _ _ => true
  | _ => false

/-- A call that carries neither data nor credit. -/
def SessionCall.isIdle (call : SessionCall) : Prop :=
  call.isPsh = false ∧ call.isUpdate = false

/-! ### The view -/

/-- What passes through a stream. -/
structure Traffic where
  id : UInt32
  pad : Option QppPad
  pendingOutbound : List PendingBuffer
  numWritten : UInt32
  peerConsumed : UInt32
  peerWindow : UInt32
  writeRand : Qpp.Rand
  queued : Bytes
  /-- The bytes in the write queue. -/
  unwritten : Bytes
  numRead : UInt32
  incr : UInt32
  readRand : Qpp.Rand
  received : Bytes
  written : Bytes

/-- Put a delivered payload in the write queue. -/
def Traffic.receive (v : Traffic) (payload : Bytes) : Traffic :=
  let decoded := QppStream.decipher v.pad v.readRand payload
  { v with
    readRand := decoded.2
    unwritten := v.unwritten ++ decoded.1
    received := v.received ++ decoded.1 }

namespace SmuxStream

/-- The traffic of a stream. -/
def traffic (s : SmuxStream) : Traffic where
  id := s.id
  pad := s.qpp.pad
  pendingOutbound := s.pendingOutbound
  numWritten := s.numWritten
  peerConsumed := s.peerConsumed
  peerWindow := s.peerWindow
  writeRand := s.qpp.writeRand
  queued := s.history.queued
  unwritten := s.pendingTcpWrites.flatten
  numRead := s.numRead
  incr := s.incr
  readRand := s.qpp.readRand
  received := s.history.received
  written := s.history.written

variable {config : BaseConfig} {s t : SmuxStream}

theorem startTcpRead_traffic (s : SmuxStream) : s.startTcpRead.traffic = s.traffic := by
  rw [startTcpRead]; split_ifs <;> rfl

theorem flushTcpWrites_traffic (s : SmuxStream) : s.flushTcpWrites.traffic = s.traffic := by
  rw [flushTcpWrites]; split_ifs <;> rfl

theorem shutdownTcpSendIfReady_traffic (s : SmuxStream) :
    s.shutdownTcpSendIfReady.traffic = s.traffic :=
  s.shutdownTcpSendIfReady_view traffic fun _ _ _ _ => rfl

theorem maybeFinish_traffic (s : SmuxStream) :
    (maybeFinish config s).stream.traffic = s.traffic :=
  maybeFinish_view config s traffic fun _ _ => rfl

theorem close_traffic (s : SmuxStream) : s.close.stream.traffic = s.traffic :=
  s.close_view traffic fun _ _ _ _ _ _ => rfl

/-- `send_local_fin` and `close` make no calls that carry data or credit. -/
theorem sendLocalFin_isIdle (s : SmuxStream) : ∀ call ∈ s.sendLocalFin.calls, call.isIdle := by
  rw [sendLocalFin_calls]
  split_ifs <;> simp [SessionCall.isIdle, SessionCall.isPsh, SessionCall.isUpdate]

theorem close_isIdle (s : SmuxStream) : ∀ call ∈ s.close.calls, call.isIdle := by
  cases h : s.closed with
  | true => rw [s.close_of_closed h]; simp
  | false =>
      rw [s.close_of_open h]
      intro call hcall
      rcases List.mem_append.mp hcall with hcall | hcall
      · exact s.sendLocalFin_isIdle call hcall
      · split_ifs at hcall
        · rw [List.mem_singleton.mp hcall]
          exact ⟨rfl, rfl⟩
        · exact absurd hcall (by simp)

/-! ### Events that flush -/

/-- The state an event hands to `try_flush_outbound`, if it flushes. -/
def flushInput (s : SmuxStream) : StreamEvent → Option SmuxStream
  | .completion .readDone =>
      match s.reads with
      | .stored own :: ops =>
          some (queueOutbound { s with reads := ops } (s.tcpReadBuffer.take own.length))
      | _ => none
  | .update consumed window => some { s with peerConsumed := consumed, peerWindow := window }
  | _ => none

/-- The flags of a flushed state are those of the stream. -/
theorem flushInput_flags {e : StreamEvent} (h : s.flushInput e = some t) :
    t.localFinSent = s.localFinSent ∧ t.sessionAlive = s.sessionAlive ∧
      t.closed = s.closed := by
  unfold flushInput at h
  split at h
  · split at h
    · obtain rfl := Option.some.inj h
      unfold queueOutbound
      split_ifs <;> exact ⟨rfl, rfl, rfl⟩
    · exact absurd h (by simp)
  · obtain rfl := Option.some.inj h
    exact ⟨rfl, rfl, rfl⟩
  · exact absurd h (by simp)

/-- An event that flushes is a flush followed by `readOn`. -/
theorem react_of_flushInput {e : StreamEvent} {o : Outcome} (h : s.flushInput e = some t)
    (hreact : s.react config e = some o) : o = (tryFlushOutbound config t).andThen readOn := by
  unfold flushInput at h
  split at h
  · split at h
    · next own ops hreads =>
      obtain rfl := Option.some.inj h
      obtain ⟨own', ops', hreads', rfl⟩ := react_readDone.mp hreact
      rw [hreads] at hreads'
      obtain ⟨rfl, rfl⟩ : own = own' ∧ ops = ops' := by simpa using hreads'
      rfl
    · exact absurd h (by simp)
  · obtain rfl := Option.some.inj h
    obtain ⟨-, -, -, rfl⟩ := react_update.mp hreact
    rfl
  · exact absurd h (by simp)

/-- Flushing and reading on changes the traffic as the flush does. -/
theorem flush_traffic (config : BaseConfig) (t : SmuxStream) :
    ((tryFlushOutbound config t).andThen readOn).stream.traffic =
      (tryFlushOutbound config t).stream.traffic := by
  rw [Outcome.andThen_stream]
  rcases (tryFlushOutbound config t).stream.readOn_eq with hr | ⟨-, hr⟩
  · rw [hr, quiet_stream]
  · rw [hr, quiet_stream, startTcpRead_traffic]

/-- A flush makes PSH calls only. -/
theorem tryFlushOutbound_isPsh (config : BaseConfig) (t : SmuxStream) :
    ∀ call ∈ (tryFlushOutbound config t).calls, call.isPsh = true := by
  by_cases hdead : t.sessionAlive = false ∨ t.closed
  · rw [tryFlushOutbound_of_dead hdead]
    simp
  · rw [not_or, Bool.not_eq_false, Bool.not_eq_true] at hdead
    obtain ⟨pieces, hf⟩ := tryFlushOutbound_flushed config hdead.1 hdead.2
    intro call hcall
    rw [hf.calls, List.mem_map] at hcall
    obtain ⟨piece, -, rfl⟩ := hcall
    rfl

/-! ### Deliveries and writes -/

/-- Delivering a payload to an open stream. -/
theorem receive_traffic (hopen : s.closed = false) (payload : Bytes) :
    (s.onData payload).stream.traffic = s.traffic.receive payload ∧
      (s.onData payload).calls = [] := by
  unfold onData
  by_cases hempty : payload = []
  · rw [if_pos (Or.inr hempty), quiet_stream, hempty]
    refine ⟨?_, rfl⟩
    simp only [Traffic.receive, QppStream.decipher_nil, List.append_nil]
  · rw [if_neg (by simp [hopen, hempty]), quiet_stream, enqueueTcpWrite,
      flushTcpWrites_traffic]
    refine ⟨?_, rfl⟩
    simp only [traffic, Traffic.receive, QppStream.decrypt, List.flatten_append,
      List.flatten_cons, List.flatten_nil, List.append_nil]

/-- The traffic after a completed write, the two counters of the receiver apart. -/
theorem writeHandler_traffic (config : BaseConfig) (s : SmuxStream) :
    let o := markPayloadConsumed config s (s.pendingTcpWrites.headD []).length
    (writeHandler config s).stream.traffic =
        { s.traffic with
          unwritten := s.pendingTcpWrites.tail.flatten
          written := s.traffic.written ++ s.pendingTcpWrites.headD []
          numRead := o.stream.numRead
          incr := o.stream.incr } ∧
      (writeHandler config s).calls = o.calls := by
  simp only [writeHandler, Outcome.andThen_stream, Outcome.andThen_calls, maybeFinish_calls,
    List.append_nil]
  rw [maybeFinish_traffic, shutdownTcpSendIfReady_traffic, flushTcpWrites_traffic]
  unfold markPayloadConsumed
  simp only
  split_ifs <;> exact ⟨rfl, rfl⟩

/-- The front of the write queue is the front of the bytes not written. -/
theorem unwritten_eq (s : SmuxStream) :
    s.traffic.unwritten = s.pendingTcpWrites.headD [] ++ s.pendingTcpWrites.tail.flatten := by
  simp only [traffic]
  cases s.pendingTcpWrites <;> rfl

/-! ### The four kinds of events -/

/-- What the event `e` does to the traffic of `s`, with the outcome `o`. -/
inductive Effect (config : BaseConfig) (s : SmuxStream) (e : StreamEvent) (o : Outcome) : Prop
  | flush (t : SmuxStream) (hinput : s.flushInput e = some t)
      (ho : o = (tryFlushOutbound config t).andThen readOn)
  | data (payload : Bytes) (he : e = .data payload)
      (htraffic : o.stream.traffic = s.traffic.receive payload) (hcalls : o.calls = [])
  | written (he : e = .completion .writeDone) (ho : o = writeHandler config s)
  | idle (hdata : ∀ payload, e ≠ .data payload) (hflush : s.flushInput e = none)
      (htraffic : o.stream.traffic = s.traffic) (hcalls : ∀ call ∈ o.calls, call.isIdle)

theorem sendLocalFin_maybeFinish_traffic (config : BaseConfig) (s : SmuxStream) :
    (s.sendLocalFin.andThen (maybeFinish config)).stream.traffic = s.traffic ∧
      ∀ call ∈ (s.sendLocalFin.andThen (maybeFinish config)).calls, call.isIdle := by
  rw [Outcome.andThen_stream, Outcome.andThen_calls, maybeFinish_traffic, sendLocalFin_stream,
    maybeFinish_calls, List.append_nil]
  exact ⟨rfl, s.sendLocalFin_isIdle⟩

/-- **Every event is of one of the four kinds.** -/
theorem react_effect {e : StreamEvent} {o : Outcome} (hreact : s.react config e = some o) :
    Effect config s e o := by
  cases e with
  | completion c =>
      cases c with
      | readStored data =>
          obtain ⟨-, reads, -, rfl⟩ := react_readStored.mp hreact
          exact .idle (by simp) rfl rfl (by simp)
      | readDone =>
          obtain ⟨own, ops, hreads, -⟩ := react_readDone.mp hreact
          have hinput : s.flushInput (.completion .readDone) = some
              (queueOutbound { s with reads := ops } (s.tcpReadBuffer.take own.length)) := by
            simp only [flushInput, hreads]
          exact .flush _ hinput (react_of_flushInput hinput hreact)
      | readFailed error =>
          obtain ⟨ops, -, rfl⟩ := react_readFailed.mp hreact
          rw [readErrorHandler]
          split_ifs
          · obtain ⟨htraffic, hcalls⟩ :=
              sendLocalFin_maybeFinish_traffic config { s with reads := ops }
            exact .idle (by simp) rfl htraffic hcalls
          · exact .idle (by simp) rfl (close_traffic _) (close_isIdle _)
      | writeDone =>
          obtain ⟨-, rfl⟩ := react_writeDone.mp hreact
          exact .written rfl rfl
      | writeFailed error =>
          obtain ⟨-, rfl⟩ := react_writeFailed.mp hreact
          unfold writeErrorHandler
          simp only
          split_ifs
          · obtain ⟨htraffic, hcalls⟩ :=
              sendLocalFin_maybeFinish_traffic config { s with tcpWriteActive := false }
            exact .idle (by simp) rfl htraffic hcalls
          · exact .idle (by simp) rfl (close_traffic _) (close_isIdle _)
      | resolved error =>
          obtain ⟨-, rfl⟩ := react_resolved.mp hreact
          cases error with
          | some error => exact .idle (by simp) rfl (close_traffic _) (close_isIdle _)
          | none => exact .idle (by simp) rfl rfl (by simp [resolveHandler])
      | connected error =>
          obtain ⟨-, rfl⟩ := react_connected.mp hreact
          cases error with
          | some error => exact .idle (by simp) rfl (close_traffic _) (close_isIdle _)
          | none =>
              refine .idle (by simp) rfl ?_ (by simp [connectHandler])
              simp only [connectHandler, quiet_stream]
              rw [shutdownTcpSendIfReady_traffic, startTcpRead_traffic, flushTcpWrites_traffic]
              rfl
      | closeTimerExpired =>
          obtain ⟨-, rfl⟩ := react_closeTimerExpired.mp hreact
          exact .idle (by simp) rfl (close_traffic _) (close_isIdle _)
  | data payload =>
      obtain ⟨hopen, -, rfl⟩ := react_data.mp hreact
      obtain ⟨htraffic, hcalls⟩ := receive_traffic hopen payload
      exact .data payload rfl htraffic hcalls
  | fin =>
      obtain ⟨-, -, rfl⟩ := react_fin.mp hreact
      rw [onFin]
      split_ifs
      · exact .idle (by simp) rfl rfl (by simp)
      · refine .idle (by simp) rfl ?_ (by simp)
        rw [maybeFinish_traffic, shutdownTcpSendIfReady_traffic]
        rfl
  | update consumed window => exact .flush _ rfl (react_of_flushInput rfl hreact)
  | close =>
      obtain rfl := react_close.mp hreact
      exact .idle (by simp) rfl s.close_traffic s.close_isIdle
  | sessionExpired =>
      obtain rfl := react_sessionExpired.mp hreact
      exact .idle (by simp) rfl rfl (by simp)

/-! ### Starting -/

/-- Starting a stream changes neither its traffic nor whether it is live. -/
theorem start_traffic (s : SmuxStream) (kind : SmuxStream.Start) :
    (s.start kind).traffic = s.traffic ∧ (s.start kind).sessionAlive = s.sessionAlive ∧
      (s.start kind).closed = s.closed := by
  cases kind with
  | clientTcp =>
      simp only [start, startTcpRead_traffic, flushTcpWrites_traffic, startTcpRead_sessionAlive,
        flushTcpWrites_sessionAlive, startTcpRead_closed, flushTcpWrites_closed, and_self,
        and_true]
      rfl
  | clientUnix =>
      simp only [start, startTcpRead_traffic, flushTcpWrites_traffic, startTcpRead_sessionAlive,
        flushTcpWrites_sessionAlive, startTcpRead_closed, flushTcpWrites_closed, and_self,
        and_true]
      rfl
  | serverTcp => exact ⟨rfl, rfl, rfl⟩
  | serverUnix => exact ⟨rfl, rfl, rfl⟩

end SmuxStream

end Shimakaze
