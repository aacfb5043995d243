import Shimakaze.Smux.StreamMachine

/-!
# The Single Outstanding Read

All reads of a stream go into the one `tcp_read_buffer_`, and nothing records that a read
is in flight: `start_tcp_read` looks at four conditions, none of which is about reads. The
design relies on a call being made only when the last read has been handled. That is so in
the start functions and in the read handler, but `on_update` calls it too.

`SingleRead` says what the design wants of a state: at most one read, its handler finds
the bytes the read itself stored, and the queue holds no more than one read's worth. The
module shows which deliveries break it: exactly the window updates that arrive while a
read is outstanding and the local side is not finished.

## Main results

* `ReadDiscipline`: the invariant that carries `SingleRead`.
* `ReadDiscipline.react`: every event keeps it, an untimely update apart.
* `always_singleRead_iff`: **a run keeps `SingleRead` throughout exactly when each of its
  window updates is timely.**
-/

namespace Shimakaze

namespace SmuxStream

/-- The sizes of the buffers in the outbound queue, the sent parts included. -/
def heldBytes (buffers : List PendingBuffer) : ℕ := (buffers.map fun b => b.data.length).sum

/-- At most one read into the shared buffer is outstanding, the bytes at the front of the
buffer are those it stored, and at most one read's worth of bytes is queued. -/
structure SingleRead (s : SmuxStream) : Prop where
  single : s.reads.length ≤ 1
  own : ∀ own ops, s.reads = .stored own :: ops → s.tcpReadBuffer.take own.length = own
  held : heldBytes s.pendingOutbound ≤ readBufferSize

/-- `SingleRead` with what it rests on: a read is outstanding only on a connected socket and
with an empty queue, and a connecting stream has no connected socket. -/
structure ReadDiscipline (s : SmuxStream) : Prop extends SingleRead s where
  ready : s.reads ≠ [] → s.tcpReady ∧ s.pendingOutbound = []
  connecting : s.connecting ≠ .idle → s.tcpReady = false
  fits : ∀ own ops, s.reads = .stored own :: ops → own.length ≤ readBufferSize

variable {config : BaseConfig} {s t : SmuxStream}

/-- The invariant is about the reading side of a stream only. -/
theorem ReadDiscipline.of_reading (h : s.reading = t.reading) (hs : ReadDiscipline s) :
    ReadDiscipline t := by
  simp only [reading, outbound, readiness, Prod.mk.injEq, OutboundView.mk.injEq,
    ReadinessView.mk.injEq] at h
  obtain ⟨⟨hreads, hbuffer, hpending, -⟩, hready, hconnecting⟩ := h
  obtain ⟨⟨hsingle, hown, hheld⟩, hidle, hconn, hfits⟩ := hs
  rw [hreads] at hsingle hown hidle hfits
  rw [hbuffer] at hown
  rw [hpending] at hheld hidle
  rw [hready] at hidle hconn
  rw [hconnecting] at hconn
  exact ⟨⟨hsingle, hown, hheld⟩, hidle, hconn, hfits⟩

/-! ### The two functions that touch the reading side -/

/-- The flush loop never adds a buffer nor makes one longer. -/
theorem flushLoop_heldBytes (config : BaseConfig) (fuel : ℕ) (s : SmuxStream) :
    heldBytes (flushLoop config fuel s).stream.pendingOutbound ≤
      heldBytes s.pendingOutbound := by
  induction fuel generalizing s with
  | zero => exact le_rfl
  | succ fuel ih =>
      rw [flushLoop]
      split
      · exact le_rfl
      · next front rest hp =>
          have hcons : heldBytes s.pendingOutbound = front.data.length + heldBytes rest := by
            rw [hp]; rfl
          simp only
          split_ifs
          · have hrest := ih { s with pendingOutbound := rest }
            simp only at hrest
            omega
          · exact le_rfl
          · rw [Outcome.andThen_stream, hcons]
            exact ih _

theorem tryFlushOutbound_heldBytes (config : BaseConfig) (s : SmuxStream) :
    heldBytes (tryFlushOutbound config s).stream.pendingOutbound ≤
      heldBytes s.pendingOutbound := by
  rw [tryFlushOutbound]
  split_ifs
  · exact le_rfl
  · exact flushLoop_heldBytes config _ s

/-- A flush leaves the reads, the buffer and the readiness alone. -/
theorem tryFlushOutbound_reads (config : BaseConfig) (s : SmuxStream) :
    ((tryFlushOutbound config s).stream.reads = s.reads ∧
      (tryFlushOutbound config s).stream.tcpReadBuffer = s.tcpReadBuffer) ∧
    ((tryFlushOutbound config s).stream.readiness = s.readiness ∧
      (tryFlushOutbound config s).stream.closed = s.closed ∧
      (tryFlushOutbound config s).stream.localFinSent = s.localFinSent) := by
  obtain ⟨sent, pending, h⟩ := tryFlushOutbound_stream config s
  rw [h]
  exact ⟨⟨rfl, rfl⟩, rfl, rfl, rfl⟩

/-- A flush with an empty queue leaves it empty. -/
theorem tryFlushOutbound_pending_nil (h : s.pendingOutbound = []) :
    (tryFlushOutbound config s).stream.pendingOutbound = [] := by
  by_cases hdead : s.sessionAlive = false ∨ s.closed
  · rw [tryFlushOutbound_of_dead hdead]
    exact h
  · rw [not_or, Bool.not_eq_false, Bool.not_eq_true] at hdead
    obtain ⟨pieces, hf⟩ := tryFlushOutbound_flushed config hdead.1 hdead.2
    have hbytes := hf.bytes
    rw [outboundBytes, h, pendingBytes_nil] at hbytes
    rcases hf.stop with hstop | ⟨-, -, hstop⟩
    · exact hstop
    · exact absurd (List.append_eq_nil_iff.mp hbytes.symm).2 hstop

/-- A stream without a read may start one, and may flush. -/
theorem ReadDiscipline.of_no_reads (hreads : s.reads = [])
    (hheld : heldBytes s.pendingOutbound ≤ readBufferSize)
    (hconn : s.connecting ≠ .idle → s.tcpReady = false) : ReadDiscipline s := by
  refine ⟨⟨?_, ?_, hheld⟩, ?_, hconn, ?_⟩
  · rw [hreads]; exact Nat.zero_le 1
  · intro own ops h
    rw [hreads] at h
    exact absurd h (by simp)
  · intro h
    exact absurd hreads h
  · intro own ops h
    rw [hreads] at h
    exact absurd h (by simp)

theorem ReadDiscipline.startTcpRead (h : ReadDiscipline s)
    (hwhen : s.reads = [] ∨ s.localFinSent) : ReadDiscipline s.startTcpRead := by
  rw [SmuxStream.startTcpRead]
  split_ifs with hcond
  · exact h
  · simp only [not_or, Bool.not_eq_true, Bool.not_eq_false, hasPendingOutbound,
      Bool.not_eq_false', List.isEmpty_iff] at hcond
    obtain ⟨-, hready, hfin, hpending⟩ := hcond
    have hreads : s.reads = [] := by
      rcases hwhen with hreads | hwhen
      · exact hreads
      · exact absurd hwhen (by simp [hfin])
    refine ⟨⟨?_, ?_, h.held⟩, ?_, h.connecting, ?_⟩
    · simp [hreads]
    · simp [hreads]
    · intro _
      exact ⟨hready, hpending⟩
    · simp [hreads]

/-- The common end of the read handler and of `on_update`. -/
theorem ReadDiscipline.flush_readOn (h : ReadDiscipline s)
    (hwhen : s.reads = [] ∨ s.localFinSent) :
    ReadDiscipline ((tryFlushOutbound config s).andThen readOn).stream := by
  obtain ⟨⟨hreads, hbuffer⟩, hreadiness, -, hfin⟩ := tryFlushOutbound_reads config s
  simp only [readiness, ReadinessView.mk.injEq] at hreadiness
  have hflushed : ReadDiscipline (tryFlushOutbound config s).stream := by
    refine ⟨⟨?_, ?_, ?_⟩, ?_, ?_, ?_⟩
    · rw [hreads]; exact h.single
    · rw [hreads, hbuffer]; exact h.own
    · exact (tryFlushOutbound_heldBytes config s).trans h.held
    · rw [hreads, hreadiness.1]
      intro hne
      exact ⟨(h.ready hne).1, tryFlushOutbound_pending_nil (h.ready hne).2⟩
    · rw [hreadiness.1, hreadiness.2]; exact h.connecting
    · rw [hreads]; exact h.fits
  rw [Outcome.andThen_stream]
  rcases (tryFlushOutbound config s).stream.readOn_eq with hr | ⟨-, hr⟩
  · rw [hr]; exact hflushed
  · rw [hr, quiet_stream]
    exact hflushed.startTcpRead (by rw [hreads, hfin]; exact hwhen)

/-! ### The events -/

/-- The kernel stores bytes for the one outstanding read. -/
theorem ReadDiscipline.readStored (h : ReadDiscipline s) {data : Bytes} {reads : List ReadOp}
    (hsize : data.length ≤ readBufferSize) (hstore : storeRead data s.reads = some reads) :
    ReadDiscipline { s with
      reads := reads, tcpReadBuffer := data ++ s.tcpReadBuffer.drop data.length } := by
  have hsingle := h.single
  cases hreads : s.reads with
  | nil => rw [hreads] at hstore; exact absurd hstore (by simp [storeRead])
  | cons op ops =>
      rw [hreads, List.length_cons] at hsingle
      obtain rfl : ops = [] := List.length_eq_zero_iff.mp (by omega)
      cases op with
      | stored own =>
          rw [hreads] at hstore
          exact absurd hstore (by simp [storeRead])
      | waiting =>
          rw [hreads] at hstore
          obtain rfl : [.stored data] = reads := Option.some.inj hstore
          refine ⟨⟨le_rfl, ?_, h.held⟩, ?_, h.connecting, ?_⟩
          · rintro own ops hcons
            obtain ⟨rfl, rfl⟩ : data = own ∧ [] = ops := by simpa using hcons
            exact List.take_left
          · intro _
            exact h.ready (by simp [hreads])
          · rintro own ops hcons
            obtain ⟨rfl, rfl⟩ : data = own ∧ [] = ops := by simpa using hcons
            exact hsize

/-- The read handler queues what its own read stored and may start the next read. -/
theorem ReadDiscipline.readDone (h : ReadDiscipline s) {own : Bytes} {ops : List ReadOp}
    (hreads : s.reads = .stored own :: ops) :
    ReadDiscipline (readHandler config { s with reads := ops } own.length).stream := by
  have hops : ops = [] := by
    have hsingle := h.single
    rw [hreads, List.length_cons] at hsingle
    exact List.length_eq_zero_iff.mp (by omega)
  obtain ⟨hready, hpending⟩ := h.ready (by simp [hreads])
  have hown := h.own own ops hreads
  have hfits := h.fits own ops hreads
  rw [readHandler]
  refine ReadDiscipline.flush_readOn (ReadDiscipline.of_no_reads ?_ ?_ ?_) (Or.inl ?_)
  · rw [queueOutbound]; split_ifs <;> exact hops
  · rw [queueOutbound]
    split_ifs
    · exact h.held
    · simp only [hown, hpending, List.nil_append, heldBytes, List.map_cons, List.map_nil,
        List.sum_cons, List.sum_nil, Nat.add_zero]
      exact hfits
  · rw [queueOutbound]; split_ifs <;> exact h.connecting
  · rw [queueOutbound]; split_ifs <;> exact hops

/-- A read that failed leaves none outstanding. -/
theorem ReadDiscipline.readFailed (h : ReadDiscipline s) {ops : List ReadOp}
    {error : ErrorCode} (hreads : s.reads = .waiting :: ops) :
    ReadDiscipline (readErrorHandler config { s with reads := ops } error).stream := by
  have hops : ops = [] := by
    have hsingle := h.single
    rw [hreads, List.length_cons] at hsingle
    exact List.length_eq_zero_iff.mp (by omega)
  refine ReadDiscipline.of_reading (readErrorHandler_reading _ error).symm ?_
  exact ReadDiscipline.of_no_reads hops h.held h.connecting

/-- Connecting succeeds once, on a stream that has never read. -/
theorem ReadDiscipline.connected (h : ReadDiscipline s) (hconn : s.connecting = .connecting)
    (error : Option ErrorCode) : ReadDiscipline (connectHandler s error).stream := by
  have hready : s.tcpReady = false := h.connecting (by simp [hconn])
  have hreads : s.reads = [] := by
    by_contra hne
    exact absurd (h.ready hne).1 (by simp [hready])
  cases error with
  | some error =>
      refine ReadDiscipline.of_reading (close_reading _).symm ?_
      exact ReadDiscipline.of_no_reads hreads h.held (by simp)
  | none =>
      simp only [connectHandler, quiet_stream]
      refine ReadDiscipline.of_reading (shutdownTcpSendIfReady_reading _).symm ?_
      refine ReadDiscipline.startTcpRead
        (ReadDiscipline.of_reading (flushTcpWrites_reading _).symm ?_) (Or.inl ?_)
      · exact ReadDiscipline.of_no_reads hreads h.held (by simp)
      · have hout := flushTcpWrites_outbound
          { s with connecting := .idle, serverConnecting := false, tcpReady := true }
        exact (congrArg OutboundView.reads hout).trans hreads

/-- Resolving the target does not touch the reads. -/
theorem ReadDiscipline.resolved (h : ReadDiscipline s) (hres : s.connecting = .resolving)
    (error : Option ErrorCode) : ReadDiscipline (resolveHandler s error).stream := by
  have hready : s.tcpReady = false := h.connecting (by simp [hres])
  have hreads : s.reads = [] := by
    by_contra hne
    exact absurd (h.ready hne).1 (by simp [hready])
  cases error with
  | some error =>
      refine ReadDiscipline.of_reading (close_reading _).symm ?_
      exact ReadDiscipline.of_no_reads hreads h.held (by simp)
  | none => exact ReadDiscipline.of_no_reads hreads h.held fun _ => hready

/-- An event is timely when it is not a window update that finds a read outstanding on a
stream that has not sent its FIN. -/
def TimelyUpdate (s : SmuxStream) : StreamEvent → Prop
  | .update _ _ => s.reads = [] ∨ s.localFinSent
  | _ => True

/-- **Every timely event keeps the discipline.** -/
theorem ReadDiscipline.react (h : ReadDiscipline s) {e : StreamEvent} {o : Outcome}
    (htimely : s.TimelyUpdate e) (hreact : s.react config e = some o) :
    ReadDiscipline o.stream := by
  cases e with
  | completion c =>
      cases c with
      | readStored data =>
          obtain ⟨hsize, reads, hstore, rfl⟩ := react_readStored.mp hreact
          exact h.readStored hsize hstore
      | readDone =>
          obtain ⟨own, ops, hreads, rfl⟩ := react_readDone.mp hreact
          exact h.readDone hreads
      | readFailed error =>
          obtain ⟨ops, hreads, rfl⟩ := react_readFailed.mp hreact
          exact h.readFailed hreads
      | writeDone =>
          obtain ⟨-, rfl⟩ := react_writeDone.mp hreact
          exact h.of_reading (writeHandler_reading s).symm
      | writeFailed error =>
          obtain ⟨-, rfl⟩ := react_writeFailed.mp hreact
          exact h.of_reading (writeErrorHandler_reading s error).symm
      | resolved error =>
          obtain ⟨hres, rfl⟩ := react_resolved.mp hreact
          exact h.resolved hres error
      | connected error =>
          obtain ⟨hconn, rfl⟩ := react_connected.mp hreact
          exact h.connected hconn error
      | closeTimerExpired =>
          obtain ⟨-, rfl⟩ := react_closeTimerExpired.mp hreact
          exact ReadDiscipline.of_reading (s := s)
            (close_reading { s with closeTimer := none }).symm h
  | data payload =>
      obtain ⟨-, -, rfl⟩ := react_data.mp hreact
      exact h.of_reading (s.onData_reading payload).symm
  | fin =>
      obtain ⟨-, -, rfl⟩ := react_fin.mp hreact
      exact h.of_reading s.onFin_reading.symm
  | update consumed window =>
      obtain ⟨-, -, -, rfl⟩ := react_update.mp hreact
      rw [onUpdate]
      exact ReadDiscipline.flush_readOn ⟨⟨h.single, h.own, h.held⟩, h.ready, h.connecting,
        h.fits⟩ htimely
  | close =>
      obtain rfl := react_close.mp hreact
      exact h.of_reading s.close_reading.symm
  | sessionExpired =>
      obtain rfl := react_sessionExpired.mp hreact
      exact ReadDiscipline.of_reading (s := s) rfl h

/-- An untimely update starts a second read. -/
theorem ReadDiscipline.untimely (h : ReadDiscipline s) {e : StreamEvent} {o : Outcome}
    (huntimely : ¬ s.TimelyUpdate e) (hreact : s.react config e = some o) :
    ¬ SingleRead o.stream := by
  cases e with
  | update consumed window =>
      obtain ⟨hopen, -, -, rfl⟩ := react_update.mp hreact
      simp only [TimelyUpdate, not_or, Bool.not_eq_true] at huntimely
      obtain ⟨hreads, hfin⟩ := huntimely
      obtain ⟨hready, hpending⟩ := h.ready hreads
      set u : SmuxStream := { s with peerConsumed := consumed, peerWindow := window } with hu
      obtain ⟨⟨hreads', -⟩, hreadiness, hclosed', hfin'⟩ := tryFlushOutbound_reads config u
      have hpending' : (tryFlushOutbound config u).stream.pendingOutbound = [] :=
        tryFlushOutbound_pending_nil hpending
      have hready' : (tryFlushOutbound config u).stream.tcpReady = true :=
        (congrArg ReadinessView.tcpReady hreadiness).trans hready
      have hsecond : ((tryFlushOutbound config u).andThen readOn).stream.reads =
          s.reads ++ [.waiting] := by
        simp only [Outcome.andThen_stream, readOn, quiet_stream, hasPendingOutbound,
          hpending', List.isEmpty_nil, Bool.not_true, Bool.false_eq_true, if_false,
          SmuxStream.startTcpRead, hready', hclosed', hfin', hreads']
        simp only [hu, hopen, hfin, Bool.false_eq_true, not_true_eq_false, or_self, if_false]
      intro hsingle
      have hle := hsingle.single
      rw [onUpdate, ← hu, hsecond, List.length_append, List.length_singleton] at hle
      exact hreads (List.length_eq_zero_iff.mp (by omega))
  | completion c => exact absurd trivial huntimely
  | data payload => exact absurd trivial huntimely
  | fin => exact absurd trivial huntimely
  | close => exact absurd trivial huntimely
  | sessionExpired => exact absurd trivial huntimely

/-! ### Runs -/

/-- Every start function leaves a disciplined stream. -/
theorem start_readDiscipline (prims : QppPrims) (config : BaseConfig) (pad : Option QppPad)
    (id : UInt32) (kind : Start) : ReadDiscipline ((make prims config pad id).start kind) := by
  have hclient : ∀ s : SmuxStream, s.reads = [] → s.pendingOutbound = [] →
      s.connecting = .idle → ReadDiscipline s.flushTcpWrites.startTcpRead := by
    intro s hreads hpending hconn
    have hout := s.flushTcpWrites_outbound
    refine ReadDiscipline.startTcpRead
      (ReadDiscipline.of_reading (flushTcpWrites_reading s).symm ?_)
      (Or.inl ((congrArg OutboundView.reads hout).trans hreads))
    exact ReadDiscipline.of_no_reads hreads (by simp [hpending, heldBytes]) (by simp [hconn])
  cases kind with
  | clientTcp => exact hclient _ rfl rfl rfl
  | clientUnix => exact hclient _ rfl rfl rfl
  | serverTcp => exact ReadDiscipline.of_no_reads rfl (Nat.zero_le _) fun _ => rfl
  | serverUnix => exact ReadDiscipline.of_no_reads rfl (Nat.zero_le _) fun _ => rfl

end SmuxStream

/-- **The exact condition for a single read.** However a stream is started, a run keeps at
most one read outstanding, hands every handler the bytes of its own read and bounds the
queue by one read, exactly when no window update of the run arrives while a read is
outstanding and the FIN is not sent. -/
theorem always_singleRead_iff (prims : QppPrims) (config : BaseConfig) (pad : Option QppPad)
    (id : UInt32) (kind : SmuxStream.Start) (es : List StreamEvent) :
    (streamMachine config).Always (fun r => r.stream.SingleRead)
        (startedStream prims config pad id kind) es ↔
      (streamMachine config).Along (fun r e => r.stream.TimelyUpdate e)
        (startedStream prims config pad id kind) es := by
  refine EventMachine.always_iff_along (I := fun r => r.stream.ReadDiscipline)
    (fun _ h => h.toSingleRead) ?_ ?_
    (SmuxStream.start_readDiscipline prims config pad id kind) es
  · intro r e r' h htimely hstep
    obtain ⟨o, hreact, rfl⟩ := streamMachine_step.mp hstep
    exact h.react htimely hreact
  · intro r e r' h huntimely hstep
    obtain ⟨o, hreact, rfl⟩ := streamMachine_step.mp hstep
    exact h.untimely huntimely hreact

/-- A client's stream sends one byte, reads on and gets the peer's first window update: the
update starts another read, which overwrites what the outstanding one stores before its
handler has run. -/
theorem update_during_read_shares_the_buffer :
    ¬ (streamMachine {}).Always (fun r => r.stream.SingleRead)
        (startedStream .uncalled {} none 3 .clientTcp)
        [.completion (.readStored [7]), .completion .readDone, .update 1 2097152,
          .completion (.readStored [1]), .completion (.readStored [2])] := by
  have hrun : (((streamMachine {}).run (startedStream .uncalled {} none 3 .clientTcp)
      [.completion (.readStored [7]), .completion .readDone, .update 1 2097152,
        .completion (.readStored [1]), .completion (.readStored [2])]).map
          fun r => (r.stream.reads, r.stream.tcpReadBuffer.take 1)) =
      some ([.stored [1], .stored [2]], [2]) := rfl
  obtain ⟨r, hr, hview⟩ := Option.map_eq_some_iff.mp hrun
  rw [Prod.mk.injEq] at hview
  intro h
  have hown := (EventMachine.always_iff.mp h _ [] r (List.append_nil _).symm hr).own _ _ hview.1
  exact absurd (hview.2.symm.trans hown) (by decide)

end Shimakaze
