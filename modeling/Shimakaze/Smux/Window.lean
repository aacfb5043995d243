import Shimakaze.Lib.TwoParty
import Shimakaze.Smux.Fin

/-!
# The Flow-Control Window

Two streams of the same id, one at each end of a session, limit what they send each other
by a window (protocol version 2). The sender counts what it has sent and keeps the last
consumption it was told; the receiver counts what it has written to its local socket and
tells it after half a buffer, and after the first write. All counters are 32-bit and wrap.

`CreditInv` relates the counters of both ends and the updates in flight to the true,
unbounded numbers: the bytes sent, received, written, last advertised and last learned. It
is about one direction; each end is a sender and a receiver.

## Main results

* `CreditInv.send`, `CreditInv.learn`, `CreditInv.arrive`, `CreditInv.consume`: the four
  things that happen in a direction keep the relation.
* `pair_never_stranded`: **when nothing is in flight and the receiver has written all it
  has, the sender has nothing left to send**, so a flow-control deadlock is unreachable.
* `pair_within_window`: **the bytes sent and not yet written never exceed the initial
  window or the receiver's stream buffer**, whichever is larger.
-/

namespace Shimakaze

/-! ### The counters of one direction -/

/-- What the sender knows. -/
structure SenderCounters where
  numWritten : UInt32
  peerConsumed : UInt32
  peerWindow : UInt32

/-- The credit of the sender, as `available_peer_window` computes it. -/
def SenderCounters.credit (s : SenderCounters) : ℤ :=
  if 2 ^ 31 ≤ (s.numWritten - s.peerConsumed).toNat then 0
  else (s.peerWindow.toNat : ℤ) - (s.numWritten - s.peerConsumed).toNat

/-- What the receiver counts, and how much it has really received and written. -/
structure ReceiverCounters where
  numRead : UInt32
  incr : UInt32
  received : ℕ
  written : ℕ

/-- The window a stream assumes before the first update. -/
def initialWindow : ℕ := 262144

/-- The larger of the initial and the advertised window. -/
def windowBound (config : BaseConfig) : ℕ := max initialWindow config.advertisedWindow

theorem windowBound_lt (config : BaseConfig) : windowBound config < 2 ^ 31 := by
  have h := config.advertisedWindow_lt
  simp only [windowBound, initialWindow]
  omega

/-- A receiver counts `bytes` more, as `mark_payload_consumed` does; with the update it
sends, if any. -/
def ReceiverCounters.consume (config : BaseConfig) (r : ReceiverCounters) (bytes : ℕ) :
    ReceiverCounters × List (UInt32 × UInt32) :=
  let numRead := r.numRead + UInt32.ofNat bytes
  let incr := r.incr + UInt32.ofNat bytes
  if config.updateThreshold ≤ incr.toNat ∨ numRead = UInt32.ofNat bytes then
    (⟨numRead, 0, r.received, r.written + bytes⟩,
      [(numRead, UInt32.ofNat config.advertisedWindow)])
  else (⟨numRead, incr, r.received, r.written + bytes⟩, [])

/-- One direction: a sender, `inFlight` bytes on their way, a receiver with settings
`config`, and the updates on their way back. In true numbers, the sender has learned of
`learned` written bytes, the receiver has last told of `told`, and `pending` are the
numbers in the updates on their way. -/
structure CreditInv (config : BaseConfig) (s : SenderCounters) (inFlight : ℕ)
    (r : ReceiverCounters) (updates : List (UInt32 × UInt32)) (learned told : ℕ)
    (pending : List ℕ) : Prop where
  numWritten : s.numWritten = UInt32.ofNat (r.received + inFlight)
  numRead : r.numRead = UInt32.ofNat r.written
  written_le : r.written ≤ r.received
  told_le : told ≤ r.written
  incr : r.incr = UInt32.ofNat (r.written - told)
  recent : r.written - told < config.updateThreshold
  first : 0 < r.written → 0 < told
  updates_eq : updates = pending.map fun v =>
    (UInt32.ofNat v, UInt32.ofNat config.advertisedWindow)
  sorted : (learned :: pending).Pairwise (· ≤ ·)
  le_told : ∀ v ∈ learned :: pending, v ≤ told
  last : pending.getLastD learned = told
  pending_pos : ∀ v ∈ pending, 0 < v
  peerConsumed : s.peerConsumed = UInt32.ofNat learned
  peerWindow : (learned = 0 ∧ s.peerWindow = UInt32.ofNat initialWindow) ∨
    (0 < learned ∧ s.peerWindow = UInt32.ofNat config.advertisedWindow)
  bound : r.received + inFlight ≤ learned + windowBound config

variable {config : BaseConfig} {s : SenderCounters} {inFlight : ℕ} {r : ReceiverCounters}
  {updates : List (UInt32 × UInt32)} {learned told : ℕ} {pending : List ℕ}

theorem toNat_ofNat_of_lt {n : ℕ} (h : n < 2 ^ 31) : (UInt32.ofNat n).toNat = n := by
  rw [UInt32.toNat_ofNat', Nat.mod_eq_of_lt (by omega)]

/-- The window the sender works with, as a number. -/
theorem CreditInv.peerWindow_le (h : CreditInv config s inFlight r updates learned told pending) :
    s.peerWindow.toNat ≤ windowBound config := by
  have hlt := config.advertisedWindow_lt
  rcases h.peerWindow with ⟨-, hw⟩ | ⟨-, hw⟩
  · rw [hw, toNat_ofNat_of_lt (by decide)]
    exact le_max_left _ _
  · rw [hw, toNat_ofNat_of_lt hlt]
    exact le_max_right _ _

/-- The credit is what the window leaves of the bytes sent and not learned to be written:
the wrapping counters never hide a difference. -/
theorem CreditInv.credit_eq (h : CreditInv config s inFlight r updates learned told pending) :
    s.credit = (s.peerWindow.toNat : ℤ) - ((r.received + inFlight - learned : ℕ) : ℤ) := by
  have hlearned := h.le_told learned List.mem_cons_self
  have htold := h.told_le
  have hwritten := h.written_le
  have hbound := h.bound
  have hlt := windowBound_lt config
  have hdiff : (s.numWritten - s.peerConsumed).toNat = r.received + inFlight - learned := by
    rw [h.numWritten, h.peerConsumed, ← UInt32.ofNat_sub (by omega),
      toNat_ofNat_of_lt (by omega)]
  rw [SenderCounters.credit, hdiff, if_neg (by omega)]

/-! ### What happens in a direction -/

/-- The sender sends no more than its credit. -/
theorem CreditInv.send (h : CreditInv config s inFlight r updates learned told pending) {n : ℕ}
    (hcredit : (n : ℤ) ≤ max 0 s.credit) :
    CreditInv config { s with numWritten := s.numWritten + UInt32.ofNat n } (inFlight + n) r
      updates learned told pending := by
  have hwindow := h.peerWindow_le
  have hbound := h.bound
  rw [h.credit_eq] at hcredit
  refine ⟨?_, h.numRead, h.written_le, h.told_le, h.incr, h.recent, h.first, h.updates_eq,
    h.sorted, h.le_told, h.last, h.pending_pos, h.peerConsumed, h.peerWindow, ?_⟩
  · simp only [h.numWritten, ← UInt32.ofNat_add, Nat.add_assoc]
  · have hlearned := h.le_told learned List.mem_cons_self
    have htold := h.told_le
    have hwritten := h.written_le
    omega

/-- The sender learns of the first update on its way. -/
theorem CreditInv.learn {consumed window : UInt32}
    (h : CreditInv config s inFlight r ((consumed, window) :: updates) learned told pending) :
    ∃ learned' pending', CreditInv config
      { s with peerConsumed := consumed, peerWindow := window } inFlight r updates learned'
      told pending' := by
  have hupdates := h.updates_eq
  cases pending with
  | nil => exact absurd hupdates (by simp)
  | cons v pending =>
      rw [List.map_cons, List.cons.injEq] at hupdates
      obtain ⟨hupdate, hupdates⟩ := hupdates
      obtain ⟨rfl, rfl⟩ := Prod.mk.inj hupdate
      have hsorted := List.pairwise_cons.mp h.sorted
      have hpos := h.pending_pos v List.mem_cons_self
      refine ⟨v, pending, h.numWritten, h.numRead, h.written_le, h.told_le, h.incr, h.recent,
        h.first, hupdates, hsorted.2, ?_, ?_, ?_, rfl, Or.inr ⟨hpos, rfl⟩, ?_⟩
      · exact fun w hw => h.le_told w (List.mem_cons_of_mem _ hw)
      · have hlast := h.last
        rwa [List.getLastD_cons] at hlast
      · exact fun w hw => h.pending_pos w (List.mem_cons_of_mem _ hw)
      · have hle := hsorted.1 v List.mem_cons_self
        have hbound := h.bound
        omega

/-- Some of the bytes in flight arrive. -/
theorem CreditInv.arrive {n : ℕ}
    (h : CreditInv config s (n + inFlight) r updates learned told pending) :
    CreditInv config s inFlight { r with received := r.received + n } updates learned told
      pending := by
  refine ⟨?_, h.numRead, ?_, h.told_le, h.incr, h.recent, h.first, h.updates_eq,
    h.sorted, h.le_told, h.last, h.pending_pos, h.peerConsumed, h.peerWindow, ?_⟩
  · rw [h.numWritten, Nat.add_assoc]
  · exact h.written_le.trans (Nat.le_add_right _ _)
  · rw [Nat.add_assoc]
    exact h.bound

/-- The receiver writes some of what it has received, and may tell so. -/
theorem CreditInv.consume (h : CreditInv config s inFlight r updates learned told pending)
    {n : ℕ} (hpos : 0 < n) (hn : r.written + n ≤ r.received) :
    ∃ told' pending', CreditInv config s inFlight (r.consume config n).1
      (updates ++ (r.consume config n).2) learned told' pending' := by
  have htold := h.told_le
  have hlearned := h.le_told learned List.mem_cons_self
  have hbound := h.bound
  have hlt := windowBound_lt config
  have hnumRead : r.numRead + UInt32.ofNat n = UInt32.ofNat (r.written + n) := by
    rw [h.numRead, UInt32.ofNat_add]
  have hincr : r.incr + UInt32.ofNat n = UInt32.ofNat (r.written + n - told) := by
    rw [h.incr, ← UInt32.ofNat_add, show r.written - told + n = r.written + n - told by omega]
  -- the bytes not told of fit the window, so `incr_` does not wrap
  have hincr' : (r.incr + UInt32.ofNat n).toNat = r.written + n - told := by
    rw [hincr, toNat_ofNat_of_lt (by omega)]
  simp only [ReceiverCounters.consume]
  split_ifs with htell
  · refine ⟨r.written + n, pending ++ [r.written + n], h.numWritten, hnumRead, hn, le_rfl, ?_,
      ?_, fun _ => Nat.add_pos_right _ hpos, ?_, ?_, ?_, ?_, ?_, h.peerConsumed, h.peerWindow,
      hbound⟩
    · simp
    · simp only [Nat.sub_self]
      exact config.updateThreshold_pos
    · rw [h.updates_eq, List.map_append, hnumRead]
      rfl
    · rw [← List.cons_append]
      refine List.pairwise_append.mpr ⟨h.sorted, List.pairwise_singleton _ _, ?_⟩
      intro v hv w hw
      rw [List.mem_singleton.mp hw]
      have hle := h.le_told v hv
      omega
    · intro v hv
      rw [← List.cons_append] at hv
      rcases List.mem_append.mp hv with hv | hv
      · exact (h.le_told v hv).trans (htold.trans (Nat.le_add_right _ _))
      · rw [List.mem_singleton.mp hv]
    · simp
    · intro v hv
      rcases List.mem_append.mp hv with hv | hv
      · exact h.pending_pos v hv
      · rw [List.mem_singleton.mp hv]
        omega
  · rw [not_or, not_le, hincr'] at htell
    rw [List.append_nil]
    refine ⟨told, pending, h.numWritten, hnumRead, hn, ?_, hincr, htell.1, fun _ => ?_,
      h.updates_eq, h.sorted, h.le_told, h.last, h.pending_pos, h.peerConsumed, h.peerWindow,
      hbound⟩
    · exact htold.trans (Nat.le_add_right _ _)
    · -- the first write makes the count equal to its own size, which is told at once
      rcases Nat.eq_zero_or_pos r.written with hzero | hw
      · rw [hnumRead, hzero, Nat.zero_add] at htell
        exact absurd rfl htell.2
      · exact h.first hw

/-! ### Two streams -/

/-- The payload bytes of a PSH frame. -/
def SessionCall.pshSize : SessionCall → ℕ
  | .sendFrame .psh _ payload => payload.length
  | _ => 0

/-- The numbers of a window update. -/
def SessionCall.update : SessionCall → Option (UInt32 × UInt32)
  | .sendUpdate _ consumed window => some (consumed, window)
  | _ => none

/-- The payload bytes in the PSH frames among some calls. -/
def pshBytes (calls : List SessionCall) : ℕ := (calls.map SessionCall.pshSize).sum

/-- The window updates among some calls. -/
def updatesOf (calls : List SessionCall) : List (UInt32 × UInt32) :=
  calls.filterMap SessionCall.update

theorem pshBytes_append (a b : List SessionCall) : pshBytes (a ++ b) = pshBytes a + pshBytes b := by
  simp only [pshBytes, List.map_append, List.sum_append]

theorem updatesOf_append (a b : List SessionCall) :
    updatesOf (a ++ b) = updatesOf a ++ updatesOf b := List.filterMap_append

theorem SessionCall.pshSize_of_not_psh {call : SessionCall} (h : call.isPsh = false) :
    call.pshSize = 0 := by
  cases call with
  | sendFrame command id payload => cases command <;> first | rfl | exact absurd h (by simp [isPsh])
  | sendUpdate => rfl
  | streamClosed => rfl

theorem SessionCall.update_of_not_update {call : SessionCall} (h : call.isUpdate = false) :
    call.update = none := by
  cases call with
  | sendUpdate => exact absurd h (by simp [isUpdate])
  | sendFrame => rfl
  | streamClosed => rfl

theorem pshBytes_of_not_psh {calls : List SessionCall}
    (h : ∀ call ∈ calls, call.isPsh = false) : pshBytes calls = 0 := by
  induction calls with
  | nil => rfl
  | cons call calls ih =>
      rw [pshBytes, List.map_cons, List.sum_cons, ← pshBytes,
        ih fun c hc => h c (List.mem_cons_of_mem _ hc),
        SessionCall.pshSize_of_not_psh (h call List.mem_cons_self)]

theorem updatesOf_of_not_update {calls : List SessionCall}
    (h : ∀ call ∈ calls, call.isUpdate = false) : updatesOf calls = [] :=
  List.filterMap_eq_nil_iff.mpr fun call hcall =>
    SessionCall.update_of_not_update (h call hcall)

/-- A PSH call is no update. -/
theorem updatesOf_of_psh {calls : List SessionCall} (h : ∀ call ∈ calls, call.isPsh = true) :
    updatesOf calls = [] := by
  refine updatesOf_of_not_update fun call hcall => ?_
  have hpsh := h call hcall
  cases call with
  | sendUpdate => exact absurd hpsh (by simp [SessionCall.isPsh])
  | sendFrame => rfl
  | streamClosed => rfl

/-- The counters of a stream as a sender. -/
def Traffic.sender (v : Traffic) : SenderCounters := ⟨v.numWritten, v.peerConsumed, v.peerWindow⟩

/-- The counters of a stream as a receiver. -/
def Traffic.receiver (v : Traffic) : ReceiverCounters :=
  ⟨v.numRead, v.incr, v.received.length, v.written.length⟩

namespace SmuxStream

variable {s t : SmuxStream} {e : StreamEvent} {o : Outcome}

theorem availablePeerWindow_eq_credit (s : SmuxStream) :
    s.availablePeerWindow = s.traffic.sender.credit := s.availablePeerWindow_eq

/-- What holds of each end of a pair: it is live, its write queue holds what it has received
and not written, and it waits with bytes to send only for want of credit. -/
structure EndInv (s : SmuxStream) : Prop where
  alive : s.sessionAlive = true
  isOpen : s.closed = false
  backlog : s.traffic.received = s.traffic.written ++ s.traffic.unwritten
  blocked : s.traffic.pendingOutbound = [] ∨ s.traffic.sender.credit ≤ 0

/-! ### The sending side of an event -/

/-- The counters an event works on: an update sets two of them first. -/
def flushCounters (s : SmuxStream) : StreamEvent → SenderCounters
  | .update consumed window =>
      { s.traffic.sender with peerConsumed := consumed, peerWindow := window }
  | _ => s.traffic.sender

/-- The counters of the flushed state; the receiving side is that of the stream. -/
theorem flushInput_traffic (h : s.flushInput e = some t) :
    t.traffic.sender = s.flushCounters e ∧ t.traffic.receiver = s.traffic.receiver ∧
      t.traffic.received = s.traffic.received ∧ t.traffic.written = s.traffic.written ∧
      t.traffic.unwritten = s.traffic.unwritten := by
  unfold flushInput at h
  split at h
  · split at h
    · obtain rfl := Option.some.inj h
      rw [queueOutbound]
      split_ifs <;> exact ⟨rfl, rfl, rfl, rfl, rfl⟩
    · exact absurd h (by simp)
  · obtain rfl := Option.some.inj h
    exact ⟨rfl, rfl, rfl, rfl, rfl⟩
  · exact absurd h (by simp)

/-- The bytes of a flush, counted by their frames. -/
theorem Flushed.pshBytes_calls {config : BaseConfig} {pieces : List Bytes}
    (h : Flushed config s o pieces) : pshBytes o.calls = pieces.flatten.length := by
  rw [h.calls, pshBytes, List.map_map]
  have hlength := congrArg List.sum
    (map_length_cipherPieces s.qpp.pad s.qpp.writeRand pieces)
  rw [← List.length_flatten] at hlength
  rw [List.length_flatten, ← hlength, List.length_flatten]
  rfl

/-- **What an event does to the sender's counters**: it sends within the credit. -/
theorem EndInv.send (h : EndInv s) {config : BaseConfig} (hflow : config.flowControlled)
    (hreact : s.react config e = some o) :
    ∃ n : ℕ, (n : ℤ) ≤ max 0 (s.flushCounters e).credit ∧
      o.stream.traffic.sender = { s.flushCounters e with
        numWritten := (s.flushCounters e).numWritten + UInt32.ofNat n } ∧
      pshBytes o.calls = n := by
  have hsame : (∀ consumed window, e ≠ .update consumed window) →
      s.flushCounters e = s.traffic.sender := by
    intro he
    cases e <;> first | rfl | exact absurd rfl (he _ _)
  have hzero : ∀ c : SenderCounters,
      { c with numWritten := c.numWritten + UInt32.ofNat 0 } = c := fun c => by
    simp
  cases react_effect hreact with
  | flush t hinput ho =>
      subst ho
      obtain ⟨-, halive, hclosed⟩ := flushInput_flags hinput
      obtain ⟨hsender, -⟩ := flushInput_traffic hinput
      obtain ⟨pieces, hf⟩ := tryFlushOutbound_flushed config
        (halive.trans h.alive) (hclosed.trans h.isOpen)
      refine ⟨pieces.flatten.length, ?_, ?_, ?_⟩
      · rw [← hsender, ← availablePeerWindow_eq_credit]
        exact hf.credit hflow
      · rw [flush_traffic, hf.stream, ← hsender]
        rfl
      · rw [Outcome.andThen_calls, readOn_calls, List.append_nil, hf.pshBytes_calls]
  | data payload he htraffic hcalls =>
      refine ⟨0, by simp, ?_, by rw [hcalls]; rfl⟩
      rw [hsame (by simp [he]), hzero, htraffic]
      rfl
  | written he ho =>
      obtain ⟨htraffic, hcalls⟩ := writeHandler_traffic config s
      subst ho
      refine ⟨0, by simp, ?_, ?_⟩
      · rw [hsame (by simp [he]), hzero, htraffic]
        rfl
      · rw [hcalls]
        refine pshBytes_of_not_psh fun call hcall => ?_
        obtain ⟨consumed, window, rfl⟩ := markPayloadConsumed_calls config s _ call hcall
        rfl
  | idle hdata hflush htraffic hcalls =>
      refine ⟨0, by simp, ?_, pshBytes_of_not_psh fun call hcall => (hcalls call hcall).1⟩
      rw [hsame, hzero, htraffic]
      intro consumed window he
      exact absurd hflush (by simp [he, flushInput])

/-! ### The receiving side of an event -/

/-- The receiver's counters after `mark_payload_consumed`, and the update it sends. -/
theorem markPayloadConsumed_consume {config : BaseConfig} (halive : s.sessionAlive = true)
    (hflow : config.flowControlled) {n : ℕ} (hpos : 0 < n) :
    let o := markPayloadConsumed config s n
    (⟨o.stream.numRead, o.stream.incr, s.traffic.received.length,
        s.traffic.written.length + n⟩ : ReceiverCounters) =
      (s.traffic.receiver.consume config n).1 ∧
    updatesOf o.calls = (s.traffic.receiver.consume config n).2 := by
  simp only [markPayloadConsumed, halive, hflow, not_true_eq_false, false_or,
    Nat.ne_of_gt hpos, if_false, ReceiverCounters.consume, Traffic.receiver, traffic]
  by_cases htell : config.updateThreshold ≤ (s.incr + UInt32.ofNat n).toNat ∨
      s.numRead + UInt32.ofNat n = UInt32.ofNat n
  · simp only [htell, if_true, true_and]
    rfl
  · simp only [htell, if_false]
    exact ⟨rfl, rfl⟩

/-- **What an event does to the receiver's counters**: a payload arrives, or some bytes of
the write queue are counted as written, or nothing. -/
theorem EndInv.receive (h : EndInv s) {config : BaseConfig} (hflow : config.flowControlled)
    (hreact : s.react config e = some o) :
    (∃ payload, e = .data payload ∧ updatesOf o.calls = [] ∧
      o.stream.traffic.receiver = { s.traffic.receiver with
        received := s.traffic.receiver.received + payload.length }) ∨
    ((∀ payload, e ≠ .data payload) ∧
      ((updatesOf o.calls = [] ∧ o.stream.traffic.receiver = s.traffic.receiver) ∨
       ∃ n, 0 < n ∧ s.traffic.receiver.written + n ≤ s.traffic.receiver.received ∧
        o.stream.traffic.receiver = (s.traffic.receiver.consume config n).1 ∧
        updatesOf o.calls = (s.traffic.receiver.consume config n).2)) := by
  cases react_effect hreact with
  | flush t hinput ho =>
      subst ho
      obtain ⟨-, halive, hclosed⟩ := flushInput_flags hinput
      obtain ⟨-, hreceiver, -⟩ := flushInput_traffic hinput
      obtain ⟨sent, pending, hstream⟩ := tryFlushOutbound_stream config t
      refine Or.inr ⟨?_, Or.inl ⟨?_, ?_⟩⟩
      · rintro payload rfl
        exact absurd hinput (by simp [flushInput])
      · rw [Outcome.andThen_calls, readOn_calls, List.append_nil]
        exact updatesOf_of_psh (tryFlushOutbound_isPsh config t)
      · rw [flush_traffic, hstream, ← hreceiver]
        rfl
  | data payload he htraffic hcalls =>
      refine Or.inl ⟨payload, he, by rw [hcalls]; rfl, ?_⟩
      rw [htraffic]
      simp only [Traffic.receiver, Traffic.receive, List.length_append,
        QppStream.length_decipher]
  | written he ho =>
      subst ho
      obtain ⟨htraffic, hcalls⟩ := writeHandler_traffic config s
      refine Or.inr ⟨by simp [he], ?_⟩
      rw [htraffic, hcalls]
      rcases Nat.eq_zero_or_pos (s.pendingTcpWrites.headD []).length with hempty | hpos
      · have hquiet : markPayloadConsumed config s (s.pendingTcpWrites.headD []).length =
            s.quiet := by
          rw [markPayloadConsumed, if_pos (Or.inr (Or.inr hempty))]
        refine Or.inl ?_
        rw [hquiet]
        refine ⟨rfl, ?_⟩
        simp only [Traffic.receiver, List.length_append, hempty]
        rfl
      · obtain ⟨hcounters, hupdates⟩ :=
          markPayloadConsumed_consume h.alive hflow hpos
        refine Or.inr ⟨(s.pendingTcpWrites.headD []).length, hpos, ?_, ?_, hupdates⟩
        · have hbacklog := congrArg List.length h.backlog
          rw [List.length_append, s.unwritten_eq, List.length_append] at hbacklog
          simp only [Traffic.receiver]
          omega
        · rw [← hcounters]
          simp only [Traffic.receiver, List.length_append]
  | idle hdata hflush htraffic hcalls =>
      refine Or.inr ⟨hdata, Or.inl ⟨?_, by rw [htraffic]⟩⟩
      exact updatesOf_of_not_update fun call hcall => (hcalls call hcall).2

/-! ### An end keeps its invariant -/

/-- Whatever happens to an end of a pair short of its close and the end of its session. -/
theorem EndInv.react (h : EndInv s) {config : BaseConfig} (he : e ≠ .sessionExpired)
    (hreact : s.react config e = some o) (hopen : o.stream.closed = false) :
    EndInv o.stream := by
  refine ⟨(react_sessionAlive he hreact).trans h.alive, hopen, ?_, ?_⟩
  · cases react_effect hreact with
    | flush t hinput ho =>
        subst ho
        obtain ⟨-, -, hreceived, hwritten, hunwritten⟩ := flushInput_traffic hinput
        obtain ⟨sent, pending, hstream⟩ := tryFlushOutbound_stream config t
        rw [flush_traffic, hstream]
        have hbacklog := h.backlog
        rw [← hreceived, ← hwritten, ← hunwritten] at hbacklog
        exact hbacklog
    | data payload he htraffic hcalls =>
        rw [htraffic]
        simp only [Traffic.receive, h.backlog, List.append_assoc]
    | written he ho =>
        subst ho
        obtain ⟨htraffic, -⟩ := writeHandler_traffic config s
        rw [htraffic]
        simp only [h.backlog, s.unwritten_eq, List.append_assoc]
    | idle hdata hflush htraffic hcalls => rw [htraffic]; exact h.backlog
  · cases react_effect hreact with
    | flush t hinput ho =>
        subst ho
        obtain ⟨-, halive, hclosed⟩ := flushInput_flags hinput
        obtain ⟨pieces, hf⟩ := tryFlushOutbound_flushed config
          (halive.trans h.alive) (hclosed.trans h.isOpen)
        rw [flush_traffic]
        rcases hf.stop with hstop | ⟨-, hstop, -⟩
        · exact Or.inl hstop
        · rw [availablePeerWindow_eq_credit] at hstop
          exact Or.inr hstop
    | data payload he htraffic hcalls => rw [htraffic]; exact h.blocked
    | written he ho =>
        subst ho
        obtain ⟨htraffic, -⟩ := writeHandler_traffic config s
        rw [htraffic]
        exact h.blocked
    | idle hdata hflush htraffic hcalls => rw [htraffic]; exact h.blocked

end SmuxStream

/-- The event that the delivery of a call's frame is for the stream at the other end. -/
def SessionCall.event : SessionCall → Option StreamEvent
  | .sendFrame .psh _ payload => some (.data payload)
  | .sendFrame .fin _ _ => some .fin
  | .sendUpdate _ consumed window => some (.update consumed window)
  | _ => none

/-- A reaction that does not close the stream. -/
def stayOpen (o : Option Outcome) : Option (SmuxStream × List SessionCall) :=
  o.bind fun o => if o.stream.closed then none else some (o.stream, o.calls)

/-- Two streams of one id, whose frames reach each other in order: completions of their
local sockets and deliveries, neither side being closed. -/
def pairLink (config : Side → BaseConfig) :
    Link SmuxStream SessionCall SmuxStream.Completion where
  act p s c := stayOpen (s.react (config p) (.completion c))
  recv p s
    | [call] => call.event.bind fun e => stayOpen (s.react (config p) e)
    | _ => none

/-- Both streams as they are started. -/
def startedPair (prims : QppPrims) (config : Side → BaseConfig) (pad : Side → Option QppPad)
    (id : UInt32) (kind : Side → SmuxStream.Start) : LinkState SmuxStream SessionCall where
  party p := (SmuxStream.make prims (config p) (pad p) id).start (kind p)
  channel _ := []

theorem stayOpen_eq_some {o : Option Outcome} {s : SmuxStream} {calls : List SessionCall} :
    stayOpen o = some (s, calls) ↔ o = some ⟨s, calls⟩ ∧ s.closed = false := by
  simp only [stayOpen, Option.bind_eq_some_iff]
  constructor
  · rintro ⟨o', rfl, h⟩
    split_ifs at h with hclosed
    obtain ⟨rfl, rfl⟩ := Prod.mk.inj (Option.some.inj h)
    exact ⟨rfl, by simpa using hclosed⟩
  · rintro ⟨rfl, hclosed⟩
    exact ⟨_, rfl, by simp [hclosed]⟩

/-- The invariant of one direction of a pair. -/
def DirectionInv (config : Side → BaseConfig) (p : Side) (s r : SmuxStream)
    (forward backward : List SessionCall) : Prop :=
  s.EndInv ∧ r.EndInv ∧ ∃ learned told pending,
    CreditInv (config p.other) s.traffic.sender (pshBytes forward) r.traffic.receiver
      (updatesOf backward) learned told pending

namespace DirectionInv

variable {config : Side → BaseConfig} {p : Side} {s r s' r' : SmuxStream}
  {forward backward out : List SessionCall} {e : StreamEvent}

/-- An event of the sender that is no window update sends within the credit. -/
theorem senderActs (hflow : ∀ p, (config p).flowControlled)
    (h : DirectionInv config p s r forward backward) (he : e ≠ .sessionExpired)
    (hupdate : ∀ consumed window, e ≠ .update consumed window)
    (hreact : s.react (config p) e = some ⟨s', out⟩) (hopen : s'.closed = false) :
    DirectionInv config p s' r (forward ++ out) backward := by
  obtain ⟨hs, hr, learned, told, pending, hcredit⟩ := h
  obtain ⟨n, hn, hsender, hbytes⟩ := hs.send (hflow p) hreact
  have hbase : s.flushCounters e = s.traffic.sender := by
    cases e <;> first | rfl | exact absurd rfl (hupdate _ _)
  rw [hbase] at hn hsender
  refine ⟨hs.react he hreact hopen, hr, learned, told, pending, ?_⟩
  rw [pshBytes_append, hbytes, hsender]
  exact hcredit.send hn

/-- A window update is learned, and what it frees is sent. -/
theorem senderLearns (hflow : ∀ p, (config p).flowControlled) {id consumed window : UInt32}
    (h : DirectionInv config p s r forward (.sendUpdate id consumed window :: backward))
    (hreact : s.react (config p) (.update consumed window) = some ⟨s', out⟩)
    (hopen : s'.closed = false) : DirectionInv config p s' r (forward ++ out) backward := by
  obtain ⟨hs, hr, learned, told, pending, hcredit⟩ := h
  obtain ⟨n, hn, hsender, hbytes⟩ := hs.send (hflow p) hreact
  obtain ⟨learned', pending', hlearned⟩ := CreditInv.learn hcredit
  refine ⟨hs.react (by simp) hreact hopen, hr, learned', told, pending', ?_⟩
  rw [pshBytes_append, hbytes, hsender]
  exact hlearned.send hn

/-- An event of the receiver that is no payload writes and perhaps tells so. -/
theorem receiverActs (hflow : ∀ p, (config p).flowControlled)
    (h : DirectionInv config p s r forward backward) (he : e ≠ .sessionExpired)
    (hdata : ∀ payload, e ≠ .data payload)
    (hreact : r.react (config p.other) e = some ⟨r', out⟩) (hopen : r'.closed = false) :
    DirectionInv config p s r' forward (backward ++ out) := by
  obtain ⟨hs, hr, learned, told, pending, hcredit⟩ := h
  have hr' := hr.react he hreact hopen
  rcases hr.receive (hflow p.other) hreact with
    ⟨payload, rfl, -⟩ | ⟨-, ⟨hupdates, hreceiver⟩ | ⟨n, hpos, hn, hreceiver, hupdates⟩⟩
  · exact absurd rfl (hdata payload)
  · refine ⟨hs, hr', learned, told, pending, ?_⟩
    rw [updatesOf_append, hupdates, List.append_nil]
    simp only at hreceiver
    rw [hreceiver]
    exact hcredit
  · obtain ⟨told', pending', hconsumed⟩ := hcredit.consume hpos hn
    refine ⟨hs, hr', learned, told', pending', ?_⟩
    simp only at hreceiver hupdates
    rw [updatesOf_append, hupdates, hreceiver]
    exact hconsumed

/-- A frame without payload bytes leaves the channel. -/
theorem skip {call : SessionCall} (hpsh : call.isPsh = false)
    (h : DirectionInv config p s r (call :: forward) backward) :
    DirectionInv config p s r forward backward := by
  have hbytes : pshBytes (call :: forward) = pshBytes forward := by
    rw [pshBytes, List.map_cons, List.sum_cons, SessionCall.pshSize_of_not_psh hpsh,
      Nat.zero_add, pshBytes]
  rwa [DirectionInv, hbytes] at h

/-- A payload arrives at the receiver. -/
theorem payloadArrives (hflow : ∀ p, (config p).flowControlled) {id : UInt32} {payload : Bytes}
    (h : DirectionInv config p s r (.sendFrame .psh id payload :: forward) backward)
    (hreact : r.react (config p.other) (.data payload) = some ⟨r', out⟩)
    (hopen : r'.closed = false) : DirectionInv config p s r' forward (backward ++ out) := by
  obtain ⟨hs, hr, learned, told, pending, hcredit⟩ := h
  have hr' := hr.react (by simp) hreact hopen
  rcases hr.receive (hflow p.other) hreact with
    ⟨payload', he, hupdates, hreceiver⟩ | ⟨hdata, -⟩
  · obtain rfl : payload = payload' := by simpa using he
    refine ⟨hs, hr', learned, told, pending, ?_⟩
    simp only at hreceiver hupdates
    rw [updatesOf_append, hupdates, List.append_nil, hreceiver]
    exact hcredit.arrive
  · exact absurd rfl (hdata payload)

end DirectionInv

/-- The relation of the counters is kept by all steps of a pair. -/
theorem directionInv_directed {config : Side → BaseConfig}
    (hflow : ∀ p, (config p).flowControlled) :
    (pairLink config).Directed (DirectionInv config) where
  senderActs p s r forward backward c s' out h hact := by
    obtain ⟨hreact, hopen⟩ := stayOpen_eq_some.mp hact
    exact h.senderActs hflow (by simp) (by simp) hreact hopen
  senderReceives p s r forward backward chunk s' out h hrecv := by
    match chunk, hrecv with
    | [call], hrecv =>
        obtain ⟨e, he, hrecv⟩ := Option.bind_eq_some_iff.mp hrecv
        obtain ⟨hreact, hopen⟩ := stayOpen_eq_some.mp hrecv
        unfold SessionCall.event at he
        split at he
        · obtain rfl := Option.some.inj he
          exact DirectionInv.senderActs hflow h (by simp) (by simp) hreact hopen
        · obtain rfl := Option.some.inj he
          exact DirectionInv.senderActs hflow h (by simp) (by simp) hreact hopen
        · obtain rfl := Option.some.inj he
          exact DirectionInv.senderLearns hflow h hreact hopen
        · exact absurd he (by simp)
  receiverActs p s r forward backward c r' out h hact := by
    obtain ⟨hreact, hopen⟩ := stayOpen_eq_some.mp hact
    exact h.receiverActs hflow (by simp) (by simp) hreact hopen
  receiverReceives p s r forward backward chunk r' out h hrecv := by
    match chunk, hrecv with
    | [call], hrecv =>
        obtain ⟨e, he, hrecv⟩ := Option.bind_eq_some_iff.mp hrecv
        obtain ⟨hreact, hopen⟩ := stayOpen_eq_some.mp hrecv
        unfold SessionCall.event at he
        split at he
        · obtain rfl := Option.some.inj he
          exact DirectionInv.payloadArrives hflow h hreact hopen
        · obtain rfl := Option.some.inj he
          exact (DirectionInv.skip rfl h).receiverActs hflow (by simp) (by simp) hreact hopen
        · obtain rfl := Option.some.inj he
          exact (DirectionInv.skip rfl h).receiverActs hflow (by simp) (by simp) hreact hopen
        · exact absurd he (by simp)

/-! ### Runs -/

section reachable

variable {prims : QppPrims} {config : Side → BaseConfig} {pad : Side → Option QppPad}
  {id : UInt32} {kind : Side → SmuxStream.Start} {j : LinkState SmuxStream SessionCall}

theorem startedPair_endInv (p : Side) :
    ((startedPair prims config pad id kind).party p).EndInv := by
  obtain ⟨htraffic, halive, hclosed⟩ :=
    (SmuxStream.make prims (config p) (pad p) id).start_traffic (kind p)
  refine ⟨halive, hclosed, ?_, Or.inl ?_⟩
  · rw [startedPair, htraffic]; rfl
  · rw [startedPair, htraffic]; rfl

/-- The relation of the counters holds in both directions of every reachable state. -/
theorem reachable_directionInv (hversion : ∀ p, (config p).smuxver = 2)
    (h : (pairLink config).machine.Reachable (startedPair prims config pad id kind) j)
    (p : Side) :
    DirectionInv config p (j.party p) (j.party p.other) (j.channel p) (j.channel p.other) := by
  have hflow : ∀ p, (config p).flowControlled := fun p => by
    simp [BaseConfig.flowControlled, hversion p]
  refine (directionInv_directed hflow).reachable (fun p => ?_) h p
  refine ⟨startedPair_endInv p, startedPair_endInv p.other, 0, 0, [], ?_⟩
  obtain ⟨hs, -⟩ := (SmuxStream.make prims (config p) (pad p) id).start_traffic (kind p)
  obtain ⟨hr, -⟩ :=
    (SmuxStream.make prims (config p.other) (pad p.other) id).start_traffic (kind p.other)
  simp only [startedPair, hs, hr]
  exact ⟨rfl, rfl, le_rfl, le_rfl, rfl, (config p.other).updateThreshold_pos, fun h => h, rfl,
    List.pairwise_singleton _ _, by simp, rfl, by simp, rfl, Or.inl ⟨rfl, rfl⟩, Nat.zero_le _⟩

/-- **The window credit is never stranded.** In every reachable state of a pair in which the
sender's payloads have all arrived, the receiver has written them all and its updates have
all come back, the sender has nothing left to send. -/
theorem pair_never_stranded (hversion : ∀ p, (config p).smuxver = 2)
    (h : (pairLink config).machine.Reachable (startedPair prims config pad id kind) j)
    (p : Side) (hpsh : ∀ call ∈ j.channel p, call.isPsh = false)
    (hupdate : ∀ call ∈ j.channel p.other, call.isUpdate = false)
    (hwritten : (j.party p.other).pendingTcpWrites = []) :
    (j.party p).pendingOutbound = [] := by
  obtain ⟨hs, hr, learned, told, pending, hcredit⟩ := reachable_directionInv hversion h p
  have hcount := hcredit.credit_eq
  have hpending : pending = [] := by
    have hupdates := hcredit.updates_eq
    rw [updatesOf_of_not_update hupdate] at hupdates
    exact List.map_eq_nil_iff.mp hupdates.symm
  obtain rfl : learned = told := by
    have hlast := hcredit.last
    rwa [hpending, List.getLastD_nil] at hlast
  have hall : (j.party p.other).traffic.receiver.written =
      (j.party p.other).traffic.receiver.received := by
    have hbacklog := hr.backlog
    simp only [SmuxStream.traffic, hwritten, List.flatten_nil, List.append_nil] at hbacklog
    simp only [Traffic.receiver, SmuxStream.traffic, hbacklog]
  have hrecent := hcredit.recent
  have hthreshold := (config p.other).updateThreshold_le
  rw [pshBytes_of_not_psh hpsh, Nat.add_zero, ← hall] at hcount
  have hpositive : 0 < (j.party p).traffic.sender.credit := by
    rw [hcount]
    rcases hcredit.peerWindow with ⟨hzero, hwindow⟩ | ⟨-, hwindow⟩
    · -- nothing was ever told, so nothing was ever written
      have hnone : (j.party p.other).traffic.receiver.written = 0 := by
        by_contra hsome
        have hfirst := hcredit.first (Nat.pos_of_ne_zero hsome)
        omega
      rw [hwindow, toNat_ofNat_of_lt (by decide), hnone]
      simp [initialWindow]
    · rw [hwindow, toNat_ofNat_of_lt (config p.other).advertisedWindow_lt]
      omega
  rcases hs.blocked with hnone | hblocked
  · exact hnone
  · exact absurd hblocked (not_le.mpr hpositive)

/-- One byte from a client to a server that is still connecting to its target: when it is
written and the update is back, the client's queue is empty. -/
theorem byte_not_stranded :
    ((pairLink fun _ => {}).machine.run
        (startedPair .uncalled (fun _ => {}) (fun _ => none) 3
          fun | .left => .clientTcp | .right => .serverTcp)
        [.act .left (.readStored [7]), .act .left .readDone, .deliver .right 1,
          .act .right (.resolved none), .act .right (.connected none), .act .right .writeDone,
          .deliver .left 1]).map (fun j => (j.party .left).pendingOutbound) = some [] := by
  have hrun : ((pairLink fun _ => {}).machine.run
        (startedPair .uncalled (fun _ => {}) (fun _ => none) 3
          fun | .left => .clientTcp | .right => .serverTcp)
        [.act .left (.readStored [7]), .act .left .readDone, .deliver .right 1,
          .act .right (.resolved none), .act .right (.connected none), .act .right .writeDone,
          .deliver .left 1]).map
        (fun j => (j.channel .left, j.channel .right, (j.party .right).pendingTcpWrites)) =
      some ([], [], []) := rfl
  obtain ⟨j, hj, hview⟩ := Option.map_eq_some_iff.mp hrun
  simp only [Prod.mk.injEq] at hview
  obtain ⟨hleft, hright, hwritten⟩ := hview
  rw [hj, Option.map_some, pair_never_stranded (fun _ => rfl) ⟨_, hj⟩ .left
    (by simp [hleft]) (by simp [Side.other, hright]) hwritten]

/-- **The window is never overrun.** In every reachable state of a pair the payload bytes
that were sent and are not yet written are at most the initial window or the stream buffer
of the receiver, whichever is larger. -/
theorem pair_within_window (hversion : ∀ p, (config p).smuxver = 2)
    (h : (pairLink config).machine.Reachable (startedPair prims config pad id kind) j)
    (p : Side) :
    ((pshBytes (j.channel p) + (j.party p.other).pendingTcpWrites.flatten.length : ℕ) : ℤ) ≤
      max 262144 (config p.other).streambuf.toInt := by
  obtain ⟨hs, hr, learned, told, pending, hcredit⟩ := reachable_directionInv hversion h p
  have hlearned := hcredit.le_told learned List.mem_cons_self
  have htold := hcredit.told_le
  have hbound := hcredit.bound
  have hbacklog := congrArg List.length hr.backlog
  rw [List.length_append] at hbacklog
  simp only [Traffic.receiver, SmuxStream.traffic] at hbacklog htold hbound
  simp only [windowBound, initialWindow, BaseConfig.advertisedWindow] at hbound
  omega

/-- The same byte on its way. -/
theorem byte_within_window :
    ∃ j, (pairLink fun _ => {}).machine.run
        (startedPair .uncalled (fun _ => {}) (fun _ => none) 3
          fun | .left => .clientTcp | .right => .serverTcp)
        [.act .left (.readStored [7]), .act .left .readDone] = some j ∧
      ((pshBytes (j.channel .left) +
        (j.party .right).pendingTcpWrites.flatten.length : ℕ) : ℤ) ≤ max 262144 2097152 := by
  obtain ⟨j, hj⟩ : ∃ j, (pairLink fun _ => {}).machine.run
      (startedPair .uncalled (fun _ => {}) (fun _ => none) 3
        fun | .left => .clientTcp | .right => .serverTcp)
      [.act .left (.readStored [7]), .act .left .readDone] = some j := ⟨_, rfl⟩
  exact ⟨j, hj, pair_within_window (fun _ => rfl) ⟨_, hj⟩ .left⟩

end reachable

end Shimakaze
