import Shimakaze.KcpTransport

/-!
# The Pace of the Rate Limiter

With a rate limit, datagrams wait in a queue and go out one by one from the handler of the
rate timer. Two places start a wait for the timer, `enqueue_udp_packet` and the handler
itself, guarded by a flag that the handler clears before it starts the next wait. Here the
waits are part of the state: starting one aborts those that are outstanding, as a timer does
whose expiry is set anew, and a wait that was not aborted ends at its expiry or any time
later. The time of a sending is the reading of the clock its handler takes.

## Main results

* `spaced_of_isChain`: gaps between neighbours add up.
* `PacerInv.step`: the queue, the flag and the waits stay together.
* `paced_of_run`: **the datagrams sent are a prefix of those enqueued, one wait is
  outstanding as long as any are left, and they keep their distance.**
-/

namespace Shimakaze

/-- **Gaps add up**: where every entry comes at least its gap before the next, two entries are
at least the gaps from one to the other apart. -/
theorem spaced_of_isChain {α : Type*} {time gap : α → ℕ} {l : List α}
    (h : l.IsChain fun a b => time a + gap a ≤ time b) {i : ℕ} {a : α} (ha : l[i]? = some a) :
    ∀ {j : ℕ} {b : α}, i < j → l[j]? = some b →
      time a + (((l.take j).drop i).map gap).sum ≤ time b := by
  intro j
  induction j with
  | zero => exact fun hij => absurd hij (Nat.not_lt_zero i)
  | succ j ih =>
      intro b hij hb
      obtain ⟨hlt, hb'⟩ := List.getElem?_eq_some_iff.mp hb
      obtain ⟨c, hc⟩ : ∃ c, l[j]? = some c := ⟨l[j], List.getElem?_eq_getElem (by omega)⟩
      obtain ⟨hjlt, hc'⟩ := List.getElem?_eq_some_iff.mp hc
      have hnext : time c + gap c ≤ time b := by
        have hpair := List.isChain_iff_getElem.mp h j hlt
        rwa [hc', hb'] at hpair
      have hslice : (l.take (j + 1)).drop i = (l.take j).drop i ++ [c] := by
        rw [List.take_add_one, hc, List.drop_append_of_le_length
          (by rw [List.length_take]; omega)]
        rfl
      rw [hslice, List.map_append, List.sum_append, List.map_singleton, List.sum_singleton]
      rcases Nat.lt_succ_iff_lt_or_eq.mp hij with hlt' | rfl
      · have hearlier := ih hlt' hc
        omega
      · obtain rfl : a = c := Option.some.inj (ha.symm.trans hc)
        rw [List.drop_take, Nat.sub_self, List.take_zero]
        simpa using hnext

namespace KcpTransport

/-! ### The waits for the timer -/

variable (transport : KcpTransport)

/-- The expiry of the wait that `schedule_rate_limited_send` starts, if it starts one. -/
def startedWait (now : ℕ) : Option ℕ :=
  if transport.closing ∨ transport.rateSendActive ∨ transport.pendingUdp = [] then none
  else some (if transport.nextTxTime < now then now else transport.nextTxTime)

/-- The wait that `enqueue_udp_packet` starts. -/
def enqueueWait (payload : Bytes) (now : ℕ) : Option ℕ :=
  if transport.config.ratelimit ≤ 0 then none
  else { transport with pendingUdp := transport.pendingUdp ++ [payload] }.startedWait now

/-- The handler of the rate timer up to its call of `schedule_rate_limited_send`, if it gets
there. -/
def rateTimerSend (error : Bool) (sentAt : ℕ) : Option KcpTransport :=
  let transport := { transport with rateSendActive := false }
  if error ∨ transport.closing then none
  else
    match transport.pendingUdp with
    | [] => none
    | payload :: pending =>
        let delayUs := payload.length * 1000000 / (max 1 transport.config.ratelimit.toInt).toNat
        some { transport with
          pendingUdp := pending
          nextTxTime := max transport.nextTxTime sentAt + 1000 * max 1 delayUs
          socket := transport.socket ++ [payload] }

/-- The handler is its first part, and `schedule_rate_limited_send` if it gets there. -/
theorem rateTimerFired_eq (error : Bool) (sentAt rescheduledAt : ℕ) :
    transport.rateTimerFired error sentAt rescheduledAt =
      match transport.rateTimerSend error sentAt with
      | some sent => sent.scheduleRateLimitedSend rescheduledAt
      | none => { transport with rateSendActive := false } := by
  rw [rateTimerFired, rateTimerSend]
  dsimp only
  split
  · rfl
  · cases transport.pendingUdp with
    | nil => rfl
    | cons payload pending => rfl

/-- The wait the handler of the rate timer starts. -/
def handlerWait (error : Bool) (sentAt rescheduledAt : ℕ) : Option ℕ :=
  (transport.rateTimerSend error sentAt).bind fun sent => sent.startedWait rescheduledAt

end KcpTransport

/-! ### Runs of the limiter -/

/-- A wait for the rate timer. -/
structure RateWait where
  expiry : ℕ
  aborted : Bool := false

/-- A datagram given to the socket, and when. -/
structure Sending where
  payload : Bytes
  time : ℕ

/-- A transport with the waits outstanding, the last reading of the clock, and what was
enqueued and sent so far. Times are in nanoseconds. -/
structure Pacer where
  transport : KcpTransport
  clock : ℕ
  waits : List RateWait := []
  enqueued : List Bytes := []
  sent : List Sending := []

namespace Pacer

/-- Starting a wait aborts those that are outstanding. -/
def arm (waits : List RateWait) : Option ℕ → List RateWait
  | none => waits
  | some expiry => (waits.map fun wait => { wait with aborted := true }) ++ [{ expiry }]

/-- What the socket was given since, at one time. -/
def stamp (before after : KcpTransport) (time : ℕ) : List Sending :=
  (after.socket.drop before.socket.length).map fun payload => { payload, time }

/-- What happens to the limiter. -/
inductive Event
  /-- `enqueue_udp_packet` is called. -/
  | enqueue (payload : Bytes) (now : ℕ)
  /-- A wait ends, and its handler takes two readings of the clock. -/
  | expire (wait sentAt rescheduledAt : ℕ)

/-- One event, at a time that is not before the last one. A wait that was not aborted does not
end before its expiry. -/
def step (pacer : Pacer) : Event → Option Pacer
  | .enqueue payload now =>
      if pacer.clock ≤ now then
        let after := pacer.transport.enqueueUdpPacket payload now
        some {
          transport := after
          clock := now
          waits := arm pacer.waits (pacer.transport.enqueueWait payload now)
          enqueued := pacer.enqueued ++ [payload]
          sent := pacer.sent ++ stamp pacer.transport after now }
      else none
  | .expire index sentAt rescheduledAt =>
      match pacer.waits[index]? with
      | none => none
      | some wait =>
          if pacer.clock ≤ sentAt ∧ sentAt ≤ rescheduledAt ∧
              (wait.aborted ∨ wait.expiry ≤ sentAt) then
            let after := pacer.transport.rateTimerFired wait.aborted sentAt rescheduledAt
            some {
              transport := after
              clock := rescheduledAt
              waits := arm (pacer.waits.eraseIdx index)
                (pacer.transport.handlerWait wait.aborted sentAt rescheduledAt)
              enqueued := pacer.enqueued
              sent := pacer.sent ++ stamp pacer.transport after sentAt }
          else none

/-- The limiter as an event machine. -/
def machine : EventMachine Pacer Event := ⟨step⟩

/-! ### What the limiter keeps -/

/-- The time a datagram takes at a rate in bytes per second, in microseconds. -/
def pace (rate : ℕ) (payload : Bytes) : ℕ := max 1 (payload.length * 1000000 / rate)

/-- The same in nanoseconds. -/
def gap (rate : ℕ) (sending : Sending) : ℕ := 1000 * pace rate sending.payload

/-- What the rate limiter promises. -/
structure Paced (rate : ℕ) (pacer : Pacer) : Prop where
  /-- The record of the sendings is what the socket was given. -/
  recorded : pacer.sent.map Sending.payload = pacer.transport.socket
  ordered : pacer.sent.map Sending.payload <+: pacer.enqueued
  one_wait : pacer.transport.pendingUdp ≠ [] → ∃ expiry, pacer.waits = [{ expiry }]
  spaced : ∀ i j a b, i < j → pacer.sent[i]? = some a → pacer.sent[j]? = some b →
    a.time + 1000 * (((pacer.sent.take j).drop i).map fun s => pace rate s.payload).sum ≤ b.time

/-- The limiter between two events. -/
structure PacerInv (rate : ℕ) (pacer : Pacer) : Prop where
  rate_eq : pacer.transport.config.ratelimit.toInt = rate
  rate_pos : 0 < rate
  is_open : pacer.transport.closing = false
  recorded : pacer.sent.map Sending.payload = pacer.transport.socket
  enqueued_eq : pacer.enqueued = pacer.transport.socket ++ pacer.transport.pendingUdp
  active_iff : pacer.transport.rateSendActive = true ↔ pacer.transport.pendingUdp ≠ []
  waits_eq : pacer.waits =
    if pacer.transport.pendingUdp = [] then [] else [{ expiry := pacer.transport.nextTxTime }]
  chain : pacer.sent.IsChain fun a b => a.time + gap rate a ≤ b.time
  next : ∀ a ∈ pacer.sent.getLast?, a.time + gap rate a ≤ pacer.transport.nextTxTime

variable {rate : ℕ} {pacer after : Pacer}

/-- The invariant says what the limiter promises. -/
theorem PacerInv.paced (h : PacerInv rate pacer) : Paced rate pacer where
  recorded := h.recorded
  ordered := by
    rw [h.recorded, h.enqueued_eq]
    exact List.prefix_append _ _
  one_wait hpending := ⟨_, h.waits_eq.trans (if_neg hpending)⟩
  spaced i j a b hij ha hb := by
    have hsum := spaced_of_isChain h.chain ha hij hb
    have hscale : ∀ l : List Sending, (l.map (gap rate)).sum =
        1000 * (l.map fun s => pace rate s.payload).sum := fun l => by
      rw [← List.sum_map_mul_left]
      rfl
    rwa [hscale] at hsum

/-! ### One event -/

/-- Scheduling with an empty queue, or while a wait is outstanding, does nothing. -/
theorem schedule_idle (transport : KcpTransport) (now : ℕ)
    (h : transport.rateSendActive = true ∨ transport.pendingUdp = []) :
    transport.scheduleRateLimitedSend now = transport ∧ transport.startedWait now = none := by
  have hcond : transport.closing = true ∨ transport.rateSendActive = true ∨
      transport.pendingUdp = [] := .inr h
  exact ⟨if_pos hcond, if_pos hcond⟩

/-- Scheduling starts a wait and sets the flag, and the wait ends not before the time the next
datagram may go. -/
theorem schedule_starts (transport : KcpTransport) (now : ℕ)
    (hopen : transport.closing = false) (hidle : transport.rateSendActive = false)
    (hpending : transport.pendingUdp ≠ []) :
    transport.scheduleRateLimitedSend now = { transport with
      rateSendActive := true
      nextTxTime := max transport.nextTxTime now } ∧
    transport.startedWait now = some (max transport.nextTxTime now) := by
  have hcond : ¬ (transport.closing = true ∨ transport.rateSendActive = true ∨
      transport.pendingUdp = []) := by simp [hopen, hidle, hpending]
  have hmax : (if transport.nextTxTime < now then now else transport.nextTxTime) =
      max transport.nextTxTime now := by
    split <;> omega
  rw [KcpTransport.scheduleRateLimitedSend, KcpTransport.startedWait, if_neg hcond, if_neg hcond,
    hmax]
  exact ⟨rfl, rfl⟩

/-- The limiter with no wait outstanding, before it schedules the next datagram. -/
structure Unscheduled (rate : ℕ) (transport : KcpTransport) (enqueued : List Bytes)
    (sent : List Sending) : Prop where
  rate_eq : transport.config.ratelimit.toInt = rate
  rate_pos : 0 < rate
  is_open : transport.closing = false
  idle : transport.rateSendActive = false
  recorded : sent.map Sending.payload = transport.socket
  enqueued_eq : enqueued = transport.socket ++ transport.pendingUdp
  chain : sent.IsChain fun a b => a.time + gap rate a ≤ b.time
  next : ∀ a ∈ sent.getLast?, a.time + gap rate a ≤ transport.nextTxTime

/-- **Scheduling** starts a wait exactly if a datagram is left. -/
theorem Unscheduled.schedule {transport : KcpTransport} {enqueued : List Bytes}
    {sent : List Sending} (h : Unscheduled rate transport enqueued sent) (now clock : ℕ) :
    PacerInv rate {
      transport := transport.scheduleRateLimitedSend now
      clock := clock
      waits := arm [] (transport.startedWait now)
      enqueued := enqueued
      sent := sent } := by
  by_cases hpending : transport.pendingUdp = []
  · obtain ⟨hschedule, hwait⟩ := schedule_idle transport now (.inr hpending)
    rw [hschedule, hwait]
    exact {
      rate_eq := h.rate_eq
      rate_pos := h.rate_pos
      is_open := h.is_open
      recorded := h.recorded
      enqueued_eq := h.enqueued_eq
      active_iff := iff_of_false (by simp [h.idle]) (not_not.mpr hpending)
      waits_eq := (if_pos hpending).symm
      chain := h.chain
      next := h.next }
  · obtain ⟨hschedule, hwait⟩ := schedule_starts transport now h.is_open h.idle hpending
    rw [hschedule, hwait]
    exact {
      rate_eq := h.rate_eq
      rate_pos := h.rate_pos
      is_open := h.is_open
      recorded := h.recorded
      enqueued_eq := h.enqueued_eq
      active_iff := iff_of_true rfl hpending
      waits_eq := (if_neg hpending).symm
      chain := h.chain
      next := fun a ha => (h.next a ha).trans (le_max_left ..) }

/-- Scheduling gives nothing to the socket. -/
theorem stamp_schedule (before transport : KcpTransport) (now time : ℕ) :
    stamp before (transport.scheduleRateLimitedSend now) time = stamp before transport time := by
  rw [stamp, stamp, KcpTransport.scheduleRateLimitedSend]
  split <;> rfl

/-- There is a rate limit. -/
theorem PacerInv.limited (h : PacerInv rate pacer) : ¬ pacer.transport.config.ratelimit ≤ 0 := by
  have hrate := h.rate_eq
  have hpos := h.rate_pos
  have hzero : (0 : Int32).toInt = 0 := rfl
  rw [Int32.le_iff_toInt_le, hzero]
  omega

/-- **A datagram is enqueued.** If others wait before it, nothing else happens; otherwise a
wait is started. -/
theorem PacerInv.enqueue (h : PacerInv rate pacer) {payload : Bytes} {now : ℕ}
    (hstep : pacer.step (.enqueue payload now) = some after) : PacerInv rate after := by
  have hlimited := h.limited
  rw [step] at hstep
  split at hstep
  swap
  · cases hstep
  obtain rfl := Option.some.inj hstep
  have hqueue : pacer.transport.pendingUdp ++ [payload] ≠ [] := by simp
  rw [KcpTransport.enqueueUdpPacket, if_neg hlimited, KcpTransport.enqueueWait, if_neg hlimited]
  by_cases hpending : pacer.transport.pendingUdp = []
  · have hidle : pacer.transport.rateSendActive = false := by
      by_contra hactive
      exact h.active_iff.mp (by simpa using hactive) hpending
    have hunscheduled : Unscheduled rate
        { pacer.transport with pendingUdp := pacer.transport.pendingUdp ++ [payload] }
        (pacer.enqueued ++ [payload]) pacer.sent := {
      rate_eq := h.rate_eq
      rate_pos := h.rate_pos
      is_open := h.is_open
      idle := hidle
      recorded := h.recorded
      enqueued_eq := by rw [h.enqueued_eq, List.append_assoc]
      chain := h.chain
      next := h.next }
    have hnothing : stamp pacer.transport ({ pacer.transport with
        pendingUdp := pacer.transport.pendingUdp ++ [payload] }.scheduleRateLimitedSend now) now =
          [] := by
      rw [stamp_schedule, stamp, List.drop_length, List.map_nil]
    rw [hnothing, List.append_nil, h.waits_eq, if_pos hpending]
    exact hunscheduled.schedule now now
  · obtain ⟨hschedule, hwait⟩ := schedule_idle { pacer.transport with
      pendingUdp := pacer.transport.pendingUdp ++ [payload] } now
      (.inl (h.active_iff.mpr hpending))
    rw [hschedule, hwait]
    simp only [stamp, List.drop_length, List.map_nil, List.append_nil]
    exact {
      rate_eq := h.rate_eq
      rate_pos := h.rate_pos
      is_open := h.is_open
      recorded := h.recorded
      enqueued_eq := by rw [h.enqueued_eq, List.append_assoc]
      active_iff := iff_of_true (h.active_iff.mpr hpending) hqueue
      waits_eq := by
        rw [h.waits_eq, if_neg hpending, if_neg hqueue]
        rfl
      chain := h.chain
      next := h.next }

/-- The first part of the handler, when it gets there: the first datagram of the queue is
sent. -/
theorem PacerInv.rateTimerSend (h : PacerInv rate pacer) {payload : Bytes} {pending : List Bytes}
    (hpending : pacer.transport.pendingUdp = payload :: pending) (sentAt : ℕ) :
    pacer.transport.rateTimerSend false sentAt = some { pacer.transport with
      rateSendActive := false
      pendingUdp := pending
      nextTxTime := max pacer.transport.nextTxTime sentAt + 1000 * pace rate payload
      socket := pacer.transport.socket ++ [payload] } := by
  have hrate : (max 1 pacer.transport.config.ratelimit.toInt).toNat = rate := by
    have hpos := h.rate_pos
    rw [h.rate_eq]
    omega
  rw [KcpTransport.rateTimerSend]
  dsimp only
  rw [if_neg (by simp [h.is_open]), hpending, hrate]
  rfl

/-- A sending that comes late enough goes on with the chain. -/
theorem isChain_concat {sent : List Sending} (payload : Bytes) {time : ℕ}
    (h : sent.IsChain fun a b => a.time + gap rate a ≤ b.time)
    (hlate : ∀ a ∈ sent.getLast?, a.time + gap rate a ≤ time) :
    (sent ++ [({ payload, time } : Sending)]).IsChain
      fun a b => a.time + gap rate a ≤ b.time := by
  refine List.isChain_append.mpr ⟨h, List.isChain_singleton _, fun a ha b hb => ?_⟩
  rw [List.head?_cons, Option.mem_some_iff] at hb
  rw [← hb]
  exact hlate a ha

/-- **The wait ends**: one datagram is sent, and the next wait starts if any are left. -/
theorem PacerInv.expire (h : PacerInv rate pacer) {index sentAt rescheduledAt : ℕ}
    (hstep : pacer.step (.expire index sentAt rescheduledAt) = some after) :
    PacerInv rate after := by
  rw [step, h.waits_eq] at hstep
  cases hpending : pacer.transport.pendingUdp with
  | nil =>
      rw [if_pos hpending] at hstep
      cases hstep
  | cons payload pending =>
      rw [if_neg (by rw [hpending]; exact List.cons_ne_nil _ _)] at hstep
      cases index with
      | succ index => cases hstep
      | zero =>
          rw [List.getElem?_cons_zero] at hstep
          dsimp only at hstep
          split at hstep
          swap
          · cases hstep
          rename_i htime
          obtain ⟨-, -, htime⟩ := htime
          have hdue : pacer.transport.nextTxTime ≤ sentAt := by simpa using htime
          obtain rfl := Option.some.inj hstep
          have hsend := h.rateTimerSend hpending sentAt
          rw [max_eq_right hdue] at hsend
          rw [KcpTransport.rateTimerFired_eq, KcpTransport.handlerWait, hsend]
          have hunscheduled : Unscheduled rate
              { pacer.transport with
                rateSendActive := false
                pendingUdp := pending
                nextTxTime := sentAt + 1000 * pace rate payload
                socket := pacer.transport.socket ++ [payload] }
              pacer.enqueued (pacer.sent ++ [({ payload, time := sentAt } : Sending)]) := {
            rate_eq := h.rate_eq
            rate_pos := h.rate_pos
            is_open := h.is_open
            idle := rfl
            recorded := by
              rw [List.map_append, h.recorded]
              rfl
            enqueued_eq := by
              rw [h.enqueued_eq, hpending, List.append_assoc, List.singleton_append]
            chain := isChain_concat payload h.chain fun a ha => (h.next a ha).trans hdue
            next := fun a ha => by
              rw [List.getLast?_concat, Option.mem_some_iff] at ha
              rw [← ha]
              exact le_rfl }
          have hone : stamp pacer.transport ({ pacer.transport with
              rateSendActive := false
              pendingUdp := pending
              nextTxTime := sentAt + 1000 * pace rate payload
              socket := pacer.transport.socket ++ [payload]
                }.scheduleRateLimitedSend rescheduledAt) sentAt =
              [{ payload, time := sentAt }] := by
            rw [stamp_schedule, stamp, List.drop_left, List.map_singleton]
          rw [Option.bind_some]
          dsimp only
          rw [hone]
          exact hunscheduled.schedule rescheduledAt rescheduledAt

/-- **One event** keeps the limiter's invariant. -/
theorem PacerInv.step (h : PacerInv rate pacer) {event : Event}
    (hstep : pacer.step event = some after) : PacerInv rate after := by
  cases event with
  | enqueue payload now => exact h.enqueue hstep
  | expire index sentAt rescheduledAt => exact h.expire hstep

/-- **The pace**: for every configuration with a rate limit and in every run of calls of
`enqueue_udp_packet` and expiries, at every moment the datagrams sent are a prefix of those
enqueued, one wait is outstanding while any are left, and any two of them are as far apart as
the datagrams from the one to before the other take at the configured rate. -/
theorem paced_of_run (lib : CryptoLib) (ikcpSetmtu : Int32 → Int32)
    (config : BaseConfig) (hrate : 0 < config.ratelimit) (transport : KcpTransport)
    (hcreate : KcpTransport.create lib ikcpSetmtu config = .ok transport) (clock : ℕ)
    (events : List Event) (pacer : Pacer)
    (hrun : machine.run { transport, clock } events = some pacer) :
    Paced config.ratelimit.toInt.toNat pacer := by
  obtain ⟨crypt, fec, kcpMtu, -, -, -, rfl⟩ := KcpTransport.create_parts hcreate
  have hpos : 0 < config.ratelimit.toInt := Int32.lt_iff_toInt_lt.mp hrate
  have hinit : PacerInv config.ratelimit.toInt.toNat
      { transport := { config, crypt, fec, kcpMtu }, clock } := {
    rate_eq := by
      show config.ratelimit.toInt = _
      omega
    rate_pos := by omega
    is_open := rfl
    recorded := rfl
    enqueued_eq := rfl
    active_iff := iff_of_false Bool.false_ne_true (not_not.mpr rfl)
    waits_eq := rfl
    chain := List.IsChain.nil
    next := fun a ha => by cases ha }
  exact (EventMachine.run_invariant (fun _ _ _ h hstep => h.step hstep) hinit hrun).paced

open KcpTransport in
/-- Two datagrams of five bytes at ten bytes a second. -/
theorem two_datagrams_paced :
    ∃ transport pacer, create PacketCrypt.withoutLibrary (fun _ => 0)
        { crypt := "none", datashard := 0, parityshard := 0, ratelimit := 10 } = .ok transport ∧
      machine.run { transport, clock := 7 }
        [.enqueue [1, 1, 1, 1, 1] 10, .enqueue [2, 2, 2, 2, 2] 20,
          .expire 0 30 40, .expire 0 600000000 600000001] = some pacer ∧
      pacer.sent.map Sending.time = [30, 600000000] ∧
      Paced ((10 : Int32).toInt.toNat) pacer := by
  obtain ⟨transport, hcreate⟩ : ∃ transport, create PacketCrypt.withoutLibrary (fun _ => 0)
      { crypt := "none", datashard := 0, parityshard := 0, ratelimit := 10 } = .ok transport :=
    ⟨_, rfl⟩
  have htransport := (Except.ok.inj hcreate).symm
  obtain ⟨pacer, hrun, htimes⟩ : ∃ pacer, machine.run { transport, clock := 7 }
      [.enqueue [1, 1, 1, 1, 1] 10, .enqueue [2, 2, 2, 2, 2] 20,
        .expire 0 30 40, .expire 0 600000000 600000001] = some pacer ∧
      pacer.sent.map Sending.time = [30, 600000000] := by
    rw [htransport]
    exact ⟨_, rfl, rfl⟩
  exact ⟨transport, pacer, hcreate, hrun, htimes,
    paced_of_run PacketCrypt.withoutLibrary (fun _ => 0)
      { crypt := "none", datashard := 0, parityshard := 0, ratelimit := 10 } (by decide)
      transport hcreate 7 _ pacer hrun⟩

end Pacer

end Shimakaze
