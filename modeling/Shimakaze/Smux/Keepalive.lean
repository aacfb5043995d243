import Shimakaze.Lib.TwoParty
import Shimakaze.Smux.Evolution

/-!
# Keepalive

Two sessions watch each other: every tick of the keepalive timer sends a NOP frame, and a
session that finds at its tick that nothing has arrived for longer than `smux_timeout`
closes. `timedTunnel` is the tunnel with one clock, in nanoseconds. The timers fire on the
multiples of their period after the common start and no NOP byte stays in flight for longer
than a second: time does not pass beyond either. Everything else, traffic in particular,
happens at any time and in any order.

The constructor of a session sets `last_activity_`, and `start` sets the timer after that.
Each reads the clock for itself, so the silence that the first tick finds is a period and
the time between the two readings.

## Main results

* `beats_step`: what the peer has heard of a side's ticks, in every run.
* `keepalive_never_closes_iff`: no tick closes an open session, **exactly when** that
  silence is at most thirty seconds; so the setting has to be below thirty.
-/

namespace Shimakaze

/-- The delay of the keepalive timer, in nanoseconds. -/
def BaseConfig.keepalivePeriod (config : BaseConfig) : ℕ :=
  1000000000 * (max 1 config.keepalive.toInt).toNat

/-- How long a NOP frame takes at most, in nanoseconds. -/
def nopDelay : ℕ := 1000000000

theorem BaseConfig.nopDelay_le_keepalivePeriod (config : BaseConfig) :
    nopDelay ≤ config.keepalivePeriod := by
  rw [nopDelay, keepalivePeriod]
  omega

/-- A period is a second, or it is two at least. -/
theorem BaseConfig.keepalivePeriod_cases (config : BaseConfig) :
    2 * nopDelay ≤ config.keepalivePeriod ∨ config.keepalivePeriod = nopDelay := by
  rw [nopDelay, keepalivePeriod]
  omega

/-- A byte in flight; those of a NOP frame carry the time it was sent. -/
structure Transit where
  byte : UInt8
  nopSentAt : Option ℕ

/-- Two sessions, the bytes in flight from each, the clock, and how often each timer has
fired. -/
structure TimedTunnel where
  now : ℕ
  ticks : Side → ℕ
  session : Side → SmuxSession
  channel : Side → List Transit

/-- What can happen in a tunnel with a clock. -/
inductive TimedEvent
  | elapse (nanoseconds : ℕ)
  /-- The keepalive timer fires. -/
  | tick (side : Side)
  /-- Anything else on one side, apart from an arrival. -/
  | act (side : Side) (e : SessionEvent)
  | deliver (side : Side) (count : ℕ)
  deriving DecidableEq

namespace TimedTunnel

/-- The time of a side's next tick. -/
def due (setting : Side → Setting) (start : ℕ) (j : TimedTunnel) (p : Side) : ℕ :=
  start + (j.ticks p + 1) * (setting p).config.keepalivePeriod

/-- As far as one side goes, the clock may show `t`: its next tick is not in the past, and
the NOP frames it sent are not late. -/
def Timely (setting : Side → Setting) (start : ℕ) (j : TimedTunnel) (t : ℕ) (p : Side) : Prop :=
  t ≤ j.due setting start p ∧
    ∀ b ∈ j.channel p, ∀ sentAt ∈ b.nopSentAt, t ≤ sentAt + nopDelay

instance (setting : Side → Setting) (start : ℕ) (j : TimedTunnel) (t : ℕ) (p : Side) :
    Decidable (j.Timely setting start t p) :=
  inferInstanceAs (Decidable (_ ∧ _))

/-- One side's session ran: what it gave to the transport is in flight. -/
def sent (j : TimedTunnel) (p : Side) (s : SmuxSession) (stamp : Option ℕ) : TimedTunnel :=
  { j with
    session := Function.update j.session p { s with outbox := [] }
    channel := Function.update j.channel p (j.channel p ++ s.outbox.map (⟨·, stamp⟩)) }

/-- Both sessions are open. -/
def Open (j : TimedTunnel) : Prop := ∀ p, (j.session p).closed = false

end TimedTunnel

/-- The tunnel with a clock, from the common start of the timers. -/
def timedTunnel (setting : Side → Setting) (start : ℕ) : EventMachine TimedTunnel TimedEvent where
  step j
    | .elapse nanoseconds =>
        if j.Timely setting start (j.now + nanoseconds) .left ∧
            j.Timely setting start (j.now + nanoseconds) .right then
          some { j with now := j.now + nanoseconds }
        else none
    | .tick p =>
        if j.now = j.due setting start p then
          some (TimedTunnel.sent { j with ticks := Function.update j.ticks p (j.ticks p + 1) } p
            ((j.session p).keepaliveTick (setting p) j.now) (some j.now))
        else none
    | .act p e =>
        if e = .keepalive then none
        else ((j.session p).act (setting p) j.now e).map fun s => j.sent p s none
    | .deliver p n =>
        some (TimedTunnel.sent
          { j with channel := Function.update j.channel p.other ((j.channel p.other).drop n) } p
          ((j.session p).onTransportBytes (setting p) j.now
            (((j.channel p.other).take n).map Transit.byte)) none)

/-- Two sessions that have been made and now start their timers, at the same time. -/
def timedStart (left right : SmuxSession) (start : ℕ) : TimedTunnel where
  now := start
  ticks _ := 0
  session
    | .left => left
    | .right => right
  channel _ := []

/-- In no run does a tick close a session while both are open. -/
def NeverTimesOut (setting : Side → Setting) (start : ℕ) (left right : SmuxSession) : Prop :=
  ∀ j k p, (timedTunnel setting start).Reachable (timedStart left right start) j → j.Open →
    (timedTunnel setting start).step j (.tick p) = some k → (k.session p).closed = false

/-! ### A tick -/

namespace SmuxSession

variable {setting : Setting} {s f : SmuxSession}

/-- **When a tick closes a session**: it is closed afterwards exactly when it was before or
the silence exceeds the limit. -/
theorem keepaliveTick_closed (s : SmuxSession) (now : ℕ) :
    (s.keepaliveTick setting now).closed = false ↔
      s.closed = false ∧ now - s.lastActivity ≤ smuxTimeout := by
  have hclosed : (s.sendFrame setting .nop 0 []).closed = s.closed :=
    congrArg (fun k => k.1.1) (sendFrame_kept s .nop 0 [])
  have hactivity : (s.sendFrame setting .nop 0 []).lastActivity = s.lastActivity :=
    congrArg (fun k => k.2.1) (sendFrame_inbound s .nop 0 [])
  simp only [keepaliveTick, hactivity]
  split_ifs with h hsilent
  · simp [h]
  · simp only [close_closed, Bool.true_eq_false, false_iff, not_and]
    intro _
    omega
  · rw [startKeepaliveTimer]
    split_ifs <;> simp only [hclosed] <;> simp [h, not_lt.mp hsilent]

/-- What an open session gives to the transport at a tick that leaves it open. -/
theorem keepaliveTick_outbox {now : ℕ} (hkept : (s.keepaliveTick setting now).closed = false) :
    (s.keepaliveTick setting now).outbox =
      s.outbox ++ transportBytes setting s.compressor [⟨.nop, 0, []⟩] := by
  obtain ⟨hopen, hheard⟩ := (s.keepaliveTick_closed now).mp hkept
  have hactivity : (s.sendFrame setting .nop 0 []).lastActivity = s.lastActivity :=
    congrArg (fun k => k.2.1) (sendFrame_inbound s .nop 0 [])
  rw [← (sendFrame_emits hopen (Nat.zero_le _)).outbox]
  simp only [keepaliveTick, hactivity]
  rw [if_neg (by simp [hopen]), if_neg (not_lt.mpr hheard), startKeepaliveTimer]
  split_ifs <;> rfl

end SmuxSession

/-! ### What is heard of the ticks -/

variable {setting : Side → Setting} {start : ℕ} {made : Side → ℕ} {j k : TimedTunnel} {p : Side}

/-- **The invariant of one direction**: the clock is between the last tick of the side and
its next one, no NOP of the side is late, and of every tick so far the peer has heard later,
or the NOP is in flight; `made` is when the constructors read the clock. -/
structure Beats (setting : Side → Setting) (start : ℕ) (made : Side → ℕ) (j : TimedTunnel)
    (p : Side) : Prop where
  ticked : start + j.ticks p * (setting p).config.keepalivePeriod ≤ j.now
  timely : j.Timely setting start j.now p
  alive : made p.other ≤ (j.session p.other).lastActivity
  heard : ∀ i < j.ticks p,
    start + (i + 1) * (setting p).config.keepalivePeriod ≤ (j.session p.other).lastActivity ∨
      ∃ b ∈ j.channel p,
        b.nopSentAt = some (start + (i + 1) * (setting p).config.keepalivePeriod)

/-- Time passes. -/
theorem Beats.elapse (h : Beats setting start made j p) {nanoseconds : ℕ}
    (htimely : j.Timely setting start (j.now + nanoseconds) p) :
    Beats setting start made { j with now := j.now + nanoseconds } p where
  ticked := h.ticked.trans (Nat.le_add_right _ _)
  timely := htimely
  alive := h.alive
  heard := h.heard

/-- The side sends something other than a NOP, or the peer does. -/
theorem Beats.carry (h : Beats setting start made j p) (hnow : k.now = j.now)
    (hticks : k.ticks p = j.ticks p)
    (hactivity : (k.session p.other).lastActivity = (j.session p.other).lastActivity)
    {more : List Transit} (hchannel : k.channel p = j.channel p ++ more)
    (hmore : ∀ b ∈ more, b.nopSentAt = none) : Beats setting start made k p where
  ticked := by
    rw [hticks, hnow]
    exact h.ticked
  timely := by
    refine ⟨?_, fun b hb sentAt hsentAt => ?_⟩
    · rw [TimedTunnel.due, hticks, hnow]
      exact h.timely.1
    · rw [hchannel] at hb
      rcases List.mem_append.mp hb with hb | hb
      · rw [hnow]
        exact h.timely.2 b hb sentAt hsentAt
      · rw [hmore b hb] at hsentAt
        exact absurd hsentAt (by simp)
  alive := by
    rw [hactivity]
    exact h.alive
  heard i hi := by
    rw [hticks] at hi
    rw [hactivity]
    refine (h.heard i hi).imp_right ?_
    rintro ⟨b, hb, hstamp⟩
    exact ⟨b, hchannel ▸ List.mem_append_left _ hb, hstamp⟩

/-- The side's timer fires, and the NOP is in flight. -/
theorem Beats.tick (h : Beats setting start made j p) (hdue : j.now = j.due setting start p)
    (hnow : k.now = j.now) (hticks : k.ticks p = j.ticks p + 1)
    (hactivity : (k.session p.other).lastActivity = (j.session p.other).lastActivity)
    {bytes : Bytes} (hbytes : bytes ≠ [])
    (hchannel : k.channel p = j.channel p ++ bytes.map (⟨·, some j.now⟩)) :
    Beats setting start made k p where
  ticked := by
    rw [hticks, hnow, hdue, TimedTunnel.due]
  timely := by
    refine ⟨?_, fun b hb sentAt hsentAt => ?_⟩
    · rw [TimedTunnel.due, hticks, hnow, hdue, TimedTunnel.due]
      exact Nat.add_le_add_left (Nat.mul_le_mul_right _ (Nat.le_succ _)) _
    · rw [hnow]
      rw [hchannel] at hb
      rcases List.mem_append.mp hb with hb | hb
      · exact h.timely.2 b hb sentAt hsentAt
      · obtain ⟨byte, -, rfl⟩ := List.mem_map.mp hb
        obtain rfl := Option.some.inj hsentAt
        exact Nat.le_add_right _ _
  alive := by
    rw [hactivity]
    exact h.alive
  heard i hi := by
    rw [hactivity, hchannel]
    rw [hticks] at hi
    rcases Nat.lt_succ_iff_lt_or_eq.mp hi with hi | rfl
    · refine (h.heard i hi).imp_right ?_
      rintro ⟨b, hb, hstamp⟩
      exact ⟨b, List.mem_append_left _ hb, hstamp⟩
    · obtain ⟨byte, hbyte⟩ := List.exists_mem_of_ne_nil bytes hbytes
      right
      refine ⟨⟨byte, some j.now⟩, List.mem_append_right _ (List.mem_map_of_mem hbyte), ?_⟩
      rw [hdue, TimedTunnel.due]

/-- Some of the bytes in flight arrive: at that moment the peer has heard of every tick. -/
theorem Beats.arrive (h : Beats setting start made j p) (hmade : made p.other ≤ start)
    (hnow : k.now = j.now) (hticks : k.ticks p = j.ticks p) {count : ℕ}
    (hchannel : k.channel p = (j.channel p).drop count)
    (hactivity : (j.channel p).take count ≠ [] → (k.session p.other).lastActivity = j.now)
    (hidle : (j.channel p).take count = [] →
      (k.session p.other).lastActivity = (j.session p.other).lastActivity) :
    Beats setting start made k p := by
  by_cases hnil : (j.channel p).take count = []
  · refine @Beats.carry _ _ _ _ _ _ h hnow hticks (hidle hnil) [] ?_ (by simp)
    have hsplit := List.take_append_drop count (j.channel p)
    rw [hnil, List.nil_append] at hsplit
    rw [hchannel, hsplit, List.append_nil]
  · refine ⟨?_, ⟨?_, fun b hb => ?_⟩, ?_, fun i hi => Or.inl ?_⟩
    · rw [hticks, hnow]
      exact h.ticked
    · rw [TimedTunnel.due, hticks, hnow]
      exact h.timely.1
    · rw [hnow]
      rw [hchannel] at hb
      exact h.timely.2 b (List.mem_of_mem_drop hb)
    · rw [hactivity hnil]
      exact hmade.trans ((Nat.le_add_right _ _).trans h.ticked)
    · rw [hactivity hnil]
      rw [hticks] at hi
      exact (Nat.add_le_add_left (Nat.mul_le_mul_right _ hi) _).trans h.ticked

/-! ### Runs -/

namespace TimedTunnel

variable {s : SmuxSession} {stamp : Option ℕ}

@[simp] theorem sent_session_self : (j.sent p s stamp).session p = { s with outbox := [] } :=
  Function.update_self ..

@[simp] theorem sent_session_other : (j.sent p s stamp).session p.other = j.session p.other :=
  Function.update_of_ne p.other_ne ..

@[simp] theorem sent_channel_self :
    (j.sent p s stamp).channel p = j.channel p ++ s.outbox.map (⟨·, stamp⟩) :=
  Function.update_self ..

@[simp] theorem sent_channel_other : (j.sent p s stamp).channel p.other = j.channel p.other :=
  Function.update_of_ne p.other_ne ..

/-- The session that ran was open before if it is now. -/
theorem open_of_sent (hopen : (j.sent p s stamp).Open)
    (hstays : (j.session p).closed = true → s.closed = true) : j.Open := by
  intro q
  rcases q.eq_or_eq_other p with rfl | rfl
  · have hs := hopen q
    rw [sent_session_self] at hs
    rw [← Bool.not_eq_true]
    exact fun hclosed => absurd ((hstays hclosed).symm.trans hs) (by decide)
  · have hother := hopen p.other
    rwa [sent_session_other] at hother

end TimedTunnel

/-- Sessions do not open again. -/
theorem open_of_step {e : TimedEvent} (hstep : (timedTunnel setting start).step j e = some k)
    (hopen : k.Open) : j.Open := by
  cases e with
  | elapse nanoseconds =>
      simp only [timedTunnel] at hstep
      split_ifs at hstep
      obtain rfl := Option.some.inj hstep
      exact hopen
  | tick p =>
      simp only [timedTunnel] at hstep
      split_ifs at hstep
      obtain rfl := Option.some.inj hstep
      exact @TimedTunnel.open_of_sent _ _ _ (some j.now) hopen
        (@SmuxSession.keepaliveTick_evolves _ [] (j.session p) j.now).stays_closed
  | act p e =>
      simp only [timedTunnel] at hstep
      split_ifs at hstep
      obtain ⟨s, hs, rfl⟩ := Option.map_eq_some_iff.mp hstep
      exact TimedTunnel.open_of_sent hopen (@SmuxSession.act_evolves _ _ _ [] _ _ hs).stays_closed
  | deliver p n =>
      obtain rfl := Option.some.inj hstep
      exact @TimedTunnel.open_of_sent _ _ _ none hopen
        (@SmuxSession.onTransportBytes_evolves _ [] (j.session p) j.now _).stays_closed

/-- **A step of the tunnel keeps the invariant of both directions.** -/
theorem beats_step (hmade : ∀ p, made p ≤ start) (h : ∀ p, Beats setting start made j p)
    {e : TimedEvent} (hstep : (timedTunnel setting start).step j e = some k) (hopen : k.Open)
    (p : Side) :
    Beats setting start made k p := by
  have hwasOpen := open_of_step hstep hopen
  cases e with
  | elapse nanoseconds =>
      simp only [timedTunnel] at hstep
      split_ifs at hstep with htimely
      obtain rfl := Option.some.inj hstep
      cases p with
      | left => exact (h .left).elapse htimely.1
      | right => exact (h .right).elapse htimely.2
  | tick q =>
      simp only [timedTunnel] at hstep
      split_ifs at hstep with hdue
      obtain rfl := Option.some.inj hstep
      have hkept := hopen q
      rw [TimedTunnel.sent_session_self] at hkept
      rcases p.eq_or_eq_other q with rfl | rfl
      · refine (h p).tick hdue rfl (Function.update_self ..) ?_ ?_ TimedTunnel.sent_channel_self
        · rw [TimedTunnel.sent_session_other]
        · rw [SmuxSession.keepaliveTick_outbox hkept]
          exact List.append_ne_nil_of_right_ne_nil _ (transportBytes_ne_nil _ _)
      · refine (h q.other).carry rfl (Function.update_of_ne q.other_ne ..) ?_
          (TimedTunnel.sent_channel_other.trans (List.append_nil _).symm) (by simp)
        rw [Side.other_other, TimedTunnel.sent_session_self]
        exact congrArg (fun k => k.2.1) (SmuxSession.keepaliveTick_inbound (j.session q) j.now)
  | act q e =>
      simp only [timedTunnel] at hstep
      split_ifs at hstep
      obtain ⟨s, hs, rfl⟩ := Option.map_eq_some_iff.mp hstep
      rcases p.eq_or_eq_other q with rfl | rfl
      · refine (h p).carry rfl rfl ?_ TimedTunnel.sent_channel_self (by simp)
        rw [TimedTunnel.sent_session_other]
      · refine (h q.other).carry rfl rfl ?_
          (TimedTunnel.sent_channel_other.trans (List.append_nil _).symm) (by simp)
        rw [Side.other_other, TimedTunnel.sent_session_self]
        exact congrArg (fun k => k.2.1) (SmuxSession.act_inbound hs)
  | deliver q n =>
      obtain rfl := Option.some.inj hstep
      rcases p.eq_or_eq_other q with rfl | rfl
      · refine (h p).carry rfl rfl ?_ (TimedTunnel.sent_channel_self.trans
          (congrArg (· ++ _) (Function.update_of_ne p.ne_other ..))) (by simp)
        rw [TimedTunnel.sent_session_other]
      · refine (h q.other).arrive (hmade _) rfl rfl
          (TimedTunnel.sent_channel_other.trans (Function.update_self ..)) (fun hsome => ?_)
          fun hnone => ?_
        · rw [Side.other_other, TimedTunnel.sent_session_self]
          exact SmuxSession.onTransportBytes_lastActivity (hwasOpen q) _
            (List.map_eq_nil_iff.not.mpr hsome)
        · rw [Side.other_other, TimedTunnel.sent_session_self]
          simp only [hnone, List.map_nil, SmuxSession.onTransportBytes_of_ignored (Or.inr rfl)]

/-- The silence a side finds at its tick: at most one period, or two where a period is no
longer than a NOP takes, and, for one that has heard nothing yet, the time from when it was
made to the start. -/
theorem Beats.silence_le (h : Beats setting start made j p) (hmade : made p.other ≤ start)
    (hsame : (setting p.other).config.keepalive = (setting p).config.keepalive)
    (hdue : j.now = j.due setting start p.other) :
    j.now - (j.session p.other).lastActivity ≤
      start - made p.other + max (setting p).config.keepalivePeriod (2 * nopDelay) := by
  have hdelay := (setting p).config.nopDelay_le_keepalivePeriod
  have hpos : 0 < (setting p).config.keepalivePeriod :=
    lt_of_lt_of_le (by decide) hdelay
  have hperiod : (setting p.other).config.keepalivePeriod = (setting p).config.keepalivePeriod := by
    rw [BaseConfig.keepalivePeriod, BaseConfig.keepalivePeriod, hsame]
  rw [TimedTunnel.due, hperiod] at hdue
  obtain ⟨hnext, hlate⟩ := h.timely
  rw [TimedTunnel.due] at hnext
  have halive := h.alive
  set period := (setting p).config.keepalivePeriod
  -- the peer has ticked as often as this side had before its tick
  have hticks : j.ticks p.other ≤ j.ticks p := by
    rw [hdue] at hnext
    exact Nat.le_of_succ_le_succ (Nat.le_of_mul_le_mul_right (Nat.le_of_add_le_add_left hnext) hpos)
  have hflight (i : ℕ) (hi : i < j.ticks p.other) :
      start + (i + 1) * period ≤ (j.session p.other).lastActivity ∨
        j.now ≤ start + (i + 1) * period + nopDelay := by
    refine (h.heard i (hi.trans_le hticks)).imp_right ?_
    rintro ⟨b, hb, hstamp⟩
    exact hlate b hb _ hstamp
  rw [Nat.succ_mul] at hdue
  cases hcount : j.ticks p.other with
  | zero =>
      rw [hcount, Nat.zero_mul] at hdue
      omega
  | succ i =>
      have hlast := hflight i (by omega)
      rw [hcount] at hdue
      rcases hlast with hheard | hunheard
      · omega
      · -- the NOP of the peer's last tick is in flight: a period is as long as it may take
        cases i with
        | zero =>
            rw [Nat.zero_add, Nat.one_mul] at hdue hunheard
            omega
        | succ i =>
            have hbefore := hflight i (by omega)
            rw [Nat.succ_mul] at hdue hunheard
            omega

/-- Both sessions before either timer has fired. -/
theorem launch_beats {left right : SmuxSession} {handler : Side → Option SmuxStream.Start}
    (hleft : SmuxSession.launch (setting .left) true (handler .left) (made .left) = .ok left)
    (hright : SmuxSession.launch (setting .right) false (handler .right) (made .right) =
      .ok right) :
    (timedStart left right start).Open ∧ ∀ p,
      Beats setting start made (timedStart left right start) p ∧
        ((timedStart left right start).session p).lastActivity = made p := by
  obtain ⟨pad, timer, -, rfl⟩ := SmuxSession.launch_eq_ok hleft
  obtain ⟨pad', timer', -, rfl⟩ := SmuxSession.launch_eq_ok hright
  refine ⟨fun p => by cases p <;> rfl, fun p => ⟨⟨?_, ⟨?_, ?_⟩, ?_, ?_⟩, ?_⟩⟩
  · simp [timedStart]
  · exact Nat.le_add_right _ _
  · intro b hb
    exact absurd hb List.not_mem_nil
  · cases p <;> exact le_rfl
  · intro i hi
    exact absurd hi (Nat.not_lt_zero i)
  · cases p <;> rfl

/-- A tick keeps a session open that hears the peer often enough. -/
theorem Beats.tick_open (hbeats : Beats setting start made j p.other) (hmade : made p ≤ start)
    (hsame : (setting p.other).config.keepalive = (setting p).config.keepalive)
    (hshort : start - made p + max (setting p).config.keepalivePeriod (2 * nopDelay) ≤ smuxTimeout)
    (hopen : (j.session p).closed = false)
    (hstep : (timedTunnel setting start).step j (.tick p) = some k) :
    (k.session p).closed = false := by
  simp only [timedTunnel] at hstep
  split_ifs at hstep with hdue
  obtain rfl := Option.some.inj hstep
  rw [TimedTunnel.sent_session_self]
  refine (SmuxSession.keepaliveTick_closed _ _).mpr ⟨hopen, ?_⟩
  have hsilence := hbeats.silence_le (by rwa [Side.other_other])
    (by rw [Side.other_other]; exact hsame.symm) (by rw [Side.other_other]; exact hdue)
  rw [Side.other_other, BaseConfig.keepalivePeriod, hsame] at hsilence
  exact hsilence.trans hshort

/-! ### The longest silence -/

section Unheard

variable {left right : SmuxSession}

/-- Nothing has been heard by a side since it was made, and what it sent was sent by a tick at
the time `sentAt`. -/
structure Unheard (made : Side → ℕ) (sentAt : ℕ) (j : TimedTunnel) (p : Side) : Prop where
  activity_eq : (j.session p).lastActivity = made p
  inFlight : ∀ b ∈ j.channel p, b.nopSentAt = some sentAt

/-- The silence that a tick finds on such a side is within the limit, if no tick closes. -/
theorem Unheard.silence_le {sentAt : ℕ} (h : Unheard made sentAt j p)
    (hnever : NeverTimesOut setting start left right)
    (hreach : (timedTunnel setting start).Reachable (timedStart left right start) j)
    (hopen : j.Open) (hdue : j.now = j.due setting start p) :
    j.now - made p ≤ smuxTimeout := by
  have hkept := hnever _ _ p hreach hopen (if_pos hdue)
  rw [TimedTunnel.sent_session_self] at hkept
  have hsilence := ((SmuxSession.keepaliveTick_closed _ _).mp hkept).2
  rwa [h.activity_eq] at hsilence

/-- A tick on such a side changes nothing that the silence depends on. -/
theorem Unheard.tick (h : ∀ q, Unheard made j.now j q) (hdue : j.now = j.due setting start p) :
    ∃ k, (timedTunnel setting start).step j (.tick p) = some k ∧ k.now = j.now ∧
      k.ticks = Function.update j.ticks p (j.ticks p + 1) ∧ (∀ q, Unheard made k.now k q) ∧
      k.session p.other = j.session p.other := by
  refine ⟨_, if_pos hdue, rfl, rfl, fun q => ?_, TimedTunnel.sent_session_other⟩
  rcases q.eq_or_eq_other p with rfl | rfl
  · constructor
    · rw [TimedTunnel.sent_session_self]
      exact (congrArg (fun k => k.2.1)
        (SmuxSession.keepaliveTick_inbound (j.session q) j.now)).trans (h q).activity_eq
    · intro b hb
      rw [TimedTunnel.sent_channel_self] at hb
      rcases List.mem_append.mp hb with hb | hb
      · exact (h q).inFlight b hb
      · obtain ⟨byte, -, rfl⟩ := List.mem_map.mp hb
        rfl
  · constructor
    · rw [TimedTunnel.sent_session_other]
      exact (h p.other).activity_eq
    · intro b hb
      rw [TimedTunnel.sent_channel_other] at hb
      exact (h p.other).inFlight b hb

/-- Both timers fire for the first time, and no session is closed by it. -/
theorem exists_ticked (hnever : NeverTimesOut setting start left right)
    (hreach : (timedTunnel setting start).Reachable (timedStart left right start) j)
    (hopen : j.Open) (hidle : ∀ q, Unheard made j.now j q) (hcount : ∀ q, j.ticks q = 0)
    (hdue : ∀ q, j.now = j.due setting start q) :
    ∃ k, (timedTunnel setting start).Reachable (timedStart left right start) k ∧ k.Open ∧
      k.now = j.now ∧ (∀ q, k.ticks q = 1) ∧ ∀ q, Unheard made k.now k q := by
  obtain ⟨first, hstep, hnow, hticks, hidle', hother⟩ := Unheard.tick hidle (hdue .left)
  have hopen' : first.Open := by
    rintro (_ | _)
    · exact hnever _ _ .left hreach hopen hstep
    · exact (congrArg SmuxSession.closed hother).trans (hopen .right)
  have hreach' := hreach.tail _ hstep
  have hdue' : first.now = first.due setting start .right := by
    rw [hnow, hdue .right, TimedTunnel.due, TimedTunnel.due, hticks]
    rfl
  obtain ⟨second, hstep', hnow', hticks', hidle'', hother'⟩ := Unheard.tick hidle' hdue'
  refine ⟨second, hreach'.tail _ hstep', ?_, hnow'.trans hnow, ?_, hidle''⟩
  · rintro (_ | _)
    · exact (congrArg SmuxSession.closed hother').trans (hopen' .left)
    · exact hnever _ _ .right hreach' hopen' hstep'
  · rintro (_ | _)
    · rw [hticks', hticks]
      exact congrArg (· + 1) (hcount .left)
    · rw [hticks', hticks]
      exact congrArg (· + 1) (hcount .right)

/-- Time passes, as far as both sides have it. -/
theorem step_elapse {duration : ℕ} (h : ∀ q, j.Timely setting start (j.now + duration) q) :
    (timedTunnel setting start).step j (.elapse duration) =
      some { j with now := j.now + duration } :=
  if_pos ⟨h .left, h .right⟩

/-- **If no tick closes a session, the longest silence is within the limit**: nothing happens
but the first ticks, and where a period is as long as a NOP may take, the second ticks come
before the NOP frames of the first. -/
theorem NeverTimesOut.silence_le (hnever : NeverTimesOut setting start left right)
    (hmade : ∀ q, made q ≤ start) {period : ℕ}
    (hperiod : ∀ q, (setting q).config.keepalivePeriod = period)
    (hopen : (timedStart left right start).Open)
    (hunheard : ∀ q, ((timedStart left right start).session q).lastActivity = made q) (p : Side) :
    start - made p + max period (2 * nopDelay) ≤ smuxTimeout := by
  have hstep : (timedTunnel setting start).step (timedStart left right start) (.elapse period) =
      some { timedStart left right start with now := start + period } := by
    refine step_elapse fun q => ⟨?_, fun b hb => absurd hb List.not_mem_nil⟩
    rw [TimedTunnel.due, hperiod]
    exact (congrArg (start + ·) (Nat.one_mul period)).ge
  have hreach := (EventMachine.Reachable.refl (timedTunnel setting start) _).tail _ hstep
  have hdue (q : Side) : start + period = TimedTunnel.due setting start
      { timedStart left right start with now := start + period } q := by
    rw [TimedTunnel.due, hperiod]
    exact (congrArg (start + ·) (Nat.one_mul period)).symm
  have hidle (q : Side) : Unheard made (start + period)
      { timedStart left right start with now := start + period } q :=
    ⟨hunheard q, fun b hb => absurd hb List.not_mem_nil⟩
  have hfirst : start + period - made p ≤ smuxTimeout :=
    (hidle p).silence_le hnever hreach hopen (hdue p)
  have hbefore := hmade p
  rcases (setting p).config.keepalivePeriod_cases with hlong | hshort
  · rw [hperiod] at hlong
    omega
  · rw [hperiod] at hshort
    obtain ⟨j, hreach', hopen', hnow, hticks, hidle'⟩ :=
      exists_ticked hnever hreach hopen hidle (fun _ => rfl) hdue
    have hdue' (q : Side) : j.now + period = j.due setting start q := by
      rw [TimedTunnel.due, hperiod, hticks, hnow, Nat.add_assoc, ← Nat.two_mul]
    have hstep' : (timedTunnel setting start).step j (.elapse period) =
        some { j with now := j.now + period } := by
      refine step_elapse fun q => ⟨(hdue' q).le, fun b hb sentAt hsentAt => ?_⟩
      rw [(hidle' q).inFlight b hb] at hsentAt
      obtain rfl := Option.some.inj hsentAt
      exact Nat.add_le_add_left hshort.le _
    have hwaited : Unheard made j.now { j with now := j.now + period } p :=
      ⟨(hidle' p).activity_eq, (hidle' p).inFlight⟩
    have hsecond : j.now + period - made p ≤ smuxTimeout :=
      hwaited.silence_le hnever (hreach'.tail _ hstep') hopen' (hdue' p)
    have hnow' : j.now = start + period := hnow
    omega

end Unheard

/-! ### The exact condition -/

/-- **The exact condition for keepalive to be safe.** Two sessions with the same keepalive
setting were made, and then their timers were started at the same time; the timers fire every
`max(1, keepalive)` seconds and every NOP frame arrives within a second. Apart from that,
anything may happen in any order, for any length of time. No tick closes a session as long as
both are open, in any such run, exactly when a period (or two seconds, if that is more) and
the time since the session was made fit into the thirty seconds of the limit. If each session
was made within the second before the start, that is when the setting is below thirty. -/
theorem keepalive_never_closes_iff {left right : SmuxSession}
    {handler : Side → Option SmuxStream.Start} (hearlier : ∀ p, made p < start)
    (hsame : (setting .left).config.keepalive = (setting .right).config.keepalive)
    (hleft : SmuxSession.launch (setting .left) true (handler .left) (made .left) = .ok left)
    (hright : SmuxSession.launch (setting .right) false (handler .right) (made .right) =
      .ok right) :
    (NeverTimesOut setting start left right ↔
        ∀ p, start - made p + max (setting p).config.keepalivePeriod (2 * nopDelay) ≤
          smuxTimeout) ∧
      ((∀ p, start ≤ made p + 1000000000) →
        (NeverTimesOut setting start left right ↔
          (setting .left).config.keepalive.toInt < 30)) := by
  have hkeepalive (p : Side) : (setting p).config.keepalive = (setting .left).config.keepalive := by
    cases p with
    | left => rfl
    | right => exact hsame.symm
  have hperiod (p : Side) : (setting p).config.keepalivePeriod =
      (setting .left).config.keepalivePeriod := by
    rw [BaseConfig.keepalivePeriod, BaseConfig.keepalivePeriod, hkeepalive]
  have hmade (p : Side) : made p ≤ start := (hearlier p).le
  obtain ⟨hopen, hbeats⟩ := launch_beats hleft hright
  have hiff : NeverTimesOut setting start left right ↔
      ∀ p, start - made p + max (setting p).config.keepalivePeriod (2 * nopDelay) ≤
        smuxTimeout := by
    constructor
    · intro hnever p
      rw [hperiod p]
      exact hnever.silence_le hmade hperiod hopen (fun q => (hbeats q).2) p
    · intro hshort j k p hreach hopen hstep
      have hinv : ∀ q, Beats setting start made j q :=
        EventMachine.Reachable.invariant
          (fun j e k h hstep hopen => beats_step hmade (h (open_of_step hstep hopen)) hstep hopen)
          (fun _ q => (hbeats q).1) hreach hopen
      exact (hinv p.other).tick_open (hmade p) ((hkeepalive _).trans (hkeepalive _).symm)
        (hshort p) (hopen p) hstep
  refine ⟨hiff, fun hclose => hiff.trans ?_⟩
  simp only [BaseConfig.keepalivePeriod, hkeepalive, nopDelay, smuxTimeout]
  constructor
  · intro h
    have hshort := h .left
    have hstrict := hearlier .left
    omega
  · intro hbelow p
    have hgap := hclose p
    omega

/-- The default setting, ten seconds, is safe for a client and a server without compression. -/
theorem default_keepalive_never_closes :
    let setting : Side → Setting := fun _ => ⟨{ nocomp := true }, .uncalled, ⟨id, some⟩⟩
    let left : SmuxSession := { client := true, nextStreamId := 1, keepaliveTimer := some 10 }
    let right : SmuxSession :=
      { client := false, acceptHandler := some .serverTcp, nextStreamId := 0, lastActivity := 400
        keepaliveTimer := some 10 }
    NeverTimesOut setting 1000 left right := by
  intro setting left right
  have hleft : SmuxSession.launch (setting .left) true none 0 = .ok left := rfl
  have hright : SmuxSession.launch (setting .right) false (some .serverTcp) 400 = .ok right := rfl
  refine ((@keepalive_never_closes_iff setting 1000
    (fun | .left => 0 | .right => 400) left right
    (fun | .left => none | .right => some .serverTcp) ?_ rfl hleft hright).2 ?_).mpr (by decide)
  · rintro (_ | _) <;> decide
  · rintro (_ | _) <;> decide

/-- An accepted setting of thirty seconds: the first tick closes an idle session. -/
theorem idle_session_times_out :
    let setting : Side → Setting :=
      fun _ => ⟨{ nocomp := true, keepalive := 30 }, .uncalled, ⟨id, some⟩⟩
    let left : SmuxSession := { client := true, nextStreamId := 1, keepaliveTimer := some 30 }
    let right : SmuxSession :=
      { client := false, acceptHandler := some .serverTcp, nextStreamId := 0, lastActivity := 400
        keepaliveTimer := some 30 }
    (∀ p, (setting p).config.Accepted) ∧
      SmuxSession.launch (setting .left) true none 0 = .ok left ∧
      SmuxSession.launch (setting .right) false (some .serverTcp) 400 = .ok right ∧
      ∃ j k, (timedTunnel setting 1000).run (timedStart left right 1000)
          [.elapse 30000000000] = some j ∧
        j.Open ∧ (timedTunnel setting 1000).step j (.tick .left) = some k ∧
        (k.session .left).closed = true := by
  intro setting left right
  have hidle : ((timedTunnel setting 1000).run (timedStart left right 1000)
      [.elapse 30000000000]).map
        (fun j => ((j.session .left).closed, (j.session .right).closed)) = some (false, false) := by
    decide +kernel
  have htick : (((timedTunnel setting 1000).run (timedStart left right 1000)
      [.elapse 30000000000]).bind fun j => (timedTunnel setting 1000).step j (.tick .left)).map
        (fun k => (k.session .left).closed) = some true := by
    decide +kernel
  obtain ⟨j, hj, hopen⟩ := Option.map_eq_some_iff.mp hidle
  obtain ⟨hleft, hright⟩ := Prod.mk.inj hopen
  rw [hj] at htick
  obtain ⟨k, hk, hclosed⟩ := Option.map_eq_some_iff.mp htick
  refine ⟨fun p => by decide, rfl, rfl, j, k, hj, fun p => ?_, hk, hclosed⟩
  cases p with
  | left => exact hleft
  | right => exact hright

end Shimakaze
