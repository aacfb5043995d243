import Mathlib.Data.Int.CardIntervalMod
import Mathlib.Data.List.ReduceOption
import Shimakaze.Client.Table
import Shimakaze.Config.Parse

/-!
# Sessions Come and Go

With `autoexpire`, a slot changes to a new session when its old one has expired, and the old one
is left to the streams it still has. The timer made together with a connection closes it in the
end. Without `autoexpire` there are no timers, and a slot changes only when its session is
closed already. So a session that is open is never lost sight of.

The timer leaves the streams their grace period, whatever the clock readings in between: no
stream was opened on a session within `scavengettl` seconds before its timer closes it.

## Main results

* `no_session_leaks`: **an open transport is waited for by a timer, or in use by a slot**; without
  `autoexpire` there are never more open transports than slots.
* `scavenger_spares_streams`: the grace period.
* `round_robin`: accepted connections go to the slots in turn.
-/

namespace Shimakaze

namespace Client

variable {Address : Type} [DecidableEq Address] {setup : ClientSetup}
  {client ready made after : Client Address} {i : ℕ} {c c' : Connection Address}

/-! ### No session is forgotten -/

/-- An open session has its timer outstanding or is the session of a slot. -/
structure Held (setup : ClientSetup) (client : Client Address) : Prop where
  timer : 0 < setup.config.autoexpire → ∀ (i : ℕ) (c : Connection Address),
    client.connections[i]? = some c → c.smux.closed = false →
      ∃ deadline, (i, deadline) ∈ client.scavengeTimers
  slot : ¬ 0 < setup.config.autoexpire → ∀ (i : ℕ) (c : Connection Address),
    client.connections[i]? = some c → c.smux.closed = false → some i ∈ client.muxes

omit [DecidableEq Address] in
theorem Held.quiet (h : Held setup client) (hquiet : Quiet client after) : Held setup after := by
  refine ⟨fun hexpires => ?_, fun hexpires => ?_⟩
  · rw [hquiet.connections_eq, hquiet.timers_eq]
    exact h.timer hexpires
  · rw [hquiet.connections_eq, hquiet.muxes_eq]
    exact h.slot hexpires

omit [DecidableEq Address] in
/-- A handler of a connection opens no closed session. -/
theorem Held.put (h : Held setup client) (hc : client.connections[i]? = some c)
    (hclosed : c.smux.closed = true → c'.smux.closed = true) : Held setup (client.put i c c') := by
  have hevery {P : ℕ → Prop} (hP : ∀ (j : ℕ) (d : Connection Address),
      client.connections[j]? = some d → d.smux.closed = false → P j) :
      ∀ (j : ℕ) (d : Connection Address), (client.put i c c').connections[j]? = some d →
        d.smux.closed = false → P j := by
    intro j d hd hopen
    rw [put_connections] at hd
    rcases (Registry.getElem?_set_eq_some hc).mp hd with ⟨rfl, rfl⟩ | ⟨-, hd⟩
    · refine hP j c hc (Bool.eq_false_iff.mpr fun habsurd => ?_)
      exact absurd (hopen.symm.trans (hclosed habsurd)) (by decide)
    · exact hP j d hd hopen
  refine ⟨fun hexpires => ?_, fun hexpires => ?_⟩
  · rw [put_scavengeTimers]
    exact hevery (h.timer hexpires)
  · rw [put_muxes]
    exact hevery (h.slot hexpires)

omit [DecidableEq Address] in
/-- **A slot changes its session** only when that is closed or has a timer. -/
theorem Held.registers (h : Held setup client) (hmade : Registers setup client made) :
    Held setup made := by
  obtain ⟨conv, remote, transport, smux, dial, index, now, -, -, -, -, -, hstale, hindex, rfl⟩ :=
    hmade
  have hsplit : ∀ (j : ℕ) (d : Connection Address),
      (client.register setup conv remote transport smux dial).connections[j]? = some d →
        client.connections[j]? = some d ∨ j = client.connections.length := by
    intro j d hd
    rw [register_connections] at hd
    rcases Nat.lt_or_ge j client.connections.length with hlt | hge
    · exact .inl (by rwa [List.getElem?_append_left hlt] at hd)
    · have hlt := (List.getElem?_eq_some_iff.mp hd).1
      rw [List.length_append, List.length_singleton] at hlt
      exact .inr (by omega)
  refine ⟨fun hexpires j d hd hopen => ?_, fun hexpires j d hd hopen => ?_⟩
  · dsimp only
    rw [register_scavengeTimers, if_pos hexpires]
    rcases hsplit j d hd with hold | rfl
    · obtain ⟨deadline, hdeadline⟩ := h.timer hexpires j d hold hopen
      exact ⟨deadline, List.mem_append_left _ hdeadline⟩
    · exact ⟨_, List.mem_append_right _ (List.mem_singleton_self _)⟩
  · dsimp only
    rcases hsplit j d hd with hold | rfl
    · obtain ⟨k, hk⟩ := List.getElem?_of_mem (h.slot hexpires j d hold hopen)
      by_cases hsame : k = index
      · -- this slot's session would have been reused
        subst hsame
        rcases hstale j d hk hold with hclosed | habsurd
        · exact absurd (hopen.symm.trans hclosed) (by decide)
        · exact absurd habsurd hexpires
      · exact List.mem_of_getElem? (by rwa [List.getElem?_set_ne (Ne.symm hsame)])
    · exact List.mem_of_getElem? (List.getElem?_set_self hindex)

omit [DecidableEq Address] in
/-- A session that is closed stays closed when it is put back. -/
theorem close_closes (c : Connection Address) :
    (c.withEntry (c.withSmux (c.smux.close setup.setting))).smux.closed = true := by
  have hclosed := @SmuxSession.close_closed setup.setting c.smux
  rw [SessionEntry.withSmux]
  split_ifs <;> exact hclosed

/-- **One change**, if no timer is cancelled. -/
theorem Held.change (h : Held setup client) (hinv : ConnectionsInv setup client)
    (hchange : Change setup True client after) : Held setup after := by
  cases hchange with
  | quiet hquiet => exact h.quiet hquiet
  | put hc hhandles => exact h.put hc hhandles.stays_closed
  | opened hc hhandles hopen hage => exact h.put hc hhandles.stays_closed
  | @scavenged position i deadline htimer hdue =>
      obtain ⟨c, hc⟩ : ∃ c, client.connections[i]? = some c :=
        ⟨_, List.getElem?_eq_getElem (hinv.timers_lt _ (List.mem_of_getElem? htimer))⟩
      rw [scavenge]
      dsimp only
      rw [if_neg Bool.false_ne_true, hc]
      refine ⟨fun hexpires j d hd hopen => ?_, fun hexpires => ?_⟩
      · rw [Option.elim_some, put_connections] at hd
        rcases (Registry.getElem?_set_eq_some hc).mp hd with ⟨-, rfl⟩ | ⟨hne, hd⟩
        · exact absurd (hopen.symm.trans (close_closes c)) (by decide)
        · obtain ⟨other, hother⟩ := h.timer hexpires j d hd hopen
          refine ⟨other, ?_⟩
          rw [Option.elim_some, put_scavengeTimers]
          obtain ⟨k, hk⟩ := List.getElem?_of_mem hother
          refine List.mem_eraseIdx_iff_getElem?.mpr ⟨k, ?_, hk⟩
          rintro rfl
          rw [htimer] at hk
          exact hne (Prod.mk.inj (Option.some.inj hk)).1.symm
      · exact absurd (hinv.expires (List.ne_nil_of_mem (List.mem_of_getElem? htimer))) hexpires
  | cancelled hcancels => exact absurd trivial hcancels

/-- **One event** that cancels no timer. -/
theorem Held.step (h : Held setup client) (hinv : ConnectionsInv setup client)
    {event : Event Address setup.remoteAddress} (hcalm : event.Uncancelled)
    (hstep : client.step setup event = some after) : Held setup after := by
  obtain ⟨ready, hquiet, hchange | ⟨made, hmade, hchange, -⟩⟩ := step_cases hinv.regular hstep
  · rw [eq_true hcalm] at hchange
    exact (h.quiet hquiet).change (hinv.quiet hquiet) hchange
  · rw [eq_true hcalm] at hchange
    exact ((h.quiet hquiet).registers hmade).change ((hinv.quiet hquiet).registers hmade).1 hchange

/-- **No session leaks.** In every run of a client that cancels no timer: with `autoexpire` on,
an open transport has a timer outstanding that will close it; with `autoexpire` off, it belongs
to the session of a slot, and there are never more open transports than slots. -/
theorem no_session_leaks (lib : ClientLib) (config : ClientConfig) (setup : ClientSetup)
    (start client : Client Address) (hcreate : create lib config = .ok (setup, start))
    (events : List (Event Address setup.remoteAddress))
    (hcalm : ∀ event ∈ events, event.Uncancelled)
    (hrun : (machine setup).run start events = some client) :
    (∀ (i : ℕ) (c : Connection Address), client.connections[i]? = some c → c.closing = false →
      if 0 < config.autoexpire then ∃ deadline, (i, deadline) ∈ client.scavengeTimers
      else some i ∈ client.muxes) ∧
    (¬ 0 < config.autoexpire → client.established ≤ (max 1 config.conn.toInt).toNat) := by
  obtain ⟨hstart, -, hnone, -, -, hconfig, -⟩ := create_inv hcreate
  have hheld : Held setup start := by
    refine ⟨fun _ i c hc => ?_, fun _ i c hc => ?_⟩ <;>
      (rw [hnone] at hc; exact absurd hc (by simp))
  obtain ⟨hinv, h⟩ : ConnectionsInv setup client ∧ Held setup client := by
    clear hcreate hnone
    induction events generalizing start with
    | nil =>
        obtain rfl := Option.some.inj hrun
        exact ⟨hstart, hheld⟩
    | cons event events ih =>
        obtain ⟨next, hstep, hrest⟩ := ((machine setup).run_cons_eq_some).mp hrun
        exact ih next (fun e he => hcalm e (List.mem_cons_of_mem _ he)) hrest (hstart.step hstep).1
          (hheld.step hstart (hcalm event List.mem_cons_self) hstep)
  have hopen : ∀ (i : ℕ) (c : Connection Address), client.connections[i]? = some c →
      c.closing = false → c.smux.closed = false := fun i c hc hclosing =>
    Bool.eq_false_iff.mpr fun hclosed =>
      absurd (hclosing.symm.trans ((hinv.sound i c hc).1.entry.ends hclosed)) (by decide)
  subst hconfig
  refine ⟨fun i c hc hclosing => ?_, fun hexpires => ?_⟩
  · split_ifs with hexpires
    · exact h.timer hexpires i c hc (hopen i c hc hclosing)
    · exact h.slot hexpires i c hc (hopen i c hc hclosing)
  · have hslots : client.established ≤ client.muxes.reduceOption.length :=
      Registry.countP_le_of_positions fun i c hc hclosing =>
        List.reduceOption_mem_iff.mpr
          (h.slot hexpires i c hc (hopen i c hc (by simpa using hclosing)))
    exact hslots.trans ((List.reduceOption_length_le _).trans hinv.slots_length.le)

/-- A session that has expired and its successor, which has a timer of its own. -/
theorem expired_session_held : ∃ client,
    (machine (plainSetup 1 1 600)).run (plainStart 1)
      [.accepted false (plainDial 1 1 600 [⟨7, by decide⟩]), .elapsed 1000000000,
        .accepted false (plainDial 1 1 600 [⟨9, by decide⟩])] = some client ∧
    client.muxes = [some 1] ∧ client.connections.map (·.closing) = [false, false] ∧
    ∀ (i : ℕ) (c : Connection String), client.connections[i]? = some c → c.closing = false →
      ∃ deadline, (i, deadline) ∈ client.scavengeTimers := by
  have hview : ((machine (plainSetup 1 1 600)).run (plainStart 1)
      [.accepted false (plainDial 1 1 600 [⟨7, by decide⟩]), .elapsed 1000000000,
        .accepted false (plainDial 1 1 600 [⟨9, by decide⟩])]).map
          (fun client => (client.muxes, client.connections.map (·.closing))) =
      some ([some 1], [false, false]) := by decide +kernel
  obtain ⟨client, hrun, hstate⟩ := Option.map_eq_some_iff.mp hview
  obtain ⟨hmuxes, hopen⟩ := Prod.mk.inj hstate
  refine ⟨client, hrun, hmuxes, hopen, fun i c hc hclosing => ?_⟩
  have hheld := (no_session_leaks _ _ _ _ client (create_plain 1 1 600) _ (by decide) hrun).1 i c
    hc hclosing
  rwa [if_pos (by decide)] at hheld

/-! ### The grace period -/

/-- The timer of a connection leaves its streams the grace period: the ones it has, and the ones
that may still be opened on it before it expires. -/
def Grace (setup : ClientSetup) (client : Client Address) : Prop :=
  ∀ (i deadline : ℕ) (c : Connection Address), (i, deadline) ∈ client.scavengeTimers →
    client.connections[i]? = some c → c.expiry + scavengeTtl setup ≤ deadline ∧
      ∀ opened ∈ c.opened, opened + scavengeTtl setup ≤ deadline

/-- If sessions expire, the sum of the two times fits an `int`. -/
def DurationsFit (config : ClientConfig) : Prop :=
  0 < config.autoexpire →
    FitsInt (max 0 config.autoexpire.toInt + max 0 config.scavengettl.toInt)

omit [DecidableEq Address] in
/-- Then the sum does not wrap around. -/
theorem scavengeDelay_eq (hfit : DurationsFit setup.config)
    (hexpires : 0 < setup.config.autoexpire) :
    1000000000 * scavengeDelay setup =
      1000000000 * expirySeconds setup + scavengeTtl setup := by
  have hsum : (Int32.ofInt (max 0 setup.config.autoexpire.toInt +
      max 0 setup.config.scavengettl.toInt)).toInt = max 0 setup.config.autoexpire.toInt +
        max 0 setup.config.scavengettl.toInt :=
    Int32.toInt_ofInt_of_le (hfit hexpires).1 (hfit hexpires).2
  rw [scavengeDelay, hsum, expirySeconds, scavengeTtl, ← Nat.mul_add]
  congr 1
  omega

omit [DecidableEq Address] in
/-- What the timers are about has stayed. -/
theorem Quiet.grace (hquiet : Quiet client after) (h : Grace setup client) :
    Grace setup after := by
  rw [Grace, hquiet.timers_eq, hquiet.connections_eq]
  exact h

omit [DecidableEq Address] in
/-- The timers may have become fewer, and a connection may have opened streams in time. -/
theorem Grace.of_put (h : Grace setup client) (hc : client.connections[i]? = some c)
    (hexpiry : c'.expiry = c.expiry)
    (hopened : ∀ deadline, (i, deadline) ∈ client.scavengeTimers →
      c.expiry + scavengeTtl setup ≤ deadline →
      (∀ opened ∈ c.opened, opened + scavengeTtl setup ≤ deadline) →
      ∀ opened ∈ c'.opened, opened + scavengeTtl setup ≤ deadline) :
    Grace setup (client.put i c c') := by
  intro j deadline d htimer hd
  rw [put_scavengeTimers] at htimer
  rw [put_connections] at hd
  rcases (Registry.getElem?_set_eq_some hc).mp hd with ⟨rfl, rfl⟩ | ⟨-, hd⟩
  · obtain ⟨hexpires, hbefore⟩ := h j deadline c htimer hc
    exact ⟨hexpiry ▸ hexpires, hopened deadline htimer hexpires hbefore⟩
  · exact h j deadline d htimer hd

/-- **One change.** -/
theorem Grace.change {calm : Prop} (h : Grace setup client) (hinv : ConnectionsInv setup client)
    (hfit : DurationsFit setup.config)
    (hchange : Change setup calm client after) : Grace setup after := by
  have herased (position : ℕ) : Grace setup
      { client with scavengeTimers := client.scavengeTimers.eraseIdx position } :=
    fun i deadline c htimer hc => h i deadline c (List.mem_of_mem_eraseIdx htimer) hc
  cases hchange with
  | quiet hquiet => exact hquiet.grace h
  | put hc hhandles =>
      obtain ⟨-, -, hexpiry, hopened⟩ := hhandles.members
      exact h.of_put hc hexpiry fun _ _ _ hbefore => hopened ▸ hbefore
  | @opened i c smux hc hhandles hopen hage =>
      obtain ⟨-, -, hexpiry, -⟩ := hhandles.members
      refine h.of_put hc hexpiry fun deadline htimer hexpires hbefore opened hmem => ?_
      rcases List.mem_append.mp hmem with hold | hnew
      · exact hbefore opened hold
      · rw [List.mem_singleton.mp hnew]
        rcases hage deadline htimer with hfresh | hmade
        · omega
        · have hdelay := scavengeDelay_eq hfit (hinv.expires (List.ne_nil_of_mem htimer))
          omega
  | @scavenged position i deadline htimer hdue =>
      obtain ⟨c, hc⟩ : ∃ c, client.connections[i]? = some c :=
        ⟨_, List.getElem?_eq_getElem (hinv.timers_lt _ (List.mem_of_getElem? htimer))⟩
      obtain ⟨-, -, hexpiry, hopened⟩ := (@close_handles _ _ setup c).members
      rw [scavenge]
      dsimp only
      rw [if_neg Bool.false_ne_true, hc]
      exact (herased position).of_put hc hexpiry fun _ _ _ hbefore => hopened ▸ hbefore
  | cancelled hcancels => exact herased _

omit [DecidableEq Address] in
/-- A new connection has no streams yet. -/
theorem Grace.registers (h : Grace setup client)
    (hlt : ∀ timer ∈ client.scavengeTimers, timer.1 < client.connections.length)
    (hfit : DurationsFit setup.config)
    (hmade : Registers setup client made) : Grace setup made := by
  obtain ⟨conv, remote, transport, smux, dial, index, now, -, -, -, -, -, -, -, rfl⟩ := hmade
  intro i deadline c htimer hc
  dsimp only at htimer hc
  rw [register_scavengeTimers] at htimer
  rw [register_connections] at hc
  have hold : (i, deadline) ∈ client.scavengeTimers →
      c.expiry + scavengeTtl setup ≤ deadline ∧
        ∀ opened ∈ c.opened, opened + scavengeTtl setup ≤ deadline := by
    intro htimer
    rw [List.getElem?_append_left (hlt _ htimer)] at hc
    exact h i deadline c htimer hc
  split_ifs at htimer with hexpires
  · rcases List.mem_append.mp htimer with htimer | hnew
    · exact hold htimer
    · obtain ⟨rfl, rfl⟩ := Prod.mk.inj (List.mem_singleton.mp hnew)
      rw [List.getElem?_concat_length] at hc
      obtain rfl := Option.some.inj hc
      have hdelay := scavengeDelay_eq hfit hexpires
      refine ⟨?_, fun opened hopened => absurd hopened List.not_mem_nil⟩
      change client.now + dial.untilExpiry + 1000000000 * expirySeconds setup +
        scavengeTtl setup ≤ _
      omega
  · exact hold htimer

/-- **The scavenger spares the streams.** In every run of a client whose times add up in an
`int`: when a timer closes a session, no stream has been opened on it in the last `scavengettl`
seconds, going by the clock reading of `ensure_session`, and it is closed with its transport
afterwards. -/
theorem scavenger_spares_streams (lib : ClientLib) (config : ClientConfig) (setup : ClientSetup)
    (start client : Client Address) (hcreate : create lib config = .ok (setup, start))
    (hfit : DurationsFit config)
    (events : List (Event Address setup.remoteAddress))
    (hrun : (machine setup).run start events = some client) (position i deadline : ℕ)
    (after : Client Address) (htimer : client.scavengeTimers[position]? = some (i, deadline))
    (hstep : client.step setup (.scavenged position false) = some after) :
    ∃ c c', client.connections[i]? = some c ∧ after.connections[i]? = some c' ∧
      c'.smux.closed = true ∧ c'.closing = true ∧ ∀ opened ∈ c.opened,
        opened + 1000000000 * (max 0 config.scavengettl.toInt).toNat ≤ client.now := by
  obtain ⟨hstart, -, hnone, -, -, rfl, -⟩ := create_inv hcreate
  have hgrace : Grace setup start := fun i deadline c _ hc => by
    rw [hnone] at hc
    exact absurd hc (by simp)
  obtain ⟨hinv, h⟩ : ConnectionsInv setup client ∧ Grace setup client := by
    refine EventMachine.run_invariant
      (I := fun client => ConnectionsInv setup client ∧ Grace setup client) ?_ ⟨hstart, hgrace⟩ hrun
    rintro client event next ⟨hinv, h⟩ hstep
    refine ⟨(hinv.step hstep).1, ?_⟩
    obtain ⟨ready, hquiet, hchange | ⟨made, hmade, hchange, -⟩⟩ := step_cases hinv.regular hstep
    · have hready : Grace setup ready := hquiet.grace h
      exact hready.change (hinv.quiet hquiet) hfit hchange
    · have hready : Grace setup ready := hquiet.grace h
      exact (hready.registers (hinv.quiet hquiet).timers_lt hfit hmade).change
        ((hinv.quiet hquiet).registers hmade).1 hfit hchange
  have hmem := List.mem_of_getElem? htimer
  obtain ⟨c, hc⟩ : ∃ c, client.connections[i]? = some c :=
    ⟨_, List.getElem?_eq_getElem (hinv.timers_lt _ hmem)⟩
  obtain ⟨timer, htaken, hserved⟩ := Option.bind_eq_some_iff.mp hstep
  obtain rfl := Option.some.inj (htimer.symm.trans htaken)
  have hdue : deadline ≤ client.now := by
    by_contra hearly
    rw [if_neg (by simp [hearly])] at hserved
    cases hserved
  rw [if_pos (Or.inr hdue)] at hserved
  obtain rfl := Option.some.inj hserved
  have hclosed := @close_closes _ setup c
  refine ⟨c, c.withEntry (c.withSmux (c.smux.close setup.setting)), hc, ?_, hclosed,
    ((close_handles c).sound (hinv.sound i c hc).1).entry.ends hclosed, fun opened hopened => ?_⟩
  · rw [scavenge]
    dsimp only
    rw [if_neg Bool.false_ne_true, hc, Option.elim_some, put_connections]
    exact List.getElem?_set_self (List.getElem?_eq_some_iff.mp hc).1
  · have hspared := (h i deadline c hmem hc).2 opened hopened
    exact hspared.trans hdue

/-- A stream half a second after the connection was made, and its timer 2.5 seconds later. -/
theorem grace_of_two_seconds : ∃ client after c,
    (machine (plainSetup 1 1 2)).run (plainStart 1)
      [.accepted false (plainDial 1 1 2 [⟨7, by decide⟩]), .elapsed 500000000,
        .accepted false (plainDial 1 1 2 [⟨9, by decide⟩]), .elapsed 2500000000] = some client ∧
    client.step (plainSetup 1 1 2) (.scavenged 0 false) = some after ∧
    client.connections[0]? = some c ∧ c.opened = [0, 500000000] ∧ client.now = 3000000000 ∧
    ∀ opened ∈ c.opened, opened + 2000000000 ≤ client.now := by
  obtain ⟨events, hevents⟩ : ∃ events : List (Event String (plainSetup 1 1 2).remoteAddress),
      events = [.accepted false (plainDial 1 1 2 [⟨7, by decide⟩]), .elapsed 500000000,
        .accepted false (plainDial 1 1 2 [⟨9, by decide⟩]), .elapsed 2500000000] := ⟨_, rfl⟩
  have hview : ((machine (plainSetup 1 1 2)).run (plainStart 1) events).map (fun client =>
      (client.scavengeTimers, client.connections.map Connection.opened, client.now)) =
      some ([(0, 3000000000)], [[0, 500000000]], 3000000000) := by
    rw [hevents]
    decide +kernel
  obtain ⟨client, hrun, hstate⟩ := Option.map_eq_some_iff.mp hview
  simp only [Prod.mk.injEq] at hstate
  obtain ⟨htimers, hopened, hnow⟩ := hstate
  have htimer : client.scavengeTimers[0]? = some (0, 3000000000) := by rw [htimers]; rfl
  obtain ⟨after, hstep⟩ : ∃ after, client.step (plainSetup 1 1 2) (.scavenged 0 false) =
      some after := by
    refine ⟨_, Option.bind_eq_some_iff.mpr ⟨_, htimer, if_pos (.inr ?_)⟩⟩
    rw [hnow]
  obtain ⟨c, c', hc, -, -, -, hspared⟩ := scavenger_spares_streams _ _ _ _ client
    (create_plain 1 1 2) (fun _ => ⟨by decide, by decide⟩) events hrun 0 0 _ after htimer hstep
  refine ⟨client, after, c, hevents ▸ hrun, hstep, hc, ?_, hnow, hspared⟩
  have hget := congrArg (fun connections => connections[0]?) hopened
  rw [List.getElem?_map, hc] at hget
  exact Option.some.inj hget

/-! ### Taking turns -/

/-- The members that decide which slot is next. -/
def routing (client : Client Address) : UInt64 × List ℕ × ℕ :=
  (client.rr, client.routed, client.muxes.length)

omit [DecidableEq Address]

theorem put_routing : (client.put i c c').routing = client.routing := by
  rw [put]
  split_ifs <;> rfl

theorem register_routing {conv : UInt32} {remote : UdpEndpoint Address} {transport : KcpTransport}
    {smux : SmuxSession} {dial : Dial Address setup.remoteAddress} :
    (client.register setup conv remote transport smux dial).routing = client.routing := by
  simp only [register]
  split_ifs <;> rfl

theorem openStream_routing (unix : Bool) :
    (client.openStream setup unix i c).routing = client.routing := by
  rw [openStream]
  split
  · rfl
  · exact put_routing

theorem ensureSession_routing {index : ℕ} {dial : Dial Address setup.remoteAddress}
    (h : client.ensureSession setup index dial = some (.ok (after, i))) :
    after.routing = client.routing := by
  rw [ensureSession] at h
  split at h
  · obtain ⟨rfl, -⟩ := Prod.mk.inj (Except.ok.inj (Option.some.inj h))
    rfl
  · obtain ⟨created, hcreated, h⟩ := Option.map_eq_some_iff.mp h
    rcases createConnection_cases hcreated with ⟨failure, rfl⟩ | ⟨conv, remote, transport, smux,
      -, -, -, -, -, rfl⟩
    · cases h
    · obtain ⟨rfl, -⟩ := Prod.mk.inj (Except.ok.inj h)
      have hregistered := @register_routing _ setup
        { client with now := client.now + dial.untilSession } conv remote transport smux dial
      simp only [routing, List.length_set] at hregistered ⊢
      exact hregistered

theorem handleAccept_routing {unix : Bool} {dial : Dial Address setup.remoteAddress}
    (h : client.handleAccept setup unix dial = some after) :
    after.routing = (client.rr + 1, client.routed ++ [client.rr.toNat % client.muxes.length],
      client.muxes.length) := by
  obtain ⟨ensured, hensured, rfl⟩ := Option.map_eq_some_iff.mp h
  cases ensured with
  | error failure => rfl
  | ok result =>
      obtain ⟨ready, i⟩ := result
      have hready := ensureSession_routing hensured
      dsimp only
      cases ready.connections[i]? with
      | none => exact hready
      | some c => exact (openStream_routing unix).trans hready

/-- A local connection was accepted. -/
def Event.isAccepted {ports : MultiPort} : Event Address ports → Bool
  | .accepted .. => true
  | _ => false

/-- **One event** moves on to the next slot if and only if it accepts a connection. -/
theorem step_routing [DecidableEq Address] {event : Event Address setup.remoteAddress}
    (h : client.step setup event = some after) :
    after.routing = if event.isAccepted then
      (client.rr + 1, client.routed ++ [client.rr.toNat % client.muxes.length],
        client.muxes.length)
    else client.routing := by
  have hrun : ∀ {counted : Client Address} {i : ℕ}
      {function : Connection Address → Option (Connection Address)},
      counted.run i function = some after → after.routing = counted.routing := by
    intro counted i function hput
    obtain ⟨c, -, hput⟩ := Option.bind_eq_some_iff.mp hput
    obtain ⟨c', -, rfl⟩ := Option.map_eq_some_iff.mp hput
    exact put_routing
  cases event with
  | accepted unix dial => exact handleAccept_routing h
  | received i sender bytes delivered =>
      obtain ⟨c, -, hreceive⟩ := Option.bind_eq_some_iff.mp h
      split_ifs at hreceive
      split at hreceive
      · cases hreceive
      · next damaged c' _ =>
        obtain rfl := Option.some.inj hreceive
        cases damaged <;> exact put_routing
  | receiveFailed i aborted =>
      cases aborted with
      | true => exact hrun h
      | false => exact @hrun (client.count .inErrs 1) _ _ h
  | scavenged position error =>
      obtain ⟨⟨i, deadline⟩, -, hserved⟩ := Option.bind_eq_some_iff.mp h
      split_ifs at hserved
      obtain rfl := Option.some.inj hserved
      rw [scavenge]
      cases error with
      | true => rfl
      | false =>
          dsimp only
          cases client.connections[i]? with
          | none => rfl
          | some c => exact put_routing
  | elapsed duration =>
      obtain rfl := Option.some.inj h
      rfl
  | _ => exact hrun h

/-- One accepted connection after the other. -/
theorem run_routing [DecidableEq Address] {start : Client Address}
    (events : List (Event Address setup.remoteAddress)) {m n : ℕ}
    (hstart : start.routing = (UInt64.ofNat m, (List.range m).map (· % 2 ^ 64 % n), n))
    (hrun : (machine setup).run start events = some client) :
    client.routing = (UInt64.ofNat (m + events.countP Event.isAccepted),
      (List.range (m + events.countP Event.isAccepted)).map (· % 2 ^ 64 % n), n) := by
  induction events generalizing start m with
  | nil =>
      obtain rfl := Option.some.inj hrun
      exact hstart
  | cons event events ih =>
      obtain ⟨next, hstep, hrest⟩ := ((machine setup).run_cons_eq_some).mp hrun
      have hnext := step_routing hstep
      rw [List.countP_cons]
      split_ifs at hnext ⊢ with haccepted
      · simp only [routing, Prod.mk.injEq] at hstart
        obtain ⟨hrr, hrouted, hmuxes⟩ := hstart
        rw [Nat.add_comm _ 1, ← Nat.add_assoc]
        refine ih ?_ hrest
        rw [hnext, hrr, hrouted, hmuxes, List.range_succ, List.map_append, List.map_singleton]
        simp
      · exact ih (hnext.trans hstart) hrest

omit [DecidableEq Address] in
/-- The turns of a slot among the first `m`, if the counter has not come round. -/
theorem count_turns {m n a : ℕ} (hm : m ≤ 2 ^ 64) (ha : a < n) :
    ((List.range m).map (· % 2 ^ 64 % n)).count a = m / n + if a < m % n then 1 else 0 := by
  have hturns : (List.range m).map (· % 2 ^ 64 % n) = (List.range m).map (· % n) := by
    refine List.map_congr_left fun k hk => ?_
    rw [Nat.mod_eq_of_lt ((List.mem_range.mp hk).trans_le hm)]
  have hcount : (List.range m).countP ((· == a) ∘ (· % n)) = m.count (· ≡ a [MOD n]) := by
    refine List.countP_congr fun k _ => ?_
    simp [Nat.ModEq, Nat.mod_eq_of_lt ha]
  rw [hturns, List.count, List.countP_map, hcount, Nat.count_modEq_card _ (by omega),
    Nat.mod_eq_of_lt ha]

/-- **Sessions are used in turn.** In every run of a client, the `k`-th accepted connection goes
to slot `k` modulo `2 ^ 64` modulo the number of slots, whatever sessions have closed or expired;
so, over the first `2 ^ 64` of them, no slot is ahead of another by more than one. -/
theorem round_robin [DecidableEq Address] (lib : ClientLib) (config : ClientConfig)
    (setup : ClientSetup) (start client : Client Address)
    (hcreate : create lib config = .ok (setup, start))
    (events : List (Event Address setup.remoteAddress))
    (hrun : (machine setup).run start events = some client) :
    client.routed = (List.range (events.countP Event.isAccepted)).map
      (· % 2 ^ 64 % (max 1 config.conn.toInt).toNat) ∧
    (events.countP Event.isAccepted ≤ 2 ^ 64 → ∀ a b : ℕ,
      a < (max 1 config.conn.toInt).toNat → b < (max 1 config.conn.toInt).toNat →
        client.routed.count a ≤ client.routed.count b + 1) := by
  obtain ⟨-, -, -, hrouted, hrr, -, -, -, hmuxes⟩ := create_inv hcreate
  have hstart : start.routing = (0, [], (max 1 config.conn.toInt).toNat) := by
    rw [routing, hrr, hrouted, hmuxes, List.length_replicate]
  have hrouting := run_routing (m := 0) events hstart hrun
  rw [Nat.zero_add] at hrouting
  have hrouted : client.routed = (List.range (events.countP Event.isAccepted)).map
      (· % 2 ^ 64 % (max 1 config.conn.toInt).toNat) :=
    (Prod.mk.inj (Prod.mk.inj hrouting).2).1
  refine ⟨hrouted, fun hfew a b ha hb => ?_⟩
  rw [hrouted, count_turns hfew ha, count_turns hfew hb]
  split_ifs <;> omega

/-- Three connections for two slots. -/
theorem two_slots_in_turn : ∃ client,
    (machine (plainSetup 2 0 600)).run (plainStart 2)
      [.accepted false (plainDial 2 0 600 [⟨7, by decide⟩]),
        .accepted false (plainDial 2 0 600 [⟨9, by decide⟩]),
        .accepted true (plainDial 2 0 600 [])] = some client ∧
    client.routed = [0, 1, 0] := by
  obtain ⟨client, hrun⟩ : ∃ client,
      (machine (plainSetup 2 0 600)).run (plainStart 2)
        [.accepted false (plainDial 2 0 600 [⟨7, by decide⟩]),
          .accepted false (plainDial 2 0 600 [⟨9, by decide⟩]),
          .accepted true (plainDial 2 0 600 [])] = some client := ⟨_, rfl⟩
  exact ⟨client, hrun, (round_robin _ _ _ _ client (create_plain 2 0 600) _ hrun).1⟩

end Client

end Shimakaze
