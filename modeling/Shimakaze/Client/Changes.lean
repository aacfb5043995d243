import Shimakaze.Client.Handlers

/-!
# What an Event Does to the Client

Whatever happens, the client does one of a few things: a handler of a connection runs, a stream
is opened on a connection, a timer of `schedule_scavenge` is served, or nothing but the clock,
the routing and the counters of datagrams changes. An accepted connection may register a new
connection before that. `step_cases` says so once, with all a step is known to satisfy; every
invariant of the client is an induction over it.

## Main results

* `createConnection_cases`, `ensureSession_cases`: a connection is registered as a whole or not
  at all.
* `step_cases`: **the changes a step is made of**.
-/

namespace Shimakaze

namespace Client

variable {Address : Type} {setup : ClientSetup} {client ready made after : Client Address}

/-! ### Changes -/

/-- The grace period, in nanoseconds. -/
def scavengeTtl (setup : ClientSetup) : ℕ :=
  1000000000 * (max 0 setup.config.scavengettl.toInt).toNat

/-- Only the routing, the counters of datagrams and the clock have changed. -/
structure Quiet (client after : Client Address) : Prop where
  muxes_eq : after.muxes = client.muxes
  transports_eq : after.transports = client.transports
  timers_eq : after.scavengeTimers = client.scavengeTimers
  connections_eq : after.connections = client.connections
  now_le : client.now ≤ after.now
  tally : ∀ {opened established most : ℕ},
    client.storage.Tally true opened established most →
      after.storage.Tally true opened established most

theorem Quiet.refl (client : Client Address) : Quiet client client :=
  ⟨rfl, rfl, rfl, rfl, le_rfl, id⟩

theorem Quiet.trans (h : Quiet client ready) (h' : Quiet ready after) : Quiet client after :=
  ⟨h'.muxes_eq.trans h.muxes_eq, h'.transports_eq.trans h.transports_eq,
    h'.timers_eq.trans h.timers_eq, h'.connections_eq.trans h.connections_eq,
    h.now_le.trans h'.now_le, fun htally => h'.tally (h.tally htally)⟩

/-- A counter of datagrams. -/
theorem count_quiet (client : Client Address) {field : SnmpField} (value : UInt64)
    (hfield : field ∈ [SnmpField.inErrs, .inCsumErrors, .inPkts, .inBytes]) :
    Quiet client (client.count field value) :=
  ⟨rfl, rfl, rfl, rfl, le_rfl, fun htally => htally.snmpAdd value hfield⟩

/-- A connection as `create_connection` makes it, in the slot that asked for it. The slot had
none, or one whose session is closed or that expires. -/
structure Registers (setup : ClientSetup) (client after : Client Address) : Prop where
  registered : ∃ (conv : UInt32) (remote : UdpEndpoint Address) (transport : KcpTransport)
    (smux : SmuxSession) (dial : Dial Address setup.remoteAddress) (index now : ℕ),
    client.transports.lookup conv = none ∧ conv ≠ 0 ∧
    (setup.remoteAddress.minPort ≤ remote.port ∧ remote.port ≤ setup.remoteAddress.maxPort) ∧
    KcpTransport.create setup.lib.crypto setup.lib.ikcpSetmtu setup.config.toBaseConfig =
      .ok transport ∧
    SmuxSession.launch setup.setting true none now = .ok smux ∧
    (∀ i c, client.muxes[index]? = some (some i) → client.connections[i]? = some c →
      c.smux.closed = true ∨ 0 < setup.config.autoexpire) ∧
    index < client.muxes.length ∧
    after = { client.register setup conv remote transport smux dial with
      muxes := client.muxes.set index (some client.connections.length) }

variable [DecidableEq Address]

/-- What a step does, once a connection has been registered if one was needed; `calm` when it
cancels no timer. -/
inductive Change (setup : ClientSetup) (calm : Prop) : Client Address → Client Address → Prop
  | quiet {client after : Client Address} (h : Quiet client after) : Change setup calm client after
  /-- A handler of a connection. -/
  | put {client : Client Address} {i : ℕ} {c c' : Connection Address}
      (hc : client.connections[i]? = some c) (h : c.Handles setup c') :
      Change setup calm client (client.put i c c')
  /-- A stream is opened, on a connection that has not expired or was just made. -/
  | opened {client : Client Address} {i : ℕ} {c : Connection Address} {smux : SmuxSession}
      (hc : client.connections[i]? = some c)
      (h : c.Handles setup (c.withEntry (c.withSmux smux)))
      (hopen : (c.withSmux smux).closing = c.closing)
      (hage : ∀ deadline, (i, deadline) ∈ client.scavengeTimers → client.now < c.expiry ∨
        deadline = client.now + 1000000000 * scavengeDelay setup) :
      Change setup calm client
        (client.put i c
          { c.withEntry (c.withSmux smux) with opened := c.opened ++ [client.now] })
  /-- A timer of `schedule_scavenge` expires. -/
  | scavenged {client : Client Address} {position i deadline : ℕ}
      (htimer : client.scavengeTimers[position]? = some (i, deadline))
      (hdue : deadline ≤ client.now) :
      Change setup calm client (client.scavenge setup position i false)
  /-- One is cancelled. -/
  | cancelled {client : Client Address} {position i : ℕ} (hcancels : ¬ calm) :
      Change setup calm client (client.scavenge setup position i true)

/-- An event that cancels no timer. -/
def Event.Uncancelled {ports : MultiPort} : Event Address ports → Prop
  | .scavenged _ error => error = false
  | _ => True

instance {ports : MultiPort} (event : Event Address ports) : Decidable event.Uncancelled :=
  match event with
  | .scavenged _ error => inferInstanceAs (Decidable (error = false))
  | .accepted .. | .received .. | .receiveFailed .. | .ran .. | .elapsed _ => .isTrue trivial

/-! ### Putting a connection back -/

omit [DecidableEq Address]

variable {i : ℕ} {c c' : Connection Address}

@[simp] theorem put_connections :
    (client.put i c c').connections = client.connections.set i c' := by
  rw [put]
  split_ifs <;> rfl

@[simp] theorem put_muxes : (client.put i c c').muxes = client.muxes := by
  rw [put]
  split_ifs <;> rfl

@[simp] theorem put_scavengeTimers :
    (client.put i c c').scavengeTimers = client.scavengeTimers := by
  rw [put]
  split_ifs <;> rfl

@[simp] theorem put_now : (client.put i c c').now = client.now := by
  rw [put]
  split_ifs <;> rfl

/-- A function that closes the transport takes it out of the table and counts it. -/
theorem put_of_closes (hopen : c.closing = false) (hcloses : c'.closing = true) :
    (client.put i c c').transports = client.transports.filter (fun entry => entry.1 ≠ c.conv) ∧
      (client.put i c c').storage = client.storage.snmpConnectionClose := by
  rw [put, if_pos (by rw [hopen, hcloses]; rfl)]
  exact ⟨rfl, rfl⟩

/-- Every other one leaves both alone. -/
theorem put_of_keeps (h : c.closing = false → c'.closing = false) :
    (client.put i c c').transports = client.transports ∧
      (client.put i c c').storage = client.storage := by
  rw [put, if_neg]
  · exact ⟨rfl, rfl⟩
  · cases hclosing : c.closing with
    | true => simp
    | false => simp [h hclosing]

/-! ### Making a connection -/

section Register

variable {conv : UInt32} {remote : UdpEndpoint Address} {transport : KcpTransport}
  {smux : SmuxSession} {dial : Dial Address setup.remoteAddress}

@[simp] theorem register_connections :
    (client.register setup conv remote transport smux dial).connections =
      client.connections ++
        [(client.fresh setup conv remote transport smux dial).startUdpReceive] := by
  simp only [register]
  split_ifs <;> rfl

@[simp] theorem register_muxes :
    (client.register setup conv remote transport smux dial).muxes = client.muxes := by
  simp only [register]
  split_ifs <;> rfl

@[simp] theorem register_storage :
    (client.register setup conv remote transport smux dial).storage =
      client.storage.snmpConnectionOpen true := by
  simp only [register]
  split_ifs <;> rfl

@[simp] theorem register_now :
    (client.register setup conv remote transport smux dial).now =
      client.now + dial.untilExpiry + dial.untilTimer := by
  simp only [register]
  split_ifs <;> rfl

theorem register_transports (hfree : client.transports.lookup conv = none) :
    (client.register setup conv remote transport smux dial).transports =
      client.transports ++ [(conv, client.connections.length)] := by
  simp only [register, hfree, Option.isSome_none, Bool.false_eq_true, if_false]
  split_ifs <;> rfl

/-- A connection that expires gets a timer. -/
theorem register_scavengeTimers :
    (client.register setup conv remote transport smux dial).scavengeTimers =
      if 0 < setup.config.autoexpire then client.scavengeTimers ++
        [(client.connections.length, client.now + dial.untilExpiry + dial.untilTimer +
          1000000000 * scavengeDelay setup)]
      else client.scavengeTimers := by
  simp only [register]
  split_ifs <;> rfl

end Register

/-- **`create_connection`**: nothing is registered before everything that can throw has been
done. -/
theorem createConnection_cases {dial : Dial Address setup.remoteAddress}
    {created : Except PacketCrypt.Failure (Client Address × ℕ)}
    (h : client.createConnection setup dial = some created) :
    (∃ failure, created = .error failure) ∨
      ∃ conv remote transport smux, client.transports.lookup conv = none ∧ conv ≠ 0 ∧
        (setup.remoteAddress.minPort ≤ remote.port ∧
          remote.port ≤ setup.remoteAddress.maxPort) ∧
        KcpTransport.create setup.lib.crypto setup.lib.ikcpSetmtu setup.config.toBaseConfig =
          .ok transport ∧
        SmuxSession.launch setup.setting true none (client.now + dial.untilSession) = .ok smux ∧
        created = .ok (register setup { client with now := client.now + dial.untilSession } conv
          remote transport smux dial, client.connections.length) := by
  rw [createConnection, Option.map_eq_some_iff] at h
  obtain ⟨conv, hconv, rfl⟩ := h
  have hfree : client.transports.lookup conv.1 = none := by
    have hnone := List.find?_some hconv
    exact Option.isNone_iff_eq_none.mp hnone
  cases hresolved : dial.resolved with
  | error message =>
      simp only [pickRemoteEndpoint, hresolved]
      exact .inl ⟨_, rfl⟩
  | ok address =>
      simp only [pickRemoteEndpoint, hresolved]
      cases hsocket : dial.socketError with
      | some message => exact .inl ⟨_, rfl⟩
      | none =>
          cases hcreate : KcpTransport.create setup.lib.crypto setup.lib.ikcpSetmtu
              setup.config.toBaseConfig with
          | error failure => exact .inl ⟨_, rfl⟩
          | ok transport =>
              cases hlaunch : SmuxSession.launch setup.setting true none
                  (client.now + dial.untilSession) with
              | error message => exact .inl ⟨.runtimeError message, rfl⟩
              | ok smux =>
                  exact .inr ⟨conv.1, ⟨address, _⟩, transport, smux, hfree, conv.2,
                    setup.remoteAddress.choosePort_mem dial.port, rfl, rfl, rfl⟩

/-- A slot whose connection is not reusable holds a closed session, or sessions expire. -/
theorem closed_or_expires (h : client.reusable setup c = false) :
    c.smux.closed = true ∨ 0 < setup.config.autoexpire := by
  rw [reusable] at h
  by_cases hexpires : 0 < setup.config.autoexpire
  · exact .inr hexpires
  · left
    simpa [hexpires] using h

/-- A reusable connection is open and has not expired. -/
theorem reusable_iff : client.reusable setup c = true ↔
    c.smux.closed = false ∧ (0 < setup.config.autoexpire → client.now < c.expiry) := by
  rw [reusable]
  by_cases hexpires : 0 < setup.config.autoexpire <;> simp [hexpires]

/-- **`ensure_session`**: the session of the slot, or a new one, or an exception. -/
theorem ensureSession_cases {index : ℕ} (hindex : index < client.muxes.length)
    {dial : Dial Address setup.remoteAddress}
    {ensured : Except PacketCrypt.Failure (Client Address × ℕ)}
    (h : client.ensureSession setup index dial = some ensured) :
    (∃ failure, ensured = .error failure) ∨
      (∃ i c, client.connections[i]? = some c ∧ client.reusable setup c = true ∧
        ensured = .ok (client, i)) ∨
      ∃ ready made, Quiet client ready ∧ Registers setup ready made ∧
        ensured = .ok (made, client.connections.length) ∧
        made.scavengeTimers = (if 0 < setup.config.autoexpire then client.scavengeTimers ++
          [(client.connections.length, made.now + 1000000000 * scavengeDelay setup)]
          else client.scavengeTimers) := by
  rw [ensureSession] at h
  dsimp only at h
  cases hcurrent : client.muxes[index]?.join.filter fun i =>
      client.connections[i]?.any (client.reusable setup) with
  | some i =>
      rw [hcurrent] at h
      obtain rfl := Option.some.inj h
      obtain ⟨-, hany⟩ := Option.filter_eq_some_iff.mp hcurrent
      obtain ⟨c, hc, hreusable⟩ := (Option.any_eq_true _ _).mp hany
      exact .inr (.inl ⟨i, c, hc, hreusable, rfl⟩)
  | none =>
      rw [hcurrent] at h
      dsimp only at h
      rw [Option.map_eq_some_iff] at h
      obtain ⟨created, hcreated, rfl⟩ := h
      have hstale : ∀ i c, client.muxes[index]? = some (some i) →
          client.connections[i]? = some c →
          c.smux.closed = true ∨ 0 < setup.config.autoexpire := by
        intro i c hslot hc
        refine @closed_or_expires _ setup client c (Bool.eq_false_iff.mpr fun hreusable => ?_)
        rw [hslot] at hcurrent
        have hnone := Option.filter_eq_none_iff.mp hcurrent i rfl
        rw [hc] at hnone
        exact hnone hreusable
      rcases createConnection_cases hcreated with ⟨failure, rfl⟩ | ⟨conv, remote, transport, smux,
        hfree, hconv, hport, hcreate, hlaunch, rfl⟩
      · exact .inl ⟨failure, rfl⟩
      · right
        right
        obtain ⟨waited, hwaited⟩ : ∃ waited : Client Address,
          waited = { client with now := client.now + dial.untilSession } := ⟨_, rfl⟩
        rw [← hwaited]
        have hquiet : Quiet client waited := by
          rw [hwaited]
          exact ⟨rfl, rfl, rfl, rfl, Nat.le_add_right _ _, id⟩
        refine ⟨waited, { waited.register setup conv remote transport smux dial with
          muxes := waited.muxes.set index (some waited.connections.length) }, hquiet, ?_, ?_, ?_⟩
        · refine ⟨conv, remote, transport, smux, dial, index, _, ?_, hconv, hport, hcreate,
            hlaunch, ?_, ?_, rfl⟩
          · rw [hquiet.transports_eq]
            exact hfree
          · rw [hquiet.muxes_eq, hquiet.connections_eq]
            exact hstale
          · rw [hquiet.muxes_eq]
            exact hindex
        · simp only [bind, Except.bind, pure, Except.pure, register_muxes, hquiet.connections_eq]
        · simp only [register_scavengeTimers, register_now, hquiet.timers_eq,
            hquiet.connections_eq]

/-! ### The steps -/

/-- The number of connections whose transport is open. -/
def established (client : Client Address) : ℕ :=
  client.connections.countP fun c => !c.closing

/-- A connection that is put back as open as it was. -/
theorem established_put_of_same (hc : client.connections[i]? = some c)
    (hsame : c'.closing = c.closing) :
    (client.put i c c').established = client.established := by
  have hcount := Registry.countP_set_add hc c' fun c => !c.closing
  rw [hsame] at hcount
  rw [established, established, put_connections]
  omega

/-- What the steps of a client need to know about it: a session is closed exactly with its
transport, every timer closes a connection there is, sessions have timers only if they expire,
and there are slots. -/
structure Regular (setup : ClientSetup) (client : Client Address) : Prop where
  together : ∀ (i : ℕ) (c : Connection Address), client.connections[i]? = some c →
    c.smux.Together
  timers_lt : ∀ timer ∈ client.scavengeTimers, timer.1 < client.connections.length
  expires : client.scavengeTimers ≠ [] → 0 < setup.config.autoexpire
  slots_pos : 0 < client.muxes.length

variable [DecidableEq Address] {calm : Prop}

/-- **`open_stream` on a session** that has not expired, or was just made. -/
theorem openStream_change (hc : client.connections[i]? = some c)
    (htogether : c.smux.Together) (unix : Bool)
    (hage : ∀ deadline, (i, deadline) ∈ client.scavengeTimers → client.now < c.expiry ∨
      deadline = client.now + 1000000000 * scavengeDelay setup) :
    Change setup calm client (client.openStream setup unix i c) ∧
      (client.openStream setup unix i c).established = client.established := by
  obtain ⟨kind, hkind⟩ : ∃ kind, kind =
    if unix then SmuxStream.Start.clientUnix else SmuxStream.Start.clientTcp := ⟨_, rfl⟩
  rw [openStream, ← hkind]
  cases hopen : c.smux.openStream setup.setting with
  | error message => exact ⟨.quiet (Quiet.refl client), rfl⟩
  | ok opened =>
      obtain ⟨smux, index⟩ := opened
      dsimp only
      have hact : c.smux.act setup.setting 0 (.openStream kind) =
          some (smux.onObject setup.setting index fun stream => (stream.start kind).quiet) := by
        rw [SmuxSession.act, hopen]
      obtain ⟨hclosed, -, hmade⟩ := SmuxSession.openStream_eq_ok hopen
      have hending : (smux.onObject setup.setting index fun stream =>
          (stream.start kind).quiet).ending = c.smux.ending := by
        rw [SmuxSession.onObject_ending, hmade]
        exact SmuxSession.sendFrame_ending
          { c.smux with nextStreamId := c.smux.nextStreamId + 2 } _ _ _
      generalize (smux.onObject setup.setting index fun stream => (stream.start kind).quiet) =
        started at *
      -- the session was open, so its transport is, and opening a stream closes neither
      have htransport : started.transportClosed = false :=
        ((Prod.mk.inj hending).2.trans htogether).trans hclosed
      have hkeeps : (c.withSmux started).closing = c.closing := by
        rw [SessionEntry.withSmux, htransport]
        rfl
      exact ⟨.opened hc (Connection.withEntry_handles (SessionEntry.act_runs hact)) hkeeps hage,
        established_put_of_same hc hkeeps⟩

/-- **`handle_accept`**, whatever is thrown. -/
theorem handleAccept_cases (h : Regular setup client) {unix : Bool}
    {dial : Dial Address setup.remoteAddress}
    (haccept : client.handleAccept setup unix dial = some after) :
    ∃ ready, Quiet client ready ∧ (Change setup calm ready after ∨
      ∃ made, Registers setup ready made ∧ Change setup calm made after ∧
        after.established = made.established) := by
  rw [handleAccept] at haccept
  obtain ⟨routed, hrouted⟩ : ∃ routed : Client Address, routed = { client with
    rr := client.rr + 1
    routed := client.routed ++ [client.rr.toNat % client.muxes.length] } := ⟨_, rfl⟩
  rw [← hrouted, Option.map_eq_some_iff] at haccept
  obtain ⟨ensured, hensured, rfl⟩ := haccept
  have hquiet : Quiet client routed := by
    rw [hrouted]
    exact ⟨rfl, rfl, rfl, rfl, le_rfl, id⟩
  have hindex : client.rr.toNat % client.muxes.length < routed.muxes.length := by
    rw [hquiet.muxes_eq]
    exact Nat.mod_lt _ h.slots_pos
  rcases ensureSession_cases hindex hensured with ⟨failure, rfl⟩ |
    ⟨i, c, hc, hreusable, rfl⟩ | ⟨waited, made, hwaited, hmade, rfl, htimers⟩
  · exact ⟨routed, hquiet, .inl (.quiet (Quiet.refl routed))⟩
  · refine ⟨routed, hquiet, .inl ?_⟩
    have hage : ∀ deadline, (i, deadline) ∈ routed.scavengeTimers → routed.now < c.expiry ∨
        deadline = routed.now + 1000000000 * scavengeDelay setup := by
      intro deadline hdeadline
      rw [hquiet.timers_eq] at hdeadline
      exact .inl ((reusable_iff.mp hreusable).2 (h.expires (List.ne_nil_of_mem hdeadline)))
    dsimp only
    rw [hc]
    exact (openStream_change hc (h.together i c (hquiet.connections_eq ▸ hc)) unix hage).1
  · refine ⟨waited, hquiet.trans hwaited, .inr ⟨made, hmade, ?_⟩⟩
    have hsame := hquiet.connections_eq
    obtain ⟨conv, remote, transport, smux, dial, index, now, hfree, -, -, -, hlaunch, -, -, heq⟩ :=
      hmade
    obtain ⟨c, hc⟩ : ∃ c, c =
      (waited.fresh setup conv remote transport smux dial).startUdpReceive := ⟨_, rfl⟩
    have hget : made.connections[routed.connections.length]? = some c := by
      rw [heq]
      dsimp only
      rw [register_connections, ← hwaited.connections_eq, ← hc]
      exact List.getElem?_concat_length
    have htogether : c.smux.Together := by
      rw [hc]
      exact (SmuxSession.launch_contained hlaunch).together
    dsimp only
    rw [hget]
    refine openStream_change hget htogether unix fun deadline hdeadline => .inr ?_
    -- the timers there were belong to older connections
    rw [htimers] at hdeadline
    split_ifs at hdeadline
    · rcases List.mem_append.mp hdeadline with hold | hnew
      · rw [hquiet.timers_eq] at hold
        have hlt := h.timers_lt _ hold
        rw [hsame] at hlt
        exact absurd hlt (Nat.lt_irrefl _)
      · exact (Prod.mk.inj (List.mem_singleton.mp hnew)).2
    · rw [hquiet.timers_eq] at hdeadline
      have hlt := h.timers_lt _ hdeadline
      rw [hsame] at hlt
      exact absurd hlt (Nat.lt_irrefl _)

/-- **What a step does**: after a change of the clock, the routing or the counters of datagrams
one of the changes, or a connection is registered and a stream opened on it. -/
theorem step_cases (h : Regular setup client) {event : Event Address setup.remoteAddress}
    (hstep : client.step setup event = some after) :
    ∃ ready, Quiet client ready ∧
      (Change setup event.Uncancelled ready after ∨
        ∃ made, Registers setup ready made ∧ Change setup event.Uncancelled made after ∧
          after.established = made.established) := by
  have hrun : ∀ {counted : Client Address} {i : ℕ}
      {function : Connection Address → Option (Connection Address)}, Quiet client counted →
      (∀ c c', function c = some c' → c.Handles setup c') →
      counted.run i function = some after →
      ∃ ready, Quiet client ready ∧ (Change setup event.Uncancelled ready after ∨
        ∃ made, Registers setup ready made ∧ Change setup event.Uncancelled made after ∧
          after.established = made.established) := by
    intro counted i function hquiet hfunction hput
    obtain ⟨c, hc, hput⟩ := Option.bind_eq_some_iff.mp hput
    obtain ⟨c', hc', rfl⟩ := Option.map_eq_some_iff.mp hput
    exact ⟨counted, hquiet, .inl (.put hc (hfunction c c' hc'))⟩
  cases event with
  | accepted unix dial => exact handleAccept_cases h hstep
  | received i sender bytes delivered =>
      have hquiet := (count_quiet client 1 (by decide : SnmpField.inPkts ∈ _)).trans
        (count_quiet (client.count .inPkts 1) (UInt64.ofNat bytes.length)
          (by decide : SnmpField.inBytes ∈ _))
      obtain ⟨c, hc, hreceive⟩ := Option.bind_eq_some_iff.mp hstep
      split_ifs at hreceive with hnone
      split at hreceive
      · cases hreceive
      · next damaged c' hhandled =>
        obtain rfl := Option.some.inj hreceive
        have hhandles := Connection.handleReceive_handles (Nat.pos_of_ne_zero hnone) hhandled
        cases damaged with
        | true =>
            exact ⟨_, hquiet.trans (count_quiet _ 1 (by decide : SnmpField.inCsumErrors ∈ _)),
              .inl (.put hc hhandles)⟩
        | false => exact ⟨_, hquiet, .inl (.put hc hhandles)⟩
  | receiveFailed i aborted =>
      refine hrun (i := i) ?_ ?_ hstep
      · split_ifs
        · exact Quiet.refl client
        · exact count_quiet client 1 (by decide)
      · intro c c' hc'
        split_ifs at hc' with hnone
        obtain rfl := Option.some.inj hc'
        exact (Connection.received_handles (Nat.pos_of_ne_zero hnone)).2
  | ran i event =>
      refine hrun (Quiet.refl client) (fun c c' hc' => ?_) hstep
      obtain ⟨entry, hentry, rfl⟩ := Option.map_eq_some_iff.mp hc'
      exact Connection.withEntry_handles (SessionEntry.step_runs hentry)
  | scavenged position error =>
      obtain ⟨⟨i, deadline⟩, htimer, hstep⟩ := Option.bind_eq_some_iff.mp hstep
      dsimp only at hstep
      split_ifs at hstep with hdue
      obtain rfl := Option.some.inj hstep
      refine ⟨client, Quiet.refl client, .inl ?_⟩
      cases error with
      | true => exact .cancelled (by simp [Event.Uncancelled])
      | false => exact .scavenged htimer (by simpa using hdue)
  | elapsed duration =>
      obtain rfl := Option.some.inj hstep
      exact ⟨client, Quiet.refl client,
        .inl (.quiet ⟨rfl, rfl, rfl, rfl, Nat.le_add_right _ _, id⟩)⟩

end Client

end Shimakaze
