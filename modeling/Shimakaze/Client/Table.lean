import Shimakaze.Client.Changes
import Shimakaze.Config.Parse

/-!
# The Conversations of a Client

`transports_` is what `next_conv` looks at to find an id that is not in use, so a conversation
id is told apart from the others only as long as the table is right. Entries are made by
`create_connection` and taken out by the close handler of a transport, which may run inside any
other function of the connection. The counters of `stats.cpp` are kept at the same two places.

## Main results

* `ConnectionsInv.step`: what every event of the client keeps.
* `conversations_exact`: **the table holds exactly the transports that are open, under ids that
  are all different and not 0**, and the counters agree with it.
* `never_deaf`: an open connection always has exactly one receive outstanding, and takes in
  nothing but packets of its own peer and conversation.
* `maxConn_peak`: `max_conn` is the largest number of transports that were open at a time.
-/

namespace Shimakaze

namespace Client

variable {Address : Type} [DecidableEq Address] {setup : ClientSetup}
  {client ready made after : Client Address}

/-- What the members of a client have to do with each other. -/
structure ConnectionsInv (setup : ClientSetup) (client : Client Address) : Prop where
  exact : Registry.Exact Connection.conv (fun c => !c.closing) client.transports
    client.connections
  sound : ∀ (i : ℕ) (c : Connection Address), client.connections[i]? = some c →
    c.Sound setup ∧ c.Listening
  addressed : ∀ (i : ℕ) (c : Connection Address), client.connections[i]? = some c → c.conv ≠ 0 ∧
    setup.remoteAddress.minPort ≤ c.remoteEndpoint.port ∧
      c.remoteEndpoint.port ≤ setup.remoteAddress.maxPort
  timers_lt : ∀ timer ∈ client.scavengeTimers, timer.1 < client.connections.length
  expires : client.scavengeTimers ≠ [] → 0 < setup.config.autoexpire
  slots_lt : ∀ i, some i ∈ client.muxes → i < client.connections.length
  slots_length : client.muxes.length = (max 1 setup.config.conn.toInt).toNat
  tally : client.storage.Tally true client.connections.length client.established
    (client.storage.counters .maxConn).toNat
  established_le : client.established ≤ (client.storage.counters .maxConn).toNat

theorem ConnectionsInv.regular (h : ConnectionsInv setup client) : Regular setup client where
  together i c hc := (h.sound i c hc).1.entry.together
  timers_lt := h.timers_lt
  expires := h.expires
  slots_pos := by
    rw [h.slots_length]
    omega

/-- Nothing of what matters changes. -/
theorem ConnectionsInv.quiet (h : ConnectionsInv setup client) (hquiet : Quiet client after) :
    ConnectionsInv setup after := by
  have hestablished : after.established = client.established := by
    rw [established, hquiet.connections_eq, established]
  have htally := hquiet.tally h.tally
  refine ⟨?_, ?_, ?_, ?_, ?_, ?_, ?_, ?_, ?_⟩
  · rw [hquiet.transports_eq, hquiet.connections_eq]
    exact h.exact
  · rw [hquiet.connections_eq]
    exact h.sound
  · rw [hquiet.connections_eq]
    exact h.addressed
  · rw [hquiet.timers_eq, hquiet.connections_eq]
    exact h.timers_lt
  · rw [hquiet.timers_eq]
    exact h.expires
  · rw [hquiet.muxes_eq, hquiet.connections_eq]
    exact h.slots_lt
  · rw [hquiet.muxes_eq]
    exact h.slots_length
  · rw [htally.maxConn, hquiet.connections_eq, hestablished]
    exact htally
  · rw [htally.maxConn, hestablished]
    exact h.established_le

/-! ### A handler of a connection -/

variable {i : ℕ} {c c' : Connection Address}

omit [DecidableEq Address] in
/-- A connection whose transport closes is one fewer. -/
theorem established_put_of_closes (hc : client.connections[i]? = some c)
    (hopen : c.closing = false) (hcloses : c'.closing = true) :
    0 < client.established ∧ (client.put i c c').established = client.established - 1 := by
  obtain ⟨hlt, hget⟩ := List.getElem?_eq_some_iff.mp hc
  refine ⟨List.countP_pos_iff.mpr ⟨c, List.mem_of_getElem? hc, by rw [hopen]; rfl⟩, ?_⟩
  rw [established, put_connections, List.countP_set hlt, hget, hopen, hcloses, established]
  rfl

/-- **A handler keeps the table**, whether it closes the transport or not. -/
theorem ConnectionsInv.put (h : ConnectionsInv setup client)
    (hc : client.connections[i]? = some c) (hconv : c'.conv = c.conv)
    (hremote : c'.remoteEndpoint = c.remoteEndpoint)
    (hclosing : c.closing = true → c'.closing = true)
    (hsound : c'.Sound setup ∧ c'.Listening) : ConnectionsInv setup (client.put i c c') := by
  have hlength : (client.put i c c').connections.length = client.connections.length := by
    rw [put_connections, List.length_set]
  have hevery {P : Connection Address → Prop}
      (hP : ∀ (j : ℕ) (d : Connection Address), client.connections[j]? = some d → P d)
      (hP' : P c') : ∀ (j : ℕ) (d : Connection Address),
        (client.put i c c').connections[j]? = some d → P d := by
    intro j d hd
    rw [put_connections] at hd
    rcases (Registry.getElem?_set_eq_some hc).mp hd with ⟨-, rfl⟩ | ⟨-, hd⟩
    · exact hP'
    · exact hP j d hd
  have hexact : Registry.Exact Connection.conv (fun c => !c.closing)
      (client.put i c c').transports (client.put i c c').connections ∧
      (client.put i c c').storage.Tally true client.connections.length
        (client.put i c c').established
        ((client.put i c c').storage.counters .maxConn).toNat ∧
      (client.put i c c').established ≤
        ((client.put i c c').storage.counters .maxConn).toNat := by
    rw [put_connections]
    cases hopen : c.closing with
    | true =>
        obtain ⟨htransports, hstorage⟩ := @put_of_keeps _ client i c c' (by simp [hopen])
        have hsame := established_put_of_same hc ((hclosing hopen).trans hopen.symm)
        rw [htransports, hstorage, hsame]
        exact ⟨h.exact.update hc hconv (by rw [hopen, hclosing hopen]), h.tally, h.established_le⟩
    | false =>
        cases hcloses : c'.closing with
        | false =>
            obtain ⟨htransports, hstorage⟩ := @put_of_keeps _ client i c c' fun _ => hcloses
            have hsame := established_put_of_same hc (hcloses.trans hopen.symm)
            rw [htransports, hstorage, hsame]
            exact ⟨h.exact.update hc hconv (by rw [hopen, hcloses]), h.tally, h.established_le⟩
        | true =>
            obtain ⟨htransports, hstorage⟩ := @put_of_closes _ client i c c' hopen hcloses
            obtain ⟨hpos, hfewer⟩ := established_put_of_closes hc hopen hcloses
            have htally := h.tally.connectionClose hpos
            rw [htransports, hstorage, hfewer, htally.maxConn]
            refine ⟨h.exact.retire hc (by rw [hopen]; rfl) (by rw [hcloses]; rfl), htally, ?_⟩
            exact (Nat.sub_le _ _).trans h.established_le
  refine ⟨hexact.1, hevery h.sound hsound, hevery h.addressed ?_, ?_, ?_, ?_, ?_, ?_, hexact.2.2⟩
  · rw [hconv, hremote]
    exact h.addressed i c hc
  · rw [put_scavengeTimers, hlength]
    exact h.timers_lt
  · rw [put_scavengeTimers]
    exact h.expires
  · rw [put_muxes, hlength]
    exact h.slots_lt
  · rw [put_muxes]
    exact h.slots_length
  · rw [hlength]
    exact hexact.2.1

/-! ### A new connection -/

/-- There are fewer open transports than ids. -/
theorem ConnectionsInv.established_lt (h : ConnectionsInv setup client) :
    client.established ≤ 2 ^ 32 :=
  h.exact.countP_le (fun _ _ => UInt32.toNat_inj.mp) fun conv => conv.toNat_lt

/-- A connection that was just made is sound and listens. -/
theorem fresh_sound {conv : UInt32} {remote : UdpEndpoint Address} {transport : KcpTransport}
    {smux : SmuxSession} {dial : Dial Address setup.remoteAddress} {now : ℕ}
    (hcreate : KcpTransport.create setup.lib.crypto setup.lib.ikcpSetmtu
      setup.config.toBaseConfig = .ok transport)
    (hlaunch : SmuxSession.launch setup.setting true none now = .ok smux) :
    (client.fresh setup conv remote transport smux dial).startUdpReceive.Sound setup ∧
      (client.fresh setup conv remote transport smux dial).startUdpReceive.Listening ∧
      (client.fresh setup conv remote transport smux dial).startUdpReceive.closing = false := by
  have hstarted : SessionEntry.Started setup.lib.crypto setup.lib.ikcpSetmtu setup.setting true none
      { transport := { transport }, smux } := ⟨transport, smux, now, rfl, hcreate, hlaunch⟩
  obtain ⟨hsound, hopen⟩ := hstarted.sound
  refine ⟨⟨⟨hsound.together, hsound.ends, hsound.decodable⟩, ?_, fun input hinput => ?_⟩,
    ⟨le_rfl, fun _ => rfl⟩, hopen⟩
  · exact (congrArg Bool.not hopen).symm
  · exact absurd hinput List.not_mem_nil

/-- `max_conn`. -/
def mark (client : Client Address) : ℕ := (client.storage.counters .maxConn).toNat

/-- **A registered connection** is one more. -/
theorem ConnectionsInv.registers (h : ConnectionsInv setup client)
    (hmade : Registers setup client made) :
    ConnectionsInv setup made ∧ made.mark = max client.mark made.established := by
  obtain ⟨conv, remote, transport, smux, dial, index, now, hfree, hconv, hport, hcreate, hlaunch,
    -, -, rfl⟩ := hmade
  obtain ⟨c, hc⟩ : ∃ c, c = (client.fresh setup conv remote transport smux dial).startUdpReceive :=
    ⟨_, rfl⟩
  obtain ⟨hsound, hlistening, hopen⟩ :=
    @fresh_sound _ _ setup client conv remote transport smux dial now hcreate hlaunch
  have hconvEq : c.conv = conv := by
    rw [hc]
    rfl
  rw [← hc] at hsound hlistening hopen
  have hevery {P : Connection Address → Prop}
      (hP : ∀ (j : ℕ) (d : Connection Address), client.connections[j]? = some d → P d)
      (hP' : P c) : ∀ (j : ℕ) (d : Connection Address),
        (client.connections ++ [c])[j]? = some d → P d := by
    intro j d hd
    rcases List.mem_append.mp (List.mem_of_getElem? hd) with hold | hnew
    · obtain ⟨k, hk⟩ := List.getElem?_of_mem hold
      exact hP k d hk
    · exact List.mem_singleton.mp hnew ▸ hP'
  have hcount : (client.connections ++ [c]).countP (fun c => !c.closing) =
      client.established + 1 := by
    rw [List.countP_append, established, List.countP_singleton, hopen]
    rfl
  have hroom := h.established_lt
  have htally := h.tally.connectionOpen (by omega)
  refine ⟨⟨?_, ?_, ?_, ?_, ?_, ?_, ?_, ?_, ?_⟩, ?_⟩
  · dsimp only
    rw [register_transports hfree, register_connections, ← hc, ← hconvEq]
    exact h.exact.add (by rw [hopen]; rfl) (hconvEq ▸ hfree)
  · dsimp only
    rw [register_connections, ← hc]
    exact hevery h.sound ⟨hsound, hlistening⟩
  · dsimp only
    rw [register_connections, ← hc]
    refine hevery h.addressed ?_
    rw [hc]
    exact ⟨hconv, hport⟩
  · dsimp only
    rw [register_scavengeTimers, register_connections, List.length_append, List.length_singleton]
    intro timer htimer
    split_ifs at htimer
    · rcases List.mem_append.mp htimer with hold | hnew
      · exact (h.timers_lt timer hold).trans (Nat.lt_succ_self _)
      · rw [List.mem_singleton.mp hnew]
        exact Nat.lt_succ_self _
    · exact (h.timers_lt timer htimer).trans (Nat.lt_succ_self _)
  · dsimp only
    rw [register_scavengeTimers]
    split_ifs with hexpires
    · exact fun _ => hexpires
    · exact h.expires
  · dsimp only
    rw [register_connections, List.length_append, List.length_singleton]
    intro i hi
    rcases List.mem_or_eq_of_mem_set hi with hold | hnew
    · exact (h.slots_lt i hold).trans (Nat.lt_succ_self _)
    · rw [Option.some.inj hnew]
      exact Nat.lt_succ_self _
  · dsimp only
    rw [List.length_set]
    exact h.slots_length
  · rw [established]
    dsimp only
    rw [register_connections, ← hc, hcount, register_storage, htally.maxConn, List.length_append,
      List.length_singleton]
    exact htally
  · rw [established]
    dsimp only
    rw [register_connections, ← hc, hcount, register_storage, htally.maxConn]
    exact le_max_right _ _
  · rw [mark, established]
    dsimp only
    rw [register_connections, ← hc, hcount, register_storage]
    exact htally.maxConn

/-! ### Every event -/

omit [DecidableEq Address] in
/-- A handler leaves `max_conn` alone. -/
theorem mark_put : (client.put i c c').mark = client.mark := by
  rw [mark, put, mark]
  split_ifs
  · rw [SnmpStorage.snmpConnectionClose]
    split_ifs
    · exact congrArg _ (SnmpStorage.snmpStore_of_ne (by decide) _)
    · rfl
  · rfl

/-- A timer that is served is taken out. -/
theorem ConnectionsInv.eraseTimer (h : ConnectionsInv setup client) (position : ℕ) :
    ConnectionsInv setup
      { client with scavengeTimers := client.scavengeTimers.eraseIdx position } where
  exact := h.exact
  sound := h.sound
  addressed := h.addressed
  timers_lt timer htimer := h.timers_lt timer (List.mem_of_mem_eraseIdx htimer)
  expires hsome := h.expires fun hnil => hsome (by
    dsimp only
    rw [hnil]
    rfl)
  slots_lt := h.slots_lt
  slots_length := h.slots_length
  tally := h.tally
  established_le := h.established_le

/-- Closing a session is a handler like any other. -/
theorem close_handles (c : Connection Address) :
    c.Handles setup (c.withEntry (c.withSmux (c.smux.close setup.setting))) :=
  Connection.withEntry_handles (@SessionEntry.act_runs _ c.toSessionEntry _ 0 .close _ rfl)

/-- **One change** keeps the invariant and raises the mark to the number of open transports. -/
theorem ConnectionsInv.change {calm : Prop} (h : ConnectionsInv setup client)
    (hchange : Change setup calm client after) :
    ConnectionsInv setup after ∧ after.mark = max client.mark after.established := by
  have hput {client : Client Address} {i : ℕ} {c c' : Connection Address}
      (h : ConnectionsInv setup client) (hc : client.connections[i]? = some c)
      (hhandles : c.Handles setup c') : ConnectionsInv setup (client.put i c c') := by
    obtain ⟨hremote, hconv, -⟩ := hhandles.members
    exact h.put hc hconv hremote hhandles.stays_closing
      ⟨hhandles.sound (h.sound i c hc).1, hhandles.listening (h.sound i c hc).2⟩
  have hmark {client after : Client Address} (h : ConnectionsInv setup client)
      (hafter : ConnectionsInv setup after) (hsame : after.mark = client.mark) :
      ConnectionsInv setup after ∧ after.mark = max client.mark after.established := by
    have hle : after.established ≤ after.mark := hafter.established_le
    exact ⟨hafter, by rw [← hsame, max_eq_left hle]⟩
  cases hchange with
  | quiet hquiet => exact hmark h (h.quiet hquiet) (hquiet.tally h.tally).maxConn
  | put hc hhandles => exact hmark h (hput h hc hhandles) mark_put
  | @opened i c smux hc hhandles hopen hage =>
      obtain ⟨hremote, hconv, -⟩ := hhandles.members
      have hsound := hhandles.sound (h.sound i c hc).1
      have hlistening := hhandles.listening (h.sound i c hc).2
      refine hmark h (h.put hc hconv hremote hhandles.stays_closing ⟨?_, ?_⟩) mark_put
      · exact ⟨⟨hsound.entry.together, hsound.entry.ends, hsound.entry.decodable⟩, hsound.socket,
          hsound.heard⟩
      · exact ⟨hlistening.at_most_one, hlistening.never_deaf⟩
  | @scavenged position i deadline htimer hdue =>
      have herased := h.eraseTimer position
      obtain ⟨c, hc⟩ : ∃ c, client.connections[i]? = some c :=
        ⟨_, List.getElem?_eq_getElem (h.timers_lt _ (List.mem_of_getElem? htimer))⟩
      rw [scavenge]
      dsimp only
      rw [if_neg Bool.false_ne_true, hc]
      obtain ⟨hafter, hmarked⟩ := hmark herased (hput herased hc (close_handles c)) mark_put
      exact ⟨hafter, hmarked⟩
  | cancelled hcancels => exact hmark h (h.eraseTimer _) rfl

/-- **One event** keeps the invariant and the mark. -/
theorem ConnectionsInv.step (h : ConnectionsInv setup client)
    {event : Event Address setup.remoteAddress} (hstep : client.step setup event = some after) :
    ConnectionsInv setup after ∧ after.mark = max client.mark after.established := by
  obtain ⟨ready, hquiet, hchange | ⟨made, hmade, hchange, hsame⟩⟩ := step_cases h.regular hstep
  · have hready : ready.mark = client.mark := (hquiet.tally h.tally).maxConn
    obtain ⟨hafter, hmark⟩ := (h.quiet hquiet).change hchange
    exact ⟨hafter, by rw [hmark, hready]⟩
  · have hready : ready.mark = client.mark := (hquiet.tally h.tally).maxConn
    obtain ⟨hinv, hraised⟩ := (h.quiet hquiet).registers hmade
    obtain ⟨hafter, hmark⟩ := hinv.change hchange
    exact ⟨hafter, by rw [hmark, hraised, hready, hsame, max_assoc, max_self]⟩

/-- A client that has just been made. -/
theorem create_inv {lib : ClientLib} {config : ClientConfig}
    (h : create lib config = .ok (setup, client)) : ConnectionsInv setup client ∧
      client.mark = client.established ∧ client.connections = [] ∧ client.routed = [] ∧
      client.rr = 0 ∧ setup.config = config ∧ setup.lib = lib ∧
      PacketCrypt.create lib.crypto config.toBaseConfig = .ok setup.crypt ∧
      client.muxes = List.replicate (max 1 config.conn.toInt).toNat none := by
  obtain ⟨remoteAddress, crypt, hcrypt, hsetup, hclient⟩ : ∃ remoteAddress crypt,
      PacketCrypt.create lib.crypto config.toBaseConfig = .ok crypt ∧
      setup = ⟨lib, config, crypt, remoteAddress⟩ ∧
      client = { muxes := List.replicate (max 1 config.conn.toInt).toNat none } := by
    rw [create] at h
    cases hcrypt : PacketCrypt.create lib.crypto config.toBaseConfig with
    | error failure =>
        rw [hcrypt] at h
        cases h
    | ok crypt =>
        rw [hcrypt] at h
        cases hremote : parseMultiport config.remoteaddr with
        | error message =>
            rw [hremote] at h
            cases h
        | ok remoteAddress =>
            rw [hremote] at h
            refine ⟨remoteAddress, crypt, rfl, ?_⟩
            cases hlocal : parseMultiport config.localaddr with
            | error message =>
                rw [hlocal] at h
                obtain ⟨rfl, rfl⟩ := Prod.mk.inj (Except.ok.inj h)
                exact ⟨rfl, rfl⟩
            | ok localAddress =>
                rw [hlocal] at h
                dsimp only at h
                split_ifs at h
                obtain ⟨rfl, rfl⟩ := Prod.mk.inj (Except.ok.inj h)
                exact ⟨rfl, rfl⟩
  subst hsetup hclient
  refine ⟨⟨.nil _ _, ?_, ?_, ?_, ?_, ?_, ?_, ?_, ?_⟩, rfl, rfl, rfl, rfl, rfl, rfl, hcrypt, rfl⟩
  · exact fun i c hc => absurd hc (by simp)
  · exact fun i c hc => absurd hc (by simp)
  · exact fun timer htimer => absurd htimer List.not_mem_nil
  · exact fun hsome => absurd rfl hsome
  · exact fun i hi => absurd (List.eq_of_mem_replicate hi) (by simp)
  · exact List.length_replicate
  · exact .init true
  · exact Nat.zero_le _

omit [DecidableEq Address] in
/-- Another library that makes the same cipher makes the same client. -/
theorem create_crypto {lib : ClientLib} {config : ClientConfig}
    (h : create lib config = .ok (setup, client)) (crypto : CryptoLib)
    (hcrypt : PacketCrypt.create crypto config.toBaseConfig =
      PacketCrypt.create lib.crypto config.toBaseConfig) :
    create { lib with crypto } config =
      .ok ({ setup with lib := { lib with crypto } }, client) := by
  rw [create] at h ⊢
  rw [hcrypt]
  cases hmade : PacketCrypt.create lib.crypto config.toBaseConfig with
  | error failure =>
      rw [hmade] at h
      cases h
  | ok crypt =>
      rw [hmade] at h
      cases hremote : parseMultiport config.remoteaddr with
      | error message =>
          rw [hremote] at h
          cases h
      | ok remoteAddress =>
          rw [hremote] at h
          cases hlocal : parseMultiport config.localaddr with
          | error message =>
              rw [hlocal] at h
              obtain ⟨rfl, rfl⟩ := Prod.mk.inj (Except.ok.inj h)
              rfl
          | ok localAddress =>
              rw [hlocal] at h
              dsimp only at h ⊢
              split_ifs at h ⊢
              obtain ⟨rfl, rfl⟩ := Prod.mk.inj (Except.ok.inj h)
              rfl

/-- **The invariant holds throughout.** -/
theorem run_inv {lib : ClientLib} {config : ClientConfig} {start : Client Address}
    (hcreate : create lib config = .ok (setup, start))
    {events : List (Event Address setup.remoteAddress)}
    (hrun : (machine setup).run start events = some client) : ConnectionsInv setup client :=
  EventMachine.run_invariant (fun _ _ _ h hstep => (h.step hstep).1) (create_inv hcreate).1 hrun

/-! ### The table, the sockets and the counters -/

section Runs

variable (lib : ClientLib) (config : ClientConfig) (setup : ClientSetup)
  (start client : Client Address) (hcreate : create lib config = .ok (setup, start))
  (events : List (Event Address setup.remoteAddress))
  (hrun : (machine setup).run start events = some client)
include hcreate hrun

/-- **Conversations are kept apart.** In every run of a client: a transport is open exactly when
the table has it under its id; open transports have different ids, none is 0, and each is
connected to a port of the configured range; `curr_estab` is the number of open transports and
`active_opens` that of the connections made, modulo `2 ^ 64`. -/
theorem conversations_exact :
    (∀ (i : ℕ) (c : Connection Address), client.connections[i]? = some c →
      (c.closing = false ↔ client.transports.lookup c.conv = some i) ∧ c.conv ≠ 0 ∧
      setup.remoteAddress.minPort ≤ c.remoteEndpoint.port ∧
        c.remoteEndpoint.port ≤ setup.remoteAddress.maxPort) ∧
    (∀ (i j : ℕ) (c d : Connection Address), client.connections[i]? = some c →
      client.connections[j]? = some d → c.closing = false → d.closing = false →
      c.conv = d.conv → i = j) ∧
    (client.storage.counters .currEstab).toNat = client.established ∧
    client.storage.counters .activeOpens = UInt64.ofNat client.connections.length := by
  have h := run_inv hcreate hrun
  have hregistered : ∀ (i : ℕ) (c : Connection Address), client.connections[i]? = some c →
      c.closing = false → client.transports.lookup c.conv = some i := fun i c hc hopen =>
    h.exact.registered i c hc (by rw [hopen]; rfl)
  refine ⟨fun i c hc => ⟨⟨hregistered i c hc, fun hlookup => ?_⟩, h.addressed i c hc⟩, ?_,
    h.tally.currEstab, h.tally.opens⟩
  · obtain ⟨d, hd, -, hopen⟩ := h.exact.sound _ (Registry.mem_of_lookup hlookup)
    obtain rfl := Option.some.inj (hc.symm.trans hd)
    simpa using hopen
  · intro i j c d hc hd hcopen hdopen hsame
    have hi := hregistered i c hc hcopen
    rw [hsame, hregistered j d hd hdopen] at hi
    exact (Option.some.inj hi).symm

/-- **No connection is deaf.** In every run of a client and for every connection: the socket is
open exactly as long as the transport is, and then one receive is outstanding; there is never
more than one, so the buffer it writes to is not shared; a closed session has closed the
transport; and all that the transport has been given came from its remote endpoint, with its
conversation id unless it was parity. -/
theorem never_deaf (i : ℕ) (c : Connection Address) (hc : client.connections[i]? = some c) :
    c.socketOpen = !c.closing ∧ c.receives ≤ 1 ∧ (c.socketOpen = true → c.receives = 1) ∧
      (c.smux.closed = true → c.closing = true) ∧
      ∀ input ∈ c.inputs, c.remoteEndpoint = input.1 ∧
        ∀ offset, fecKcpPayloadOffset input.2 = some offset →
          setup.lib.ikcpGetconv (input.2.drop offset) = c.conv := by
  obtain ⟨hsound, hlistening⟩ := (run_inv hcreate hrun).sound i c hc
  refine ⟨hsound.socket, hlistening.at_most_one, hlistening.never_deaf, hsound.entry.ends,
    fun input hinput => ?_⟩
  have haccepts := hsound.heard input hinput
  rw [Connection.accepts] at haccepts
  cases hoffset : fecKcpPayloadOffset input.2 with
  | none =>
      rw [hoffset] at haccepts
      exact ⟨of_decide_eq_true haccepts, fun offset hsome => by cases hsome⟩
  | some offset =>
      rw [hoffset] at haccepts
      obtain ⟨-, hconv, hremote⟩ := of_decide_eq_true haccepts
      refine ⟨hremote, fun offset' hsome => ?_⟩
      obtain rfl := Option.some.inj hsome
      exact hconv

/-- **No datagram stops the client.** With an accepted configuration whose shards can be counted,
in every run of a client a connection whose transport is open handles the next datagram without an
exception, whoever sent it, whatever its bytes and whatever KCP delivers. -/
theorem next_datagram_handled (haccepted : config.Accepted)
    (hshards : config.datashard.toInt + config.parityshard.toInt < 2 ^ 31) (i : ℕ)
    (c : Connection Address) (hc : client.connections[i]? = some c) (hopen : c.closing = false)
    (sender : UdpEndpoint Address) (bytes : Bytes) (delivered : List Bytes) :
    ∃ after, (machine setup).step client (.received i sender bytes delivered) = some after := by
  obtain ⟨hsound, hlistening⟩ := (run_inv hcreate hrun).sound i c hc
  obtain ⟨hdata, hparity, hsum⟩ := haccepted.shards_le hshards
  obtain ⟨-, -, -, -, -, hconfig, -⟩ := create_inv hcreate
  have hone : c.receives = 1 := hlistening.never_deaf (by rw [hsound.socket, hopen]; rfl)
  have hdecodable : c.received.transport.transport.fec.Decodable := by
    refine hsound.entry.decodable ?_ ?_ ?_ <;> rwa [hconfig]
  obtain ⟨damaged, after, hhandled⟩ := Connection.handleReceive_total hdecodable setup
    client.now sender bytes delivered
  change ∃ after, client.receive setup i sender bytes delivered = some after
  rw [receive, show ((client.count .inPkts 1).count .inBytes
    (UInt64.ofNat bytes.length)).connections = client.connections from rfl, hc, Option.bind_some,
    if_neg (by omega)]
  exact ⟨_, by rw [show ((client.count .inPkts 1).count .inBytes
    (UInt64.ofNat bytes.length)).now = client.now from rfl, hhandled]⟩

/-- **`max_conn` is a high-water mark**: the largest number of transports that were open after
any of the events, and it was reached. -/
theorem maxConn_peak :
    (∀ past later passed, events = past ++ later →
      (machine setup).run start past = some passed → passed.established ≤ client.mark) ∧
    ∃ past later passed, events = past ++ later ∧
      (machine setup).run start past = some passed ∧ passed.established = client.mark := by
  obtain ⟨hinv, hmark, -⟩ := create_inv hcreate
  exact EventMachine.peak (fun _ _ _ h hstep => h.step hstep) hinv hmark hrun

end Runs

/-- A client without cryptography and compression whose server has one port. -/
def plainSetup (conn autoexpire scavengettl : Int32) : ClientSetup :=
  { lib := { ikcpGetconv := readLe32, ikcpSetmtu := fun _ => 0
             crypto := PacketCrypt.withoutLibrary, prims := .uncalled, snappy := ⟨id, some⟩ }
    config := { crypt := "null", datashard := 0, parityshard := 0, nocomp := true, conn
                autoexpire, scavengettl }
    crypt := {}
    remoteAddress := ⟨"vps", 29900, 29900⟩ }

/-- The client when it starts. -/
def plainStart (conn : Int32) : Client String :=
  { muxes := List.replicate (max 1 conn.toInt).toNat none }

/-- A connection to its server, with the ids drawn. -/
def plainDial (conn autoexpire scavengettl : Int32) (convs : List RandomConv) :
    Dial String (plainSetup conn autoexpire scavengettl).remoteAddress :=
  { convs, port := ⟨29900, UInt16.le_refl _, UInt16.le_refl _⟩, resolved := .ok "10.0.0.9" }

theorem create_plain (conn autoexpire scavengettl : Int32) :
    create (plainSetup conn autoexpire scavengettl).lib
      (plainSetup conn autoexpire scavengettl).config =
        .ok (plainSetup conn autoexpire scavengettl, plainStart conn) := by
  have hcrypt : PacketCrypt.create (plainSetup conn autoexpire scavengettl).lib.crypto
      (plainSetup conn autoexpire scavengettl).config.toBaseConfig = .ok {} := by
    rw [show (plainSetup conn autoexpire scavengettl).config.toBaseConfig =
      { crypt := "null", datashard := 0, parityshard := 0, nocomp := true, sndwnd := 128
        rcvwnd := 512, closewait := 0 } from rfl]
    rfl
  have hremote : parseMultiport (plainSetup conn autoexpire scavengettl).config.remoteaddr =
      .ok ⟨"vps", 29900, 29900⟩ := by
    change parseMultiport "vps:29900" = _
    decide +kernel
  have hlocal : parseMultiport (plainSetup conn autoexpire scavengettl).config.localaddr =
      .ok ⟨"", 12948, 12948⟩ := by
    change parseMultiport ":12948" = _
    decide +kernel
  rw [create, hcrypt]
  simp only [hremote, hlocal]
  rfl

/-- Two slots take two connections, and the first id drawn for the second one is in use. -/
theorem second_conversation_differs : ∃ client,
    (machine (plainSetup 2 0 600)).run (plainStart 2)
      [.accepted false (plainDial 2 0 600 [⟨7, by decide⟩]),
        .accepted true (plainDial 2 0 600 [⟨7, by decide⟩, ⟨9, by decide⟩])] = some client ∧
    client.transports = [(7, 0), (9, 1)] ∧
    ∀ (i : ℕ) (c : Connection String), client.connections[i]? = some c → c.conv ≠ 0 := by
  obtain ⟨client, hrun, htable⟩ : ∃ client,
      (machine (plainSetup 2 0 600)).run (plainStart 2)
        [.accepted false (plainDial 2 0 600 [⟨7, by decide⟩]),
          .accepted true (plainDial 2 0 600 [⟨7, by decide⟩, ⟨9, by decide⟩])] = some client ∧
      client.transports = [(7, 0), (9, 1)] := ⟨_, rfl, rfl⟩
  exact ⟨client, hrun, htable, fun i c hc =>
    ((conversations_exact _ _ _ _ client (create_plain 2 0 600) _ hrun).1 i c hc).2.1⟩

/-- A datagram of the peer and one of another conversation: the second is not taken in, and both
times a receive is outstanding again. -/
theorem foreign_conversation_ignored : ∃ client c,
    (machine (plainSetup 1 0 600)).run (plainStart 1)
      [.accepted false (plainDial 1 0 600 [⟨7, by decide⟩]),
        .received 0 ⟨"10.0.0.9", 29900⟩ [7, 0, 0, 0, 1] [],
        .received 0 ⟨"10.0.0.9", 29900⟩ [8, 0, 0, 0, 1] []] = some client ∧
    client.connections[0]? = some c ∧ c.inputs = [(⟨"10.0.0.9", 29900⟩, [7, 0, 0, 0, 1])] ∧
    c.receives = 1 := by
  obtain ⟨client, c, hrun, hc, hinputs, hopen⟩ : ∃ client c,
      (machine (plainSetup 1 0 600)).run (plainStart 1)
        [.accepted false (plainDial 1 0 600 [⟨7, by decide⟩]),
          .received 0 ⟨"10.0.0.9", 29900⟩ [7, 0, 0, 0, 1] [],
          .received 0 ⟨"10.0.0.9", 29900⟩ [8, 0, 0, 0, 1] []] = some client ∧
      client.connections[0]? = some c ∧ c.inputs = [(⟨"10.0.0.9", 29900⟩, [7, 0, 0, 0, 1])] ∧
      c.socketOpen = true := ⟨_, _, rfl, rfl, rfl, rfl⟩
  exact ⟨client, c, hrun, hc, hinputs,
    (never_deaf _ _ _ _ client (create_plain 1 0 600) _ hrun 0 c hc).2.2.1 hopen⟩

/-- Three bytes of anyone are handled. -/
theorem junk_handled : ∃ client after,
    (machine (plainSetup 1 0 600)).run (plainStart 1)
      [.accepted false (plainDial 1 0 600 [⟨7, by decide⟩])] = some client ∧
    (machine (plainSetup 1 0 600)).step client
      (.received 0 ⟨"10.0.0.3", 9⟩ [255, 0, 1] [[7]]) = some after := by
  obtain ⟨client, c, hrun, hc, hopen⟩ : ∃ client c,
      (machine (plainSetup 1 0 600)).run (plainStart 1)
        [.accepted false (plainDial 1 0 600 [⟨7, by decide⟩])] = some client ∧
      client.connections[0]? = some c ∧ c.closing = false := ⟨_, _, rfl, rfl, rfl⟩
  obtain ⟨after, hafter⟩ := next_datagram_handled _ _ _ _ client (create_plain 1 0 600) _ hrun
    (by decide) (by decide) 0 c hc hopen ⟨"10.0.0.3", 9⟩ [255, 0, 1] [[7]]
  exact ⟨client, after, hrun, hafter⟩

/-- One connection, which expires: the mark stays. -/
theorem mark_stays_after_expiry : ∃ client,
    (machine (plainSetup 1 1 0)).run (plainStart 1)
      [.accepted false (plainDial 1 1 0 [⟨7, by decide⟩]), .elapsed 1000000000,
        .scavenged 0 false] = some client ∧
    client.established = 0 ∧ client.mark = 1 ∧ ∃ past passed,
      (machine (plainSetup 1 1 0)).run (plainStart 1) past = some passed ∧
        passed.established = client.mark := by
  have hview : ((machine (plainSetup 1 1 0)).run (plainStart 1)
      [.accepted false (plainDial 1 1 0 [⟨7, by decide⟩]), .elapsed 1000000000,
        .scavenged 0 false]).map (fun client => (client.established, client.mark)) =
      some (0, 1) := by decide +kernel
  obtain ⟨client, hrun, hnumbers⟩ := Option.map_eq_some_iff.mp hview
  obtain ⟨hestablished, hmark⟩ := Prod.mk.inj hnumbers
  obtain ⟨past, later, passed, -, hpast, hpeak⟩ :=
    (maxConn_peak _ _ _ _ client (create_plain 1 1 0) _ hrun).2
  exact ⟨client, hrun, hestablished, hmark, past, passed, hpast, hpeak⟩

end Client

end Shimakaze
