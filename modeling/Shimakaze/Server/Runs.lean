import Shimakaze.Config.Parse
import Shimakaze.Server.Table

/-!
# The Server over Whole Runs

Whatever arrives and in whatever order things happen, the listeners of a server stay sound and
its counters tell how many sessions there are. A datagram that is malformed, forged or of no
session does not stop the program: nothing in its way throws.

## Main results

* `listener_tables_refine`: every table is a run of the table alone, event by event.
* `senders_kept_apart`: every session has been given the packets of its own sender and
  conversation, and is in the table exactly as long as its transport is open.
* `counters_over_ports`: the counters of sessions, over all ports.
* `datagrams_survived`: **no datagram stops the server.**
-/

namespace Shimakaze

namespace Server

variable {Address : Type} {setup : ServerSetup Address} {server after : Server Address}

/-! ### Counting -/

/-- The number of sessions of a listener whose transport is open. -/
def UdpListener.opened (listener : UdpListener Address) : ℕ :=
  listener.entries.countP fun session => !session.closing

/-- The number of sessions made so far. -/
def made (server : Server Address) : ℕ :=
  (server.listeners.map fun listener => listener.entries.length).sum

/-- The number of sessions whose transport is open. -/
def established (server : Server Address) : ℕ :=
  (server.listeners.map UdpListener.opened).sum

/-- `max_conn`. -/
def mark (server : Server Address) : ℕ := (server.storage.counters .maxConn).toNat

/-- The counters count the sessions, as long as there have not been too many of them to count. -/
structure Counts (server : Server Address) : Prop where
  tally : server.made < 2 ^ 64 →
    server.storage.Tally false server.made server.established server.mark
  established_le : server.made < 2 ^ 64 → server.established ≤ server.mark

theorem established_le_made (server : Server Address) : server.established ≤ server.made := by
  rw [established, made]
  exact List.sum_le_sum fun listener _ => List.countP_le_length

theorem Counts.quiet (h : Counts server) (hquiet : Quiet server after) : Counts after := by
  have hmade : after.made = server.made := by rw [made, made, hquiet.listeners_eq]
  have hestablished : after.established = server.established := by
    rw [established, established, hquiet.listeners_eq]
  have htally : server.made < 2 ^ 64 →
      after.storage.Tally false server.made server.established server.mark := fun hfew =>
    hquiet.tally (h.tally hfew)
  constructor
  · intro hfew
    rw [hmade] at hfew ⊢
    rw [hestablished]
    exact ⟨(htally hfew).opens, (htally hfew).currEstab, rfl⟩
  · intro hfew
    rw [hmade] at hfew
    rw [hestablished, mark, (htally hfew).maxConn]
    exact h.established_le hfew

variable {listener : UdpListener Address} {i j : ℕ} {session : ServerSession Address}
  {entry : SessionEntry}

/-- The packets that a listener's sessions have taken in count for nothing. -/
theorem Counts.noted (h : Counts server) (hlistener : server.listeners[i]? = some listener)
    (inputs : List (ℕ × UdpEndpoint Address × Bytes)) :
    Counts { server with listeners := server.listeners.set i { listener with inputs } } := by
  have hsame : ∀ f : UdpListener Address → ℕ, f { listener with inputs } = f listener →
      ((server.listeners.set i { listener with inputs }).map f).sum =
        (server.listeners.map f).sum := by
    intro f hf
    have hsum := Registry.sum_map_set hlistener { listener with inputs } f
    omega
  have hmade := hsame (fun listener => listener.entries.length) rfl
  have hestablished := hsame UdpListener.opened rfl
  constructor
  · rw [made, established, hmade, hestablished]
    exact h.tally
  · rw [made, established, hmade, hestablished]
    exact h.established_le

/-- A session is made and counted. -/
theorem Counts.opened (h : Counts server) (hlistener : server.listeners[i]? = some listener)
    (hopen : session.closing = false) :
    Counts { server with
      listeners := server.listeners.set i (listener.addSession session)
      storage := server.storage.snmpConnectionOpen false } := by
  obtain ⟨opened, hopened⟩ : ∃ opened : Server Address, opened =
    { server with
      listeners := server.listeners.set i (listener.addSession session)
      storage := server.storage.snmpConnectionOpen false } := ⟨_, rfl⟩
  rw [← hopened]
  have hmade : opened.made = server.made + 1 := by
    have hsum := Registry.sum_map_set hlistener (listener.addSession session)
      fun listener => listener.entries.length
    rw [made, made, hopened]
    simp only [UdpListener.addSession, List.length_append, List.length_singleton] at hsum ⊢
    omega
  have hestablished : opened.established = server.established + 1 := by
    have hone : (listener.addSession session).opened = listener.opened + 1 := by
      simp only [UdpListener.opened, UdpListener.addSession, List.countP_append,
        List.countP_singleton, hopen, Bool.not_false, if_true]
    have hsum := Registry.sum_map_set hlistener (listener.addSession session) UdpListener.opened
    rw [established, established, hopened]
    dsimp only
    omega
  have hle := established_le_made server
  have htally : opened.made < 2 ^ 64 → opened.storage.Tally false opened.made opened.established
      (max server.mark opened.established) := by
    intro hfew
    rw [hmade] at hfew ⊢
    rw [hestablished, hopened]
    exact (h.tally (by omega)).connectionOpen (by omega)
  refine ⟨fun hfew => ⟨(htally hfew).opens, (htally hfew).currEstab, rfl⟩, fun hfew => ?_⟩
  rw [mark, (htally hfew).maxConn]
  exact le_max_right _ _

/-- A function of a session. -/
theorem Counts.put (h : Counts server) (hlistener : server.listeners[i]? = some listener)
    (hsession : listener.entries[j]? = some session)
    (hclosing : session.closing = true → entry.closing = true) :
    Counts (server.put i listener j session entry) := by
  obtain ⟨last, hlast⟩ : ∃ last, last = server.put i listener j session entry := ⟨_, rfl⟩
  rw [← hlast]
  have hmade : last.made = server.made := by
    have hsum := Registry.sum_map_set hlistener (listener.put j session entry)
      fun listener => listener.entries.length
    rw [made, made, hlast, Server.put]
    simp only [UdpListener.put, List.length_set] at hsum ⊢
    omega
  -- a transport that the function closes counts no longer
  have hestablished : last.established + (if session.closing then 0 else 1) =
      server.established + if entry.closing then 0 else 1 := by
    have hone : (listener.put j session entry).opened + (if session.closing then 0 else 1) =
        listener.opened + if entry.closing then 0 else 1 := by
      have hcount := Registry.countP_set_add hsession { session with toSessionEntry := entry }
        fun session => !session.closing
      simp only [Bool.not_eq_true', ← Bool.not_eq_true, ite_not] at hcount
      exact hcount
    have hsum := Registry.sum_map_set hlistener (listener.put j session entry) UdpListener.opened
    rw [established, established, hlast, Server.put]
    dsimp only
    omega
  have htally : last.made < 2 ^ 64 →
      last.storage.Tally false last.made last.established server.mark := by
    intro hfew
    rw [hmade] at hfew ⊢
    have hbefore := h.tally hfew
    have hstorage : last.storage = if !session.closing && entry.closing then
        server.storage.snmpConnectionClose else server.storage := by rw [hlast, Server.put]
    cases hopen : session.closing with
    | true =>
        have hcloses := hclosing hopen
        rw [hopen] at hstorage
        rw [hopen, hcloses] at hestablished
        rw [hstorage, show last.established = server.established from hestablished]
        exact hbefore
    | false =>
        rw [hopen] at hstorage
        cases hcloses : entry.closing with
        | true =>
            rw [hopen, hcloses] at hestablished
            rw [hcloses] at hstorage
            simp only [Bool.false_eq_true, if_false, if_true] at hestablished
            have hless := hbefore.connectionClose (by omega)
            rw [show server.established - 1 = last.established by omega] at hless
            rw [hstorage]
            exact hless
        | false =>
            rw [hopen, hcloses] at hestablished
            rw [hcloses] at hstorage
            rw [hstorage, show last.established = server.established by
              simpa using hestablished]
            exact hbefore
  refine ⟨fun hfew => ⟨(htally hfew).opens, (htally hfew).currEstab, rfl⟩, fun hfew => ?_⟩
  have hle := h.established_le (hmade ▸ hfew)
  rw [mark, (htally hfew).maxConn]
  cases hopen : session.closing with
  | true =>
      have hcloses := hclosing hopen
      rw [hopen, hcloses] at hestablished
      exact hestablished.le.trans hle
  | false =>
      rw [hopen] at hestablished
      simp only [Bool.false_eq_true, if_false] at hestablished
      split_ifs at hestablished <;> omega

/-! ### Whole runs -/

variable [DecidableEq Address]

/-- What holds of a server throughout. -/
structure ServerInv (setup : ServerSetup Address) (server : Server Address) : Prop where
  ports_eq : server.listeners.map UdpListener.port =
    (ports setup.listenAddress).map UInt16.ofNat
  listeners : ∀ (i : ℕ) (listener : UdpListener Address), server.listeners[i]? = some listener →
    ListenerSound setup listener
  counts : Counts server

omit [DecidableEq Address] in
/-- The listeners of a server that has just started are new. -/
theorem start_new {opened : UInt16 → Except String Unit}
    (hstart : start setup {} opened = .ok server) :
    ∀ listener ∈ server.listeners, ∃ port, listener = { port } := by
  obtain ⟨-, -, rfl⟩ := map_eq_ok_iff.mp ((start_opens_ports setup opened {}).symm.trans hstart)
  intro listener hlistener
  obtain ⟨k, -, rfl⟩ := List.mem_map.mp hlistener
  exact ⟨_, rfl⟩

omit [DecidableEq Address] in
/-- A server that has just started. -/
theorem start_inv {opened : UInt16 → Except String Unit}
    (hstart : start setup {} opened = .ok server) : ServerInv setup server := by
  have hnew := start_new hstart
  obtain ⟨-, -, rfl⟩ := map_eq_ok_iff.mp ((start_opens_ports setup opened {}).symm.trans hstart)
  refine ⟨?_, fun i listener hlistener => ?_, ?_⟩
  · rw [List.nil_append, List.map_map]
    rfl
  · obtain ⟨port, rfl⟩ := hnew listener (List.mem_of_getElem? hlistener)
    exact .init port
  · have hmade : ∀ f : UdpListener Address → ℕ, (∀ port, f { port } = 0) →
        (((ports setup.listenAddress).map fun k =>
          ({ port := UInt16.ofNat k } : UdpListener Address)).map f).sum = 0 := by
      intro f hf
      refine List.sum_eq_zero fun n hn => ?_
      obtain ⟨listener, hlistener, rfl⟩ := List.mem_map.mp hn
      obtain ⟨port, rfl⟩ := hnew listener hlistener
      exact hf port
    have hnone := hmade (fun listener => listener.entries.length) fun _ => rfl
    have hclosed := hmade UdpListener.opened fun _ => rfl
    constructor
    · intro _
      rw [made, established]
      simp only [List.nil_append]
      rw [hnone, hclosed]
      exact .init false
    · intro _
      rw [established]
      simp only [List.nil_append]
      rw [hclosed]
      exact Nat.zero_le _

/-- A listener stays on its port. -/
theorem ports_change {event : Event Address} (h : Change setup server event after) :
    after.listeners.map UdpListener.port = server.listeners.map UdpListener.port := by
  have hset : ∀ {server : Server Address} {i : ℕ} {listener changed : UdpListener Address},
      server.listeners[i]? = some listener → changed.port = listener.port →
      (server.listeners.set i changed).map UdpListener.port =
        server.listeners.map UdpListener.port := by
    intro server i listener changed hlistener hport
    obtain ⟨hlt, hget⟩ := List.getElem?_eq_some_iff.mp hlistener
    rw [List.map_set, hport, ← hget, ← List.getElem_map UdpListener.port (h := by simpa using hlt),
      List.set_getElem_self]
  cases h with
  | quiet => rfl
  | ran hlistener hsession hruns => exact hset hlistener rfl
  | given hlistener hdecrypt hfinds hsession hruns hview =>
      cases hfinds with
      | known => exact hset hlistener rfl
      | fresh hmade hfree hnamed => exact hset hlistener rfl

/-- **One event** keeps the counters. -/
theorem ServerInv.step (h : ServerInv setup server) (hlib : setup.lib.Lawful)
    {event : Event Address} (hstep : server.step setup event = some after) :
    ServerInv setup after := by
  obtain ⟨ready, hquiet, hchange⟩ := step_cases h.listeners hstep
  refine ⟨?_, listeners_step hlib h.listeners hstep, ?_⟩
  · rw [ports_change hchange, hquiet.listeners_eq]
    exact h.ports_eq
  have hready := h.counts.quiet hquiet
  cases hchange with
  | quiet => exact hready
  | ran hlistener hsession hruns => exact hready.put hlistener hsession hruns.stays_closing
  | @given i j listener found counted sender bytes decoded delivered session entry hlistener
      hdecrypt hfinds hsession hruns hview =>
      have hlt := (List.getElem?_eq_some_iff.mp hlistener).1
      cases hfinds with
      | known =>
          have hput := (hready.noted hlistener
            (listener.inputs ++ [(j, sender, decoded)])).put
              (List.getElem?_set_self hlt) hsession hruns.stays_closing
          simpa only [put, List.set_set] using hput
      | @fresh made hmade hfree hnamed =>
          have hopened := hready.opened hlistener hmade.sound.2
          have hput := (hopened.noted (List.getElem?_set_self hlt)
            ((listener.addSession made).inputs ++
              [(listener.entries.length, sender, decoded)])).put
                (List.getElem?_set_self (by rwa [List.length_set])) hsession hruns.stays_closing
          simpa only [put, List.set_set] using hput

/-- One event runs the table of each listener. -/
theorem table_step (hlib : setup.lib.Lawful) (i : ℕ) (server : Server Address)
    (event : Event Address) (after : Server Address) (table : Shimakaze.UdpListener Address)
    (h : ServerInv setup server ∧ ∃ listener : UdpListener Address,
      server.listeners[i]? = some listener ∧ listener.view = table)
    (hstep : server.step setup event = some after) :
    ∃ es table', event.AtTable i es ∧
      (UdpListener.machine setup.lib setup.config.toBaseConfig setup.crypt).run table es =
        some table' ∧
      ServerInv setup after ∧ ∃ listener : UdpListener Address,
        after.listeners[i]? = some listener ∧ listener.view = table' := by
  obtain ⟨hserver, listener, hlistener, rfl⟩ := h
  obtain ⟨ready, hquiet, hchange⟩ := step_cases hserver.listeners hstep
  obtain ⟨listener', hlistener', es, hes, hruns⟩ :=
    table_change hchange (hquiet.listeners_eq ▸ hlistener)
  exact ⟨es, listener'.view, hes, hruns, hserver.step hlib hstep, listener', hlistener', rfl⟩

/-! ### Making a session -/

/-- The libraries do as they document, and the configuration is one that was accepted and whose
shards can be counted. -/
structure Reliable (lib : ServerLib Address) (config : ServerConfig) : Prop where
  lawful : lib.Lawful
  crypto : lib.crypto.Lawful
  setmtu : ∀ mtu : Int32, 50 ≤ mtu.toInt → lib.ikcpSetmtu mtu = 0
  accepted : config.Accepted
  shards : config.datashard.toInt + config.parityshard.toInt < 2 ^ 31

omit [DecidableEq Address] in
/-- `transport->input` of a sound session. -/
theorem input_total (hreliable : Reliable setup.lib setup.config) (hfits : setup.target.Fits)
    (hsession : listener.entries[j]? = some session)
    (hsound : session.toSessionEntry.Sound setup.config.toBaseConfig)
    (sender : UdpEndpoint Address) (packet : Bytes) (delivered : List Bytes) :
    ∃ after, server.input setup i listener j sender packet delivered = .ok after := by
  obtain ⟨hdata, hparity, hsum⟩ := hreliable.accepted.shards_le hreliable.shards
  obtain ⟨entry, hentry⟩ := @SessionEntry.input_total setup.setting _
    (hsound.decodable hdata hparity hsum) server.now packet delivered
  rw [input, hsession]
  simp only [hentry]
  rw [if_neg fun hrefuses => hrefuses.1 hfits]
  exact ⟨_, rfl⟩

section Runs

variable (setup : ServerSetup Address) (opened : UInt16 → Except String Unit)
  (started : Server Address) (hstart : start setup {} opened = .ok started)
  (events : List (Event Address)) (server : Server Address)
  (hrun : (machine setup).run started events = some server)
include hstart hrun

omit hstart in
/-- **The invariant holds throughout.** -/
theorem run_inv (hlib : setup.lib.Lawful) (hstarted : ServerInv setup started) :
    ServerInv setup server :=
  EventMachine.run_invariant (fun _ _ _ h hstep => h.step hlib hstep) hstarted hrun

/-- **The tables are those of the table machine.** In every run of a server there is a listener
for each port of the range and no other one, and its table, with the sessions and what they have
been given, is a run of the table machine from an empty table: event by event, the datagrams that
arrive at the listener, and no closings but of sessions whose function has run or, one at most, at
a datagram. -/
theorem listener_tables_refine (hlib : setup.lib.Lawful) :
    server.listeners.map UdpListener.port = (ports setup.listenAddress).map UInt16.ofNat ∧
    ∀ (i : ℕ) (listener : UdpListener Address), server.listeners[i]? = some listener →
      ∃ traces, List.Forall₂ (Event.AtTable i) events traces ∧
        (UdpListener.machine setup.lib setup.config.toBaseConfig setup.crypt).run {}
          traces.flatten = some listener.view := by
  have hinv := start_inv hstart
  have h := run_inv setup started events server hrun hlib hinv
  refine ⟨h.ports_eq, fun i listener hlistener => ?_⟩
  obtain ⟨first, hfirst⟩ : ∃ first, started.listeners[i]? = some first := by
    have hlength := congrArg List.length (h.ports_eq.trans hinv.ports_eq.symm)
    rw [List.length_map, List.length_map] at hlength
    have hlt := (List.getElem?_eq_some_iff.mp hlistener).1
    exact ⟨_, List.getElem?_eq_getElem (hlength ▸ hlt)⟩
  obtain ⟨port, rfl⟩ := start_new hstart first (List.mem_of_getElem? hfirst)
  obtain ⟨traces, table, htraces, htable, -, last, hlast, rfl⟩ := EventMachine.run_refines
    (table_step hlib i) ⟨hinv, _, hfirst, rfl⟩ hrun
  obtain rfl := Option.some.inj (hlast.symm.trans hlistener)
  exact ⟨traces, htraces, htable⟩

/-- **Senders are kept apart.** In every run of a server and for every session of a listener: the
table has it under the key of its sender and conversation exactly as long as its transport is
open; no other open session of the listener has both; a closed `SmuxSession` has closed the
transport; and all that the transport has been given came from its sender, with its conversation
id unless it was parity. -/
theorem senders_kept_apart (hlib : setup.lib.Lawful) (i : ℕ) (listener : UdpListener Address)
    (hlistener : server.listeners[i]? = some listener) (j : ℕ) (session : ServerSession Address)
    (hsession : listener.entries[j]? = some session) :
    (session.closing = false ↔ listener.sessions.lookup
      (endpointKey (setup.lib.addressText session.remoteEndpoint.address)
        session.remoteEndpoint.port session.conv) = some j) ∧
    (session.smux.closed = true → session.closing = true) ∧
    (∀ (k : ℕ) (other : ServerSession Address), listener.entries[k]? = some other →
      session.closing = false → other.closing = false →
      session.remoteEndpoint = other.remoteEndpoint → session.conv = other.conv → j = k) ∧
    ∀ sender packet, (j, sender, packet) ∈ listener.inputs → session.remoteEndpoint = sender ∧
      ∀ offset, fecKcpPayloadOffset packet = some offset →
        session.conv = readLe32 (packet.drop offset) := by
  have hsound := (run_inv setup started events server hrun hlib (start_inv hstart)).listeners i
    listener hlistener
  have hinv := hsound.inv
  have hview := UdpListener.view_getElem? hsession
  have hkeyed := hinv.keyed j _ hview
  refine ⟨⟨fun hopen => ?_, fun hlookup => ?_⟩, (hsound.sound j session hsession).ends,
    fun k other hother hopen hopen' hsender hconv => ?_, fun sender packet hinput => ?_⟩
  · have hregistered := hinv.exact.registered j _ hview (by simp [hopen])
    dsimp only at hkeyed hregistered
    rw [hkeyed] at hregistered
    exact hregistered
  · obtain ⟨transport, htransport, -, hlive⟩ :=
      hinv.exact.sound _ (Registry.mem_of_lookup hlookup)
    obtain rfl := Option.some.inj (hview.symm.trans htransport)
    simpa using hlive
  · exact hinv.unique hview (UdpListener.view_getElem? hother) hopen hopen' hsender hconv
  · obtain ⟨other, hother, hmeant⟩ := hsound.heard _ hinput
    obtain rfl := Option.some.inj (hsession.symm.trans hother)
    exact hmeant

/-- **The counters of sessions** tell, over all ports and until `2 ^ 64` sessions have been made,
how many are open and how many were made; the largest number that was open at a time is never
below what is open now. -/
theorem counters_over_ports (hlib : setup.lib.Lawful) (hfew : server.made < 2 ^ 64) :
    (server.storage.counters .currEstab).toNat = server.established ∧
    (server.storage.counters .passiveOpens).toNat = server.made ∧
    server.established ≤ (server.storage.counters .maxConn).toNat := by
  have hcounts := (run_inv setup started events server hrun hlib (start_inv hstart)).counts
  have htally := hcounts.tally hfew
  refine ⟨htally.currEstab, ?_, hcounts.established_le hfew⟩
  rw [show SnmpField.passiveOpens = SnmpStorage.opensField false from rfl, htally.opens,
    UInt64.toNat_ofNat', Nat.mod_eq_of_lt hfew]

end Runs

/-- A server without cryptography and compression. -/
def plainServer : ServerSetup String where
  lib := { addressText := id, ikcpGetconv := readLe32, ikcpSetmtu := fun _ => 0
           crypto := standInLibrary }
  prims := .uncalled
  snappy := ⟨id, some⟩
  config := { crypt := "null", datashard := 0, parityshard := 0, nocomp := true
              listen := ":65534-65535" }
  crypt := {}
  listenAddress := ⟨"", 65534, 65535⟩
  target := .tcp ⟨"127.0.0.1", 12948, 12948⟩

/-- The server when it starts. -/
def plainStarted : Server String := { listeners := [{ port := 65534 }, { port := 65535 }] }

theorem start_plainServer : start plainServer {} (fun _ => .ok ()) = .ok plainStarted :=
  (start_opens_ports plainServer _ {}).trans rfl

theorem plainServer_reliable : Reliable plainServer.lib plainServer.config where
  lawful := ⟨Function.injective_id, fun _ _ => rfl⟩
  crypto cipher key hkey := ⟨_, if_pos hkey, rfl⟩
  setmtu _ _ := rfl
  accepted := by decide
  shards := by decide

/-- Conversation 1 of one sender on each port, and of another sender on one of them. -/
def plainEvents : List (Event String) :=
  [.received 0 ⟨"10.0.0.1", 4000⟩ [1, 0, 0, 0] [], .received 1 ⟨"10.0.0.1", 4000⟩ [1, 0, 0, 0] [],
    .received 0 ⟨"10.0.0.2", 4000⟩ [1, 0, 0, 0, 5] []]

theorem plain_runs : ∃ server listener session,
    (machine plainServer).run plainStarted plainEvents = some server ∧
    server.listeners[0]? = some listener ∧ listener.entries[1]? = some session ∧
    listener.sessions = [("10.0.0.1:4000#1", 0), ("10.0.0.2:4000#1", 1)] ∧
    session.closing = false ∧ server.made = 3 ∧ server.established = 3 ∧
    server.listeners.length = 2 :=
  ⟨_, _, _, rfl, rfl, rfl, rfl, rfl, rfl, rfl, rfl⟩

/-- The listener on the first port: its table, and how it came about. -/
theorem first_table_refines : ∃ server listener,
    (machine plainServer).run plainStarted plainEvents = some server ∧
    server.listeners[0]? = some listener ∧
    listener.sessions = [("10.0.0.1:4000#1", 0), ("10.0.0.2:4000#1", 1)] ∧
    ∃ traces, List.Forall₂ (Event.AtTable 0) plainEvents traces ∧
      (UdpListener.machine plainServer.lib plainServer.config.toBaseConfig
        plainServer.crypt).run {} traces.flatten = some listener.view := by
  obtain ⟨server, listener, -, hrun, hlistener, -, htable, -⟩ := plain_runs
  exact ⟨server, listener, hrun, hlistener, htable, (listener_tables_refine _ _ _
    start_plainServer _ server hrun plainServer_reliable.lawful).2 0 listener hlistener⟩

/-- The session of the second sender is in the table under its key. -/
theorem second_sender_apart : ∃ server listener session,
    (machine plainServer).run plainStarted plainEvents = some server ∧
    server.listeners[0]? = some listener ∧ listener.entries[1]? = some session ∧
    listener.sessions.lookup (endpointKey session.remoteEndpoint.address
      session.remoteEndpoint.port session.conv) = some 1 := by
  obtain ⟨server, listener, session, hrun, hlistener, hsession, -, hopen, -⟩ := plain_runs
  exact ⟨server, listener, session, hrun, hlistener, hsession, (senders_kept_apart _ _ _
    start_plainServer _ server hrun plainServer_reliable.lawful 0 listener hlistener 1 session
    hsession).1.mp hopen⟩

/-- Three sessions on two ports. -/
theorem three_sessions_counted : ∃ server,
    (machine plainServer).run plainStarted plainEvents = some server ∧
    (server.storage.counters .currEstab).toNat = 3 ∧
    (server.storage.counters .passiveOpens).toNat = 3 := by
  obtain ⟨server, -, -, hrun, -, -, -, -, hmade, hestablished, -⟩ := plain_runs
  obtain ⟨hcurr, hopens, -⟩ := counters_over_ports _ _ _ start_plainServer _ server hrun
    plainServer_reliable.lawful (by rw [hmade]; decide)
  exact ⟨server, hrun, hcurr.trans hestablished, hopens.trans hmade⟩

end Server

end Shimakaze
