import Shimakaze.Client.Table
import Shimakaze.Lib.Part
import Shimakaze.Server.Runs

/-!
# The Sessions of Two Running Programs

A client and a server run side by side. To each of them a session is a part that it makes, feeds
and drives among many others. Here every session is taken out of its program again: in every run
of both programs it has gone through inputs of a session alone, and its transport through events
of a transport alone, with exactly the packets that its program has passed to it. So whatever
holds of a session or a transport alone holds inside the programs.

## Main results

* `Client.session_grows`, `Server.session_grows`: what one event of a program does to one session.
* `Deployment.sessions_alone`: **the sessions of the programs run by their own rules.**
-/

namespace Shimakaze

open EventMachine (Grows Stands)

variable {Address : Type}

/-! ### The client -/

namespace Client

variable {setup : ClientSetup} {client made after : Client Address}

/-- A connection of the client, if it has been made. -/
def session (client : Client Address) (i : ℕ) : Option (SessionEntry × List Bytes) :=
  client.connections[i]?.map fun c => (c.toSessionEntry, c.packets)

/-- What may become of a connection. -/
def SessionGrows (setup : ClientSetup) :
    Option (SessionEntry × List Bytes) → Option (SessionEntry × List Bytes) → Prop :=
  Grows (SessionEntry.New setup.lib.crypto setup.lib.ikcpSetmtu setup.setting true none)
    (SessionEntry.Continues setup.lib.crypto setup.setting)

theorem SessionGrows.refl (held : Option (SessionEntry × List Bytes)) :
    SessionGrows setup held held := Grows.refl SessionEntry.Continues.refl held

/-- What a connection may be: before it is made, any that the client might make. -/
def SessionStands (setup : ClientSetup) :
    Option (SessionEntry × List Bytes) → SessionEntry × List Bytes → Prop :=
  Stands (SessionEntry.New setup.lib.crypto setup.lib.ikcpSetmtu setup.setting true none)

theorem session_eq {i : ℕ} {c : Connection Address} (hc : client.connections[i]? = some c) :
    client.session i = some (c.toSessionEntry, c.packets) := by
  rw [session, hc]
  rfl

/-- One function of a connection. -/
theorem session_put {i : ℕ} {c c' : Connection Address}
    (hc : client.connections[i]? = some c) (hlogs : c.Logs setup c') (k : ℕ) :
    SessionGrows setup (client.session k) ((client.put i c c').session k) := by
  rw [session, session, put_connections, Option.map_eq_bind, Option.map_eq_bind]
  obtain ⟨packets, hruns, hpackets⟩ := hlogs
  exact Grows.set SessionEntry.Continues.refl hc (.ran ⟨packets, hruns, hpackets⟩) k

/-- A connection is made. -/
theorem session_registers (h : Registers setup client made) (k : ℕ) :
    SessionGrows setup (client.session k) (made.session k) := by
  obtain ⟨conv, remote, transport, smux, dial, index, now, -, -, -, hcreate, hlaunch, -, -, rfl⟩ :=
    h
  rw [session, session]
  dsimp only
  rw [register_connections, Option.map_eq_bind, Option.map_eq_bind]
  have hnew : SessionEntry.New setup.lib.crypto setup.lib.ikcpSetmtu setup.setting true none
      ({ transport := { transport }, smux }, []) :=
    ⟨⟨transport, smux, now, rfl, hcreate, hlaunch⟩, rfl⟩
  exact Grows.concat SessionEntry.Continues.refl fun _ => .made hnew (.refl _)

variable [DecidableEq Address]

/-- One change. -/
theorem session_change {calm : Prop} (h : Change setup calm client after) (k : ℕ) :
    SessionGrows setup (client.session k) (after.session k) := by
  cases h with
  | quiet hquiet =>
      rw [session, session, hquiet.connections_eq]
      exact .refl _
  | put hc hhandles => exact session_put hc hhandles.entry k
  | @opened i c smux hc hhandles hopen hage =>
      have hlogs : c.Logs setup { c.withEntry (c.withSmux smux) with
        opened := c.opened ++ [client.now] } := hhandles.entry
      exact session_put hc hlogs k
  | @scavenged position i deadline htimer hdue =>
      rw [scavenge]
      dsimp only
      rw [if_neg Bool.false_ne_true]
      cases hc : client.connections[i]? with
      | none => exact .refl _
      | some c =>
          obtain ⟨erased, herased⟩ : ∃ erased : Client Address, erased =
            { client with scavengeTimers := client.scavengeTimers.eraseIdx position } := ⟨_, rfl⟩
          have hsame : client.session k = erased.session k := by rw [herased]; rfl
          rw [← herased, hsame]
          exact session_put (herased ▸ hc) (close_handles c).entry k
  | cancelled hcancels => exact .refl _

/-- **What an event does to one connection.** -/
theorem session_grows (h : Regular setup client) {event : Event Address setup.remoteAddress}
    (hstep : client.step setup event = some after) (k : ℕ) :
    SessionGrows setup (client.session k) (after.session k) := by
  obtain ⟨ready, hquiet, hchange | ⟨made, hmade, hchange, -⟩⟩ := step_cases h hstep
  · have hready : ready.session k = client.session k := by
      rw [session, hquiet.connections_eq, session]
    exact hready ▸ session_change hchange k
  · have hready : ready.session k = client.session k := by
      rw [session, hquiet.connections_eq, session]
    rw [← hready]
    exact (session_registers hmade k).trans SessionEntry.Continues.trans (session_change hchange k)

end Client

/-! ### The server -/

namespace Server

variable {setup : ServerSetup Address} {server after : Server Address}
  {listener found : UdpListener Address} {i j : ℕ} {entry : SessionEntry}

/-- What may become of a session. -/
def SessionGrows (setup : ServerSetup Address) :
    Option (SessionEntry × List Bytes) → Option (SessionEntry × List Bytes) → Prop :=
  Grows (SessionEntry.New setup.lib.crypto setup.lib.ikcpSetmtu setup.setting false
    (some setup.target.start)) (SessionEntry.Continues setup.lib.crypto setup.setting)

theorem SessionGrows.refl (held : Option (SessionEntry × List Bytes)) :
    SessionGrows setup held held := Grows.refl SessionEntry.Continues.refl held

/-- What a session may be: before it is made, any that the server might make. -/
def SessionStands (setup : ServerSetup Address) :
    Option (SessionEntry × List Bytes) → SessionEntry × List Bytes → Prop :=
  Stands (SessionEntry.New setup.lib.crypto setup.lib.ikcpSetmtu setup.setting false
    (some setup.target.start))

namespace UdpListener

/-- What a listener has passed to the transport of one of its sessions. -/
def packets (listener : UdpListener Address) (j : ℕ) : List Bytes :=
  listener.inputs.filterMap fun input => if input.1 = j then some input.2.2 else none

/-- A session of a listener, if it has been made. -/
def session (listener : UdpListener Address) (j : ℕ) : Option (SessionEntry × List Bytes) :=
  listener.entries[j]?.map fun session => (session.toSessionEntry, listener.packets j)

/-- A function of a session that takes in nothing. -/
theorem session_put {session : ServerSession Address}
    (hsession : listener.entries[j]? = some session)
    (hruns : session.toSessionEntry.Runs setup.lib.crypto setup.setting [] entry) (k : ℕ) :
    SessionGrows setup (listener.session k) ((listener.put j session entry).session k) := by
  have hpackets : (listener.put j session entry).packets k = listener.packets k := rfl
  rw [UdpListener.session, UdpListener.session, hpackets, put]
  rw [Option.map_eq_bind, Option.map_eq_bind]
  exact Grows.set SessionEntry.Continues.refl hsession
    (.ran ⟨[], hruns, (List.append_nil _).symm⟩) k

/-- A session takes in a packet. -/
theorem session_given {session : ServerSession Address} {sender : UdpEndpoint Address}
    {decoded : Bytes} (hsession : found.entries[j]? = some session)
    (hruns : session.toSessionEntry.Runs setup.lib.crypto setup.setting [decoded] entry) (k : ℕ) :
    SessionGrows setup (found.session k)
      ((UdpListener.put { found with inputs := found.inputs ++ [(j, sender, decoded)] } j session
        entry).session k) := by
  have hpackets : (UdpListener.put { found with inputs := found.inputs ++ [(j, sender, decoded)] } j
      session entry).packets k = found.packets k ++ if j = k then [decoded] else [] := by
    simp only [packets, put, List.filterMap_append, List.filterMap_cons, List.filterMap_nil]
    split_ifs <;> rfl
  rw [UdpListener.session, UdpListener.session, hpackets, put]
  dsimp only
  by_cases hsame : k = j
  · rw [hsame, if_pos rfl, hsession,
      List.getElem?_set_self (List.getElem?_eq_some_iff.mp hsession).1]
    exact .ran ⟨[decoded], hruns, rfl⟩
  · rw [if_neg (Ne.symm hsame), List.append_nil, List.getElem?_set_ne (Ne.symm hsame)]
    exact .refl _

end UdpListener

variable [DecidableEq Address]

omit [DecidableEq Address] in
/-- A session is found, and made if need be. -/
theorem session_finds (h : ListenerSound setup listener) {decoded : Bytes}
    {counted : Server Address}
    (hfinds : Finds setup server listener decoded j counted found) (k : ℕ) :
    SessionGrows setup (listener.session k) (found.session k) := by
  cases hfinds with
  | known => exact .refl _
  | @fresh session hmade hfree hnamed =>
      have hpackets : (listener.addSession session).packets k = listener.packets k := rfl
      rw [UdpListener.session, UdpListener.session, hpackets, UdpListener.addSession]
      rw [Option.map_eq_bind, Option.map_eq_bind]
      refine Grows.concat SessionEntry.Continues.refl ?_
      rintro rfl
      -- nothing has been passed to a session that did not exist
      have hnone : listener.packets listener.entries.length = [] := by
        refine List.filterMap_eq_nil_iff.mpr fun input hinput => if_neg fun hsame => ?_
        obtain ⟨other, hother, -⟩ := h.heard input hinput
        exact absurd (List.getElem?_eq_some_iff.mp hother).1 (by omega)
      have hnew : SessionEntry.New setup.lib.crypto setup.lib.ikcpSetmtu setup.setting false
          (some setup.target.start) (session.toSessionEntry, []) := ⟨hmade.started, rfl⟩
      dsimp only [Function.comp]
      rw [hnone]
      exact .made hnew (.refl _)

/-- A session of the server, if it has been made. -/
def session (server : Server Address) (i j : ℕ) : Option (SessionEntry × List Bytes) :=
  server.listeners[i]?.bind fun listener => listener.session j

omit [DecidableEq Address] in
theorem session_eq {session : ServerSession Address}
    (hlistener : server.listeners[i]? = some listener)
    (hsession : listener.entries[j]? = some session) :
    server.session i j = some (session.toSessionEntry, listener.packets j) := by
  rw [Server.session, hlistener, Option.bind_some, UdpListener.session, hsession]
  rfl

omit [DecidableEq Address] in
/-- A listener goes on. -/
theorem session_set (hlistener : server.listeners[i]? = some listener)
    {changed : UdpListener Address}
    (h : ∀ k, SessionGrows setup (listener.session k) (changed.session k)) (k l : ℕ) :
    SessionGrows setup (server.session k l)
      ((server.listeners.set i changed)[k]?.bind fun listener => listener.session l) := by
  rw [session, SessionGrows]
  refine Grows.set SessionEntry.Continues.refl hlistener ?_ k
  exact h l

/-- **What an event does to one session.** -/
theorem session_grows (h : ServerInv setup server) {event : Event Address}
    (hstep : server.step setup event = some after) (k l : ℕ) :
    SessionGrows setup (server.session k l) (after.session k l) := by
  obtain ⟨ready, hquiet, hchange⟩ := step_cases h.listeners hstep
  have hready : ready.session k l = server.session k l := by
    rw [session, hquiet.listeners_eq, session]
  have hsound : ∀ (i : ℕ) (listener : UdpListener Address), ready.listeners[i]? = some listener →
      ListenerSound setup listener := by
    rw [hquiet.listeners_eq]
    exact h.listeners
  rw [← hready]
  cases hchange with
  | quiet => exact .refl _
  | ran hlistener hsession hruns =>
      exact session_set hlistener (UdpListener.session_put hsession hruns) k l
  | given hlistener hdecrypt hfinds hsession hruns hview =>
      rw [session, session, Server.put]
      dsimp only
      rw [hfinds.listeners_eq]
      exact session_set hlistener (fun k =>
        (session_finds (hsound _ _ hlistener) hfinds k).trans SessionEntry.Continues.trans
          (UdpListener.session_given hsession hruns k)) k l

end Server

/-! ### Both programs -/

/-- A running client and a running server. -/
structure Deployment (Address : Type) where
  client : Client Address
  server : Server Address

namespace Deployment

/-- What the two programs have been set up with. -/
structure Setup (Address : Type) where
  client : ClientSetup
  server : ServerSetup Address

/-- What happens to one of the programs. What goes over the network is in the events. -/
inductive Event {Address : Type} (setup : Setup Address)
  | client (event : Client.Event Address setup.client.remoteAddress)
  | server (event : Server.Event Address)

variable [DecidableEq Address] (setup : Setup Address)

/-- The programs run side by side. -/
def machine : EventMachine (Deployment Address) (Event setup) where
  step deployment
    | .client event =>
        (deployment.client.step setup.client event).map fun client => { deployment with client }
    | .server event =>
        (deployment.server.step setup.server event).map fun server => { deployment with server }

/-- What holds of both throughout. -/
structure Inv (deployment : Deployment Address) : Prop where
  client : Client.ConnectionsInv setup.client deployment.client
  server : Server.ServerInv setup.server deployment.server

variable {setup} {deployment after : Deployment Address}

/-- **One event**: it keeps what holds of both, and every session goes on. -/
theorem Inv.step (hlib : setup.server.lib.Lawful) (h : Inv setup deployment) {event : Event setup}
    (hstep : (machine setup).step deployment event = some after) :
    Inv setup after ∧
      (∀ i, Client.SessionGrows setup.client (deployment.client.session i)
        (after.client.session i)) ∧
      ∀ i j, Server.SessionGrows setup.server (deployment.server.session i j)
        (after.server.session i j) := by
  cases event with
  | client event =>
      obtain ⟨client, hclient, rfl⟩ := Option.map_eq_some_iff.mp hstep
      exact ⟨⟨(h.client.step hclient).1, h.server⟩, Client.session_grows h.client.regular hclient,
        fun _ _ => .refl _⟩
  | server event =>
      obtain ⟨server, hserver, rfl⟩ := Option.map_eq_some_iff.mp hstep
      exact ⟨⟨h.client, h.server.step hlib hserver⟩, fun _ => .refl _,
        Server.session_grows h.server hserver⟩

/-- When both have started, there are no sessions yet. -/
theorem start_inv {lib : ClientLib} {config : ClientConfig} {opened : UInt16 → Except String Unit}
    {start : Deployment Address}
    (hclient : Client.create lib config = .ok (setup.client, start.client))
    (hserver : Server.start setup.server {} opened = .ok start.server) :
    Inv setup start ∧ (∀ i, start.client.session i = none) ∧
      ∀ i j, start.server.session i j = none := by
  obtain ⟨hinv, -, hnone, -⟩ := Client.create_inv hclient
  refine ⟨⟨hinv, Server.start_inv hserver⟩, fun i => ?_, fun i j => ?_⟩
  · rw [Client.session, hnone]
    rfl
  · rw [Server.session]
    cases hlistener : start.server.listeners[i]? with
    | none => rfl
    | some listener =>
        obtain ⟨port, rfl⟩ := Server.start_new hserver listener (List.mem_of_getElem? hlistener)
        rfl

/-- **The sessions of the programs run by their own rules.** A client and a server start and run
side by side. Every connection of the client is then what events of a transport alone and inputs
of a session alone have made of a newly made pair of them, and the same goes for every session of
the server; and the packets that the transport has taken in are exactly those that the program has
passed to it, in their order. -/
theorem sessions_alone (setup : Setup Address) (lib : ClientLib) (config : ClientConfig)
    (opened : UInt16 → Except String Unit) (start : Deployment Address)
    (hclient : Client.create lib config = .ok (setup.client, start.client))
    (hserver : Server.start setup.server {} opened = .ok start.server)
    (events : List (Event setup)) (deployment : Deployment Address)
    (hrun : (machine setup).run start events = some deployment)
    (hlib : setup.server.lib.Lawful) :
    (∀ (i : ℕ) (c : Connection Address), deployment.client.connections[i]? = some c →
      ∃ made : SessionEntry,
        made.Started setup.client.lib.crypto setup.client.lib.ikcpSetmtu setup.client.setting true
          none ∧
        made.Runs setup.client.lib.crypto setup.client.setting c.packets c.toSessionEntry) ∧
    ∀ (i : ℕ) (listener : Server.UdpListener Address),
      deployment.server.listeners[i]? = some listener →
      ∀ (j : ℕ) (session : ServerSession Address), listener.entries[j]? = some session →
        ∃ made : SessionEntry,
          made.Started setup.server.lib.crypto setup.server.lib.ikcpSetmtu setup.server.setting
            false (some setup.server.target.start) ∧
          made.Runs setup.server.lib.crypto setup.server.setting (listener.packets j)
            session.toSessionEntry := by
  obtain ⟨hinv, hnone, hnone'⟩ := start_inv hclient hserver
  refine ⟨fun i c hc => ?_, fun i listener hlistener j session hsession => ?_⟩
  · obtain ⟨made, ⟨hstarted, hmade⟩, packets, hruns, hpackets⟩ :=
      EventMachine.run_grows SessionEntry.Continues.trans
        (fun _ _ _ h hstep => ⟨(h.step hlib hstep).1, (h.step hlib hstep).2.1 i⟩)
        hinv (hnone i) hrun (Client.session_eq hc)
    rw [hmade, List.nil_append] at hpackets
    obtain rfl : c.packets = packets := hpackets
    exact ⟨made.1, hstarted, hruns⟩
  · obtain ⟨made, ⟨hstarted, hmade⟩, packets, hruns, hpackets⟩ :=
      EventMachine.run_grows SessionEntry.Continues.trans
        (fun _ _ _ h hstep => ⟨(h.step hlib hstep).1, (h.step hlib hstep).2.2 i j⟩)
        hinv (hnone' i j) hrun (Server.session_eq hlistener hsession)
    rw [hmade, List.nil_append] at hpackets
    obtain rfl : listener.packets j = packets := hpackets
    exact ⟨made.1, hstarted, hruns⟩

/-- The client connects, and a packet of its conversation opens a session at the server. -/
theorem first_session_alone :
    let setup : Setup String := ⟨Client.plainSetup 1 0 600, Server.plainServer⟩
    ∃ deployment c listener session,
      (machine setup).run ⟨Client.plainStart 1, Server.plainStarted⟩
        [.client (.accepted false (Client.plainDial 1 0 600 [⟨7, by decide⟩])),
          .server (.received 0 ⟨"10.0.0.1", 4000⟩ [7, 0, 0, 0, 1] []),
          .client (.received 0 ⟨"10.0.0.9", 29900⟩ [7, 0, 0, 0, 2] [])] = some deployment ∧
      deployment.client.connections[0]? = some c ∧
      deployment.server.listeners[0]? = some listener ∧ listener.entries[0]? = some session ∧
      (∃ made : SessionEntry, made.Runs setup.client.lib.crypto setup.client.setting
        [[7, 0, 0, 0, 2]] c.toSessionEntry) ∧
      ∃ made : SessionEntry, made.Runs setup.server.lib.crypto setup.server.setting
        [[7, 0, 0, 0, 1]] session.toSessionEntry := by
  intro setup
  have hview : ((machine setup).run ⟨Client.plainStart 1, Server.plainStarted⟩
      [.client (.accepted false (Client.plainDial 1 0 600 [⟨7, by decide⟩])),
        .server (.received 0 ⟨"10.0.0.1", 4000⟩ [7, 0, 0, 0, 1] []),
        .client (.received 0 ⟨"10.0.0.9", 29900⟩ [7, 0, 0, 0, 2] [])]).map (fun deployment =>
          (deployment.client.connections[0]?.map Connection.packets,
            deployment.server.listeners[0]?.bind fun listener =>
              listener.entries[0]?.map fun _ => listener.packets 0)) =
      some (some [[7, 0, 0, 0, 2]], some [[7, 0, 0, 0, 1]]) := by decide +kernel
  obtain ⟨deployment, hrun, hboth⟩ := Option.map_eq_some_iff.mp hview
  obtain ⟨hfirst, hsecond⟩ := Prod.mk.inj hboth
  obtain ⟨c, hc, hpackets⟩ := Option.map_eq_some_iff.mp hfirst
  obtain ⟨listener, hlistener, hentry⟩ := Option.bind_eq_some_iff.mp hsecond
  obtain ⟨session, hsession, hpackets'⟩ := Option.map_eq_some_iff.mp hentry
  obtain ⟨hclient, hserver⟩ := sessions_alone setup _ _ _ _ (Client.create_plain 1 0 600)
    Server.start_plainServer _ deployment hrun Server.plainServer_reliable.lawful
  obtain ⟨made, -, hruns⟩ := hclient 0 c hc
  obtain ⟨made', -, hruns'⟩ := hserver 0 listener hlistener 0 session hsession
  rw [hpackets] at hruns
  rw [hpackets'] at hruns'
  exact ⟨deployment, c, listener, session, hrun, hc, hlistener, hsession, ⟨made, hruns⟩, made',
    hruns'⟩

end Deployment

end Shimakaze
