import Shimakaze.Deployment.Sessions
import Shimakaze.Smux.Tunnel

/-!
# The Streams of Two Running Programs

A connection of the client and a session of the server are the ends of a tunnel, as soon as KCP
does its work between them: what it delivers at either end is an initial segment of what the
session at the other end has sent. That is all that is taken from KCP, and it is asked for these
two only; every other connection and session, and whoever else sends datagrams, may do anything.
The invariant of the tunnel then holds between the two, with what KCP still has to deliver for
the bytes in flight. A session that has not been made yet stands for any newly launched one.

## Main results

* `TunnelInv.run`: a run of one session inside the tunnel.
* `Joined.runs`: what the programs do with a session keeps the two joined.
* `Deployment.streams_intact`: **end to end** — what a stream of one program has written to its
  local socket is an initial segment of what was queued on the stream of the same id at the other.
-/

namespace Shimakaze

open EventMachine (Stands)

/-! ### One session inside the tunnel -/

/-- A session whose output has been taken away. -/
def SmuxSession.cleared (s : SmuxSession) : SmuxSession := { s with outbox := [] }

variable {a b : Setting} {s r f : SmuxSession} {forward backward : Bytes}

/-- What a session does is the same without the output it had. -/
theorem SmuxSession.Evolves.cleared {peer : List Frame} (h : SmuxSession.Evolves a peer s f) :
    ∃ out, f.outbox = s.outbox ++ out ∧
      SmuxSession.Evolves a peer s.cleared { f with outbox := out } := by
  obtain ⟨sent, hemits⟩ := h.emits
  refine ⟨transportBytes a s.compressor sent, hemits.outbox, ?_⟩
  exact ⟨⟨⟨sent, hemits.frames, (List.nil_append _).symm, hemits.compressor⟩, h.grows,
    h.client_eq, h.qppPad_eq, h.next_le, h.stays_closed⟩, h.sound⟩

/-- One input. -/
theorem TunnelInv.input (hlib : a.snappy.Lawful) {e : SessionInput}
    (h : TunnelInv a s.cleared r forward (e.bytes ++ backward))
    (hstep : (sessionMachine a).step s e = some f) :
    ∃ out, f.outbox = s.outbox ++ out ∧ TunnelInv a f.cleared r (forward ++ out) backward := by
  have hheard : Heard a r s (e.bytes ++ backward) :=
    ⟨h.heard'.dispatched, fun hopen => by
      obtain ⟨arrived, ⟨hisOpen, hparsed⟩, hflight⟩ := h.heard'.received hopen
      exact ⟨arrived, ⟨hisOpen, hparsed⟩, hflight⟩⟩
  obtain ⟨hevolves, hafter⟩ : SmuxSession.Evolves a r.frames s f ∧ Heard a r f backward := by
    cases e with
    | arrival now bytes =>
        obtain rfl := Option.some.inj hstep
        exact ⟨s.onTransportBytes_evolves now bytes, hheard.arrive hlib h.books'.sendable now⟩
    | act now e => exact ⟨SmuxSession.act_evolves hstep, hheard.act hstep⟩
  obtain ⟨out, houtbox, hcleared⟩ := hevolves.cleared
  refine ⟨out, houtbox, h.step hcleared ⟨hafter.dispatched, fun hopen => ?_⟩⟩
  obtain ⟨arrived, ⟨hisOpen, hparsed⟩, hflight⟩ := hafter.received hopen
  exact ⟨arrived, ⟨hisOpen, hparsed⟩, hflight⟩

/-- **A run of one session.** It takes bytes off the one direction and adds to the other. -/
theorem TunnelInv.run (hlib : a.snappy.Lawful) {inputs : List SessionInput}
    (h : TunnelInv a s.cleared r forward (inputs.flatMap SessionInput.bytes ++ backward))
    (hrun : (sessionMachine a).run s inputs = some f) :
    ∃ out, f.outbox = s.outbox ++ out ∧ TunnelInv a f.cleared r (forward ++ out) backward := by
  induction inputs generalizing s forward with
  | nil =>
      obtain rfl : s = f := Option.some.inj hrun
      refine ⟨[], (List.append_nil _).symm, ?_⟩
      rw [List.append_nil]
      exact h
  | cons e inputs ih =>
      obtain ⟨t, hstep, hrest⟩ := EventMachine.run_cons_eq_some _ |>.mp hrun
      rw [List.flatMap_cons, List.append_assoc] at h
      obtain ⟨out, hout, hinput⟩ := h.input hlib hstep
      obtain ⟨more, hmore, hlast⟩ := ih hinput hrest
      refine ⟨out ++ more, ?_, ?_⟩
      · rw [hmore, hout, List.append_assoc]
      · rw [← List.append_assoc]
        exact hlast

/-! ### Two sessions that KCP joins -/

/-- Two sessions are the ends of a tunnel. In flight is what has been sent and not delivered. -/
def Joined (a : Setting) (left right : SessionEntry) : Prop :=
  ∃ forward backward,
    TunnelInv a left.smux.cleared right.smux.cleared forward backward ∧
    left.smux.outbox = right.delivered ++ forward ∧ right.smux.outbox = left.delivered ++ backward

variable {left right after : SessionEntry}

theorem Joined.symm (hagree : a.Agree b) (h : Joined a left right) : Joined b right left := by
  obtain ⟨forward, backward, htunnel, hleft, hright⟩ := h
  exact ⟨backward, forward, (htunnel.agree hagree).symm, hright, hleft⟩

/-- Two sessions that were just set up. -/
theorem Joined.started (hagree : a.Agree b) {crypto crypto' : CryptoLib}
    {ikcpSetmtu ikcpSetmtu' : Int32 → Int32} {client : Bool}
    {handler handler' : Option SmuxStream.Start}
    (hleft : left.Started crypto ikcpSetmtu a client handler)
    (hright : right.Started crypto' ikcpSetmtu' b (!client) handler') : Joined a left right := by
  obtain ⟨transport, s, now, rfl, -, hs⟩ := hleft
  obtain ⟨transport', r, now', rfl, -, hr⟩ := hright
  have htunnel := launch_tunnelInv hagree hs hr
  obtain ⟨pad, timer, -, rfl⟩ := SmuxSession.launch_eq_ok hs
  obtain ⟨pad', timer', -, rfl⟩ := SmuxSession.launch_eq_ok hr
  exact ⟨[], [], htunnel, rfl, rfl⟩

/-- **What a program does with one of the two** keeps them joined, if KCP has done its work. -/
theorem Joined.runs (hlib : a.snappy.Lawful) (h : Joined a left right) {crypto : CryptoLib}
    {packets : List Bytes} (hruns : left.Runs crypto a packets after)
    (hkcp : after.delivered <+: right.smux.outbox) : Joined a after right := by
  obtain ⟨forward, backward, htunnel, hleft, hright⟩ := h
  obtain ⟨inputs, hrun, hdelivered⟩ := hruns.smux
  obtain ⟨later, hlater⟩ := hkcp
  rw [hdelivered, hright, List.append_assoc, List.append_cancel_left_eq] at hlater
  obtain ⟨out, hout, htunnel'⟩ := (hlater ▸ htunnel).run hlib hrun
  refine ⟨forward ++ out, later, htunnel', ?_, ?_⟩
  · rw [hout, hleft, List.append_assoc]
  · rw [hright, ← hlater, hdelivered, List.append_assoc]

/-! ### Both programs -/

namespace Deployment

variable {Address : Type}

/-- What KCP has delivered to a session: nothing before it is made. -/
def delivered (held : Option (SessionEntry × List Bytes)) : Bytes :=
  held.elim [] fun held => held.1.delivered

/-- What a session has given to its transport. -/
def sent (held : Option (SessionEntry × List Bytes)) : Bytes :=
  held.elim [] fun held => held.1.smux.outbox

/-- KCP does its work between a connection and a session: what it has delivered at either end is
an initial segment of what the session at the other end has sent. -/
def Delivers (i j k : ℕ) (deployment : Deployment Address) : Prop :=
  delivered (deployment.client.session i) <+: sent (deployment.server.session j k) ∧
    delivered (deployment.server.session j k) <+: sent (deployment.client.session i)

instance (i j k : ℕ) (deployment : Deployment Address) : Decidable (deployment.Delivers i j k) :=
  inferInstanceAs (Decidable (_ ∧ _))

variable {setting : Setting} {crypto : CryptoLib} {ikcpSetmtu : Int32 → Int32} {client : Bool}
  {handler : Option SmuxStream.Start} {held : Option (SessionEntry × List Bytes)}
  {part : SessionEntry × List Bytes}

/-- A session that was just set up has neither taken in nor given out anything. -/
theorem stands_eq
    (h : Stands (SessionEntry.New crypto ikcpSetmtu setting client handler) held part) :
    delivered held = part.1.delivered ∧ sent held = part.1.smux.outbox := by
  cases held with
  | some held =>
      obtain rfl : held = part := h
      exact ⟨rfl, rfl⟩
  | none =>
      obtain ⟨⟨transport, smux, now, hpart, -, hlaunch⟩, -⟩ := h
      obtain ⟨pad, timer, -, rfl⟩ := SmuxSession.launch_eq_ok hlaunch
      rw [hpart]
      exact ⟨rfl, rfl⟩

variable [DecidableEq Address] {setup : Setup Address} {deployment after : Deployment Address}
  {i j k : ℕ}

/-- What holds of both programs and of a connection and a session that KCP joins, made or not. -/
structure JoinedInv (setup : Setup Address) (i j k : ℕ) (deployment : Deployment Address) :
    Prop extends Inv setup deployment where
  joined : ∀ left right,
    Client.SessionStands setup.client (deployment.client.session i) left →
    Server.SessionStands setup.server (deployment.server.session j k) right →
    Joined setup.client.setting left.1 right.1

/-- **One event** of either program. -/
theorem JoinedInv.step (hlib : setup.server.lib.Lawful)
    (hagree : setup.client.setting.Agree setup.server.setting)
    (hsnappy : setup.client.setting.snappy.Lawful) (h : JoinedInv setup i j k deployment)
    {event : Event setup} (hkcp : after.Delivers i j k)
    (hstep : (machine setup).step deployment event = some after) :
    JoinedInv setup i j k after := by
  have hserverSnappy : setup.server.setting.snappy.Lawful := hagree.snappy ▸ hsnappy
  obtain ⟨hinv, hclient, hserver⟩ := h.toInv.step hlib hstep
  refine ⟨hinv, fun left right hleft hright => ?_⟩
  obtain ⟨hleftDelivered, hleftSent⟩ := stands_eq hleft
  obtain ⟨hrightDelivered, hrightSent⟩ := stands_eq hright
  rw [Delivers, hleftDelivered, hleftSent, hrightDelivered, hrightSent] at hkcp
  cases event with
  | client event =>
      obtain ⟨client, -, rfl⟩ := Option.map_eq_some_iff.mp hstep
      obtain ⟨before, hbefore, packets, hruns, -⟩ :=
        (hclient i).stands SessionEntry.Continues.refl hleft
      exact (h.joined before right hbefore hright).runs hsnappy hruns hkcp.1
  | server event =>
      obtain ⟨server, -, rfl⟩ := Option.map_eq_some_iff.mp hstep
      obtain ⟨before, hbefore, packets, hruns, -⟩ :=
        (hserver j k).stands SessionEntry.Continues.refl hright
      have hjoined := (h.joined left before hleft hbefore).symm hagree
      exact (hjoined.runs hserverSnappy hruns hkcp.2).symm hagree.symm

/-- When both have started, any two sessions that they may make are joined. -/
theorem JoinedInv.start {lib : ClientLib} {config : ClientConfig}
    {opened : UInt16 → Except String Unit}
    (hagree : setup.client.setting.Agree setup.server.setting)
    (hclient : Client.create lib config = .ok (setup.client, deployment.client))
    (hserver : Server.start setup.server {} opened = .ok deployment.server) :
    JoinedInv setup i j k deployment := by
  obtain ⟨hinv, hnone, hnone'⟩ := start_inv hclient hserver
  refine ⟨hinv, fun left right hleft hright => ?_⟩
  rw [hnone] at hleft
  rw [hnone'] at hright
  exact .started hagree hleft.1 hright.1

/-- What comes of it for the streams. -/
theorem JoinedInv.intact (h : JoinedInv setup i j k deployment)
    {left right : SessionEntry × List Bytes} (hleft : deployment.client.session i = some left)
    (hright : deployment.server.session j k = some right) :
    (∀ y ∈ right.1.smux.objects,
      (∀ x ∈ left.1.smux.objects, x.id = y.id → y.history.written <+: x.history.queued) ∧
        ((∀ x ∈ left.1.smux.objects, x.id ≠ y.id) → y.history.written = [])) ∧
    ∀ y ∈ left.1.smux.objects,
      (∀ x ∈ right.1.smux.objects, x.id = y.id → y.history.written <+: x.history.queued) ∧
        ((∀ x ∈ right.1.smux.objects, x.id ≠ y.id) → y.history.written = []) := by
  obtain ⟨forward, backward, htunnel, -, -⟩ :=
    h.joined left right (by rw [hleft]; rfl) (by rw [hright]; rfl)
  constructor
  · rintro y hy
    exact ⟨fun x hx hid => htunnel.written_initial hx hy hid, htunnel.written_nil hy⟩
  · rintro y hy
    exact ⟨fun x hx hid => htunnel.symm.written_initial hx hy hid, htunnel.symm.written_nil hy⟩

/-- **End-to-end integrity of the programs.** A client and a server whose settings agree run side
by side, and between one connection of the client and one session of the server KCP does its work
all along. Then in each direction, for every stream of the receiving end, the payload bytes that
it has completely written to its local socket are an initial segment of the bytes queued on the
stream of the same id at the other end; a stream without such a counterpart has written
nothing. -/
theorem streams_intact (setup : Setup Address) (lib : ClientLib) (config : ClientConfig)
    (opened : UInt16 → Except String Unit) (start : Deployment Address)
    (hclient : Client.create lib config = .ok (setup.client, start.client))
    (hserver : Server.start setup.server {} opened = .ok start.server)
    (hagree : setup.client.setting.Agree setup.server.setting)
    (hlib : setup.server.lib.Lawful) (hsnappy : setup.client.setting.snappy.Lawful)
    (events : List (Event setup)) (deployment : Deployment Address)
    (hrun : (machine setup).run start events = some deployment) (i j k : ℕ)
    (hkcp : (machine setup).Always (Delivers i j k) start events)
    (c : Connection Address) (hc : deployment.client.connections[i]? = some c)
    (listener : Server.UdpListener Address)
    (hlistener : deployment.server.listeners[j]? = some listener)
    (session : ServerSession Address) (hsession : listener.entries[k]? = some session) :
    (∀ y ∈ session.smux.objects,
      (∀ x ∈ c.smux.objects, x.id = y.id → y.history.written <+: x.history.queued) ∧
        ((∀ x ∈ c.smux.objects, x.id ≠ y.id) → y.history.written = [])) ∧
    ∀ y ∈ c.smux.objects,
      (∀ x ∈ session.smux.objects, x.id = y.id → y.history.written <+: x.history.queued) ∧
        ((∀ x ∈ session.smux.objects, x.id ≠ y.id) → y.history.written = []) := by
  have hjoined : (machine setup).Always (JoinedInv setup i j k) start events :=
    hkcp.inductive (fun _ _ _ h hkcp hstep => h.step hlib hagree hsnappy hkcp hstep)
      (.start hagree hclient hserver)
  exact (hjoined.last hrun).intact (Client.session_eq hc)
    (Server.session_eq hlistener hsession)

/-- One byte goes from an application at the client to one at the server. -/
theorem byte_through_programs :
    let setup : Setup String := ⟨Client.plainSetup 1 0 600, Server.plainServer⟩
    ∃ deployment c listener session x y,
      (machine setup).run ⟨Client.plainStart 1, Server.plainStarted⟩
        [.client (.accepted false (Client.plainDial 1 0 600 [⟨7, by decide⟩])),
          .client (.ran 0 (.completed 0 (.readStored [7]))),
          .client (.ran 0 (.completed 0 .readDone)),
          .server (.received 0 ⟨"10.0.0.1", 4000⟩ [7, 0, 0, 0, 1]
            [[2, 0, 0], [0, 3, 0, 0, 0, 2, 2, 1, 0, 3, 0, 0, 0, 7]]),
          .server (.ran 0 0 (.completed 0 (.resolved none))),
          .server (.ran 0 0 (.completed 0 (.connected none))),
          .server (.ran 0 0 (.completed 0 .writeDone))] = some deployment ∧
      deployment.client.connections[0]? = some c ∧
      deployment.server.listeners[0]? = some listener ∧ listener.entries[0]? = some session ∧
      c.smux.objects = [x] ∧ session.smux.objects = [y] ∧ y.history.written = [7] ∧
      y.history.written <+: x.history.queued := by
  intro setup
  obtain ⟨events, hevents⟩ : ∃ events : List (Event setup), events =
      [.client (.accepted false (Client.plainDial 1 0 600 [⟨7, by decide⟩])),
        .client (.ran 0 (.completed 0 (.readStored [7]))),
        .client (.ran 0 (.completed 0 .readDone)),
        .server (.received 0 ⟨"10.0.0.1", 4000⟩ [7, 0, 0, 0, 1]
          [[2, 0, 0], [0, 3, 0, 0, 0, 2, 2, 1, 0, 3, 0, 0, 0, 7]]),
        .server (.ran 0 0 (.completed 0 (.resolved none))),
        .server (.ran 0 0 (.completed 0 (.connected none))),
        .server (.ran 0 0 (.completed 0 .writeDone))] := ⟨_, rfl⟩
  have hkcp : (machine setup).Always (Delivers 0 0 0) ⟨Client.plainStart 1, Server.plainStarted⟩
      events := by
    rw [hevents]
    decide +kernel
  have hview : ((machine setup).run ⟨Client.plainStart 1, Server.plainStarted⟩ events).map
      (fun deployment =>
        (deployment.client.connections[0]?.map fun c => c.smux.objects.map SmuxStream.id,
          deployment.server.listeners[0]?.bind fun listener =>
            listener.entries[0]?.map fun session =>
              session.smux.objects.map fun y => (y.id, y.history.written))) =
      some (some [3], some [(3, [7])]) := by
    rw [hevents]
    decide +kernel
  obtain ⟨deployment, hrun, hboth⟩ := Option.map_eq_some_iff.mp hview
  obtain ⟨hfirst, hsecond⟩ := Prod.mk.inj hboth
  obtain ⟨c, hc, hxs⟩ := Option.map_eq_some_iff.mp hfirst
  obtain ⟨listener, hlistener, hentry⟩ := Option.bind_eq_some_iff.mp hsecond
  obtain ⟨session, hsession, hys⟩ := Option.map_eq_some_iff.mp hentry
  obtain ⟨x, hx, hxid⟩ := List.map_eq_singleton_iff.mp hxs
  obtain ⟨y, hy, hyview⟩ := List.map_eq_singleton_iff.mp hys
  obtain ⟨hyid, hwritten⟩ := Prod.mk.inj hyview
  refine ⟨deployment, c, listener, session, x, y, hevents ▸ hrun, hc, hlistener, hsession, hx, hy,
    hwritten, ?_⟩
  have h := (streams_intact setup _ _ _ _ (Client.create_plain 1 0 600) Server.start_plainServer
    ⟨rfl, rfl, rfl, rfl, rfl, rfl, rfl⟩ Server.plainServer_reliable.lawful (fun _ => rfl) events
    deployment hrun 0 0 0 hkcp c hc listener hlistener session hsession).1
  exact (h y (hy ▸ List.mem_singleton_self y)).1 x (hx ▸ List.mem_singleton_self x)
    (hxid.trans hyid.symm)

end Deployment

end Shimakaze
