import Shimakaze.Server.Program

/-!
# The Tables of the Server

To a listener's table a session is an endpoint, an id and whether it is closed. On that level
the listener is a machine of its own, and the server with all that its sessions do refines it:
what an event of the server does to a listener is an event of that machine, or a few, or none.

## Main results

* `handlePacket_cases`: what one datagram does, to the sessions and to the table.
* `ListenerSound.put`, `ListenerSound.given`: **what a listener keeps**, whatever its sessions do.
* `listeners_step`: one event of the server.
* `table_change`: what one event of the server is to the table of a listener.
-/

namespace Shimakaze

namespace Server

variable {Address : Type} {setup : ServerSetup Address} {server after : Server Address}

namespace UdpListener

variable {listener : UdpListener Address} {j : ℕ} {session : ServerSession Address}
  {entry : SessionEntry} {packets : List Bytes}

/-- What the table sees of a session. -/
theorem view_getElem? (h : listener.entries[j]? = some session) :
    listener.view.transports[j]? =
      some ⟨session.remoteEndpoint, session.conv, session.key, session.closing⟩ := by
  rw [view, List.getElem?_map, h]
  rfl

/-- A new session. -/
theorem view_addSession (hopen : session.closing = false) :
    (listener.addSession session).view = listener.view.addSession
      { remoteEndpoint := session.remoteEndpoint, conv := session.conv, key := session.key } := by
  simp only [view, addSession, UdpListener.addSession, Shimakaze.UdpListener.addSession,
    List.map_append, List.map_cons, List.map_nil, hopen, List.length_map]

/-- A packet that a session is given. -/
theorem view_note {sender : UdpEndpoint Address} {packet : Bytes} :
    UdpListener.view { listener with inputs := listener.inputs ++ [(j, sender, packet)] } =
      listener.view.input j packet := by
  simp only [view, Shimakaze.UdpListener.input, List.map_append, List.map_cons, List.map_nil]

/-- A function of a session. -/
theorem view_put_eq : (listener.put j session entry).view =
    { listener.view with
      transports := listener.view.transports.set j
        ⟨session.remoteEndpoint, session.conv, session.key, entry.closing⟩
      sessions := (listener.put j session entry).sessions } := by
  simp only [view, put, List.map_set]

/-- A function of a session that leaves its transport open or closed. -/
theorem view_put_of_same (h : listener.entries[j]? = some session)
    (hsame : entry.closing = session.closing) :
    (listener.put j session entry).view = listener.view := by
  have hkept : (listener.put j session entry).sessions = listener.view.sessions := by
    rw [put, hsame]
    cases session.closing <;> rfl
  obtain ⟨hlt, hget⟩ := List.getElem?_eq_some_iff.mp (view_getElem? h)
  rw [view_put_eq, hkept, hsame, ← hget, List.set_getElem_self]

/-- A function that closes it. -/
theorem view_put_of_closes (h : listener.entries[j]? = some session)
    (hopen : session.closing = false) (hcloses : entry.closing = true) :
    (listener.put j session entry).view = listener.view.close j := by
  have hremoved : (listener.put j session entry).sessions =
      listener.view.sessions.filter fun entry => entry.1 ≠ session.key := by
    rw [put, hopen, hcloses]
    rfl
  rw [view_put_eq, hremoved, hcloses, Shimakaze.UdpListener.close, view_getElem? h, hopen]
  rfl

/-- **A function of a session** is nothing to the table, or closes its transport. -/
theorem view_put (h : listener.entries[j]? = some session)
    (hruns : session.toSessionEntry.Runs setup.lib.crypto setup.setting packets entry) :
    ∃ closed : List ℕ, (closed = [] ∨ closed = [j]) ∧
      (listener.put j session entry).view =
        closed.foldl Shimakaze.UdpListener.close listener.view := by
  by_cases hsame : entry.closing = session.closing
  · exact ⟨[], .inl rfl, view_put_of_same h hsame⟩
  · cases hbefore : session.closing with
    | true => exact absurd ((hruns.stays_closing hbefore).trans hbefore.symm) hsame
    | false =>
        rw [hbefore] at hsame
        exact ⟨[j], .inr rfl, view_put_of_closes h hbefore (Bool.eq_true_of_not_eq_false hsame)⟩

end UdpListener

/-! ### One datagram -/

/-- A session that has just been made: it is open, and nothing has happened to it. -/
structure Made (setup : ServerSetup Address) (session : ServerSession Address) : Prop where
  keyed : session.key = endpointKey (setup.lib.addressText session.remoteEndpoint.address)
    session.remoteEndpoint.port session.conv
  started : session.toSessionEntry.Started setup.lib.crypto setup.lib.ikcpSetmtu setup.setting false
    (some setup.target.start)

/-- Both are sound and open. -/
theorem Made.sound {session : ServerSession Address} (h : Made setup session) :
    session.toSessionEntry.Sound setup.config.toBaseConfig ∧ session.closing = false :=
  h.started.sound

/-- **The session that `handle_packet` makes**, or the exception that the transport throws. -/
theorem makeSession_made {sender : UdpEndpoint Address} {conv : UInt32}
    {session : ServerSession Address}
    (h : server.makeSession setup sender conv
      (endpointKey (setup.lib.addressText sender.address) sender.port conv) = .ok session) :
    Made setup session ∧ session.remoteEndpoint = sender ∧ session.conv = conv := by
  rw [makeSession] at h
  cases hcreate : KcpTransport.create setup.lib.crypto setup.lib.ikcpSetmtu
      setup.config.toBaseConfig with
  | error failure =>
      rw [hcreate] at h
      cases h
  | ok transport =>
      rw [hcreate] at h
      dsimp only at h
      cases hlaunch : SmuxSession.launch setup.setting false (some setup.target.start)
          server.now with
      | error message =>
          rw [hlaunch] at h
          cases h
      | ok smux =>
          rw [hlaunch] at h
          obtain rfl := Except.ok.inj h
          exact ⟨⟨rfl, transport, smux, _, rfl, hcreate, hlaunch⟩, rfl, rfl⟩

variable {listener : UdpListener Address} {i j : ℕ} {session : ServerSession Address}
  {sender : UdpEndpoint Address} {packets : List Bytes}

/-- `transport->input` of a session that exists. -/
theorem input_cases {packet : Bytes} {delivered : List Bytes}
    (hsession : listener.entries[j]? = some session)
    (hok : server.input setup i listener j sender packet delivered = .ok after) :
    ∃ entry, session.toSessionEntry.Runs setup.lib.crypto setup.setting [packet] entry ∧
      after = server.put i
        { listener with inputs := listener.inputs ++ [(j, sender, packet)] } j session entry := by
  rw [input, hsession] at hok
  dsimp only at hok
  cases hinput : session.toSessionEntry.input setup.setting server.now packet delivered with
  | error message =>
      rw [hinput] at hok
      cases hok
  | ok entry =>
      rw [hinput] at hok
      dsimp only at hok
      split_ifs at hok
      obtain rfl := Except.ok.inj hok
      exact ⟨entry, SessionEntry.input_runs hinput, rfl⟩

/-- Only the counters of datagrams and the clock have changed. -/
structure Quiet (server after : Server Address) : Prop where
  listeners_eq : after.listeners = server.listeners
  tally : ∀ {opened established most : ℕ},
    server.storage.Tally false opened established most →
      after.storage.Tally false opened established most

theorem Quiet.refl (server : Server Address) : Quiet server server := ⟨rfl, id⟩

theorem Quiet.trans {last : Server Address} (h : Quiet server after) (h' : Quiet after last) :
    Quiet server last :=
  ⟨h'.listeners_eq.trans h.listeners_eq, fun htally => h'.tally (h.tally htally)⟩

/-- A counter of datagrams. -/
theorem count_quiet (server : Server Address) {field : SnmpField} (value : UInt64)
    (hfield : field ∈ [SnmpField.inErrs, .inCsumErrors, .inPkts, .inBytes]) :
    Quiet server (server.count field value) :=
  ⟨rfl, fun htally => htally.snmpAdd value hfield⟩

/-- A packet that has a conversation id. -/
def Named (packet : Bytes) : Prop :=
  ∃ offset, fecKcpPayloadOffset packet = some offset ∧ offset + 4 ≤ packet.length

/-- The session that a packet is for: one there was, or one that was made for its conversation and
counted. -/
inductive Finds (setup : ServerSetup Address) (server : Server Address)
    (listener : UdpListener Address) (decoded : Bytes) :
    ℕ → Server Address → UdpListener Address → Prop
  | known {j : ℕ} : Finds setup server listener decoded j server listener
  | fresh {session : ServerSession Address} (hmade : Made setup session)
      (hfree : listener.sessions.lookup session.key = none) (hnamed : Named decoded) :
      Finds setup server listener decoded listener.entries.length
        { server with storage := server.storage.snmpConnectionOpen false }
        (listener.addSession session)

variable [DecidableEq Address]

omit [DecidableEq Address] in
/-- A table knows the sessions that its entries name. -/
theorem exists_session (h : UdpListener.ListenerInv setup.lib listener.view) {key : String}
    (hentry : (key, j) ∈ listener.sessions) : ∃ session, listener.entries[j]? = some session := by
  obtain ⟨transport, htransport, -⟩ := h.exact.sound _ hentry
  rw [UdpListener.view, List.getElem?_map] at htransport
  obtain ⟨session, hsession, -⟩ := Option.map_eq_some_iff.mp htransport
  exact ⟨session, hsession⟩

/-- **What one datagram does**, if it does not throw: nothing but count; or a session, known or
new, takes it in, and that is what the table sees. -/
theorem handlePacket_cases (h : UdpListener.ListenerInv setup.lib listener.view)
    {bytes : Bytes} {delivered : List Bytes}
    (hok : server.handlePacket setup i listener sender bytes delivered = .ok after) :
    (Quiet server after ∧ listener.view.handlePacket setup.lib setup.config.toBaseConfig setup.crypt
        sender bytes = .ok listener.view) ∨
      ∃ counted found decoded j session entry,
        setup.crypt.decrypt setup.lib.crypto bytes = some decoded ∧
        Finds setup server listener decoded j counted found ∧ found.entries[j]? = some session ∧
        session.toSessionEntry.Runs setup.lib.crypto setup.setting [decoded] entry ∧
        after = counted.put i { found with inputs := found.inputs ++ [(j, sender, decoded)] } j
          session entry ∧
        listener.view.handlePacket setup.lib setup.config.toBaseConfig setup.crypt sender bytes =
          .ok (found.view.input j decoded) := by
  rw [handlePacket] at hok
  rw [Shimakaze.UdpListener.handlePacket]
  cases hdecrypt : setup.crypt.decrypt setup.lib.crypto bytes with
  | none =>
      rw [hdecrypt] at hok
      obtain rfl := Except.ok.inj hok
      exact .inl ⟨count_quiet server 1 (by decide), rfl⟩
  | some decoded =>
      rw [hdecrypt] at hok
      dsimp only at hok ⊢
      by_cases hshort : decoded.length < 4
      · rw [if_pos hshort] at hok ⊢
        obtain rfl := Except.ok.inj hok
        exact .inl ⟨count_quiet server 1 (by decide), rfl⟩
      rw [if_neg hshort] at hok ⊢
      cases hoffset : fecKcpPayloadOffset decoded with
      | none =>
          rw [hoffset] at hok
          dsimp only at hok ⊢
          cases hfind : listener.view.findOnly sender listener.sessions none with
          | none =>
              rw [hfind] at hok
              obtain rfl := Except.ok.inj hok
              rw [show listener.view.sessions = listener.sessions from rfl, hfind]
              exact .inl ⟨Quiet.refl server, rfl⟩
          | some j =>
              rw [hfind] at hok
              dsimp only at hok
              obtain ⟨key, hentry⟩ := (UdpListener.findOnly_none hfind).1
              obtain ⟨session, hsession⟩ := exists_session h hentry
              obtain ⟨entry, hruns, rfl⟩ := input_cases hsession hok
              rw [show listener.view.sessions = listener.sessions from rfl, hfind]
              exact .inr ⟨server, listener, decoded, j, session, entry, rfl, .known, hsession,
                hruns, rfl, rfl⟩
      | some offset =>
          rw [hoffset] at hok
          dsimp only at hok ⊢
          by_cases hcut : decoded.length < offset + 4
          · rw [if_pos hcut] at hok ⊢
            obtain rfl := Except.ok.inj hok
            exact .inl ⟨Quiet.refl server, rfl⟩
          rw [if_neg hcut] at hok ⊢
          rw [show listener.view.sessions = listener.sessions from rfl]
          generalize hconv : setup.lib.ikcpGetconv (decoded.drop offset) = conv at hok ⊢
          cases hlookup : listener.sessions.lookup
              (endpointKey (setup.lib.addressText sender.address) sender.port conv) with
          | some j =>
              rw [hlookup] at hok
              dsimp only at hok ⊢
              obtain ⟨session, hsession⟩ := exists_session h (Registry.mem_of_lookup hlookup)
              obtain ⟨entry, hruns, rfl⟩ := input_cases hsession hok
              exact .inr ⟨server, listener, decoded, j, session, entry, rfl, .known, hsession,
                hruns, rfl, rfl⟩
          | none =>
              rw [hlookup] at hok
              dsimp only at hok ⊢
              cases hmake : server.makeSession setup sender conv
                  (endpointKey (setup.lib.addressText sender.address) sender.port conv) with
              | error failure =>
                  rw [hmake] at hok
                  cases hok
              | ok session =>
                  rw [hmake] at hok
                  dsimp only at hok
                  obtain ⟨hmade, hsender, hsame⟩ := makeSession_made hmake
                  have hkey := hmade.keyed
                  rw [hsender, hsame] at hkey
                  have hget : (listener.addSession session).entries[listener.entries.length]? =
                      some session := List.getElem?_concat_length
                  obtain ⟨entry, hruns, rfl⟩ := input_cases hget hok
                  obtain ⟨transport, -, -, -, hcreate, -⟩ := hmade.started
                  rw [show KcpTransport.create setup.lib.crypto setup.lib.ikcpSetmtu
                    setup.config.toBaseConfig = .ok transport from hcreate]
                  refine .inr ⟨_, _, decoded, listener.entries.length, session, entry, rfl,
                    .fresh hmade (hkey ▸ hlookup) ⟨offset, hoffset, not_lt.mp hcut⟩, hget, hruns,
                    rfl, ?_⟩
                  rw [UdpListener.view_addSession hmade.sound.2, hkey, hsender, hsame]
                  simp only [UdpListener.view, List.length_map]
                  rfl

/-! ### What a listener keeps -/

/-- A packet is meant for a session: it came from its remote endpoint, and unless it is parity it
has the conversation id. -/
def Meant (session : ServerSession Address) (sender : UdpEndpoint Address) (packet : Bytes) :
    Prop :=
  session.remoteEndpoint = sender ∧
    ∀ offset, fecKcpPayloadOffset packet = some offset →
      session.conv = readLe32 (packet.drop offset)

/-- A listener stands as the server needs it: its table holds the sessions in use, its sessions
are sound, and they have been given nothing but packets meant for them, and one at least that has
a conversation id. -/
structure ListenerSound (setup : ServerSetup Address) (listener : UdpListener Address) : Prop where
  inv : UdpListener.ListenerInv setup.lib listener.view
  sound : ∀ (j : ℕ) (session : ServerSession Address), listener.entries[j]? = some session →
    session.toSessionEntry.Sound setup.config.toBaseConfig
  heard : ∀ input ∈ listener.inputs, ∃ session, listener.entries[input.1]? = some session ∧
    Meant session input.2.1 input.2.2
  named : ∀ j < listener.entries.length, ∃ input ∈ listener.inputs, input.1 = j ∧ Named input.2.2

omit [DecidableEq Address] in
/-- A listener that has just been opened. -/
theorem ListenerSound.init (port : UInt16) : ListenerSound setup { port } where
  inv := .init
  sound j session h := absurd h (by simp)
  heard input hinput := absurd hinput List.not_mem_nil
  named j hj := absurd hj (Nat.not_lt_zero j)

omit [DecidableEq Address] in
/-- The sessions after a function of one of them. -/
theorem sound_put (h : ∀ (j : ℕ) (session : ServerSession Address),
      listener.entries[j]? = some session →
        session.toSessionEntry.Sound setup.config.toBaseConfig)
    (hsession : listener.entries[j]? = some session) {entry : SessionEntry}
    (hruns : session.toSessionEntry.Runs setup.lib.crypto setup.setting packets entry) (k : ℕ)
    (other : ServerSession Address)
    (hother : (listener.put j session entry).entries[k]? = some other) :
    other.toSessionEntry.Sound setup.config.toBaseConfig := by
  rcases (Registry.getElem?_set_eq_some hsession).mp hother with ⟨-, rfl⟩ | ⟨-, hother⟩
  · exact hruns.sound _ (h j session hsession)
  · exact h k other hother

omit [DecidableEq Address] in
/-- A function of a session does not change what it is. -/
theorem meant_put (hsession : listener.entries[j]? = some session) {entry : SessionEntry}
    {input : ℕ × UdpEndpoint Address × Bytes}
    (h : ∃ session, listener.entries[input.1]? = some session ∧ Meant session input.2.1 input.2.2) :
    ∃ other, (listener.put j session entry).entries[input.1]? = some other ∧
      Meant other input.2.1 input.2.2 := by
  obtain ⟨other, hother, hmeant⟩ := h
  by_cases hsame : input.1 = j
  · rw [hsame, hsession] at hother
    obtain rfl := Option.some.inj hother
    exact ⟨{ session with toSessionEntry := entry },
      (Registry.getElem?_set_eq_some hsession).mpr (.inl ⟨hsame, rfl⟩), hmeant⟩
  · exact ⟨other, (Registry.getElem?_set_eq_some hsession).mpr (.inr ⟨hsame, hother⟩), hmeant⟩

omit [DecidableEq Address] in
/-- **A function of a session** keeps its listener sound. -/
theorem ListenerSound.put (h : ListenerSound setup listener)
    (hsession : listener.entries[j]? = some session) {entry : SessionEntry}
    (hruns : session.toSessionEntry.Runs setup.lib.crypto setup.setting packets entry) :
    ListenerSound setup (listener.put j session entry) where
  inv := by
    obtain ⟨closed, -, hview⟩ := UdpListener.view_put hsession hruns
    rw [hview]
    exact h.inv.closeAll closed
  sound := sound_put h.sound hsession hruns
  heard input hinput := meant_put hsession (h.heard input hinput)
  named k hk := h.named k (by rwa [UdpListener.put, List.length_set] at hk)

/-- **A datagram** that a session takes in keeps its listener sound. -/
theorem ListenerSound.given (h : ListenerSound setup listener) (hlib : setup.lib.Lawful)
    {counted : Server Address} {found : UdpListener Address} {bytes decoded : Bytes}
    {entry : SessionEntry} (hfinds : Finds setup server listener decoded j counted found)
    (hsession : found.entries[j]? = some session)
    (hruns : session.toSessionEntry.Runs setup.lib.crypto setup.setting packets entry)
    (hview : listener.view.handlePacket setup.lib setup.config.toBaseConfig setup.crypt sender
      bytes = .ok (found.view.input j decoded)) :
    ListenerSound setup (UdpListener.put
      { found with inputs := found.inputs ++ [(j, sender, decoded)] } j session entry) := by
  have hgiven : UdpListener.view { found with inputs := found.inputs ++ [(j, sender, decoded)] } =
      found.view.input j decoded := UdpListener.view_note
  have hinputs : found.inputs = listener.inputs := by cases hfinds <;> rfl
  have hsound : ∀ (k : ℕ) (other : ServerSession Address), found.entries[k]? = some other →
      other.toSessionEntry.Sound setup.config.toBaseConfig := by
    cases hfinds with
    | known => exact h.sound
    | @fresh made hmade hfree hnamed =>
        intro k other hother
        rcases List.mem_append.mp (List.mem_of_getElem? hother) with hother | hother
        · obtain ⟨k', hother⟩ := List.mem_iff_getElem?.mp hother
          exact h.sound k' other hother
        · rw [List.mem_singleton.mp hother]
          exact hmade.sound.1
  refine ⟨?_, sound_put hsound hsession hruns, fun input hinput => meant_put hsession ?_, ?_⟩
  · obtain ⟨closed, -, hclosed⟩ := @UdpListener.view_put _ setup
      { found with inputs := found.inputs ++ [(j, sender, decoded)] } j session entry _ hsession
      hruns
    rw [hclosed, hgiven]
    exact (h.inv.handlePacket hlib hview).1.closeAll closed
  · rcases List.mem_append.mp hinput with hinput | hinput
    · rw [hinputs] at hinput
      obtain ⟨other, hother, hmeant⟩ := h.heard input hinput
      refine ⟨other, ?_, hmeant⟩
      cases hfinds with
      | known => exact hother
      | fresh hmade hfree hnamed =>
          exact (List.getElem?_append_left (List.getElem?_eq_some_iff.mp hother).1).trans hother
    · rw [List.mem_singleton.mp hinput]
      refine ⟨session, hsession, ?_⟩
      -- the table's own account says that the session is the right one
      rcases (h.inv.handlePacket hlib hview).2 with hsame | ⟨decoded', index, -, hlogged,
        hrightful⟩
      · have hlength := congrArg (fun table => table.inputs.length) hsame
        simp [UdpListener.view, Shimakaze.UdpListener.input, hinputs] at hlength
      · have hlast : (index, decoded') = (j, decoded) := by
          simp only [UdpListener.view, Shimakaze.UdpListener.input, hinputs,
            List.append_cancel_left_eq, List.cons.injEq, and_true] at hlogged
          exact hlogged.symm
        obtain ⟨rfl, rfl⟩ := Prod.mk.inj hlast
        obtain ⟨transport, htransport, -, hsender, hconv⟩ := hrightful.session
        have hget := UdpListener.view_getElem? hsession
        rw [show (found.view.input index decoded').transports = found.view.transports from rfl,
          hget] at htransport
        obtain rfl := Option.some.inj htransport
        exact ⟨hsender, fun offset hoffset => (hconv offset hoffset).2⟩
  · intro k hk
    rw [UdpListener.put, List.length_set] at hk
    rcases Nat.lt_or_ge k listener.entries.length with hlt | hge
    · obtain ⟨input, hinput, hsame, hnamed⟩ := h.named k hlt
      exact ⟨input, List.mem_append_left _ (hinputs ▸ hinput), hsame, hnamed⟩
    · -- the session is the one that was made for this packet
      cases hfinds with
      | known => exact absurd hk (not_lt.mpr hge)
      | fresh hmade hfree hnamed =>
          have hlast : k = listener.entries.length := by
            rw [UdpListener.addSession, List.length_append, List.length_singleton] at hk
            omega
          exact ⟨_, List.mem_append_right _ (List.mem_singleton_self _), hlast.symm, hnamed⟩

/-! ### The steps -/

/-- What an event of the server may be to the table of the listener `i`: a datagram that arrives
there is that datagram, and one transport may close at it; when a function of a session there has
run, its transport may have closed; and otherwise it is nothing. -/
inductive Event.AtTable (i : ℕ) :
    Event Address → List (Shimakaze.UdpListener.Event Address) → Prop
  | datagram {sender : UdpEndpoint Address} {bytes : Bytes} {delivered : List Bytes}
      {closed : List ℕ} (hclosed : closed.length ≤ 1) :
      AtTable i (.received i sender bytes delivered) [.datagram sender bytes closed]
  | closed {j : ℕ} {event : SessionEntry.Event} : AtTable i (.ran i j event) [.closed j]
  | nothing {event : Event Address}
      (hother : ∀ sender bytes delivered, event ≠ .received i sender bytes delivered) :
      AtTable i event []

/-- The table of the listener `i` goes from one state to another by what an event is to it. -/
def TableRuns (setup : ServerSetup Address) (i : ℕ) (event : Event Address)
    (table table' : Shimakaze.UdpListener Address) : Prop :=
  ∃ es, event.AtTable i es ∧
    (UdpListener.machine setup.lib setup.config.toBaseConfig setup.crypt).run table es = some table'

/-- A datagram at a table. -/
theorem run_datagram {table table' : Shimakaze.UdpListener Address} {bytes : Bytes}
    (hhandle : table.handlePacket setup.lib setup.config.toBaseConfig setup.crypt sender bytes =
      .ok table') (closed : List ℕ) :
    (UdpListener.machine setup.lib setup.config.toBaseConfig setup.crypt).run table
      [.datagram sender bytes closed] = some (closed.foldl Shimakaze.UdpListener.close table') := by
  rw [EventMachine.run_cons, UdpListener.machine]
  simp only [Shimakaze.UdpListener.step, hhandle]
  rfl

/-- What an event does, once a datagram has been counted. -/
inductive Change (setup : ServerSetup Address) (server : Server Address) :
    Event Address → Server Address → Prop
  /-- Nothing to any table. -/
  | quiet {event : Event Address}
      (hidle : ∀ (i : ℕ) (listener : UdpListener Address), server.listeners[i]? = some listener →
        TableRuns setup i event listener.view listener.view) : Change setup server event server
  /-- A function of a session. -/
  | ran {i j : ℕ} {event : SessionEntry.Event} {listener : UdpListener Address}
      {session : ServerSession Address} {entry : SessionEntry}
      (hlistener : server.listeners[i]? = some listener)
      (hsession : listener.entries[j]? = some session)
      (hruns : session.toSessionEntry.Runs setup.lib.crypto setup.setting [] entry) :
      Change setup server (.ran i j event) (server.put i listener j session entry)
  /-- A session takes in a datagram. -/
  | given {i j : ℕ} {listener found : UdpListener Address} {counted : Server Address}
      {sender : UdpEndpoint Address} {bytes decoded : Bytes} {delivered : List Bytes}
      {session : ServerSession Address} {entry : SessionEntry}
      (hlistener : server.listeners[i]? = some listener)
      (hdecrypt : setup.crypt.decrypt setup.lib.crypto bytes = some decoded)
      (hfinds : Finds setup server listener decoded j counted found)
      (hsession : found.entries[j]? = some session)
      (hruns : session.toSessionEntry.Runs setup.lib.crypto setup.setting [decoded] entry)
      (hview : listener.view.handlePacket setup.lib setup.config.toBaseConfig setup.crypt sender
        bytes = .ok (found.view.input j decoded)) :
      Change setup server (.received i sender bytes delivered) (counted.put i
        { found with inputs := found.inputs ++ [(j, sender, decoded)] } j session entry)

/-- **What a step does**: after the counters of datagrams or the clock, one of the changes. -/
theorem step_cases
    (h : ∀ (i : ℕ) (listener : UdpListener Address), server.listeners[i]? = some listener →
      ListenerSound setup listener)
    {event : Event Address} (hstep : server.step setup event = some after) :
    ∃ ready, Quiet server ready ∧ Change setup ready event after := by
  cases event with
  | received i sender bytes delivered =>
      obtain ⟨listener, hlistener, hhandle⟩ := Option.bind_eq_some_iff.mp hstep
      have hquiet := (count_quiet server 1 (by decide : SnmpField.inPkts ∈ _)).trans
        (count_quiet (server.count .inPkts 1) (UInt64.ofNat bytes.length)
          (by decide : SnmpField.inBytes ∈ _))
      rcases handlePacket_cases (h i listener hlistener).inv (ok_of_toOption hhandle) with
        ⟨hcounted, hview⟩ | ⟨counted, found, decoded, j, session, entry, hdecrypt, hfinds, hsession,
          hruns, rfl, hview⟩
      · have hready := hquiet.trans hcounted
        refine ⟨after, hready, .quiet fun k other hother => ?_⟩
        by_cases hsame : k = i
        · subst hsame
          rw [hready.listeners_eq, hlistener] at hother
          obtain rfl := Option.some.inj hother
          exact ⟨[.datagram sender bytes []], .datagram (Nat.zero_le 1), run_datagram hview []⟩
        · exact ⟨[], .nothing (by simp [Ne.symm hsame]), rfl⟩
      · exact ⟨_, hquiet, .given hlistener hdecrypt hfinds hsession hruns hview⟩
  | receiveFailed i aborted =>
      obtain ⟨listener, -, rfl⟩ := Option.map_eq_some_iff.mp hstep
      split_ifs
      · exact ⟨server, Quiet.refl server, .quiet fun _ _ _ => ⟨[], .nothing (by simp), rfl⟩⟩
      · exact ⟨_, count_quiet server 1 (by decide), .quiet fun _ _ _ =>
          ⟨[], .nothing (by simp), rfl⟩⟩
  | ran i j event =>
      obtain ⟨listener, hlistener, hrun⟩ := Option.bind_eq_some_iff.mp hstep
      obtain ⟨session, hsession, hrun⟩ := Option.bind_eq_some_iff.mp hrun
      obtain ⟨entry, hentry, hkept⟩ := Option.bind_eq_some_iff.mp hrun
      split_ifs at hkept
      obtain rfl := Option.some.inj hkept
      exact ⟨server, Quiet.refl server,
        .ran hlistener hsession (SessionEntry.step_runs hentry)⟩
  | elapsed duration =>
      obtain rfl := Option.some.inj hstep
      exact ⟨{ server with now := server.now + duration }, ⟨rfl, id⟩, .quiet fun _ _ _ =>
        ⟨[], .nothing (by simp), rfl⟩⟩

omit [DecidableEq Address] in
/-- Looking for a session changes no listener. -/
theorem Finds.listeners_eq {counted : Server Address} {found : UdpListener Address}
    {decoded : Bytes} (h : Finds setup server listener decoded j counted found) :
    counted.listeners = server.listeners := by
  cases h <;> rfl

/-- **One step** keeps every listener sound. -/
theorem listeners_step (hlib : setup.lib.Lawful)
    (h : ∀ (i : ℕ) (listener : UdpListener Address), server.listeners[i]? = some listener →
      ListenerSound setup listener)
    {event : Event Address} (hstep : server.step setup event = some after) (k : ℕ)
    (listener : UdpListener Address) (hlistener : after.listeners[k]? = some listener) :
    ListenerSound setup listener := by
  obtain ⟨ready, hquiet, hchange⟩ := step_cases h hstep
  rw [← hquiet.listeners_eq] at h
  cases hchange with
  | quiet => exact h k listener hlistener
  | ran hold hsession hruns =>
      rcases (Registry.getElem?_set_eq_some hold).mp hlistener with ⟨-, rfl⟩ | ⟨-, hother⟩
      · exact (h _ _ hold).put hsession hruns
      · exact h k listener hother
  | given hold hdecrypt hfinds hsession hruns hview =>
      rw [← hfinds.listeners_eq] at h hold
      rcases (Registry.getElem?_set_eq_some hold).mp hlistener with ⟨-, rfl⟩ | ⟨-, hother⟩
      · exact (h _ _ hold).given hlib hfinds hsession hruns hview
      · exact h k listener hother

/-- **What an event is to the table of a listener**: the listener that has changed runs its table
by the event, and for the others it is nothing. -/
theorem table_change {event : Event Address} (h : Change setup server event after) {k : ℕ}
    (hlistener : server.listeners[k]? = some listener) :
    ∃ listener', after.listeners[k]? = some listener' ∧
      TableRuns setup k event listener.view listener'.view := by
  cases h with
  | quiet hidle => exact ⟨listener, hlistener, hidle k listener hlistener⟩
  | @ran i j event old session entry hold hsession hruns =>
      rcases eq_or_ne i k with rfl | hne
      · obtain rfl := Option.some.inj (hold.symm.trans hlistener)
        obtain ⟨closed, hclosed, hview⟩ := UdpListener.view_put hsession hruns
        refine ⟨_, List.getElem?_set_self (List.getElem?_eq_some_iff.mp hold).1, ?_⟩
        rcases hclosed with rfl | rfl
        · exact ⟨[], .nothing (by simp), congrArg some hview.symm⟩
        · exact ⟨_, .closed, congrArg some hview.symm⟩
      · exact ⟨listener, (List.getElem?_set_ne hne).trans hlistener, [],
          .nothing (by simp), rfl⟩
  | @given i j old found counted sender bytes decoded delivered session entry hold hdecrypt hfinds
      hsession hruns hview =>
      rw [put, hfinds.listeners_eq]
      rcases eq_or_ne i k with rfl | hne
      · obtain rfl := Option.some.inj (hold.symm.trans hlistener)
        obtain ⟨closed, hclosed, hput⟩ := @UdpListener.view_put _ setup
          { found with inputs := found.inputs ++ [(j, sender, decoded)] } j session entry _
          hsession hruns
        rw [UdpListener.view_note] at hput
        refine ⟨_, List.getElem?_set_self (List.getElem?_eq_some_iff.mp hold).1,
          [.datagram sender bytes closed], .datagram ?_, hput ▸ run_datagram hview closed⟩
        rcases hclosed with rfl | rfl
        · exact Nat.zero_le 1
        · exact le_rfl
      · exact ⟨listener, (List.getElem?_set_ne hne).trans hlistener, [],
          .nothing (by simp [hne]), rfl⟩

end Server

end Shimakaze
