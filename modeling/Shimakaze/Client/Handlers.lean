import Shimakaze.Client.Connections

/-!
# What a Handler Does to Its Connection

Every handler of the client runs functions of one connection: its session, its transport and
its socket. `Handles` says what a whole handler leaves alone and keeps, so that the invariants
of the client follow without a look at the functions.

A connection is `Sound` when its parts stand as the program needs them: a closed session has
closed the transport, the socket is open exactly as long as the transport is, and the transport
has taken in nothing but packets of its own peer and conversation. It is `Listening` when an open
socket has one receive outstanding and a closed one at most one. The buffer and the endpoint a
receive writes to are members of the connection, so a second receive at the same time would
overwrite them.

## Main results

* `withEntry_handles`: a function of the session or the transport.
* `handleReceive_handles`, `handleReceive_total`: the receive handler, whatever arrives and
  whatever KCP delivers.
-/

namespace Shimakaze

namespace Connection

variable {Address : Type} {setup : ClientSetup} {c c' : Connection Address}

variable [DecidableEq Address]

/-- The parts of a connection stand as the program needs them. -/
structure Sound (setup : ClientSetup) (c : Connection Address) : Prop where
  entry : c.toSessionEntry.Sound setup.config.toBaseConfig
  socket : c.socketOpen = !c.closing
  heard : ∀ input ∈ c.inputs, c.accepts setup input.1 input.2 = true

/-- One receive is outstanding, or none on a closed socket. -/
structure Listening (c : Connection Address) : Prop where
  at_most_one : c.receives ≤ 1
  never_deaf : c.socketOpen = true → c.receives = 1

/-- The members that no handler changes. -/
def identity (c : Connection Address) : UdpEndpoint Address × UInt32 × ℕ × List ℕ :=
  (c.remoteEndpoint, c.conv, c.expiry, c.opened)

/-- The packets that the transport has taken in. -/
def packets (c : Connection Address) : List Bytes := c.inputs.map Prod.snd

/-- The session and the transport run, and what the transport takes in is in the list. -/
def Logs (setup : ClientSetup) (c c' : Connection Address) : Prop :=
  ∃ packets, c.toSessionEntry.Runs setup.lib.crypto setup.setting packets c'.toSessionEntry ∧
    c'.packets = c.packets ++ packets

/-- What a handler of a connection does to it: it keeps the identity, runs functions of the
session and the transport, and a sound connection that listens stays one. -/
structure Handles (setup : ClientSetup) (c c' : Connection Address) : Prop where
  identity_eq : c'.identity = c.identity
  entry : c.Logs setup c'
  sound : c.Sound setup → c'.Sound setup
  listening : c.Listening → c'.Listening

/-- The members one by one. -/
theorem Handles.members (h : Handles setup c c') : c'.remoteEndpoint = c.remoteEndpoint ∧
    c'.conv = c.conv ∧ c'.expiry = c.expiry ∧ c'.opened = c.opened := by
  have hidentity := h.identity_eq
  simpa only [identity, Prod.mk.injEq] using hidentity

theorem Handles.stays_closed (h : Handles setup c c') (hclosed : c.smux.closed = true) :
    c'.smux.closed = true := by
  obtain ⟨packets, hruns, -⟩ := h.entry
  exact hruns.stays_closed hclosed

theorem Handles.stays_closing (h : Handles setup c c') (hclosing : c.closing = true) :
    c'.closing = true := by
  obtain ⟨packets, hruns, -⟩ := h.entry
  exact hruns.stays_closing hclosing

/-! ### Functions of the parts -/

/-- What is accepted depends on the identity only. -/
theorem accepts_congr (h : c'.identity = c.identity) (sender : UdpEndpoint Address)
    (decoded : Bytes) : c'.accepts setup sender decoded = c.accepts setup sender decoded := by
  simp only [identity, Prod.mk.injEq] at h
  rw [accepts, accepts, h.1, h.2.1]

omit [DecidableEq Address] in
/-- The socket after a function of the session or the transport. -/
theorem withEntry_socket {entry : SessionEntry} {packets : List Bytes}
    (h : c.toSessionEntry.Runs setup.lib.crypto setup.setting packets entry)
    (hsocket : c.socketOpen = !c.closing) : (c.withEntry entry).socketOpen = !entry.closing := by
  rw [withEntry]
  dsimp only
  cases hbefore : c.closing with
  | true =>
      rw [h.stays_closing hbefore, hsocket, hbefore]
      rfl
  | false =>
      rw [hsocket, hbefore]
      cases entry.closing <;> rfl

/-- **A function of the session or the transport.** -/
theorem withEntry_handles {entry : SessionEntry}
    (h : c.toSessionEntry.Runs setup.lib.crypto setup.setting [] entry) :
    Handles setup c (c.withEntry entry) where
  identity_eq := rfl
  entry := ⟨[], h, (List.append_nil _).symm⟩
  sound hsound := ⟨h.sound _ hsound.entry, withEntry_socket h hsound.socket, hsound.heard⟩
  listening hlistening := by
    refine ⟨hlistening.at_most_one, fun hopen => hlistening.never_deaf ?_⟩
    rw [withEntry] at hopen
    dsimp only at hopen
    split_ifs at hopen
    exact hopen

/-! ### The receive handler -/

/-- The next receive makes up for the one the handler was called for. -/
theorem startUdpReceive_handles (h : c.Logs setup c')
    (hidentity : c'.identity = c.identity) (hreceives : c'.receives = c.receives - 1)
    (hsound : c.Sound setup → c'.Sound setup) (hpending : 0 < c.receives) :
    Handles setup c c'.startUdpReceive where
  identity_eq := hidentity
  entry := h
  sound hbefore := ⟨(hsound hbefore).entry, (hsound hbefore).socket, (hsound hbefore).heard⟩
  listening hlistening := by
    have hone := hlistening.at_most_one
    have hagain : c'.startUdpReceive.receives = 1 := by
      rw [startUdpReceive, hreceives]
      dsimp only
      omega
    exact ⟨hagain.le, fun _ => hagain⟩

/-- The end of the handler: there is a next receive unless the socket has been closed. -/
theorem restart_handles (h : c.Logs setup c')
    (hidentity : c'.identity = c.identity) (hreceives : c'.receives = c.receives - 1)
    (hsound : c.Sound setup → c'.Sound setup) (hpending : 0 < c.receives) :
    Handles setup c c'.restart := by
  rw [restart]
  split_ifs with hopen
  · exact startUdpReceive_handles h hidentity hreceives hsound hpending
  · refine ⟨hidentity, h, hsound, fun hlistening => ?_⟩
    have hone := hlistening.at_most_one
    exact ⟨by omega, fun habsurd => absurd habsurd hopen⟩

/-- The handler without a datagram of its own. -/
theorem received_handles (hpending : 0 < c.receives) :
    Handles setup c c.received.startUdpReceive ∧ Handles setup c c.received.restart := by
  have hsame : c.Sound setup → c.received.Sound setup := fun hsound =>
    ⟨hsound.entry, hsound.socket, hsound.heard⟩
  have hlogs : c.Logs setup c.received :=
    ⟨[], .refl _ _ c.toSessionEntry, (List.append_nil _).symm⟩
  exact ⟨startUdpReceive_handles hlogs rfl rfl hsame hpending,
    restart_handles hlogs rfl rfl hsame hpending⟩

/-- `transport->input` on a packet that the handler accepts. -/
theorem input_handles {now : ℕ} {sender : UdpEndpoint Address} {packet : Bytes}
    {delivered : List Bytes} (haccepts : c.accepts setup sender packet = true)
    (h : c.received.input setup now sender packet delivered = .ok c') (hpending : 0 < c.receives) :
    Handles setup c c'.restart := by
  obtain ⟨entry, hentry, h⟩ := bind_eq_ok_iff.mp h
  obtain rfl := Except.ok.inj h
  have hruns : c.toSessionEntry.Runs setup.lib.crypto setup.setting [packet] entry :=
    SessionEntry.input_runs hentry
  refine restart_handles ⟨[packet], hruns, List.map_append⟩ rfl rfl (fun hsound => ?_) hpending
  refine ⟨hruns.sound _ hsound.entry, withEntry_socket hruns hsound.socket, fun input hinput => ?_⟩
  rcases List.mem_append.mp hinput with hinput | hinput
  · exact (accepts_congr rfl _ _).trans (hsound.heard input hinput)
  · rw [List.mem_singleton.mp hinput]
    exact (accepts_congr rfl _ _).trans haccepts

/-- **The receive handler**, whatever arrives and whatever KCP delivers. -/
theorem handleReceive_handles {now : ℕ} {sender : UdpEndpoint Address} {bytes : Bytes}
    {delivered : List Bytes} {damaged : Bool} (hpending : 0 < c.receives)
    (h : c.handleReceive setup now sender bytes delivered = .ok (damaged, c')) :
    Handles setup c c' := by
  rw [handleReceive] at h
  cases hdecrypt : setup.crypt.decrypt setup.lib.crypto bytes with
  | none =>
      rw [hdecrypt] at h
      obtain ⟨-, rfl⟩ := Prod.mk.inj (Except.ok.inj h)
      exact (received_handles hpending).1
  | some decoded =>
      rw [hdecrypt] at h
      dsimp only at h
      split_ifs at h with hshort haccepts
      · obtain ⟨-, rfl⟩ := Prod.mk.inj (Except.ok.inj h)
        exact (received_handles hpending).1
      · obtain ⟨after, hinput, h⟩ := bind_eq_ok_iff.mp h
        obtain ⟨-, rfl⟩ := Prod.mk.inj (Except.ok.inj h)
        exact input_handles haccepts hinput hpending
      · obtain ⟨-, rfl⟩ := Prod.mk.inj (Except.ok.inj h)
        exact (received_handles hpending).2

/-- **The receive handler does not throw** if the codec does not. -/
theorem handleReceive_total (h : c.received.transport.transport.fec.Decodable)
    (setup : ClientSetup) (now : ℕ) (sender : UdpEndpoint Address) (bytes : Bytes)
    (delivered : List Bytes) :
    ∃ damaged c', c.handleReceive setup now sender bytes delivered = .ok (damaged, c') := by
  rw [handleReceive]
  cases setup.crypt.decrypt setup.lib.crypto bytes with
  | none => exact ⟨_, _, rfl⟩
  | some decoded =>
      dsimp only
      split_ifs
      · exact ⟨_, _, rfl⟩
      · obtain ⟨entry, hentry⟩ := @SessionEntry.input_total setup.setting _ h now decoded delivered
        rw [input, hentry]
        exact ⟨_, _, rfl⟩
      · exact ⟨_, _, rfl⟩

end Connection

end Shimakaze
