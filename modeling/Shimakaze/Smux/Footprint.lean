import Shimakaze.Smux.Arrivals
import Shimakaze.Smux.Table

/-!
# What a Peer Can Make a Session Hold

A session buffers what it cannot use yet: the bytes of a frame that is not complete, and with
compression those of a chunk that is not complete. Both buffers are the peer's to fill, so
this module bounds them, for arbitrary bytes of the peer. The declared sizes have 16 and 24
bits, and a session that does not wait for more has taken everything out of the buffer or is
closed.

## Main results

* `Contained.step`: what every event of a session keeps.
* `peer_memory_bounded`: **whatever the peer sends, the two buffers of an open session stay
  below the largest frame and the largest chunk, and the receive buffer never exceeds its
  capacity.**
* `launch_contained`: in particular a session and its transport close together.
-/

namespace Shimakaze

namespace SmuxSession

variable {setting : Setting} {s t : SmuxSession}

/-! ### A session and its transport -/

/-- Whether a session is closed and whether it has closed its transport. -/
def ending (s : SmuxSession) : Bool × Bool := (s.closed, s.transportClosed)

theorem sendFrame_ending (s : SmuxSession) (command : Command) (streamId : UInt32)
    (payload : Bytes) : (s.sendFrame setting command streamId payload).ending = s.ending := by
  rw [sendFrame]
  split_ifs <;> rfl

theorem foldl_perform_ending (calls : List SessionCall) (s : SmuxSession) :
    (calls.foldl (perform setting) s).ending = s.ending := by
  induction calls generalizing s with
  | nil => rfl
  | cons call calls ih =>
      rw [List.foldl_cons, ih]
      cases call with
      | sendFrame command streamId payload => exact s.sendFrame_ending _ _ _
      | sendUpdate streamId consumed window => exact s.sendFrame_ending _ _ _
      | streamClosed streamId => rfl

/-- A function of a stream closes neither. -/
theorem onObject_ending (s : SmuxSession) (index : ℕ) (fn : SmuxStream → Outcome) :
    (s.onObject setting index fn).ending = s.ending := by
  rw [onObject.eq_def]
  split
  · exact foldl_perform_ending _ _
  · rfl

theorem onStream_ending (s : SmuxSession) (streamId : UInt32) (fn : SmuxStream → Outcome) :
    (s.onStream setting streamId fn).ending = s.ending := by
  rw [onStream.eq_def]
  split
  · exact s.onObject_ending _ _
  · rfl

/-- Nor does a frame that passed the checks. -/
theorem dispatch_ending (s : SmuxSession) (frame : Frame) :
    (s.dispatch setting frame).ending = s.ending := by
  simp only [dispatch]
  split
  · rfl
  · split_ifs
    · rfl
    · rw [accept.eq_def]
      split
      · exact onObject_ending _ _ _
      · rfl
  · exact onStream_ending _ _ _
  · exact onStream_ending _ _ _
  · exact onStream_ending _ _ _

/-- The session and its transport are both open or both closed. -/
def Together (s : SmuxSession) : Prop := s.transportClosed = s.closed

theorem Together.congr (h : s.Together) (heq : t.ending = s.ending) : t.Together := by
  obtain ⟨hclosed, htransport⟩ := Prod.mk.inj heq
  rw [Together, htransport, hclosed]
  exact h

/-- `close` closes both. -/
theorem Together.close (h : s.Together) : (s.close setting).Together := by
  by_cases hclosed : s.closed = true
  · rw [SmuxSession.close, if_pos hclosed]
    exact h
  · rw [Together, close_closed, SmuxSession.close, if_neg hclosed]

theorem Together.protocolError (h : s.Together) (message : String) :
    (s.protocolError setting message).Together :=
  Together.close (s := { s with protocolErrorMessage := some message }) h

theorem Together.keepaliveTick (h : s.Together) (now : ℕ) :
    (s.keepaliveTick setting now).Together := by
  have hsent : (s.sendFrame setting .nop 0 []).Together := h.congr (s.sendFrame_ending _ _ _)
  simp only [SmuxSession.keepaliveTick]
  split_ifs
  · exact h
  · exact hsent.close
  · rw [startKeepaliveTimer]
    split_ifs <;> exact hsent

/-- **Everything but an arrival.** -/
theorem Together.act (h : s.Together) {now : ℕ} {e : SessionEvent}
    (hact : s.act setting now e = some t) : t.Together := by
  cases e with
  | openStream kind =>
      simp only [SmuxSession.act] at hact
      split at hact
      · next f index hok =>
        obtain rfl := Option.some.inj hact
        obtain ⟨-, -, rfl⟩ := openStream_eq_ok hok
        have hopened := @sendFrame_ending setting
          { s with nextStreamId := s.nextStreamId + 2 } .syn (s.nextStreamId + 2) []
        exact h.congr ((onObject_ending _ _ _).trans hopened)
      · exact absurd hact (by simp)
  | completion index c =>
      simp only [SmuxSession.act, Option.bind_eq_some_iff, Option.map_eq_some_iff] at hact
      obtain ⟨r, -, o, -, rfl⟩ := hact
      exact h.congr
        (foldl_perform_ending o.calls { s with objects := s.objects.set index o.stream })
  | closeStream index =>
      obtain rfl := Option.some.inj hact
      exact h.congr (s.onObject_ending index _)
  | keepalive =>
      simp only [SmuxSession.act] at hact
      split_ifs at hact
      obtain rfl := Option.some.inj hact
      exact Together.keepaliveTick (s := { s with keepaliveTimer := none }) h now
  | close =>
      obtain rfl := Option.some.inj hact
      exact h.close

/-! ### The two buffers -/

/-- The decompressor waits for more bytes. -/
def Awaiting (setting : Setting) (s : SmuxSession) : Prop :=
  Snappy.verdict setting.snappy s.decompressor.sawIdentifier s.decompressor.buffer = .more

/-- What holds of a session whatever the peer sends: it is closed with its transport, its receive
buffer keeps to the capacity, and while it is open both buffers wait for more bytes. -/
structure Contained (setting : Setting) (s : SmuxSession) : Prop where
  together : s.Together
  capacity : s.receiveBuffer.length ≤ setting.config.smuxCapacity
  idle : s.closed = false → s.Idle setting
  awaiting : s.closed = false → s.Awaiting setting

/-- A buffer that waits for a frame is shorter than the largest one. -/
theorem Idle.length_lt (h : s.Idle setting) : s.receiveBuffer.length < 8 + 65535 := by
  by_contra hlong
  have hlength := (readLe16 (s.receiveBuffer.drop 2)).toNat_lt
  rw [Idle, nextFrame, if_neg (by rw [smuxHeaderSize]; omega)] at h
  dsimp only at h
  split_ifs at h with hversion hshort
  · rw [smuxHeaderSize] at hshort
    omega
  · split at h <;> cases h

theorem readLen24_lt (bytes : Bytes) : readLen24 bytes < 2 ^ 24 := by
  rw [readLen24.eq_def]
  split
  · next b₀ b₁ b₂ _ =>
    have h₀ := b₀.toNat_lt
    have h₁ := b₁.toNat_lt
    have h₂ := b₂.toNat_lt
    omega
  · decide

/-- One that waits for a chunk is shorter than the largest one. -/
theorem Awaiting.length_lt (h : s.Awaiting setting) :
    s.decompressor.buffer.length < 4 + (2 ^ 24 - 1) := by
  by_contra hlong
  have hlength := readLen24_lt (s.decompressor.buffer.drop 1)
  rw [Awaiting, Snappy.verdict_of_complete _ _ (by omega) (by omega)] at h
  split at h <;> cases h

/-- The loop of `consume_stream_bytes` takes bytes out of the receive buffer and closes the
transport with the session. -/
theorem consumeLoop_contained (fuel : ℕ) (h : s.Together) :
    (consumeLoop setting fuel s).Together ∧
      (consumeLoop setting fuel s).receiveBuffer.length ≤ s.receiveBuffer.length ∧
      (consumeLoop setting fuel s).decompressor = s.decompressor := by
  induction fuel generalizing s with
  | zero => exact ⟨h, le_rfl, rfl⟩
  | succ fuel ih =>
      rw [consumeLoop]
      split_ifs with hclosed
      · exact ⟨h, le_rfl, rfl⟩
      · split
        · exact ⟨h, le_rfl, rfl⟩
        · next message _ =>
          rw [protocolError_input]
          exact ⟨h.protocolError message, le_rfl, rfl⟩
        · next frame size _ =>
          have hframe : (s.dispatch setting frame).Together := h.congr (s.dispatch_ending frame)
          obtain ⟨htogether, hlength, hdecoder⟩ := ih (s := { s.dispatch setting frame with
            receiveBuffer := (s.dispatch setting frame).receiveBuffer.drop size }) hframe
          refine ⟨htogether, hlength.trans ?_, hdecoder.trans ?_⟩
          · rw [List.length_drop, dispatch_receiveBuffer]
            exact Nat.sub_le _ _
          · dsimp only
            rw [dispatch_input]
            rfl

/-- **A session that closes** keeps what is in its buffers. -/
theorem Contained.protocolError (htogether : s.Together)
    (hcapacity : s.receiveBuffer.length ≤ setting.config.smuxCapacity) (message : String) :
    Contained setting (s.protocolError setting message) := by
  have hclosed := @protocolError_closed setting s message
  refine ⟨htogether.protocolError message, ?_, fun hopen => ?_, fun hopen => ?_⟩
  · rw [protocolError_input]
    exact hcapacity
  · exact absurd (hclosed.symm.trans hopen) (by decide)
  · exact absurd (hclosed.symm.trans hopen) (by decide)

theorem Together.consumeStreamBytes (h : s.Together) (bytes : Bytes) :
    (s.consumeStreamBytes setting bytes).Together := by
  rw [SmuxSession.consumeStreamBytes]
  split_ifs
  · exact h.protocolError _
  · exact (@consumeLoop_contained setting
      { s with receiveBuffer := s.receiveBuffer ++ bytes } _ h).1

/-- An arrival of any bytes closes both or neither. -/
theorem Together.onTransportBytes (h : s.Together) (now : ℕ) (bytes : Bytes) :
    (s.onTransportBytes setting now bytes).Together := by
  have hchunks (chunks : List Bytes) {s : SmuxSession} (h : s.Together) :
      (chunks.foldl (SmuxSession.consumeStreamBytes setting) s).Together := by
    induction chunks generalizing s with
    | nil => exact h
    | cons chunk chunks ih => exact ih (h.consumeStreamBytes chunk)
  by_cases hignored : s.closed ∨ bytes = []
  · rw [onTransportBytes_of_ignored hignored]
    exact h
  · rw [not_or, Bool.not_eq_true] at hignored
    have hunpack : (s.unpack setting now bytes).1.Together := by
      rw [unpack]
      split_ifs <;> exact h
    rw [onTransportBytes_eq hignored.1 now hignored.2]
    split
    · exact hchunks _ hunpack
    · exact hunpack.protocolError _

/-- A closed session takes nothing out of its receive buffer. -/
theorem consumeLoop_of_closed (hclosed : s.closed = true) (fuel : ℕ) :
    consumeLoop setting fuel s = s := by
  cases fuel with
  | zero => rfl
  | succ fuel => rw [consumeLoop, if_pos hclosed]

/-- **One chunk.** -/
theorem Contained.consumeStreamBytes (h : Contained setting s) (bytes : Bytes) :
    Contained setting (s.consumeStreamBytes setting bytes) := by
  by_cases hfit : s.receiveBuffer.length + bytes.length ≤ setting.config.smuxCapacity
  · rw [SmuxSession.consumeStreamBytes, if_neg (not_lt.mpr hfit)]
    obtain ⟨buffered, hbuffered⟩ : ∃ buffered : SmuxSession,
      buffered = { s with receiveBuffer := s.receiveBuffer ++ bytes } := ⟨_, rfl⟩
    rw [← hbuffered]
    change Contained setting (consumeLoop setting buffered.receiveBuffer.length buffered)
    have hclosed : buffered.closed = s.closed := by rw [hbuffered]
    obtain ⟨htogether, hlength, hdecoder⟩ := @consumeLoop_contained setting buffered
      buffered.receiveBuffer.length (hbuffered ▸ h.together)
    have hstays : (consumeLoop setting buffered.receiveBuffer.length buffered).closed = false →
        s.closed = false := by
      intro hopen
      rw [← hclosed, ← Bool.not_eq_true]
      intro hbufferedClosed
      rw [consumeLoop_of_closed hbufferedClosed] at hopen
      exact absurd (hbufferedClosed.symm.trans hopen) (by decide)
    refine ⟨htogether, hlength.trans ?_, fun hopen => ?_, fun hopen => ?_⟩
    · rw [hbuffered]
      exact List.length_append.trans_le hfit
    · have hbufferedOpen := hclosed.trans (hstays hopen)
      have habsorbed := @consumeLoop_absorbed setting _ buffered hbufferedOpen le_rfl
      obtain ⟨tail, htail⟩ := (habsorbed.closed hbufferedOpen).mp hopen
      exact (habsorbed.idle htail).1
    · rw [Awaiting, hdecoder, hbuffered]
      exact h.awaiting (hstays hopen)
  · rw [SmuxSession.consumeStreamBytes, if_pos (not_le.mp hfit)]
    exact Contained.protocolError h.together h.capacity "smux receive buffer overflow"

/-- The chunks of an arrival. -/
theorem Contained.consumeChunks (h : Contained setting s) (chunks : List Bytes) :
    Contained setting (chunks.foldl (SmuxSession.consumeStreamBytes setting) s) := by
  induction chunks generalizing s with
  | nil => exact h
  | cons chunk chunks ih => exact ih (h.consumeStreamBytes chunk)

/-- A decompressor that returns without an error waits for more bytes. -/
theorem verdict_decode {lib : SnappyLib} {decoder : SnappyStreamDecoder} {bytes : Bytes}
    {chunks : List Bytes} (h : (decoder.decode lib bytes).2 = .ok chunks) :
    Snappy.verdict lib (decoder.decode lib bytes).1.sawIdentifier
      (decoder.decode lib bytes).1.buffer = .more := by
  have hdrain := Snappy.decodeLoop_eq_drain lib (decoder.buffer ++ bytes).length
    (decoder.buffer ++ bytes) decoder.sawIdentifier [] le_rfl
  rw [Snappy.decodeResult] at hdrain
  rw [SnappyStreamDecoder.decode] at h ⊢
  cases hstanding : ((Snappy.snappyFraming lib).drain decoder.sawIdentifier
      (decoder.buffer ++ bytes)).standing with
  | failed message =>
      rw [hstanding] at hdrain
      rw [hdrain] at h
      cases h
  | waiting saw tail =>
      rw [hstanding] at hdrain
      have hmore := Framing.step_eq_more_of_drain hstanding
      rw [hdrain]
      exact hmore

/-- **An arrival of any bytes.** -/
theorem Contained.onTransportBytes (h : Contained setting s) (now : ℕ) (bytes : Bytes) :
    Contained setting (s.onTransportBytes setting now bytes) := by
  by_cases hignored : s.closed ∨ bytes = []
  · rw [onTransportBytes_of_ignored hignored]
    exact h
  · rw [not_or, Bool.not_eq_true] at hignored
    rw [onTransportBytes_eq hignored.1 now hignored.2, unpack]
    split_ifs with hnocomp
    · exact Contained.consumeChunks (s := { s with lastActivity := now })
        ⟨h.together, h.capacity, h.idle, h.awaiting⟩ [bytes]
    · split
      · next chunks hchunks =>
        refine Contained.consumeChunks ?_ chunks
        exact ⟨h.together, h.capacity, h.idle, fun _ => verdict_decode hchunks⟩
      · next message _ =>
        refine Contained.protocolError ?_ ?_ message
        · exact h.together
        · exact h.capacity

/-- **One event** of a session, or an arrival. -/
theorem Contained.step (h : Contained setting s) {e : SessionInput}
    (hstep : (sessionMachine setting).step s e = some t) : Contained setting t := by
  cases e with
  | arrival now bytes =>
      obtain rfl := Option.some.inj hstep
      exact h.onTransportBytes now bytes
  | act now e =>
      have hact : s.act setting now e = some t := hstep
      obtain ⟨-, hbuffer, hdecoder⟩ : t.progress = s.progress ∧
          t.receiveBuffer = s.receiveBuffer ∧ t.decompressor = s.decompressor := by
        have hprogress := act_progress hact
        simp only [progress, Prod.mk.injEq] at hprogress
        exact ⟨act_progress hact, hprogress.2.1, hprogress.2.2⟩
      have hstays : t.closed = false → s.closed = false := fun hopen => by
        rw [← Bool.not_eq_true]
        intro hclosed
        have := (@act_evolves _ _ _ [] _ _ hact).stays_closed hclosed
        exact absurd (this.symm.trans hopen) (by decide)
      refine ⟨h.together.act hact, hbuffer ▸ h.capacity, fun hopen => ?_, fun hopen => ?_⟩
      · rw [Idle, hbuffer]
        exact h.idle (hstays hopen)
      · rw [Awaiting, hdecoder]
        exact h.awaiting (hstays hopen)

/-- A session that was just set up has nothing in its buffers. -/
theorem launch_contained {client : Bool} {handler : Option SmuxStream.Start} {now : ℕ}
    (h : launch setting client handler now = .ok s) : Contained setting s := by
  obtain ⟨pad, timer, -, rfl⟩ := launch_eq_ok h
  exact ⟨rfl, Nat.zero_le _, fun _ => rfl, fun _ => rfl⟩

/-- **What a peer can make a session hold.** Whatever bytes arrive and whatever else happens to
a session of either side: it is closed exactly when it has closed its transport; its receive
buffer never exceeds the capacity; and while it is open, the receive buffer is shorter than a
frame with the largest payload and the decompressor's buffer shorter than the largest
chunk. -/
theorem peer_memory_bounded {client : Bool} {handler : Option SmuxStream.Start} {now : ℕ}
    (hlaunch : launch setting client handler now = .ok s) (es : List SessionInput)
    (hrun : (sessionMachine setting).run s es = some t) :
    t.transportClosed = t.closed ∧ t.receiveBuffer.length ≤ setting.config.smuxCapacity ∧
      (t.closed = false → t.receiveBuffer.length < 8 + 65535 ∧
        t.decompressor.buffer.length < 4 + (2 ^ 24 - 1)) := by
  have h : Contained setting t :=
    EventMachine.run_invariant (fun _ _ _ h hstep => h.step hstep) (launch_contained hlaunch) hrun
  exact ⟨h.together, h.capacity, fun hopen =>
    ⟨(h.idle hopen).length_lt, (h.awaiting hopen).length_lt⟩⟩

/-- A peer announces a frame of 65535 bytes and sends two of them, in two arrivals. -/
theorem unfinished_frame_held :
    let setting : Setting := ⟨{ nocomp := true }, .uncalled, ⟨id, some⟩⟩
    ∃ s t, launch setting false none 0 = .ok s ∧
      (sessionMachine setting).run s
        [.arrival 0 [2, 2, 0xff, 0xff, 3, 0], .arrival 1 [0, 0, 7, 8]] = some t ∧
      t.closed = false ∧ t.receiveBuffer = [2, 2, 0xff, 0xff, 3, 0, 0, 0, 7, 8] ∧
      t.receiveBuffer.length < 8 + 65535 := by
  intro setting
  have hlaunch : launch setting false none 0 =
      .ok { client := false, nextStreamId := 0, keepaliveTimer := some 10 } := rfl
  obtain ⟨t, hrun, hopen, hbuffer⟩ : ∃ t, (sessionMachine setting).run
      { client := false, nextStreamId := 0, keepaliveTimer := some 10 }
      [.arrival 0 [2, 2, 0xff, 0xff, 3, 0], .arrival 1 [0, 0, 7, 8]] = some t ∧
      t.closed = false ∧ t.receiveBuffer = [2, 2, 0xff, 0xff, 3, 0, 0, 0, 7, 8] :=
    ⟨_, rfl, rfl, rfl⟩
  exact ⟨_, t, hlaunch, hrun, hopen, hbuffer,
    ((peer_memory_bounded hlaunch _ hrun).2.2 hopen).1⟩

end SmuxSession

end Shimakaze
