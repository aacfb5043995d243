import Shimakaze.Smux.Session

/-!
# The Wire Format of a Session

`send_frame` and `consume_stream_bytes` are separate code that has to agree on how frames
lie in the byte stream of the transport, with a compression framing in between unless the
configuration says no, while the transport cuts the stream into arrivals as it likes.

The receiving loop is a `Framing`, so arrival boundaries do not matter to what it takes off
the stream, and the frames `send_frame` lays out are those it recognises. The rest of the
session is unchanged by what has not been dispatched: `dispatch` commutes with the buffers.

## Main results

* `frameFraming`, `frameFraming_encodes`: the loop as a framing, and what it recognises.
* `dispatch_withInput`, `dispatch_kept`: what dispatching does not depend on and leaves
  alone.
* `consumeLoop_absorbed`: **the loop drains that framing and dispatches what it takes off**.
-/

namespace Shimakaze

/-! ### Frames on the wire -/

/-- The frames `send_frame` and `send_update` can put on the wire of a session with these
settings so that the peer accepts them. -/
def Frame.Sendable (config : BaseConfig) (frame : Frame) : Prop :=
  frame.payload.length ≤ 65535 ∧
    (frame.command = .upd → config.flowControlled ∧ frame.payload.length = smuxUpdateSize)

theorem Command.ofByte_byte (command : Command) : Command.ofByte command.byte = some command := by
  cases command <;> decide

/-- A decision other than "more" needs the whole header. -/
theorem header_of_nextFrame {config : BaseConfig} {buffer : Bytes}
    (h : nextFrame config buffer ≠ .more) : smuxHeaderSize ≤ buffer.length := by
  by_contra hlt
  exact h (by rw [nextFrame, if_pos (not_le.mp hlt)])

/-- The decision on a buffer with a whole header. -/
theorem nextFrame_of_header {config : BaseConfig} {buffer : Bytes}
    (h : smuxHeaderSize ≤ buffer.length) :
    nextFrame config buffer =
      if buffer.headD 0 ≠ config.versionByte then .fail "smux protocol version mismatch"
      else if buffer.length < smuxHeaderSize + (readLe16 (buffer.drop 2)).toNat then .more
      else
        match checkCommand config ((buffer.drop 1).headD 0) (readLe16 (buffer.drop 2)).toNat with
        | .error message => .fail message
        | .ok command => .item ⟨command, readLe32 (buffer.drop 4),
            (buffer.drop smuxHeaderSize).take (readLe16 (buffer.drop 2)).toNat⟩
            (smuxHeaderSize + (readLe16 (buffer.drop 2)).toNat) :=
  if_neg (not_lt.mpr h)

/-- The header fields look at the first eight bytes only. -/
theorem header_append {buffer : Bytes} (h : smuxHeaderSize ≤ buffer.length) (later : Bytes) :
    (buffer ++ later).headD 0 = buffer.headD 0 ∧
    ((buffer ++ later).drop 1).headD 0 = (buffer.drop 1).headD 0 ∧
    readLe16 ((buffer ++ later).drop 2) = readLe16 (buffer.drop 2) ∧
    readLe32 ((buffer ++ later).drop 4) = readLe32 (buffer.drop 4) := by
  have h8 : smuxHeaderSize = 8 := rfl
  rw [h8] at h
  refine ⟨?_, ?_, ?_, ?_⟩
  · match buffer, h with
    | _ :: _, _ => rfl
  · match buffer, h with
    | _ :: _ :: _, _ => rfl
  · rw [List.drop_append_of_le_length (by omega)]
    exact readLe16_append (by rw [List.length_drop]; omega) later
  · rw [List.drop_append_of_le_length (by omega)]
    exact readLe32_append (by rw [List.length_drop]; omega) later

/-- Bytes that arrive later do not change a decision other than "more". -/
theorem nextFrame_append {config : BaseConfig} {buffer : Bytes} (later : Bytes)
    (h : nextFrame config buffer ≠ .more) :
    nextFrame config (buffer ++ later) = nextFrame config buffer := by
  have hheader := header_of_nextFrame h
  obtain ⟨h0, h1, h2, h4⟩ := header_append hheader later
  rw [nextFrame_of_header hheader] at h
  rw [nextFrame_of_header hheader,
    nextFrame_of_header (by rw [List.length_append]; omega), h0, h1, h2, h4]
  by_cases hversion : buffer.headD 0 ≠ config.versionByte
  · rw [if_pos hversion, if_pos hversion]
  · rw [if_neg hversion] at h
    rw [if_neg hversion, if_neg hversion]
    have hlength : ¬ buffer.length < smuxHeaderSize + (readLe16 (buffer.drop 2)).toNat :=
      fun hlt => h (if_pos hlt)
    have hpayload : ((buffer ++ later).drop smuxHeaderSize).take
        (readLe16 (buffer.drop 2)).toNat =
        (buffer.drop smuxHeaderSize).take (readLe16 (buffer.drop 2)).toNat := by
      rw [List.drop_append_of_le_length hheader,
        List.take_append_of_le_length (by rw [List.length_drop]; omega)]
    rw [if_neg hlength, if_neg (by rw [List.length_append]; omega), hpayload]

/-- The size of a complete frame. -/
theorem size_of_nextFrame {config : BaseConfig} {buffer : Bytes} {frame : Frame} {n : ℕ}
    (h : nextFrame config buffer = .item frame n) :
    smuxHeaderSize ≤ n ∧ n ≤ buffer.length := by
  have hheader := header_of_nextFrame (h ▸ by simp : nextFrame config buffer ≠ .more)
  rw [nextFrame_of_header hheader] at h
  split_ifs at h with hversion hlength
  split at h
  · cases h
  · obtain ⟨-, rfl⟩ := Verdict.item.inj h
    exact ⟨Nat.le_add_right _ _, not_lt.mp hlength⟩

/-- The receiving loop as a framing of bytes into frames. -/
def frameFraming (config : BaseConfig) : Framing Unit UInt8 Frame String where
  step _ := nextFrame config
  next _ _ := ()
  size_pos h := lt_of_lt_of_le (by decide) (size_of_nextFrame h).1
  size_le h := (size_of_nextFrame h).2
  item_append later h := by rw [nextFrame_append later (by rw [h]; simp), h]
  fail_append later h := by rw [nextFrame_append later (by rw [h]; simp), h]

/-- The bytes of a frame, one after the other. -/
theorem frameBytes_eq (config : BaseConfig) (frame : Frame) (later : Bytes) :
    frameBytes config frame ++ later =
      config.versionByte :: frame.command.byte ::
        (writeLe16 (UInt16.ofNat frame.payload.length) ++
          (writeLe32 frame.streamId ++ (frame.payload ++ later))) := by
  simp only [frameBytes, List.append_assoc, List.cons_append, List.nil_append]

theorem length_frameBytes (config : BaseConfig) (frame : Frame) :
    (frameBytes config frame).length = smuxHeaderSize + frame.payload.length := by
  simp only [frameBytes, List.length_append, List.length_cons, List.length_nil,
    length_writeLe16, length_writeLe32]
  rfl

/-- **The loop recognises what `send_frame` lays out**, whatever follows. -/
theorem frameFraming_encodes (config : BaseConfig) :
    (frameFraming config).Encodes (frameBytes config) fun _ frame => frame.Sendable config := by
  rintro _ ⟨command, streamId, payload⟩ ⟨hlen, hupdate⟩ later
  have hlength := length_frameBytes config ⟨command, streamId, payload⟩
  have hsize : (UInt16.ofNat payload.length).toNat = payload.length := by
    rw [UInt16.toNat_ofNat', Nat.mod_eq_of_lt]
    simp only at hlen
    omega
  have hbytes := frameBytes_eq config ⟨command, streamId, payload⟩ later
  have h1 : ((frameBytes config ⟨command, streamId, payload⟩ ++ later).drop 1).headD 0 =
      command.byte := by rw [hbytes]; rfl
  have h2 : (readLe16 ((frameBytes config ⟨command, streamId, payload⟩ ++ later).drop 2)).toNat =
      payload.length := by
    rw [hbytes, List.drop_succ_cons, List.drop_succ_cons, List.drop_zero,
      readLe16_writeLe16, hsize]
  have h4 : readLe32 ((frameBytes config ⟨command, streamId, payload⟩ ++ later).drop 4) =
      streamId := by
    rw [hbytes, List.drop_succ_cons, List.drop_succ_cons, List.drop_left' (by rfl),
      readLe32_writeLe32]
  have h8 : ((frameBytes config ⟨command, streamId, payload⟩ ++ later).drop
      smuxHeaderSize).take payload.length = payload := by
    rw [hbytes, show smuxHeaderSize = 2 + 4 + 2 from rfl, List.drop_succ_cons,
      List.drop_succ_cons, ← List.drop_drop, List.drop_left' (by rfl),
      List.drop_left' (by rfl), List.take_left]
  have hheader : smuxHeaderSize ≤
      (frameBytes config ⟨command, streamId, payload⟩ ++ later).length := by
    rw [List.length_append, hlength]
    omega
  simp only [frameFraming]
  have hcheck : checkCommand config command.byte payload.length = .ok command := by
    rw [checkCommand, Command.ofByte_byte]
    cases command with
    | upd =>
        obtain ⟨hflow, hsize⟩ := hupdate rfl
        simp only at hsize
        simp [hflow, hsize]
    | syn => rfl
    | fin => rfl
    | psh => rfl
    | nop => rfl
  rw [nextFrame_of_header hheader, h1, h2, h4, h8, hcheck, hlength, if_neg, if_neg]
  · rw [List.length_append, hlength]
    exact not_lt.mpr (Nat.le_add_right _ _)
  · rw [hbytes]
    simp

/-! ### What dispatching leaves alone -/

namespace SmuxSession

variable {setting : Setting}

/-- A session with other receive buffers and another time of last activity. No function
that runs on a dispatched frame reads or writes these three. -/
def withInput (s : SmuxSession) (buffer : Bytes) (now : ℕ) (decoder : SnappyStreamDecoder) :
    SmuxSession :=
  { s with receiveBuffer := buffer, lastActivity := now, decompressor := decoder }

/-- A session without its receive buffers and its time of last activity. -/
def core (s : SmuxSession) : SmuxSession := s.withInput [] 0 {}

section withInput

variable (s : SmuxSession) (buffer : Bytes) (now : ℕ) (decoder : SnappyStreamDecoder)

theorem sendFrame_withInput (command : Command) (streamId : UInt32) (payload : Bytes) :
    (s.withInput buffer now decoder).sendFrame setting command streamId payload =
      (s.sendFrame setting command streamId payload).withInput buffer now decoder := by
  simp only [sendFrame, withInput]
  by_cases hdrop : s.closed ∨ 65535 < payload.length
  · simp only [hdrop, if_true]
  · simp only [hdrop, if_false]
    cases setting.config.nocomp <;> rfl

theorem perform_withInput (call : SessionCall) :
    (s.withInput buffer now decoder).perform setting call =
      (s.perform setting call).withInput buffer now decoder := by
  cases call with
  | sendFrame => exact s.sendFrame_withInput _ _ _ _ _ _
  | sendUpdate => exact s.sendFrame_withInput _ _ _ _ _ _
  | streamClosed => rfl

theorem foldl_perform_withInput (calls : List SessionCall) :
    calls.foldl (perform setting) (s.withInput buffer now decoder) =
      (calls.foldl (perform setting) s).withInput buffer now decoder := by
  induction calls generalizing s with
  | nil => rfl
  | cons call calls ih => rw [List.foldl_cons, perform_withInput, ih, List.foldl_cons]

theorem onObject_withInput (index : ℕ) (f : SmuxStream → Outcome) :
    (s.withInput buffer now decoder).onObject setting index f =
      (s.onObject setting index f).withInput buffer now decoder := by
  simp only [onObject]
  rw [show (s.withInput buffer now decoder).objects = s.objects from rfl]
  split
  · next stream _ =>
    exact foldl_perform_withInput { s with objects := s.objects.set index (f stream).stream }
      buffer now decoder (f stream).calls
  · rfl

theorem onStream_withInput (streamId : UInt32) (f : SmuxStream → Outcome) :
    (s.withInput buffer now decoder).onStream setting streamId f =
      (s.onStream setting streamId f).withInput buffer now decoder := by
  simp only [onStream]
  rw [show (s.withInput buffer now decoder).streams = s.streams from rfl]
  split
  · exact s.onObject_withInput buffer now decoder _ f
  · rfl

theorem accept_withInput (index : ℕ) :
    (s.withInput buffer now decoder).accept setting index =
      (s.accept setting index).withInput buffer now decoder := by
  simp only [accept]
  rw [show (s.withInput buffer now decoder).acceptHandler = s.acceptHandler from rfl]
  split
  · exact s.onObject_withInput buffer now decoder _ _
  · rfl

/-- Dispatching works the same whatever the receive buffers hold. -/
theorem dispatch_withInput (frame : Frame) :
    (s.withInput buffer now decoder).dispatch setting frame =
      (s.dispatch setting frame).withInput buffer now decoder := by
  simp only [dispatch]
  split
  · rfl
  · rw [show (s.withInput buffer now decoder).streams = s.streams from rfl]
    split_ifs
    · rfl
    · exact accept_withInput
        (addStream setting { s with dispatched := s.dispatched ++ [frame] } frame.streamId)
        buffer now decoder s.objects.length
  · exact onStream_withInput { s with dispatched := s.dispatched ++ [frame] } _ _ _ _ _
  · exact onStream_withInput { s with dispatched := s.dispatched ++ [frame] } _ _ _ _ _
  · exact onStream_withInput { s with dispatched := s.dispatched ++ [frame] } _ _ _ _ _

theorem dispatch_input (frame : Frame) :
    s.dispatch setting frame = (s.dispatch setting frame).withInput s.receiveBuffer
      s.lastActivity s.decompressor :=
  s.dispatch_withInput s.receiveBuffer s.lastActivity s.decompressor frame

theorem dispatch_receiveBuffer (frame : Frame) :
    (s.dispatch setting frame).receiveBuffer = s.receiveBuffer := by
  rw [s.dispatch_input frame]
  rfl

theorem foldl_onObject_withInput (entries : List (UInt32 × ℕ)) (f : SmuxStream → Outcome) :
    entries.foldl (fun s entry => s.onObject setting entry.2 f)
        (s.withInput buffer now decoder) =
      (entries.foldl (fun s entry => s.onObject setting entry.2 f) s).withInput buffer now
        decoder := by
  induction entries generalizing s with
  | nil => rfl
  | cons entry entries ih => rw [List.foldl_cons, onObject_withInput, ih, List.foldl_cons]

/-- So does reporting a protocol error. -/
theorem protocolError_withInput (message : String) :
    (s.withInput buffer now decoder).protocolError setting message =
      (s.protocolError setting message).withInput buffer now decoder := by
  simp only [protocolError, close]
  rw [show (s.withInput buffer now decoder).closed = s.closed from rfl,
    show (s.withInput buffer now decoder).streams = s.streams from rfl]
  split_ifs
  · rfl
  · exact congrArg (fun s : SmuxSession => { s with transportClosed := true })
      (foldl_onObject_withInput
        { s with
          protocolErrorMessage := some message, closed := true, keepaliveTimer := none,
          streams := [] } buffer now decoder s.streams SmuxStream.close)

end withInput

/-- What carrying out the calls of streams leaves alone. -/
def kept (s : SmuxSession) : (Bool × List Frame × Option String) ×
    (Bool × Option SmuxStream.Start × Option QppPad × UInt32) :=
  ((s.closed, s.dispatched, s.protocolErrorMessage),
    (s.client, s.acceptHandler, s.qppPad, s.nextStreamId))

theorem sendFrame_kept (s : SmuxSession) (command : Command) (streamId : UInt32)
    (payload : Bytes) : (s.sendFrame setting command streamId payload).kept = s.kept := by
  rw [sendFrame]
  split_ifs <;> rfl

theorem perform_kept (s : SmuxSession) (call : SessionCall) :
    (s.perform setting call).kept = s.kept := by
  cases call with
  | sendFrame => exact s.sendFrame_kept _ _ _
  | sendUpdate => exact s.sendFrame_kept _ _ _
  | streamClosed => rfl

theorem foldl_perform_kept (calls : List SessionCall) (s : SmuxSession) :
    (calls.foldl (perform setting) s).kept = s.kept := by
  induction calls generalizing s with
  | nil => rfl
  | cons call calls ih => rw [List.foldl_cons, ih, perform_kept]

theorem onObject_kept (s : SmuxSession) (index : ℕ) (f : SmuxStream → Outcome) :
    (s.onObject setting index f).kept = s.kept := by
  rw [onObject]
  split
  · exact foldl_perform_kept _ _
  · rfl

theorem onStream_kept (s : SmuxSession) (streamId : UInt32) (f : SmuxStream → Outcome) :
    (s.onStream setting streamId f).kept = s.kept := by
  rw [onStream]
  split
  · exact s.onObject_kept _ _
  · rfl

/-- Dispatching a frame records it and leaves the rest of what is kept alone; in
particular it never closes the session. -/
theorem dispatch_kept (s : SmuxSession) (frame : Frame) :
    (s.dispatch setting frame).kept =
      ((s.closed, s.dispatched ++ [frame], s.protocolErrorMessage), s.kept.2) := by
  simp only [dispatch]
  split
  · rfl
  · split_ifs
    · rfl
    · rw [accept]
      split
      · exact onObject_kept _ _ _
      · rfl
  · exact onStream_kept _ _ _
  · exact onStream_kept _ _ _
  · exact onStream_kept _ _ _

theorem foldl_dispatch_kept (frames : List Frame) (s : SmuxSession) :
    (frames.foldl (dispatch setting) s).kept =
      ((s.closed, s.dispatched ++ frames, s.protocolErrorMessage), s.kept.2) := by
  induction frames generalizing s with
  | nil => rw [List.append_nil]; rfl
  | cons frame frames ih =>
      have hframe : (s.dispatch setting frame).kept = _ := s.dispatch_kept frame
      rw [List.foldl_cons, ih]
      simp only [kept, Prod.mk.injEq] at hframe ⊢
      obtain ⟨⟨hclosed, hdispatched, hmessage⟩, hrest⟩ := hframe
      rw [hclosed, hdispatched, hmessage, List.append_assoc]
      exact ⟨⟨rfl, rfl, rfl⟩, hrest⟩

theorem dispatch_closed (s : SmuxSession) (frame : Frame) :
    (s.dispatch setting frame).closed = s.closed :=
  congrArg (fun k => k.1.1) (s.dispatch_kept frame)

theorem foldl_dispatch_closed (frames : List Frame) (s : SmuxSession) :
    (frames.foldl (dispatch setting) s).closed = s.closed :=
  congrArg (fun k => k.1.1) (foldl_dispatch_kept frames s)

theorem foldl_onObject_kept (entries : List (UInt32 × ℕ)) (f : SmuxStream → Outcome)
    (s : SmuxSession) :
    (entries.foldl (fun s entry => s.onObject setting entry.2 f) s).kept = s.kept := by
  induction entries generalizing s with
  | nil => rfl
  | cons entry entries ih => rw [List.foldl_cons, ih, onObject_kept]

/-- Closing closes. -/
theorem close_closed (s : SmuxSession) : (s.close setting).closed = true := by
  rw [close]
  split_ifs with h
  · exact h
  · exact congrArg (fun k => k.1.1) (foldl_onObject_kept s.streams SmuxStream.close _)

/-- A session that reported a protocol error is closed. -/
theorem protocolError_closed (s : SmuxSession) (message : String) :
    (s.protocolError setting message).closed = true :=
  close_closed _

/-- It dispatched nothing on the way. -/
theorem protocolError_dispatched (s : SmuxSession) (message : String) :
    (s.protocolError setting message).dispatched = s.dispatched := by
  unfold protocolError close
  split_ifs
  · rfl
  · exact congrArg (fun k => k.1.2.1) (foldl_onObject_kept s.streams SmuxStream.close _)

/-- Nor does it touch the receive buffers or the time of the last arrival. -/
theorem protocolError_input (s : SmuxSession) (message : String) :
    s.protocolError setting message = (s.protocolError setting message).withInput
      s.receiveBuffer s.lastActivity s.decompressor :=
  protocolError_withInput s s.receiveBuffer s.lastActivity s.decompressor message

/-! ### The receiving loop -/

/-- What becomes of the session `s` when the parse `r` is taken off its stream: the items
are dispatched, and then the session waits with the tail in its buffer or is closed by the
error. -/
def Absorbed (setting : Setting) (s f : SmuxSession)
    (r : Parsed Unit UInt8 Frame String) : Prop :=
  match r.standing with
  | .waiting _ tail =>
      f.core = r.items.foldl (dispatch setting) s.core ∧ f.receiveBuffer = tail
  | .failed message =>
      f.core = (r.items.foldl (dispatch setting) s.core).protocolError setting message

/-- A session waits exactly when the parse does. -/
theorem Absorbed.closed {s f : SmuxSession} {r : Parsed Unit UInt8 Frame String}
    (h : Absorbed setting s f r) (hopen : s.closed = false) :
    f.closed = false ↔ ∃ tail, r.standing = .waiting () tail := by
  rw [Absorbed] at h
  split at h
  · next state tail hstanding =>
    have hclosed := congrArg SmuxSession.closed h.1
    rw [foldl_dispatch_closed] at hclosed
    exact ⟨fun _ => ⟨tail, hstanding⟩, fun _ => hclosed.trans hopen⟩
  · next message hstanding =>
    have hclosed := congrArg SmuxSession.closed h
    rw [protocolError_closed] at hclosed
    constructor
    · intro hfalse
      exact absurd (hfalse.symm.trans hclosed) (by decide)
    · rintro ⟨tail, htail⟩
      rw [hstanding] at htail
      cases htail

/-- **The loop drains the framing.** Induction on the fuel, which the buffer never
outgrows: each round takes a header at least. -/
theorem consumeLoop_absorbed :
    ∀ (fuel : ℕ) (s : SmuxSession), s.closed = false → s.receiveBuffer.length ≤ fuel →
      Absorbed setting s (consumeLoop setting fuel s)
        ((frameFraming setting.config).drain () s.receiveBuffer) := by
  intro fuel
  induction fuel with
  | zero =>
      intro s _ hfuel
      have hnil : s.receiveBuffer = [] := List.length_eq_zero_iff.mp (Nat.le_zero.mp hfuel)
      have hmore : (frameFraming setting.config).step () s.receiveBuffer = .more := by
        rw [hnil]; rfl
      rw [Framing.drain_of_more hmore]
      exact ⟨rfl, rfl⟩
  | succ fuel ih =>
      intro s hopen hfuel
      rw [consumeLoop, if_neg (by simp [hopen])]
      cases hnext : nextFrame setting.config s.receiveBuffer with
      | more =>
          rw [Framing.drain_of_more (F := frameFraming setting.config) hnext]
          exact ⟨rfl, rfl⟩
      | fail message =>
          rw [Framing.drain_of_fail (F := frameFraming setting.config) hnext]
          exact (protocolError_withInput s [] 0 {} message).symm
      | item frame size =>
          rw [Framing.drain_of_item (F := frameFraming setting.config) hnext]
          obtain ⟨hpos, hsize⟩ := size_of_nextFrame hnext
          have hbuffer : (s.dispatch setting frame).receiveBuffer = s.receiveBuffer :=
            s.dispatch_receiveBuffer frame
          have hcore : (s.dispatch setting frame).core = s.core.dispatch setting frame :=
            (dispatch_withInput s [] 0 {} frame).symm
          have hrest := ih { s.dispatch setting frame with
            receiveBuffer := (s.dispatch setting frame).receiveBuffer.drop size }
            ((dispatch_closed s frame).trans hopen) (by
              simp only [hbuffer, List.length_drop]
              have h8 : 0 < smuxHeaderSize := by decide
              omega)
          simp only [hbuffer, frameFraming] at hrest ⊢
          unfold Absorbed at hrest ⊢
          rw [Parsed.after_standing]
          simp only [Parsed.after_items, List.foldl_append, List.foldl_cons, List.foldl_nil]
          rw [← hcore]
          exact hrest

end SmuxSession

end Shimakaze
