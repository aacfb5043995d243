import Shimakaze.Lib.Framing
import Shimakaze.Smux.Stream
import Shimakaze.Snappy

/-!
# The Session

`SmuxSession` multiplexes streams over one transport: it frames what the streams send,
compresses it unless the configuration says no, and takes apart what the peer sends. This
module is the faithful layer: every member function of `smux.cpp`'s session as a function
on its state, under its own name.

Stream objects outlive their entry in the session's table, because the handlers of their
operations hold them. So the state keeps every stream object made (`objects`), and the
table maps stream ids to positions in that list. Logging and the socket of the transport
are left out; the bytes given to `transport_->send` are collected in `outbox`. The session
object itself is taken to exist throughout: one that has been dropped was closed before.
`frames` and `dispatched` are written by the functions and read by none of them: they
record the frames that went out and came in.
-/

namespace Shimakaze

/-- What the two ends of a tunnel share: the configuration and the libraries. -/
structure Setting where
  config : BaseConfig
  prims : QppPrims
  snappy : SnappyLib

/-- `smux_header_size`. -/
def smuxHeaderSize : ℕ := 8

/-- `smux_update_size`. -/
def smuxUpdateSize : ℕ := 8

/-- `smux_timeout`, in nanoseconds. -/
def smuxTimeout : ℕ := 30 * 1000000000

/-- A frame: command, stream id and payload. -/
structure Frame where
  command : Command
  streamId : UInt32
  payload : Bytes := []
  deriving DecidableEq

/-- The command's byte on the wire. -/
def Command.byte : Command → UInt8
  | .syn => 0
  | .fin => 1
  | .psh => 2
  | .nop => 3
  | .upd => 4

/-- `static_cast<Command>(command)`, for the values the enumeration has. -/
def Command.ofByte (byte : UInt8) : Option Command :=
  if byte = 0 then some .syn
  else if byte = 1 then some .fin
  else if byte = 2 then some .psh
  else if byte = 3 then some .nop
  else if byte = 4 then some .upd
  else none

/-- `static_cast<unsigned char>(config_.smuxver)`. -/
def BaseConfig.versionByte (config : BaseConfig) : UInt8 := config.smuxver.toUInt32.toUInt8

/-- The bytes `send_frame` lays out for a frame. -/
def frameBytes (config : BaseConfig) (frame : Frame) : Bytes :=
  [config.versionByte, frame.command.byte] ++
    writeLe16 (UInt16.ofNat frame.payload.length) ++ writeLe32 frame.streamId ++ frame.payload

/-- The checks of the switch of `consume_stream_bytes`, on a complete frame. -/
def checkCommand (config : BaseConfig) (command : UInt8) (length : ℕ) :
    Except String Command :=
  match Command.ofByte command with
  | none => .error "invalid smux command"
  | some .upd =>
      if ¬ config.flowControlled ∨ length ≠ smuxUpdateSize then
        .error "invalid smux update frame"
      else .ok .upd
  | some command => .ok command

/-- The checks of one round of the loop of `consume_stream_bytes` on the receive buffer, in
the code's order: the version as soon as the header is there, the command and the size of
an update only once the payload is complete. -/
def nextFrame (config : BaseConfig) (buffer : Bytes) : Verdict Frame String :=
  if buffer.length < smuxHeaderSize then .more
  else
    let versionByte := buffer.headD 0
    let command := (buffer.drop 1).headD 0
    let length := (readLe16 (buffer.drop 2)).toNat
    let streamId := readLe32 (buffer.drop 4)
    if versionByte ≠ config.versionByte then .fail "smux protocol version mismatch"
    else if buffer.length < smuxHeaderSize + length then .more
    else
      let payload := (buffer.drop smuxHeaderSize).take length
      match checkCommand config command length with
      | .error message => .fail message
      | .ok command => .item ⟨command, streamId, payload⟩ (smuxHeaderSize + length)

/-- `SmuxSession`. -/
structure SmuxSession where
  client : Bool
  /-- How the accept handler starts a stream, if there is one. -/
  acceptHandler : Option SmuxStream.Start := none
  /-- The wait of `keepalive_timer_`, with its delay in seconds. -/
  keepaliveTimer : Option ℕ := none
  compressor : SnappyStreamEncoder := {}
  decompressor : SnappyStreamDecoder := {}
  qppPad : Option QppPad := none
  /-- `streams_`: the table from stream ids to positions in `objects`. -/
  streams : List (UInt32 × ℕ) := []
  receiveBuffer : Bytes := []
  /-- `last_activity_`, in nanoseconds of the steady clock. -/
  lastActivity : ℕ := 0
  nextStreamId : UInt32
  closed : Bool := false
  /-- Every stream object made so far, in order. -/
  objects : List SmuxStream := []
  /-- The bytes given to the transport. -/
  outbox : Bytes := []
  transportClosed : Bool := false
  /-- The message of the protocol error that was reported. -/
  protocolErrorMessage : Option String := none
  /-- The frames sent. -/
  frames : List Frame := []
  /-- The frames dispatched. -/
  dispatched : List Frame := []

namespace SmuxSession

variable (setting : Setting)

/-- The pad the constructor makes, when the configuration asks for one. -/
def makePad : Except String (Option QppPad) :=
  if setting.config.qpp then
    some <$> QppPad.make setting.prims setting.config.key setting.config.qppCount.toUInt32.toUInt16
  else pure none

/-- The constructor. -/
def make (client : Bool) (now : ℕ) : Except String SmuxSession := do
  let qppPad ← makePad setting
  pure { client := client, qppPad := qppPad, lastActivity := now
         nextStreamId := if client then 1 else 0 }

/-! ### Sending -/

/-- `send_frame`. -/
def sendFrame (s : SmuxSession) (command : Command) (streamId : UInt32) (payload : Bytes) :
    SmuxSession :=
  if s.closed ∨ 65535 < payload.length then s
  else
    let frame := frameBytes setting.config ⟨command, streamId, payload⟩
    let s := { s with frames := s.frames ++ [(⟨command, streamId, payload⟩ : Frame)] }
    if setting.config.nocomp then { s with outbox := s.outbox ++ frame }
    else
      let encoded := s.compressor.encode setting.snappy frame
      { s with compressor := encoded.2, outbox := s.outbox ++ encoded.1.flatten }

/-- `send_update`. -/
def sendUpdate (s : SmuxSession) (streamId consumed window : UInt32) : SmuxSession :=
  s.sendFrame setting .upd streamId (writeLe32 consumed ++ writeLe32 window)

/-- `stream_closed`. -/
def streamClosed (s : SmuxSession) (streamId : UInt32) : SmuxSession :=
  { s with streams := s.streams.filter fun entry => entry.1 ≠ streamId }

/-- Carry out a call a stream makes. -/
def perform (s : SmuxSession) : SessionCall → SmuxSession
  | .sendFrame command streamId payload => s.sendFrame setting command streamId payload
  | .sendUpdate streamId consumed window => s.sendUpdate setting streamId consumed window
  | .streamClosed streamId => s.streamClosed streamId

/-- Put back a stream after one of its functions ran, and carry out the calls it made. -/
def settle (s : SmuxSession) (index : ℕ) (o : Outcome) : SmuxSession :=
  o.calls.foldl (perform setting) { s with objects := s.objects.set index o.stream }

/-- Run a function of the stream object at a position. -/
def onObject (s : SmuxSession) (index : ℕ) (f : SmuxStream → Outcome) : SmuxSession :=
  match s.objects[index]? with
  | some stream => s.settle setting index (f stream)
  | none => s

/-- Run a function of the stream the table has for an id, if it has one. -/
def onStream (s : SmuxSession) (streamId : UInt32) (f : SmuxStream → Outcome) : SmuxSession :=
  match s.streams.lookup streamId with
  | some index => s.onObject setting index f
  | none => s

/-! ### Closing -/

/-- `close`. The close handler belongs to the owner of the session. -/
def close (s : SmuxSession) : SmuxSession :=
  if s.closed then s
  else
    let streams := s.streams
    let s := { s with closed := true, keepaliveTimer := none, streams := [] }
    let s := streams.foldl (fun s entry => s.onObject setting entry.2 SmuxStream.close) s
    { s with transportClosed := true }

/-- `protocol_error`. -/
def protocolError (s : SmuxSession) (message : String) : SmuxSession :=
  close setting { s with protocolErrorMessage := some message }

/-! ### Receiving -/

/-- Make a stream and enter it in the table; `emplace` keeps an entry the id may have. -/
def addStream (s : SmuxSession) (streamId : UInt32) : SmuxSession :=
  { s with
    objects := s.objects ++
      [SmuxStream.make setting.prims setting.config s.qppPad streamId]
    streams :=
      if (s.streams.lookup streamId).isSome then s.streams
      else s.streams ++ [(streamId, s.objects.length)] }

/-- The accept handler: it starts the stream. -/
def accept (s : SmuxSession) (index : ℕ) : SmuxSession :=
  match s.acceptHandler with
  | some kind => s.onObject setting index fun stream => (stream.start kind).quiet
  | none => s

/-- The switch of `consume_stream_bytes`, on a frame that passed the checks. -/
def dispatch (s : SmuxSession) (frame : Frame) : SmuxSession :=
  let s := { s with dispatched := s.dispatched ++ [frame] }
  match frame.command with
  | .nop => s
  | .syn =>
      if (s.streams.lookup frame.streamId).isSome then s
      else (s.addStream setting frame.streamId).accept setting s.objects.length
  | .fin => s.onStream setting frame.streamId (SmuxStream.onFin setting.config)
  | .psh => s.onStream setting frame.streamId fun stream => stream.onData frame.payload
  | .upd =>
      s.onStream setting frame.streamId fun stream =>
        stream.onUpdate setting.config (readLe32 frame.payload)
          (readLe32 (frame.payload.drop 4))

/-- The loop of `consume_stream_bytes`. -/
def consumeLoop : ℕ → SmuxSession → SmuxSession
  | 0, s => s
  | fuel + 1, s =>
      if s.closed then s
      else
        match nextFrame setting.config s.receiveBuffer with
        | .more => s
        | .fail message => s.protocolError setting message
        | .item frame size =>
            let s := s.dispatch setting frame
            consumeLoop fuel { s with receiveBuffer := s.receiveBuffer.drop size }

/-- `consume_stream_bytes`. Every round of the loop erases a header at least, so the length
of the buffer bounds the number of rounds. -/
def consumeStreamBytes (s : SmuxSession) (bytes : Bytes) : SmuxSession :=
  if setting.config.smuxCapacity < s.receiveBuffer.length + bytes.length then
    s.protocolError setting "smux receive buffer overflow"
  else
    let s := { s with receiveBuffer := s.receiveBuffer ++ bytes }
    consumeLoop setting s.receiveBuffer.length s

/-- `on_transport_bytes`, at the time `now`. -/
def onTransportBytes (s : SmuxSession) (now : ℕ) (bytes : Bytes) : SmuxSession :=
  if s.closed ∨ bytes = [] then s
  else
    let s := { s with lastActivity := now }
    if setting.config.nocomp then s.consumeStreamBytes setting bytes
    else
      let decoded := s.decompressor.decode setting.snappy bytes
      let s := { s with decompressor := decoded.1 }
      match decoded.2 with
      | .ok chunks => chunks.foldl (consumeStreamBytes setting) s
      | .error message => s.protocolError setting message

/-! ### Opening and keeping alive -/

/-- `open_stream`, and the position of the stream made. -/
def openStream (s : SmuxSession) : Except String (SmuxSession × ℕ) :=
  if s.closed then throw "smux session is closed"
  else if s.nextStreamId + 2 < s.nextStreamId then throw "smux stream id exhausted"
  else
    let sid := s.nextStreamId + 2
    let s := { s with nextStreamId := sid }
    pure ((s.sendFrame setting .syn sid []).addStream setting sid, s.objects.length)

/-- `start_keepalive_timer`. -/
def startKeepaliveTimer (s : SmuxSession) : SmuxSession :=
  if s.closed then s
  else { s with keepaliveTimer := some (max 1 setting.config.keepalive.toInt).toNat }

/-- `keepalive_tick`, at the time `now`. -/
def keepaliveTick (s : SmuxSession) (now : ℕ) : SmuxSession :=
  if s.closed then s
  else
    let s := s.sendFrame setting .nop 0 []
    if smuxTimeout < now - s.lastActivity then s.close setting
    else s.startKeepaliveTimer setting

/-- `start`: from now on the transport's bytes are read. -/
def start (s : SmuxSession) : SmuxSession := s.startKeepaliveTimer setting

/-- `set_accept_handler`. -/
def setAcceptHandler (s : SmuxSession) (handler : SmuxStream.Start) : SmuxSession :=
  { s with acceptHandler := some handler }

/-- A session as the two programs set it up: the server gives it an accept handler, the
client does not, and both start it. -/
def launch (client : Bool) (handler : Option SmuxStream.Start) (now : ℕ) :
    Except String SmuxSession := do
  let s ← make setting client now
  pure ((handler.elim s s.setAcceptHandler).start setting)

variable {setting}

/-- A session that was just set up has seen and done nothing. -/
theorem launch_eq_ok {client : Bool} {handler : Option SmuxStream.Start} {now : ℕ}
    {s : SmuxSession} (h : launch setting client handler now = .ok s) :
    ∃ pad timer, makePad setting = .ok pad ∧ s =
      { client := client, acceptHandler := handler, keepaliveTimer := timer, qppPad := pad
        lastActivity := now, nextStreamId := if client then 1 else 0 } := by
  cases hpad : makePad setting with
  | error message =>
      rw [launch, make, hpad] at h
      cases h
  | ok pad =>
      rw [launch, make, hpad] at h
      obtain rfl := Except.ok.inj h
      cases handler with
      | none => exact ⟨pad, _, rfl, rfl⟩
      | some kind => exact ⟨pad, _, rfl, rfl⟩

end SmuxSession

end Shimakaze
