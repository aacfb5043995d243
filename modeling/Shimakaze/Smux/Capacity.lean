import Shimakaze.Smux.Production
import Shimakaze.Smux.Tunnel

/-!
# Room in the Receive Buffer

The receive buffer of a session has a limit, which is compared with what it would hold
before anything complete is taken off it. Without compression an arrival is a segment of the
transport: it may find all but the last byte of a frame in the buffer. With compression the
buffer is handed decompressed chunks, and each of these is a whole frame.

## Main results

* `Received.arrivalFits`: with enough room, every arrival of what an honest session sent
  fits.
* `overflow_of_not_room`: without it, some arrival does not.
* `no_false_protocolError`: **between honest sessions with enough room no protocol error is
  ever reported**, and the room asked for is the least that does.
-/

namespace Shimakaze

/-- The limit of the receive buffer leaves room for arrivals of at most `mss` bytes. -/
def BaseConfig.Room (config : BaseConfig) (mss : ℕ) : Prop :=
  if config.nocomp then config.largestFrame - 1 + mss ≤ config.smuxCapacity
  else config.largestFrame ≤ config.smuxCapacity

instance (config : BaseConfig) (mss : ℕ) : Decidable (config.Room mss) :=
  inferInstanceAs (Decidable (if config.nocomp = true
    then config.largestFrame - 1 + mss ≤ config.smuxCapacity
    else config.largestFrame ≤ config.smuxCapacity))

variable {setting : Setting} {frames : List Frame} {mss : ℕ}

/-- A frame is compressed into one chunk. -/
theorem frameChunks_produced {config : BaseConfig}
    (hframes : ∀ frame ∈ frames, frame.Produced config) :
    frameChunks config frames = frames.map (frameBytes config) := by
  induction frames with
  | nil => rfl
  | cons frame frames ih =>
      have hframe := hframes frame List.mem_cons_self
      have hlength := length_frameBytes config frame
      have hnil : frameBytes config frame ≠ [] := by
        intro hnil
        rw [hnil, List.length_nil, smuxHeaderSize] at hlength
        omega
      have hfit : (frameBytes config frame).length ≤ Snappy.maxUncompressedChunk :=
        (hframe.length_le.trans config.largestFrame_le).trans (by decide)
      rw [frameChunks, List.flatMap_cons, Snappy.pieces_eq_singleton hnil hfit]
      exact congrArg _ (ih fun frame hmem => hframes frame (List.mem_cons_of_mem _ hmem))

namespace SmuxSession

variable {s : SmuxSession} {arrived chunk later : Bytes}

/-! ### What is in the buffer -/

/-- A session that has taken complete frames off what it got holds less than a frame. -/
theorem length_receiveBuffer_lt (hframes : ∀ frame ∈ frames, frame.Produced setting.config)
    {plain rest : Bytes}
    (hparsed : (frameFraming setting.config).drain () plain =
      ⟨s.dispatched, .waiting () s.receiveBuffer⟩)
    (hhonest : (frames.map (frameBytes setting.config)).flatten = plain ++ rest) :
    s.receiveBuffer.length < setting.config.largestFrame := by
  have hgood := frames_goodItems fun frame hframe => (hframes frame hframe).sendable
  rcases Framing.tail_of_encode (frameFraming_encodes setting.config) hgood hhonest hparsed with
    hnil | ⟨frame, hframe, more, hmore, htail⟩
  · rw [hnil, List.length_nil, BaseConfig.largestFrame, smuxHeaderSize]
    omega
  · have hle := (hframes frame hframe).length_le
    have hpos := List.length_pos_iff.mpr hmore
    rw [htail, List.length_append] at hle
    omega

/-- Whole frames leave nothing in the buffer. -/
theorem receiveBuffer_eq_nil (hframes : ∀ frame ∈ frames, frame.Produced setting.config)
    (hparsed : (frameFraming setting.config).drain ()
      (frames.map (frameBytes setting.config)).flatten =
      ⟨s.dispatched, .waiting () s.receiveBuffer⟩) : s.receiveBuffer = [] := by
  have hgood := frames_goodItems fun frame hframe => (hframes frame hframe).sendable
  rw [Framing.drain_encode (frameFraming_encodes setting.config) hgood rfl] at hparsed
  obtain ⟨-, hstanding⟩ := Parsed.mk.inj hparsed
  exact (Standing.waiting.inj hstanding).2.symm

/-- Frames handed over one by one fit if the largest does. Induction on the frames: each finds
an empty buffer and leaves it empty. -/
theorem chunksFit_of_frames (hopen : s.closed = false) (hempty : s.receiveBuffer = [])
    (hframes : ∀ frame ∈ frames, frame.Produced setting.config)
    (hroom : setting.config.largestFrame ≤ setting.config.smuxCapacity) :
    ChunksFit setting s (frames.map (frameBytes setting.config)) := by
  induction frames generalizing s with
  | nil => trivial
  | cons frame frames ih =>
      have hframe := hframes frame List.mem_cons_self
      have hfit : s.receiveBuffer.length + (frameBytes setting.config frame).length ≤
          setting.config.smuxCapacity := by
        rw [hempty, List.length_nil, Nat.zero_add]
        exact hframe.length_le.trans hroom
      have hdrain : (frameFraming setting.config).drain ()
          (s.receiveBuffer ++ frameBytes setting.config frame) = ⟨[frame], .waiting () []⟩ := by
        have hwhole := Framing.drain_encode (frameFraming_encodes setting.config)
          (@frames_goodItems setting.config [frame] fun f hf => by
            rw [List.mem_singleton.mp hf]
            exact hframe.sendable) rfl
        rw [List.map_singleton, List.flatten_singleton] at hwhole
        rw [hempty]
        exact hwhole
      have habsorbed := consumeStreamBytes_absorbed hopen hfit
      rw [hdrain] at habsorbed
      refine ⟨hfit, ih ((habsorbed.closed hopen).mpr ⟨[], rfl⟩) habsorbed.2 fun f hf =>
        hframes f (List.mem_cons_of_mem _ hf)⟩

/-- **With enough room every honest arrival fits.** -/
theorem Received.arrivalFits (hlib : setting.snappy.Lawful)
    (hframes : ∀ frame ∈ frames, frame.Produced setting.config) (h : Received setting s arrived)
    (hhonest : arrived ++ chunk ++ later = transportBytes setting {} frames)
    (hroom : setting.config.Room mss) (hsegment : setting.config.nocomp → chunk.length ≤ mss)
    (now : ℕ) : ArrivalFits setting s now chunk := by
  obtain ⟨hopen, plain, hunpacked, hparsed⟩ := h
  obtain ⟨chunks, rest, hchunks, -, hplain, hwhole⟩ := unpack_honest hlib hunpacked now hhonest
  have hsame : (s.unpack setting now chunk).1.closed = s.closed ∧
      (s.unpack setting now chunk).1.receiveBuffer = s.receiveBuffer := by
    rw [unpack]
    split_ifs <;> exact ⟨rfl, rfl⟩
  refine Or.inr (Or.inr fun chunks' hchunks' => ?_)
  obtain rfl := Except.ok.inj (hchunks.symm.trans hchunks')
  cases hnocomp : setting.config.nocomp with
  | true =>
      rw [BaseConfig.Room, if_pos hnocomp] at hroom
      rw [unpack, if_pos hnocomp] at hchunks
      obtain rfl := Except.ok.inj hchunks
      rw [List.append_assoc] at hplain
      have hbuffer := length_receiveBuffer_lt hframes hparsed hplain.symm
      have hchunk := hsegment hnocomp
      refine ⟨?_, trivial⟩
      rw [hsame.2]
      omega
  | false =>
      rw [BaseConfig.Room, if_neg (by simp [hnocomp])] at hroom
      obtain ⟨earlier, rfl, ⟨more, hmore⟩⟩ := hwhole hnocomp
      rw [frameChunks_produced hframes] at hmore
      obtain ⟨before, after, rfl, hbefore, -⟩ := List.map_eq_append_iff.mp hmore.symm
      obtain ⟨first, second, rfl, rfl, rfl⟩ := List.map_eq_append_iff.mp hbefore
      have hframe (frame : Frame) (hmem : frame ∈ first ∨ frame ∈ second) :
          frame.Produced setting.config :=
        hframes frame (List.mem_append_left _ (List.mem_append.mpr hmem))
      refine chunksFit_of_frames (hsame.1.trans hopen) (hsame.2.trans ?_)
        (fun frame hmem => hframe frame (Or.inr hmem)) hroom
      exact receiveBuffer_eq_nil (fun frame hmem => hframe frame (Or.inl hmem)) hparsed

end SmuxSession

/-! ### The tunnel -/

/-- The tunnel, with a transport that delivers segments of at most `mss` bytes when the
sessions do not compress. -/
def segmented (setting : Setting) (mss : ℕ) : Link Endpoint UInt8 EndpointEvent where
  act := (tunnel setting).act
  recv side p bytes :=
    if setting.config.nocomp ∧ mss < bytes.length then none else (tunnel setting).recv side p bytes

variable {s r : SmuxSession} {forward backward : Bytes}

/-- The invariant of the tunnel, with what each session sends and that neither has reported an
error. -/
structure Calm (setting : Setting) (s r : SmuxSession) (forward backward : Bytes) : Prop where
  tunnel : TunnelInv setting s r forward backward
  produces : s.Produces setting
  produces' : r.Produces setting
  silent : s.protocolErrorMessage = none
  silent' : r.protocolErrorMessage = none

theorem Calm.symm (h : Calm setting s r forward backward) : Calm setting r s backward forward :=
  ⟨h.tunnel.symm, h.produces', h.produces, h.silent', h.silent⟩

/-- An event that is not an arrival. -/
theorem Calm.act (h : Calm setting s r forward backward) {f : SmuxSession} {now : ℕ}
    {e : SessionEvent} (hact : s.act setting now e = some f) :
    Calm setting { f with outbox := [] } r (forward ++ f.outbox) backward := by
  have hmessage : f.protocolErrorMessage = s.protocolErrorMessage :=
    congrArg (fun k => k.2.2) (SmuxSession.act_inbound hact)
  obtain ⟨htidy, hframes⟩ := h.produces.act hact
  exact ⟨h.tunnel.act hact, ⟨htidy, hframes⟩, h.produces', hmessage.trans h.silent, h.silent'⟩

/-- An arrival at an honest session reports no error. -/
theorem Calm.arrive (hlib : setting.snappy.Lawful) {chunk : Bytes}
    (h : Calm setting s r forward (chunk ++ backward)) (hroom : setting.config.Room mss)
    (hsegment : setting.config.nocomp → chunk.length ≤ mss) (now : ℕ) :
    Calm setting { s.onTransportBytes setting now chunk with outbox := [] } r
      (forward ++ (s.onTransportBytes setting now chunk).outbox) backward := by
  obtain ⟨htidy, hframes⟩ :=
    (SmuxSession.produces_upkeep setting).onTransportBytes h.produces now chunk
  refine ⟨h.tunnel.arrive hlib now, ⟨htidy, hframes⟩, h.produces', ?_, h.silent'⟩
  show (s.onTransportBytes setting now chunk).protocolErrorMessage = none
  by_cases hclosed : s.closed
  · rw [SmuxSession.onTransportBytes_of_ignored (Or.inl hclosed)]
    exact h.silent
  · obtain ⟨arrived, hreceived, hflight⟩ := h.tunnel.heard'.received (by simpa using hclosed)
    rw [← List.append_assoc] at hflight
    have hfits := hreceived.arrivalFits hlib h.produces'.frames hflight hroom hsegment now
    obtain ⟨-, -, hkept⟩ :=
      hreceived.onTransportBytes hlib h.tunnel.books'.sendable now hflight
    exact (hkept hfits).2.trans h.silent

/-- The two sides take turns. -/
theorem calm_directed (hlib : setting.snappy.Lawful) (hroom : setting.config.Room mss) :
    (segmented setting mss).Directed fun _ (p q : Endpoint) forward backward =>
      Calm setting p.session q.session forward backward := by
  refine Link.Directed.of_symmetric (fun _ _ _ _ _ h => h.symm) ?_ ?_
  · intro side p q forward backward e p' out h hstep
    cases e with
    | elapse nanoseconds =>
        obtain ⟨rfl, rfl⟩ := Prod.mk.inj (Option.some.inj hstep)
        rw [List.append_nil]
        exact h
    | session e =>
        obtain ⟨f, hf, hsent⟩ := Option.map_eq_some_iff.mp hstep
        obtain ⟨rfl, rfl⟩ := Prod.mk.inj hsent
        exact h.act hf
  · intro side p q forward backward chunk p' out h hstep
    simp only [segmented] at hstep
    split_ifs at hstep with hlong
    obtain ⟨rfl, rfl⟩ := Prod.mk.inj (Option.some.inj hstep)
    rw [not_and, not_lt] at hlong
    exact h.arrive hlib hroom hlong p.now

/-! ### Without room -/

namespace SmuxSession

variable {arrived more : Bytes} {frame : Frame}

/-- The message of a reported error. -/
theorem protocolError_message (s : SmuxSession) (message : String) :
    (s.protocolError setting message).protocolErrorMessage = some message :=
  congrArg (fun k => k.2.2) (close_inbound { s with protocolErrorMessage := some message })

/-- A chunk that does not fit. -/
theorem consumeStreamBytes_overflow {chunk : Bytes}
    (hlong : setting.config.smuxCapacity < s.receiveBuffer.length + chunk.length) :
    (s.consumeStreamBytes setting chunk).protocolErrorMessage =
      some "smux receive buffer overflow" := by
  rw [consumeStreamBytes, if_pos hlong]
  exact protocolError_message s _

/-- Part of a frame stays in the buffer. -/
theorem receiveBuffer_eq_arrived (hnocomp : setting.config.nocomp = true)
    (h : Received setting s arrived) (hsendable : frame.Sendable setting.config)
    (hframe : frameBytes setting.config frame = arrived ++ more) (hmore : more ≠ []) :
    s.receiveBuffer = arrived := by
  obtain ⟨-, plain, hunpacked, hparsed⟩ := h
  rw [Unpacked, if_pos hnocomp] at hunpacked
  obtain rfl := hunpacked
  have hpos := List.length_pos_iff.mpr hmore
  have hstep := Framing.step_eq_more_of_encode (frameFraming_encodes setting.config)
    (s := ()) hsendable hframe (by rw [hframe, List.length_append]; omega)
  rw [Framing.drain_of_more hstep] at hparsed
  obtain ⟨-, hstanding⟩ := Parsed.mk.inj hparsed
  exact (Standing.waiting.inj hstanding).2.symm

/-- Bytes of one frame that arrive one by one pile up in the buffer. Induction on the bytes. -/
theorem trickle (hlib : setting.snappy.Lawful) (hnocomp : setting.config.nocomp = true)
    (hsendable : frame.Sendable setting.config) (now : ℕ) {bytes : Bytes}
    (h : Received setting s arrived)
    (hframe : frameBytes setting.config frame = arrived ++ bytes ++ more)
    (hcapacity : arrived.length + bytes.length ≤ setting.config.smuxCapacity) :
    Received setting (s.receiveAll setting (bytes.map fun byte => (now, [byte])))
      (arrived ++ bytes) := by
  induction bytes generalizing s arrived with
  | nil =>
      rw [List.append_nil]
      exact h
  | cons byte bytes ih =>
      have hsplit : arrived ++ byte :: bytes = arrived ++ [byte] ++ bytes := by
        rw [List.append_assoc, List.singleton_append]
      have hbuffer := receiveBuffer_eq_arrived hnocomp h hsendable
        (hframe.trans (List.append_assoc _ _ _)) (by simp)
      have hfits : s.ArrivalFits setting now [byte] := by
        refine Or.inr (Or.inr fun chunks hchunks => ?_)
        rw [unpack, if_pos hnocomp] at hchunks ⊢
        obtain rfl := Except.ok.inj hchunks
        refine ⟨?_, trivial⟩
        simp only [hbuffer, List.length_singleton]
        rw [List.length_cons] at hcapacity
        omega
      have hhonest : arrived ++ [byte] ++ (bytes ++ more) = transportBytes setting {} [frame] := by
        rw [transportBytes, if_pos hnocomp, List.map_singleton, List.flatten_singleton, hframe,
          hsplit]
        simp only [List.append_assoc]
      obtain ⟨-, hreceived, hstays⟩ :=
        h.onTransportBytes hlib (by simpa using hsendable) now hhonest
      rw [List.map_cons, receiveAll_cons, hsplit]
      refine ih (hreceived (hstays hfits).1) (by rw [hframe, hsplit]) ?_
      rw [List.length_append, List.length_singleton]
      rw [List.length_cons] at hcapacity
      omega

/-- A session that was just set up has an empty buffer. -/
theorem launch_receiveBuffer {client : Bool} {handler : Option SmuxStream.Start} {now : ℕ}
    (h : launch setting client handler now = .ok s) : s.receiveBuffer = [] := by
  obtain ⟨pad, timer, -, rfl⟩ := launch_eq_ok h
  rfl

/-- An arrival that is unpacked to one chunk which does not fit. -/
theorem onTransportBytes_overflow (hopen : s.closed = false) {now : ℕ} {bytes chunk : Bytes}
    (hbytes : bytes ≠ []) (hchunk : (s.unpack setting now bytes).2 = .ok [chunk])
    (hlong : setting.config.smuxCapacity < s.receiveBuffer.length + chunk.length) :
    (s.onTransportBytes setting now bytes).protocolErrorMessage =
      some "smux receive buffer overflow" := by
  have hbuffer : (s.unpack setting now bytes).1.receiveBuffer = s.receiveBuffer := by
    rw [unpack]
    split_ifs <;> rfl
  rw [onTransportBytes_eq hopen now hbytes, hchunk]
  exact consumeStreamBytes_overflow (by rw [hbuffer]; exact hlong)

/-- NOP frames are as long as one likes. -/
theorem length_nops (config : BaseConfig) (n : ℕ) :
    ((List.replicate n (⟨.nop, 0, []⟩ : Frame)).map (frameBytes config)).flatten.length =
      n * 8 := by
  have hnop : (frameBytes config ⟨.nop, 0, []⟩).length = 8 := length_frameBytes _ _
  rw [List.map_replicate, List.length_flatten, List.map_replicate, hnop, List.sum_replicate_nat]

/-- Bytes one by one, and then a segment. -/
theorem carried_trickle (now : ℕ) (first segment : Bytes) :
    carried (first.map (fun byte => (now, [byte])) ++ [(now, segment)]) = first ++ segment := by
  simp [carried, List.flatMap_map, List.flatMap_singleton']

/-- Without compression: the largest frame trickles in until the buffer is full or one byte is
missing, and then a whole segment arrives. -/
theorem segment_overflows (hlib : setting.snappy.Lawful) (hnocomp : setting.config.nocomp = true)
    {client : Bool} {handler : Option SmuxStream.Start} {now : ℕ}
    (hlaunch : launch setting client handler now = .ok s) (hmss : 0 < mss)
    (hroom : setting.config.smuxCapacity < setting.config.largestFrame - 1 + mss) :
    ∃ (frames : List Frame) (arrivals : List (ℕ × Bytes)),
      (∀ frame ∈ frames, frame.Produced setting.config) ∧
      carried arrivals <+: transportBytes setting {} frames ∧
      (∀ arrival ∈ arrivals, arrival.2.length ≤ mss) ∧
      (s.receiveAll setting arrivals).protocolErrorMessage =
        some "smux receive buffer overflow" := by
  obtain ⟨frame, hframe, hlargest⟩ := Frame.exists_produced_largest setting.config
  have hheader := length_frameBytes setting.config frame
  rw [smuxHeaderSize] at hheader
  -- enough NOP frames follow to fill a segment
  set nops : Bytes :=
    ((List.replicate mss (⟨.nop, 0, []⟩ : Frame)).map (frameBytes setting.config)).flatten
    with hnops
  have hlength : mss ≤ nops.length := by
    rw [hnops, length_nops]
    omega
  set held := min (setting.config.largestFrame - 1) setting.config.smuxCapacity with hheld
  set first := (frameBytes setting.config frame).take held
  set missing := (frameBytes setting.config frame).drop held
  have hsplit : frameBytes setting.config frame = first ++ missing :=
    (List.take_append_drop held _).symm
  have hfirst : first.length = held := by
    rw [List.length_take]
    omega
  have hmissing : missing ≠ [] := by
    refine List.length_pos_iff.mp ?_
    rw [List.length_drop]
    omega
  set segment := (missing ++ nops).take mss
  have hsegment : segment.length = mss := by
    rw [List.length_take, List.length_append]
    omega
  refine ⟨frame :: List.replicate mss ⟨.nop, 0, []⟩,
    first.map (fun byte => (now, [byte])) ++ [(now, segment)], ?_, ?_, ?_, ?_⟩
  · intro f hf
    rcases List.mem_cons.mp hf with rfl | hf
    · exact hframe
    · rw [List.eq_of_mem_replicate hf]
      rfl
  · rw [carried_trickle, transportBytes, if_pos hnocomp, List.map_cons, List.flatten_cons, hsplit,
      List.append_assoc]
    exact (List.prefix_append_right_inj _).mpr (List.take_prefix _ _)
  · intro arrival harrival
    rcases List.mem_append.mp harrival with harrival | harrival
    · obtain ⟨byte, -, rfl⟩ := List.mem_map.mp harrival
      exact hmss
    · rw [List.mem_singleton.mp harrival]
      exact hsegment.le
  · have hreceived := trickle hlib hnocomp hframe.sendable now (launch_received hlaunch) hsplit
      (by rw [List.length_nil, hfirst]; omega)
    rw [List.nil_append] at hreceived
    have hbuffer := receiveBuffer_eq_arrived hnocomp hreceived hframe.sendable hsplit hmissing
    rw [receiveAll_concat]
    refine onTransportBytes_overflow hreceived.isOpen ?_ (by rw [unpack, if_pos hnocomp]) ?_
    · exact List.length_pos_iff.mp (by rw [hsegment]; exact hmss)
    · rw [hbuffer, hfirst, hsegment]
      omega

/-- With compression: the largest frame arrives as one chunk. -/
theorem chunk_overflows (hlib : setting.snappy.Lawful) (hnocomp : setting.config.nocomp = false)
    {client : Bool} {handler : Option SmuxStream.Start} {now : ℕ}
    (hlaunch : launch setting client handler now = .ok s)
    (hroom : setting.config.smuxCapacity < setting.config.largestFrame) :
    ∃ (frames : List Frame) (arrivals : List (ℕ × Bytes)),
      (∀ frame ∈ frames, frame.Produced setting.config) ∧
      carried arrivals <+: transportBytes setting {} frames ∧
      (s.receiveAll setting arrivals).protocolErrorMessage =
        some "smux receive buffer overflow" := by
  obtain ⟨frame, hframe, hlargest⟩ := Frame.exists_produced_largest setting.config
  obtain ⟨hopen, plain, hunpacked, -⟩ := launch_received hlaunch
  have hframes : ∀ f ∈ [frame], f.Produced setting.config := by simpa using hframe
  have hhonest : [] ++ transportBytes setting {} [frame] ++ [] =
      transportBytes setting {} [frame] := by simp
  obtain ⟨chunks, rest, hchunks, hunpacked', -, hwhole⟩ :=
    unpack_honest hlib hunpacked now hhonest
  obtain ⟨earlier, -, hinitial⟩ := hwhole hnocomp
  have hplain : plain = [] := by
    have hnothing : transportBytes setting {} [] = [] := by
      simp [transportBytes, compressedItems]
    exact unpacked_whole hlib (hnothing.symm ▸ hunpacked)
  have hall := unpacked_whole hlib hunpacked'
  rw [hplain, List.nil_append, List.map_singleton, List.flatten_singleton] at hall
  rw [frameChunks_produced hframes, List.map_singleton] at hinitial
  -- the chunk of the frame is the only one
  have hsingle : chunks = [frameBytes setting.config frame] := by
    have hlength := hinitial.length_le
    rw [List.length_append, List.length_singleton] at hlength
    cases chunks with
    | nil =>
        have hheader := length_frameBytes setting.config frame
        rw [← hall, List.flatten_nil, List.length_nil, smuxHeaderSize] at hheader
        omega
    | cons chunk others =>
        rw [List.length_cons] at hlength
        have hothers : others = [] := List.length_eq_zero_iff.mp (by omega)
        rw [hothers, List.flatten_singleton] at hall
        rw [hothers, hall]
  refine ⟨[frame], [(now, transportBytes setting {} [frame])], hframes, ?_, ?_⟩
  · rw [carried_cons]
    simp [carried]
  · rw [hsingle] at hchunks
    refine onTransportBytes_overflow hopen (transportBytes_ne_nil _ _) hchunks ?_
    rw [launch_receiveBuffer hlaunch, List.length_nil, hlargest]
    omega

end SmuxSession

/-! ### The least room -/

/-- **No false protocol error.** Between two sessions that were set up with the same settings,
over a transport that delivers segments of at most `mss` bytes when the sessions do not
compress, neither session ever reports a protocol error, if the receive buffer has room for
the largest frame and, without compression, for all of it but a byte and a segment. That is
the least room that does: with any less, some frames of a session, arriving in such units,
overflow the buffer of the peer. -/
theorem no_false_protocolError (hlib : setting.snappy.Lawful) (hmss : 0 < mss)
    {handler : Side → Option SmuxStream.Start} {now : Side → ℕ} {left right : SmuxSession}
    (hleft : SmuxSession.launch setting true (handler .left) (now .left) = .ok left)
    (hright : SmuxSession.launch setting false (handler .right) (now .right) = .ok right) :
    (setting.config.Room mss → ∀ j p,
      (segmented setting mss).machine.Reachable (tunnelStart left right now) j →
        (j.party p).session.protocolErrorMessage = none) ∧
    (¬ setting.config.Room mss → ∃ (frames : List Frame) (arrivals : List (ℕ × Bytes)),
      (∀ frame ∈ frames, frame.Produced setting.config) ∧
      SmuxSession.carried arrivals <+: transportBytes setting {} frames ∧
      (setting.config.nocomp → ∀ arrival ∈ arrivals, arrival.2.length ≤ mss) ∧
      (right.receiveAll setting arrivals).protocolErrorMessage =
        some "smux receive buffer overflow") := by
  constructor
  · intro hroom j p hreach
    have hsilent (client : Bool) {handler : Option SmuxStream.Start} {now : ℕ} {s : SmuxSession}
        (h : SmuxSession.launch setting client handler now = .ok s) :
        s.protocolErrorMessage = none := by
      obtain ⟨pad, timer, -, rfl⟩ := SmuxSession.launch_eq_ok h
      rfl
    have hstart : Calm setting left right [] [] :=
      ⟨launch_tunnelInv (.refl setting) hleft hright, SmuxSession.launch_produces hleft,
        SmuxSession.launch_produces hright, hsilent true hleft, hsilent false hright⟩
    have hinit : ∀ p, Calm setting ((tunnelStart left right now).party p).session
        ((tunnelStart left right now).party p.other).session [] [] := by
      intro p
      cases p with
      | left => exact hstart
      | right => exact hstart.symm
    exact ((calm_directed hlib hroom).reachable hinit hreach p).silent
  · intro hroom
    cases hnocomp : setting.config.nocomp with
    | true =>
        rw [BaseConfig.Room, if_pos hnocomp, not_le] at hroom
        obtain ⟨frames, arrivals, hframes, hcarried, hsegments, hoverflow⟩ :=
          SmuxSession.segment_overflows hlib hnocomp hright hmss hroom
        exact ⟨frames, arrivals, hframes, hcarried, fun _ => hsegments, hoverflow⟩
    | false =>
        rw [BaseConfig.Room, if_neg (by simp [hnocomp]), not_le] at hroom
        obtain ⟨frames, arrivals, hframes, hcarried, hoverflow⟩ :=
          SmuxSession.chunk_overflows hlib hnocomp hright hroom
        exact ⟨frames, arrivals, hframes, hcarried, by simp, hoverflow⟩

/-- The default settings leave enough room without compression, with segments of the size that
goes with the default mtu. -/
theorem default_room_silent :
    let setting : Setting := ⟨{ nocomp := true }, .uncalled, ⟨id, some⟩⟩
    let left : SmuxSession := { client := true, nextStreamId := 1, keepaliveTimer := some 10 }
    let right : SmuxSession :=
      { client := false, acceptHandler := some .serverTcp, nextStreamId := 0
        keepaliveTimer := some 10 }
    setting.config.Room 1298 ∧ ∀ j p,
      (segmented setting 1298).machine.Reachable (tunnelStart left right fun _ => 0) j →
        (j.party p).session.protocolErrorMessage = none := by
  intro setting left right
  have hleft : SmuxSession.launch setting true none 0 = .ok left := rfl
  have hright : SmuxSession.launch setting false (some .serverTcp) 0 = .ok right := rfl
  have hroom : setting.config.Room 1298 := by decide
  exact ⟨hroom, (@no_false_protocolError setting 1298 (fun _ => rfl) (by decide)
    (fun p => if p = .left then none else some .serverTcp) (fun _ => 0) left right hleft
    hright).1 hroom⟩

/-- An accepted configuration with a receive buffer of seven bytes: the first SYN frame of an
honest peer overflows it. -/
theorem first_syn_overflows :
    let setting : Setting := ⟨{ nocomp := true, smuxbuf := 7 }, .uncalled, ⟨id, some⟩⟩
    let left : SmuxSession := { client := true, nextStreamId := 1, keepaliveTimer := some 10 }
    let right : SmuxSession :=
      { client := false, acceptHandler := some .serverTcp, nextStreamId := 0
        keepaliveTimer := some 10 }
    setting.config.Accepted ∧
      SmuxSession.launch setting true none 0 = .ok left ∧
      SmuxSession.launch setting false (some .serverTcp) 0 = .ok right ∧
      ∃ j, (segmented setting 1298).machine.run (tunnelStart left right fun _ => 0)
          [.act .left (.session (.openStream .clientTcp)), .deliver .right 8] = some j ∧
        (j.party .right).session.protocolErrorMessage = some "smux receive buffer overflow" := by
  intro setting left right
  have hrun : ((segmented setting 1298).machine.run (tunnelStart left right fun _ => 0)
      [.act .left (.session (.openStream .clientTcp)), .deliver .right 8]).map
        (fun j => (j.party .right).session.protocolErrorMessage) =
      some (some "smux receive buffer overflow") := by decide +kernel
  obtain ⟨j, hj, hmessage⟩ := Option.map_eq_some_iff.mp hrun
  exact ⟨by decide, rfl, rfl, j, hj, hmessage⟩

end Shimakaze
