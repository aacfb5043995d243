import Shimakaze.Lib.Registry
import Shimakaze.Smux.Upkeep

/-!
# The Stream Table

`streams_` is how frames find their stream. Streams are entered when a session opens them
or the peer's SYN arrives, and a closing stream has the session remove the entry of its id.
Ids come from two sources that the code does not keep apart: the local counter, and
whatever the peer puts in a SYN. The handler of a SYN looks whether the id is in use;
`open_stream` does not, and `emplace` keeps the entry there is.

The bytes of the peer are arbitrary here: nothing in this module asks for an honest peer.

## Main results

* `parting_reaction`: a stream asks to be removed only when it closes.
* `tableInv_upkeep`: every function of a session keeps the table exact, `open_stream` apart.
* `always_tableConsistent_iff`: **a run of a session keeps its table consistent exactly when
  `open_stream` never runs into an id that is in use**.
-/

namespace Shimakaze

/-- A request to be removed from the table. -/
def SessionCall.isClosing : SessionCall → Bool
  | .streamClosed _ => true
  | _ => false

namespace SmuxStream

variable {config : BaseConfig} {s t : SmuxStream} {e : StreamEvent} {o : Outcome}

/-! ### Parting -/

/-- The outcome of a function on a stream that was `closed` before: it leaves that as it was
and asks for no removal, or it closes the stream. -/
def Parting (closed : Bool) (o : Outcome) : Prop :=
  (o.stream.closed = closed ∧ ∀ call ∈ o.calls, call.isClosing = false) ∨
    (closed = false ∧ o.stream.closed = true)

/-- A function that makes no calls and does not close. -/
theorem Parting.quiet (h : t.closed = s.closed) : Parting s.closed t.quiet :=
  Or.inl ⟨h, by simp⟩

theorem close_parting (s : SmuxStream) : Parting s.closed s.close := by
  cases h : s.closed with
  | true =>
      rw [s.close_of_closed h, ← h]
      exact Parting.quiet rfl
  | false => exact Or.inr ⟨rfl, s.close_closed⟩

theorem sendLocalFin_maybeFinish_parting (s : SmuxStream) :
    Parting s.closed (s.sendLocalFin.andThen (maybeFinish config)) := by
  refine Or.inl ⟨?_, ?_⟩
  · rw [Outcome.andThen_stream, maybeFinish_view config _ closed fun _ _ => rfl,
      sendLocalFin_stream]
  · rw [Outcome.andThen_calls, maybeFinish_calls, List.append_nil, sendLocalFin_calls]
    split_ifs <;> simp [SessionCall.isClosing]

theorem writeHandler_parting (s : SmuxStream) : Parting s.closed (writeHandler config s) := by
  refine Or.inl ⟨?_, ?_⟩
  · obtain ⟨numRead, incr, h⟩ := markPayloadConsumed_stream config
      { s with
        tcpWriteActive := false
        pendingTcpWrites := s.pendingTcpWrites.tail
        history := { s.history with
          written := s.history.written ++ s.pendingTcpWrites.headD [] } }
      (s.pendingTcpWrites.headD []).length
    simp only [writeHandler, Outcome.andThen_stream, h]
    rw [maybeFinish_view config _ closed fun _ _ => rfl, shutdownTcpSendIfReady_closed,
      flushTcpWrites_closed]
  · simp only [writeHandler, Outcome.andThen_calls, maybeFinish_calls, List.append_nil]
    intro call hcall
    obtain ⟨consumed, window, rfl⟩ := markPayloadConsumed_calls config _ _ call hcall
    rfl

theorem flush_parting (h : t.closed = s.closed) :
    Parting s.closed ((tryFlushOutbound config t).andThen readOn) := by
  refine Or.inl ⟨h ▸ flush_readOn_view config t closed (fun _ _ _ => rfl) (by simp), ?_⟩
  rw [Outcome.andThen_calls, readOn_calls, List.append_nil]
  intro call hcall
  have hpsh := tryFlushOutbound_isPsh config t call hcall
  cases call with
  | streamClosed id => exact absurd hpsh (by simp [SessionCall.isPsh])
  | sendFrame command id payload => rfl
  | sendUpdate id consumed window => rfl

/-- **A stream asks to be removed only when it closes.** -/
theorem parting_reaction (config : BaseConfig) :
    Reaction config fun s o => Parting s.closed o where
  congr _ _ _ h ht := by
    simp only [stance, Prod.mk.injEq] at h
    rw [← h.2.1.1]
    exact ht
  quiet _ _ h := by
    simp only [stance, Prod.mk.injEq] at h
    exact Parting.quiet h.2.1.1
  close := close_parting
  finish := sendLocalFin_maybeFinish_parting
  written := writeHandler_parting
  flush _ := flush_parting rfl
  stored _ _ _ _ := Parting.quiet rfl
  queued s bytes := by
    refine flush_parting ?_
    rw [queueOutbound]
    split_ifs <;> rfl

end SmuxStream

namespace SmuxSession

variable {setting : Setting} {s t : SmuxSession}

/-! ### Consistent tables -/

/-- An object is in use until it is closed. -/
def live (r : SmuxStream) : Bool := !r.closed

/-- The table of an open session holds every stream that is not closed, under its own id,
and no other; closing a stream removes its entry and no other; the table of a closed
session is empty. -/
structure TableConsistent (setting : Setting) (s : SmuxSession) : Prop where
  registered : s.closed = false → ∀ (i : ℕ) (r : SmuxStream), s.objects[i]? = some r →
    r.closed = false → s.streams.lookup r.id = some i
  opened : ∀ entry ∈ s.streams, ∃ r, s.objects[entry.2]? = some r ∧ r.id = entry.1 ∧
    r.closed = false
  removal : ∀ (i : ℕ) (r : SmuxStream) (e : StreamEvent) (o : Outcome),
    s.objects[i]? = some r → e ≠ .sessionExpired → r.react setting.config e = some o →
    (s.settle setting i o).streams =
      if o.stream.closed then s.streams.filter (fun entry => entry.2 ≠ i) else s.streams
  emptied : s.closed → s.streams = []

/-- The invariant behind it: the table of an open session is exact. -/
structure TableInv (s : SmuxSession) : Prop where
  alive : ∀ r ∈ s.objects, r.sessionAlive = true
  exact : s.closed = false → Registry.Exact SmuxStream.id live s.streams s.objects
  emptied : s.closed → s.streams = []

theorem TableInv.of_tables (h : TableInv s) (hclosed : t.closed = s.closed)
    (hstreams : t.streams = s.streams) (hobjects : t.objects = s.objects) : TableInv t := by
  refine ⟨?_, ?_, ?_⟩
  · rw [hobjects]; exact h.alive
  · rw [hclosed, hstreams, hobjects]; exact h.exact
  · rw [hclosed, hstreams]; exact h.emptied

/-! ### Stream functions -/

/-- The tables after a stream function. -/
theorem settle_tables (s : SmuxSession) (index : ℕ) (o : Outcome) :
    (s.settle setting index o).closed = s.closed ∧
      (s.settle setting index o).streams =
        s.streams.filter (fun entry => SessionCall.streamClosed entry.1 ∉ o.calls) ∧
      (s.settle setting index o).objects = s.objects.set index o.stream := by
  have hledger := @settle_ledger setting s index o
  exact ⟨congrArg Ledger.closed hledger, congrArg Ledger.streams hledger,
    congrArg Ledger.objects hledger⟩

/-- A function of a stream that mentions only its own id removes by that id when the stream
closes, and removes nothing otherwise. -/
theorem filter_calls {r : SmuxStream} {o : Outcome} {table : List (UInt32 × ℕ)}
    (halive : r.sessionAlive = true) (hmanner : r.Manner setting.config o)
    (hparting : SmuxStream.Parting r.closed o) :
    table.filter (fun entry => SessionCall.streamClosed entry.1 ∉ o.calls) =
      if r.closed = false ∧ o.stream.closed then table.filter (fun entry => entry.1 ≠ r.id)
      else table := by
  split_ifs with hcloses
  · refine List.filter_congr fun entry _ => decide_eq_decide.mpr (not_congr ?_)
    constructor
    · intro hmem
      exact hmanner.calls _ hmem
    · rintro hid
      rw [hid]
      exact hmanner.closing halive hcloses.1 hcloses.2
  · refine List.filter_eq_self.mpr fun entry _ => decide_eq_true fun hmem => ?_
    rcases hparting with ⟨-, hnone⟩ | hclosing
    · exact absurd (hnone _ hmem) (by simp [SessionCall.isClosing])
    · exact hcloses hclosing

/-- **A stream function keeps the table exact.** -/
theorem TableInv.settle (h : TableInv s) {index : ℕ} {r : SmuxStream} {o : Outcome}
    (hr : s.objects[index]? = some r) (hmanner : r.Manner setting.config o)
    (hparting : SmuxStream.Parting r.closed o) : TableInv (s.settle setting index o) := by
  have halive := h.alive r (List.mem_of_getElem? hr)
  obtain ⟨hclosed, hstreams, hobjects⟩ := @settle_tables setting s index o
  rw [filter_calls halive hmanner hparting] at hstreams
  refine ⟨?_, ?_, ?_⟩
  · rw [hobjects]
    intro x hx
    rcases List.mem_or_eq_of_mem_set hx with hx | rfl
    · exact h.alive x hx
    · exact hmanner.alive_eq.trans halive
  · rw [hclosed, hstreams, hobjects]
    intro hopen
    have hexact := h.exact hopen
    split_ifs with hcloses
    · exact hexact.retire hr (by rw [live, hcloses.1]; rfl) (by rw [live, hcloses.2]; rfl)
    · refine hexact.update hr hmanner.id_eq ?_
      rcases hparting with ⟨hsame, -⟩ | hclosing
      · rw [live, hsame, live]
      · exact absurd hclosing hcloses
  · rw [hclosed, hstreams]
    intro hshut
    rw [h.emptied hshut]
    split_ifs <;> rfl

/-- The invariant says all there is to say about the table. -/
theorem TableInv.consistent (h : TableInv s) : TableConsistent setting s := by
  have hopen_of_mem : ∀ entry ∈ s.streams, s.closed = false := by
    intro entry hentry
    cases hclosed : s.closed with
    | false => rfl
    | true =>
        rw [h.emptied hclosed] at hentry
        exact absurd hentry (by simp)
  refine ⟨?_, ?_, ?_, h.emptied⟩
  · intro hopen i r hr hlive
    exact (h.exact hopen).registered i r hr (by rw [live, hlive]; rfl)
  · intro entry hentry
    obtain ⟨r, hr, hid, hlive⟩ := (h.exact (hopen_of_mem entry hentry)).sound entry hentry
    exact ⟨r, hr, hid, by simpa [live] using hlive⟩
  · intro i r e o hr he hreact
    have halive := h.alive r (List.mem_of_getElem? hr)
    have hparting := (SmuxStream.parting_reaction _).react he hreact
    obtain ⟨-, hstreams, -⟩ := @settle_tables setting s i o
    rw [hstreams, filter_calls halive (SmuxStream.react_manner he hreact) hparting]
    cases hclosed : s.closed with
    | true =>
        rw [h.emptied hclosed]
        split_ifs <;> rfl
    | false =>
        have hexact := h.exact hclosed
        cases hlive : r.closed with
        | false =>
            simp only [true_and]
            split_ifs
            · exact hexact.filter_key hr (by rw [live, hlive]; rfl)
            · rfl
        | true =>
            rw [if_neg (by simp)]
            split_ifs
            · exact (hexact.filter_dead hr (by rw [live, hlive]; rfl)).symm
            · rfl

/-! ### Making streams -/

/-- Entering a new stream under a free id. -/
theorem TableInv.addStream (h : TableInv s) {streamId : UInt32}
    (hfree : s.streams.lookup streamId = none) (hopen : s.closed = false) :
    TableInv (s.addStream setting streamId) := by
  have hstreams : (s.addStream setting streamId).streams =
      s.streams ++ [(streamId, s.objects.length)] := by
    rw [SmuxSession.addStream]
    simp [hfree]
  refine ⟨?_, ?_, ?_⟩
  · intro r hr
    rcases List.mem_append.mp hr with hr | hr
    · exact h.alive r hr
    · rw [List.mem_singleton.mp hr]
      rfl
  · intro _
    rw [hstreams]
    exact (h.exact hopen).add (x := SmuxStream.make setting.prims setting.config s.qppPad streamId)
      rfl hfree
  · intro hclosed
    exact absurd (hopen.symm.trans hclosed) (by decide)

/-- `send_frame` leaves the tables alone. -/
theorem TableInv.sendFrame (h : TableInv s) (command : Command) (streamId : UInt32)
    (payload : Bytes) : TableInv (s.sendFrame setting command streamId payload) := by
  have hclosed : (s.sendFrame setting command streamId payload).closed = s.closed := by
    rw [SmuxSession.sendFrame]
    split_ifs <;> rfl
  obtain ⟨hstreams, hobjects⟩ := @sendFrame_tables setting s command streamId payload
  exact h.of_tables hclosed hstreams hobjects

/-- How a stream treats its session. -/
def Treats (config : BaseConfig) (r : SmuxStream) (o : Outcome) : Prop :=
  r.Manner config o ∧ SmuxStream.Parting r.closed o

/-- **Every function of a session keeps the table exact**, whatever the peer sends. -/
theorem tableInv_upkeep (setting : Setting) :
    Upkeep setting (Treats setting.config) TableInv where
  conduct := Conduct.and (.of_reaction (SmuxStream.manner_reaction setting.config))
    (.of_reaction (SmuxStream.parting_reaction setting.config))
  congr s t ht h := by
    simp only [standing, Prod.mk.injEq] at ht
    exact h.of_tables ht.1.1 ht.1.2 ht.2.1
  settle s index r o h hr ho := h.settle hr ho.1 ho.2
  shut s h := by
    refine ⟨h.alive, ?_, fun _ => rfl⟩
    intro hopen
    exact absurd hopen (by simp)
  add s streamId h hopen hfree := h.addStream hfree hopen
  nop s h := h.sendFrame .nop 0 []

/-! ### Opening streams -/

/-- The id the next stream gets is free. -/
def NextIdFree (s : SmuxSession) : Prop := s.streams.lookup (s.nextStreamId + 2) = none

/-- Opening a stream under a free id. -/
theorem TableInv.openStream (h : TableInv s) (hfree : s.NextIdFree) {index : ℕ}
    (hok : s.openStream setting = .ok (t, index)) : TableInv t := by
  obtain ⟨hopen, -, rfl⟩ := openStream_eq_ok hok
  have hnext : TableInv { s with nextStreamId := s.nextStreamId + 2 } := h.of_tables rfl rfl rfl
  have hsent := @sendFrame_tables setting
    { s with nextStreamId := s.nextStreamId + 2 } .syn (s.nextStreamId + 2) []
  refine TableInv.addStream (hnext.sendFrame .syn _ []) (by rw [hsent.1]; exact hfree) ?_
  rw [SmuxSession.sendFrame]
  split_ifs <;> exact hopen

/-- Opening a stream under an id in use: the new stream is open and has no entry. -/
theorem TableInv.openStream_taken (h : TableInv s) (htaken : ¬ s.NextIdFree) {index : ℕ}
    (hok : s.openStream setting = .ok (t, index)) (kind : SmuxStream.Start) :
    ¬ TableConsistent setting
      (t.onObject setting index fun r => (r.start kind).quiet) := by
  have hindex : index = s.objects.length := by
    rw [SmuxSession.openStream] at hok
    split_ifs at hok
    exact (Prod.mk.inj (Except.ok.inj hok)).2.symm
  obtain ⟨hopen, -, ht⟩ := openStream_eq_ok hok
  set sid := s.nextStreamId + 2
  set sent := SmuxSession.sendFrame setting { s with nextStreamId := sid } .syn sid [] with hsent
  have hclosed : sent.closed = s.closed := by
    rw [hsent, SmuxSession.sendFrame]
    split_ifs <;> rfl
  obtain ⟨hstreams, hobjects⟩ := @sendFrame_tables setting
    { s with nextStreamId := sid } .syn sid []
  simp only [← hsent] at hstreams hobjects
  set r := SmuxStream.make setting.prims setting.config sent.qppPad sid with hr
  have htstreams : t.streams = s.streams := by
    rw [ht, SmuxSession.addStream, hstreams]
    exact if_pos (Option.isSome_iff_ne_none.mpr htaken)
  have htobjects : t.objects = s.objects ++ [r] := by
    rw [ht, SmuxSession.addStream, hobjects]
  have htclosed : t.closed = false := by
    rw [ht, SmuxSession.addStream]
    exact hclosed.trans hopen
  have hget : t.objects[index]? = some r := by
    rw [htobjects, hindex]
    exact List.getElem?_concat_length
  obtain ⟨htraffic, -, hlive⟩ := r.start_traffic kind
  have hstarted : (t.onObject setting index fun r => (r.start kind).quiet) =
      t.settle setting index (r.start kind).quiet := by
    rw [SmuxSession.onObject, hget]
  have hsettled := @settle_tables setting t index (r.start kind).quiet
  simp only [SmuxStream.quiet_calls] at hsettled
  rw [hstarted]
  intro hconsistent
  have hnew := hconsistent.registered (hsettled.1.trans htclosed) index (r.start kind) (by
    rw [hsettled.2.2]
    exact (Registry.getElem?_set_eq_some hget).mpr (Or.inl ⟨rfl, rfl⟩)) (hlive.trans rfl)
  rw [hsettled.2.1, htstreams] at hnew
  have hmem := (List.mem_filter.mp (Registry.mem_of_lookup hnew)).1
  obtain ⟨x, hx, -⟩ := (h.exact hopen).sound _ hmem
  rw [hindex] at hx
  exact absurd (List.getElem?_eq_some_iff.mp hx).1 (Nat.lt_irrefl _)

end SmuxSession

/-! ### Runs -/

/-- What can happen to a session: bytes of the peer arrive, or something on its own side. -/
inductive SessionInput
  | arrival (now : ℕ) (bytes : Bytes)
  | act (now : ℕ) (e : SessionEvent)
  deriving DecidableEq

/-- The life of a session. -/
def sessionMachine (setting : Setting) : EventMachine SmuxSession SessionInput where
  step s
    | .arrival now bytes => some (s.onTransportBytes setting now bytes)
    | .act now e => s.act setting now e

namespace SmuxSession

variable {setting : Setting} {s t : SmuxSession}

/-- An input does not open a stream under an id in use. -/
def OpensFree (s : SmuxSession) : SessionInput → Prop
  | .act _ (.openStream _) => s.NextIdFree
  | _ => True

/-- **Every input that opens no stream under an id in use keeps the table exact.** -/
theorem TableInv.step (h : TableInv s) {e : SessionInput} (hfree : s.OpensFree e)
    (hstep : (sessionMachine setting).step s e = some t) : TableInv t := by
  cases e with
  | arrival now bytes =>
      obtain rfl := Option.some.inj hstep
      exact (tableInv_upkeep setting).onTransportBytes h now bytes
  | act now e =>
      refine (tableInv_upkeep setting).act h (fun kind f index he hok => ?_) hstep
      rw [he] at hfree
      exact h.openStream hfree hok

/-- A session that was just set up has no streams. -/
theorem launch_tableInv {client : Bool} {handler : Option SmuxStream.Start} {now : ℕ}
    (h : launch setting client handler now = .ok s) : TableInv s := by
  obtain ⟨pad, timer, -, rfl⟩ := launch_eq_ok h
  refine ⟨?_, ?_, ?_⟩
  · intro r hr
    exact absurd hr (by simp)
  · intro _
    exact Registry.Exact.nil _ _
  · intro _
    rfl

/-- **The exact condition for a consistent table.** Whatever bytes the peer sends to a
client or a server and in whatever order streams are opened and closed, at every moment of
the run the table of the open session holds exactly the streams that are not closed, each
under its id, closing a stream removes that stream only, and the table of the closed session
is empty, exactly when `open_stream` never gives out an id that is in the table. -/
theorem always_tableConsistent_iff {client : Bool} {handler : Option SmuxStream.Start}
    {now : ℕ} (hlaunch : launch setting client handler now = .ok s) (es : List SessionInput) :
    (sessionMachine setting).Always (TableConsistent setting) s es ↔
      (sessionMachine setting).Along OpensFree s es := by
  refine EventMachine.always_iff_along (I := TableInv) (fun _ h => h.consistent)
    (fun _ _ _ h hfree hstep => h.step hfree hstep) ?_ (launch_tableInv hlaunch) es
  intro s e s' h htaken hstep
  cases e with
  | arrival now bytes => exact absurd trivial htaken
  | act now e =>
      cases e with
      | openStream kind =>
          simp only [sessionMachine, act] at hstep
          split at hstep
          · next f index hok =>
            obtain rfl := Option.some.inj hstep
            exact h.openStream_taken htaken hok kind
          · exact absurd hstep (by simp)
      | completion index c => exact absurd trivial htaken
      | closeStream index => exact absurd trivial htaken
      | keepalive => exact absurd trivial htaken
      | close => exact absurd trivial htaken

/-- A client opens a stream while the peer announces one of its own; the first stream is
closed and then the session. -/
theorem two_streams_consistent :
    let setting : Setting := ⟨{ nocomp := true }, .uncalled, ⟨id, some⟩⟩
    (sessionMachine setting).Always (TableConsistent setting)
      { client := true, nextStreamId := 1, keepaliveTimer := some 10 }
      [.act 0 (.openStream .clientTcp), .arrival 0 [2, 0, 0, 0, 2, 0, 0, 0],
        .act 0 (.closeStream 0), .act 0 .close] := by
  intro setting
  have hlaunch : launch setting true none 0 =
      .ok { client := true, nextStreamId := 1, keepaliveTimer := some 10 } := rfl
  refine (always_tableConsistent_iff hlaunch _).mpr ?_
  -- the one stream is opened on an empty table
  exact fun _ _ => ⟨rfl, fun _ _ => ⟨trivial, fun _ _ => ⟨trivial, fun _ _ => ⟨trivial, trivial⟩⟩⟩⟩

/-- The peer of a client sends a SYN for the id the client is about to use: the stream the
client opens next is not in the table. -/
theorem syn_with_next_id_hides_stream :
    let setting : Setting := ⟨{ nocomp := true }, .uncalled, ⟨id, some⟩⟩
    launch setting true none 0 =
        .ok { client := true, nextStreamId := 1, keepaliveTimer := some 10 } ∧
      ¬ (sessionMachine setting).Always (TableConsistent setting)
        { client := true, nextStreamId := 1, keepaliveTimer := some 10 }
        [.arrival 0 [2, 0, 0, 0, 3, 0, 0, 0], .act 0 (.openStream .clientTcp)] := by
  intro setting
  refine ⟨rfl, fun h => ?_⟩
  have hrun : ((sessionMachine setting).run
      { client := true, nextStreamId := 1, keepaliveTimer := some 10 }
      [.arrival 0 [2, 0, 0, 0, 3, 0, 0, 0], .act 0 (.openStream .clientTcp)]).map
        (fun s => (s.closed, s.streams, s.objects[1]?.map fun r => (r.id, r.closed))) =
      some (false, [(3, 0)], some (3, false)) := by decide +kernel
  obtain ⟨t, ht, hview⟩ := Option.map_eq_some_iff.mp hrun
  simp only [Prod.mk.injEq, Option.map_eq_some_iff] at hview
  obtain ⟨hopen, hstreams, r, hr, hid, hlive⟩ := hview
  have hconsistent := EventMachine.always_iff.mp h _ [] t (List.append_nil _).symm ht
  have hregistered := hconsistent.registered hopen 1 r hr hlive
  rw [hid, hstreams] at hregistered
  exact absurd hregistered (by decide)

end SmuxSession

end Shimakaze
