import Shimakaze.Lib.Registry
import Shimakaze.Smux.Carriage

/-!
# The Books of a Session

A session keeps a table of its open streams while the stream objects live on, and it is
the frames that went out and came in which say what each object must have sent and
received. `Ledger` is the part of a session's state that this is about, and `LedgerInv` ties
the table, the objects and the two lists of frames together.

What comes in is constrained by the peer only: its SYN frames have ids of its own parity,
each once, and no data precedes them (`Orderly`).

## Main results

* `LedgerInv.settle`: running a function of one stream object keeps the books.
* `LedgerInv.add`, `LedgerInv.record`, `LedgerInv.shut`: making a stream, taking note of an
  incoming frame, and closing the session keep them.
-/

namespace Shimakaze

/-! ### Orderly frames -/

/-- The ids of the SYN frames. -/
def synIds (frames : List Frame) : List UInt32 :=
  (frames.filter fun frame => frame.command = .syn).map Frame.streamId

@[simp] theorem synIds_append (as bs : List Frame) :
    synIds (as ++ bs) = synIds as ++ synIds bs := by
  rw [synIds, List.filter_append, List.map_append]
  rfl

theorem synIds_eq_nil {frames : List Frame} (h : ∀ frame ∈ frames, frame.command ≠ .syn) :
    synIds frames = [] := by
  rw [synIds, List.filter_eq_nil_iff.mpr fun frame hmem => by simpa using h frame hmem]
  rfl

theorem synIds_singleton (id : UInt32) (payload : Bytes) : synIds [⟨.syn, id, payload⟩] = [id] :=
  rfl

/-- The parity of the stream ids a side opens: the client's are odd. -/
def ownParity (client : Bool) : ℕ := if client then 1 else 0

theorem ownParity_not (client : Bool) : ownParity (!client) ≠ ownParity client := by
  cases client <;> decide

/-- The frames of a side that opens each stream once, before it sends data on it. -/
structure Orderly (client : Bool) (frames : List Frame) : Prop where
  parity : ∀ id ∈ synIds frames, id.toNat % 2 = ownParity client
  once : (synIds frames).Nodup
  first : ∀ before frame after, frames = before ++ frame :: after → frame.command = .syn →
    payloads frame.streamId before = []

/-- Frames other than SYN keep the order. -/
theorem Orderly.append {client : Bool} {frames more : List Frame} (h : Orderly client frames)
    (hmore : ∀ frame ∈ more, frame.command ≠ .syn) : Orderly client (frames ++ more) := by
  have hsyn : synIds (frames ++ more) = synIds frames := by
    rw [synIds_append, synIds_eq_nil hmore, List.append_nil]
  refine ⟨hsyn ▸ h.parity, hsyn ▸ h.once, fun before frame after heq hcommand => ?_⟩
  rcases List.append_eq_append_iff.mp heq with ⟨mid, rfl, hmid⟩ | ⟨mid, rfl, hmid⟩
  · exact absurd hcommand (hmore frame (hmid ▸ List.mem_append_right _ List.mem_cons_self))
  · cases mid with
    | nil =>
        have hmid : frame :: after = more := hmid
        exact absurd hcommand (hmore frame (hmid ▸ List.mem_cons_self))
    | cons head mid =>
        obtain ⟨rfl, -⟩ := List.cons_eq_cons.mp hmid
        exact h.first before frame mid rfl hcommand

/-- So does a new SYN for a stream without data. -/
theorem Orderly.open {client : Bool} {frames : List Frame} (h : Orderly client frames)
    {id : UInt32} (hparity : id.toNat % 2 = ownParity client) (hnew : id ∉ synIds frames)
    (hnone : payloads id frames = []) : Orderly client (frames ++ [⟨.syn, id, []⟩]) := by
  refine ⟨?_, ?_, fun before frame after heq hcommand => ?_⟩
  · rw [synIds_append, synIds_singleton]
    intro id' hmem
    rcases List.mem_append.mp hmem with hmem | hmem
    · exact h.parity id' hmem
    · rw [List.mem_singleton.mp hmem]
      exact hparity
  · rw [synIds_append, synIds_singleton]
    exact List.nodup_append.mpr ⟨h.once, by simp, fun a ha b hb hab =>
      hnew (by rw [List.mem_singleton.mp hb] at hab; exact hab ▸ ha)⟩
  · rcases List.append_eq_append_iff.mp heq with ⟨mid, rfl, hmid⟩ | ⟨mid, rfl, hmid⟩
    · cases mid with
      | nil =>
          obtain ⟨rfl, -⟩ := List.cons_eq_cons.mp hmid
          rw [List.append_nil]
          exact hnone
      | cons head mid => exact absurd (congrArg List.length hmid) (by simp)
    · cases mid with
      | nil =>
          obtain ⟨rfl, -⟩ := List.cons_eq_cons.mp hmid
          simpa using hnone
      | cons head mid =>
          obtain ⟨rfl, -⟩ := List.cons_eq_cons.mp hmid
          exact h.first before frame mid rfl hcommand

/-! ### The books -/

/-- The part of a session that keeps track of streams and frames. -/
structure Ledger where
  client : Bool
  closed : Bool
  qppPad : Option QppPad
  nextStreamId : UInt32
  streams : List (UInt32 × ℕ)
  objects : List SmuxStream
  frames : List Frame
  dispatched : List Frame

/-- The ledger of a session. -/
def SmuxSession.ledger (s : SmuxSession) : Ledger where
  client := s.client
  closed := s.closed
  qppPad := s.qppPad
  nextStreamId := s.nextStreamId
  streams := s.streams
  objects := s.objects
  frames := s.frames
  dispatched := s.dispatched

/-- The generator state both directions of a stream start from. -/
def Setting.seed (setting : Setting) (pad : Option QppPad) : Qpp.Rand :=
  (QppStream.make setting.prims pad setting.config.key).writeRand

namespace Ledger

variable {setting : Setting} {l : Ledger}

/-- A stream object is in accord with the frames. -/
def Accord (setting : Setting) (l : Ledger) (r : SmuxStream) : Prop :=
  r.StreamInv l.qppPad (setting.seed l.qppPad) l.closed (l.streams.lookup r.id).isSome
    (payloads r.id l.frames) (payloads r.id l.dispatched)

/-- The books apart from the contents of the streams. -/
structure Books (setting : Setting) (l : Ledger) : Prop where
  /-- The table holds open streams, under their ids. -/
  table : ∀ id i, l.streams.lookup id = some i →
    ∃ r, l.objects[i]? = some r ∧ r.id = id ∧ r.closed = false
  distinct : (l.objects.map SmuxStream.id).Nodup
  /-- Every stream was opened here or by the peer. -/
  origin : ∀ r ∈ l.objects, r.id ∈ synIds l.frames ∨ r.id ∈ synIds l.dispatched
  next : l.nextStreamId.toNat % 2 = ownParity l.client
  opened : ∀ id ∈ synIds l.frames, id.toNat ≤ l.nextStreamId.toNat
  orderly : Orderly l.client l.frames
  /-- Data goes out for streams that exist. -/
  answered : ∀ id, payloads id l.frames ≠ [] → ∃ r ∈ l.objects, r.id = id
  sendable : ∀ frame ∈ l.frames, frame.Sendable setting.config

/-- **The invariant of a session's books.** -/
structure LedgerInv (setting : Setting) (l : Ledger) : Prop extends Books setting l where
  accord : ∀ r ∈ l.objects, l.Accord setting r

/-! ### Running a function of one stream -/

/-- The ledger after a stream function ran on the object at a position and its calls were
carried out. -/
def settled (l : Ledger) (index : ℕ) (o : Outcome) : Ledger :=
  { l with
    objects := l.objects.set index o.stream
    frames := l.frames ++ transmitted l.closed o.calls
    streams := l.streams.filter fun entry => SessionCall.streamClosed entry.1 ∉ o.calls }

/-- Frames that get through from the calls of one stream. -/
theorem transmitted_ofStream {config : BaseConfig} {closed : Bool} {calls : List SessionCall}
    {id : UInt32} (h : ∀ call ∈ calls, call.OfStream config id) :
    ∀ frame ∈ transmitted closed calls, frame.command ≠ .syn ∧ frame.Sendable config := by
  intro frame hmem
  obtain ⟨-, hlen, call, hcall, hframe⟩ := mem_transmitted hmem
  have hcall := h call hcall
  cases call with
  | sendFrame command streamId payload =>
      obtain rfl := Option.some.inj hframe
      rcases hcall.2 with rfl | rfl
      · exact ⟨by simp, hlen, by simp⟩
      · exact ⟨by simp, hlen, by simp⟩
  | sendUpdate streamId consumed window =>
      obtain rfl := Option.some.inj hframe
      exact ⟨by simp, hlen, fun _ => ⟨hcall.2, by simp [smuxUpdateSize]⟩⟩
  | streamClosed streamId => exact absurd hframe (by simp [SessionCall.frame])

variable {index : ℕ} {r : SmuxStream} {o : Outcome}

/-- Objects with one id are one object. -/
theorem Books.unique (h : Books setting l) {i j : ℕ} {x y : SmuxStream}
    (hi : l.objects[i]? = some x) (hj : l.objects[j]? = some y) (hid : x.id = y.id) : i = j := by
  have hi' : (l.objects.map SmuxStream.id)[i]? = some x.id := by rw [List.getElem?_map, hi]; rfl
  have hj' : (l.objects.map SmuxStream.id)[j]? = some y.id := by rw [List.getElem?_map, hj]; rfl
  have hlt : i < (l.objects.map SmuxStream.id).length := by
    rw [List.length_map]
    exact (List.getElem?_eq_some_iff.mp hi).1
  exact (List.getElem?_inj hlt h.distinct).mp (by rw [hi', hj', hid])

/-- The object at a position after a function ran on another or on it. -/
theorem settled_objects (hr : l.objects[index]? = some r) {j : ℕ} {x : SmuxStream} :
    (l.settled index o).objects[j]? = some x ↔
      (j = index ∧ x = o.stream) ∨ (j ≠ index ∧ l.objects[j]? = some x) :=
  Registry.getElem?_set_eq_some hr

/-- Every object has a successor with its id. -/
theorem settled_mem (hr : l.objects[index]? = some r) (hid : o.stream.id = r.id) {x : SmuxStream}
    (hx : x ∈ l.objects) : ∃ y ∈ (l.settled index o).objects, y.id = x.id := by
  obtain ⟨j, hj⟩ := List.mem_iff_getElem?.mp hx
  by_cases hji : j = index
  · subst hji
    rw [hr] at hj
    obtain rfl := Option.some.inj hj
    exact ⟨o.stream, List.mem_iff_getElem?.mpr ⟨j, (settled_objects hr).mpr (Or.inl ⟨rfl, rfl⟩)⟩,
      hid⟩
  · exact ⟨x, List.mem_iff_getElem?.mpr ⟨j, (settled_objects hr).mpr (Or.inr ⟨hji, hj⟩)⟩, rfl⟩

/-- The table afterwards. -/
theorem settled_lookup (id : UInt32) : (l.settled index o).streams.lookup id =
    if SessionCall.streamClosed id ∉ o.calls then l.streams.lookup id else none := by
  have h := Registry.lookup_filter (fun id => decide (SessionCall.streamClosed id ∉ o.calls)) id
    l.streams
  simp only [decide_eq_true_eq] at h
  exact h

theorem Books.settle (h : Books setting l) (hr : l.objects[index]? = some r)
    (halive : r.sessionAlive = true) (ho : r.Manner setting.config o) :
    Books setting (l.settled index o) := by
  have hframes := @transmitted_ofStream setting.config l.closed o.calls r.id ho.calls
  have hsyn : synIds (l.settled index o).frames = synIds l.frames := by
    simp only [settled]
    rw [synIds_append, synIds_eq_nil fun frame hmem => (hframes frame hmem).1, List.append_nil]
  refine ⟨?_, ?_, ?_, h.next, hsyn ▸ h.opened, ?_, ?_, ?_⟩
  · intro id i hlookup
    rw [settled_lookup] at hlookup
    split_ifs at hlookup with hkept
    obtain ⟨x, hx, hxid, hxopen⟩ := h.table id i hlookup
    by_cases hi : i = index
    · subst hi
      rw [hr] at hx
      obtain rfl := Option.some.inj hx
      refine ⟨o.stream, (settled_objects hr).mpr (Or.inl ⟨rfl, rfl⟩), ho.id_eq.trans hxid, ?_⟩
      -- had it closed, it would have left the table
      by_contra hclosed
      exact hkept (hxid ▸ ho.closing halive hxopen (by simpa using hclosed))
    · exact ⟨x, (settled_objects hr).mpr (Or.inr ⟨hi, hx⟩), hxid, hxopen⟩
  · have hids : (l.settled index o).objects.map SmuxStream.id = l.objects.map SmuxStream.id := by
      obtain ⟨hlt, hget⟩ := List.getElem?_eq_some_iff.mp hr
      have hlt' : index < (l.objects.map SmuxStream.id).length := by rwa [List.length_map]
      have hself := List.set_getElem_self hlt'
      rw [List.getElem_map, hget] at hself
      rw [settled, List.map_set, ho.id_eq, hself]
    rw [hids]
    exact h.distinct
  · intro x hx
    rw [hsyn]
    obtain ⟨j, hj⟩ := List.mem_iff_getElem?.mp hx
    rcases (settled_objects hr).mp hj with ⟨-, rfl⟩ | ⟨-, hj⟩
    · rw [ho.id_eq]
      exact h.origin r (List.mem_of_getElem? hr)
    · exact h.origin x (List.mem_of_getElem? hj)
  · exact h.orderly.append fun frame hmem => (hframes frame hmem).1
  · intro id hne
    simp only [settled, payloads_append] at hne
    by_cases hid : r.id = id
    · subst hid
      exact settled_mem hr ho.id_eq (List.mem_of_getElem? hr)
    · rw [payloads_transmitted_of_ne ho.calls hid, List.append_nil] at hne
      obtain ⟨x, hx, rfl⟩ := h.answered id hne
      exact settled_mem hr ho.id_eq hx
  · intro frame hmem
    rcases List.mem_append.mp hmem with hmem | hmem
    · exact h.sendable frame hmem
    · exact (hframes frame hmem).2

/-- **Running a function of one stream keeps the books**, if it keeps that stream in accord
with what it sends; the other streams have to be in accord before. -/
theorem Books.settle_accord (h : Books setting l) (hr : l.objects[index]? = some r)
    (halive : r.sessionAlive = true) (ho : r.Manner setting.config o)
    (hothers : ∀ j x, j ≠ index → l.objects[j]? = some x → l.Accord setting x)
    (hthis : o.stream.StreamInv l.qppPad (setting.seed l.qppPad) l.closed
      (l.streams.lookup r.id).isSome
      (payloads r.id l.frames ++ payloads r.id (transmitted l.closed o.calls))
      (payloads r.id l.dispatched)) :
    LedgerInv setting (l.settled index o) := by
  have hregistered : ∀ id, ((l.settled index o).streams.lookup id).isSome →
      (l.streams.lookup id).isSome := by
    intro id hsome
    rw [settled_lookup] at hsome
    split at hsome
    · exact hsome
    · exact absurd hsome (by simp)
  refine ⟨h.settle hr halive ho, fun x hx => ?_⟩
  obtain ⟨j, hj⟩ := List.mem_iff_getElem?.mp hx
  rcases (settled_objects hr).mp hj with ⟨-, rfl⟩ | ⟨hne, hj⟩
  · rw [Accord, ho.id_eq]
    simp only [settled, payloads_append] at hregistered ⊢
    exact hthis.weaken (fun hclosed => hclosed) (fun hreg => ⟨hregistered r.id hreg, rfl⟩)
      (List.prefix_refl _)
  · have hid : r.id ≠ x.id := fun hid => hne (h.unique hj hr hid.symm)
    have hx := hothers j x hne hj
    rw [Accord] at hx ⊢
    simp only [settled, payloads_append, payloads_transmitted_of_ne ho.calls hid,
      List.append_nil] at hregistered ⊢
    exact hx.weaken (fun hclosed => hclosed) (fun hreg => ⟨hregistered x.id hreg, rfl⟩)
      (List.prefix_refl _)

/-- Any reaction of a stream other than to a delivery of data. -/
theorem LedgerInv.react (h : LedgerInv setting l) (hr : l.objects[index]? = some r)
    {e : StreamEvent} (he : e ≠ .sessionExpired) (hdata : ∀ payload, e ≠ .data payload)
    (hreact : r.react setting.config e = some o) : LedgerInv setting (l.settled index o) := by
  have hr' := h.accord r (List.mem_of_getElem? hr)
  exact h.settle_accord hr hr'.alive (SmuxStream.react_manner he hreact)
    (fun j x _ hj => h.accord x (List.mem_of_getElem? hj)) (hr'.react he hdata hreact)

/-- Starting a stream. -/
theorem LedgerInv.start (h : LedgerInv setting l) (hr : l.objects[index]? = some r)
    (kind : SmuxStream.Start) : LedgerInv setting (l.settled index (r.start kind).quiet) := by
  have hr' := h.accord r (List.mem_of_getElem? hr)
  have hmanner : r.Manner setting.config (r.start kind).quiet :=
    (SmuxStream.manner_reaction setting.config).start r kind
  refine h.settle_accord hr hr'.alive hmanner
    (fun j x _ hj => h.accord x (List.mem_of_getElem? hj)) ?_
  rw [SmuxStream.quiet_calls, payloads_transmitted_of_not_psh (by simp), List.append_nil]
  exact hr'.of_traffic hmanner (r.start_traffic kind).1

/-! ### Taking note of an incoming frame -/

/-- The ledger with one more frame that came in. -/
def noted (l : Ledger) (frame : Frame) : Ledger := { l with dispatched := l.dispatched ++ [frame] }

theorem Books.note (h : Books setting l) (frame : Frame) : Books setting (l.noted frame) := by
  refine ⟨h.table, h.distinct, fun r hr => ?_, h.next, h.opened, h.orderly, h.answered,
    h.sendable⟩
  rcases h.origin r hr with hid | hid
  · exact Or.inl hid
  · refine Or.inr ?_
    rw [noted, synIds_append]
    exact List.mem_append_left _ hid

/-- A frame leaves the other streams in accord, and every stream if it carries no data. -/
theorem Accord.note (h : l.Accord setting r) {frame : Frame}
    (hother : (l.streams.lookup r.id).isSome → frame.payloadFor r.id = []) :
    (l.noted frame).Accord setting r := by
  rw [Accord] at h ⊢
  simp only [noted, payloads_append]
  refine h.weaken (fun hclosed => hclosed) (fun hreg => ⟨hreg, ?_⟩) (List.prefix_append _ _)
  have hnone : payloads r.id [frame] = [] := by
    rw [payloads, List.flatMap_singleton, hother hreg]
  rw [hnone, List.append_nil]

theorem Frame.payloadFor_of_not_psh {frame : Frame} (h : frame.command ≠ .psh) (id : UInt32) :
    frame.payloadFor id = [] := if_neg fun hpsh => h hpsh.1

theorem LedgerInv.note (h : LedgerInv setting l) {frame : Frame} (hframe : frame.command ≠ .psh) :
    LedgerInv setting (l.noted frame) :=
  ⟨h.toBooks.note frame, fun r hr =>
    (h.accord r hr).note fun _ => Frame.payloadFor_of_not_psh hframe r.id⟩

/-- Data for a stream that is not in the table. -/
theorem LedgerInv.note_unknown (h : LedgerInv setting l) {frame : Frame}
    (hnone : l.streams.lookup frame.streamId = none) : LedgerInv setting (l.noted frame) := by
  refine ⟨h.toBooks.note frame, fun r hr => (h.accord r hr).note fun hreg => if_neg ?_⟩
  rintro ⟨-, hid⟩
  rw [hid] at hnone
  rw [hnone] at hreg
  exact absurd hreg (by simp)

/-- Data for a stream in the table. -/
theorem LedgerInv.deliver (h : LedgerInv setting l) {frame : Frame} (hframe : frame.command = .psh)
    (hlookup : l.streams.lookup frame.streamId = some index)
    (hr : l.objects[index]? = some r) :
    LedgerInv setting ((l.noted frame).settled index (r.onData frame.payload)) := by
  obtain ⟨x, hx, hid, hopen⟩ := h.table _ _ hlookup
  rw [hr] at hx
  obtain rfl := Option.some.inj hx
  have hr' := h.accord r (List.mem_of_getElem? hr)
  have hmanner : r.Manner setting.config (r.onData frame.payload) :=
    (SmuxStream.manner_reaction setting.config).onData r _
  refine (h.toBooks.note frame).settle_accord hr hr'.alive hmanner (fun j x hne hj => ?_) ?_
  · refine (h.accord x (List.mem_of_getElem? hj)).note fun _ => if_neg ?_
    rintro ⟨-, hid'⟩
    exact hne (h.unique hj hr (hid'.symm.trans hid.symm))
  · have hreg : (l.streams.lookup r.id).isSome = true := by rw [hid, hlookup]; rfl
    rw [Accord] at hr'
    simp only [hreg] at hr'
    have hdata := hr'.data hopen frame.payload
    rw [(SmuxStream.receive_traffic hopen frame.payload).2,
      payloads_transmitted_of_not_psh (by simp), List.append_nil]
    simp only [noted, payloads_append, hreg]
    rwa [show payloads r.id [frame] = frame.payload by
      rw [payloads, List.flatMap_singleton, Frame.payloadFor, if_pos ⟨hframe, hid.symm⟩]]

/-! ### Making a stream -/

/-- The ledger with a new stream. -/
def added (setting : Setting) (l : Ledger) (id : UInt32) : Ledger :=
  { l with
    objects := l.objects ++ [SmuxStream.make setting.prims setting.config l.qppPad id]
    streams :=
      if (l.streams.lookup id).isSome then l.streams else l.streams ++ [(id, l.objects.length)] }

theorem Books.lookup_eq_none (h : Books setting l) {id : UInt32}
    (hfresh : ∀ r ∈ l.objects, r.id ≠ id) : l.streams.lookup id = none := by
  cases hlookup : l.streams.lookup id with
  | none => rfl
  | some i =>
      obtain ⟨r, hr, hid, -⟩ := h.table id i hlookup
      exact absurd hid (hfresh r (List.mem_of_getElem? hr))

/-- A stream right after its construction. -/
theorem make_streamInv (setting : Setting) (pad : Option QppPad) (id : UInt32) (closed : Bool)
    (registered : Prop) :
    (SmuxStream.make setting.prims setting.config pad id).StreamInv pad (setting.seed pad) closed
      registered [] [] := by
  refine ⟨rfl, ?_, by simp [SmuxStream.make], by simp [SmuxStream.make, SmuxStream.traffic],
    ⟨[], rfl, ?_, List.nil_prefix, fun _ => ?_⟩,
    ⟨[], List.prefix_refl _, ?_, ?_, fun _ => rfl⟩, rfl⟩
  · cases pad <;> rfl
  · cases pad <;> rfl
  · rw [QppStream.cipher_nil]
  · rw [QppStream.decipher_nil]
    rfl
  · cases pad <;> rfl

/-- **Making a stream for an id that no stream had.** -/
theorem LedgerInv.add (h : LedgerInv setting l) {id : UInt32}
    (hfresh : ∀ r ∈ l.objects, r.id ≠ id)
    (horigin : id ∈ synIds l.frames ∨ id ∈ synIds l.dispatched)
    (hinn : payloads id l.dispatched = []) : LedgerInv setting (l.added setting id) := by
  have hlookup := h.lookup_eq_none hfresh
  have hstreams : (l.added setting id).streams = l.streams ++ [(id, l.objects.length)] := by
    rw [added, hlookup]
    rfl
  have hnew : (l.added setting id).objects =
      l.objects ++ [SmuxStream.make setting.prims setting.config l.qppPad id] := rfl
  have hout : payloads id l.frames = [] := by
    by_contra hne
    obtain ⟨r, hr, hid⟩ := h.answered id hne
    exact hfresh r hr hid
  refine ⟨⟨?_, ?_, ?_, h.next, h.opened, h.orderly, ?_, h.sendable⟩, ?_⟩
  · intro id' i hlookup'
    rw [hstreams, Registry.lookup_concat] at hlookup'
    rw [hnew]
    cases hold : l.streams.lookup id' with
    | some i' =>
        rw [hold] at hlookup'
        obtain rfl := Option.some.inj hlookup'
        obtain ⟨r, hr, hid, hopen⟩ := h.table id' i' hold
        refine ⟨r, ?_, hid, hopen⟩
        rw [List.getElem?_append_left (List.getElem?_eq_some_iff.mp hr).1]
        exact hr
    | none =>
        rw [hold, Option.none_or] at hlookup'
        split_ifs at hlookup' with hid
        obtain rfl := Option.some.inj hlookup'
        exact ⟨_, List.getElem?_concat_length, hid.symm, rfl⟩
  · rw [hnew, List.map_append]
    refine List.nodup_append.mpr ⟨h.distinct, by simp, fun a ha b hb hab => ?_⟩
    obtain ⟨r, hr, rfl⟩ := List.mem_map.mp ha
    obtain rfl : b = id := List.mem_singleton.mp hb
    exact hfresh r hr hab
  · intro r hr
    rcases List.mem_append.mp hr with hr | hr
    · exact h.origin r hr
    · rw [List.mem_singleton.mp hr]
      exact horigin
  · intro id' hne
    obtain ⟨r, hr, hid⟩ := h.answered id' hne
    exact ⟨r, List.mem_append_left _ hr, hid⟩
  · intro r hr
    rcases List.mem_append.mp hr with hr | hr
    · have hr' := h.accord r hr
      rw [Accord] at hr' ⊢
      rw [hstreams, Registry.lookup_concat, if_neg (hfresh r hr), Option.or_none]
      exact hr'
    · obtain rfl := List.mem_singleton.mp hr
      rw [Accord, show (SmuxStream.make setting.prims setting.config l.qppPad id).id = id from rfl]
      simp only [added, hout, hinn]
      exact make_streamInv setting l.qppPad id _ _

/-- The ledger after the SYN of a new stream. -/
def announced (l : Ledger) (id : UInt32) : Ledger :=
  { l with nextStreamId := id, frames := l.frames ++ [(⟨.syn, id, []⟩ : Frame)] }

/-- The next id of a side is one that no stream has, unless the peer made it up. -/
theorem Books.fresh (h : Books setting l) {id : UInt32}
    (hid : l.nextStreamId.toNat < id.toNat) (hforeign : id ∉ synIds l.dispatched) :
    ∀ r ∈ l.objects, r.id ≠ id := by
  rintro r hr rfl
  rcases h.origin r hr with hown | hpeer
  · exact absurd (h.opened _ hown) (not_le.mpr hid)
  · exact hforeign hpeer

/-- **Announcing the next stream.** -/
theorem LedgerInv.announce (h : LedgerInv setting l) {id : UInt32}
    (hid : id.toNat = l.nextStreamId.toNat + 2) (hforeign : id ∉ synIds l.dispatched) :
    LedgerInv setting (l.announced id) := by
  have hlt : l.nextStreamId.toNat < id.toNat := by omega
  have hparity : id.toNat % 2 = ownParity l.client := by
    have hnext := h.next
    omega
  have hnone : payloads id l.frames = [] := by
    by_contra hne
    obtain ⟨r, hr, hid'⟩ := h.answered id hne
    exact h.fresh hlt hforeign r hr hid'
  have hsame (id' : UInt32) : payloads id' (l.announced id).frames = payloads id' l.frames := by
    simp [announced, payloads, Frame.payloadFor]
  have hsyn : synIds (l.announced id).frames = synIds l.frames ++ [id] := by
    simp only [announced, synIds_append, synIds_singleton]
  refine ⟨⟨h.table, h.distinct, ?_, hparity, ?_, ?_, ?_, ?_⟩, fun r hr => ?_⟩
  · intro r hr
    rw [hsyn]
    exact (h.origin r hr).imp_left (List.mem_append_left _)
  · intro id' hmem
    rw [hsyn] at hmem
    rcases List.mem_append.mp hmem with hmem | hmem
    · exact (h.opened id' hmem).trans hlt.le
    · rw [List.mem_singleton.mp hmem]
      exact le_rfl
  · exact h.orderly.open hparity (fun hmem => absurd (h.opened id hmem) (not_le.mpr hlt)) hnone
  · intro id' hne
    rw [hsame] at hne
    exact h.answered id' hne
  · intro frame hmem
    rcases List.mem_append.mp hmem with hmem | hmem
    · exact h.sendable frame hmem
    · rw [List.mem_singleton.mp hmem]
      exact ⟨by simp, by simp⟩
  · have hr' := h.accord r hr
    rw [Accord] at hr' ⊢
    rw [hsame]
    exact hr'

/-- A frame of the session itself, without a stream. -/
theorem LedgerInv.addFrame (h : LedgerInv setting l) {frame : Frame}
    (hsyn : frame.command ≠ .syn) (hpsh : frame.command ≠ .psh)
    (hsend : frame.Sendable setting.config) :
    LedgerInv setting { l with frames := l.frames ++ [frame] } := by
  have hids : synIds (l.frames ++ [frame]) = synIds l.frames := by
    have hnone : synIds [frame] = [] := synIds_eq_nil (by simpa using hsyn)
    rw [synIds_append, hnone, List.append_nil]
  have hsame (id : UInt32) : payloads id (l.frames ++ [frame]) = payloads id l.frames := by
    have hnone : payloads id [frame] = [] := payloads_eq_nil (by simp [hpsh])
    rw [payloads_append, hnone, List.append_nil]
  refine ⟨⟨h.table, h.distinct, hids ▸ h.origin, h.next, hids ▸ h.opened,
    h.orderly.append (by simpa using hsyn), ?_, ?_⟩, fun r hr => ?_⟩
  · intro id hne
    rw [hsame] at hne
    exact h.answered id hne
  · intro sent hmem
    rcases List.mem_append.mp hmem with hmem | hmem
    · exact h.sendable sent hmem
    · rw [List.mem_singleton.mp hmem]
      exact hsend
  · have hr' := h.accord r hr
    rw [Accord] at hr' ⊢
    rw [hsame]
    exact hr'

/-! ### Closing the session -/

/-- The ledger once the session is closed, before the streams are. -/
def shut (l : Ledger) : Ledger := { l with closed := true, streams := [] }

theorem LedgerInv.shut (h : LedgerInv setting l) : LedgerInv setting l.shut := by
  refine ⟨⟨fun id i hlookup => absurd hlookup (by simp [Ledger.shut]), h.distinct, h.origin,
    h.next, h.opened, h.orderly, h.answered, h.sendable⟩, fun r hr => ?_⟩
  exact (h.accord r hr).weaken (fun hopen => absurd hopen (by simp [Ledger.shut]))
    (fun hreg => absurd hreg (by simp [Ledger.shut])) (List.prefix_refl _)

end Ledger

end Shimakaze
