import Shimakaze.Smux.Wire

/-!
# Arrivals

The transport hands a session its byte stream in arrivals. Each arrival is decompressed, if
the configuration asks for compression, and the chunks that come out are consumed one after
the other. The size of the receive buffer is limited, so an arrival has to fit.

## Main results

* `foldl_consume_absorbed`: chunks that fit are consumed as one.
* `receiveAll_partition`: **two ways to cut a byte string into arrivals** lead to the same
  dispatches, the same verdict and, if the session stays open, the same buffer and streams,
  for any bytes, malformed ones included.
-/

namespace Shimakaze

namespace SmuxSession

variable {setting : Setting} {s f g : SmuxSession}

/-! ### Chunks -/

/-- Each chunk in turn leaves the receive buffer within its capacity. -/
def ChunksFit (setting : Setting) : SmuxSession → List Bytes → Prop
  | _, [] => True
  | s, chunk :: chunks =>
      s.receiveBuffer.length + chunk.length ≤ setting.config.smuxCapacity ∧
        ChunksFit setting (s.consumeStreamBytes setting chunk) chunks

instance decidableChunksFit (setting : Setting) :
    ∀ (s : SmuxSession) (chunks : List Bytes), Decidable (ChunksFit setting s chunks)
  | _, [] => inferInstanceAs (Decidable True)
  | s, chunk :: chunks =>
      haveI := decidableChunksFit setting (s.consumeStreamBytes setting chunk) chunks
      inferInstanceAs (Decidable (_ ∧ _))

/-- A chunk that fits is drained together with the buffer. -/
theorem consumeStreamBytes_absorbed (hopen : s.closed = false) {chunk : Bytes}
    (hfit : s.receiveBuffer.length + chunk.length ≤ setting.config.smuxCapacity) :
    Absorbed setting s (s.consumeStreamBytes setting chunk)
      ((frameFraming setting.config).drain () (s.receiveBuffer ++ chunk)) := by
  rw [consumeStreamBytes, if_neg (not_lt.mpr hfit)]
  exact consumeLoop_absorbed _ { s with receiveBuffer := s.receiveBuffer ++ chunk } hopen le_rfl

/-- A closed session takes a chunk that fits and does nothing with it. -/
theorem consumeStreamBytes_of_closed (hclosed : s.closed = true) {chunk : Bytes}
    (hfit : s.receiveBuffer.length + chunk.length ≤ setting.config.smuxCapacity) :
    s.consumeStreamBytes setting chunk =
      { s with receiveBuffer := s.receiveBuffer ++ chunk } := by
  rw [consumeStreamBytes, if_neg (not_lt.mpr hfit)]
  simp only
  cases hlen : (s.receiveBuffer ++ chunk).length with
  | zero => rfl
  | succ n => rw [consumeLoop, if_pos (by exact hclosed)]

/-- Absorbing a parse and, from its tail, another one. -/
theorem Absorbed.trans {r r' : Parsed Unit UInt8 Frame String} {tail : Bytes}
    (h : Absorbed setting s f r) (hr : r.standing = .waiting () tail)
    (h' : Absorbed setting f g r') : Absorbed setting s g (r'.after r.items) := by
  rw [Absorbed] at h
  rw [hr] at h
  obtain ⟨hcore, -⟩ := h
  unfold Absorbed at h' ⊢
  simp only [Parsed.after_standing, Parsed.after_items, List.foldl_append, ← hcore]
  exact h'

/-- An idle session waits for more bytes. -/
def Idle (setting : Setting) (s : SmuxSession) : Prop :=
  nextFrame setting.config s.receiveBuffer = .more

/-- A session that absorbed a parse and waits is idle. -/
theorem Absorbed.idle {state : Unit} {buffer tail : Bytes}
    (h : Absorbed setting s f ((frameFraming setting.config).drain state buffer))
    (hr : ((frameFraming setting.config).drain state buffer).standing = .waiting () tail) :
    f.Idle setting ∧ f.receiveBuffer = tail := by
  have hmore : (frameFraming setting.config).step () tail = .more :=
    Framing.step_eq_more_of_drain hr
  rw [Absorbed] at h
  rw [hr] at h
  refine ⟨?_, h.2⟩
  rw [Idle, h.2]
  exact hmore

/-- Absorbing a stream in two parts: after the first one the session is idle and absorbs the
second from its tail, or it is closed and nothing more happens. -/
theorem Absorbed.feed {buffer later : Bytes} (hopen : s.closed = false)
    (h : Absorbed setting s f ((frameFraming setting.config).drain () buffer))
    (hclosed : f.closed = true → g.core = f.core)
    (hidle : f.closed = false → f.Idle setting →
      Absorbed setting f g
        ((frameFraming setting.config).drain () (f.receiveBuffer ++ later))) :
    Absorbed setting s g ((frameFraming setting.config).drain () (buffer ++ later)) := by
  rw [Framing.drain_append]
  cases hr : ((frameFraming setting.config).drain () buffer).standing with
  | failed message =>
      have hfclosed : f.closed = true := by
        rw [← Bool.not_eq_false, h.closed hopen]
        rintro ⟨tail, htail⟩
        rw [hr] at htail
        cases htail
      rw [Framing.feed_of_failed _ hr]
      unfold Absorbed at h ⊢
      rw [hr] at h ⊢
      exact (hclosed hfclosed).trans h
  | waiting state tail =>
      obtain ⟨hfidle, htail⟩ := h.idle hr
      have hfopen := (h.closed hopen).mpr ⟨tail, hr⟩
      rw [Framing.feed_of_waiting _ hr, ← htail]
      exact h.trans hr (hidle hfopen hfidle)

/-! ### Arrivals -/

/-- An arrival before its chunks are consumed: the session, and the chunks or the error. -/
def unpack (setting : Setting) (s : SmuxSession) (now : ℕ) (bytes : Bytes) :
    SmuxSession × Except String (List Bytes) :=
  if setting.config.nocomp then ({ s with lastActivity := now }, .ok [bytes])
  else
    ({ s with
        lastActivity := now
        decompressor := (s.decompressor.decode setting.snappy bytes).1 },
      (s.decompressor.decode setting.snappy bytes).2)

/-- What `on_transport_bytes` does on an open session. -/
theorem onTransportBytes_eq (hopen : s.closed = false) (now : ℕ) {bytes : Bytes}
    (hbytes : bytes ≠ []) :
    s.onTransportBytes setting now bytes =
      match (s.unpack setting now bytes).2 with
      | .ok chunks => chunks.foldl (consumeStreamBytes setting) (s.unpack setting now bytes).1
      | .error message => (s.unpack setting now bytes).1.protocolError setting message := by
  rw [onTransportBytes, if_neg (by simp [hopen, hbytes]), unpack]
  cases setting.config.nocomp with
  | true => rfl
  | false => rfl

/-- A closed session, or an empty arrival. -/
theorem onTransportBytes_of_ignored {now : ℕ} {bytes : Bytes} (h : s.closed ∨ bytes = []) :
    s.onTransportBytes setting now bytes = s := by
  rw [onTransportBytes, if_pos h]

/-- The chunks of an arrival fit, unless it is ignored. -/
def ArrivalFits (setting : Setting) (s : SmuxSession) (now : ℕ) (bytes : Bytes) : Prop :=
  s.closed ∨ bytes = [] ∨ ∀ chunks, (s.unpack setting now bytes).2 = .ok chunks →
    ChunksFit setting (s.unpack setting now bytes).1 chunks

theorem arrivalFits_iff {now : ℕ} {bytes : Bytes} : ArrivalFits setting s now bytes ↔
    s.closed ∨ bytes = [] ∨
      match (s.unpack setting now bytes).2 with
      | .ok chunks => ChunksFit setting (s.unpack setting now bytes).1 chunks
      | .error _ => True := by
  rw [ArrivalFits]
  cases (s.unpack setting now bytes).2 <;> simp

instance (setting : Setting) (s : SmuxSession) (now : ℕ) (bytes : Bytes) :
    Decidable (ArrivalFits setting s now bytes) :=
  haveI : Decidable (match (s.unpack setting now bytes).2 with
      | .ok chunks => ChunksFit setting (s.unpack setting now bytes).1 chunks
      | .error _ => True) := by
    split <;> infer_instance
  decidable_of_iff _ arrivalFits_iff.symm

/-- Take in arrivals, each with its time. -/
def receiveAll (setting : Setting) (s : SmuxSession) (arrivals : List (ℕ × Bytes)) :
    SmuxSession :=
  arrivals.foldl (fun s arrival => s.onTransportBytes setting arrival.1 arrival.2) s

/-- No arrival makes the receive buffer exceed its capacity. -/
def ArrivalsFit (setting : Setting) : SmuxSession → List (ℕ × Bytes) → Prop
  | _, [] => True
  | s, arrival :: arrivals =>
      s.ArrivalFits setting arrival.1 arrival.2 ∧
        ArrivalsFit setting (s.onTransportBytes setting arrival.1 arrival.2) arrivals

instance decidableArrivalsFit (setting : Setting) :
    ∀ (s : SmuxSession) (arrivals : List (ℕ × Bytes)), Decidable (ArrivalsFit setting s arrivals)
  | _, [] => inferInstanceAs (Decidable True)
  | s, arrival :: arrivals =>
      haveI := decidableArrivalsFit setting
        (s.onTransportBytes setting arrival.1 arrival.2) arrivals
      inferInstanceAs (Decidable (_ ∧ _))

/-- The byte string the arrivals carry. -/
def carried (arrivals : List (ℕ × Bytes)) : Bytes := arrivals.flatMap Prod.snd

@[simp] theorem carried_cons (arrival : ℕ × Bytes) (arrivals : List (ℕ × Bytes)) :
    carried (arrival :: arrivals) = arrival.2 ++ carried arrivals := rfl

theorem receiveAll_cons (s : SmuxSession) (arrival : ℕ × Bytes) (arrivals : List (ℕ × Bytes)) :
    s.receiveAll setting (arrival :: arrivals) =
      (s.onTransportBytes setting arrival.1 arrival.2).receiveAll setting arrivals := rfl

theorem receiveAll_concat (s : SmuxSession) (arrivals : List (ℕ × Bytes)) (arrival : ℕ × Bytes) :
    s.receiveAll setting (arrivals ++ [arrival]) =
      (s.receiveAll setting arrivals).onTransportBytes setting arrival.1 arrival.2 :=
  List.foldl_append

theorem receiveAll_of_closed (hclosed : s.closed = true) (arrivals : List (ℕ × Bytes)) :
    s.receiveAll setting arrivals = s := by
  induction arrivals with
  | nil => rfl
  | cons arrival arrivals ih =>
      rw [receiveAll_cons, onTransportBytes_of_ignored (Or.inl hclosed), ih]

/-! ### Without compression -/

/-- An arrival is drained together with the buffer. -/
theorem onTransportBytes_absorbed (hnocomp : setting.config.nocomp = true)
    (hopen : s.closed = false) {now : ℕ} {bytes : Bytes} (hbytes : bytes ≠ [])
    (hfit : s.ArrivalFits setting now bytes) :
    Absorbed setting s (s.onTransportBytes setting now bytes)
      ((frameFraming setting.config).drain () (s.receiveBuffer ++ bytes)) := by
  have hunpack : s.unpack setting now bytes = ({ s with lastActivity := now }, .ok [bytes]) := by
    rw [unpack, if_pos hnocomp]
  have hchunks : ChunksFit setting { s with lastActivity := now } [bytes] := by
    rcases hfit with hclosed | hnil | hfit
    · exact absurd hclosed (by simp [hopen])
    · exact absurd hnil hbytes
    · rw [hunpack] at hfit
      exact hfit [bytes] rfl
  rw [onTransportBytes_eq hopen now hbytes, hunpack]
  exact consumeStreamBytes_absorbed (s := { s with lastActivity := now }) hopen hchunks.1

/-- Arrivals at an idle session are drained as one. -/
theorem receiveAll_absorbed_of_idle (hnocomp : setting.config.nocomp = true)
    (hopen : s.closed = false) (hidle : s.Idle setting) {arrivals : List (ℕ × Bytes)}
    (hfit : ArrivalsFit setting s arrivals) :
    Absorbed setting s (s.receiveAll setting arrivals)
      ((frameFraming setting.config).drain () (s.receiveBuffer ++ carried arrivals)) := by
  induction arrivals generalizing s with
  | nil =>
      have hmore : (frameFraming setting.config).step () s.receiveBuffer = .more := hidle
      rw [carried, List.flatMap_nil, List.append_nil, Framing.drain_of_more hmore]
      exact ⟨rfl, rfl⟩
  | cons arrival arrivals ih =>
      obtain ⟨now, bytes⟩ := arrival
      obtain ⟨hfirst, hrest⟩ := hfit
      rw [receiveAll_cons, carried_cons]
      by_cases hbytes : bytes = []
      · rw [onTransportBytes_of_ignored (Or.inr hbytes)] at hrest ⊢
        rw [hbytes, List.nil_append]
        exact ih hopen hidle hrest
      · rw [← List.append_assoc]
        exact (onTransportBytes_absorbed hnocomp hopen hbytes hfirst).feed hopen
          (fun hclosed => by rw [receiveAll_of_closed hclosed])
          (fun hopen' hidle' => ih hopen' hidle' hrest)

/-- Arrivals at any open session are drained as one, if there are bytes in them. -/
theorem receiveAll_absorbed (hnocomp : setting.config.nocomp = true)
    (hopen : s.closed = false) {arrivals : List (ℕ × Bytes)}
    (hfit : ArrivalsFit setting s arrivals) :
    (carried arrivals = [] ∧ s.receiveAll setting arrivals = s) ∨
      Absorbed setting s (s.receiveAll setting arrivals)
        ((frameFraming setting.config).drain () (s.receiveBuffer ++ carried arrivals)) := by
  induction arrivals with
  | nil => exact Or.inl ⟨rfl, rfl⟩
  | cons arrival arrivals ih =>
      obtain ⟨now, bytes⟩ := arrival
      obtain ⟨hfirst, hrest⟩ := hfit
      rw [receiveAll_cons, carried_cons]
      by_cases hbytes : bytes = []
      · rw [onTransportBytes_of_ignored (Or.inr hbytes)] at hrest ⊢
        rw [hbytes, List.nil_append]
        exact ih hrest
      · rw [← List.append_assoc]
        exact Or.inr ((onTransportBytes_absorbed hnocomp hopen hbytes hfirst).feed hopen
          (fun hclosed => by rw [receiveAll_of_closed hclosed])
          (fun hopen' hidle' => receiveAll_absorbed_of_idle hnocomp hopen' hidle' hrest))

/-- Two sessions that absorbed the same parse differ at most in the leftovers of a closed
session's buffer and the time of last activity. -/
theorem Absorbed.unique {r : Parsed Unit UInt8 Frame String} (hopen : s.closed = false)
    (hf : Absorbed setting s f r) (hg : Absorbed setting s g r) :
    f.core = g.core ∧ (f.closed = false → f.receiveBuffer = g.receiveBuffer) := by
  have hclosed := hf.closed hopen
  unfold Absorbed at hf hg
  cases hr : r.standing with
  | failed message =>
      rw [hr] at hf hg
      refine ⟨hf.trans hg.symm, fun h => ?_⟩
      obtain ⟨tail, htail⟩ := hclosed.mp h
      rw [hr] at htail
      cases htail
  | waiting state tail =>
      rw [hr] at hf hg
      exact ⟨hf.1.trans hg.1.symm, fun _ => hf.2.trans hg.2.symm⟩

/-- **Arrival boundaries do not matter**, even for malformed bytes. From any open session
and for any byte string, two ways to cut it into arrivals that fit dispatch the same frames,
reach the same verdict and, when the session stays open, leave the same receive buffer, the
same table and the same streams. -/
theorem receiveAll_partition (hnocomp : setting.config.nocomp = true)
    (hopen : s.closed = false) {as bs : List (ℕ × Bytes)} (hsame : carried as = carried bs)
    (has : ArrivalsFit setting s as) (hbs : ArrivalsFit setting s bs) :
    let f := s.receiveAll setting as
    let g := s.receiveAll setting bs
    f.dispatched = g.dispatched ∧ f.closed = g.closed ∧
      f.protocolErrorMessage = g.protocolErrorMessage ∧
      (f.closed = false → f.receiveBuffer = g.receiveBuffer ∧ f.streams = g.streams ∧
        f.objects = g.objects) := by
  have hstate : (s.receiveAll setting as).core = (s.receiveAll setting bs).core ∧
      ((s.receiveAll setting as).closed = false →
        (s.receiveAll setting as).receiveBuffer = (s.receiveAll setting bs).receiveBuffer) := by
    by_cases hnil : carried as = []
    · have hquiet : ∀ cs, carried cs = [] → s.receiveAll setting cs = s := by
        intro cs hcs
        induction cs with
        | nil => rfl
        | cons arrival cs ih =>
            rw [carried_cons, List.append_eq_nil_iff] at hcs
            rw [receiveAll_cons, onTransportBytes_of_ignored (Or.inr hcs.1)]
            exact ih hcs.2
      rw [hquiet as hnil, hquiet bs (hsame ▸ hnil)]
      exact ⟨rfl, fun _ => rfl⟩
    · rcases receiveAll_absorbed hnocomp hopen has with ⟨hcarried, -⟩ | hf
      · exact absurd hcarried hnil
      · rcases receiveAll_absorbed hnocomp hopen hbs with ⟨hcarried, -⟩ | hg
        · exact absurd (hsame.trans hcarried) hnil
        · rw [← hsame] at hg
          exact hf.unique hopen hg
  obtain ⟨hcore, hbuffer⟩ := hstate
  exact ⟨congrArg (fun t => t.dispatched) hcore, congrArg (fun t => t.closed) hcore,
    congrArg (fun t => t.protocolErrorMessage) hcore, fun h => ⟨hbuffer h,
      congrArg (fun t => t.streams) hcore, congrArg (fun t => t.objects) hcore⟩⟩

/-- A data frame and a frame with an unknown command, cut inside the payload and inside the
second header: the verdict is the one on the whole. -/
theorem unknown_command_partition :
    let setting : Setting := ⟨{ nocomp := true }, .uncalled, ⟨id, some⟩⟩
    let s : SmuxSession := { client := false, nextStreamId := 0 }
    let f := s.receiveAll setting
      [(0, [2, 2, 2, 0, 3, 0, 0, 0, 7]), (1, [8, 2, 9]), (2, [0, 0, 0, 0, 0, 0])]
    let g := s.receiveAll setting [(0, [2, 2, 2, 0, 3, 0, 0, 0, 7, 8, 2, 9, 0, 0, 0, 0, 0, 0])]
    f.dispatched = g.dispatched ∧ f.closed = g.closed ∧ g.closed = true := by
  have h := @receiveAll_partition ⟨{ nocomp := true }, .uncalled, ⟨id, some⟩⟩
    { client := false, nextStreamId := 0 } rfl rfl
    [(0, [2, 2, 2, 0, 3, 0, 0, 0, 7]), (1, [8, 2, 9]), (2, [0, 0, 0, 0, 0, 0])]
    [(0, [2, 2, 2, 0, 3, 0, 0, 0, 7, 8, 2, 9, 0, 0, 0, 0, 0, 0])] rfl
    (by decide) (by decide)
  exact ⟨h.1, h.2.1, by rfl⟩

end SmuxSession

end Shimakaze
