import Shimakaze.Smux.Stream

/-!
# Flushing the Outbound Queue

What one call of `try_flush_outbound` does, once and for all: it cuts an initial segment of
the queued bytes into pieces, sends each piece as a PSH frame, and stops when the queue is
empty or the credit is used up. `Flushed` is that description; the later modules cite it
and never look into the loop.

## Main results

* `flushLoop_flushed`, `tryFlushOutbound_flushed`: the loop meets the description, and its
  fuel suffices for every queue.
* `Flushed.pieces_eq_nil_iff`: when a flush sends nothing.
* `tryFlushOutbound_sends_sendable`: **a flush sends exactly what the credit allows.**
* `flatten_cipherPieces`: encrypting piece by piece is encrypting the whole.
-/

namespace Shimakaze

/-- The bytes waiting in a queue of pending buffers. -/
def pendingBytes (buffers : List PendingBuffer) : Bytes :=
  buffers.flatMap fun b => b.data.drop b.offset

@[simp] theorem pendingBytes_nil : pendingBytes [] = [] := rfl

@[simp] theorem pendingBytes_cons (b : PendingBuffer) (bs : List PendingBuffer) :
    pendingBytes (b :: bs) = b.data.drop b.offset ++ pendingBytes bs := rfl

@[simp] theorem pendingBytes_append (as bs : List PendingBuffer) :
    pendingBytes (as ++ bs) = pendingBytes as ++ pendingBytes bs := List.flatMap_append

/-- The bytes of the pieces of a byte stream, each encrypted in turn. -/
def cipherPieces (pad : Option QppPad) : Qpp.Rand → List Bytes → List Bytes
  | _, [] => []
  | rand, piece :: pieces =>
      (QppStream.cipher pad rand piece).1 ::
        cipherPieces pad (QppStream.cipher pad rand piece).2 pieces

/-- Encrypting piece by piece is encrypting the whole. -/
theorem flatten_cipherPieces (pad : Option QppPad) (rand : Qpp.Rand) (pieces : List Bytes) :
    (cipherPieces pad rand pieces).flatten = (QppStream.cipher pad rand pieces.flatten).1 := by
  induction pieces generalizing rand with
  | nil => simp [cipherPieces]
  | cons piece pieces ih =>
      rw [cipherPieces, List.flatten_cons, ih, List.flatten_cons, QppStream.cipher_append]

/-- Encryption keeps the lengths of the pieces. -/
theorem map_length_cipherPieces (pad : Option QppPad) (rand : Qpp.Rand)
    (pieces : List Bytes) :
    (cipherPieces pad rand pieces).map List.length = pieces.map List.length := by
  induction pieces generalizing rand with
  | nil => rfl
  | cons piece pieces ih =>
      rw [cipherPieces, List.map_cons, List.map_cons, ih, QppStream.length_cipher]

namespace SmuxStream

/-! ### The credit -/

/-- A 32-bit value is negative as a signed number when its top bit is set. -/
theorem toInt32_lt_zero_iff (x : UInt32) : x.toInt32 < 0 ↔ 2 ^ 31 ≤ x.toNat := by
  have hx := x.toNat_lt
  have h : x.toInt32.toInt = x.toBitVec.toInt := rfl
  rw [Int32.lt_iff_toInt_lt, h, BitVec.toInt_eq_toNat_cond]
  simp only [UInt32.toNat_toBitVec, Int32.toInt_zero]
  split <;> omega

/-- The credit as a function of the counters. -/
theorem availablePeerWindow_eq (s : SmuxStream) :
    s.availablePeerWindow =
      if 2 ^ 31 ≤ (s.numWritten - s.peerConsumed).toNat then 0
      else (s.peerWindow.toNat : ℤ) - (s.numWritten - s.peerConsumed).toNat := by
  simp only [availablePeerWindow, toInt32_lt_zero_iff]

/-- Sending `c` bytes within the credit takes at least `c` off it. -/
theorem availablePeerWindow_sent {s t : SmuxStream} {c : ℕ}
    (hwritten : t.numWritten = s.numWritten + UInt32.ofNat c)
    (hconsumed : t.peerConsumed = s.peerConsumed) (hwindow : t.peerWindow = s.peerWindow)
    (hc : (c : ℤ) ≤ s.availablePeerWindow) :
    t.availablePeerWindow ≤ s.availablePeerWindow - c := by
  have hlt := s.peerWindow.toNat_lt
  have hlt' := (s.numWritten - s.peerConsumed).toNat_lt
  have hdiff : t.numWritten - t.peerConsumed =
      (s.numWritten - s.peerConsumed) + UInt32.ofNat c := by
    rw [hwritten, hconsumed]; grind
  rw [availablePeerWindow_eq] at hc ⊢
  rw [availablePeerWindow_eq, hdiff, hwindow, UInt32.toNat_add, UInt32.toNat_ofNat']
  split_ifs at hc ⊢ <;> omega

/-! ### The description of a flush -/

/-- The bytes waiting to be sent. -/
def outboundBytes (s : SmuxStream) : Bytes := pendingBytes s.pendingOutbound

/-- `s` after the bytes `sent` have left and the buffers `pending` remain. -/
def sentBytes (s : SmuxStream) (sent : Bytes) (pending : List PendingBuffer) : SmuxStream :=
  { s with
    qpp := { s.qpp with writeRand := (QppStream.cipher s.qpp.pad s.qpp.writeRand sent).2 }
    pendingOutbound := pending
    numWritten := s.numWritten + UInt32.ofNat sent.length }

/-- The outcome `o` of flushing `s`: `pieces` are the plain bytes of the frames sent. -/
structure Flushed (config : BaseConfig) (s : SmuxStream) (o : Outcome)
    (pieces : List Bytes) : Prop where
  stream : o.stream = s.sentBytes pieces.flatten o.stream.pendingOutbound
  calls : o.calls = (cipherPieces s.qpp.pad s.qpp.writeRand pieces).map
    (SessionCall.sendFrame .psh s.id)
  bytes : s.outboundBytes = pieces.flatten ++ o.stream.outboundBytes
  sizes : ∀ piece ∈ pieces, 0 < piece.length ∧ piece.length ≤ config.maxFrame
  /-- A piece never spans two buffers, and no buffer grows. -/
  bound : ∀ n, (∀ b ∈ s.pendingOutbound, b.data.length ≤ n) →
    (∀ piece ∈ pieces, piece.length ≤ n) ∧ ∀ b ∈ o.stream.pendingOutbound, b.data.length ≤ n
  credit : config.flowControlled → (pieces.flatten.length : ℤ) ≤ max 0 s.availablePeerWindow
  stop : o.stream.pendingOutbound = [] ∨
    (config.flowControlled ∧ o.stream.availablePeerWindow ≤ 0 ∧ o.stream.outboundBytes ≠ [])

/-- Sending nothing and keeping the queue. -/
theorem sentBytes_nil (s : SmuxStream) : s.sentBytes [] s.pendingOutbound = s := by
  simp [sentBytes]

/-- Sending in two parts. -/
theorem sentBytes_sentBytes (s : SmuxStream) (a b : Bytes) (p q : List PendingBuffer) :
    (s.sentBytes a p).sentBytes b q = s.sentBytes (a ++ b) q := by
  simp only [sentBytes, QppStream.cipher_append, List.length_append, UInt32.ofNat_add,
    UInt32.add_assoc]

/-- A flush that stops at once. -/
theorem Flushed.refl {config : BaseConfig} {s : SmuxStream}
    (hstop : s.pendingOutbound = [] ∨
      (config.flowControlled ∧ s.availablePeerWindow ≤ 0 ∧ s.outboundBytes ≠ [])) :
    Flushed config s s.quiet [] where
  stream := s.sentBytes_nil.symm
  calls := rfl
  bytes := rfl
  sizes := by simp
  bound n h := ⟨by simp, h⟩
  credit := by intro _; simp
  stop := hstop

/-- A flush goes on as before after an exhausted front buffer is dropped. -/
theorem Flushed.drop {config : BaseConfig} {s : SmuxStream} {o : Outcome}
    {pieces : List Bytes} {front : PendingBuffer} {rest : List PendingBuffer}
    (hpending : s.pendingOutbound = front :: rest) (hempty : front.data.length ≤ front.offset)
    (h : Flushed config { s with pendingOutbound := rest } o pieces) :
    Flushed config s o pieces where
  stream := h.stream
  calls := h.calls
  bytes := by
    have hb := h.bytes
    simp only [outboundBytes] at hb ⊢
    rw [hpending, pendingBytes_cons, List.drop_eq_nil_of_le hempty, List.nil_append, hb]
  sizes := h.sizes
  bound n hn := h.bound n fun b hb => hn b (hpending ▸ List.mem_cons_of_mem front hb)
  credit := h.credit
  stop := h.stop

/-- A flush that sends one piece of the front buffer and goes on. -/
theorem Flushed.send {config : BaseConfig} {s : SmuxStream} {o : Outcome}
    {pieces : List Bytes} {front : PendingBuffer} {rest : List PendingBuffer} {n : ℕ}
    (hpending : s.pendingOutbound = front :: rest) (hpos : 0 < n)
    (hn : n ≤ front.data.length - front.offset) (hmax : n ≤ config.maxFrame)
    (hcredit : config.flowControlled → (n : ℤ) ≤ s.availablePeerWindow)
    (h : Flushed config
      (s.sentBytes ((front.data.drop front.offset).take n)
        (⟨front.data, front.offset + n⟩ :: rest)) o pieces) :
    Flushed config s
      ⟨o.stream, .sendFrame .psh s.id
        (QppStream.cipher s.qpp.pad s.qpp.writeRand
          ((front.data.drop front.offset).take n)).1 :: o.calls⟩
      ((front.data.drop front.offset).take n :: pieces) := by
  have hlen : ((front.data.drop front.offset).take n).length = n := by
    rw [List.length_take, List.length_drop, Nat.min_eq_left hn]
  refine ⟨?_, ?_, ?_, ?_, ?_, ?_, h.stop⟩
  · rw [h.stream, sentBytes_sentBytes]
    rfl
  · rw [h.calls]
    rfl
  · have hb := h.bytes
    simp only [outboundBytes, sentBytes, pendingBytes_cons] at hb ⊢
    rw [hpending, pendingBytes_cons, List.flatten_cons, List.append_assoc, ← hb,
      ← List.drop_drop, ← List.append_assoc, List.take_append_drop]
  · intro piece hmem
    rcases List.mem_cons.mp hmem with rfl | hmem
    · rw [hlen]; exact ⟨hpos, hmax⟩
    · exact h.sizes piece hmem
  · intro m hm
    rw [hpending] at hm
    have hfront := hm front List.mem_cons_self
    obtain ⟨hpieces, hrest⟩ := h.bound m fun b hb => by
      rcases List.mem_cons.mp hb with rfl | hb
      · exact hfront
      · exact hm b (List.mem_cons_of_mem front hb)
    refine ⟨fun piece hmem => ?_, hrest⟩
    rcases List.mem_cons.mp hmem with rfl | hmem
    · omega
    · exact hpieces piece hmem
  · intro hflow
    have hc := hcredit hflow
    have hrest := h.credit hflow
    have hsent := availablePeerWindow_sent (s := s)
      (t := s.sentBytes ((front.data.drop front.offset).take n)
        (⟨front.data, front.offset + n⟩ :: rest)) (c := n)
      (by simp only [sentBytes, hlen]) rfl rfl hc
    rw [List.flatten_cons, List.length_append, hlen]
    push_cast
    omega

/-- The next piece is within the buffer, the frame size and the credit, and not empty. -/
theorem chunkSize_spec {config : BaseConfig} {s : SmuxStream} {remaining : ℕ}
    (hrem : remaining ≠ 0) (hcredit : ¬ (config.flowControlled ∧ s.availablePeerWindow ≤ 0)) :
    0 < s.chunkSize config remaining ∧ s.chunkSize config remaining ≤ remaining ∧
      s.chunkSize config remaining ≤ config.maxFrame ∧
      (config.flowControlled → (s.chunkSize config remaining : ℤ) ≤ s.availablePeerWindow) := by
  have hframe := config.maxFrame_pos
  by_cases hflow : config.flowControlled
  · have hwindow : 0 < s.availablePeerWindow := by
      by_contra h
      exact hcredit ⟨hflow, not_lt.mp h⟩
    simp only [chunkSize, hflow, if_true]
    omega
  · simp only [chunkSize, hflow, Bool.false_eq_true, if_false, false_imp_iff, and_true]
    omega

/-- **The flush loop meets its description**, and the fuel of `try_flush_outbound` is
enough for it. Induction on the fuel, which bounds the rounds left. -/
theorem flushLoop_flushed (config : BaseConfig) :
    ∀ (fuel : ℕ) (s : SmuxStream), s.flushFuel ≤ fuel →
      ∃ pieces, Flushed config s (flushLoop config fuel s) pieces := by
  intro fuel
  induction fuel with
  | zero =>
      intro s hfuel
      refine ⟨[], Flushed.refl (Or.inl ?_)⟩
      cases hp : s.pendingOutbound with
      | nil => rfl
      | cons front rest =>
          simp only [flushFuel, hp, List.map_cons, List.sum_cons] at hfuel
          omega
  | succ fuel ih =>
      intro s hfuel
      cases hp : s.pendingOutbound with
      | nil =>
          refine ⟨[], ?_⟩
          rw [flushLoop, hp]
          exact Flushed.refl (Or.inl hp)
      | cons front rest =>
          simp only [flushFuel, hp, List.map_cons, List.sum_cons] at hfuel
          rw [flushLoop, hp]
          simp only
          split_ifs with hrem hblocked
          · obtain ⟨pieces, h⟩ := ih { s with pendingOutbound := rest } (by
              simp only [flushFuel]; omega)
            exact ⟨pieces, h.drop hp (by omega)⟩
          · refine ⟨[], Flushed.refl (Or.inr ⟨hblocked.1, hblocked.2, ?_⟩)⟩
            rw [outboundBytes, hp, pendingBytes_cons]
            intro hnil
            have hdrop := (List.append_eq_nil_iff.mp hnil).1
            rw [List.drop_eq_nil_iff] at hdrop
            omega
          · obtain ⟨hpos, hle, hmax, hcredit⟩ := chunkSize_spec hrem hblocked
            set n := s.chunkSize config (front.data.length - front.offset) with hn
            obtain ⟨pieces, h⟩ := ih (s.sentBytes ((front.data.drop front.offset).take n)
              (⟨front.data, front.offset + n⟩ :: rest)) (by
                simp only [flushFuel, sentBytes, List.map_cons, List.sum_cons]; omega)
            have hlen : ((front.data.drop front.offset).take n).length = n := by
              rw [List.length_take, List.length_drop, Nat.min_eq_left hle]
            have hsend := h.send hp hpos hle hmax hcredit
            simp only [sentBytes, hlen] at hsend
            exact ⟨_, hsend⟩

/-- A flush of a live stream meets the description. -/
theorem tryFlushOutbound_flushed (config : BaseConfig) {s : SmuxStream}
    (halive : s.sessionAlive) (hopen : s.closed = false) :
    ∃ pieces, Flushed config s (tryFlushOutbound config s) pieces := by
  obtain ⟨pieces, h⟩ := flushLoop_flushed config s.flushFuel s le_rfl
  refine ⟨pieces, ?_⟩
  rwa [tryFlushOutbound, if_neg (by simp [halive, hopen])]

/-- A flush of a closed stream, or after the session is gone, does nothing. -/
theorem tryFlushOutbound_of_dead {config : BaseConfig} {s : SmuxStream}
    (h : s.sessionAlive = false ∨ s.closed) : tryFlushOutbound config s = s.quiet := by
  rw [tryFlushOutbound, if_pos]
  rcases h with h | h
  · exact Or.inl (by simp [h])
  · exact Or.inr h

/-! ### What a flush sends -/

/-- A flush sends nothing exactly when nothing is queued or there is no credit. -/
theorem Flushed.pieces_eq_nil_iff {config : BaseConfig} {s : SmuxStream} {o : Outcome}
    {pieces : List Bytes} (h : Flushed config s o pieces) :
    pieces = [] ↔
      s.outboundBytes = [] ∨ (config.flowControlled ∧ s.availablePeerWindow ≤ 0) := by
  constructor
  · rintro rfl
    have hbytes : s.outboundBytes = o.stream.outboundBytes := h.bytes
    rcases h.stop with hstop | ⟨hflow, hwindow, -⟩
    · exact Or.inl (by rw [hbytes, outboundBytes, hstop, pendingBytes_nil])
    · refine Or.inr ⟨hflow, ?_⟩
      rw [h.stream, availablePeerWindow_eq] at hwindow
      rw [availablePeerWindow_eq]
      simpa [sentBytes] using hwindow
  · intro hnone
    have hflat : pieces.flatten = [] := by
      rcases hnone with hnil | ⟨hflow, hwindow⟩
      · exact (List.append_eq_nil_iff.mp (h.bytes.symm.trans hnil)).1
      · have hcredit := h.credit hflow
        exact List.length_eq_zero_iff.mp (by omega)
    cases pieces with
    | nil => rfl
    | cons piece pieces =>
        have hpos := (h.sizes piece List.mem_cons_self).1
        rw [List.flatten_cons] at hflat
        rw [(List.append_eq_nil_iff.mp hflat).1] at hpos
        exact absurd hpos (Nat.lt_irrefl 0)

/-! ### Exactly the credit -/

/-- One more unit of fuel than the loop needs changes nothing. Induction on the fuel, as in
`flushLoop_flushed`. -/
theorem flushLoop_succ (config : BaseConfig) :
    ∀ (fuel : ℕ) (s : SmuxStream), s.flushFuel ≤ fuel →
      flushLoop config (fuel + 1) s = flushLoop config fuel s := by
  intro fuel
  induction fuel with
  | zero =>
      intro s hfuel
      cases hp : s.pendingOutbound with
      | nil => rw [flushLoop, flushLoop, hp]
      | cons front rest =>
          simp only [flushFuel, hp, List.map_cons, List.sum_cons] at hfuel
          omega
  | succ fuel ih =>
      intro s hfuel
      cases hp : s.pendingOutbound with
      | nil => rw [flushLoop, flushLoop, hp]
      | cons front rest =>
          simp only [flushFuel, hp, List.map_cons, List.sum_cons] at hfuel
          rw [flushLoop, flushLoop, hp]
          simp only
          split_ifs with hrem hblocked
          · exact ih { s with pendingOutbound := rest } (by simp only [flushFuel]; omega)
          · rfl
          · obtain ⟨hpos, hle, -, -⟩ := chunkSize_spec hrem hblocked
            simp only [Outcome.andThen]
            rw [ih _ (by simp only [flushFuel, List.map_cons, List.sum_cons]; omega)]

/-- **The flush loop ends**: with enough fuel its result does not depend on the fuel. -/
theorem flushLoop_eq_of_le (config : BaseConfig) {fuel : ℕ} {s : SmuxStream}
    (h : s.flushFuel ≤ fuel) : flushLoop config fuel s = flushLoop config s.flushFuel s := by
  induction fuel, h using Nat.le_induction with
  | base => rfl
  | succ fuel h ih => rw [flushLoop_succ config fuel s h, ih]

/-- The number of queued bytes the credit allows to be sent. -/
def sendable (config : BaseConfig) (s : SmuxStream) : ℕ :=
  if config.smuxver = 2 then min s.outboundBytes.length (max 0 s.availablePeerWindow).toNat
  else s.outboundBytes.length

/-- As long as the window is a positive signed number, sending within the credit takes exactly
that much off it. -/
theorem availablePeerWindow_sentBytes {s : SmuxStream} {sent : Bytes}
    {pending : List PendingBuffer} (hwindow : s.peerWindow.toNat < 2 ^ 31)
    (hcredit : (sent.length : ℤ) ≤ s.availablePeerWindow) :
    (s.sentBytes sent pending).availablePeerWindow = s.availablePeerWindow - sent.length := by
  have hlt := (s.numWritten - s.peerConsumed).toNat_lt
  have hdiff : s.numWritten + UInt32.ofNat sent.length - s.peerConsumed =
      (s.numWritten - s.peerConsumed) + UInt32.ofNat sent.length := by grind
  rw [availablePeerWindow_eq] at hcredit ⊢
  rw [availablePeerWindow_eq]
  simp only [sentBytes, hdiff, UInt32.toNat_add, UInt32.toNat_ofNat']
  split_ifs at hcredit ⊢ <;> omega

/-- A flush sends as many bytes as the credit allows. -/
theorem Flushed.length_eq {config : BaseConfig} {s : SmuxStream} {o : Outcome}
    {pieces : List Bytes} (h : Flushed config s o pieces)
    (hwindow : s.peerWindow.toNat < 2 ^ 31) :
    pieces.flatten.length = s.sendable config := by
  have htotal := congrArg List.length h.bytes
  rw [List.length_append] at htotal
  have hall (hempty : o.stream.pendingOutbound = []) :
      pieces.flatten.length = s.outboundBytes.length := by
    rw [htotal, outboundBytes, hempty, pendingBytes_nil, List.length_nil, Nat.add_zero]
  rw [sendable]
  split_ifs with hversion
  · have hflow : config.flowControlled := by simp [BaseConfig.flowControlled, hversion]
    have hcredit := h.credit hflow
    rcases h.stop with hempty | ⟨-, hblocked, -⟩
    · have hsent := hall hempty
      omega
    · -- nothing is left of the credit, so all of it was used
      by_cases hopen : (pieces.flatten.length : ℤ) ≤ s.availablePeerWindow
      · rw [h.stream, availablePeerWindow_sentBytes hwindow hopen] at hblocked
        omega
      · omega
  · refine hall (h.stop.resolve_right fun hblocked => hversion ?_)
    simpa [BaseConfig.flowControlled] using hblocked.1

/-- **A flush sends exactly what the credit allows.** For a stream that is open, on a session
that is there, the loop of `try_flush_outbound` ends; the frames carry, before encryption,
the first `sendable` bytes of the queue in pieces of one byte up to the frame size; and the
queue keeps the rest, without a buffer left over when nothing is. -/
theorem tryFlushOutbound_sends_sendable (config : BaseConfig) {s : SmuxStream}
    (halive : s.sessionAlive) (hopen : s.closed = false) (hwindow : s.peerWindow.toNat < 2 ^ 31) :
    (∀ fuel, s.flushFuel ≤ fuel → flushLoop config fuel s = tryFlushOutbound config s) ∧
      ∃ pieces : List Bytes,
        (tryFlushOutbound config s).calls = (cipherPieces s.qpp.pad s.qpp.writeRand pieces).map
          (SessionCall.sendFrame .psh s.id) ∧
        pieces.flatten = s.outboundBytes.take (s.sendable config) ∧
        (∀ piece ∈ pieces, 1 ≤ piece.length ∧ (piece.length : ℤ) ≤ max 1 config.framesize.toInt) ∧
        (tryFlushOutbound config s).stream.numWritten =
          s.numWritten + UInt32.ofNat (s.sendable config) ∧
        (tryFlushOutbound config s).stream.outboundBytes =
          s.outboundBytes.drop (s.sendable config) ∧
        (s.sendable config = s.outboundBytes.length →
          (tryFlushOutbound config s).stream.pendingOutbound = []) := by
  refine ⟨fun fuel hfuel => ?_, ?_⟩
  · rw [tryFlushOutbound, if_neg (by simp [halive, hopen])]
    exact flushLoop_eq_of_le config hfuel
  · obtain ⟨pieces, h⟩ := tryFlushOutbound_flushed config halive hopen
    have hlength := h.length_eq hwindow
    refine ⟨pieces, h.calls, ?_, fun piece hpiece => ?_, ?_, ?_, fun hall => ?_⟩
    · rw [h.bytes, ← hlength, List.take_left]
    · obtain ⟨hpos, hmax⟩ := h.sizes piece hpiece
      rw [BaseConfig.maxFrame] at hmax
      exact ⟨hpos, by omega⟩
    · rw [h.stream, ← hlength]
      rfl
    · rw [h.bytes, ← hlength, List.drop_left]
    · refine h.stop.resolve_right fun hblocked => hblocked.2.2 ?_
      have htotal := congrArg List.length h.bytes
      rw [List.length_append, hlength, hall] at htotal
      exact List.length_eq_zero_iff.mp (by omega)

/-- Two buffers, the first half sent, a credit of five bytes and frames of four: a piece of
four bytes, then a piece of one. -/
theorem five_of_seven_sent :
    let s : SmuxStream :=
      { id := 3, qpp := ⟨none, .zero, .zero⟩, peerWindow := 10, numWritten := 2
        peerConsumed := 4294967293
        pendingOutbound := [⟨[1, 2, 3], 1⟩, ⟨[4, 5, 6, 7, 8], 0⟩] }
    s.sendable { framesize := 4 } = 5 ∧
      (tryFlushOutbound { framesize := 4 } s).stream.outboundBytes = [7, 8] := by
  intro s
  have h := tryFlushOutbound_sends_sendable { framesize := 4 } (s := s) rfl rfl (by decide)
  obtain ⟨-, pieces, -, -, -, -, hrest, -⟩ := h
  exact ⟨by decide, hrest.trans (by decide)⟩

end SmuxStream

end Shimakaze
