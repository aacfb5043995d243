import Shimakaze.Smux.Flush

/-!
# When a Flush Empties the Queue

The flush loop stops when the queue is empty or when there is no credit left, and the
credit is looked at before each piece. So a flush empties the queue when the credit covers
all of it; the one thing more to ask for is that the count of the bytes in flight is still
positive as a signed number when the last piece is due, since `available_peer_window` reads
a negative count as no credit.

## Main results

* `creditCovers_send`: a round of the loop does not change whether the credit covers the
  queue.
* `tryFlushOutbound_drains_iff`: **a flush leaves an empty queue exactly when the queue was
  empty, or the stream is alive and the credit covers it.**
-/

namespace Shimakaze

namespace SmuxStream

/-- The size of the last piece cut from a queue when the credit never cuts one short. -/
def lastPiece (config : BaseConfig) : List PendingBuffer → ℕ
  | [] => 0
  | b :: bs =>
      if pendingBytes bs ≠ [] then lastPiece config bs
      else
        let remaining := b.data.length - b.offset
        if remaining = 0 then 0 else (remaining - 1) % config.maxFrame + 1

/-- The bytes sent and not reported as consumed. -/
def inflight (s : SmuxStream) : ℕ := (s.numWritten - s.peerConsumed).toNat

/-- The credit covers the queue: its bytes fit into the credit, and the count of the bytes
in flight leaves the range of positive signed numbers, if at all, with the last piece. -/
def CreditCovers (config : BaseConfig) (s : SmuxStream) : Prop :=
  s.outboundBytes = [] ∨
    ((s.outboundBytes.length : ℤ) ≤ s.availablePeerWindow ∧
      s.inflight + s.outboundBytes.length < 2 ^ 31 + lastPiece config s.pendingOutbound)

/-- A flush empties the queue. -/
def Drains (config : BaseConfig) (s : SmuxStream) : Prop :=
  s.pendingOutbound = [] ∨
    (s.sessionAlive ∧ s.closed = false ∧ (config.flowControlled → s.CreditCovers config))

/-- The last piece of a queue with bytes is a piece of it. -/
theorem lastPiece_le (config : BaseConfig) (buffers : List PendingBuffer) :
    lastPiece config buffers ≤ (pendingBytes buffers).length := by
  induction buffers with
  | nil => exact le_rfl
  | cons b bs ih =>
      have hmod := Nat.mod_le (b.data.length - b.offset - 1) config.maxFrame
      simp only [lastPiece, pendingBytes_cons, List.length_append, List.length_drop]
      split_ifs <;> omega

/-- Cutting a whole frame off the front buffer leaves the last piece what it was. -/
theorem lastPiece_cut (config : BaseConfig) (front : PendingBuffer)
    (rest : List PendingBuffer) {n : ℕ} (hn : n ≤ front.data.length - front.offset)
    (hframe : n = config.maxFrame)
    (hleft : pendingBytes (⟨front.data, front.offset + n⟩ :: rest) ≠ []) :
    lastPiece config (⟨front.data, front.offset + n⟩ :: rest) =
      lastPiece config (front :: rest) := by
  have hpos := config.maxFrame_pos
  simp only [lastPiece]
  split_ifs with hrest hcut hrem hrem
  · rfl
  · rfl
  · rw [ne_eq, not_not] at hrest
    rw [pendingBytes_cons, hrest, List.append_nil, ne_eq, List.drop_eq_nil_iff] at hleft
    simp only at hcut hleft
    omega
  · omega
  · have hsplit : front.data.length - front.offset - 1 =
        (front.data.length - (front.offset + n) - 1) + config.maxFrame := by omega
    rw [hsplit, Nat.add_mod_right]

/-- A front buffer that fits into one frame, with nothing behind it, is the last piece. -/
theorem lastPiece_whole (config : BaseConfig) (front : PendingBuffer)
    (rest : List PendingBuffer) (hrest : pendingBytes rest = [])
    (hfits : front.data.length - front.offset ≤ config.maxFrame) :
    lastPiece config (front :: rest) = front.data.length - front.offset := by
  simp only [lastPiece, hrest, ne_eq, not_true_eq_false, if_false]
  split_ifs with hrem
  · exact hrem.symm
  · rw [Nat.mod_eq_of_lt (by omega)]
    omega

/-- What one round of the loop does to the last piece of the queue: it is sent, or it stays
what it was, or the credit ends before the queue does. -/
theorem lastPiece_round (config : BaseConfig) (front : PendingBuffer)
    (rest : List PendingBuffer) {credit n : ℕ}
    (hn : n = min (min (front.data.length - front.offset) credit) config.maxFrame) :
    (pendingBytes (⟨front.data, front.offset + n⟩ :: rest) = [] ∧
        lastPiece config (front :: rest) = n) ∨
      (pendingBytes (⟨front.data, front.offset + n⟩ :: rest) ≠ [] ∧
        lastPiece config (⟨front.data, front.offset + n⟩ :: rest) =
          lastPiece config (front :: rest)) ∨
      (n = credit ∧ n < (pendingBytes (front :: rest)).length) := by
  have hfront : n ≤ front.data.length - front.offset := hn.le.trans (by simp)
  by_cases hrest : pendingBytes rest = []
  · by_cases hwhole : n = front.data.length - front.offset
    · refine Or.inl ⟨?_, ?_⟩
      · rw [pendingBytes_cons, hrest, List.append_nil]
        exact List.drop_eq_nil_of_le (by simp only; omega)
      · rw [lastPiece_whole config front rest hrest (by omega), hwhole]
    · by_cases hframe : n = config.maxFrame
      · have hleft : pendingBytes (⟨front.data, front.offset + n⟩ :: rest) ≠ [] := by
          rw [pendingBytes_cons, hrest, List.append_nil, ne_eq, List.drop_eq_nil_iff]
          simp only
          omega
        exact Or.inr (Or.inl ⟨hleft, lastPiece_cut config front rest hfront hframe hleft⟩)
      · refine Or.inr (Or.inr ⟨by omega, ?_⟩)
        rw [pendingBytes_cons, hrest, List.append_nil, List.length_drop]
        omega
  · refine Or.inr (Or.inl ⟨fun hleft => hrest (List.append_eq_nil_iff.mp hleft).2, ?_⟩)
    simp only [lastPiece, ne_eq, hrest, not_false_eq_true, if_true]

/-- The credit in terms of the bytes in flight. -/
theorem availablePeerWindow_inflight (s : SmuxStream) :
    s.availablePeerWindow =
      if 2 ^ 31 ≤ s.inflight then 0 else (s.peerWindow.toNat : ℤ) - s.inflight :=
  s.availablePeerWindow_eq

/-- Sending within the credit adds to the bytes in flight without a wrap. -/
theorem inflight_sentBytes {s : SmuxStream} {sent : Bytes} {pending : List PendingBuffer}
    (hcredit : (sent.length : ℤ) ≤ s.availablePeerWindow) :
    (s.sentBytes sent pending).inflight = s.inflight + sent.length := by
  have hlt := s.peerWindow.toNat_lt
  have hlt' := (s.numWritten - s.peerConsumed).toNat_lt
  have hdiff : s.numWritten + UInt32.ofNat sent.length - s.peerConsumed =
      (s.numWritten - s.peerConsumed) + UInt32.ofNat sent.length := by grind
  rw [availablePeerWindow_eq] at hcredit
  simp only [inflight, sentBytes, hdiff, UInt32.toNat_add, UInt32.toNat_ofNat']
  split_ifs at hcredit <;> omega

/-- **One round of the loop does not change whether the credit covers the queue.** The last
piece is the same before and after, unless the credit cuts the piece short, and then it
covers the queue neither before nor after. -/
theorem creditCovers_send {config : BaseConfig} {s : SmuxStream} {front : PendingBuffer}
    {rest : List PendingBuffer} {n : ℕ} (hp : s.pendingOutbound = front :: rest)
    (hwindow : 0 < s.availablePeerWindow)
    (hn : n = min (min (front.data.length - front.offset) s.availablePeerWindow.toNat)
      config.maxFrame) :
    (s.sentBytes ((front.data.drop front.offset).take n)
        (⟨front.data, front.offset + n⟩ :: rest)).CreditCovers config ↔
      s.CreditCovers config := by
  have hfront : n ≤ front.data.length - front.offset := hn.le.trans (by simp)
  have hwithin : n ≤ s.availablePeerWindow.toNat := hn.le.trans (by simp)
  have hlast := lastPiece_round config front rest hn
  clear hn
  have hlen : ((front.data.drop front.offset).take n).length = n := by
    rw [List.length_take, List.length_drop]
    exact min_eq_left hfront
  set t := s.sentBytes ((front.data.drop front.offset).take n)
    (⟨front.data, front.offset + n⟩ :: rest) with ht
  have hsent : (n : ℤ) ≤ s.availablePeerWindow := by omega
  have hinflight : t.inflight = s.inflight + n := by
    rw [ht, inflight_sentBytes (by rwa [hlen]), hlen]
  have hbytes : s.outboundBytes.length = t.outboundBytes.length + n := by
    rw [outboundBytes, hp, outboundBytes, ht, sentBytes, pendingBytes_cons, pendingBytes_cons,
      List.length_append, List.length_append, List.length_drop, List.length_drop]
    simp only
    omega
  -- the credit is positive, so the count of the bytes in flight is not negative before
  have hcredit := s.availablePeerWindow_inflight
  have hopen : s.inflight < 2 ^ 31 := by
    by_contra hwrapped
    rw [hcredit, if_pos (not_lt.mp hwrapped)] at hwindow
    exact lt_irrefl _ hwindow
  rw [if_neg (not_le.mpr hopen)] at hcredit
  have hcredit' := t.availablePeerWindow_inflight
  have hle : lastPiece config t.pendingOutbound ≤ t.outboundBytes.length :=
    lastPiece_le config t.pendingOutbound
  rw [hinflight, show t.peerWindow = s.peerWindow from rfl] at hcredit'
  rw [← hp] at hlast
  simp only [CreditCovers, hinflight]
  rcases hlast with ⟨hempty, hlast⟩ | ⟨hleft, hlast⟩ | ⟨hshort, hlast⟩
  · have hzero : t.outboundBytes.length = 0 := List.length_eq_zero_iff.mpr hempty
    exact iff_of_true (Or.inl hempty) (Or.inr ⟨by omega, by omega⟩)
  · have hsome : t.outboundBytes ≠ [] := hleft
    have hlast' : lastPiece config t.pendingOutbound = lastPiece config s.pendingOutbound :=
      hlast
    have hpos := List.length_pos_iff.mpr hsome
    have hnonempty : s.outboundBytes ≠ [] := List.length_pos_iff.mp (by omega)
    rw [or_iff_right hsome, or_iff_right hnonempty, hcredit', hcredit]
    split_ifs <;> omega
  · have hlast' : n < s.outboundBytes.length := hlast
    have hpos : 0 < t.outboundBytes.length := by omega
    have hnonempty : s.outboundBytes ≠ [] := List.length_pos_iff.mp (by omega)
    rw [or_iff_right (List.length_pos_iff.mp hpos), or_iff_right hnonempty]
    refine iff_of_false (fun h => ?_) fun h => by omega
    have hnone := h.1
    rw [hcredit'] at hnone
    split_ifs at hnone <;> omega

/-- An exhausted front buffer plays no part in whether the credit covers the queue. -/
theorem creditCovers_drop {config : BaseConfig} {s : SmuxStream} {front : PendingBuffer}
    {rest : List PendingBuffer} (hp : s.pendingOutbound = front :: rest)
    (hrem : front.data.length - front.offset = 0) :
    CreditCovers config { s with pendingOutbound := rest } ↔ s.CreditCovers config := by
  have hbytes : s.outboundBytes = pendingBytes rest := by
    rw [outboundBytes, hp, pendingBytes_cons, List.drop_eq_nil_of_le (by omega),
      List.nil_append]
  have hlast : lastPiece config s.pendingOutbound = lastPiece config rest ∨
      pendingBytes rest = [] := by
    rw [hp]
    by_cases hrest : pendingBytes rest = []
    · exact Or.inr hrest
    · exact Or.inl (by simp only [lastPiece, if_pos hrest])
  simp only [CreditCovers, hbytes]
  rcases hlast with hlast | hlast
  · rw [hlast]
    rfl
  · exact iff_of_true (Or.inl hlast) (Or.inl hlast)

/-- **The loop empties a queue that the credit covers, and no other.** Induction on the
fuel, which bounds the rounds left. -/
theorem flushLoop_drains_iff {config : BaseConfig} (hflow : config.flowControlled) :
    ∀ (fuel : ℕ) (s : SmuxStream), s.flushFuel ≤ fuel →
      ((flushLoop config fuel s).stream.pendingOutbound = [] ↔ s.CreditCovers config) := by
  intro fuel
  induction fuel with
  | zero =>
      intro s hfuel
      have hp : s.pendingOutbound = [] := by
        cases hp : s.pendingOutbound with
        | nil => rfl
        | cons front rest =>
            simp only [flushFuel, hp, List.map_cons, List.sum_cons] at hfuel
            omega
      exact iff_of_true hp (Or.inl (by rw [outboundBytes, hp, pendingBytes_nil]))
  | succ fuel ih =>
      intro s hfuel
      cases hp : s.pendingOutbound with
      | nil =>
          rw [flushLoop, hp]
          exact iff_of_true hp (Or.inl (by rw [outboundBytes, hp, pendingBytes_nil]))
      | cons front rest =>
          simp only [flushFuel, hp, List.map_cons, List.sum_cons] at hfuel
          rw [flushLoop, hp]
          simp only
          split_ifs with hrem hblocked
          · rw [ih { s with pendingOutbound := rest } (by simp only [flushFuel]; omega)]
            exact creditCovers_drop hp hrem
          · have hbytes : s.outboundBytes.length =
                (front.data.length - front.offset) + (pendingBytes rest).length := by
              rw [outboundBytes, hp, pendingBytes_cons, List.length_append, List.length_drop]
            refine iff_of_false (by simp [hp]) ?_
            rintro (hnil | ⟨hle, -⟩)
            · rw [hnil, List.length_nil] at hbytes
              omega
            · have hwindow := hblocked.2
              omega
          · obtain ⟨hpos, hle, -, -⟩ := chunkSize_spec hrem hblocked
            have hwindow : 0 < s.availablePeerWindow := by
              by_contra hno
              exact hblocked ⟨hflow, not_lt.mp hno⟩
            have hn : s.chunkSize config (front.data.length - front.offset) =
                min (min (front.data.length - front.offset) s.availablePeerWindow.toNat)
                  config.maxFrame := by
              simp only [chunkSize, hflow, if_true]
            set n := s.chunkSize config (front.data.length - front.offset)
            have hlen : ((front.data.drop front.offset).take n).length = n := by
              rw [List.length_take, List.length_drop, Nat.min_eq_left hle]
            have hround := @creditCovers_send config _ _ _ _ hp hwindow hn
            rw [← hround, ← ih _ (by
              simp only [flushFuel, sentBytes, List.map_cons, List.sum_cons]; omega)]
            simp only [Outcome.andThen_stream, sentBytes, hlen]
            rfl

/-- Without flow control the loop always empties the queue. -/
theorem flushLoop_drains {config : BaseConfig} (hflow : ¬ config.flowControlled)
    (s : SmuxStream) : (flushLoop config s.flushFuel s).stream.pendingOutbound = [] := by
  obtain ⟨pieces, h⟩ := flushLoop_flushed config s.flushFuel s le_rfl
  rcases h.stop with hstop | ⟨hflow', -⟩
  · exact hstop
  · exact absurd hflow' hflow

/-- **When a flush leaves an empty queue.** -/
theorem tryFlushOutbound_drains_iff (config : BaseConfig) (s : SmuxStream) :
    (tryFlushOutbound config s).stream.pendingOutbound = [] ↔ s.Drains config := by
  by_cases hdead : s.sessionAlive = false ∨ s.closed
  · rw [tryFlushOutbound_of_dead hdead, quiet_stream, Drains]
    refine (or_iff_left ?_).symm
    rintro ⟨halive, hopen, -⟩
    rcases hdead with hdead | hdead
    · exact absurd (hdead.symm.trans halive) (by decide)
    · exact absurd (hopen.symm.trans hdead) (by decide)
  · rw [not_or, Bool.not_eq_false, Bool.not_eq_true] at hdead
    rw [tryFlushOutbound, if_neg (by simp [hdead]), Drains]
    by_cases hflow : config.flowControlled
    · rw [flushLoop_drains_iff hflow _ s le_rfl]
      constructor
      · intro hcovers
        exact Or.inr ⟨hdead.1, hdead.2, fun _ => hcovers⟩
      · rintro (hnil | ⟨-, -, hcovers⟩)
        · exact Or.inl (by rw [outboundBytes, hnil, pendingBytes_nil])
        · exact hcovers hflow
    · refine iff_of_true (flushLoop_drains hflow s) (Or.inr ⟨hdead.1, hdead.2, ?_⟩)
      exact fun hflow' => absurd hflow' hflow

end SmuxStream

end Shimakaze
