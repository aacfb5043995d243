import Shimakaze.Fec.Sizes
import Shimakaze.Lib.EventMachine
import Shimakaze.PacketCrypt

/-!
# The Datagram Side of the KCP Transport

`KcpTransport` hands what KCP outputs to the erasure-coding layer, encrypts each packet that
comes back, and sends the datagrams, at once or paced by the rate limiter. KCP itself is not
part of the repository: what it outputs, and when, are the events of a run, and so are the
arriving datagrams and the expiries of the rate timer. An exception out of `decode` ends the
run.

The other way, `send` hands bytes to `ikcp_send` until it has taken them all or fails. What
the code relies on there is `KcpLib.Lawful`.

## Main results

* `KcpTransport.create_mtu`: the mtu KCP is given leaves room for both layers.
* `KcpTransport.send_takes_all`: an open transport discards no bytes that need fewer than 128
  segments.
* `KcpTransport.step_cases`: what an event does to what has been sent.
* `KcpTransport.datagram_fits`: in every run in which KCP keeps to that mtu, no datagram is
  longer than the configured one, and with the erasure code on every packet fits its size
  field.
-/

namespace Shimakaze

/-- What `send` uses of KCP, on its control block: the size of a segment and `ikcp_send`, with
the number of bytes it took or the error it returned. -/
structure KcpLib (κ : Type) where
  /-- `mss`. -/
  mss : κ → ℕ
  ikcpSend : κ → Bytes → ℤ × κ

/-- The segments that `ikcp_send` makes of bytes. -/
def fragments (mss length : ℕ) : ℕ := if length ≤ mss then 1 else (length + mss - 1) / mss

/-- What the code relies on: in stream mode `ikcp_send` fails for 128 segments or more only,
and it leaves their size alone. -/
structure KcpLib.Lawful {κ : Type} (lib : KcpLib κ) : Prop where
  takes : ∀ kcp bytes, bytes ≠ [] → fragments (lib.mss kcp) bytes.length < 128 →
    0 < (lib.ikcpSend kcp bytes).1
  mss_eq : ∀ kcp bytes, lib.mss (lib.ikcpSend kcp bytes).2 = lib.mss kcp

/-- `queue` reads off the control block the bytes that `ikcp_send` took so far: where it does not
fail, it takes as many as it says, from the front. -/
def KcpLib.Queues {κ : Type} (lib : KcpLib κ) (queue : κ → Bytes) : Prop :=
  ∀ kcp bytes, 0 < (lib.ikcpSend kcp bytes).1 →
    queue (lib.ikcpSend kcp bytes).2 = queue kcp ++ bytes.take (lib.ikcpSend kcp bytes).1.toNat

/-- `KcpTransport`, with the datagrams given to the socket so far. The times are readings of
the steady clock in nanoseconds. -/
structure KcpTransport where
  config : BaseConfig
  crypt : PacketCrypt
  fec : FecCodec
  /-- The mtu `configure_kcp` sets. -/
  kcpMtu : Int32
  pendingUdp : List Bytes := []
  nextTxTime : ℕ := 0
  rateSendActive : Bool := false
  closing : Bool := false
  socket : List Bytes := []

namespace KcpTransport

open PacketCrypt

/-! ### Setting up -/

/-- `configure_kcp`, reduced to the mtu; `ikcpSetmtu` is the result of `ikcp_setmtu`. -/
def configureKcp (ikcpSetmtu : Int32 → Int32) (config : BaseConfig) (crypt : PacketCrypt)
    (fec : FecCodec) : Except String Int32 :=
  let kcpMtu := config.mtu - Int32.ofNat (crypt.overhead + fec.overhead)
  if kcpMtu < 50 ∨ ikcpSetmtu kcpMtu ≠ 0 then
    throw "mtu is too small after Shimakaze packet overhead is reserved"
  else pure kcpMtu

/-- The constructor. -/
def create (lib : CryptoLib) (ikcpSetmtu : Int32 → Int32) (config : BaseConfig) :
    Except Failure KcpTransport :=
  match PacketCrypt.create lib config with
  | .error failure => throw failure
  | .ok crypt =>
      match FecCodec.create config with
      | .error message => throw (.runtimeError message)
      | .ok fec =>
          match configureKcp ikcpSetmtu config crypt fec with
          | .error message => throw (.runtimeError message)
          | .ok kcpMtu => pure { config, crypt, fec, kcpMtu }

/-! ### Sending -/

variable (lib : CryptoLib) (transport : KcpTransport)

/-- `close`, without its handler. -/
def close : KcpTransport := { transport with closing := true }

/-- `schedule_rate_limited_send`, with the clock reading it takes. -/
def scheduleRateLimitedSend (now : ℕ) : KcpTransport :=
  if transport.closing ∨ transport.rateSendActive ∨ transport.pendingUdp = [] then transport
  else
    { transport with
      rateSendActive := true
      nextTxTime := if transport.nextTxTime < now then now else transport.nextTxTime }

/-- `enqueue_udp_packet`. -/
def enqueueUdpPacket (payload : Bytes) (now : ℕ) : KcpTransport :=
  if transport.config.ratelimit ≤ 0 then { transport with socket := transport.socket ++ [payload] }
  else
    { transport with pendingUdp := transport.pendingUdp ++ [payload] }.scheduleRateLimitedSend now

/-- The loop of `send_udp` over the packets of the erasure code: the datagrams handed to
`enqueue_udp_packet`. A packet that cannot be encrypted closes the transport and ends the
loop. -/
def encryptAndEnqueue (now : ℕ) : List (Bytes × Vector UInt8 16) → KcpTransport →
    List Bytes × KcpTransport
  | [], transport => ([], transport)
  | (packet, nonce) :: packets, transport =>
      match transport.crypt.encrypt lib nonce packet with
      | .error _ => ([], transport.close)
      | .ok payload =>
          let (payloads, transport) :=
            encryptAndEnqueue now packets (transport.enqueueUdpPacket payload now)
          (payload :: payloads, transport)

/-- `send_udp` on a packet that is passed to `FecCodec::encode`: the datagrams handed to
`enqueue_udp_packet`. -/
def sendUdp (buffer : Bytes) (currentMillis : UInt32) (nonces : ℕ → Vector UInt8 16) (now : ℕ) :
    List Bytes × KcpTransport :=
  let (packets, fec) := transport.fec.encode buffer currentMillis
  encryptAndEnqueue lib now (packets.mapIdx fun i packet => (packet, nonces i))
    { transport with fec := fec }

/-- The handler of the rate timer, with its two clock readings: one datagram is sent, and the
next one waits for as long as its bytes take at the configured rate. -/
def rateTimerFired (error : Bool) (sentAt rescheduledAt : ℕ) : KcpTransport :=
  let transport := { transport with rateSendActive := false }
  if error ∨ transport.closing then transport
  else
    match transport.pendingUdp with
    | [] => transport
    | payload :: pending =>
        let delayUs := payload.length * 1000000 / (max 1 transport.config.ratelimit.toInt).toNat
        { transport with
          pendingUdp := pending
          nextTxTime := max transport.nextTxTime sentAt + 1000 * max 1 delayUs
          socket := transport.socket ++ [payload] }.scheduleRateLimitedSend rescheduledAt

/-- `input` up to `ikcp_input`: the packets given to KCP. -/
def input (packet : Bytes) : Except String (List Bytes × KcpTransport) :=
  if transport.closing ∨ packet = [] then pure ([], transport)
  else
    match transport.fec.decode packet with
    | .error message => throw message
    | .ok (packets, fec) => pure (packets, { transport with fec := fec })

/-- The loop of `send`: what its failure branch discards, and the control block. Every round
takes a byte at least, so the number of bytes bounds the number of rounds. -/
def sendLoop {κ : Type} (kcpLib : KcpLib κ) : ℕ → κ → Bytes → Bytes × κ
  | 0, kcp, bytes => (bytes, kcp)
  | fuel + 1, kcp, bytes =>
      if bytes = [] then ([], kcp)
      else
        let (result, kcp) := kcpLib.ikcpSend kcp bytes
        if result ≤ 0 then (bytes, kcp) else sendLoop kcpLib fuel kcp (bytes.drop result.toNat)

/-- `send` up to `ikcp_flush`: what is not handed to KCP, and the control block. -/
def send {κ : Type} (kcpLib : KcpLib κ) (kcp : κ) (bytes : Bytes) : Bytes × κ :=
  if transport.closing ∨ bytes = [] then (bytes, kcp)
  else sendLoop kcpLib bytes.length kcp bytes

/-! ### Runs -/

/-- A transport in a run, the packets passed to `FecCodec::encode` and the datagrams handed to
`enqueue_udp_packet`. -/
structure Progress where
  transport : KcpTransport
  encoded : List Bytes := []
  enqueued : List Bytes := []

/-- What happens to a transport. -/
inductive Event
  /-- KCP calls the output callback. -/
  | output (buffer : Bytes) (currentMillis : UInt32) (nonces : ℕ → Vector UInt8 16) (now : ℕ)
  /-- A datagram arrives. -/
  | input (packet : Bytes)
  /-- The rate timer expires or is cancelled. -/
  | rateTimer (error : Bool) (sentAt rescheduledAt : ℕ)
  /-- The transport is closed. -/
  | close

/-- KCP keeps to its mtu: the packet of an output is not longer. -/
def Event.WithinMtu (mtu : Int32) : Event → Prop
  | .output buffer _ _ _ => (buffer.length : ℤ) ≤ mtu.toInt
  | _ => True

instance (mtu : Int32) (event : Event) : Decidable (event.WithinMtu mtu) :=
  match event with
  | .output buffer _ _ _ => inferInstanceAs (Decidable ((buffer.length : ℤ) ≤ mtu.toInt))
  | .input _ => .isTrue trivial
  | .rateTimer .. => .isTrue trivial
  | .close => .isTrue trivial

/-- One event. A closed transport ignores outputs; the timer fires only while a wait for it is
outstanding; an exception out of `decode` leaves no state to go on from. -/
def step (progress : Progress) : Event → Option Progress
  | .output buffer currentMillis nonces now =>
      if progress.transport.closing ∨ buffer = [] then some progress
      else
        let (payloads, transport) := progress.transport.sendUdp lib buffer currentMillis nonces now
        some
          { transport
            encoded := progress.encoded ++ [buffer]
            enqueued := progress.enqueued ++ payloads }
  | .input packet =>
      match progress.transport.input packet with
      | .error _ => none
      | .ok (_, transport) => some { progress with transport }
  | .rateTimer error sentAt rescheduledAt =>
      if progress.transport.rateSendActive then
        some { progress with
          transport := progress.transport.rateTimerFired error sentAt rescheduledAt }
      else none
  | .close => some { progress with transport := progress.transport.close }

/-- The transport as an event machine. -/
def machine : EventMachine Progress Event := ⟨step lib⟩

variable {lib transport}

/-! ### The mtu KCP is given -/

/-- No method needs more than AES-GCM. -/
theorem overhead_le (crypt : PacketCrypt) : crypt.overhead ≤ 28 := by
  rw [PacketCrypt.overhead]
  split
  · exact Nat.zero_le _
  · split <;> decide

/-- The erasure code needs its header. -/
theorem fecOverhead_le (fec : FecCodec) : fec.overhead ≤ 8 := by
  rw [FecCodec.overhead]
  split <;> decide

/-- What the constructor puts together. -/
theorem create_parts {ikcpSetmtu : Int32 → Int32} {config : BaseConfig}
    (h : create lib ikcpSetmtu config = .ok transport) :
    ∃ crypt fec kcpMtu, PacketCrypt.create lib config = .ok crypt ∧
      FecCodec.create config = .ok fec ∧ configureKcp ikcpSetmtu config crypt fec = .ok kcpMtu ∧
      transport = { config, crypt, fec, kcpMtu } := by
  rw [create] at h
  cases hcrypt : PacketCrypt.create lib config with
  | error failure =>
      rw [hcrypt] at h
      cases h
  | ok crypt =>
      cases hfec : FecCodec.create config with
      | error message =>
          rw [hcrypt, hfec] at h
          cases h
      | ok fec =>
          cases hmtu : configureKcp ikcpSetmtu config crypt fec with
          | error message =>
              simp only [hcrypt, hfec, hmtu] at h
              cases h
          | ok kcpMtu =>
              simp only [hcrypt, hfec, hmtu] at h
              exact ⟨crypt, fec, kcpMtu, rfl, rfl, hmtu, (Except.ok.inj h).symm⟩

/-- The subtraction of `configure_kcp` does not wrap. -/
theorem toInt_kcpMtu {config : BaseConfig} (h : config.Accepted) (crypt : PacketCrypt)
    (fec : FecCodec) : (config.mtu - Int32.ofNat (crypt.overhead + fec.overhead)).toInt =
      config.mtu.toInt - (crypt.overhead + fec.overhead : ℕ) := by
  have hrange := h.mtu_range
  have hcryptLe := overhead_le crypt
  have hfecLe := fecOverhead_le fec
  rw [Int32.toInt_sub, Int32.toInt_ofNat_of_lt (by omega),
    Int.bmod_eq_of_le (by omega) (by omega)]

/-- **The mtu KCP is given** leaves exactly the room the two layers need. -/
theorem create_mtu {ikcpSetmtu : Int32 → Int32} {config : BaseConfig} (haccepted : config.Accepted)
    (h : create lib ikcpSetmtu config = .ok transport) :
    transport.fec.maxShardLen = 0 ∧ transport.config = config ∧
      transport.kcpMtu.toInt + (transport.crypt.overhead + transport.fec.overhead : ℕ) =
        config.mtu.toInt := by
  obtain ⟨crypt, fec, kcpMtu, -, hfec, hmtu, rfl⟩ := create_parts h
  refine ⟨(FecCodec.create_unused hfec).2, rfl, ?_⟩
  rw [configureKcp] at hmtu
  split at hmtu
  · cases hmtu
  · obtain rfl := Except.ok.inj hmtu
    dsimp only
    rw [toInt_kcpMtu haccepted crypt fec]
    omega

/-- A segment of KCP holds 516 bytes at least: what the smallest mtu leaves after AES-GCM, the
erasure code and KCP's own header. -/
theorem create_mss {ikcpSetmtu : Int32 → Int32} {config : BaseConfig} (haccepted : config.Accepted)
    (h : create lib ikcpSetmtu config = .ok transport) :
    516 ≤ (transport.kcpMtu.toInt - 24).toNat := by
  obtain ⟨-, -, hroom⟩ := create_mtu haccepted h
  have hrange := haccepted.mtu_range
  have hcryptLe := overhead_le transport.crypt
  have hfecLe := fecOverhead_le transport.fec
  omega

/-! ### What `send` discards -/

/-- Fewer than 128 segments are as many bytes as 127 of them hold. -/
theorem fragments_lt_iff {mss length : ℕ} (hmss : 0 < mss) :
    fragments mss length < 128 ↔ length ≤ 127 * mss := by
  rw [fragments]
  split_ifs with hone
  · omega
  · rw [Nat.div_lt_iff_lt_mul hmss]
    omega

/-- The loop runs to the end and hands over the bytes in their order. Induction on the fuel: what
is left after a round is not longer than what was there before it. -/
theorem sendLoop_takes_all {κ : Type} {kcpLib : KcpLib κ} (hkcp : kcpLib.Lawful) :
    ∀ (fuel : ℕ) (kcp : κ) (bytes : Bytes), 0 < kcpLib.mss kcp → bytes.length ≤ fuel →
      bytes.length ≤ 127 * kcpLib.mss kcp →
        (sendLoop kcpLib fuel kcp bytes).1 = [] ∧ ∀ queue, kcpLib.Queues queue →
          queue (sendLoop kcpLib fuel kcp bytes).2 = queue kcp ++ bytes
  | 0, _, bytes, _, hfuel, _ => by
      obtain rfl := List.length_eq_zero_iff.mp (Nat.le_zero.mp hfuel)
      exact ⟨rfl, fun queue _ => (List.append_nil _).symm⟩
  | fuel + 1, kcp, bytes, hmss, hfuel, hfit => by
      rw [sendLoop]
      split_ifs with hnil
      · exact ⟨rfl, fun queue _ => by rw [hnil, List.append_nil]⟩
      · have htakes := hkcp.takes kcp bytes hnil ((fragments_lt_iff hmss).mpr hfit)
        have hkeeps := hkcp.mss_eq kcp bytes
        have hqueued (queue : κ → Bytes) (hqueue : kcpLib.Queues queue) :=
          hqueue kcp bytes htakes
        cases hsend : kcpLib.ikcpSend kcp bytes with
        | mk result next =>
            rw [hsend] at htakes hkeeps hqueued
            simp only [if_neg (not_le.mpr htakes)]
            obtain ⟨hall, hrest⟩ := sendLoop_takes_all hkcp fuel next (bytes.drop result.toNat)
              (by rw [hkeeps]; exact hmss) (by rw [List.length_drop]; omega)
              (by rw [hkeeps, List.length_drop]; omega)
            refine ⟨hall, fun queue hqueue => ?_⟩
            rw [hrest queue hqueue, hqueued queue hqueue, List.append_assoc,
              List.take_append_drop]

/-- **An open transport discards nothing** of bytes that need fewer than 128 segments: they are
what `ikcp_send` takes, in their order. -/
theorem send_takes_all {κ : Type} {kcpLib : KcpLib κ} (hkcp : kcpLib.Lawful) {kcp : κ}
    {bytes : Bytes} (hopen : transport.closing = false) (hmss : 0 < kcpLib.mss kcp)
    (hfit : fragments (kcpLib.mss kcp) bytes.length < 128) :
    (transport.send kcpLib kcp bytes).1 = [] ∧ ∀ queue, kcpLib.Queues queue →
      queue (transport.send kcpLib kcp bytes).2 = queue kcp ++ bytes := by
  by_cases hnil : bytes = []
  · rw [send, if_pos (Or.inr hnil), hnil]
    exact ⟨rfl, fun queue _ => (List.append_nil _).symm⟩
  · rw [send, if_neg (by simp [hopen, hnil])]
    exact sendLoop_takes_all hkcp _ kcp bytes hmss le_rfl ((fragments_lt_iff hmss).mp hfit)

/-! ### What a run keeps -/

/-- The state of a run in which KCP keeps to its mtu: the parts the sizes depend on are those
of the transport as it was created, the encoder's running maximum is bounded, and everything
that was sent fits. -/
structure Fits (created : KcpTransport) (bound : ℕ) (progress : Progress) : Prop where
  crypt_eq : progress.transport.crypt = created.crypt
  enabled_eq : progress.transport.fec.enabled = created.fec.enabled
  maxLen_le : progress.transport.fec.maxShardLen ≤ bound + 2
  encoded_le : ∀ packet ∈ progress.encoded, packet.length ≤ bound
  enqueued_le : ∀ datagram ∈ progress.enqueued,
    datagram.length ≤ bound + created.fec.overhead + created.crypt.overhead

/-- Scheduling touches neither the encryption nor the erasure code. -/
theorem scheduleRateLimitedSend_frame (now : ℕ) :
    (transport.scheduleRateLimitedSend now).crypt = transport.crypt ∧
    (transport.scheduleRateLimitedSend now).fec = transport.fec := by
  rw [scheduleRateLimitedSend]
  split <;> exact ⟨rfl, rfl⟩

/-- Nor does enqueueing. -/
theorem enqueueUdpPacket_frame (payload : Bytes) (now : ℕ) :
    (transport.enqueueUdpPacket payload now).crypt = transport.crypt ∧
    (transport.enqueueUdpPacket payload now).fec = transport.fec := by
  rw [enqueueUdpPacket]
  split
  · exact ⟨rfl, rfl⟩
  · exact scheduleRateLimitedSend_frame now

/-- Nor does the rate timer. -/
theorem rateTimerFired_frame (error : Bool) (sentAt rescheduledAt : ℕ) :
    (transport.rateTimerFired error sentAt rescheduledAt).crypt = transport.crypt ∧
    (transport.rateTimerFired error sentAt rescheduledAt).fec = transport.fec := by
  rw [rateTimerFired]
  dsimp only
  split
  · exact ⟨rfl, rfl⟩
  · cases transport.pendingUdp with
    | nil => exact ⟨rfl, rfl⟩
    | cons payload pending => exact scheduleRateLimitedSend_frame rescheduledAt

/-- Nor does an arriving datagram touch the encryption, and of the erasure code it touches the
decoder only. -/
theorem input_frame {packet : Bytes} {packets : List Bytes} {after : KcpTransport}
    (h : transport.input packet = .ok (packets, after)) :
    after.crypt = transport.crypt ∧ after.fec.enabled = transport.fec.enabled ∧
    after.fec.maxShardLen = transport.fec.maxShardLen := by
  rw [input] at h
  by_cases hignored : transport.closing ∨ packet = []
  · rw [if_pos hignored] at h
    obtain ⟨-, rfl⟩ := Prod.mk.inj (Except.ok.inj h)
    exact ⟨rfl, rfl, rfl⟩
  · rw [if_neg hignored] at h
    cases hdecode : transport.fec.decode packet with
    | error message =>
        rw [hdecode] at h
        cases h
    | ok decoded =>
        rw [hdecode] at h
        obtain ⟨-, rfl⟩ := Prod.mk.inj (Except.ok.inj h)
        have hframe := FecCodec.decode_frame hdecode
        refine ⟨rfl, ?_, ?_⟩
        · exact (congrArg FecCodec.enabled hframe).trans rfl
        · exact (congrArg FecCodec.maxShardLen hframe).trans rfl

/-- The loop touches neither the encryption nor the erasure code. -/
theorem encryptAndEnqueue_frame (now : ℕ) (packets : List (Bytes × Vector UInt8 16)) :
    (encryptAndEnqueue lib now packets transport).2.crypt = transport.crypt ∧
    (encryptAndEnqueue lib now packets transport).2.fec = transport.fec := by
  induction packets generalizing transport with
  | nil => exact ⟨rfl, rfl⟩
  | cons packet packets ih =>
      obtain ⟨packet, nonce⟩ := packet
      rw [encryptAndEnqueue]
      cases transport.crypt.encrypt lib nonce packet with
      | error message => exact ⟨rfl, rfl⟩
      | ok payload =>
          obtain ⟨hcrypt, hfec⟩ := @enqueueUdpPacket_frame transport payload now
          obtain ⟨hcrypt', hfec'⟩ := @ih (transport.enqueueUdpPacket payload now)
          exact ⟨hcrypt'.trans hcrypt, hfec'.trans hfec⟩

/-- Each datagram of the loop is the encryption of one of the packets. -/
theorem encryptAndEnqueue_datagrams (now : ℕ) (packets : List (Bytes × Vector UInt8 16)) :
    ∀ datagram ∈ (encryptAndEnqueue lib now packets transport).1,
      ∃ packet ∈ packets, transport.crypt.encrypt lib packet.2 packet.1 = .ok datagram := by
  induction packets generalizing transport with
  | nil => exact fun datagram hdatagram => absurd hdatagram List.not_mem_nil
  | cons packet packets ih =>
      obtain ⟨packet, nonce⟩ := packet
      rw [encryptAndEnqueue]
      cases hencrypt : transport.crypt.encrypt lib nonce packet with
      | error message => exact fun datagram hdatagram => absurd hdatagram List.not_mem_nil
      | ok payload =>
          intro datagram hdatagram
          rcases List.mem_cons.mp hdatagram with rfl | hdatagram
          · exact ⟨(packet, nonce), List.mem_cons_self, hencrypt⟩
          · obtain ⟨p, hp, hsent⟩ := ih datagram hdatagram
            rw [(@enqueueUdpPacket_frame transport payload now).1] at hsent
            exact ⟨p, List.mem_cons_of_mem _ hp, hsent⟩

/-- With a method that never fails, each of the packets becomes a datagram. -/
theorem exists_datagram_encryptAndEnqueue (now : ℕ) (packets : List (Bytes × Vector UInt8 16))
    (htotal : ∀ nonce packet, ∃ datagram, transport.crypt.encrypt lib nonce packet = .ok datagram) :
    ∀ packet ∈ packets, ∃ datagram ∈ (encryptAndEnqueue lib now packets transport).1,
      transport.crypt.encrypt lib packet.2 packet.1 = .ok datagram := by
  induction packets generalizing transport with
  | nil => exact fun packet hpacket => absurd hpacket List.not_mem_nil
  | cons packet packets ih =>
      obtain ⟨packet, nonce⟩ := packet
      obtain ⟨payload, hpayload⟩ := htotal nonce packet
      obtain ⟨hcrypt, -⟩ := @enqueueUdpPacket_frame transport payload now
      have hrest := @ih (transport.enqueueUdpPacket payload now) (hcrypt ▸ htotal)
      rw [encryptAndEnqueue, hpayload]
      intro p hp
      rcases List.mem_cons.mp hp with rfl | hp
      · exact ⟨payload, List.mem_cons_self, hpayload⟩
      · obtain ⟨datagram, hdatagram, hsent⟩ := hrest p hp
        exact ⟨datagram, List.mem_cons_of_mem _ hdatagram, hcrypt ▸ hsent⟩

/-- Sending changes the encoder only. -/
theorem sendUdp_frame (buffer : Bytes) (currentMillis : UInt32) (nonces : ℕ → Vector UInt8 16)
    (now : ℕ) :
    (transport.sendUdp lib buffer currentMillis nonces now).2.crypt = transport.crypt ∧
    (transport.sendUdp lib buffer currentMillis nonces now).2.fec =
      (transport.fec.encode buffer currentMillis).2 :=
  encryptAndEnqueue_frame now _

/-- Each datagram sent is the encryption of a packet of the erasure code. -/
theorem sendUdp_datagrams (buffer : Bytes) (currentMillis : UInt32)
    (nonces : ℕ → Vector UInt8 16) (now : ℕ) :
    ∀ datagram ∈ (transport.sendUdp lib buffer currentMillis nonces now).1,
      ∃ packet ∈ (transport.fec.encode buffer currentMillis).1, ∃ nonce,
        transport.crypt.encrypt lib nonce packet = .ok datagram := by
  intro datagram hdatagram
  obtain ⟨packet, hpacket, hsent⟩ := encryptAndEnqueue_datagrams now _ datagram hdatagram
  obtain ⟨i, hi, rfl⟩ := List.mem_mapIdx.mp hpacket
  exact ⟨_, List.getElem_mem hi, nonces i, hsent⟩

/-- With a method that never fails, each packet of the erasure code becomes a datagram. -/
theorem exists_datagram_sendUdp (buffer : Bytes) (currentMillis : UInt32)
    (nonces : ℕ → Vector UInt8 16) (now : ℕ)
    (htotal : ∀ nonce packet, ∃ datagram, transport.crypt.encrypt lib nonce packet = .ok datagram) :
    ∀ packet ∈ (transport.fec.encode buffer currentMillis).1,
      ∃ datagram ∈ (transport.sendUdp lib buffer currentMillis nonces now).1, ∃ nonce,
        transport.crypt.encrypt lib nonce packet = .ok datagram := by
  intro packet hpacket
  obtain ⟨i, hi, rfl⟩ := List.mem_iff_getElem.mp hpacket
  obtain ⟨datagram, hdatagram, hsent⟩ := @exists_datagram_encryptAndEnqueue lib
    { transport with fec := (transport.fec.encode buffer currentMillis).2 } now
    ((transport.fec.encode buffer currentMillis).1.mapIdx fun i packet => (packet, nonces i))
    htotal _ (List.mem_mapIdx.mpr ⟨i, hi, rfl⟩)
  exact ⟨datagram, hdatagram, nonces i, hsent⟩

/-- What an event does to what has been sent: an output of KCP is encoded and encrypted, and
every other event leaves the packets, the datagrams, the encryption and the encoder as they
are. -/
theorem step_cases {progress after : Progress} {event : Event}
    (h : step lib progress event = some after) :
    (∃ buffer currentMillis nonces now, event = .output buffer currentMillis nonces now ∧
      after =
        { transport := (progress.transport.sendUdp lib buffer currentMillis nonces now).2
          encoded := progress.encoded ++ [buffer]
          enqueued := progress.enqueued ++
            (progress.transport.sendUdp lib buffer currentMillis nonces now).1 }) ∨
    (after.encoded = progress.encoded ∧ after.enqueued = progress.enqueued ∧
      after.transport.crypt = progress.transport.crypt ∧
      after.transport.fec.enabled = progress.transport.fec.enabled ∧
      after.transport.fec.maxShardLen = progress.transport.fec.maxShardLen) := by
  cases event with
  | output buffer currentMillis nonces now =>
      rw [step] at h
      split at h
      · obtain rfl := Option.some.inj h
        exact .inr ⟨rfl, rfl, rfl, rfl, rfl⟩
      · exact .inl ⟨buffer, currentMillis, nonces, now, rfl, (Option.some.inj h).symm⟩
  | input packet =>
      rw [step] at h
      cases hinput : progress.transport.input packet with
      | error message =>
          rw [hinput] at h
          cases h
      | ok received =>
          rw [hinput] at h
          obtain rfl := Option.some.inj h
          exact .inr ⟨rfl, rfl, input_frame hinput⟩
  | rateTimer error sentAt rescheduledAt =>
      rw [step] at h
      split at h
      · obtain rfl := Option.some.inj h
        obtain ⟨hcrypt, hfec⟩ := @rateTimerFired_frame progress.transport error sentAt
          rescheduledAt
        exact .inr ⟨rfl, rfl, hcrypt, congrArg FecCodec.enabled hfec,
          congrArg FecCodec.maxShardLen hfec⟩
      · cases h
  | close =>
      obtain rfl := Option.some.inj h
      exact .inr ⟨rfl, rfl, rfl, rfl, rfl⟩

/-- No event touches the encryption, or whether the erasure code is enabled. -/
theorem step_frame {progress after : Progress} {event : Event}
    (h : step lib progress event = some after) :
    after.transport.crypt = progress.transport.crypt ∧
    after.transport.fec.enabled = progress.transport.fec.enabled := by
  rcases step_cases h with
    ⟨buffer, currentMillis, nonces, now, -, rfl⟩ | ⟨-, -, hcrypt, henabled, -⟩
  · obtain ⟨hcrypt, hfec⟩ := @sendUdp_frame lib progress.transport buffer currentMillis nonces now
    exact ⟨hcrypt, (congrArg FecCodec.enabled hfec).trans (FecCodec.encode_enabled ..)⟩
  · exact ⟨hcrypt, henabled⟩

/-- The packets passed to the encoder are never forgotten. -/
theorem encoded_grows {progress after : Progress} {events : List Event}
    (hrun : (machine lib).run progress events = some after) :
    progress.encoded <+: after.encoded := by
  refine EventMachine.run_invariant (I := fun reached => progress.encoded <+: reached.encoded)
    (fun reached event next hgrows hstep => ?_) (List.prefix_refl _) hrun
  rcases step_cases hstep with ⟨buffer, _, _, _, _, rfl⟩ | ⟨hencoded, -⟩
  · exact hgrows.trans (List.prefix_append _ _)
  · rw [hencoded]
    exact hgrows

/-- **One event** keeps the sizes, as long as no packet that is encoded exceeds the bound. -/
theorem Fits.step {created : KcpTransport} {bound : ℕ} {progress after : Progress} {event : Event}
    (h : Fits created bound progress) (hencoded : ∀ packet ∈ after.encoded, packet.length ≤ bound)
    (hstep : step lib progress event = some after) : Fits created bound after := by
  obtain ⟨hcrypt, henabled⟩ := step_frame hstep
  rcases step_cases hstep with
    ⟨buffer, currentMillis, nonces, now, -, rfl⟩ | ⟨-, hsent, -, -, hmax⟩
  · obtain ⟨-, hfec⟩ := @sendUdp_frame lib progress.transport buffer currentMillis nonces now
    obtain ⟨-, hmax, hsizes⟩ := progress.transport.fec.encode_sizes currentMillis
      (hencoded buffer (List.mem_append_right _ (List.mem_singleton_self _))) h.maxLen_le
    refine ⟨hcrypt.trans h.crypt_eq, henabled.trans h.enabled_eq,
      (congrArg FecCodec.maxShardLen hfec).trans_le hmax, hencoded, fun datagram hdatagram => ?_⟩
    rcases List.mem_append.mp hdatagram with hdatagram | hdatagram
    · exact h.enqueued_le datagram hdatagram
    · obtain ⟨packet, hpacket, nonce, hencrypt⟩ :=
        sendUdp_datagrams buffer currentMillis nonces now datagram hdatagram
      have hsize := hsizes packet hpacket
      rw [PacketCrypt.length_encrypt hencrypt, h.crypt_eq,
        ← FecCodec.overhead_congr h.enabled_eq]
      omega
  · exact ⟨hcrypt.trans h.crypt_eq, henabled.trans h.enabled_eq, hmax.trans_le h.maxLen_le,
      hencoded, fun datagram hdatagram => h.enqueued_le datagram (hsent ▸ hdatagram)⟩

/-- **A run** keeps the sizes. -/
theorem Fits.run {created : KcpTransport} {bound : ℕ} {events : List Event}
    {progress after : Progress} (h : Fits created bound progress)
    (hencoded : ∀ packet ∈ after.encoded, packet.length ≤ bound)
    (hrun : (machine lib).run progress events = some after) : Fits created bound after := by
  induction events generalizing progress with
  | nil =>
      obtain rfl := Option.some.inj hrun
      exact h
  | cons event events ih =>
      obtain ⟨next, hstep, hrest⟩ := ((machine lib).run_cons_eq_some).mp hrun
      have hgrows := encoded_grows hrest
      exact ih (h.step (fun p hp => hencoded p (hgrows.subset hp)) hstep) hrest

/-- A transport starts with nothing sent. -/
theorem Fits.start {created : KcpTransport} (h : created.fec.maxShardLen = 0) (bound : ℕ) :
    Fits created bound { transport := created } :=
  ⟨rfl, rfl, by simp [h], fun _ h => absurd h List.not_mem_nil,
    fun _ h => absurd h List.not_mem_nil⟩

/-- When KCP keeps to its mtu, so do the packets that are encoded. -/
theorem encoded_le_of_withinMtu {mtu : Int32} {events : List Event} {progress after : Progress}
    (h : ∀ packet ∈ progress.encoded, (packet.length : ℤ) ≤ mtu.toInt)
    (hmtu : ∀ event ∈ events, event.WithinMtu mtu)
    (hrun : (machine lib).run progress events = some after) :
    ∀ packet ∈ after.encoded, (packet.length : ℤ) ≤ mtu.toInt := by
  induction events generalizing progress with
  | nil =>
      obtain rfl := Option.some.inj hrun
      exact h
  | cons event events ih =>
      obtain ⟨next, hstep, hrest⟩ := ((machine lib).run_cons_eq_some).mp hrun
      refine ih ?_ (fun e he => hmtu e (List.mem_cons_of_mem _ he)) hrest
      rcases step_cases hstep with ⟨buffer, _, _, _, rfl, rfl⟩ | ⟨hencoded, -⟩
      · intro packet hpacket
        rcases List.mem_append.mp hpacket with hpacket | hpacket
        · exact h packet hpacket
        · obtain rfl := List.mem_singleton.mp hpacket
          exact hmtu _ List.mem_cons_self
      · rw [hencoded]
        exact h

/-- **Every datagram fits the mtu.** In every run of a transport of an accepted configuration
in which KCP keeps to the mtu it was given: no datagram, with data or with parity, is longer
than the configured mtu, and with the erasure code on, the size of every packet that is
encoded, with two added, fits the 16-bit size field. -/
theorem datagram_fits (lib : CryptoLib) (ikcpSetmtu : Int32 → Int32) (config : BaseConfig)
    (haccepted : config.Accepted) (transport : KcpTransport)
    (hcreate : create lib ikcpSetmtu config = .ok transport) (events : List Event)
    (hmtu : ∀ event ∈ events, event.WithinMtu transport.kcpMtu) (progress : Progress)
    (hrun : (machine lib).run { transport } events = some progress) :
    (∀ datagram ∈ progress.enqueued, (datagram.length : ℤ) ≤ config.mtu.toInt) ∧
    (transport.fec.enabled = true → ∀ packet ∈ progress.encoded, packet.length + 2 < 2 ^ 16) := by
  obtain ⟨hmaxLen, -, hroom⟩ := create_mtu haccepted hcreate
  have hrange := haccepted.mtu_range
  have hcryptLe := overhead_le transport.crypt
  have hfecLe := fecOverhead_le transport.fec
  have hpackets := encoded_le_of_withinMtu (fun _ h => absurd h List.not_mem_nil) hmtu hrun
  have hfits := (Fits.start hmaxLen transport.kcpMtu.toInt.toNat).run
    (fun packet hpacket => by have hle := hpackets packet hpacket; omega) hrun
  refine ⟨fun datagram hdatagram => ?_, fun henabled packet hpacket => ?_⟩
  · have hle := hfits.enqueued_le datagram hdatagram
    omega
  · have hle := hfits.encoded_le packet hpacket
    have hoverhead : transport.fec.overhead = 8 := by
      rw [FecCodec.overhead, if_pos henabled]
      rfl
    omega

/-- Two data packets and their parity packet, with the header of a method in front. -/
theorem group_of_two_fits :
    ∃ transport progress,
      create withoutLibrary (fun _ => 0) { crypt := "none", datashard := 2, parityshard := 1 } =
        .ok transport ∧
      (machine withoutLibrary).run { transport }
        [.output [1, 2, 3] 5 (fun _ => Vector.replicate 16 0) 0,
          .output [9] 10 (fun _ => Vector.replicate 16 0) 1] = some progress ∧
      progress.enqueued.map List.length = [31, 29, 31] ∧
      (∀ datagram ∈ progress.enqueued, (datagram.length : ℤ) ≤ 1350) ∧
      ∀ packet ∈ progress.encoded, packet.length + 2 < 2 ^ 16 := by
  obtain ⟨transport, hcreate⟩ : ∃ transport, create withoutLibrary (fun _ => 0)
      { crypt := "none", datashard := 2, parityshard := 1 } = .ok transport := ⟨_, rfl⟩
  have htransport : transport =
      { config := { crypt := "none", datashard := 2, parityshard := 1 }
        crypt := { method := .none }
        fec :=
          { dataShards := 2, parityShards := 1, shardSize := 3, enabled := true, paws := 4294967295
            encodeShards := [[], []], rs := ⟨2, 1, 3, [[1, 0], [0, 1], [3, 2]]⟩ }
        kcpMtu := 1322 } := (Except.ok.inj hcreate).symm
  obtain ⟨progress, hrun, hlengths⟩ : ∃ progress, (machine withoutLibrary).run { transport }
      [.output [1, 2, 3] 5 (fun _ => Vector.replicate 16 0) 0,
        .output [9] 10 (fun _ => Vector.replicate 16 0) 1] = some progress ∧
      progress.enqueued.map List.length = [31, 29, 31] := by
    rw [htransport]
    exact ⟨_, rfl, rfl⟩
  obtain ⟨hdatagrams, hpackets⟩ := datagram_fits withoutLibrary (fun _ => 0)
    { crypt := "none", datashard := 2, parityshard := 1 } (by decide) transport hcreate _
    (by
      rw [htransport]
      decide) progress hrun
  exact ⟨transport, progress, hcreate, hrun, hlengths, hdatagrams,
    hpackets (by rw [htransport])⟩

/-- Without the erasure code there is no size field, and a packet as long as the mtu would not
fit one. -/
theorem largest_packet_beyond_size_field :
    ∃ config transport progress,
      BaseConfig.Accepted config ∧ config.datashard.toInt + config.parityshard.toInt ≤ 256 ∧
      create withoutLibrary (fun _ => 0) config = .ok transport ∧
      (machine withoutLibrary).run { transport }
        [.output (List.replicate 65535 0) 5 (fun _ => Vector.replicate 16 0) 0] = some progress ∧
      ((List.replicate 65535 (0 : UInt8)).length : ℤ) ≤ transport.kcpMtu.toInt ∧
      ∃ packet ∈ progress.encoded, ¬ packet.length + 2 < 2 ^ 16 := by
  obtain ⟨buffer, hbuffer⟩ : ∃ buffer : Bytes, buffer = List.replicate 65535 0 := ⟨_, rfl⟩
  have hlength : buffer.length = 65535 := by rw [hbuffer, List.length_replicate]
  have hne : buffer ≠ [] := fun hnil => by
    rw [hnil] at hlength
    exact absurd hlength (by decide)
  obtain ⟨transport, hcreate⟩ : ∃ transport, create withoutLibrary (fun _ => 0)
      { mtu := 65535, crypt := "null", datashard := 0, parityshard := 0 } = .ok transport :=
    ⟨_, rfl⟩
  have hmtu : transport.kcpMtu.toInt = 65535 ∧ transport.closing = false := by
    obtain rfl := Except.ok.inj hcreate
    exact ⟨rfl, rfl⟩
  obtain ⟨progress, hrun, hencoded⟩ : ∃ progress, (machine withoutLibrary).run { transport }
      [.output buffer 5 (fun _ => Vector.replicate 16 0) 0] = some progress ∧
      progress.encoded = [buffer] := by
    obtain ⟨sent, hsent⟩ : ∃ sent, sent = transport.sendUdp withoutLibrary buffer 5
      (fun _ => Vector.replicate 16 0) 0 := ⟨_, rfl⟩
    refine ⟨{ transport := sent.2, encoded := [buffer], enqueued := sent.1 }, ?_, rfl⟩
    have hopen : ¬ (transport.closing = true ∨ buffer = []) := by simp [hmtu.2, hne]
    rw [EventMachine.run_cons, show (machine withoutLibrary).step = step withoutLibrary from rfl,
      step, if_neg hopen, ← hsent]
    rfl
  rw [← hbuffer, hlength]
  refine ⟨{ mtu := 65535, crypt := "null", datashard := 0, parityshard := 0 }, transport, progress,
    by decide, by decide, hcreate, hrun, hmtu.1.ge, buffer, ?_, by omega⟩
  rw [hencoded]
  exact List.mem_singleton_self _

end KcpTransport

end Shimakaze
