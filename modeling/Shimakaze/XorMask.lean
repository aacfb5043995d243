import Shimakaze.KcpTransport

/-!
# What the Xor Method Hides

The method `xor` adds a table to a packet and its header, byte by byte. The table is derived
from the key and has `mtu_limit` bytes, which is less than the largest mtu a configuration may
ask for, and `xor_crypt` leaves the bytes behind the end of the table as they are. A byte is
*masked* when it is sent with a byte of the table added, at a position of the table that does
not depend on what is in the table: a table with a zero in it does not hide what it is not
added to.

## Main results

* `PacketCrypt.masked_iff`: a packet is masked exactly when it and its header are no longer than
  the table.
* `KcpTransport.run_masked_iff`: the datagrams of a run are masked exactly when KCP outputs
  nothing that is too long for the table.
* `KcpTransport.masked_throughout_iff`: a packet, a run and a configuration are masked exactly
  when the packet, the outputs of KCP and the mtu are within these bounds.
-/

namespace Shimakaze

namespace PacketCrypt

variable {lib : CryptoLib} {config : BaseConfig}

/-- The table that is derived from a key. -/
def tableOf (lib : CryptoLib) (key : Bytes) : Bytes :=
  deriveXorTable lib (deriveKey lib key).toList

/-- The datagram that a packet becomes under a configuration. -/
def datagramFor (lib : CryptoLib) (config : BaseConfig) (nonce : Vector UInt8 16)
    (packet : Bytes) : Option Bytes :=
  (create lib config).toOption.bind fun crypt => (crypt.encrypt lib nonce packet).toOption

/-- The byte at a position of that datagram, under another key. -/
def byteAt (lib : CryptoLib) (config : BaseConfig) (key : Bytes) (nonce : Vector UInt8 16)
    (packet : Bytes) (i : ℕ) : UInt8 :=
  ((datagramFor lib { config with key } nonce packet).getD []).getD i 0

/-- No byte of a packet is sent in clear. -/
structure Masked (config : BaseConfig) (nonce : Vector UInt8 16) (packet : Bytes) : Prop where
  /-- Every byte of the datagram is the byte of the nonce, the checksum or the packet with a byte
  of the table added, for every library and key. -/
  xored : ∀ i < cryptHeaderSize + packet.length, ∃ j < mtuLimit, ∀ lib key,
    byteAt lib config key nonce packet i =
      (withHeader nonce packet).getD i 0 ^^^ (tableOf lib key).getD j 0
  /-- No position of the packet is sent independently of the key. -/
  keyed : ∀ i < packet.length, ¬ ∀ lib key key',
    byteAt lib config key nonce packet (cryptHeaderSize + i) =
      byteAt lib config key' nonce packet (cryptHeaderSize + i)

/-! ### The table -/

theorem length_tableOf (lib : CryptoLib) (key : Bytes) : (tableOf lib key).length = mtuLimit :=
  Vector.length_toList

/-- `xor_crypt` position by position: the bytes behind the end of the table stay as they are. -/
theorem getD_xorCrypt (crypt : PacketCrypt) (data : Bytes) {i : ℕ} (hi : i < data.length) :
    (crypt.xorCrypt data).getD i 0 =
      if i < crypt.xorTable.length then data.getD i 0 ^^^ crypt.xorTable.getD i 0
      else data.getD i 0 := by
  rw [xorCrypt]
  by_cases hempty : crypt.xorTable = []
  · rw [if_pos hempty, hempty]
    rfl
  rw [if_neg hempty]
  dsimp only
  set count := min data.length crypt.xorTable.length with hcount
  have hmix : (List.zipWith (· ^^^ ·) (data.take count) (crypt.xorTable.take count)).length =
      count := by
    simp only [List.length_zipWith, List.length_take]
    omega
  by_cases htable : i < crypt.xorTable.length
  · rw [if_pos htable, List.getD_append _ _ _ _ (by omega)]
    have hlt : i < count := by omega
    simp [hi, htable, hlt]
  · rw [if_neg htable, List.getD_append_right _ _ _ _ (by omega), hmix]
    have hback : count + (i - count) = i := by omega
    simp [hback]

/-! ### The method -/

/-- With the method `xor` the constructor derives the table, and nothing can fail. -/
theorem create_xor (lib : CryptoLib) (h : normalizeMethod config.crypt = "xor") :
    create lib config = .ok { method := .xorStream, xorTable := tableOf lib config.key } := by
  rw [create, h]
  rfl

/-- Behind the header stands the packet. -/
theorem getD_withHeader (nonce : Vector UInt8 16) (packet : Bytes) (i : ℕ) :
    (withHeader nonce packet).getD (cryptHeaderSize + i) 0 = packet.getD i 0 := by
  have hheader := length_header nonce packet
  rw [withHeader, List.getD_append_right _ _ _ _ (by omega), hheader, Nat.add_sub_cancel_left]

theorem datagramFor_xor (lib : CryptoLib) (h : normalizeMethod config.crypt = "xor")
    (nonce : Vector UInt8 16) (packet : Bytes) :
    datagramFor lib config nonce packet =
      some (xorCrypt { method := .xorStream, xorTable := tableOf lib config.key }
        (withHeader nonce packet)) := by
  have hencrypt := @encrypt_eq lib
    { method := .xorStream, xorTable := tableOf lib config.key } (by simp) (by simp) nonce packet
  rw [datagramFor, create_xor lib h]
  exact congrArg Except.toOption hencrypt

/-- What is sent at a position, under every key. -/
theorem byteAt_xor (lib : CryptoLib) (h : normalizeMethod config.crypt = "xor") (key : Bytes)
    (nonce : Vector UInt8 16) (packet : Bytes) {i : ℕ}
    (hi : i < cryptHeaderSize + packet.length) :
    byteAt lib config key nonce packet i =
      if i < mtuLimit then (withHeader nonce packet).getD i 0 ^^^ (tableOf lib key).getD i 0
      else (withHeader nonce packet).getD i 0 := by
  have hlength := length_withHeader nonce packet
  rw [byteAt, @datagramFor_xor { config with key } lib h, Option.getD_some,
    getD_xorCrypt _ _ (hlength ▸ hi), length_tableOf]

/-- A library whose tables repeat the first byte of the key. -/
def repeatingKey : CryptoLib :=
  { withoutLibrary with pbkdf2Sha1 := fun secret _ _ size => .replicate size (secret.headD 0) }

theorem getD_tableOf_repeatingKey (key : Bytes) {j : ℕ} (hj : j < mtuLimit) :
    (tableOf repeatingKey key).getD j 0 = key.headD 0 := by
  change (Vector.replicate mtuLimit (key.headD 0)).toList.getD j 0 = key.headD 0
  simp [hj]

/-- Adding a one changes a byte. -/
theorem xor_one_ne (byte : UInt8) : byte ^^^ 1 ≠ byte := fun h => by
  have hone : byte ^^^ (byte ^^^ 1) = byte ^^^ byte := congrArg (byte ^^^ ·) h
  rw [← UInt8.xor_assoc, UInt8.xor_self, UInt8.zero_xor] at hone
  exact absurd hone (by decide)

/-- **A packet is masked** exactly when it and its header are no longer than the table. -/
theorem masked_iff (h : normalizeMethod config.crypt = "xor") (nonce : Vector UInt8 16)
    (packet : Bytes) :
    Masked config nonce packet ↔ packet.length + cryptHeaderSize ≤ mtuLimit := by
  constructor
  · intro hmasked
    by_contra hlong
    -- the first byte behind the table is sent as it is, and a table of ones would change it
    have hsize : mtuLimit < cryptHeaderSize + packet.length := by omega
    obtain ⟨j, hj, hxored⟩ := hmasked.xored mtuLimit hsize
    have hclear := hxored repeatingKey [1]
    rw [byteAt_xor repeatingKey h [1] nonce packet hsize, if_neg (lt_irrefl _),
      getD_tableOf_repeatingKey [1] hj] at hclear
    exact xor_one_ne _ hclear.symm
  · intro hshort
    refine ⟨fun i hi => ⟨i, by omega, fun lib key => ?_⟩, fun i hi hsame => ?_⟩
    · rw [byteAt_xor lib h key nonce packet hi, if_pos (by omega)]
    · have hsize : cryptHeaderSize + i < cryptHeaderSize + packet.length := by omega
      have htable : cryptHeaderSize + i < mtuLimit := by omega
      have hkeys := hsame repeatingKey [1] [0]
      rw [byteAt_xor repeatingKey h [1] nonce packet hsize,
        byteAt_xor repeatingKey h [0] nonce packet hsize, if_pos htable, if_pos htable,
        getD_tableOf_repeatingKey [1] htable, getD_tableOf_repeatingKey [0] htable] at hkeys
      exact xor_one_ne _ (hkeys.trans UInt8.xor_zero)

end PacketCrypt

open PacketCrypt

namespace KcpTransport

variable {lib : CryptoLib}

/-! ### What a run sends -/

/-- The datagrams of a run, as encryptions: each of them is one, and every packet that is encoded
has one that is as long as it and its headers. -/
structure Encrypted (lib : CryptoLib) (created : KcpTransport) (progress : Progress) : Prop where
  crypt_eq : progress.transport.crypt = created.crypt
  enabled_eq : progress.transport.fec.enabled = created.fec.enabled
  datagrams : ∀ datagram ∈ progress.enqueued, ∃ nonce packet,
    created.crypt.encrypt lib nonce packet = .ok datagram
  buffers : ∀ buffer ∈ progress.encoded, ∃ datagram ∈ progress.enqueued,
    datagram.length = buffer.length + created.fec.overhead + created.crypt.overhead

/-- **One event** keeps that, with a method that never fails. -/
theorem Encrypted.step {created : KcpTransport}
    (htotal : ∀ nonce packet, ∃ datagram, created.crypt.encrypt lib nonce packet = .ok datagram)
    {progress after : Progress} {event : Event} (h : Encrypted lib created progress)
    (hstep : step lib progress event = some after) : Encrypted lib created after := by
  obtain ⟨hcrypt, henabled⟩ := step_frame hstep
  rcases step_cases hstep with
    ⟨buffer, currentMillis, nonces, now, -, rfl⟩ | ⟨hpackets, hsent, -, -, -⟩
  · refine ⟨hcrypt.trans h.crypt_eq, henabled.trans h.enabled_eq,
      fun datagram hdatagram => ?_, fun packet hpacket => ?_⟩
    · rcases List.mem_append.mp hdatagram with hdatagram | hdatagram
      · exact h.datagrams datagram hdatagram
      · obtain ⟨packet, -, nonce, hencrypt⟩ :=
          sendUdp_datagrams buffer currentMillis nonces now datagram hdatagram
        exact ⟨nonce, packet, h.crypt_eq ▸ hencrypt⟩
    · rcases List.mem_append.mp hpacket with hpacket | hpacket
      · obtain ⟨datagram, hdatagram, hlength⟩ := h.buffers packet hpacket
        exact ⟨datagram, List.mem_append_left _ hdatagram, hlength⟩
      · obtain rfl := List.mem_singleton.mp hpacket
        obtain ⟨sent, hsent, hlength⟩ :=
          progress.transport.fec.exists_encoded packet currentMillis
        obtain ⟨datagram, hdatagram, nonce, hencrypt⟩ := exists_datagram_sendUdp packet
          currentMillis nonces now (h.crypt_eq.symm ▸ htotal) sent hsent
        refine ⟨datagram, List.mem_append_right _ hdatagram, ?_⟩
        rw [PacketCrypt.length_encrypt hencrypt, hlength, h.crypt_eq,
          FecCodec.overhead_congr h.enabled_eq]
  · refine ⟨hcrypt.trans h.crypt_eq, henabled.trans h.enabled_eq, ?_, ?_⟩
    · rw [hsent]
      exact h.datagrams
    · rw [hpackets, hsent]
      exact h.buffers

/-- **A run** keeps it. -/
theorem Encrypted.run {created : KcpTransport}
    (htotal : ∀ nonce packet, ∃ datagram, created.crypt.encrypt lib nonce packet = .ok datagram)
    {events : List Event} {progress : Progress}
    (hrun : (machine lib).run { transport := created } events = some progress) :
    Encrypted lib created progress :=
  EventMachine.run_invariant (fun _ _ _ h hstep => h.step htotal hstep)
    ⟨rfl, rfl, fun _ h => absurd h List.not_mem_nil, fun _ h => absurd h List.not_mem_nil⟩ hrun

/-- What a transport encrypts is what its configuration makes of the packet. -/
theorem datagramFor_of_encrypt {ikcpSetmtu : Int32 → Int32} {config : BaseConfig}
    {transport : KcpTransport} (hcreate : create lib ikcpSetmtu config = .ok transport)
    {nonce : Vector UInt8 16} {packet datagram : Bytes}
    (h : transport.crypt.encrypt lib nonce packet = .ok datagram) :
    datagramFor lib config nonce packet = some datagram := by
  obtain ⟨crypt, fec, kcpMtu, hcrypt, -, -, rfl⟩ := create_parts hcreate
  rw [datagramFor, hcrypt]
  exact congrArg Except.toOption h

/-- The parts of a transport with the method `xor`: the header is its overhead, and its
encryption never fails. -/
theorem create_xor_parts {ikcpSetmtu : Int32 → Int32} {config : BaseConfig}
    (hxor : normalizeMethod config.crypt = "xor") {transport : KcpTransport}
    (hcreate : create lib ikcpSetmtu config = .ok transport) :
    transport.crypt.overhead = cryptHeaderSize ∧
    ∀ nonce packet, ∃ datagram, transport.crypt.encrypt lib nonce packet = .ok datagram := by
  obtain ⟨crypt, fec, kcpMtu, hcrypt, -, -, rfl⟩ := create_parts hcreate
  obtain rfl := Except.ok.inj ((create_xor lib hxor).symm.trans hcrypt)
  exact ⟨rfl, fun nonce packet => ⟨_, encrypt_eq (by simp) (by simp) nonce packet⟩⟩

/-- A datagram is a packet that no byte of which is sent in clear. -/
def SentMasked (lib : CryptoLib) (config : BaseConfig) (datagram : Bytes) : Prop :=
  ∃ nonce packet, datagramFor lib config nonce packet = some datagram ∧
    Masked config nonce packet

/-- A datagram is masked exactly when it is no longer than the table. -/
theorem sentMasked_iff {ikcpSetmtu : Int32 → Int32} {config : BaseConfig}
    (hxor : normalizeMethod config.crypt = "xor") {transport : KcpTransport}
    (hcreate : create lib ikcpSetmtu config = .ok transport) {datagram : Bytes}
    (h : ∃ nonce packet, transport.crypt.encrypt lib nonce packet = .ok datagram) :
    SentMasked lib config datagram ↔ datagram.length ≤ mtuLimit := by
  obtain ⟨hoverhead, htotal⟩ := create_xor_parts hxor hcreate
  have hlength : ∀ {nonce packet}, datagramFor lib config nonce packet = some datagram →
      datagram.length = packet.length + cryptHeaderSize := by
    intro nonce packet hfor
    obtain ⟨sent, hsent⟩ := htotal nonce packet
    obtain rfl := Option.some.inj ((datagramFor_of_encrypt hcreate hsent).symm.trans hfor)
    rw [PacketCrypt.length_encrypt hsent, hoverhead]
  constructor
  · rintro ⟨nonce, packet, hfor, hmasked⟩
    rw [hlength hfor]
    exact (masked_iff hxor nonce packet).mp hmasked
  · intro hshort
    obtain ⟨nonce, packet, hencrypt⟩ := h
    have hfor := datagramFor_of_encrypt hcreate hencrypt
    exact ⟨nonce, packet, hfor, (masked_iff hxor nonce packet).mpr (hlength hfor ▸ hshort)⟩

/-- The datagrams of a run are masked exactly when every packet that KCP outputs fits the table
with its headers. -/
theorem run_masked_iff {ikcpSetmtu : Int32 → Int32} {config : BaseConfig}
    (hxor : normalizeMethod config.crypt = "xor") {transport : KcpTransport}
    (hcreate : create lib ikcpSetmtu config = .ok transport) {events : List Event}
    {progress : Progress} (hrun : (machine lib).run { transport } events = some progress) :
    (∀ datagram ∈ progress.enqueued, SentMasked lib config datagram) ↔
      ∀ buffer ∈ progress.encoded,
        buffer.length + transport.fec.overhead + cryptHeaderSize ≤ mtuLimit := by
  obtain ⟨hoverhead, htotal⟩ := create_xor_parts hxor hcreate
  have hencrypted := Encrypted.run htotal hrun
  constructor
  · intro hmasked buffer hbuffer
    obtain ⟨datagram, hdatagram, hlength⟩ := hencrypted.buffers buffer hbuffer
    have hshort := (sentMasked_iff hxor hcreate (hencrypted.datagrams datagram hdatagram)).mp
      (hmasked datagram hdatagram)
    omega
  · intro hshort datagram hdatagram
    refine (sentMasked_iff hxor hcreate (hencrypted.datagrams datagram hdatagram)).mpr ?_
    have hsizes : mtuLimit = 1500 ∧ cryptHeaderSize = 20 := ⟨rfl, rfl⟩
    have hfecLe := fecOverhead_le transport.fec
    have hmax : transport.fec.maxShardLen = 0 := by
      obtain ⟨_, _, _, -, hfec, -, rfl⟩ := create_parts hcreate
      exact (FecCodec.create_unused hfec).2
    have hfits := (Fits.start hmax (mtuLimit - cryptHeaderSize - transport.fec.overhead)).run
      (fun buffer hbuffer => by have hle := hshort buffer hbuffer; omega) hrun
    have hle := hfits.enqueued_le datagram hdatagram
    omega

/-- A single output of KCP on an open transport is a run. -/
theorem run_output (lib : CryptoLib) {transport : KcpTransport} {buffer : Bytes}
    (hopen : transport.closing = false) (hne : buffer ≠ []) (currentMillis : UInt32)
    (nonces : ℕ → Vector UInt8 16) (now : ℕ) :
    (machine lib).run { transport } [.output buffer currentMillis nonces now] =
      some
        { transport := (transport.sendUdp lib buffer currentMillis nonces now).2
          encoded := [buffer]
          enqueued := (transport.sendUdp lib buffer currentMillis nonces now).1 } := by
  have hignored : ¬ (transport.closing = true ∨ buffer = []) := by simp [hopen, hne]
  rw [EventMachine.run_cons, show (machine lib).step = step lib from rfl, step, if_neg hignored]
  rfl

/-- **What the method `xor` masks.** For a transport of an accepted configuration: a packet is
masked exactly when it is at most 1480 bytes long, which with its header is the length of the
table; all datagrams of a run are masked exactly when every packet that KCP outputs is no longer
than that with the header of the erasure code; and all runs in which KCP keeps to its mtu are
masked throughout exactly when the configured mtu is at most 1500. -/
theorem masked_throughout_iff (lib : CryptoLib) (ikcpSetmtu : Int32 → Int32) (config : BaseConfig)
    (haccepted : config.Accepted) (hxor : normalizeMethod config.crypt = "xor")
    (transport : KcpTransport) (hcreate : create lib ikcpSetmtu config = .ok transport) :
    (∀ nonce packet, Masked config nonce packet ↔ packet.length ≤ 1480) ∧
    (∀ events progress, (machine lib).run { transport } events = some progress →
      ((∀ datagram ∈ progress.enqueued, SentMasked lib config datagram) ↔
        ∀ buffer ∈ progress.encoded, buffer.length + transport.fec.overhead ≤ 1480)) ∧
    ((∀ events progress, (∀ event ∈ events, event.WithinMtu transport.kcpMtu) →
      (machine lib).run { transport } events = some progress →
      ∀ datagram ∈ progress.enqueued, SentMasked lib config datagram) ↔
        config.mtu.toInt ≤ 1500) := by
  have hsizes : mtuLimit = 1500 ∧ cryptHeaderSize = 20 := ⟨rfl, rfl⟩
  obtain ⟨-, -, hroom⟩ := create_mtu haccepted hcreate
  obtain ⟨hoverhead, -⟩ := create_xor_parts hxor hcreate
  have hrange := haccepted.mtu_range
  have hfecLe := fecOverhead_le transport.fec
  have hrunIff : ∀ events progress, (machine lib).run { transport } events = some progress →
      ((∀ datagram ∈ progress.enqueued, SentMasked lib config datagram) ↔
        ∀ buffer ∈ progress.encoded, buffer.length + transport.fec.overhead ≤ 1480) := by
    intro events progress hrun
    rw [run_masked_iff hxor hcreate hrun]
    exact forall₂_congr fun buffer _ => by omega
  refine ⟨fun nonce packet => ?_, hrunIff, ?_, ?_⟩
  · rw [masked_iff hxor nonce packet]
    omega
  · intro hall
    -- one output of KCP that is as long as its mtu allows
    obtain ⟨buffer, hlength⟩ : ∃ buffer : Bytes, (buffer.length : ℤ) = transport.kcpMtu.toInt :=
      ⟨List.replicate transport.kcpMtu.toInt.toNat 0, by rw [List.length_replicate]; omega⟩
    have hopen : transport.closing = false := by
      obtain ⟨_, _, _, -, -, -, rfl⟩ := create_parts hcreate
      rfl
    have hne : buffer ≠ [] := fun hnil => by
      rw [hnil] at hlength
      simp only [List.length_nil] at hlength
      omega
    have hrun := run_output lib hopen hne 0 (fun _ => Vector.replicate 16 0) 0
    have hwithin : ∀ event ∈ [Event.output buffer 0 (fun _ => Vector.replicate 16 0) 0],
        event.WithinMtu transport.kcpMtu := by
      intro event hevent
      obtain rfl := List.mem_singleton.mp hevent
      exact hlength.le
    have hshort := (hrunIff _ _ hrun).mp (hall _ _ hwithin hrun) buffer
      (List.mem_singleton_self _)
    omega
  · intro hmtu events progress hwithin hrun
    refine (hrunIff events progress hrun).mpr fun buffer hbuffer => ?_
    have hle := encoded_le_of_withinMtu (fun _ h => absurd h List.not_mem_nil) hwithin hrun
      buffer hbuffer
    omega

/-- Two data packets and their parity packet, well within the table. -/
theorem group_of_two_masked :
    ∃ transport progress,
      create repeatingKey (fun _ => 0) { crypt := "xor", datashard := 2, parityshard := 1 } =
        .ok transport ∧
      (machine repeatingKey).run { transport }
        [.output [1, 2, 3] 5 (fun _ => Vector.replicate 16 0) 0,
          .output [9] 10 (fun _ => Vector.replicate 16 0) 1] = some progress ∧
      progress.enqueued.length = 3 ∧
      ∀ datagram ∈ progress.enqueued,
        SentMasked repeatingKey { crypt := "xor", datashard := 2, parityshard := 1 } datagram := by
  obtain ⟨transport, hcreate⟩ : ∃ transport, create repeatingKey (fun _ => 0)
      { crypt := "xor", datashard := 2, parityshard := 1 } = .ok transport := ⟨_, rfl⟩
  have htransport : transport =
      { config := { crypt := "xor", datashard := 2, parityshard := 1 }
        crypt := { method := .xorStream, xorTable := List.replicate 1500 105 }
        fec :=
          { dataShards := 2, parityShards := 1, shardSize := 3, enabled := true, paws := 4294967295
            encodeShards := [[], []], rs := ⟨2, 1, 3, [[1, 0], [0, 1], [3, 2]]⟩ }
        kcpMtu := 1322 } := (Except.ok.inj hcreate).symm
  obtain ⟨progress, hrun, hlengths⟩ : ∃ progress, (machine repeatingKey).run { transport }
      [.output [1, 2, 3] 5 (fun _ => Vector.replicate 16 0) 0,
        .output [9] 10 (fun _ => Vector.replicate 16 0) 1] = some progress ∧
      progress.enqueued.length = 3 := by
    rw [htransport]
    exact ⟨_, rfl, rfl⟩
  obtain ⟨-, -, hall⟩ := masked_throughout_iff repeatingKey (fun _ => 0)
    { crypt := "xor", datashard := 2, parityshard := 1 } (by decide) (by decide) transport hcreate
  refine ⟨transport, progress, hcreate, hrun, hlengths, hall.mpr (by decide) _ _ ?_ hrun⟩
  rw [htransport]
  decide

/-- A segment of KCP that pushes 1457 bytes of data: conversation 1, window 512, and the length
behind the timestamp and the two sequence numbers. -/
def fullSegment : Bytes :=
  [1, 0, 0, 0, 81, 0, 0, 2, 0, 0, 0, 0, 0, 0, 0, 0, 0, 0, 0, 0, 177, 5, 0, 0] ++
    List.replicate 1457 7

/-- A configuration whose datagrams may be one byte longer than the table. -/
def longConfig : BaseConfig := { mtu := 1501, crypt := "xor", datashard := 0, parityshard := 0 }

/-- One byte more than the table has: whatever the library derives from the key, the last byte
of the packet is sent as it is. -/
theorem last_byte_in_clear :
    longConfig.Accepted ∧ normalizeMethod longConfig.crypt = "xor" ∧
    fullSegment.length + cryptHeaderSize = longConfig.mtu.toInt ∧
    ∀ lib : CryptoLib, ∃ transport progress datagram,
      create lib (fun _ => 0) longConfig = .ok transport ∧
      (machine lib).run { transport }
        [.output fullSegment 5 (fun _ => Vector.replicate 16 0) 0] = some progress ∧
      progress.enqueued = [datagram] ∧ datagram.getD 1500 0 = 7 ∧
      ¬ SentMasked lib longConfig datagram := by
  obtain ⟨config, hconfig⟩ : ∃ config, config = longConfig := ⟨_, rfl⟩
  obtain ⟨buffer, hbuffer⟩ : ∃ buffer, buffer = fullSegment := ⟨_, rfl⟩
  rw [← hconfig, ← hbuffer]
  have hlength : buffer.length = 1481 := by
    rw [hbuffer, fullSegment, List.length_append, List.length_replicate]
    rfl
  have hne : buffer ≠ [] := fun hnil => by
    rw [hnil] at hlength
    exact absurd hlength (by decide)
  have haccepted : config.Accepted ∧ config.mtu.toInt = 1501 := by
    rw [hconfig]
    decide
  have hxor : normalizeMethod config.crypt = "xor" := by
    rw [hconfig]
    decide
  refine ⟨haccepted.1, hxor, by rw [hlength, haccepted.2]; decide, fun lib => ?_⟩
  obtain ⟨fec, hfec, hdisabled⟩ : ∃ fec,
      FecCodec.create config = .ok fec ∧ fec.enabled = false := by
    rw [hconfig]
    exact ⟨_, rfl, rfl⟩
  obtain ⟨crypt, hcrypt⟩ : ∃ crypt : PacketCrypt,
    crypt = { method := .xorStream, xorTable := tableOf lib config.key } := ⟨_, rfl⟩
  have htable : crypt.xorTable.length = 1500 := hcrypt ▸ length_tableOf lib config.key
  have hmtu : configureKcp (fun _ => 0) config crypt fec = .ok 1481 := by
    have hoverhead : crypt.overhead = 20 := by rw [hcrypt]; rfl
    rw [configureKcp, hoverhead, FecCodec.overhead, hdisabled, hconfig]
    rfl
  have hcreate : create lib (fun _ => 0) config = .ok { config, crypt, fec, kcpMtu := 1481 } := by
    rw [create, create_xor lib hxor, ← hcrypt]
    dsimp only
    rw [hfec]
    dsimp only
    rw [hmtu]
    rfl
  have hencrypt : crypt.encrypt lib (Vector.replicate 16 0) buffer =
      .ok (crypt.xorCrypt (withHeader (Vector.replicate 16 0) buffer)) := by
    rw [encrypt_eq (by simp [hcrypt]) (by simp [hcrypt]), cryptBytes, hcrypt]
  have hrun := @run_output lib { config, crypt, fec, kcpMtu := 1481 } buffer rfl hne 5
    (fun _ => Vector.replicate 16 0) 0
  have hsent : (sendUdp lib { config, crypt, fec, kcpMtu := 1481 } buffer 5
      (fun _ => Vector.replicate 16 0) 0).1 =
        [crypt.xorCrypt (withHeader (Vector.replicate 16 0) buffer)] := by
    have hencoded : fec.encode buffer 5 = ([buffer], fec) := by
      rw [FecCodec.encode, if_neg (by simp [hdisabled])]
    simp only [sendUdp, hencoded, List.mapIdx_cons, List.mapIdx_nil, encryptAndEnqueue, hencrypt]
  have hclear : (crypt.xorCrypt (withHeader (Vector.replicate 16 0) buffer)).getD 1500 0 = 7 := by
    have hlast : buffer.getD 1480 0 = 7 := by
      rw [hbuffer, fullSegment, List.getD_append_right _ _ _ _ (by decide)]
      exact List.getD_replicate _ (by decide)
    rw [getD_xorCrypt _ _ (by rw [length_withHeader, hlength]; decide), htable,
      if_neg (lt_irrefl _)]
    exact (getD_withHeader (Vector.replicate 16 0) buffer 1480).trans hlast
  have hlong : ¬ SentMasked lib config
      (crypt.xorCrypt (withHeader (Vector.replicate 16 0) buffer)) := by
    rw [sentMasked_iff hxor hcreate ⟨_, _, hencrypt⟩, length_xorCrypt, length_withHeader, hlength]
    decide
  exact ⟨_, _, _, hcreate, hrun, hsent, hclear, hlong⟩

end KcpTransport

end Shimakaze
