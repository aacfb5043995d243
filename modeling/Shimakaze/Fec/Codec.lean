import Shimakaze.Config
import Shimakaze.Fec.ReedSolomon

/-!
# The Erasure-Coding Layer

`FecCodec` of `fec.cpp`. The encoder numbers packets, sends each at once as a data packet,
and after every `datashard` of them sends parity packets, unless too much time has passed
since the packet before. The decoder returns the payload of a data packet at once, collects
the shards of a group under the group's number, and recovers the missing data packets when
`datashard` shards of the group are there.

Sequence numbers run below `paws_`, a multiple of the group size, and wrap. The statistics
the code counts on the way are left out: nothing reads them.
-/

namespace Shimakaze

/-! ### Constants and header fields -/

/-- `fec_header_size`. -/
def fecHeaderSize : ℕ := 6

/-- `fec_header_size_plus_size`. -/
def fecHeaderSizePlusSize : ℕ := 8

/-- `fec_type_data`. -/
def fecTypeData : UInt16 := 0x00f1

/-- `fec_type_parity`. -/
def fecTypeParity : UInt16 := 0x00f2

/-- `fec_type_oob`. -/
def fecTypeOob : UInt16 := 0x00f3

/-- `max_fec_encode_latency_ms`. -/
def maxFecEncodeLatencyMs : ℤ := 500

/-- `max_shard_sets`. -/
def maxShardSets : UInt32 := 3

/-- `timediff`: the difference of two wrapping numbers, as a signed one. -/
def timediff (later earlier : UInt32) : Int32 := (later - earlier).toInt32

/-- `std::vector::resize`: cut, or filled up with zeros. -/
def resize (bytes : Bytes) (size : ℕ) : Bytes :=
  bytes.take size ++ List.replicate (size - bytes.length) 0

/-- `FecCodec::packet_seq`. -/
def packetSeq (packet : Bytes) : UInt32 := readLe32 packet

/-- `FecCodec::packet_flag`. -/
def packetFlag (packet : Bytes) : UInt16 := readLe16 (packet.drop 4)

/-! ### The state -/

/-- `FecCodec::ShardSet`: the shards of one group received so far. -/
structure ShardSet where
  shards : List Bytes := []
  present : List Bool := []
  dataShard : List Bool := []

/-- Put a shard into its place in the set. -/
def ShardSet.insert (set : ShardSet) (index : ℕ) (shard : Bytes) (isData : Bool) : ShardSet :=
  { shards := set.shards.set index shard
    present := set.present.set index true
    dataShard := set.dataShard.set index isData }

/-- `FecCodec`. The matrix of `rs` is set up when the codec is enabled, and only used
then. -/
structure FecCodec where
  dataShards : ℕ
  parityShards : ℕ
  shardSize : ℕ
  enabled : Bool
  paws : UInt32 := 0
  nextSeq : UInt32 := 0
  shardCount : ℕ := 0
  maxShardLen : ℕ := 0
  latestPacketMs : ℤ := 0
  newestShardId : UInt32 := 0
  encodeShards : List Bytes := []
  /-- `decode_sets_`, from group numbers to shard sets. -/
  decodeSets : List (UInt32 × ShardSet) := []
  rs : ReedSolomon

namespace FecCodec

/-- The constructor. For a wrapped sum of shards it may fail a little earlier than here, when
`encode_shards_` finds no memory. -/
def create (config : BaseConfig) : Except String FecCodec := do
  let dataShards := config.datashard.toInt.toNat
  let parityShards := config.parityshard.toInt.toNat
  let shardSize := (config.datashard + config.parityshard).toInt.toNat
  if 0 < config.datashard ∧ 0 < config.parityshard ∧
      config.datashard + config.parityshard ≤ 256 then
    let rs ← ReedSolomon.ofShards config.datashard config.parityshard
    return {
      dataShards, parityShards, shardSize, rs
      enabled := true
      paws := 0xffffffff / UInt32.ofNat shardSize * UInt32.ofNat shardSize
      encodeShards := List.replicate dataShards [] }
  else
    return { dataShards, parityShards, shardSize, enabled := false, rs := ⟨0, 0, 0, []⟩ }

variable (codec : FecCodec)

/-- The group size as the 32-bit number the code computes with. -/
def shardSize32 : UInt32 := UInt32.ofNat codec.shardSize

/-! ### Encoding -/

/-- `FecCodec::seal_packet`: write the header and count. -/
def sealPacket (packet : Bytes) (type : UInt16) : Bytes × FecCodec :=
  (writeLe32 codec.nextSeq ++ writeLe16 type ++ packet.drop fecHeaderSize,
    { codec with nextSeq := (codec.nextSeq + 1) % codec.paws })

/-- `FecCodec::skip_parity`. -/
def skipParity : FecCodec :=
  { codec with nextSeq := (codec.nextSeq + UInt32.ofNat codec.parityShards) % codec.paws }

/-- The loop that makes the parity packets. -/
def sealParity (codec : FecCodec) : List Bytes → List Bytes × FecCodec
  | [] => ([], codec)
  | shard :: shards =>
      let (packet, codec) :=
        codec.sealPacket (List.replicate fecHeaderSize 0 ++ shard) fecTypeParity
      let (packets, codec) := codec.sealParity shards
      (packet :: packets, codec)

/-- The end of a group: parity packets, unless the packet before came too long ago. -/
def finishGroup (now : ℤ) : List Bytes × FecCodec :=
  if codec.latestPacketMs ≠ 0 ∧ now - codec.latestPacketMs < maxFecEncodeLatencyMs then
    let codec := { codec with
      encodeShards := codec.encodeShards.map fun item => resize item codec.maxShardLen }
    let parity := codec.rs.encode codec.encodeShards
      (List.replicate codec.parityShards (List.replicate codec.maxShardLen 0))
    codec.sealParity parity
  else ([], codec.skipParity)

/-- `FecCodec::encode`, with the clock reading it takes. -/
def encode (kcpPacket : Bytes) (currentMillis : UInt32) : List Bytes × FecCodec :=
  if codec.enabled then
    let (dataPacket, codec) := codec.sealPacket (List.replicate fecHeaderSize 0 ++
      writeLe16 (UInt16.ofNat (kcpPacket.length + 2)) ++ kcpPacket) fecTypeData
    let shard := dataPacket.drop fecHeaderSize
    let codec := { codec with
      maxShardLen := max codec.maxShardLen shard.length
      encodeShards := codec.encodeShards.set codec.shardCount shard
      shardCount := codec.shardCount + 1 }
    let now : ℤ := currentMillis.toNat
    if codec.shardCount = codec.dataShards then
      let (parity, codec) := codec.finishGroup now
      (dataPacket :: parity,
        { codec with shardCount := 0, maxShardLen := 0, latestPacketMs := now })
    else ([dataPacket], { codec with latestPacketMs := now })
  else ([kcpPacket], codec)

/-! ### Decoding -/

/-- The shard set of a group, made and sized when it is not there yet. -/
def shardSet (shardId : UInt32) : ShardSet :=
  let set := (codec.decodeSets.lookup shardId).getD {}
  if set.shards.isEmpty then
    { shards := List.replicate codec.shardSize []
      present := List.replicate codec.shardSize false
      dataShard := List.replicate codec.shardSize false }
  else set

/-- `decode_sets_.erase`. -/
def eraseSet (shardId : UInt32) (sets : List (UInt32 × ShardSet)) : List (UInt32 × ShardSet) :=
  sets.filter fun entry => entry.1 ≠ shardId

/-- Leave a set in the table under its number. -/
def storeSet (shardId : UInt32) (set : ShardSet) (sets : List (UInt32 × ShardSet)) :
    List (UInt32 × ShardSet) :=
  (shardId, set) :: eraseSet shardId sets

/-- The indices of the shards that are present. -/
def presentIndices (set : ShardSet) : List ℕ :=
  (List.range codec.shardSize).filter fun i => set.present.getD i false

/-- The size of the longest shard that is present. -/
def maxLen (set : ShardSet) : ℕ :=
  (codec.presentIndices set).foldl (fun len i => max len (set.shards.getD i []).length) 0

/-- The shards, those present filled up to one length. -/
def paddedShards (set : ShardSet) : List Bytes :=
  (codec.presentIndices set).foldl
    (fun shards i => shards.set i (resize (shards.getD i []) (codec.maxLen set))) set.shards

/-- The payload a recovered shard carries, if its size field makes sense. -/
def payload (recovered : Bytes) : Option Bytes :=
  if recovered.length < 2 then none
  else
    let size := (readLe16 recovered).toNat
    if 2 ≤ size ∧ size ≤ recovered.length then some ((recovered.take size).drop 2) else none

/-- The payloads recovered from a set with enough shards. -/
def recover (set : ShardSet) : Except String (List Bytes) := do
  let dataPresent := ((codec.presentIndices set).filter fun i => i < codec.dataShards).length
  if dataPresent ≠ codec.dataShards then
    let (complete, shards) ← codec.rs.reconstructData (codec.paddedShards set) set.present
    if complete then
      return (List.range codec.dataShards).filterMap fun i =>
        if set.present.getD i false then none else payload (shards.getD i [])
    else return []
  else return []

/-- `FecCodec::discard_old_shards`. -/
def discardOldShards (newest : UInt32) : FecCodec :=
  { codec with decodeSets := codec.decodeSets.filter fun entry =>
      ¬ timediff (newest * codec.shardSize32) (entry.1 * codec.shardSize32) >
        (maxShardSets * codec.shardSize32).toInt32 }

/-- The step to a newer group. -/
def advance (shardId : UInt32) : FecCodec :=
  if timediff (shardId * codec.shardSize32) (codec.newestShardId * codec.shardSize32) > 0 then
    { codec with newestShardId := shardId }.discardOldShards shardId
  else codec

/-- What `decode` does with a shard that is not there yet: put it into its set, and recover
and drop the set if that completes it. -/
def addShard (shardId : UInt32) (index : ℕ) (packet : Bytes) (isData : Bool) :
    Except String (List Bytes × FecCodec) := do
  let set := (codec.shardSet shardId).insert index (packet.drop fecHeaderSize) isData
  if codec.dataShards ≤ set.present.count true then
    let recovered ← codec.recover set
    return (recovered, { codec with decodeSets := eraseSet shardId codec.decodeSets })
  else
    return ([], { codec with decodeSets := storeSet shardId set codec.decodeSets })

/-- What `decode` does with a data or parity packet whose number is in range. -/
def collect (packet : Bytes) : Except String (List Bytes × FecCodec) := do
  let seq := packetSeq packet
  let index := (seq % codec.shardSize32).toNat
  let shardId := seq / codec.shardSize32
  if (codec.shardSet shardId).present.getD index false then
    return ([], codec)
  else
    let (recovered, codec) ←
      codec.addShard shardId index packet (packetFlag packet = fecTypeData)
    return (recovered, codec.advance shardId)

/-- `FecCodec::decode`. -/
def decode (packet : Bytes) : Except String (List Bytes × FecCodec) := do
  if ¬ codec.enabled ∨ packet.length < fecHeaderSizePlusSize then
    return ([packet], codec)
  let flag := packetFlag packet
  if flag ≠ fecTypeData ∧ flag ≠ fecTypeParity ∧ flag ≠ fecTypeOob then
    return ([packet], codec)
  if flag = fecTypeOob then
    return ([], codec)
  let output := if flag = fecTypeData then [packet.drop fecHeaderSizePlusSize] else []
  if codec.paws ≤ packetSeq packet then
    return (output, codec)
  let (recovered, codec) ← codec.collect packet
  return (output ++ recovered, codec)

end FecCodec

end Shimakaze
