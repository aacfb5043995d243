import Shimakaze.Bytes
import Shimakaze.Client.Changes
import Shimakaze.Client.Connections
import Shimakaze.Client.Expiry
import Shimakaze.Client.Handlers
import Shimakaze.Client.Table
import Shimakaze.Config
import Shimakaze.Config.CommandLine
import Shimakaze.Config.Json
import Shimakaze.Config.Options
import Shimakaze.Config.Parse
import Shimakaze.Config.Programs
import Shimakaze.Crc
import Shimakaze.Datagrams.Delivery
import Shimakaze.Datagrams.OneWay
import Shimakaze.Datagrams.Path
import Shimakaze.Deployment.Packets
import Shimakaze.Deployment.Sessions
import Shimakaze.Deployment.Streams
import Shimakaze.Fec.Codec
import Shimakaze.Fec.Decoder
import Shimakaze.Fec.Delivery
import Shimakaze.Fec.Discipline
import Shimakaze.Fec.Encoder
import Shimakaze.Fec.Gf
import Shimakaze.Fec.Groups
import Shimakaze.Fec.Inverse
import Shimakaze.Fec.Lossless
import Shimakaze.Fec.Matrix
import Shimakaze.Fec.ReedSolomon
import Shimakaze.Fec.Retention
import Shimakaze.Fec.Safety
import Shimakaze.Fec.ShardSets
import Shimakaze.Fec.Sizes
import Shimakaze.KcpTransport
import Shimakaze.Lib.CipherFeedback
import Shimakaze.Lib.Delimiter
import Shimakaze.Lib.ErasureCode
import Shimakaze.Lib.EventMachine
import Shimakaze.Lib.Framing
import Shimakaze.Lib.LossyNetwork
import Shimakaze.Lib.Part
import Shimakaze.Lib.Registry
import Shimakaze.Lib.RowReduction
import Shimakaze.Lib.Settings
import Shimakaze.Lib.ShiftRegister
import Shimakaze.Lib.Transducer
import Shimakaze.Lib.TwoParty
import Shimakaze.MultiPort
import Shimakaze.Pacing
import Shimakaze.PacketCrypt
import Shimakaze.Qpp
import Shimakaze.Server
import Shimakaze.Server.Program
import Shimakaze.Server.Runs
import Shimakaze.Server.Table
import Shimakaze.SessionEntry
import Shimakaze.Smux.Agreement
import Shimakaze.Smux.Arrivals
import Shimakaze.Smux.Capacity
import Shimakaze.Smux.Carriage
import Shimakaze.Smux.Drain
import Shimakaze.Smux.Evolution
import Shimakaze.Smux.Fin
import Shimakaze.Smux.Finish
import Shimakaze.Smux.Flush
import Shimakaze.Smux.Footprint
import Shimakaze.Smux.HalfClose
import Shimakaze.Smux.Keepalive
import Shimakaze.Smux.Ledger
import Shimakaze.Smux.Production
import Shimakaze.Smux.Reads
import Shimakaze.Smux.Sends
import Shimakaze.Smux.Session
import Shimakaze.Smux.Stream
import Shimakaze.Smux.StreamMachine
import Shimakaze.Smux.Table
import Shimakaze.Smux.Traffic
import Shimakaze.Smux.Transport
import Shimakaze.Smux.Tunnel
import Shimakaze.Smux.Upkeep
import Shimakaze.Smux.Views
import Shimakaze.Smux.Window
import Shimakaze.Smux.Wire
import Shimakaze.Snappy
import Shimakaze.Stats
import Shimakaze.XorMask
