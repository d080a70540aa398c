import Kapua.Foundation.ByteMemory
import Kapua.Crypto.OpenSSL
import Kapua.Crypto.RSA
import Kapua.Node.Packet
import Kapua.Node.Core
import Kapua.Node.UDPNetwork
import Kapua.Node.ReceiveLoop
import Kapua.Node.TaggedCipher
import Kapua.Node.LoopExceptions
import Kapua.Node.PacketBounds
import Kapua.Node.EstablishedSession
import Kapua.Foundation.Transition
import Kapua.Node.PeerIsolation
import Kapua.Node.ExchangeHistory
import Kapua.Foundation.TwoHosts
import Kapua.Handshake.Protocol
import Kapua.Handshake.Agreement
import Kapua.Handshake.Duplication
import Kapua.Handshake.ArrivalOrder
import Kapua.Handshake.OrderedLinks
import Kapua.Handshake.Restart
import Kapua.Peers.System
import Kapua.Peers.Refinement
import Kapua.Peers.KeyAgreement
import Kapua.Peers.TaggedPeers
import Kapua.Peers.Completion
import Kapua.Peers.Reconnection
import Kapua.Foundation.CircularWalk
import Kapua.Foundation.History
import Kapua.Foundation.OrderedSet
import Kapua.Storage.DistributedBlockStore
import Kapua.Storage.RingHistory
import Kapua.Storage.Placement
import Kapua.Storage.Replicas
import Kapua.Node.SenderFrame
import Kapua.Node.NodeIndexes
import Kapua.Node.Identities
import Kapua.Foundation.BlockPadding
import Kapua.Node.KapuaPackets
import Kapua.Node.SessionKeySlot
import Kapua.Node.FailedHandling
import Kapua.Node.UnassignedFields
import Kapua.Storage.Reference
import Kapua.Foundation.Mutex
import Kapua.Node.NodeRemoval
import Kapua.Configuration.Libraries
import Kapua.Configuration.Parsers
import Kapua.Configuration.PlainOptions
import Kapua.Configuration.Loaders
import Kapua.Configuration.LoaderAgreement
import Kapua.Configuration.StartUp
import Kapua.Configuration.Numerals
import Kapua.Configuration.Durations
import Kapua.Configuration.DurationArithmetic
import Kapua.Configuration.NodeIds
import Kapua.Configuration.Ports
import Kapua.Configuration.AcceptedValues
import Kapua.Node.SendResult
import Kapua.Node.FailedReceive
import Kapua.Node.KeyFiles
import Kapua.Node.StartStop
import Kapua.Foundation.Monitor
import Kapua.Node.ActionQueue
import Kapua.Node.Logger
import Kapua.Foundation.Mesh
import Kapua.Peers.ManyNodes
import Kapua.Foundation.Pacing
import Kapua.Node.MainLoop
import Kapua.Node.Amplification
import Kapua.Node.CoreDestructor
import Kapua.Node.KeyPersistence
import Kapua.Configuration.EffectiveConfig
import Kapua.Foundation.FieldLayout
import Kapua.Node.PacketHeader
import Kapua.Peers.Settling
import Kapua.Peers.Lasting
import Kapua.Storage.Arcs
import Kapua.Node.Kapuad
