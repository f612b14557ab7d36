import Cdht.Memory
import Cdht.ByteOrder
import Cdht.Strings
import Cdht.Tokens
import Cdht.Machine
import Cdht.Store
import Cdht.StoreRefinement
import Cdht.StoreInvariant
import Cdht.StoreKeys
import Cdht.BucketIndex
import Cdht.PeerTable
import Cdht.PeerTableSpec
import Cdht.PeerTableRefinement
import Cdht.PeerTableWire
import Cdht.PeerTableLocking
import Cdht.PeerTableUniqueness
import Cdht.PeerTableReachable
import Cdht.Packet
import Cdht.PacketCodec
import Cdht.Convert
import Cdht.PacketText
import Cdht.RequestHandler
import Cdht.UdpClient
import Cdht.UdpCorrelation
import Cdht.Handshake
import Cdht.NodeIdentity
import Cdht.Settings
import Cdht.Startup
import Cdht.PeerTableTransfer
import Cdht.PeerTableImage
import Cdht.LinkedCells
import Cdht.WorkQueue
import Cdht.UdpServer
import Cdht.UdpDelivery
import Cdht.Linearizability
import Cdht.StoreConcurrent
import Cdht.StoreSimulation
import Cdht.StoreLinearizable
import Cdht.BlockHash
import Cdht.Sha1Standard
import Cdht.Sha1
import Cdht.Sha1Rounds
import Cdht.Sha1Stream
import Cdht.TextBuffer
import Cdht.Ini
import Cdht.IniGrammar
import Cdht.IniRefinement
import Cdht.IniDocument
import Cdht.IniRoundTrip
import Cdht.ConfigFile
import Cdht.ChainWalk
import Cdht.PeerTableHeap
import Cdht.NodeSetup
import Cdht.UdpProgress
import Cdht.NodeProcess
import Cdht.StoreHeap
import Cdht.Joining
import Cdht.Ownership
import Cdht.PacketMemory
import Cdht.ServerMemory
