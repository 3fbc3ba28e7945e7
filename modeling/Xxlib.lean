import Xxlib.Lib.Chain
import Xxlib.Lib.ChainedIndex
import Xxlib.Uv4.Hashing
import Xxlib.Uv4.Dict
import Xxlib.Uv4.DictInvariant
import Xxlib.Lib.AssocMap
import Xxlib.Uv4.DictRefinement
import Xxlib.Uv4.DictUpdate
import Xxlib.Uv4.DictEx
import Xxlib.Uv4.HashSet
import Xxlib.Uv4.HashSetRefinement
import Xxlib.Lib.Framing
import Xxlib.Uv3.Unpack
import Xxlib.Lib.Varint
import Xxlib.Uv4.Bytes
import Xxlib.Uv4.Receive
import Xxlib.Uv4.Progress
import Xxlib.Uv4.Delivery
import Xxlib.Go.BBuffer
import Xxlib.Go.Graph
import Xxlib.Go.Pointers
import Xxlib.Go.Writing
import Xxlib.Go.RoundTrip
import Xxlib.Go.TcpPeer
import Xxlib.Go.Frames
import Xxlib.Go.Stream
import Xxlib.Go.Reassembly
import Xxlib.Lib.Ring
import Xxlib.Uv4.Queue
import Xxlib.Lib.Links
import Xxlib.Uv4.Routing
import Xxlib.Uv4.TimeoutManager
import Xxlib.Lib.Slices
import Xxlib.Go.NetMessages
import Xxlib.Go.Requests
import Xxlib.Uv4.RpcManager
import Xxlib.Uv3.Peer
import Xxlib.Uv4.RpcTrace
import Xxlib.Lib.ZigZag
import Xxlib.Uv4.Objects
import Xxlib.Lib.ObjectGraph
import Xxlib.Uv4.ObjectGraph
import Xxlib.Uv4.GraphCodec
import Xxlib.Uv4.PtrCodec
import Xxlib.Lib.Traversal
import Xxlib.Uv4.GraphRoundTrip
import Xxlib.Lib.Ownership
import Xxlib.Uv3.Objects
import Xxlib.Uv3.ObjectGraph
import Xxlib.Uv3.GraphCodec
import Xxlib.Uv3.PtrCodec
import Xxlib.Uv3.GraphRoundTrip
import Xxlib.Lib.Signals
import Xxlib.Uv3.Async
import Xxlib.Uv4.Async
import Xxlib.Go.Coroutine
import Xxlib.Uv3.Reading
import Xxlib.Gens.ClassCpp
import Xxlib.Interop.Integers
import Xxlib.Lib.Lifetime
import Xxlib.Uv4.QueueLifetime
import Xxlib.Lib.FreeLists
import Xxlib.Uv4.MemPool
import Xxlib.Uv4.PoolUse
import Xxlib.Uv4.PoolInvariant
import Xxlib.Uv4.PoolSafety
import Xxlib.Lib.RefCount
import Xxlib.Uv4.Ptr
import Xxlib.Uv4.PtrReset
import Xxlib.Uv4.PtrCounting
import Xxlib.Uv4.PoolRead
import Xxlib.Uv4.PoolBuilding
import Xxlib.Uv4.PoolReading
import Xxlib.Uv4.PoolFailure
import Xxlib.Uv3.Serials
import Xxlib.Gens.TypeIds
import Xxlib.Gens.Registration
import Xxlib.Gens.GenTypeId
import Xxlib.Uv4.Registries
import Xxlib.Uv4.UdpReceive
import Xxlib.Uv3.Dialer
import Xxlib.Uv4.TcpClient
import Xxlib.Uv4.TcpClientEx
import Xxlib.Gens.Messages
import Xxlib.Lib.Monitor
import Xxlib.Gens.LengthWalk
import Xxlib.Gens.LimitCodec
import Xxlib.Gens.Limits
import Xxlib.Go.IntegerReads
import Xxlib.Go.Scalars
import Xxlib.Go.Locality
import Xxlib.Go.Hostile
import Xxlib.Go.Isolation
import Xxlib.Go.Containment
import Xxlib.Go.Sender
import Xxlib.Uv3.Capacity
import Xxlib.Lib.Invariant
import Xxlib.Uv3.WithinCapacity
import Xxlib.Uv4.VarintCodec
import Xxlib.Uv4.Containers
import Xxlib.Uv4.Regions
import Xxlib.Uv4.DictReserve
import Xxlib.Uv4.GetPrime
import Xxlib.Uv4.TimeoutDelivery
import Xxlib.Uv3.KcpListener
import Xxlib.Uv4.FailedSend
import Xxlib.Uv4.HttpParser
import Xxlib.Uv4.KcpTicks
import Xxlib.Lib.CarriedKeys
import Xxlib.Uv4.HttpHeaders
import Xxlib.Uv4.CharList
import Xxlib.Uv4.InPlace
import Xxlib.Lib.CString
import Xxlib.Uv4.Url
import Xxlib.Uv4.UrlQueries
import Xxlib.Uv4.AppendFormat
import Xxlib.Uv4.FormatText
import Xxlib.Lib.Utf8
import Xxlib.Uv4.WideText
import Xxlib.Lib.Decimal
import Xxlib.Uv4.IntegerText
import Xxlib.Lib.Subtractive
import Xxlib.Uv4.Random
import Xxlib.Gens.InheritanceSort
import Xxlib.Uv3.Stackless
import Xxlib.Go.Varints
import Xxlib.Uv4.PositionalReads
import Xxlib.Lib.LittleEndian
import Xxlib.Uv4.HashFuncs
import Xxlib.Uv4.HashCoherence
import Xxlib.Kcp.Arrival
import Xxlib.Kcp.Check
import Xxlib.Kcp.Departure
import Xxlib.Kcp.Overrun
import Xxlib.Kcp.Runs
import Xxlib.Uv3.KcpPeer
import Xxlib.Kcp.Answers
import Xxlib.Kcp.Completion
import Xxlib.Kcp.Stalling
