import CudaNs3.Lib.Frontier
import CudaNs3.Lib.Transition
import CudaNs3.Lib.SlotBuffer
import CudaNs3.Lib.Lanes
import CudaNs3.Elp.Event
import CudaNs3.Elp.NextEvents
import CudaNs3.Elp.HandOver
import CudaNs3.Elp.RunSK
import CudaNs3.Elp.SafeBuffers
import CudaNs3.Elp.Causality
import CudaNs3.Elp.Horizon
import CudaNs3.Elp.Exit
import CudaNs3.Device.TransmitRace
import CudaNs3.Device.PairList
import CudaNs3.Device.SocketReceive
import CudaNs3.Elp.EventId
import CudaNs3.Device.Packet
import CudaNs3.Device.Encapsulation
import CudaNs3.Device.Net
import CudaNs3.Device.Calls
import CudaNs3.Device.Lookahead
import CudaNs3.Device.Pool
import CudaNs3.Device.Window
import CudaNs3.Device.HeaderPaths
import CudaNs3.Device.Bridging
import CudaNs3.Tcp.TxBuffer
import CudaNs3.Tcp.Scoreboard
import CudaNs3.Tcp.TxStream
import CudaNs3.Lib.Intervals
import CudaNs3.Tcp.Reassembly
import CudaNs3.Network.Buffer
import CudaNs3.Network.BufferStorage
import CudaNs3.Network.BufferIterator
import CudaNs3.Network.BufferAppend
import CudaNs3.Lib.Handles
import CudaNs3.Network.BufferString
import CudaNs3.Network.BufferSharing
import CudaNs3.Lib.RefCount
import CudaNs3.Lib.Spans
import CudaNs3.Network.ByteTagList
import CudaNs3.Network.ByteTagStorage
import CudaNs3.Network.ByteTagPositions
import CudaNs3.Network.PacketByteTags
import CudaNs3.Network.TaggedPackets
import CudaNs3.Network.PacketTagChains
import CudaNs3.Network.PacketTagWriters
import CudaNs3.Network.PacketTagMaps
import CudaNs3.Network.PacketTagWorld
import CudaNs3.Internet.Fragmentation
import CudaNs3.Internet.FragmentReassembly
import CudaNs3.Lib.Words
import CudaNs3.Tcp.HeaderOptions
import CudaNs3.Tcp.Header
import CudaNs3.Tcp.HeaderRoundTrip
import CudaNs3.Tcp.HeaderInput
import CudaNs3.Lib.Programs
import CudaNs3.Tcp.Socket
import CudaNs3.Tcp.SocketReceiving
import CudaNs3.Tcp.TxContent
import CudaNs3.Tcp.SocketMoves
import CudaNs3.Tcp.SocketCalls
import CudaNs3.Tcp.SocketEvents
import CudaNs3.Lib.Affixes
import CudaNs3.Lib.Readers
import CudaNs3.Network.DeviceQueue
import CudaNs3.Network.PacketBB
import CudaNs3.Lib.Frames
import CudaNs3.Applications.PacketSink
import CudaNs3.Applications.MessageStreams
import CudaNs3.Lib.Schedules
import CudaNs3.Elp.InsertRounds
import CudaNs3.Elp.Clock
import CudaNs3.Elp.Progress
import CudaNs3.Elp.SlotAllocation
import CudaNs3.Internet.RipTable
import CudaNs3.Internet.RipRuns
import CudaNs3.Lib.Agenda
import CudaNs3.Device.BridgedLink
import CudaNs3.Lib.DistanceVectors
import CudaNs3.Internet.RipDistances
import CudaNs3.Internet.Ipv6Reassembly
import CudaNs3.Internet.NudRuns
import CudaNs3.Internet.Ipv6Extensions
import CudaNs3.Internet.Ipv6Fragmentation
import CudaNs3.Lib.Bindings
import CudaNs3.Device.StaticRouting
import CudaNs3.Device.ArpCache
import CudaNs3.Device.LearningTable
import CudaNs3.Device.PacketMemory
import CudaNs3.Device.Checksums
import CudaNs3.Network.PacketBBHeadTail
import CudaNs3.Network.PacketBBRoundTrip
import CudaNs3.Lib.BitRows
import CudaNs3.Network.NixVector
import CudaNs3.Tcp.SackList
import CudaNs3.Tcp.RxFin
import CudaNs3.Tcp.RxWindow
import CudaNs3.Tcp.HighestSack
import CudaNs3.Tcp.InFlight
import CudaNs3.Tcp.RttHistory
import CudaNs3.Tcp.SendRequests
import CudaNs3.Tcp.SocketRuns
import CudaNs3.Tcp.PeerFin
import CudaNs3.Tcp.WindowScale
import CudaNs3.Tcp.PrrRecovery
import CudaNs3.Internet.Ipv4HeaderBytes
import CudaNs3.Internet.Ipv4Routes
import CudaNs3.Internet.StaticRouting
import CudaNs3.Internet.EndPointDemux
import CudaNs3.Internet.EndPointLookup
import CudaNs3.Internet.GlobalRouting
import CudaNs3.Internet.RipUpdates
import CudaNs3.Internet.FragmentTimers
import CudaNs3.Internet.ArpRequests
import CudaNs3.Lib.TracedReaders
import CudaNs3.Network.PacketBBScratch
import CudaNs3.Network.QueueLimitsTotals
import CudaNs3.Network.QueueAccounting
import CudaNs3.Internet.AddressGenerator
import CudaNs3.Device.AddressHelper
import CudaNs3.Lib.BitStrings
import CudaNs3.Network.BitSerializer
import CudaNs3.Lib.ByteStreams
import CudaNs3.Network.PcapFile
import CudaNs3.Network.PcapDiff
import CudaNs3.Network.Ipv6Text
import CudaNs3.Network.Ipv6Print
import CudaNs3.Lib.MovingWindow
import CudaNs3.Applications.PacketLossCounter
import CudaNs3.Lib.LazyExpiry
import CudaNs3.Internet.DuplicatePackets
import CudaNs3.Lib.Lollipop
import CudaNs3.Network.LollipopCounter
import CudaNs3.Applications.BulkSend
import CudaNs3.Lib.WhileLoops
import CudaNs3.Internet.NdiscOptions
import CudaNs3.Internet.Ipv6OptionProcessing
import CudaNs3.Internet.Ipv6Options
import CudaNs3.Lib.ByteShifts
import CudaNs3.Internet.Ipv6AddressGenerator
import CudaNs3.Lib.Layouts
import CudaNs3.Network.RadiotapHeader
import CudaNs3.Tcp.SequenceDifference
import CudaNs3.Tcp.WindowedFilter
import CudaNs3.Lib.ShortestPaths
import CudaNs3.Internet.SpfVertices
import CudaNs3.Internet.SpfCalculate
import CudaNs3.Internet.SpfDistances
import CudaNs3.Internet.SpfRoutes
import CudaNs3.Internet.SpfDelivery
import CudaNs3.Internet.SpfExits
