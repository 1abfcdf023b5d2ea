import Blockmon.Lib.Lts
import Blockmon.DBQueue
import Blockmon.Lemmas.DBQueueFifo
import Blockmon.Theorems.DBQueue
import Blockmon.DBQueueConc
import Blockmon.Lemmas.DBQueueStages
import Blockmon.Lemmas.DBQueueSteps
import Blockmon.Lemmas.DBQueuePending
import Blockmon.Block
import Blockmon.ThreadPool
import Blockmon.Lemmas.ThreadPool
import Blockmon.Theorems.ThreadPool
import Blockmon.Flow
import Blockmon.FlowMeter
import Blockmon.Lemmas.FlowMeterRefine
import Blockmon.Lemmas.FlowTable
import Blockmon.Theorems.FlowMeter
import Blockmon.Lemmas.FlowMeterTimer
import Blockmon.Lemmas.TimerThread
import Blockmon.Lemmas.TimerControl
import Blockmon.Lemmas.TimerLedger
import Blockmon.Theorems.TimerThread
import Blockmon.Lemmas.DBQueueAlone
import Blockmon.Gate
import Blockmon.Composition
import Blockmon.Lemmas.Gate
import Blockmon.Theorems.Gate
import Blockmon.Lemmas.TimerGlue
import Blockmon.Theorems.TimerGlue
import Blockmon.Lib.Fuel
import Blockmon.Lib.PriorityQueue
import Blockmon.PacketTime
import Blockmon.Lemmas.PacketTime
import Blockmon.Theorems.PacketTime
import Blockmon.Lemmas.PacketService
import Blockmon.Theorems.PacketService
import Blockmon.Lemmas.PoolCalls
import Blockmon.PoolManager
import Blockmon.Lemmas.PoolManager
import Blockmon.Theorems.PoolManager
import Blockmon.CompositionManager
import Blockmon.Lemmas.CompositionManager
import Blockmon.Theorems.CompositionManager
import Blockmon.Lemmas.Installed
import Blockmon.Theorems.Installed
import Blockmon.BackendGlue
import Blockmon.Daemon
import Blockmon.Lemmas.DaemonPool
import Blockmon.Theorems.DaemonPool
import Blockmon.Lemmas.DaemonLinks
import Blockmon.Theorems.DaemonLinks
import Blockmon.BufferSerializer
import Blockmon.Lemmas.BufferSerializer
import Blockmon.Theorems.BufferSerializer
import Blockmon.Lemmas.Serializer
import Blockmon.Theorems.Serializer
import Blockmon.Lemmas.SerSource
import Blockmon.Theorems.SerSource
import Blockmon.Lemmas.Packet
import Blockmon.Lemmas.PacketOrder
import Blockmon.Theorems.Packet
import Blockmon.Lemmas.PacketHeaders
import Blockmon.Theorems.Payload
import Blockmon.Lemmas.NewPacket
import Blockmon.Theorems.NewPacket
import Blockmon.Lemmas.Dissect
import Blockmon.Lemmas.SlicedPacket
import Blockmon.Theorems.SlicedPacket
import Blockmon.FlowPayload
import Blockmon.Lemmas.FlowPayload
import Blockmon.Lemmas.FlowCopy
import Blockmon.Lemmas.FlowStream
import Blockmon.Theorems.FlowPayload
import Blockmon.Theorems.FlowHistory
import Blockmon.DNSPacket
import Blockmon.Lemmas.DNSNames
import Blockmon.Lemmas.DNSRecords
import Blockmon.Theorems.DNSPacket
import Blockmon.Lemmas.DNSWire
import Blockmon.Lemmas.DNSSections
import Blockmon.Theorems.DNSWire
import Blockmon.Lemmas.TagRegistry
import Blockmon.Theorems.TagRegistry
import Blockmon.Bloom
import Blockmon.Lemmas.Khash
import Blockmon.Lib.Bitmap
import Blockmon.Lemmas.Bloom
import Blockmon.Theorems.Bloom
import Blockmon.HistoCalc
import Blockmon.Lib.Series
import Blockmon.Lemmas.HistoCalc
import Blockmon.Theorems.HistoCalc
import Blockmon.PerUserCounter
import Blockmon.Lemmas.PerUserCounter
import Blockmon.Theorems.PerUserCounter
import Blockmon.ADTest
import Blockmon.Theorems.ADTest
import Blockmon.Theorems.TimerEvents
import Blockmon.Theorems.Khash
import Blockmon.Lemmas.MultiHash
import Blockmon.Theorems.MultiHash
import Blockmon.Lemmas.Rehash
import Blockmon.Theorems.Rehash
import Blockmon.Lemmas.MultiHashObjects
import Blockmon.Theorems.MultiHashObjects
import Blockmon.RSIA
import Blockmon.Lemmas.RSIA
import Blockmon.Theorems.RSIA
import Blockmon.Binning
import Blockmon.Lemmas.Binning
import Blockmon.Theorems.Binning
import Blockmon.Filter
import Blockmon.PacketFilter
import Blockmon.Lemmas.Filter
import Blockmon.Lemmas.PacketFields
import Blockmon.Theorems.PacketFilter
import Blockmon.FlowFilter
import Blockmon.Theorems.FlowFilter
import Blockmon.TopNFlowSelector
import Blockmon.Theorems.TopNFlowSelector
import Blockmon.Cusum
import Blockmon.Lib.LastValues
import Blockmon.Lib.SuffixSum
import Blockmon.Theorems.Cusum
import Blockmon.ACHash31
import Blockmon.Lib.Mersenne
import Blockmon.Theorems.ACHash31
import Blockmon.Lib.Rounding
import Blockmon.NetTypes
import Blockmon.Counter
import Blockmon.Theorems.Counter
import Blockmon.Theorems.NetTypes
import Blockmon.MarshFactory
import Blockmon.Theorems.MarshFactory
import Blockmon.Nofrag
import Blockmon.Theorems.Nofrag
import Blockmon.CDFGenerator
import Blockmon.Theorems.CDFGenerator
import Blockmon.CDRSourceBypass
import Blockmon.Lemmas.CDRSourceBypass
import Blockmon.Theorems.CDRSourceBypass
import Blockmon.ENKLTest
import Blockmon.Lib.Interpolation
import Blockmon.Lemmas.ENKLTest
import Blockmon.Theorems.ENKLTest
import Blockmon.BloomSha1
import Blockmon.Lemmas.BloomSha1
import Blockmon.Theorems.Digests
import Blockmon.Jsmn
import Blockmon.JsmnReader
import Blockmon.Lemmas.Jsmn
import Blockmon.Theorems.Jsmn
import Blockmon.Lib.Arena
import Blockmon.MessageMemory
import Blockmon.Theorems.MessageMemory
import Blockmon.Delivery
import Blockmon.Theorems.Delivery
