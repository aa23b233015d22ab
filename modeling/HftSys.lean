import HftSys.PoolInvariant
import HftSys.OrderBook
import HftSys.Lib.Circular
import HftSys.Lib.Exec
import HftSys.View
import HftSys.Removal
import HftSys.Levels
import HftSys.Filing
import HftSys.Matching
import HftSys.Runs
import HftSys.Termination
import HftSys.MarketData
import HftSys.Lifecycle
import HftSys.TimePriority
import HftSys.Sweep
import HftSys.ClientMap
import HftSys.Cancels
import HftSys.Sides
import HftSys.Integrity
import HftSys.LevelOrder
import HftSys.Trades
import HftSys.PriceIndex
import HftSys.RemovalFrame
import HftSys.Pools
import HftSys.AddCancel
import HftSys.Exhaustion
import HftSys.BookPrinting
import HftSys.Crossing
import HftSys.Conservation
import HftSys.LFQueue
import HftSys.Lib.Fifo
import HftSys.QueueInvariant
import HftSys.Logger
import HftSys.FormatMessage
import HftSys.Shutdown
import HftSys.SingleProducer
import HftSys.Lib.Bytes
import HftSys.Messages
import HftSys.TCPSocket
import HftSys.FIFOSequencer
import HftSys.Lib.Sorting
import HftSys.Lib.SequenceGate
import HftSys.OrderGatewayServer
import HftSys.Receiving
import HftSys.Rejections
import HftSys.Publishing
import HftSys.ClientOrder
import HftSys.Responses
import HftSys.TCPServer
import HftSys.Connections
import HftSys.Overload
import HftSys.Chunking
import HftSys.Subscripts
import HftSys.MatchingEngine
import HftSys.EngineOutputs
import HftSys.Recipients
import HftSys.Exchange
import HftSys.Flooding
import HftSys.Draining
import HftSys.EpollRounds
import HftSys.Lib.Ladder
import HftSys.Executions
import HftSys.Market
import HftSys.Refinement
import HftSys.Lib.Mirror
import HftSys.Lib.Product
import HftSys.Lib.Feeding
import HftSys.ExecutionReports
import HftSys.Tickers
import HftSys.Conveyance
import HftSys.StrayReads
import HftSys.EndToEnd
import HftSys.Lib.Settling
import HftSys.Settling
import HftSys.Turns
import HftSys.Stopping
import HftSys.ManyProducers
import HftSys.Clients
import HftSys.Rendering
import HftSys.LogText
import HftSys.Linearization
import HftSys.SharedExchange
import HftSys.Interleavings
