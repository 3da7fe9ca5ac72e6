import MileExplorer.Json
import MileExplorer.KeyedTable
import MileExplorer.QueryProgram
import MileExplorer.RelyGuarantee
import MileExplorer.Store
import MileExplorer.TransactionsProcessing
import MileExplorer.Migration
import MileExplorer.StoreRules
import MileExplorer.SerialNumbering
import MileExplorer.SerialRuns
import MileExplorer.ThreadPool
import MileExplorer.Blocks
import MileExplorer.Indexer
import MileExplorer.Chain
import MileExplorer.BlockRows
import MileExplorer.NumberedRows
import MileExplorer.Indexing
import MileExplorer.StreamThreads
import MileExplorer.TransactionsThread
import MileExplorer.WorkerThread
import MileExplorer.FetcherThreads
import MileExplorer.BlocksThread
import MileExplorer.Startup
import MileExplorer.IndexerRuns
import MileExplorer.Conservation
import MileExplorer.Footprints
import MileExplorer.IndexerRoles
import MileExplorer.BlockPrefix
import MileExplorer.Recovery
import MileExplorer.Handover
import MileExplorer.Flush
import MileExplorer.WalletUpdates
import MileExplorer.Api
import MileExplorer.Requests
import MileExplorer.Replies
import MileExplorer.Outcomes
import MileExplorer.Sessions
import MileExplorer.FetchLoop
import MileExplorer.NetworkStates
import MileExplorer.BlockPages
import MileExplorer.Paging
import MileExplorer.TransactionKeys
import MileExplorer.TransactionHalves
import MileExplorer.Descriptions
import MileExplorer.TransactionPages
import MileExplorer.StreamOrder
import MileExplorer.WalletTable
import MileExplorer.WalletHistory
import MileExplorer.StreamRows
import MileExplorer.Redelivery
import MileExplorer.BlockPass
import MileExplorer.ConnectableBlocks
import MileExplorer.FailedReads
import MileExplorer.StreamPass
import MileExplorer.FailedCounts
import MileExplorer.MalformedRows
import MileExplorer.BadTransactions
import MileExplorer.WalletRecords
import MileExplorer.WalletRows
import MileExplorer.WalletStates
import MileExplorer.WalletsTop
import MileExplorer.IntervalMap
import MileExplorer.Statistics
import MileExplorer.Turnover
import MileExplorer.TurnoverDay
import MileExplorer.Parties
import MileExplorer.Genesis
import MileExplorer.GenesisLoad
import MileExplorer.GenesisReload
import MileExplorer.Upsert
import MileExplorer.VersionRows
import MileExplorer.StatisticsLoop
import MileExplorer.IntervalPartition
import MileExplorer.Calendar
import MileExplorer.TimeText
import MileExplorer.SharedInvariant
import MileExplorer.FetchStates
import MileExplorer.FaultyRuns
import MileExplorer.Lookups
import MileExplorer.AppendOnly
import MileExplorer.TransactionCopies
import MileExplorer.GenuineRows
import MileExplorer.GenuineReplies
import MileExplorer.Served
import MileExplorer.NetworkRuns
import MileExplorer.WalletNodes
import MileExplorer.FullPages
import MileExplorer.Workers
import MileExplorer.Progress
import MileExplorer.StreamExchange
import MileExplorer.DriverConnection
import MileExplorer.DriverCursor
import MileExplorer.DriverAnswers
import MileExplorer.Schema
import MileExplorer.WireQueries
