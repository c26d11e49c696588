import MoneyLaundering.Lib.Dict
import MoneyLaundering.Lib.Text
import MoneyLaundering.Lib.Bytes
import MoneyLaundering.FaultTolerance.Inbox
import MoneyLaundering.FaultTolerance.Outbox
import MoneyLaundering.FaultTolerance.Wal
import MoneyLaundering.MessageProtocol
import MoneyLaundering.FaultTolerance.Sequencer
import MoneyLaundering.FaultTolerance.Handler
import MoneyLaundering.FaultTolerance.Recovery
import MoneyLaundering.FaultTolerance.OutputIds
import MoneyLaundering.FaultTolerance.Runner
import MoneyLaundering.FaultTolerance.FailedAppends
import MoneyLaundering.FaultTolerance.History
import MoneyLaundering.BatchBuffer
import MoneyLaundering.Eof.Coordinator
import MoneyLaundering.Eof.FlushAcks
import MoneyLaundering.Filter.State
import MoneyLaundering.Filter.Worker
import MoneyLaundering.Filter.Records
import MoneyLaundering.Filter.Conservation
import MoneyLaundering.Filter.Leader
import MoneyLaundering.Filter.Cluster
import MoneyLaundering.Filter.System
import MoneyLaundering.Filter.Acks
import MoneyLaundering.Filter.EofOrder
import MoneyLaundering.Filter.Queues
import MoneyLaundering.ScatterGather.Pipeline
import MoneyLaundering.ScatterGather.RetryRounds
import MoneyLaundering.ScatterGather.SourceGate
import MoneyLaundering.ScatterGather.PairReduction
import MoneyLaundering.ScatterGather.BlockSplit
import MoneyLaundering.ScatterGather.DeduperLeader
import MoneyLaundering.ScatterGather.Q4Speculation
import MoneyLaundering.ScatterGather.Q4SumRuns
import MoneyLaundering.Workers.Acks
import MoneyLaundering.Workers.Q3JoinRuns
import MoneyLaundering.Workers.Q5Cluster
import MoneyLaundering.FileSplitter.Numbering
import MoneyLaundering.FileSplitter.Delivery
import MoneyLaundering.FileSplitter.InOrder
import MoneyLaundering.Q2.Maximum
import MoneyLaundering.Q2.JoinRuns
import MoneyLaundering.Monitor.Epochs
import MoneyLaundering.Monitor.Cluster
import MoneyLaundering.Gateway.Delivery
import MoneyLaundering.Workers.Recounts
import MoneyLaundering.Workers.AppendFailure
import MoneyLaundering.Workers.BroadcastRetry
import MoneyLaundering.Workers.DoneRedelivery
import MoneyLaundering.Workers.FlushTotals
import MoneyLaundering.Workers.AggregatorRetry
import MoneyLaundering.ScatterGather.RecordFormats
import MoneyLaundering.FaultTolerance.DecodedRecords
import MoneyLaundering.FaultTolerance.InboxCalls
import MoneyLaundering.Monitor.Announcements
import MoneyLaundering.Monitor.StaleElections
import MoneyLaundering.FileSplitter.BatchSizes
import MoneyLaundering.FileSplitter.Simulation
import MoneyLaundering.Workers.AggregatorNumbers
import MoneyLaundering.Eof.SharedCoordinator
import MoneyLaundering.Eof.Speculation
import MoneyLaundering.FaultTolerance.Publications
import MoneyLaundering.Workers.LiveReplay
import MoneyLaundering.Routing
import MoneyLaundering.External.FileChunk
import MoneyLaundering.Client.ChunkReader
import MoneyLaundering.Gateway.Upload
import MoneyLaundering.Gateway.SplitterInput
import MoneyLaundering.Gateway.AnyClient
import MoneyLaundering.Gateway.Download
import MoneyLaundering.Gateway.ResultRows
