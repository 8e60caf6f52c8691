import RaftConsensus.Library.Transition
import RaftConsensus.Library.Traces
import RaftConsensus.Library.Progress
import RaftConsensus.Library.OneCopy
import RaftConsensus.Library.Replication
import RaftConsensus.Library.Matching
import RaftConsensus.Library.CatchUp
import RaftConsensus.Library.Actions
import RaftConsensus.Library.Lagging
import RaftConsensus.Library.Voting
import RaftConsensus.Library.KeyValue
import RaftConsensus.Library.Ledger
import RaftConsensus.Library.Bytes
import RaftConsensus.Library.Wire
import RaftConsensus.Library.WireFields
import RaftConsensus.Library.Framing
import RaftConsensus.Library.OrderStatistics
import RaftConsensus.Library.Mutex
import RaftConsensus.Library.Monitor
import RaftConsensus.Library.Busy
import RaftConsensus.Messages
import RaftConsensus.Storage.RocksDBStore
import RaftConsensus.Raft.Node
import RaftConsensus.Raft.Election
import RaftConsensus.Raft.Replication
import RaftConsensus.Raft.Snapshot
import RaftConsensus.Raft.RequestHandler
import RaftConsensus.Raft.Execution
import RaftConsensus.Raft.Client
import RaftConsensus.Storage.ReadWrite
import RaftConsensus.Storage.Genesis
import RaftConsensus.Storage.SnapshotTransfer
import RaftConsensus.Storage.Replay
import RaftConsensus.Storage.Money
import RaftConsensus.Storage.Bank
import RaftConsensus.Storage.StoredLog
import RaftConsensus.Storage.Entries
import RaftConsensus.Storage.WriteSequences
import RaftConsensus.Storage.SeparateMaps
import RaftConsensus.Cluster.Step
import RaftConsensus.Cluster.Moves
import RaftConsensus.Cluster.ElectionView
import RaftConsensus.Cluster.Routing
import RaftConsensus.Cluster.Elections
import RaftConsensus.Cluster.ElectionSafety
import RaftConsensus.Cluster.Restarts
import RaftConsensus.Cluster.VoteDurability
import RaftConsensus.Cluster.ApplyOrder
import RaftConsensus.Cluster.Ranges
import RaftConsensus.Cluster.Slices
import RaftConsensus.Cluster.Logs
import RaftConsensus.Cluster.LogSteps
import RaftConsensus.Cluster.LogMessages
import RaftConsensus.Cluster.LogAnswers
import RaftConsensus.Cluster.LogSafety
import RaftConsensus.Cluster.OneVote
import RaftConsensus.Cluster.PendingRequests
import RaftConsensus.Cluster.CrashReplay
import RaftConsensus.Cluster.LeaderAppendOnly
import RaftConsensus.Cluster.CrashConsistency
import RaftConsensus.Cluster.Acknowledgement
import RaftConsensus.Cluster.Records
import RaftConsensus.Cluster.FullLogs
import RaftConsensus.Cluster.Deduplication
import RaftConsensus.Cluster.Provenance
import RaftConsensus.Cluster.ClientResults
import RaftConsensus.Cluster.Submitted
import RaftConsensus.Cluster.OneBank
import RaftConsensus.Cluster.Durability
import RaftConsensus.Cluster.Bookkeeping
import RaftConsensus.Cluster.SplitInstall
import RaftConsensus.Cluster.GenuineSnapshots
import RaftConsensus.Node.LeaderMessages
import RaftConsensus.Node.Installing
import RaftConsensus.Node.AppendLoop
import RaftConsensus.Node.Merge
import RaftConsensus.Node.HeldLog
import RaftConsensus.Node.Convergence
import RaftConsensus.Node.Thresholds
import RaftConsensus.Node.Callbacks
import RaftConsensus.Node.Transfers
import RaftConsensus.Node.Restart
import RaftConsensus.Node.Locking
import RaftConsensus.Node.Wakeups
import RaftConsensus.Node.Replicators
import RaftConsensus.Node.Slots
import RaftConsensus.Cluster.Unblocked
import RaftConsensus.Cluster.Electable
import RaftConsensus.Cluster.Spreading
import RaftConsensus.Cluster.Serving
import RaftConsensus.Cluster.Agreeing
import RaftConsensus.Network.Connection
import RaftConsensus.Network.Encoding
import RaftConsensus.Storage.ByteStore
import RaftConsensus.Gateway.Session
import RaftConsensus.Gateway.Answers
