import CrimsonCache.Library.ChainedTable
import CrimsonCache.Library.DeadlineMap
import CrimsonCache.Library.LittleEndian
import CrimsonCache.CString
import CrimsonCache.Dictionary
import CrimsonCache.DictionaryInvariant
import CrimsonCache.DictionaryRefinement
import CrimsonCache.Persistence
import CrimsonCache.SnapshotCommit
import CrimsonCache.ConcurrentSaves
import CrimsonCache.SnapshotRoundTrip
import CrimsonCache.Tokenizer
import CrimsonCache.Replies
import CrimsonCache.Transaction
import CrimsonCache.Pubsub
import CrimsonCache.Library.Framing
import CrimsonCache.Replication
import CrimsonCache.Library.Runs
import CrimsonCache.Library.Inodes
import CrimsonCache.Library.KeyEffects
import CrimsonCache.Library.TableWalk
import CrimsonCache.Library.OldestFirst
import CrimsonCache.ReplicaStream
import CrimsonCache.DataCommands
import CrimsonCache.Commands
import CrimsonCache.SubscriberLists
import CrimsonCache.Connections
import CrimsonCache.ReplicationThread
import CrimsonCache.Execution
import CrimsonCache.TransactionSteps
import CrimsonCache.ServerRuns
import CrimsonCache.PubsubDelivery
import CrimsonCache.ChannelHolders
import CrimsonCache.TransactionEquivalence
import CrimsonCache.TransactionQueue
import CrimsonCache.InputFraming
import CrimsonCache.SnapshotRestore
import CrimsonCache.WriteEffects
import CrimsonCache.ReplicaAgreement
import CrimsonCache.InitialSync
import CrimsonCache.LiveContents
import CrimsonCache.WalkedTable
import CrimsonCache.AppliedWrites
import CrimsonCache.FullSync
import CrimsonCache.ReplicaList
import CrimsonCache.ExecLoop
import CrimsonCache.StepRuns
import CrimsonCache.Keyspace
import CrimsonCache.Library.Footprints
import CrimsonCache.KeyIsolation
import CrimsonCache.KeyLifetimes
import CrimsonCache.Library.Snapshots
import CrimsonCache.RequestReplies
import CrimsonCache.ReplyRuns
import CrimsonCache.WritePropagation
import CrimsonCache.ChangeCounter
import CrimsonCache.Restarts
import CrimsonCache.DelayedReplication
import CrimsonCache.SplitWrites
import CrimsonCache.SyncRaces
import CrimsonCache.RacedSync
import CrimsonCache.ThreadLoops
import CrimsonCache.Promotion
import CrimsonCache.ExecIsolation
import CrimsonCache.SweepVisibility
import CrimsonCache.LiveKeys
import CrimsonCache.ReplicaFraming
import CrimsonCache.ReplicaReconnect
import CrimsonCache.SocketFrames
import CrimsonCache.WriteInterleaving
import CrimsonCache.EventLoop
import CrimsonCache.ClientRegistry
import CrimsonCache.TableRuns
import CrimsonCache.Deadlines
import CrimsonCache.SyncedExpiry
import CrimsonCache.LruEviction
import CrimsonCache.WriteSurvival
import CrimsonCache.TokenBuffer
import CrimsonCache.QuotedLines
import CrimsonCache.OpenQuotes
import CrimsonCache.Increment
import CrimsonCache.SnapshotRecords
import CrimsonCache.FailedLoad
import CrimsonCache.TruncatedSnapshot
import CrimsonCache.LoadLengths
import CrimsonCache.BulkReplies
import CrimsonCache.PrimaryOffset
import CrimsonCache.RefusedReplicaof
import CrimsonCache.ReplicaOffset
import CrimsonCache.StrictArguments
import CrimsonCache.RespValues
import CrimsonCache.FixedFrames
import CrimsonCache.ConfirmationCounts
import CrimsonCache.ConfigFile
import CrimsonCache.ConfigLines
import CrimsonCache.ReadLengths
import CrimsonCache.WedgedReplica
import CrimsonCache.SnapshotGrammar
import CrimsonCache.ReplicaPast
import CrimsonCache.ReaderThreads
import CrimsonCache.AttachedReplica
import CrimsonCache.ConcurrencyModels
import CrimsonCache.Failovers
import CrimsonCache.WireAnswers
