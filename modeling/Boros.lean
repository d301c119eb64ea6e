import Boros.Semantics.Transition
import Boros.Semantics.Effect
import Boros.Semantics.Replay
import Boros.Data.Table
import Boros.Data.Bytes
import Boros.Queue.Config
import Boros.Storage.Transaction
import Boros.Storage.Sqlite
import Boros.Ledger.U5c
import Boros.Pipeline.Monitor
import Boros.Pipeline.Reorg
import Boros.Data.Apportionment
import Boros.Storage.Batch
import Boros.Queue.Priority
import Boros.Ledger.Validation
import Boros.Pipeline.Ingest
import Boros.Server.Submit
import Boros.Pipeline.System
import Boros.Pipeline.Lifecycle
import Boros.Pipeline.SlotPresence
import Boros.Pipeline.Classification
import Boros.Pipeline.CrashConsistency
import Boros.Pipeline.Confirmation
import Boros.Queue.Chaining
import Boros.Queue.Channels
import Boros.Server.Locking
import Boros.Server.GrantStability
import Boros.Server.Serialization
import Boros.Server.SingleUse
import Boros.Network.Mempool
import Boros.Network.Peer
import Boros.Network.MessageLoss
import Boros.Network.Outstanding
import Boros.Network.RequestPanics
import Boros.Network.BlockingReply
import Boros.Pipeline.Execute
import Boros.Data.Broadcast
import Boros.Pipeline.Fanout
import Boros.Pipeline.DeadPeers
import Boros.Pipeline.Backpressure
import Boros.Queue.Conservation
import Boros.Pipeline.Resume
import Boros.Pipeline.CursorTip
import Boros.Pipeline.UnknownQueue
import Boros.Server.DefaultQueue
import Boros.Server.Atomicity
import Boros.Ledger.Verdict
import Boros.Pipeline.OracleFailures
import Boros.Ledger.ProtocolParameters
import Boros.Ledger.Adapter
import Boros.Signing.Vault
import Boros.Pipeline.Admission
import Boros.Pipeline.Predecessors
import Boros.Network.PeerManager
import Boros.Pipeline.Discovery
import Boros.Pipeline.PeerBound
import Boros.Pipeline.Liveness
import Boros.Pipeline.Provenance
import Boros.Pipeline.SendOrder
import Boros.Pipeline.SigningOnce
import Boros.Queue.Shares
import Boros.Storage.Prefix
import Boros.Queue.Order
import Boros.Storage.Slots
import Boros.Semantics.Atomic
import Boros.Storage.Dependencies
import Boros.Server.TokenMirror
import Boros.Server.UnlockBacklog
import Boros.Semantics.Simulation
import Boros.Server.Calls
import Boros.Node.System
import Boros.Node.Execution
import Boros.Node.Refinement
import Boros.Node.Acknowledgement
import Boros.Node.Authenticity
import Boros.Pipeline.Evidence
import Boros.Semantics.Flow
import Boros.Server.LockService
import Boros.Pipeline.Delivery
import Boros.Network.Transcript
import Boros.Node.Announcement
import Boros.Pipeline.Turns
import Boros.Network.Draining
import Boros.Pipeline.Resends
import Boros.Data.Record
import Boros.Pipeline.Connections
import Boros.Server.Messages
import Boros.Node.Chain
import Boros.Server.Progress
