import AgentOS.Lib.Run
import AgentOS.Lib.Trace
import AgentOS.Lib.Keyset
import AgentOS.Lib.Lines
import AgentOS.Lib.Table
import AgentOS.Lib.Newest
import AgentOS.Lib.Fold
import AgentOS.Lib.Dict
import AgentOS.Lib.Bfs
import AgentOS.Lib.Digits
import AgentOS.Lib.Cut
import AgentOS.Lib.Windows
import AgentOS.Lib.Links
import AgentOS.Lib.Queue
import AgentOS.Lib.Paths
import AgentOS.Lib.Rank
import AgentOS.Lib.Hops
import AgentOS.Lib.FirstWalks
import AgentOS.Lib.Tally
import AgentOS.Python.Text
import AgentOS.Python.Strings
import AgentOS.Python.Json
import AgentOS.Python.Dumps
import AgentOS.Python.Loads
import AgentOS.Python.Values
import AgentOS.Python.Codecs
import AgentOS.Python.Scanner
import AgentOS.Python.Case
import AgentOS.Contracts
import AgentOS.Identifiers
import AgentOS.UlidCodec
import AgentOS.RemoteUrl
import AgentOS.Outbox.Emit
import AgentOS.Outbox.Store
import AgentOS.Outbox.Drain
import AgentOS.Outbox.Accounting
import AgentOS.Outbox.NoLoss
import AgentOS.Outbox.DeadLetters
import AgentOS.Outbox.Rotation
import AgentOS.Outbox.RequestSize
import AgentOS.Outbox.Cursor
import AgentOS.Outbox.CorruptCursors
import AgentOS.Outbox.Batches
import AgentOS.M3Client.Follow
import AgentOS.M3Client.GapFree
import AgentOS.Hub.Sql
import AgentOS.Hub.SqlStore
import AgentOS.Hub.Ingest
import AgentOS.Hub.FakeStore
import AgentOS.Hub.TaskOrder
import AgentOS.Hub.ActiveSessions
import AgentOS.Hub.Sessions
import AgentOS.Hub.Repositories
import AgentOS.Hub.Redelivery
import AgentOS.Hub.Verdicts
import AgentOS.Hub.Routes
import AgentOS.Hub.Prepare
import AgentOS.Hub.PoisonBatch
import AgentOS.Hub.Isolation
import AgentOS.Hub.Auth
import AgentOS.Outbox.Worker
import AgentOS.Identity.Ensure
import AgentOS.Identity.Agreement
import AgentOS.Identity.Crash
import AgentOS.Cards.Projection
import AgentOS.Cards.Inbox
import AgentOS.Cards.Writers
import AgentOS.Sync.TaskSync
import AgentOS.Sync.Requests
import AgentOS.Sync.Uplink
import AgentOS.Sync.Downlink
import AgentOS.Sync.Convergence
import AgentOS.Sync.OnePoller
import AgentOS.Sync.Registered
import AgentOS.Sync.Transport
import AgentOS.Memory.Store
import AgentOS.Memory.Reingest
import AgentOS.Memory.Central
import AgentOS.Memory.Plans
import AgentOS.Memory.Representation
import AgentOS.Memory.Statements
import AgentOS.Memory.StoreAgreement
import AgentOS.Memory.Owners
import AgentOS.Memory.Retention
import AgentOS.Memory.Filter
import AgentOS.Memory.LocalWrites
import AgentOS.Memory.Eligibility
import AgentOS.Memory.Etl
import AgentOS.Memory.Load
import AgentOS.Memory.DryRun
import AgentOS.Memory.Lossless
import AgentOS.Memory.Fusion
import AgentOS.Hooks.Refresh
import AgentOS.Hooks.Exclusion
import AgentOS.Hooks.DirtyFlag
import AgentOS.Migrations.Discover
import AgentOS.Migrations.Apply
import AgentOS.Migrations.CrashConsistency
import AgentOS.Migrations.Status
import AgentOS.Chunking.Tokens
import AgentOS.Chunking.Prose
import AgentOS.Chunking.Messages
import AgentOS.Adapters.ChatGpt
import AgentOS.Adapters.ContentHash
import AgentOS.Adapters.Thread
import AgentOS.Adapters.Totality
import AgentOS.DbGraph.Build
import AgentOS.DbGraph.Targeted
import AgentOS.DbGraph.Contents
import AgentOS.DbGraph.Catalog
import AgentOS.DbGraph.Induced
import AgentOS.DbGraph.Parameters
import AgentOS.GraphTools.FindPath
import AgentOS.GraphTools.Subgraph
import AgentOS.GraphTools.CodeGraph
import AgentOS.GraphTools.Dependencies
import AgentOS.GraphTools.Callers
import AgentOS.DbGraph.RelationshipPath
