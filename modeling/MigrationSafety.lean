import MigrationSafety.Lib.Effects
import MigrationSafety.Lib.Paths
import MigrationSafety.Lib.Histories
import MigrationSafety.Lib.Worlds
import MigrationSafety.Lib.Restarts
import MigrationSafety.Lib.Binary64
import MigrationSafety.Lib.Debounce
import MigrationSafety.Lib.Templates
import MigrationSafety.Lib.Scripts
import MigrationSafety.Lib.Decimal
import MigrationSafety.Lib.Json
import MigrationSafety.Lib.Shortest
import MigrationSafety.Lib.Records
import MigrationSafety.Sql.Rows
import MigrationSafety.Server.System
import MigrationSafety.Server.Terminal
import MigrationSafety.Server.Drivers
import MigrationSafety.Server.Alone
import MigrationSafety.Server.Custody
import MigrationSafety.Server.DdlLog
import MigrationSafety.StateMachine.Gates
import MigrationSafety.StateMachine.Cutover
import MigrationSafety.StateMachine.Batches
import MigrationSafety.StateMachine.Pacing
import MigrationSafety.Server.Pacing
import MigrationSafety.StateMachine.Outcomes
import MigrationSafety.StateMachine.Queries
import MigrationSafety.Server.History
import MigrationSafety.StateMachine.CanarySteps
import MigrationSafety.StateMachine.Checkpoints
import MigrationSafety.Server.Follow
import MigrationSafety.Server.FullCanary
import MigrationSafety.Server.Resumption
import MigrationSafety.Server.Audit
import MigrationSafety.Server.Lifecycle
import MigrationSafety.Server.Liveness
import MigrationSafety.Server.Pause
import MigrationSafety.Server.Tables
import MigrationSafety.Server.Deletions
import MigrationSafety.Server.Submit
import MigrationSafety.StateMachine.Indexes
import MigrationSafety.Safety.Sessions
import MigrationSafety.Server.Backends
import MigrationSafety.Server.Auth
import MigrationSafety.Server.Routes
import MigrationSafety.Server.Viewers
import MigrationSafety.StateMachine.Completion
import MigrationSafety.StateMachine.Recovery
import MigrationSafety.StateMachine.Retreat
import MigrationSafety.Safety.Breaker
import MigrationSafety.StateMachine.Solo
import MigrationSafety.StateMachine.Frame
import MigrationSafety.StateMachine.Completeness
import MigrationSafety.StateMachine.Cursor
import MigrationSafety.Server.RoundTrip
import MigrationSafety.Server.Gauge
import MigrationSafety.Safety.Score
import MigrationSafety.StateMachine.Steering
import MigrationSafety.StateMachine.Knob
import MigrationSafety.Ddl.Undo
import MigrationSafety.Plan.Destruction
import MigrationSafety.Plan.Idempotence
import MigrationSafety.Plan.Encoding
import MigrationSafety.Ddl.IndexNames
import MigrationSafety.Server.Interpolation
import MigrationSafety.Server.Pairs
import MigrationSafety.StateMachine.Agreement
import MigrationSafety.StateMachine.Readiness
import MigrationSafety.Server.Registry
import MigrationSafety.Lib.Substitution
import MigrationSafety.StateMachine.Attempts
import MigrationSafety.Server.BulkDelete
import MigrationSafety.Lib.Sweeps
import MigrationSafety.Ddl.Composite
import MigrationSafety.Lib.TokenBucket
import MigrationSafety.Server.RateLimit
import MigrationSafety.Server.Shutdown
import MigrationSafety.Lib.Tilings
import MigrationSafety.Shard.Backfill
import MigrationSafety.Shard.Cover
import MigrationSafety.Shard.Honesty
import MigrationSafety.Lib.Words
import MigrationSafety.Lib.WorkQueue
import MigrationSafety.Shard.Overflow
import MigrationSafety.Shard.Sizing
import MigrationSafety.LoadTest.Engine
import MigrationSafety.LoadTest.Agreement
import MigrationSafety.Pool.Retry
import MigrationSafety.Lib.SessionLocks
import MigrationSafety.Safety.AdvisoryLock
import MigrationSafety.Lib.Texts
import MigrationSafety.Lib.Exposition
import MigrationSafety.Lib.Tables
import MigrationSafety.Frontend.Prometheus
import MigrationSafety.Server.Telemetry
import MigrationSafety.Frontend.Dashboard
import MigrationSafety.Frontend.NewPlan
import MigrationSafety.StateMachine.Tally
