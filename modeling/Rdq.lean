import Rdq.Foundation.KeyedTable
import Rdq.Foundation.Trace
import Rdq.Foundation.Potential
import Rdq.Foundation.GoJson
import Rdq.Foundation.Wildcard
import Rdq.Foundation.Unicode
import Rdq.Foundation.Utf8
import Rdq.Foundation.ServeMux
import Rdq.Foundation.Base64
import Rdq.Foundation.Strconv
import Rdq.Foundation.KeysetPaging
import Rdq.Foundation.BigEndian
import Rdq.Foundation.RatInt64
import Rdq.Foundation.Calendar
import Rdq.Foundation.JsonString
import Rdq.Foundation.JsonText
import Rdq.Foundation.JsonCodec
import Rdq.Foundation.JsonRecord
import Rdq.Core.Envelope
import Rdq.Core.StringMap
import Rdq.Core.Spi
import Rdq.Core.Glob
import Rdq.Core.Wire
import Rdq.Core.WireFields
import Rdq.Core.WireResidual
import Rdq.Core.WireRoundTrip
import Rdq.Core.WireStable
import Rdq.Core.Truncate
import Rdq.Core.Ulid
import Rdq.Core.DeadLetters
import Rdq.MemStore.Store
import Rdq.MemStore.Transition
import Rdq.MemStore.Fencing
import Rdq.MemStore.Lifecycle
import Rdq.MemStore.Accounting
import Rdq.MemStore.Deaths
import Rdq.MemStore.DlqList
import Rdq.MemStore.Paging
import Rdq.MemStore.FilterStreaming
import Rdq.MemStore.ClaimDue
import Rdq.MemStore.DeadLetters
import Rdq.Engine.Registry
import Rdq.Engine.Run
import Rdq.Engine.Backoff
import Rdq.Engine.RateLimit
import Rdq.Engine.Poll
import Rdq.Engine.Process
import Rdq.Engine.RecordedErrors
import Rdq.Engine.JavaProcess
import Rdq.Engine.Agreement
import Rdq.Engine.Classify
import Rdq.Engine.Fleet
import Rdq.Engine.MemFleet
import Rdq.Engine.Counters
import Rdq.Engine.PoisonPill
import Rdq.Engine.AttemptNumbers
import Rdq.Engine.Leases
import Rdq.Postgres.Schema
import Rdq.Postgres.Store
import Rdq.Postgres.Transition
import Rdq.Postgres.AttemptNumbers
import Rdq.Postgres.ReadCommitted
import Rdq.Postgres.OneHome
import Rdq.Postgres.ConcurrentSubmit
import Rdq.Postgres.SnapshotGet
import Rdq.Postgres.DlqList
import Rdq.Postgres.JavaCursor
import Rdq.Postgres.Retention
import Rdq.Postgres.Simulation
import Rdq.Postgres.Refinement
import Rdq.Postgres.DeadLetters
import Rdq.Foundation.RowLocks
import Rdq.Postgres.Statements
import Rdq.Postgres.Locks
import Rdq.Postgres.Serial
import Rdq.Server.DlqMutate
import Rdq.Server.FilterHonoured
import Rdq.Server.Router
import Rdq.Server.Authorized
import Rdq.Server.Audit
import Rdq.Server.DlqList
import Rdq.Foundation.GoFloat
import Rdq.Config.Merge
import Rdq.Config.Milliseconds
import Rdq.Foundation.DotSegments
import Rdq.Foundation.NetUrl
import Rdq.Server.AdminConfig
import Rdq.Server.Allowlist
import Rdq.Foundation.GoStrings
import Rdq.Config.Units
import Rdq.Config.Validate
import Rdq.Config.Load
import Rdq.Foundation.Fallible
import Rdq.Engine.Spec
import Rdq.Foundation.JsonOptional
import Rdq.Config.Json
import Rdq.Config.JsonRoundTrip
import Rdq.Sdk.Submit
import Rdq.Sdk.RetrySync
import Rdq.Postgres.Migrations
import Rdq.Foundation.Walk
import Rdq.Engine.CauseChains
import Rdq.Engine.ErrorChains
import Rdq.Foundation.ByteText
import Rdq.Server.Signature
import Rdq.Server.CallbackHeaders
import Rdq.MemStore.IdempotencyKeys
import Rdq.Server.SubmitTask
import Rdq.Foundation.JsonHtml
import Rdq.Foundation.Rfc3339
import Rdq.Core.WirePlain
import Rdq.Postgres.RowCodec
import Rdq.Server.GetTask
import Rdq.Foundation.UrlQuery
import Rdq.Foundation.PageWalk
import Rdq.Server.ListBody
import Rdq.Cli.Filter
import Rdq.Cli.Transports
import Rdq.Engine.Budget
import Rdq.Postgres.Attended
import Rdq.Foundation.TableCount
import Rdq.MemStore.Stats
import Rdq.Postgres.Stats
import Rdq.Postgres.SameStats
import Rdq.Engine.RunLoop
import Rdq.Engine.Shutdown
import Rdq.Postgres.SchemaGates
