import Syncraft.Library.Text
import Syncraft.Library.JsonText
import Syncraft.Library.Json
import Syncraft.Library.JsonBytes
import Syncraft.Library.Base64
import Syncraft.Library.CausalLog
import Syncraft.Library.CausalMap
import Syncraft.Library.Frontier
import Syncraft.Library.Ancestry
import Syncraft.Library.Join
import Syncraft.Library.Numbered
import Syncraft.Library.Keyed
import Syncraft.Library.RowLock
import Syncraft.Library.Program
import Syncraft.Library.Unwinding
import Syncraft.Library.Run
import Syncraft.Library.FixedWindow
import Syncraft.Library.Once
import Syncraft.Library.Pager
import Syncraft.Library.Descent
import Syncraft.Domain.Model
import Syncraft.Domain.Validate
import Syncraft.Domain.Merge
import Syncraft.Store.Store
import Syncraft.Store.Memory
import Syncraft.Store.MemoryInvariant
import Syncraft.Store.Methods
import Syncraft.Store.Attachments
import Syncraft.Store.Revocation
import Syncraft.Store.Replay
import Syncraft.Store.Postgres
import Syncraft.Store.Page
import Syncraft.Store.PostgresConcurrency
import Syncraft.Store.PostgresRevocation
import Syncraft.Store.PostgresRefinement
import Syncraft.Store.Listings
import Syncraft.Field.Operation
import Syncraft.Field.Validators
import Syncraft.Field.Wire
import Syncraft.Field.Replica
import Syncraft.Field.Inspection
import Syncraft.Field.Agreement
import Syncraft.Field.Overlap
import Syncraft.Field.Resolution
import Syncraft.Field.LocalStore
import Syncraft.Field.DemoSeed
import Syncraft.Field.Recovery
import Syncraft.Field.Bundle
import Syncraft.Field.AttachmentStore
import Syncraft.Field.StoreRun
import Syncraft.Field.ApiClient
import Syncraft.Api.Handlers
import Syncraft.Api.Server
import Syncraft.Api.Confinement
import Syncraft.Api.Isolation
import Syncraft.Api.Answers
import Syncraft.Api.Exchange
import Syncraft.Api.Uploads
import Syncraft.Api.Hub
import Syncraft.Api.Events
import Syncraft.Field.AuditPanel
import Syncraft.Api.RateLimiter
import Syncraft.Field.Recoverable
import Syncraft.Field.PushBody
import Syncraft.Field.UploadQueue
import Syncraft.Field.WorkspaceController
import Syncraft.Field.Restoring
import Syncraft.Field.Requests
import Syncraft.Field.Refresh
import Syncraft.Field.Screen
import Syncraft.Field.Creation
import Syncraft.Api.Revocation
import Syncraft.Field.SyncEngine
import Syncraft.Field.Engine
import Syncraft.Field.Decoding
import Syncraft.Field.Pausing
import Syncraft.Field.Projection
import Syncraft.Field.Schedule
import Syncraft.Field.LiveHints
import Syncraft.Field.Binding
import Syncraft.Field.Refusal
import Syncraft.Field.Effects
import Syncraft.Field.Queue
import Syncraft.System.System
import Syncraft.System.StoreInvariant
import Syncraft.System.Invariant
import Syncraft.System.Progress
import Syncraft.System.Delivery
import Syncraft.System.Convergence
import Syncraft.System.Poison
import Syncraft.System.Roundtrip
import Syncraft.System.Evidence
import Syncraft.System.Deployment
import Syncraft.System.Refinement
import Syncraft.System.Rounds
import Syncraft.System.Deployed
import Syncraft.System.CatchUp
import Syncraft.System.Retries
