import Forge.Lib.Proc
import Forge.Lib.GoStrings
import Forge.Lib.Regex
import Forge.Lib.ImageReference
import Forge.Lib.Sprintf
import Forge.Platform.Postgres
import Forge.Platform.Uuid
import Forge.Platform.Apperr
import Forge.Lib.TokenBucket
import Forge.Lib.Total
import Forge.Platform.RateLimit
import Forge.Platform.Jwks
import Forge.Platform.JwksExact
import Forge.Catalog.Values
import Forge.Tenants.Values
import Forge.Tenants.Tenant
import Forge.Tenants.Repository
import Forge.Tenants.Commands
import Forge.Catalog.Service
import Forge.Catalog.Dto
import Forge.Store.Tables
import Forge.Store.World
import Forge.Store.Effects
import Forge.Store.Rules
import Forge.Catalog.Repository
import Forge.Catalog.Commands
import Forge.Catalog.CommandSpec
import Forge.Catalog.CommandTx
import Forge.Catalog.NoLostUpdate
import Forge.Catalog.Sequential
import Forge.Catalog.Records
import Forge.Catalog.RecordSteps
import Forge.Catalog.OutboxLog
import Forge.Lib.Timeline
import Forge.Lib.Saga
import Forge.Catalog.OwnershipHistory
import Forge.Catalog.Handlers
import Forge.Catalog.IfMatch
import Forge.Relay.Relay
import Forge.Relay.Inv
import Forge.Relay.Delivery
import Forge.Lib.Precedence
import Forge.Relay.CommitOrder
import Forge.Provisioning.Provisioner
import Forge.Provisioning.Workflow
import Forge.Provisioning.Rollback
import Forge.Provisioning.Interleaved
import Forge.Provisioning.Restore
import Forge.Provisioning.Cancellation
import Forge.Provisioning.Reader
import Forge.Migrations.Migrate
import Forge.Migrations.Once
import Forge.Migrations.Complete
import Forge.Controller.Desired
import Forge.Controller.Admission
import Forge.Controller.ImagePolicy
import Forge.Controller.Reconcile
import Forge.Controller.Conditions
import Forge.Controller.History
import Forge.Controller.StatusWrite
import Forge.Lib.ControlLoop
import Forge.Controller.Manager
import Forge.Controller.Convergence
import Forge.Controller.SkippedWrite
import Forge.Controller.Generations
import Forge.Controller.Settling
import Forge.Lib.Base64
import Forge.Lib.Json
import Forge.Lib.GoTime
import Forge.Lib.Keyset
import Forge.Catalog.Listing
import Forge.Catalog.QueryBuilder
import Forge.Catalog.ListRequest
import Forge.Tenants.Listing
import Forge.Tenants.ListRequest
import Forge.Tenants.Storable
import Forge.Catalog.Pagination
import Forge.Lib.Protocol
import Forge.Catalog.RegisterProgress
import Forge.Catalog.RegisterRace
import Forge.Catalog.Idempotency
import Forge.Catalog.RowRules
import Forge.Catalog.LoadBack
import Forge.Relay.Phases
import Forge.Relay.Order
import Forge.Relay.Drain
import Forge.Lib.Sha256
import Forge.Catalog.RequestHash
import Forge.Lib.Jwt
import Forge.Platform.Config
import Forge.Platform.Server
import Forge.Platform.Authorised
import Forge.Platform.Throttled
import Forge.Relay.Replay
import Forge.Relay.Subscriber
