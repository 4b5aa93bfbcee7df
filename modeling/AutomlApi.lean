import AutomlApi.Library.Runs
import AutomlApi.Library.Dict
import AutomlApi.Library.Act
import AutomlApi.Store.Value
import AutomlApi.Jobs.Lease
import AutomlApi.Jobs.Holding
import AutomlApi.Worker.Survival
import AutomlApi.Store.Tidy
import AutomlApi.Store.Deliveries
import AutomlApi.Store.Recording
import AutomlApi.Store.Atomic
import AutomlApi.Store.Compound
import AutomlApi.Store.Mutations
import AutomlApi.Library.Durable
import AutomlApi.Workflow.Data
import AutomlApi.Workflow.World
import AutomlApi.Workflow.Stages
import AutomlApi.Workflow.Steps
import AutomlApi.Workflow.Commands
import AutomlApi.Workflow.System
import AutomlApi.Workflow.Standing
import AutomlApi.Workflow.Records
import AutomlApi.Workflow.Effects
import AutomlApi.Store.Frames
import AutomlApi.Requests.Idempotent
import AutomlApi.Requests.Replaying
import AutomlApi.Requests.Protocol
import AutomlApi.Requests.Retries
import AutomlApi.Workflow.Laws
import AutomlApi.Workflow.Conduct
import AutomlApi.Workflow.Publishing
import AutomlApi.Workflow.Handling
import AutomlApi.Workflow.Places
import AutomlApi.Workflow.Sections
import AutomlApi.Workflow.Turns
import AutomlApi.Workflow.Life
import AutomlApi.Workflow.Outputs
import AutomlApi.Workflow.Endings
import AutomlApi.Workflow.Settling
import AutomlApi.Workflow.Guards
import AutomlApi.Engine.Execution
import AutomlApi.Engine.Sealing
import AutomlApi.Engine.Independence
import AutomlApi.Library.Json
import AutomlApi.Requests.Fingerprint
import AutomlApi.Requests.EndToEnd
import AutomlApi.Requests.Revisions
import AutomlApi.Requests.Ranges
import AutomlApi.Requests.Restarts
import AutomlApi.Workflow.Training
import AutomlApi.Streams.Slots
import AutomlApi.Streams.Server
import AutomlApi.Streams.Waiting
import AutomlApi.Streams.Frames
import AutomlApi.Streams.Following
import AutomlApi.Library.Paging
import AutomlApi.Store.Stock
import AutomlApi.Store.Sections
import AutomlApi.Pages.Exact
import AutomlApi.Pages.Numbers
import AutomlApi.Pages.Windows
import AutomlApi.Pages.Ties
import AutomlApi.Packets.Answers
import AutomlApi.Packets.Recommendations
import AutomlApi.Engine.PositiveClass
import AutomlApi.Quotas.Storage
import AutomlApi.Webhooks.Attempts
import AutomlApi.Webhooks.Endpoints
import AutomlApi.Webhooks.Order
import AutomlApi.Webhooks.Chronology
import AutomlApi.Backups.Files
import AutomlApi.Backups.Outcomes
import AutomlApi.Backups.Complete
import AutomlApi.Uploads.Finalizing
import AutomlApi.Uploads.Ready
import AutomlApi.Uploads.Sessions
import AutomlApi.Downloads.Atomic
import AutomlApi.Hardening.Capped
import AutomlApi.Workflow.Quota
import AutomlApi.Workflow.Progress
import AutomlApi.Workflow.Absorbing
import AutomlApi.Workflow.Pausing
import AutomlApi.Workflow.Deaths
import AutomlApi.Tokens.Verified
import AutomlApi.Tokens.Tickets
import AutomlApi.Hardening.Metrics
import AutomlApi.Sdk.Iterating
import AutomlApi.Backups.Verifying
import AutomlApi.Backups.Retaining
import AutomlApi.Webhooks.Callbacks
import AutomlApi.Store.Chronicle
import AutomlApi.Webhooks.Registration
import AutomlApi.Webhooks.Choosing
import AutomlApi.Hardening.Serving
import AutomlApi.Engine.Reporting
