import KenkuiServer.Hosted.Calls
import KenkuiServer.Local.Calls
import KenkuiServer.Credits.Conservation
import KenkuiServer.Txn.Versioned
import KenkuiServer.Hosted.Coupling
import KenkuiServer.Txn.ReadCommitted
import KenkuiServer.Txn.Rely
import KenkuiServer.Hosted.Interference
import KenkuiServer.Hosted.Writes
import KenkuiServer.Hosted.Concurrency
import KenkuiServer.Hosted.Absorbing
import KenkuiServer.EventLog
import KenkuiServer.Fencing
import KenkuiServer.Local.Limit
import KenkuiServer.Credits.Greedy
import KenkuiServer.Credits.Order
import KenkuiServer.Credits.Refinement
import KenkuiServer.Api.Jobs
import KenkuiServer.Recovery
import KenkuiServer.Contract
import KenkuiServer.Local.Superseded
import KenkuiServer.Hosted.Retention
import KenkuiServer.Local.Cleanup
import KenkuiServer.Local.Failures
import KenkuiServer.Storage.Migrations
import KenkuiServer.Billing.Stripe
import KenkuiServer.Api.Requests
import KenkuiServer.Credits.Admission
import KenkuiServer.Data.Element
import KenkuiServer.Data.Posix
import KenkuiServer.Api.Covers
import KenkuiServer.Api.CoverReads
import KenkuiServer.Hosted.LotMigration
import KenkuiServer.Credits.Deliveries
import KenkuiServer.Hosted.Allowance
import KenkuiServer.Data.Uuid
import KenkuiServer.Notifications.Messages
import KenkuiServer.Data.Rounding
import KenkuiServer.Data.Trace
import KenkuiServer.Notifications.Service
import KenkuiServer.Notifications.Deployment
import KenkuiServer.Api.Notifications
import KenkuiServer.Local.JobMoves
import KenkuiServer.Local.Progress
import KenkuiServer.Local.FinishLoop
import KenkuiServer.Hosted.Newest
import KenkuiServer.Local.Histories
import KenkuiServer.Local.Publications
import KenkuiServer.Local.Safety
import KenkuiServer.Local.Supervision
import KenkuiServer.Hosted.Artifacts
import KenkuiServer.Api.Ownership
