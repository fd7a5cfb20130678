import KenkuiServer.Billing.Models
import KenkuiServer.Jobs.Transitions
import KenkuiServer.Txn.Program
import KenkuiServer.Txn.Table
import Mathlib.Algebra.Ring.Int.Defs
import Mathlib.Data.Rat.Defs

/-! The hosted PostgreSQL schema: its tables, the row writes of its statements, and the row locks
those statements take. Identity columns, timestamps that nothing compares and foreign keys that
hold by construction are left out. -/
namespace KenkuiServer.Storage
open Txn Jobs Billing

/-- Seconds since the epoch. -/
abbrev Time := ℚ

structure JobRow extends Job where
  ownerId : Option String := none
  terminalAt : Option Time := none
  deriving DecidableEq, Repr

/-- `SET status, version, progress_json`. -/
def JobRow.set (row : JobRow) (status : JobStatus) (version : ℕ) (progress : Progress) : JobRow :=
  { row with status, version, progress }

structure ExecutionLease where
  dispatchId : String
  token : String
  expiresAt : Time
  attempts : ℕ
  deriving DecidableEq, Repr

/-- A dispatch and the token of the attempt that may run it. -/
abbrev Lease := String × String

structure JobFailure where
  jobId : String
  code : String
  message : String
  deriving DecidableEq, Repr

structure JobIdempotency where
  key : String
  jobId : String
  deriving DecidableEq, Repr

structure AssetRow where
  id : String
  createdAt : Time := 0
  deletedAt : Option Time := none
  deriving DecidableEq, Repr

structure AccountRow extends CreditAccount where
  identityId : String
  deriving DecidableEq, Repr

structure CreditAllocation where
  authorizationId : String
  lotId : String
  accountId : String
  credits : ℤ
  deriving DecidableEq, Repr

structure PaymentEventRow where
  provider : String
  providerEventId : String
  deriving DecidableEq, Repr

structure BillingDb where
  accounts : Table fun r : AccountRow => r.id := ∅
  lots : Table CreditLot.id := ∅
  allocations : Table fun r : CreditAllocation => (r.authorizationId, r.lotId) := ∅
  authorizations : Table CreditAuthorization.id := ∅
  ledger : Table LedgerEntry.reference := ∅
  paymentEvents : Table fun r : PaymentEventRow => (r.provider, r.providerEventId) := ∅

structure HostedDb where
  jobs : Table fun r : JobRow => r.id := ∅
  events : Table fun r : JobEvent => (r.jobId, r.sequence) := ∅
  dispatches : Table Dispatch.id := ∅
  leases : Table ExecutionLease.dispatchId := ∅
  failures : Table JobFailure.jobId := ∅
  artifacts : Table Artifact.id := ∅
  idempotency : Table JobIdempotency.key := ∅
  assets : Table AssetRow.id := ∅
  billing : BillingDb := {}

inductive BillingWrite
  | account (r : AccountRow)
  | lot (r : CreditLot)
  | allocation (r : CreditAllocation)
  | authorization (r : CreditAuthorization)
  | ledger (r : LedgerEntry)
  | paymentEvent (r : PaymentEventRow)

inductive Write
  | job (r : JobRow)
  | event (r : JobEvent)
  | dispatch (r : Dispatch)
  | lease (r : ExecutionLease)
  | failure (r : JobFailure)
  | artifact (r : Artifact)
  | idempotency (r : JobIdempotency)
  | asset (r : AssetRow)
  /-- The stored object of an asset is deleted: nothing in the database, and nothing that a rollback
  undoes. -/
  | object (assetId : String)
  | billing (w : BillingWrite)

/-- What a transaction can lock: a row, by its table and one of its unique keys, or an advisory
lock. -/
inductive Key
  | advisory (n : ℕ)
  | job (id : String)
  | event (jobId : String) (sequence : ℕ)
  | dispatch (id : String)
  | dispatchJob (jobId : String)
  | lease (dispatchId : String)
  | failure (jobId : String)
  | artifact (id : String)
  | artifactJob (jobId : String)
  | idempotency (key : String)
  | asset (id : String)
  | account (id : String)
  | accountIdentity (identityId : String)
  | lot (id : String)
  | lotReference (reference : String)
  | allocation (authorizationId lotId : String)
  | authorization (id : String)
  | authorizationJob (jobId : String)
  | ledger (reference : String)
  | ledgerKind (authorizationId : Option String) (kind : LedgerKind)
  | paymentEvent (provider providerEventId : String)
  deriving DecidableEq

namespace BillingWrite

def apply : BillingWrite → BillingDb → BillingDb
  | account r, b => { b with accounts := b.accounts.put r }
  | lot r, b => { b with lots := b.lots.put r }
  | allocation r, b => { b with allocations := b.allocations.put r }
  | authorization r, b => { b with authorizations := b.authorizations.put r }
  | ledger r, b => { b with ledger := b.ledger.put r }
  | paymentEvent r, b => { b with paymentEvents := b.paymentEvents.put r }

def key : BillingWrite → Key
  | account r => .account r.id
  | lot r => .lot r.id
  | allocation r => .allocation r.authorizationId r.lotId
  | authorization r => .authorization r.id
  | ledger r => .ledger r.reference
  | paymentEvent r => .paymentEvent r.provider r.providerEventId

end BillingWrite

namespace Write

def apply : Write → HostedDb → HostedDb
  | job r, d => { d with jobs := d.jobs.put r }
  | event r, d => { d with events := d.events.put r }
  | dispatch r, d => { d with dispatches := d.dispatches.put r }
  | lease r, d => { d with leases := d.leases.put r }
  | failure r, d => { d with failures := d.failures.put r }
  | artifact r, d => { d with artifacts := d.artifacts.put r }
  | idempotency r, d => { d with idempotency := d.idempotency.put r }
  | asset r, d => { d with assets := d.assets.put r }
  | object _, d => d
  | billing w, d => { d with billing := w.apply d.billing }

def key : Write → Key
  | job r => .job r.id
  | event r => .event r.jobId r.sequence
  | dispatch r => .dispatch r.id
  | lease r => .lease r.dispatchId
  | failure r => .failure r.jobId
  | artifact r => .artifact r.id
  | idempotency r => .idempotency r.key
  | asset r => .asset r.id
  | object assetId => .asset assetId
  | billing w => w.key

def isBilling : Write → Bool
  | billing _ => true
  | _ => false

end Write

instance : Store HostedDb Write Key := ⟨Write.apply, Write.key⟩

abbrev Statement (β : Type) := Stmt HostedDb Write Key Error β

abbrev Procedure (α : Type) := Prog HostedDb Write Key Error α

section
variable (w : Write) (d : HostedDb)

@[simp] theorem jobs_apply :
    (apply w d).jobs = match w with | .job r => d.jobs.put r | _ => d.jobs := by cases w <;> rfl

@[simp] theorem events_apply :
    (apply w d).events = match w with | .event r => d.events.put r | _ => d.events := by cases w <;> rfl

@[simp] theorem dispatches_apply :
    (apply w d).dispatches = match w with | .dispatch r => d.dispatches.put r | _ => d.dispatches := by
  cases w <;> rfl

@[simp] theorem leases_apply :
    (apply w d).leases = match w with | .lease r => d.leases.put r | _ => d.leases := by cases w <;> rfl

@[simp] theorem failures_apply :
    (apply w d).failures = match w with | .failure r => d.failures.put r | _ => d.failures := by
  cases w <;> rfl

@[simp] theorem artifacts_apply :
    (apply w d).artifacts = match w with | .artifact r => d.artifacts.put r | _ => d.artifacts := by
  cases w <;> rfl

@[simp] theorem idempotency_apply :
    (apply w d).idempotency = match w with | .idempotency r => d.idempotency.put r | _ => d.idempotency := by
  cases w <;> rfl

@[simp] theorem assets_apply :
    (apply w d).assets = match w with | .asset r => d.assets.put r | _ => d.assets := by cases w <;> rfl

@[simp] theorem billing_apply :
    (apply w d).billing = match w with | .billing bw => bw.apply d.billing | _ => d.billing := by
  cases w <;> rfl

end

namespace BillingWrite
variable (w : BillingWrite) (b : BillingDb)

@[simp] theorem accounts_apply :
    (w.apply b).accounts = match w with | account r => b.accounts.put r | _ => b.accounts := by
  cases w <;> rfl

@[simp] theorem lots_apply :
    (w.apply b).lots = match w with | lot r => b.lots.put r | _ => b.lots := by cases w <;> rfl

@[simp] theorem allocations_apply :
    (w.apply b).allocations = match w with | allocation r => b.allocations.put r | _ => b.allocations := by
  cases w <;> rfl

@[simp] theorem authorizations_apply :
    (w.apply b).authorizations =
      match w with | authorization r => b.authorizations.put r | _ => b.authorizations := by
  cases w <;> rfl

@[simp] theorem ledger_apply :
    (w.apply b).ledger = match w with | ledger r => b.ledger.put r | _ => b.ledger := by cases w <;> rfl

@[simp] theorem paymentEvents_apply :
    (w.apply b).paymentEvents =
      match w with | paymentEvent r => b.paymentEvents.put r | _ => b.paymentEvents := by
  cases w <;> rfl

end BillingWrite

/-- The range of an `INTEGER` column. -/
def fitsInteger (n : ℤ) : Bool := -2147483648 ≤ n ∧ n ≤ 2147483647

end KenkuiServer.Storage
