import KenkuiServer.Storage.Schema

/-! The local SQLite schema. A transaction begins with `BEGIN IMMEDIATE`, which takes the one lock of
the database, so transactions run one after the other. -/
namespace KenkuiServer.Storage
open Txn Jobs

structure LocalDb where
  assets : Table Asset.id := ∅
  jobs : Table Job.id := ∅
  events : Table fun r : JobEvent => (r.jobId, r.sequence) := ∅
  dispatches : Table Dispatch.id := ∅
  leases : Table ExecutionLease.dispatchId := ∅
  failures : Table JobFailure.jobId := ∅
  artifacts : Table Artifact.id := ∅
  idempotency : Table JobIdempotency.key := ∅

inductive LocalWrite
  | job (r : Job)
  | event (r : JobEvent)
  | dispatch (r : Dispatch)
  | lease (r : ExecutionLease)
  | failure (r : JobFailure)
  | artifact (r : Artifact)
  | idempotency (r : JobIdempotency)

def LocalWrite.apply : LocalWrite → LocalDb → LocalDb
  | job r, d => { d with jobs := d.jobs.put r }
  | event r, d => { d with events := d.events.put r }
  | dispatch r, d => { d with dispatches := d.dispatches.put r }
  | lease r, d => { d with leases := d.leases.put r }
  | failure r, d => { d with failures := d.failures.put r }
  | artifact r, d => { d with artifacts := d.artifacts.put r }
  | idempotency r, d => { d with idempotency := d.idempotency.put r }

instance : Store LocalDb LocalWrite Unit := ⟨LocalWrite.apply, fun _ => ()⟩

abbrev LocalStatement (β : Type) := Stmt LocalDb LocalWrite Unit Error β

abbrev LocalProcedure (α : Type) := Prog LocalDb LocalWrite Unit Error α

namespace LocalDb

/-- `SELECT COALESCE(MAX(sequence), 0) + 1 FROM job_events WHERE job_id = jobId`. -/
def nextSequence (d : LocalDb) (jobId : String) : ℕ :=
  (((d.events.rows.filter (·.jobId = jobId)).map (·.sequence)).foldr max 0) + 1

def dispatchOfJob (d : LocalDb) (jobId : String) : Option Dispatch :=
  d.dispatches.rows.find? (·.jobId = jobId)

def dispatchJob (d : LocalDb) (dispatchId : String) : Option Job := do
  let dispatch ← d.dispatches.get? dispatchId
  d.jobs.get? dispatch.jobId

/-- The leases that count against the limit: not expired at `now`, of a job still running. -/
def activeLeases (d : LocalDb) (now : Time) : List ExecutionLease :=
  d.leases.rows.filter fun l =>
    l.expiresAt > now ∧ (d.dispatchJob l.dispatchId).any (!·.status.isTerminal)

end LocalDb

section
variable (d : LocalDb)

@[simp] theorem apply_job (r : Job) : apply (LocalWrite.job r) d = { d with jobs := d.jobs.put r } := rfl

@[simp] theorem apply_event (r : JobEvent) :
    apply (LocalWrite.event r) d = { d with events := d.events.put r } := rfl

@[simp] theorem apply_dispatch (r : Dispatch) :
    apply (LocalWrite.dispatch r) d = { d with dispatches := d.dispatches.put r } := rfl

@[simp] theorem apply_lease (r : ExecutionLease) :
    apply (LocalWrite.lease r) d = { d with leases := d.leases.put r } := rfl

@[simp] theorem apply_failure (r : JobFailure) :
    apply (LocalWrite.failure r) d = { d with failures := d.failures.put r } := rfl

@[simp] theorem apply_artifact (r : Artifact) :
    apply (LocalWrite.artifact r) d = { d with artifacts := d.artifacts.put r } := rfl

@[simp] theorem apply_idempotency (r : JobIdempotency) :
    apply (LocalWrite.idempotency r) d = { d with idempotency := d.idempotency.put r } := rfl

end

end KenkuiServer.Storage
