import KenkuiServer.Storage.PostgresExecution
import Mathlib.Data.List.Sort

/-! Hosted job persistence with transaction-bound compound writes, and hosted admission. -/
namespace KenkuiServer.Storage
open Txn Jobs Billing

namespace PostgresRepositories
open PostgresExecution

def selectJob (jobId : String) : Statement (Option Job) :=
  .select fun d => (d.jobs.get? jobId).map (·.toJob)

/-- `UPDATE jobs SET status, version, progress_json WHERE id AND version = expectedVersion`. -/
def updateJob (job : Job) (expectedVersion : ℤ) : Statement ℕ :=
  .update fun d =>
    match d.jobs.get? job.id with
    | none => .ok none
    | some row =>
      if (row.version : ℤ) = expectedVersion then
        .ok (some (.job (row.set job.status job.version job.progress)))
      else .ok none

def selectNextSequence (jobId : String) : Statement ℕ := .select fun d => d.nextSequence jobId

def insertEvent (event : JobEvent) : Statement Unit :=
  .insert (.event event) [] fun d =>
    if (d.events.get? (event.jobId, event.sequence)).isSome then .error (.integrity "job_events_pkey")
    else .ok ()

def insertArtifact (artifact : Artifact) : Statement Unit :=
  .insert (.artifact artifact) [.artifactJob artifact.jobId] fun d =>
    if (d.artifacts.get? artifact.id).isSome then .error (.integrity "artifacts_pkey")
    else if d.artifacts.rows.any (·.jobId = artifact.jobId) then
      .error (.integrity "artifacts_one_per_job")
    else .ok ()

def insertFailure (row : JobFailure) : Statement Unit :=
  .insert (.failure row) [] fun d =>
    if (d.failures.get? row.jobId).isSome then .error (.integrity "job_failures_pkey") else .ok ()

/-- `UPDATE jobs SET terminal_at=now() WHERE id`. -/
def setTerminalAt (jobId : String) (at' : Time) : Statement ℕ :=
  .update fun d =>
    match d.jobs.get? jobId with
    | none => .ok none
    | some row => .ok (some (.job { row with terminalAt := some at' }))

def selectDispatchStatus (jobId : String) : Statement (Option String) :=
  .select fun d => (d.dispatchOfJob jobId).map (·.status)

def selectJobStatus (jobId : String) : Statement (Option JobStatus) :=
  .select fun d => (d.jobs.get? jobId).map (·.status)

/-- `UPDATE dispatches SET status = 'done', version WHERE id AND version = dispatch.version`. -/
def finishDispatch (dispatch : Dispatch) : Statement ℕ :=
  .update fun d =>
    match d.dispatches.get? dispatch.id with
    | none => .ok none
    | some row =>
      if row.version = dispatch.version then
        .ok (some (.dispatch { row with status := "done", version := dispatch.version + 1 }))
      else .ok none

/-- `UPDATE dispatches SET status, version WHERE id AND version = expectedVersion`. -/
def updateDispatchRow (dispatch : Dispatch) (expectedVersion : ℤ) : Statement ℕ :=
  .update fun d =>
    match d.dispatches.get? dispatch.id with
    | none => .ok none
    | some row =>
      if (row.version : ℤ) = expectedVersion then
        .ok (some (.dispatch { row with status := dispatch.status, version := dispatch.version }))
      else .ok none

/-- `dispatches.update`. -/
def updateDispatch (dispatch : Dispatch) (expectedVersion : ℤ) : Procedure Unit := do
  .raiseIf ((dispatch.version : ℤ) ≠ expectedVersion + 1) (.value "invalid_dispatch_version")
  let rowcount ← (updateDispatchRow dispatch expectedVersion).issue
  requireOne rowcount

/-- The next event of a job, inserted by two statements: its sequence, then the row. -/
def appendEvent (jobId eventType : String) (progress : Progress) : Procedure JobEvent := do
  let sequence ← (selectNextSequence jobId).issue
  match JobEvent.init jobId sequence eventType progress with
  | .error e => .raise e
  | .ok event =>
    (insertEvent event).issue
    return event

/-- `terminal_at` and the reservation of a job that reached a terminal status. -/
def finishJob (billing : BillingHook) (job : Job) (at' : Time) : Procedure Unit := do
  if job.status.isTerminal then
    let _ ← (setTerminalAt job.id at').issue
    match billing with
    | none => return
    | some finalize =>
      let _ ← finalize job.id (if job.status = .succeeded then .settled else .released)

def recordArtifact (job : Job) : Option Artifact → Procedure Unit
  | none => return
  | some artifact => do
    .raiseIf (job.status ≠ .succeeded ∨ artifact.jobId ≠ job.id) (.value "invalid_completion_artifact")
    (insertArtifact artifact).issue

def recordFailure (job : Job) : Option (String × String) → Procedure Unit
  | none => return
  | some (code, message) => (insertFailure ⟨job.id, code, message⟩).issue

def updateJobAndAppendEvent (billing : BillingHook) (job : Job) (expectedVersion : ℤ)
    (eventType : String) (artifact : Option Artifact) (lease : Option Lease)
    (failure : Option (String × String)) (now at' : Time) : Procedure JobEvent := do
  checkLease lease now
  let rowcount ← (updateJob job expectedVersion).issue
  requireOne rowcount
  let event ← appendEvent job.id eventType job.progress
  recordArtifact job artifact
  recordFailure job failure
  finishJob billing job at'
  return event

/-- The status and event type that a cancellation request gives a job. -/
def cancellation (status : JobStatus) (dispatch : Option String) : JobStatus × String :=
  if status = .queued ∨ dispatch.any (fun s => s ∉ ["pending", "running"]) then
    (.cancelled, "cancelled")
  else (.cancelRequested, "cancel_requested")

theorem cancellation_status (status : JobStatus) (dispatch : Option String) :
    (cancellation status dispatch).1 = .cancelled ∨
      (cancellation status dispatch).1 = .cancelRequested := by
  unfold cancellation
  split_ifs <;> simp

def requestCancellation (billing : BillingHook) (jobId : String) (at' : Time) : Procedure Job := do
  match ← (selectJob jobId).issue with
  | none => .raise (.key jobId)
  | some current =>
    if current.status.isTerminal ∨ current.status = .cancelRequested then return current
    let dispatch ← (selectDispatchStatus jobId).issue
    let (status, eventType) := cancellation current.status dispatch
    let cancelled := { current with status, version := current.version + 1 }
    let rowcount ← (updateJob cancelled current.version).issue
    requireOne rowcount
    let sequence ← (selectNextSequence jobId).issue
    (insertEvent ⟨jobId, sequence, eventType, cancelled.progress⟩).issue
    finishJob billing cancelled at'
    return cancelled

def finishDispatchIfNotCancellationRequested (dispatch : Dispatch) (lease : Option Lease)
    (now : Time) : Procedure Bool := do
  checkLease lease now
  match ← (selectJobStatus dispatch.jobId).issue with
  | none => .raise (.key dispatch.jobId)
  | some status =>
    if status = .cancelRequested then return false
    .raiseIf (!status.isTerminal) .staleWrite
    let rowcount ← (finishDispatch dispatch).issue
    requireOne rowcount
    return true

/-- `list_incomplete`: the dispatches of the jobs that are not over, `ORDER BY d.id` in the database's
collation. -/
def listIncomplete (collate : String → String → Bool) (d : HostedDb) : List Dispatch :=
  (d.dispatches.rows.filter fun row => (d.jobs.get? row.jobId).any (!·.status.isTerminal)).insertionSort
    fun row row' => collate row.id row'.id

def selectIdempotency (key : String) : Statement (Option JobIdempotency) :=
  .select fun d => d.idempotency.get? key

def insertJob (row : JobRow) : Statement Unit :=
  .insert (.job row) [] fun d =>
    if (d.jobs.get? row.id).isSome then .error (.integrity "jobs_pkey") else .ok ()

def insertDispatch (dispatch : Dispatch) : Statement Unit :=
  .insert (.dispatch dispatch) [.dispatchJob dispatch.jobId] fun d =>
    if (d.jobs.get? dispatch.jobId).isNone then .error (.integrity "dispatches_job_id_fkey")
    else if (d.dispatches.get? dispatch.id).isSome then .error (.integrity "dispatches_pkey")
    else if (d.dispatchOfJob dispatch.jobId).isSome then .error (.integrity "dispatches_one_per_job")
    else .ok ()

def insertIdempotency (row : JobIdempotency) : Statement Unit :=
  .insert (.idempotency row) [] fun d =>
    if (d.idempotency.get? row.key).isSome then .error (.integrity "job_idempotency_pkey") else .ok ()

/-- The job already created under the key, if any. -/
def admitted : Option String → Procedure (Option Job)
  | none => return none
  | some key => do
    match ← (selectIdempotency key).issue with
    | none => return none
    | some existing =>
      match ← (selectJob existing.jobId).issue with
      | none => .raise (.runtime "orphaned_idempotency_key")
      | some job => return some job

def recordKey : Option String → String → Procedure Unit
  | none, _ => return
  | some key, jobId => (insertIdempotency ⟨key, jobId⟩).issue

/-- `create_job_and_dispatch`: under a key that is already taken, the job that took it. -/
def createJobAndDispatch (job : Job) (dispatch : Dispatch) (idempotencyKey : Option String) :
    Procedure Job := do
  match ← admitted idempotencyKey with
  | some existing => return existing
  | none =>
    (insertJob { job with }).issue
    (insertDispatch dispatch).issue
    recordKey idempotencyKey job.id
    return job

end PostgresRepositories

namespace PostgresHostedRepository
open PostgresExecution PostgresRepositories PostgresBillingRepository

/-- Hosted repositories finalize the reservation of a job that ended. -/
def billing : BillingHook := some PostgresBillingRepository.finalize

def countActiveJobs (ownerId : String) : Statement ℕ :=
  .select fun d => (d.jobs.rows.filter fun r => r.ownerId = some ownerId ∧ !r.status.isTerminal).length

def selectAssetForUpdate (assetId : String) : Statement (Option AssetRow) :=
  .selectForUpdate (.asset assetId) fun d => d.assets.get? assetId

/-- The replay lookup of an admission: the job already admitted under the key, if any. -/
def replay (spec : JobSpec) (idempotencyKey : Option String) : Procedure (Option Job) := do
  match ← admitted idempotencyKey with
  | none => return none
  | some job =>
    .raiseIf (job.spec ≠ spec) (.value "idempotency_conflict")
    return some job

/-- The checks and inserts of an admission that is no replay. -/
def admitNew (authorizationId : String) (job : Job) (dispatch : Dispatch) (accountId ownerId : String)
    (credits : ℤ) (idempotencyKey : Option String) : Procedure Job := do
  let active ← (countActiveJobs ownerId).issue
  .raiseIf (active ≥ 3) (.value "active_job_limit")
  let source ← (selectAssetForUpdate job.spec.sourceId).issue
  .raiseIf (source.any (·.deletedAt.isSome)) (.value "source_expired")
  let _ ← reserveNew authorizationId job.id accountId credits
  (insertJob { job with ownerId := some ownerId }).issue
  (insertDispatch dispatch).issue
  recordKey idempotencyKey job.id
  return job

/-- Admission of a job. -/
def admitJob (authorizationId : String) (job : Job) (dispatch : Dispatch) (accountId ownerId : String)
    (credits : ℤ) (idempotencyKey : Option String) : Procedure Job := do
  .raiseIf (credits < 1) (.value "invalid_credit_amount")
  -- Serialize admissions for an account before checking replay or balance.
  let _ ← (selectAccountForUpdate accountId).issue
  match ← replay job.spec idempotencyKey with
  | some existing => return existing
  | none => admitNew authorizationId job dispatch accountId ownerId credits idempotencyKey

end PostgresHostedRepository

end KenkuiServer.Storage
