import KenkuiServer.Storage.Database
import Mathlib.Data.List.Sort

/-! The authoritative repositories of the local server. Clock readings and generated tokens are
parameters. -/
namespace KenkuiServer.Storage
open Txn Jobs

namespace Repositories

def selectLease (dispatchId : String) : LocalStatement (Option ExecutionLease) :=
  .select fun d => d.leases.get? dispatchId

def checkLease (lease : Option Lease) (now : Time) : LocalProcedure Unit := do
  match lease with
  | none => return
  | some (dispatchId, token) =>
    match ← (selectLease dispatchId).issue with
    | none => .raise .staleWrite
    | some row => if row.token ≠ token ∨ row.expiresAt ≤ now then .raise .staleWrite

def requireOne (rowcount : ℕ) : LocalProcedure Unit := .raiseIf (rowcount ≠ 1) .staleWrite

def selectJob (jobId : String) : LocalStatement (Option Job) := .select fun d => d.jobs.get? jobId

/-- `UPDATE jobs SET status, version, progress_json WHERE id AND version = expectedVersion`. -/
def updateJob (job : Job) (expectedVersion : ℤ) : LocalStatement ℕ :=
  .update fun d =>
    match d.jobs.get? job.id with
    | none => .ok none
    | some row =>
      if (row.version : ℤ) = expectedVersion then
        .ok (some (.job (row.set job.status job.version job.progress)))
      else .ok none

def selectNextSequence (jobId : String) : LocalStatement ℕ := .select fun d => d.nextSequence jobId

def insertEvent (event : JobEvent) : LocalStatement Unit :=
  .insert (.event event) [] fun d =>
    if (d.events.get? (event.jobId, event.sequence)).isSome then
      .error (.integrity "job_events.job_id, job_events.sequence")
    else .ok ()

def insertFailure (row : JobFailure) : LocalStatement Unit :=
  .insert (.failure row) [] fun d =>
    if (d.failures.get? row.jobId).isSome then .error (.integrity "job_failures.job_id") else .ok ()

def insertArtifact (artifact : Artifact) : LocalStatement Unit :=
  .insert (.artifact artifact) [] fun d =>
    if (d.artifacts.get? artifact.id).isSome then .error (.integrity "artifacts.id") else .ok ()

def selectDispatchStatus (jobId : String) : LocalStatement (Option String) :=
  .select fun d => (d.dispatchOfJob jobId).map (·.status)

def selectJobStatus (jobId : String) : LocalStatement (Option JobStatus) :=
  .select fun d => (d.jobs.get? jobId).map (·.status)

/-- `UPDATE dispatches SET status, version WHERE id AND version = expectedVersion`. -/
def updateDispatchRow (dispatch : Dispatch) (expectedVersion : ℤ) : LocalStatement ℕ :=
  .update fun d =>
    match d.dispatches.get? dispatch.id with
    | none => .ok none
    | some row =>
      if (row.version : ℤ) = expectedVersion then
        .ok (some (.dispatch { row with status := dispatch.status, version := dispatch.version }))
      else .ok none

/-- `dispatches.update`. -/
def updateDispatch (dispatch : Dispatch) (expectedVersion : ℤ) : LocalProcedure Unit := do
  .raiseIf ((dispatch.version : ℤ) ≠ expectedVersion + 1) (.value "invalid_dispatch_version")
  let rowcount ← (updateDispatchRow dispatch expectedVersion).issue
  requireOne rowcount

/-- The next event of a job, inserted by two statements: its sequence, then the row. -/
def appendEvent (jobId eventType : String) (progress : Progress) : LocalProcedure JobEvent := do
  let sequence ← (selectNextSequence jobId).issue
  match JobEvent.init jobId sequence eventType progress with
  | .error e => .raise e
  | .ok event =>
    (insertEvent event).issue
    return event

def recordFailure (job : Job) : Option (String × String) → LocalProcedure Unit
  | none => return
  | some (code, message) => (insertFailure ⟨job.id, code, message⟩).issue

def recordArtifact (job : Job) : Option Artifact → LocalProcedure Unit
  | none => return
  | some artifact => do
    .raiseIf (job.status ≠ .succeeded ∨ artifact.jobId ≠ job.id) (.value "invalid_completion_artifact")
    (insertArtifact artifact).issue

def updateJobAndAppendEvent (job : Job) (expectedVersion : ℤ) (eventType : String)
    (artifact : Option Artifact) (lease : Option Lease) (failure : Option (String × String))
    (now : Time) : LocalProcedure JobEvent := do
  .raiseIf ((job.version : ℤ) ≠ expectedVersion + 1) (.value "invalid_job_version")
  checkLease lease now
  let stored ← (selectJob job.id).issue
  .raiseIf (stored.any (·.spec ≠ job.spec)) (.value "immutable_job_spec")
  let rowcount ← (updateJob job expectedVersion).issue
  requireOne rowcount
  let event ← appendEvent job.id eventType job.progress
  recordFailure job failure
  recordArtifact job artifact
  return event

/-- The status and event type that a cancellation request gives a job. -/
def cancellation (status : JobStatus) (dispatch : Option String) : JobStatus × String :=
  if status = .queued then (.cancelled, "cancelled")
  else if dispatch.any (fun s => s ∉ ["pending", "running"]) then (.cancelled, "cancelled")
  else (.cancelRequested, "cancel_requested")

def requestCancellation (jobId : String) : LocalProcedure Job := do
  match ← (selectJob jobId).issue with
  | none => .raise (.key jobId)
  | some current =>
    if current.status.isTerminal ∨ current.status = .cancelRequested then return current
    let dispatch ← (selectDispatchStatus jobId).issue
    let (status, eventType) := cancellation current.status dispatch
    let cancelled := current.set status (current.version + 1) current.progress
    let rowcount ← (updateJob cancelled current.version).issue
    requireOne rowcount
    let sequence ← (selectNextSequence cancelled.id).issue
    (insertEvent ⟨cancelled.id, sequence, eventType, cancelled.progress⟩).issue
    return cancelled

def finishDispatchIfNotCancellationRequested (dispatch : Dispatch) (lease : Option Lease)
    (now : Time) : LocalProcedure Bool := do
  checkLease lease now
  match ← (selectJobStatus dispatch.jobId).issue with
  | none => .raise (.key dispatch.jobId)
  | some status =>
    if status = .cancelRequested then return false
    .raiseIf (!status.isTerminal) .staleWrite
    let rowcount ← (updateDispatchRow { dispatch with status := "done", version := dispatch.version + 1 }
      dispatch.version).issue
    requireOne rowcount
    return true

/-- The join of a dispatch with its job. -/
def selectDispatchJob (dispatchId : String) : LocalStatement (Option (String × JobStatus)) :=
  .select fun d => (d.dispatchJob dispatchId).map fun job => (job.id, job.status)

def countActiveLeases (now : Time) : LocalStatement ℕ := .select fun d => (d.activeLeases now).length

/-- `UPDATE jobs SET status, version=version+1 WHERE id`. -/
def loseJob (jobId : String) (status : JobStatus) : LocalStatement ℕ :=
  .update fun d =>
    match d.jobs.get? jobId with
    | none => .ok none
    | some row => .ok (some (.job (row.set status (row.version + 1) row.progress)))

/-- `UPDATE dispatches SET status, version=version+1 WHERE id`. -/
def setDispatchStatus (dispatchId status : String) : LocalStatement ℕ :=
  .update fun d =>
    match d.dispatches.get? dispatchId with
    | none => .ok none
    | some row => .ok (some (.dispatch { row with status, version := row.version + 1 }))

/-- `INSERT OR REPLACE INTO job_failures`. -/
def replaceFailure (row : JobFailure) : LocalStatement Unit where
  exec _ := .ok ((), [.failure row])

/-- `INSERT INTO job_events SELECT id, <next sequence>, eventType, progress_json FROM jobs WHERE id`. -/
def appendJobEvent (jobId eventType : String) : LocalStatement Unit where
  exec d :=
    match d.jobs.get? jobId with
    | none => .ok ((), [])
    | some row =>
      let event : JobEvent := ⟨jobId, d.nextSequence jobId, eventType, row.progress⟩
      if (d.events.get? (jobId, event.sequence)).isSome then
        .error (.integrity "job_events.job_id, job_events.sequence")
      else .ok ((), [.event event])

/-- `INSERT INTO execution_leases VALUES (.., 1) ON CONFLICT(dispatch_id) DO UPDATE SET token,
expires_at, attempts=attempts+1`. -/
def upsertLease (dispatchId token : String) (expiresAt : Time) : LocalStatement Unit where
  exec d :=
    let attempts := match d.leases.get? dispatchId with
      | none => 1
      | some row => row.attempts + 1
    .ok ((), [.lease { dispatchId, token, expiresAt, attempts }])

/-- The attempt-exhaustion branch of `claim_execution`. -/
def loseWorker (dispatchId jobId : String) (seen : JobStatus) : LocalProcedure Unit := do
  let status : JobStatus := if seen = .cancelRequested then .cancelled else .failed
  let _ ← (loseJob jobId status).issue
  let _ ← (setDispatchStatus dispatchId "done").issue
  (replaceFailure
    ⟨jobId, "worker_lost", "The worker repeatedly stopped. Please retry the job."⟩).issue
  (appendJobEvent jobId status.value).issue

def claimExecution (dispatchId : String) (limit : ℤ) (ttl : Time) (maxAttempts : ℤ) (token : String)
    (now : Time) : LocalProcedure (Option String) := do
  match ← (selectDispatchJob dispatchId).issue with
  | none => return none
  | some (jobId, status) =>
    if status.isTerminal then return none
    let previous ← (selectLease dispatchId).issue
    if previous.any (·.expiresAt > now) then return none
    let active ← (countActiveLeases now).issue
    if active ≥ limit then return none
    if previous.any (·.attempts ≥ maxAttempts) then
      loseWorker dispatchId jobId status
      return none
    (upsertLease dispatchId token (now + ttl)).issue
    let _ ← (setDispatchStatus dispatchId "pending").issue
    return some token

/-- `UPDATE execution_leases SET expires_at WHERE dispatch_id AND token AND expires_at > now`. -/
def renewLease (dispatchId token : String) (expiresAt now : Time) : LocalStatement ℕ :=
  .update fun d =>
    match d.leases.get? dispatchId with
    | none => .ok none
    | some row =>
      if row.token = token ∧ row.expiresAt > now then .ok (some (.lease { row with expiresAt }))
      else .ok none

/-- `UPDATE execution_leases SET expires_at=0 WHERE dispatch_id AND token`. -/
def expireLease (dispatchId token : String) : LocalStatement ℕ :=
  .update fun d =>
    match d.leases.get? dispatchId with
    | none => .ok none
    | some row => if row.token = token then .ok (some (.lease { row with expiresAt := 0 })) else .ok none

def renewExecution (dispatchId token : String) (ttl now now' : Time) : LocalProcedure Bool := do
  let rowcount ← (renewLease dispatchId token (now + ttl) now').issue
  return rowcount = 1

def releaseExecution (dispatchId token : String) : LocalProcedure Unit := do
  let _ ← (expireLease dispatchId token).issue

/-- `list_for_job` of the events: `ORDER BY sequence`. -/
def listForJob (d : LocalDb) (jobId : String) : List JobEvent :=
  (d.events.rows.filter (·.jobId = jobId)).insertionSort fun e e' => e.sequence ≤ e'.sequence

/-- `list_incomplete`: the dispatches of the jobs that are not over, `ORDER BY d.id`. -/
def listIncomplete (d : LocalDb) : List Dispatch :=
  (d.dispatches.rows.filter fun row => (d.jobs.get? row.jobId).any (!·.status.isTerminal)).insertionSort
    fun row row' => row.id ≤ row'.id

def selectIdempotency (key : String) : LocalStatement (Option JobIdempotency) :=
  .select fun d => d.idempotency.get? key

def insertJob (job : Job) : LocalStatement Unit :=
  .insert (.job job) [] fun d =>
    if (d.jobs.get? job.id).isSome then .error (.integrity "jobs.id") else .ok ()

def insertDispatch (dispatch : Dispatch) : LocalStatement Unit :=
  .insert (.dispatch dispatch) [] fun d =>
    if (d.dispatches.get? dispatch.id).isSome then .error (.integrity "dispatches.id")
    else if (d.jobs.get? dispatch.jobId).isNone then .error (.integrity "FOREIGN KEY constraint failed")
    else .ok ()

def insertIdempotency (row : JobIdempotency) : LocalStatement Unit :=
  .insert (.idempotency row) [] fun d =>
    if (d.idempotency.get? row.key).isSome then .error (.integrity "job_idempotency.key") else .ok ()

/-- The job already created under the key, if any. -/
def replay (spec : JobSpec) : Option String → LocalProcedure (Option Job)
  | none => return none
  | some key => do
    match ← (selectIdempotency key).issue with
    | none => return none
    | some existing =>
      match ← (selectJob existing.jobId).issue with
      | none => .raise (.runtime "orphaned_idempotency_key")
      | some job =>
        .raiseIf (job.spec ≠ spec) (.value "idempotency_conflict")
        return some job

def recordKey : Option String → String → LocalProcedure Unit
  | none, _ => return
  | some key, jobId => (insertIdempotency ⟨key, jobId⟩).issue

def createJobAndDispatch (job : Job) (dispatch : Dispatch) (idempotencyKey : Option String) :
    LocalProcedure Job := do
  match ← replay job.spec idempotencyKey with
  | some existing => return existing
  | none =>
    (insertJob job).issue
    (insertDispatch dispatch).issue
    recordKey idempotencyKey job.id
    return job

end Repositories

end KenkuiServer.Storage
