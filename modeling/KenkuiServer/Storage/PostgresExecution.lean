import KenkuiServer.Storage.PostgresBilling

/-! Hosted execution claims and stale-attempt fencing. Clock readings, `now()` and generated tokens
are parameters. -/
namespace KenkuiServer.Storage
open Txn Jobs Billing

namespace HostedDb

/-- `SELECT COALESCE(MAX(sequence), 0) + 1 FROM job_events WHERE job_id = jobId`. -/
def nextSequence (d : HostedDb) (jobId : String) : ℕ :=
  (((d.events.rows.filter (·.jobId = jobId)).map (·.sequence)).foldr max 0) + 1

def dispatchOfJob (d : HostedDb) (jobId : String) : Option Dispatch :=
  d.dispatches.rows.find? (·.jobId = jobId)

def dispatchJob (d : HostedDb) (dispatchId : String) : Option JobRow := do
  let dispatch ← d.dispatches.get? dispatchId
  d.jobs.get? dispatch.jobId

/-- The leases that count against the limit: not expired at `now`, of a job still running. -/
def activeLeases (d : HostedDb) (now : Time) : List ExecutionLease :=
  d.leases.rows.filter fun l =>
    l.expiresAt > now ∧ (d.dispatchJob l.dispatchId).any (!·.status.isTerminal)

end HostedDb

/-- What a repository does with the reservation of a job that ended; `none` where no billing
repository is attached. -/
abbrev BillingHook := Option (String → AuthorizationStatus → Procedure CreditAuthorization)

namespace PostgresExecution

def selectLeaseForUpdate (dispatchId : String) : Statement (Option ExecutionLease) :=
  .selectForUpdate (.lease dispatchId) fun d => d.leases.get? dispatchId

def advisoryLock (n : ℕ) : Statement Unit where
  exec _ := .ok ((), [])
  lock _ := [.advisory n]

/-- The join of a dispatch with its job. -/
def selectDispatchJob (dispatchId : String) : Statement (Option (String × JobStatus)) :=
  .select fun d => (d.dispatchJob dispatchId).map fun job => (job.id, job.status)

def countActiveLeases (now : Time) : Statement ℕ := .select fun d => (d.activeLeases now).length

/-- `UPDATE jobs SET status, version=version+1, terminal_at=now() WHERE id`. -/
def loseJob (jobId : String) (status : JobStatus) (now : Time) : Statement ℕ :=
  .update fun d =>
    match d.jobs.get? jobId with
    | none => .ok none
    | some row =>
      .ok (some (.job
        { row.set status (row.version + 1) row.progress with terminalAt := some now }))

/-- `UPDATE dispatches SET status, version=version+1 WHERE id`. -/
def setDispatchStatus (dispatchId status : String) : Statement ℕ :=
  .update fun d =>
    match d.dispatches.get? dispatchId with
    | none => .ok none
    | some row => .ok (some (.dispatch { row with status, version := row.version + 1 }))

/-- `INSERT INTO job_failures ... ON CONFLICT(job_id) DO NOTHING`. -/
def insertFailureOnce (row : JobFailure) : Statement Unit where
  exec d := if (d.failures.get? row.jobId).isSome then .ok ((), []) else .ok ((), [.failure row])

/-- `INSERT INTO job_events SELECT id, <next sequence>, eventType, progress_json FROM jobs WHERE id`. -/
def appendJobEvent (jobId eventType : String) : Statement Unit where
  exec d :=
    match d.jobs.get? jobId with
    | none => .ok ((), [])
    | some row =>
      let event : JobEvent := ⟨jobId, d.nextSequence jobId, eventType, row.progress⟩
      if (d.events.get? (jobId, event.sequence)).isSome then .error (.integrity "job_events_pkey")
      else .ok ((), [.event event])

/-- `INSERT INTO execution_leases VALUES (.., 1) ON CONFLICT(dispatch_id) DO UPDATE SET token,
expires_at, attempts=attempts+1`. -/
def upsertLease (dispatchId token : String) (expiresAt : Time) : Statement Unit where
  exec d :=
    let attempts := match d.leases.get? dispatchId with
      | none => 1
      | some row => row.attempts + 1
    .ok ((), [.lease { dispatchId, token, expiresAt, attempts }])

/-- `UPDATE execution_leases SET expires_at WHERE dispatch_id AND token AND expires_at > now`. -/
def renewLease (dispatchId token : String) (expiresAt now : Time) : Statement ℕ :=
  .update fun d =>
    match d.leases.get? dispatchId with
    | none => .ok none
    | some row =>
      if row.token = token ∧ row.expiresAt > now then .ok (some (.lease { row with expiresAt }))
      else .ok none

/-- `UPDATE execution_leases SET expires_at=0 WHERE dispatch_id AND token`. -/
def expireLease (dispatchId token : String) : Statement ℕ :=
  .update fun d =>
    match d.leases.get? dispatchId with
    | none => .ok none
    | some row => if row.token = token then .ok (some (.lease { row with expiresAt := 0 })) else .ok none

def checkLease (lease : Option Lease) (now : Time) : Procedure Unit := do
  match lease with
  | none => return
  | some (dispatchId, token) =>
    match ← (selectLeaseForUpdate dispatchId).issue with
    | none => .raise .staleWrite
    | some row => if row.token ≠ token ∨ row.expiresAt ≤ now then .raise .staleWrite

/-- The attempt-exhaustion branch of `claim_execution`. -/
def loseWorker (billing : BillingHook) (dispatchId jobId : String) (seen : JobStatus) (at' : Time) :
    Procedure Unit := do
  let status : JobStatus := if seen = .cancelRequested then .cancelled else .failed
  let _ ← (loseJob jobId status at').issue
  let _ ← (setDispatchStatus dispatchId "done").issue
  (insertFailureOnce
    ⟨jobId, "worker_lost", "The worker repeatedly stopped. Please retry the job."⟩).issue
  (appendJobEvent jobId status.value).issue
  match billing with
  | none => .raise (.attribute "billing")
  | some finalize => let _ ← finalize jobId .released

def claimExecution (billing : BillingHook) (dispatchId : String) (limit : ℤ) (ttl : Time)
    (maxAttempts : ℤ) (token : String) (now at' : Time) : Procedure (Option String) := do
  (advisoryLock 1262833236).issue
  match ← (selectDispatchJob dispatchId).issue with
  | none => return none
  | some (jobId, status) =>
    if status.isTerminal then return none
    let previous ← (selectLeaseForUpdate dispatchId).issue
    if previous.any (·.expiresAt > now) then return none
    let active ← (countActiveLeases now).issue
    if active ≥ limit then return none
    if previous.any (·.attempts ≥ maxAttempts) then
      loseWorker billing dispatchId jobId status at'
      return none
    (upsertLease dispatchId token (now + ttl)).issue
    let _ ← (setDispatchStatus dispatchId "pending").issue
    return some token

def renewExecution (dispatchId token : String) (ttl now now' : Time) : Procedure Bool := do
  let rowcount ← (renewLease dispatchId token (now + ttl) now').issue
  return rowcount = 1

def releaseExecution (dispatchId token : String) : Procedure Unit := do
  let _ ← (expireLease dispatchId token).issue

end PostgresExecution

end KenkuiServer.Storage
