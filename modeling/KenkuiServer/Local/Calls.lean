import KenkuiServer.Storage.Repositories
import KenkuiServer.Txn.Serial

/-! The calls that the local server and its workers make on the store, each one transaction. -/
namespace KenkuiServer.Local
open Txn Jobs Storage

inductive Call
  | createJobAndDispatch (job : Job) (dispatch : Dispatch) (idempotencyKey : Option String)
  /-- The worker's write of `transition snapshot event`. -/
  | update (snapshot : Job) (event : JobTransitionEvent) (eventType : String)
      (artifact : Option Artifact) (lease : Option Lease) (failure : Option (String × String)) (now : Time)
  | requestCancellation (jobId : String)
  | finishDispatch (dispatch : Dispatch) (lease : Option Lease) (now : Time)
  /-- `dispatches.update(replace(dispatch, status, version + 1))`. -/
  | updateDispatch (dispatch : Dispatch) (status : String)
  | claimExecution (dispatchId : String) (limit : ℤ) (ttl : Time) (maxAttempts : ℤ) (token : String)
      (now : Time)
  | renewExecution (dispatchId token : String) (ttl now now' : Time)
  | releaseExecution (dispatchId token : String)

inductive Reply
  | none
  | flag (b : Bool)
  | token (token : Option String)
  | job (job : Job)
  | event (event : JobEvent)
  deriving DecidableEq

open Repositories in
def Call.prog : Call → LocalProcedure Reply
  | .createJobAndDispatch job dispatch idempotencyKey => do
    return .job (← Repositories.createJobAndDispatch job dispatch idempotencyKey)
  | .update snapshot event eventType artifact lease failure now =>
    match transition snapshot event with
    | .error e => .raise e
    | .ok job => do
      return .event (← updateJobAndAppendEvent job ((job.version : ℤ) - 1) eventType artifact lease
        failure now)
  | .requestCancellation jobId => do
    return .job (← Repositories.requestCancellation jobId)
  | .finishDispatch dispatch lease now => do
    return .flag (← finishDispatchIfNotCancellationRequested dispatch lease now)
  | .updateDispatch dispatch status => do
    Repositories.updateDispatch { dispatch with status, version := dispatch.version + 1 } dispatch.version
    return .none
  | .claimExecution dispatchId limit ttl maxAttempts token now => do
    return .token (← Repositories.claimExecution dispatchId limit ttl maxAttempts token now)
  | .renewExecution dispatchId token ttl now now' => do
    return .flag (← Repositories.renewExecution dispatchId token ttl now now')
  | .releaseExecution dispatchId token => do
    Repositories.releaseExecution dispatchId token
    return .none

abbrev LocalRun := Serial LocalDb Call Reply

/-- A new job starts at version 0; the snapshot of an update was read in one of the `past` states. -/
def Call.Admissible (past : List LocalDb) : Call → Prop
  | .createJobAndDispatch job _ _ => job.version = 0
  | .update snapshot _ _ _ _ _ _ => ∃ d ∈ past, snapshot ∈ d.jobs.rows
  | _ => True

end KenkuiServer.Local
