import KenkuiServer.Storage.Postgres
import KenkuiServer.Storage.PostgresRetention

/-! The calls that the hosted processes make on the store, each one transaction. What a call draws
from outside the store (generated identifiers and tokens, clock readings, the snapshot its caller
read before) are its parameters. -/
namespace KenkuiServer.Hosted
open Txn Jobs Billing Storage

/-- `INSERT INTO credit_accounts ... ON CONFLICT(identity_id) DO UPDATE SET identity_id RETURNING id`:
a known identity's row is written over with itself. -/
def upsertAccount (id identityId : String) : Statement String where
  exec d :=
    match d.billing.accounts.rows.find? (·.identityId = identityId) with
    | some row => .ok (row.id, [.billing (.account row)])
    | none =>
      if (d.billing.accounts.get? id).isSome then .error (.integrity "credit_accounts_pkey")
      else .ok (id, [.billing (.account { id, availableCredits := 0, identityId })])
  lock _ := [.accountIdentity identityId]

/-- `account_for_identity` of a process whose `KENKUI_BETA_CREDITS` is `allowance`. -/
def accountForIdentity (id lotId identityId : String) (allowance : ℤ) : Procedure String := do
  let accountId ← (upsertAccount id identityId).issue
  let _ ← PostgresBillingRepository.grant lotId accountId allowance ("beta-allowance:" ++ identityId)
  return accountId

inductive Call
  | accountForIdentity (id lotId identityId : String) (allowance : ℤ)
  | grant (lotId accountId : String) (credits : ℤ) (reference : String)
  | processPaymentEvent (lotId provider providerEventId accountId : String) (credits : ℤ)
  | reserve (authorizationId jobId accountId : String) (credits : ℤ)
  | finalize (jobId : String) (status : AuthorizationStatus)
  | createJobAndDispatch (job : Job) (dispatch : Dispatch) (idempotencyKey : Option String)
  | admitJob (authorizationId : String) (job : Job) (dispatch : Dispatch) (accountId ownerId : String)
      (credits : ℤ) (idempotencyKey : Option String)
  | claimExecution (dispatchId : String) (limit : ℤ) (ttl : Time) (maxAttempts : ℤ) (token : String)
      (now at' : Time)
  /-- The worker's write of `transition snapshot event`. -/
  | update (snapshot : Job) (event : JobTransitionEvent) (eventType : String)
      (artifact : Option Artifact) (lease : Option Lease) (failure : Option (String × String))
      (now at' : Time)
  | requestCancellation (jobId : String) (at' : Time)
  | finishDispatch (dispatch : Dispatch) (lease : Option Lease) (now : Time)
  /-- `dispatches.update(replace(dispatch, status, version + 1))`. -/
  | updateDispatch (dispatch : Dispatch) (status : String)
  | renewExecution (dispatchId token : String) (ttl now now' : Time)
  | releaseExecution (dispatchId token : String)
  /-- The source transaction of a retention run. -/
  | retainSources (now : Time) (skipped : List String) (deletions : String → Deletion)

inductive Reply
  | none
  | flag (b : Bool)
  | token (token : Option String)
  | count (n : ℕ)
  | accountId (id : String)
  | account (account : CreditAccount)
  | authorization (authorization : CreditAuthorization)
  | job (job : Job)
  | event (event : JobEvent)
  deriving DecidableEq

open PostgresBillingRepository PostgresRepositories PostgresExecution PostgresHostedRepository in
def Call.prog : Call → Procedure Reply
  | .accountForIdentity id lotId identityId allowance => do
    return .accountId (← Hosted.accountForIdentity id lotId identityId allowance)
  | .grant lotId accountId credits reference => do
    return .account (← PostgresBillingRepository.grant lotId accountId credits reference)
  | .processPaymentEvent lotId provider providerEventId accountId credits => do
    return .account (← PostgresBillingRepository.processPaymentEvent lotId provider providerEventId
      accountId credits)
  | .reserve authorizationId jobId accountId credits => do
    return .authorization (← PostgresBillingRepository.reserve authorizationId jobId accountId credits)
  | .finalize jobId status => do
    return .authorization (← PostgresBillingRepository.finalize jobId status)
  | .createJobAndDispatch job dispatch idempotencyKey => do
    return .job (← PostgresRepositories.createJobAndDispatch job dispatch idempotencyKey)
  | .admitJob authorizationId job dispatch accountId ownerId credits idempotencyKey => do
    return .job (← PostgresHostedRepository.admitJob authorizationId job dispatch accountId ownerId credits
      idempotencyKey)
  | .claimExecution dispatchId limit ttl maxAttempts token now at' => do
    return .token (← PostgresExecution.claimExecution billing dispatchId limit ttl maxAttempts token now at')
  | .update snapshot event eventType artifact lease failure now at' =>
    match transition snapshot event with
    | .error e => .raise e
    | .ok job => do
      return .event (← updateJobAndAppendEvent billing job ((job.version : ℤ) - 1) eventType artifact
        lease failure now at')
  | .requestCancellation jobId at' => do
    return .job (← PostgresRepositories.requestCancellation billing jobId at')
  | .finishDispatch dispatch lease now => do
    return .flag (← finishDispatchIfNotCancellationRequested dispatch lease now)
  | .updateDispatch dispatch status => do
    PostgresRepositories.updateDispatch { dispatch with status, version := dispatch.version + 1 }
      dispatch.version
    return .none
  | .renewExecution dispatchId token ttl now now' => do
    return .flag (← PostgresExecution.renewExecution dispatchId token ttl now now')
  | .releaseExecution dispatchId token => do
    PostgresExecution.releaseExecution dispatchId token
    return .none
  | .retainSources now skipped deletions => do
    return .count (← PostgresRetention.runSources now skipped deletions)

/-- A job of one chapter, for worked inputs. -/
def sampleJob : Job where
  id := "job"
  spec :=
    { sourceId := "source", chapters := ["chapter"], casting := .single "voice", tts := {}
      output := { path := "book.m4b" }
      sourceNamed := by decide, chaptersNamed := by decide, chaptersNonempty := by decide
      chaptersNodup := by decide }
  named := by decide

/-- Calls one after the other, each atomic; a failed call leaves the store as it was. -/
def Call.runAll : List Call → HostedDb → HostedDb
  | [], d => d
  | call :: calls, d => runAll calls (call.prog.transaction d).2

/-- What a call keeps, a run of calls keeps. -/
theorem Call.runAll_keeps {I : HostedDb → Prop} {calls : List Call}
    (h : ∀ call ∈ calls, ∀ d, I d → I (call.prog.transaction d).2) {d : HostedDb} (hd : I d) :
    I (runAll calls d) := by
  induction calls generalizing d with
  | nil => exact hd
  | cons call calls ih =>
    exact ih (fun c hc => h c (List.mem_cons_of_mem _ hc)) (h call List.mem_cons_self d hd)

end KenkuiServer.Hosted
