import KenkuiServer.Hosted.Calls
import KenkuiServer.Local.Calls
import KenkuiServer.Storage.Integers
import KenkuiServer.Txn.Coupled

/-! The contract of the job stores: the same calls on the local and on the hosted repositories, one at a time
and with no billing attached. -/
namespace KenkuiServer.Storage
open Txn Jobs

theorem Repositories.checkLease_run (l : LocalDb) (lease : Option Lease) (now : Time) :
    (Repositories.checkLease lease now).run l =
      if holdsLease l.leases lease now then .ok ((), l) else .error .staleWrite := by
  unfold Repositories.checkLease holdsLease
  rcases lease with _ | ⟨dispatchId, token⟩
  · rfl
  · cases hrow : l.leases.get? dispatchId with
    | none => simp [Repositories.selectLease, hrow]
    | some row =>
      by_cases hheld : row.token = token ∧ now < row.expiresAt
      · have hvalid : ¬ row.expiresAt ≤ now := Rat.not_le.mpr hheld.2
        simp [Repositories.selectLease, hrow, hheld, hvalid]
      · have hstale : row.token ≠ token ∨ row.expiresAt ≤ now := by
          rwa [← Rat.not_lt, ← not_and_or]
        simp [Repositories.selectLease, hrow, hheld, hstale]

end KenkuiServer.Storage

namespace KenkuiServer
open Txn Jobs Storage

/-- Equal rows in both stores. The owner and the end of a job are the hosted store's own. -/
structure Alike (l : LocalDb) (d : HostedDb) : Prop where
  jobs : l.jobs.rows = d.jobs.rows.map (·.toJob)
  events : l.events = d.events
  dispatches : l.dispatches = d.dispatches
  leases : l.leases = d.leases
  failures : l.failures = d.failures
  artifacts : l.artifacts = d.artifacts
  idempotency : l.idempotency = d.idempotency

/-- The same exception; a constraint has a name of its own in each database. -/
def SameError : Error → Error → Prop
  | .integrity _, .integrity _ => True
  | e, e' => e = e'

theorem SameError.refl (e : Error) : SameError e e := by
  cases e <;> simp [SameError]

/-- The calls that both stores implement. -/
inductive StoreCall
  | createJobAndDispatch (job : Job) (dispatch : Dispatch) (idempotencyKey : Option String)
  | updateJobAndAppendEvent (job : Job) (expectedVersion : ℤ) (eventType : String)
    (artifact : Option Artifact)
      (lease : Option Lease) (failure : Option (String × String)) (now at' : Time)
  | requestCancellation (jobId : String) (at' : Time)
  | finishDispatch (dispatch : Dispatch) (lease : Option Lease) (now : Time)
  | claimExecution (dispatchId : String) (limit : ℤ) (ttl : Time) (maxAttempts : ℤ) (token : String)
      (now at' : Time)
  | renewExecution (dispatchId token : String) (ttl now now' : Time)
  | releaseExecution (dispatchId token : String)
  | updateDispatch (dispatch : Dispatch) (expectedVersion : ℤ)

namespace StoreCall

open Repositories in
/-- The call on the local repositories. -/
def sqlite : StoreCall → LocalProcedure Local.Reply
  | .createJobAndDispatch job dispatch idempotencyKey => do
    return .job (← Repositories.createJobAndDispatch job dispatch idempotencyKey)
  | .updateJobAndAppendEvent job expectedVersion eventType artifact lease failure now _ => do
    return .event (← Repositories.updateJobAndAppendEvent job expectedVersion eventType artifact
      lease failure now)
  | .requestCancellation jobId _ => do
    return .job (← Repositories.requestCancellation jobId)
  | .finishDispatch dispatch lease now => do
    return .flag (← finishDispatchIfNotCancellationRequested dispatch lease now)
  | .claimExecution dispatchId limit ttl maxAttempts token now _ => do
    return .token (← Repositories.claimExecution dispatchId limit ttl maxAttempts token now)
  | .renewExecution dispatchId token ttl now now' => do
    return .flag (← Repositories.renewExecution dispatchId token ttl now now')
  | .releaseExecution dispatchId token => do
    Repositories.releaseExecution dispatchId token
    return .none
  | .updateDispatch dispatch expectedVersion => do
    Repositories.updateDispatch dispatch expectedVersion
    return .none

open PostgresRepositories PostgresExecution in
/-- The statements of the call on the hosted repositories. -/
def hosted : StoreCall → Procedure Local.Reply
  | .createJobAndDispatch job dispatch idempotencyKey => do
    return .job (← PostgresRepositories.createJobAndDispatch job dispatch idempotencyKey)
  | .updateJobAndAppendEvent job expectedVersion eventType artifact lease failure now at' => do
    return .event (← PostgresRepositories.updateJobAndAppendEvent none job expectedVersion
      eventType artifact lease
      failure now at')
  | .requestCancellation jobId at' => do
    return .job (← PostgresRepositories.requestCancellation none jobId at')
  | .finishDispatch dispatch lease now => do
    return .flag (← finishDispatchIfNotCancellationRequested dispatch lease now)
  | .claimExecution dispatchId limit ttl maxAttempts token now at' => do
    return .token (← PostgresExecution.claimExecution none dispatchId limit ttl maxAttempts token now at')
  | .renewExecution dispatchId token ttl now now' => do
    return .flag (← PostgresExecution.renewExecution dispatchId token ttl now now')
  | .releaseExecution dispatchId token => do
    PostgresExecution.releaseExecution dispatchId token
    return .none
  | .updateDispatch dispatch expectedVersion => do
    PostgresRepositories.updateDispatch dispatch expectedVersion
    return .none

/-- The call on the hosted repositories, whose `INTEGER` columns refuse what they cannot hold. -/
def postgres (call : StoreCall) : Procedure Local.Reply := ranged call.hosted

/-- The texts of a call that its statements pass on. -/
def texts : StoreCall → List String
  | .createJobAndDispatch job dispatch idempotencyKey =>
    [job.id, dispatch.id, dispatch.jobId, dispatch.status] ++ idempotencyKey.toList
  | .updateJobAndAppendEvent job _ eventType artifact lease failure _ _ =>
    [job.id, eventType] ++ (artifact.toList.flatMap fun a => [a.id, a.jobId, a.path, a.format]) ++
      lease.toList.map Prod.fst ++ failure.toList.flatMap fun f => [f.1, f.2]
  | .requestCancellation jobId _ => [jobId]
  | .finishDispatch dispatch lease _ => [dispatch.id, dispatch.jobId] ++ lease.toList.map Prod.fst
  | .claimExecution dispatchId _ _ _ _ _ _ => [dispatchId]
  | .renewExecution dispatchId token _ _ _ => [dispatchId, token]
  | .releaseExecution dispatchId token => [dispatchId, token]
  | .updateDispatch dispatch _ => [dispatch.id, dispatch.status]

end StoreCall

namespace Alike
variable {l : LocalDb} {d : HostedDb}

theorem job (h : Alike l d) (jobId : String) : l.jobs.get? jobId = (d.jobs.get? jobId).map (·.toJob) :=
  Table.get?_of_rows_map (fun _ => rfl) h.jobs jobId

theorem putJob (h : Alike l d) (row : JobRow) :
    Alike { l with jobs := l.jobs.put row.toJob } { d with jobs := d.jobs.put row } := by
  refine ⟨?_, h.events, h.dispatches, h.leases, h.failures, h.artifacts, h.idempotency⟩
  show Table.putRows _ row.toJob l.jobs.rows = (Table.putRows _ row d.jobs.rows).map _
  rw [h.jobs]
  exact Table.putRows_map (fun _ => rfl) row d.jobs.rows

/-- What only the hosted store keeps of a job can change. -/
theorem ownJob (h : Alike l d) {row row' : JobRow} (hrow : d.jobs.get? row'.id = some row)
    (hsame : row'.toJob = row.toJob) : Alike l { d with jobs := d.jobs.put row' } := by
  have hput := h.putJob row'
  have hlocal : l.jobs.get? row'.id = some row'.toJob := by
    rw [h.job, hrow, hsame]
    rfl
  rwa [Table.put_get? hlocal] at hput

theorem putEvent (h : Alike l d) (event : JobEvent) :
    Alike { l with events := l.events.put event } { d with events := d.events.put event } :=
  ⟨h.jobs, congrArg (·.put event) h.events, h.dispatches, h.leases, h.failures, h.artifacts, h.idempotency⟩

theorem putDispatch (h : Alike l d) (dispatch : Dispatch) :
    Alike { l with dispatches := l.dispatches.put dispatch }
      { d with dispatches := d.dispatches.put dispatch } :=
  ⟨h.jobs, h.events, congrArg (·.put dispatch) h.dispatches, h.leases, h.failures, h.artifacts, h.idempotency⟩

theorem putLease (h : Alike l d) (lease : ExecutionLease) :
    Alike { l with leases := l.leases.put lease } { d with leases := d.leases.put lease } :=
  ⟨h.jobs, h.events, h.dispatches, congrArg (·.put lease) h.leases, h.failures, h.artifacts, h.idempotency⟩

theorem putFailure (h : Alike l d) (failure : JobFailure) :
    Alike { l with failures := l.failures.put failure } { d with failures := d.failures.put failure } :=
  ⟨h.jobs, h.events, h.dispatches, h.leases, congrArg (·.put failure) h.failures, h.artifacts, h.idempotency⟩

theorem putArtifact (h : Alike l d) (artifact : Artifact) :
    Alike { l with artifacts := l.artifacts.put artifact } { d with artifacts := d.artifacts.put artifact } :=
  ⟨h.jobs, h.events, h.dispatches, h.leases, h.failures, congrArg (·.put artifact) h.artifacts, h.idempotency⟩

theorem putIdempotency (h : Alike l d) (row : JobIdempotency) :
    Alike { l with idempotency := l.idempotency.put row } { d with idempotency := d.idempotency.put row } :=
  ⟨h.jobs, h.events, h.dispatches, h.leases, h.failures, h.artifacts, congrArg (·.put row) h.idempotency⟩

theorem nextSequence (h : Alike l d) (jobId : String) : l.nextSequence jobId = d.nextSequence jobId := by
  unfold LocalDb.nextSequence HostedDb.nextSequence
  rw [h.events]

theorem dispatchOfJob (h : Alike l d) (jobId : String) : l.dispatchOfJob jobId = d.dispatchOfJob jobId := by
  unfold LocalDb.dispatchOfJob HostedDb.dispatchOfJob
  rw [h.dispatches]

theorem dispatchJob (h : Alike l d) (dispatchId : String) :
    l.dispatchJob dispatchId = (d.dispatchJob dispatchId).map (·.toJob) := by
  unfold LocalDb.dispatchJob HostedDb.dispatchJob
  rw [h.dispatches]
  cases d.dispatches.get? dispatchId with
  | none => rfl
  | some dispatch => exact h.job dispatch.jobId

theorem activeLeases (h : Alike l d) (now : Time) : l.activeLeases now = d.activeLeases now := by
  unfold LocalDb.activeLeases HostedDb.activeLeases
  rw [h.leases]
  refine List.filter_congr fun lease _ => ?_
  rw [h.dispatchJob]
  cases d.dispatchJob lease.dispatchId <;> rfl

end Alike

/-- Both programs return the same value and leave equal rows, or raise the same exception. -/
abbrev Agrees {α : Type} (p : LocalProcedure α) (p' : Procedure α) (l : LocalDb) (d : HostedDb) : Prop :=
  Prog.Coupled Alike SameError Eq (p.run l) (p'.run d)

section
variable {l : LocalDb} {d : HostedDb}

theorem Agrees.map {α β : Type} {p : LocalProcedure α} {p' : Procedure α} (h : Agrees p p' l d) (f : α → β) :
    Agrees (p >>= fun a => pure (f a)) (p' >>= fun a => pure (f a)) l d := by
  refine Prog.Coupled.bind h fun a a' x x' ha hx => ?_
  rw [ha]
  exact ⟨rfl, hx⟩

/-- The name of a constraint makes no difference. -/
theorem integrity_coupled {R : LocalDb → HostedDb → Prop} {α : Type} {Q : α → α → Prop} {constraint : String}
    {r' : Except Error (α × HostedDb)}
    (h : Prog.Coupled R SameError Q (.error (.integrity constraint)) r') (constraint' : String) :
    Prog.Coupled R SameError Q (.error (.integrity constraint')) r' := by
  cases r' with
  | ok r => exact h
  | error e =>
    cases e with
    | integrity c => exact trivial
    | _ => cases h

theorem renewExecution_agrees (h : Alike l d) (dispatchId token : String) (ttl now now' : Time) :
    Agrees (Repositories.renewExecution dispatchId token ttl now now')
      (PostgresExecution.renewExecution dispatchId token ttl now now') l d := by
  have hleases := h.leases
  unfold Agrees Repositories.renewExecution PostgresExecution.renewExecution
  simp only [issue_bind, Repositories.renewLease, PostgresExecution.renewLease, Prog.run_update, hleases]
  cases d.leases.get? dispatchId with
  | none => exact ⟨rfl, h⟩
  | some row =>
    by_cases hlive : row.token = token ∧ row.expiresAt > now'
    · simp only [hlive, and_self, if_true]
      exact ⟨rfl, h.putLease _⟩
    · simp only [hlive, if_false]
      exact ⟨rfl, h⟩

theorem releaseExecution_agrees (h : Alike l d) (dispatchId token : String) :
    Agrees (Repositories.releaseExecution dispatchId token)
      (PostgresExecution.releaseExecution dispatchId token)
      l d := by
  have hleases := h.leases
  unfold Agrees Repositories.releaseExecution PostgresExecution.releaseExecution
  simp only [issue_bind, Repositories.expireLease, PostgresExecution.expireLease, Prog.run_update, hleases]
  cases d.leases.get? dispatchId with
  | none => exact ⟨rfl, h⟩
  | some row =>
    by_cases htoken : row.token = token
    · simp only [htoken, if_true]
      exact ⟨rfl, h.putLease _⟩
    · simp only [htoken, if_false]
      exact ⟨rfl, h⟩

/-- `_require_one` and its local counterpart raise alike. -/
theorem requireOne_coupled {R : LocalDb → HostedDb → Prop} (h : R l d) (rowcount : ℕ) :
    Prog.Coupled R SameError (fun _ _ => rowcount = 1) ((Repositories.requireOne rowcount).run l)
      ((requireOne rowcount).run d) := by
  unfold Repositories.requireOne requireOne Prog.raiseIf
  split_ifs with hone
  · exact rfl
  · exact ⟨not_not.mp hone, h⟩

theorem requireOne_agrees (h : Alike l d) (rowcount : ℕ) :
    Agrees (Repositories.requireOne rowcount) (requireOne rowcount) l d :=
  (requireOne_coupled h rowcount).imp (fun _ _ hx => hx) fun _ _ _ => rfl

theorem updateDispatchRow_agrees (h : Alike l d) (dispatch : Dispatch) (expectedVersion : ℤ) :
    Agrees (Repositories.updateDispatchRow dispatch expectedVersion).issue
      (PostgresRepositories.updateDispatchRow dispatch expectedVersion).issue l d := by
  have hdispatches := h.dispatches
  unfold Agrees Repositories.updateDispatchRow PostgresRepositories.updateDispatchRow Stmt.issue
  simp only [Prog.run_update, hdispatches]
  cases d.dispatches.get? dispatch.id with
  | none => exact ⟨rfl, h⟩
  | some row =>
    by_cases hversion : (row.version : ℤ) = expectedVersion
    · simp only [hversion, if_true]
      exact ⟨rfl, h.putDispatch _⟩
    · simp only [hversion, if_false]
      exact ⟨rfl, h⟩

theorem updateDispatch_agrees (h : Alike l d) (dispatch : Dispatch) (expectedVersion : ℤ) :
    Agrees (Repositories.updateDispatch dispatch expectedVersion)
      (PostgresRepositories.updateDispatch dispatch expectedVersion) l d := by
  unfold Repositories.updateDispatch PostgresRepositories.updateDispatch
  rw [Agrees, Prog.raiseIf_bind, Prog.raiseIf_bind]
  split_ifs
  · exact rfl
  · refine (updateDispatchRow_agrees h dispatch expectedVersion).bind fun a a' x x' ha hx => ?_
    rw [ha]
    exact requireOne_agrees hx a'

theorem updateJob_coupled (h : Alike l d) (job : Job) (expectedVersion : ℤ) :
    Prog.Coupled (fun x x' => Alike x x' ∧ x'.artifacts = d.artifacts ∧ x'.failures = d.failures) SameError
      (fun a a' => a = a' ∧ (a' = 1 → ∃ row, d.jobs.get? job.id = some row ∧
        (row.version : ℤ) = expectedVersion))
      ((Repositories.updateJob job expectedVersion).issue.run l)
      ((PostgresRepositories.updateJob job expectedVersion).issue.run d) := by
  have hjob := h.job job.id
  unfold Repositories.updateJob PostgresRepositories.updateJob Stmt.issue
  simp only [Prog.run_update, hjob]
  cases d.jobs.get? job.id with
  | none => exact ⟨⟨rfl, fun hone => by cases hone⟩, h, rfl, rfl⟩
  | some row =>
    simp only [Option.map_some]
    by_cases hversion : (row.version : ℤ) = expectedVersion
    · simp only [hversion, if_true]
      exact ⟨⟨rfl, fun _ => ⟨row, rfl, hversion⟩⟩,
        h.putJob (row.set job.status job.version job.progress), rfl, rfl⟩
    · simp only [hversion, if_false]
      exact ⟨⟨rfl, fun hone => by cases hone⟩, h, rfl, rfl⟩

theorem insertEvent_agrees (h : Alike l d) (event : JobEvent) :
    Agrees (Repositories.insertEvent event).issue (PostgresRepositories.insertEvent event).issue l d := by
  have hevents := h.events
  unfold Agrees Repositories.insertEvent PostgresRepositories.insertEvent Stmt.issue
  simp only [Prog.run_insert, hevents]
  by_cases hknown : (d.events.get? (event.jobId, event.sequence)).isSome = true
  · simp only [hknown, if_true]
    exact trivial
  · simp only [hknown]
    exact ⟨rfl, h.putEvent event⟩

theorem appendEvent_agrees (h : Alike l d) (jobId eventType : String) (progress : Progress) :
    Agrees (Repositories.appendEvent jobId eventType progress)
      (PostgresRepositories.appendEvent jobId eventType progress) l d := by
  unfold Agrees Repositories.appendEvent PostgresRepositories.appendEvent
  simp only [issue_bind, Repositories.selectNextSequence, PostgresRepositories.selectNextSequence,
    Prog.run_select, h.nextSequence]
  cases JobEvent.init jobId (d.nextSequence jobId) eventType progress with
  | error e => exact SameError.refl e
  | ok event => exact (insertEvent_agrees h event).bind fun _ _ _ _ _ hx => ⟨rfl, hx⟩

theorem setTerminalAt_agrees (h : Alike l d) (jobId : String) (at' : Time) {rowcount : ℕ} {d' : HostedDb}
    (hrun : (PostgresRepositories.setTerminalAt jobId at').issue.run d = .ok (rowcount, d')) :
    Alike l d' := by
  unfold PostgresRepositories.setTerminalAt Stmt.issue at hrun
  rw [Prog.run_update] at hrun
  cases hrow : d.jobs.get? jobId with
  | none =>
    simp only [hrow] at hrun
    cases hrun
    exact h
  | some row =>
    simp only [hrow] at hrun
    cases hrun
    have hid : row.id = jobId := ((d.jobs.get?_eq_some_iff _ row).mp hrow).2
    subst hid
    exact h.ownJob hrow rfl

/-- With no billing attached, the end of a job is only noted by the hosted store. -/
theorem finishJob_alike (h : Alike l d) (job : Job) (at' : Time) :
    ∃ d', (PostgresRepositories.finishJob none job at').run d = .ok ((), d') ∧ Alike l d' := by
  unfold PostgresRepositories.finishJob
  by_cases hover : job.status.isTerminal = true
  · rw [if_pos hover]
    cases hrun : (PostgresRepositories.setTerminalAt job.id at').issue.run d with
    | error e =>
      unfold PostgresRepositories.setTerminalAt Stmt.issue at hrun
      rw [Prog.run_update] at hrun
      cases hrow : d.jobs.get? job.id <;> simp only [hrow] at hrun <;> cases hrun
    | ok r =>
      refine ⟨r.2, ?_, setTerminalAt_agrees h job.id at' hrun⟩
      rw [Prog.run_bind, hrun]
      rfl
  · rw [if_neg hover]
    exact ⟨d, rfl, h⟩

/-- A program that ends with the hosted store's own note of the end. -/
theorem finishJob_agrees {α : Type} {p : LocalProcedure α} {p' : Unit → Procedure α}
    (h : Alike l d) (job : Job) (at' : Time) (hp : ∀ d', Alike l d' → Agrees p (p' ()) l d') :
    Agrees p (PostgresRepositories.finishJob none job at' >>= p') l d := by
  obtain ⟨d', hrun, halike⟩ := finishJob_alike h job at'
  have hrest := hp d' halike
  unfold Agrees at hrest ⊢
  rw [Prog.run_bind, hrun]
  exact hrest

theorem cancellation_agrees (status : JobStatus) (dispatch : Option String) :
    Repositories.cancellation status dispatch = PostgresRepositories.cancellation status dispatch := by
  unfold Repositories.cancellation PostgresRepositories.cancellation
  split_ifs <;> simp_all

theorem requestCancellation_agrees (h : Alike l d) (jobId : String) (at' : Time) :
    Agrees (Repositories.requestCancellation jobId)
      (PostgresRepositories.requestCancellation none jobId at') l d := by
  have hjob := h.job jobId
  have hdispatch := h.dispatchOfJob jobId
  unfold Agrees Repositories.requestCancellation PostgresRepositories.requestCancellation
  simp only [issue_bind, Repositories.selectJob, PostgresRepositories.selectJob, Prog.run_select, hjob]
  cases hrow : d.jobs.get? jobId with
  | none =>
    simp only [Option.map_none]
    exact SameError.refl (Error.key jobId)
  | some row =>
    simp only [Option.map_some]
    split_ifs with hover
    · exact ⟨rfl, h⟩
    · have hid : row.id = jobId := ((d.jobs.get?_eq_some_iff _ row).mp hrow).2
      simp only [Repositories.selectDispatchStatus, PostgresRepositories.selectDispatchStatus,
        Prog.run_select, hdispatch, cancellation_agrees]
      generalize PostgresRepositories.cancellation row.status ((d.dispatchOfJob jobId).map (·.status)) = next
      obtain ⟨status, eventType⟩ := next
      refine (updateJob_coupled h (row.toJob.set status (row.version + 1) row.progress) row.version).bind
        fun a a' x x' ha hx => ?_
      rw [ha.1]
      refine (requireOne_agrees hx.1 a').bind fun _ _ y y' _ hy => ?_
      subst hid
      have hsequence := hy.nextSequence row.id
      simp only [Repositories.selectNextSequence, PostgresRepositories.selectNextSequence,
        Prog.run_select, Job.set, hsequence]
      refine (insertEvent_agrees hy ⟨row.id, y'.nextSequence row.id, eventType, row.progress⟩).bind
        fun _ _ z z' _ hz => ?_
      exact finishJob_agrees hz _ at' fun d' hd' => ⟨rfl, hd'⟩

theorem finishDispatch_agrees (h : Alike l d) (dispatch : Dispatch) (lease : Option Lease) (now : Time) :
    Agrees (Repositories.finishDispatchIfNotCancellationRequested dispatch lease now)
      (PostgresRepositories.finishDispatchIfNotCancellationRequested dispatch lease now) l d := by
  have hjob := h.job dispatch.jobId
  unfold Agrees Repositories.finishDispatchIfNotCancellationRequested
    PostgresRepositories.finishDispatchIfNotCancellationRequested
  rw [Prog.run_bind, Prog.run_bind, Repositories.checkLease_run, PostgresExecution.checkLease_run, h.leases]
  by_cases hheld : holdsLease d.leases lease now = true
  · simp only [hheld, if_true, issue_bind, Repositories.selectJobStatus, PostgresRepositories.selectJobStatus,
      Prog.run_select, hjob]
    cases d.jobs.get? dispatch.jobId with
    | none =>
      simp only [Option.map_none]
      exact SameError.refl (Error.key dispatch.jobId)
    | some row =>
      simp only [Option.map_some, Prog.raiseIf_bind]
      split_ifs
      · exact ⟨rfl, h⟩
      · exact SameError.refl Error.staleWrite
      · have hrow := updateDispatchRow_agrees h
          ({ dispatch with status := "done", version := dispatch.version + 1 })
          dispatch.version
        have hsame : (PostgresRepositories.finishDispatch dispatch).issue =
            (PostgresRepositories.updateDispatchRow
              { dispatch with status := "done", version := dispatch.version + 1 }
                dispatch.version).issue := by
          unfold PostgresRepositories.finishDispatch PostgresRepositories.updateDispatchRow
          simp only [Nat.cast_inj]
        rw [← hsame] at hrow
        refine hrow.bind fun a a' x x' ha hx => ?_
        rw [ha]
        exact (requireOne_agrees hx a').bind fun _ _ _ _ _ hy => ⟨rfl, hy⟩
  · simp only [hheld]
    exact SameError.refl Error.staleWrite

theorem setDispatchStatus_agrees (h : Alike l d) (dispatchId status : String) :
    Agrees (Repositories.setDispatchStatus dispatchId status).issue
      (PostgresExecution.setDispatchStatus dispatchId status).issue l d := by
  have hdispatches := h.dispatches
  unfold Agrees Repositories.setDispatchStatus PostgresExecution.setDispatchStatus Stmt.issue
  simp only [Prog.run_update, hdispatches]
  cases d.dispatches.get? dispatchId with
  | none => exact ⟨rfl, h⟩
  | some row => exact ⟨rfl, h.putDispatch _⟩

theorem upsertLease_agrees (h : Alike l d) (dispatchId token : String) (expiresAt : Time) :
    Agrees (Repositories.upsertLease dispatchId token expiresAt).issue
      (PostgresExecution.upsertLease dispatchId token expiresAt).issue l d := by
  have hleases := h.leases
  unfold Agrees Repositories.upsertLease PostgresExecution.upsertLease Stmt.issue
  simp only [Prog.run_mk, hleases]
  exact ⟨rfl, h.putLease _⟩

theorem claimExecution_agrees (h : Alike l d) {dispatchId : String} {limit : ℤ} {ttl : Time} {maxAttempts : ℤ}
    {token : String} {now at' : Time} (hleft : ∀ lease, Claimable d dispatchId limit now →
      d.leases.get? dispatchId = some lease → (lease.attempts : ℤ) < maxAttempts) :
    Agrees (Repositories.claimExecution dispatchId limit ttl maxAttempts token now)
      (PostgresExecution.claimExecution none dispatchId limit ttl maxAttempts token now at') l d := by
  have hjob := h.dispatchJob dispatchId
  have hleases := h.leases
  have hactive := h.activeLeases now
  unfold Agrees Repositories.claimExecution PostgresExecution.claimExecution
  simp only [issue_bind, PostgresExecution.advisoryLock, Prog.run_mk, applyAll_nil,
    Repositories.selectDispatchJob, PostgresExecution.selectDispatchJob, Prog.run_select, hjob]
  cases hfound : d.dispatchJob dispatchId with
  | none => exact ⟨rfl, h⟩
  | some job =>
    simp only [Option.map_some]
    split_ifs with hover
    · exact ⟨rfl, h⟩
    · simp only [Repositories.selectLease, PostgresExecution.selectLeaseForUpdate, Prog.run_select,
        Prog.run_selectForUpdate, hleases]
      by_cases hlease : (d.leases.get? dispatchId).any (·.expiresAt > now) = true
      · rw [if_pos hlease, if_pos hlease]
        exact ⟨rfl, h⟩
      · rw [if_neg hlease, if_neg hlease]
        simp only [Repositories.countActiveLeases, PostgresExecution.countActiveLeases,
          Prog.run_select, hactive]
        split_ifs with hlimit hattempts
        · exact ⟨rfl, h⟩
        · rw [Option.any_eq_true] at hattempts
          obtain ⟨lease, hrow, hmax⟩ := hattempts
          have hclaim : Claimable d dispatchId limit now := by
            refine ⟨⟨job, hfound, by simpa using hover⟩, fun lease' hlease' => ?_, hlimit⟩
            simpa [hlease'] using hlease
          have hused : (lease.attempts : ℤ) ≥ maxAttempts := of_decide_eq_true hmax
          have hless := hleft lease hclaim hrow
          omega
        · refine (upsertLease_agrees h dispatchId token (now + ttl)).bind fun _ _ x x' _ hx => ?_
          exact (setDispatchStatus_agrees hx dispatchId "pending").bind fun _ _ _ _ _ hy => ⟨rfl, hy⟩

/-- The creation is no replay of another job, and its dispatch is not a second one of a known job. What it
writes fits its columns. -/
structure Creatable (d : HostedDb) (job : Job) (dispatch : Dispatch)
    (idempotencyKey : Option String) : Prop where
  replay : ∀ key row stored, idempotencyKey = some key → d.idempotency.get? key = some row →
    d.jobs.get? row.jobId = some stored → stored.spec = job.spec
  dispatched : (∀ key, idempotencyKey = some key → d.idempotency.get? key = none) →
    d.jobs.get? job.id = none →
    d.dispatches.get? dispatch.id = none → d.dispatchOfJob dispatch.jobId = none
  jobFits : (∀ key, idempotencyKey = some key → d.idempotency.get? key = none) → fitsInteger job.version
  dispatchFits : (∀ key, idempotencyKey = some key → d.idempotency.get? key = none) →
    d.jobs.get? job.id = none →
    fitsInteger dispatch.version

theorem recordKey_agrees (h : Alike l d) (idempotencyKey : Option String) (jobId : String) :
    Agrees (Repositories.recordKey idempotencyKey jobId)
      (PostgresRepositories.recordKey idempotencyKey jobId) l d := by
  cases idempotencyKey with
  | none => exact ⟨rfl, h⟩
  | some key =>
    have hkeys := h.idempotency
    unfold Agrees Repositories.recordKey PostgresRepositories.recordKey Repositories.insertIdempotency
      PostgresRepositories.insertIdempotency Stmt.issue
    simp only [Prog.run_insert, hkeys]
    by_cases hknown : (d.idempotency.get? key).isSome = true
    · simp only [hknown, if_true]
      exact trivial
    · simp only [hknown]
      exact ⟨rfl, h.putIdempotency _⟩

theorem insertDispatch_agrees (h : Alike l d) (dispatch : Dispatch)
    (hfree : d.dispatches.get? dispatch.id = none → d.dispatchOfJob dispatch.jobId = none) :
    Agrees (Repositories.insertDispatch dispatch).issue
      (PostgresRepositories.insertDispatch dispatch).issue l d := by
  have hdispatches := h.dispatches
  have hjob := h.job dispatch.jobId
  unfold Agrees Repositories.insertDispatch PostgresRepositories.insertDispatch Stmt.issue
  simp only [Prog.run_insert, hdispatches, hjob, Option.isNone_map]
  cases hid : d.dispatches.get? dispatch.id with
  | some row =>
    simp only [Option.isSome_some, if_true]
    cases (d.jobs.get? dispatch.jobId).isNone <;> exact trivial
  | none =>
    have hnone := hfree hid
    cases (d.jobs.get? dispatch.jobId).isNone with
    | true => exact trivial
    | false =>
      simp only [Option.isSome_none, hnone]
      exact ⟨rfl, h.putDispatch dispatch⟩

theorem insertJob_agrees (h : Alike l d) (job : Job) :
    Prog.Coupled (fun x x' => Alike x x' ∧ d.jobs.get? job.id = none ∧
      x'.dispatches = d.dispatches) SameError Eq
      ((Repositories.insertJob job).issue.run l)
      ((PostgresRepositories.insertJob { job with }).issue.run d) := by
  have hjob := h.job job.id
  unfold Repositories.insertJob PostgresRepositories.insertJob Stmt.issue
  simp only [Prog.run_insert, hjob, Option.isSome_map]
  cases hrow : d.jobs.get? job.id with
  | some row => exact trivial
  | none => exact ⟨rfl, h.putJob { job with }, rfl, rfl⟩

theorem replay_agrees (h : Alike l d) {spec : JobSpec} {idempotencyKey : Option String}
    (hspec : ∀ key row stored, idempotencyKey = some key → d.idempotency.get? key = some row →
      d.jobs.get? row.jobId = some stored → stored.spec = spec) :
    Prog.Coupled (fun x x' => Alike x x' ∧ x' = d) SameError
      (fun a a' => a = a' ∧ (a = none → ∀ key, idempotencyKey = some key → d.idempotency.get? key = none))
      ((Repositories.replay spec idempotencyKey).run l)
      ((PostgresRepositories.admitted idempotencyKey).run d) := by
  cases idempotencyKey with
  | none => exact ⟨⟨rfl, fun _ key hkey => by cases hkey⟩, h, rfl⟩
  | some key =>
    have hkeys := h.idempotency
    unfold Repositories.replay PostgresRepositories.admitted
    simp only [issue_bind, Repositories.selectIdempotency, PostgresRepositories.selectIdempotency,
      Prog.run_select, hkeys]
    cases hrow : d.idempotency.get? key with
    | none =>
      refine ⟨⟨rfl, fun _ key' hkey => ?_⟩, h, rfl⟩
      cases hkey
      exact hrow
    | some row =>
      have hjob := h.job row.jobId
      simp only [Repositories.selectJob, PostgresRepositories.selectJob, Prog.run_select, hjob]
      cases hstored : d.jobs.get? row.jobId with
      | none =>
        simp only [Option.map_none]
        exact SameError.refl (Error.runtime "orphaned_idempotency_key")
      | some stored =>
        have hsame : ¬ stored.spec ≠ spec := not_not.mpr (hspec key row stored rfl hrow hstored)
        simp only [Option.map_some, Prog.raiseIf_bind, hsame, if_false]
        exact ⟨⟨rfl, fun hnone => by cases hnone⟩, h, rfl⟩

theorem createJobAndDispatch_agrees (h : Alike l d) {job : Job} {dispatch : Dispatch}
    {idempotencyKey : Option String} (hnew : Creatable d job dispatch idempotencyKey) :
    Agrees (Repositories.createJobAndDispatch job dispatch idempotencyKey)
      (PostgresRepositories.createJobAndDispatch job dispatch idempotencyKey) l d := by
  unfold Repositories.createJobAndDispatch PostgresRepositories.createJobAndDispatch
  refine (replay_agrees h hnew.replay).bind fun a a' x x' ha hx => ?_
  obtain ⟨rfl, hkey⟩ := ha
  obtain ⟨hx, rfl⟩ := hx
  cases a with
  | some existing => exact ⟨rfl, hx⟩
  | none =>
    refine (insertJob_agrees hx job).bind fun _ _ y y' _ hy => ?_
    obtain ⟨hy, hfresh, hdispatches⟩ := hy
    refine (insertDispatch_agrees hy dispatch fun hid => ?_).bind fun _ _ z z' _ hz => ?_
    · rw [hdispatches] at hid
      have hfree := hnew.dispatched (hkey rfl) hfresh hid
      unfold HostedDb.dispatchOfJob at hfree ⊢
      rwa [hdispatches]
    · exact (recordKey_agrees hz idempotencyKey job.id).bind fun _ _ _ _ _ hv => ⟨rfl, hv⟩

/-- The stores record the failure and the artifact of an update in different order, and only the hosted one
refuses a second artifact of a job. -/
def Recordable (d : HostedDb) (job : Job) (artifact : Option Artifact)
    (failure : Option (String × String)) : Prop :=
  let refused := failure.isSome = true ∧ (d.failures.get? job.id).isSome = true
  ∀ a, artifact = some a →
    if job.status ≠ .succeeded ∨ a.jobId ≠ job.id then ¬ refused
    else d.artifacts.rows.any (·.jobId = a.jobId) = true → (d.artifacts.get? a.id).isSome = true ∨ refused

/-- The update raises the version by one, and under a live lease it keeps the stored spec, can be recorded
and fits. -/
structure Updatable (d : HostedDb) (job : Job) (expectedVersion : ℤ) (artifact : Option Artifact)
    (lease : Option Lease) (failure : Option (String × String)) (now : Time) : Prop where
  version : (job.version : ℤ) = expectedVersion + 1
  spec : holdsLease d.leases lease now = true → ∀ row, d.jobs.get? job.id = some row → row.spec = job.spec
  recordable : holdsLease d.leases lease now = true → ∀ row, d.jobs.get? job.id = some row →
    (row.version : ℤ) = expectedVersion → Recordable d job artifact failure
  jobFits : holdsLease d.leases lease now = true → fitsInteger job.version
  eventFits : holdsLease d.leases lease now = true → ∀ row, d.jobs.get? job.id = some row →
    (row.version : ℤ) = expectedVersion → fitsInteger (d.nextSequence job.id)

/-- The next version and the next event of a job that is to be cancelled fit. -/
def Cancellable (d : HostedDb) (jobId : String) : Prop :=
  ∀ row, d.jobs.get? jobId = some row → ¬ (row.status.isTerminal = true ∨ row.status = .cancelRequested) →
    fitsInteger (row.version + 1) ∧ fitsInteger (d.nextSequence jobId)

/-- The next version of the dispatch of a job that is over fits. -/
def Finishable (d : HostedDb) (dispatch : Dispatch) (lease : Option Lease) (now : Time) : Prop :=
  holdsLease d.leases lease now = true → ∀ row, d.jobs.get? dispatch.jobId = some row →
    row.status.isTerminal = true → fitsInteger (dispatch.version + 1)

/-- A claim that goes through has an attempt left, and its next attempt and the next version of its dispatch
fit. -/
structure Issuable (d : HostedDb) (dispatchId : String) (maxAttempts : ℤ) : Prop where
  attempts : ∀ lease, d.leases.get? dispatchId = some lease →
    (lease.attempts : ℤ) < maxAttempts ∧ fitsInteger (lease.attempts + 1)
  version : ∀ dispatch, d.dispatches.get? dispatchId = some dispatch → fitsInteger (dispatch.version + 1)

theorem recordFailure_agrees (h : Alike l d) (job : Job) (failure : Option (String × String)) :
    Agrees (Repositories.recordFailure job failure) (PostgresRepositories.recordFailure job failure) l d := by
  have hfailures := h.failures
  rcases failure with _ | ⟨code, message⟩
  · exact ⟨rfl, h⟩
  · unfold Agrees Repositories.recordFailure PostgresRepositories.recordFailure Repositories.insertFailure
      PostgresRepositories.insertFailure Stmt.issue
    simp only [Prog.run_insert, hfailures]
    cases hrow : d.failures.get? job.id with
    | some row => exact trivial
    | none => exact ⟨rfl, h.putFailure _⟩

/-- The recorded failure makes no difference to the artifacts. -/
theorem recordFailure_aside {job : Job} {failure : Option (String × String)} {u : Unit} {l' : LocalDb}
    (hrun : (Repositories.recordFailure job failure).run l = .ok (u, l')) (artifact : Artifact) :
    (Repositories.recordFailure job failure).run { l with artifacts := l.artifacts.put artifact } =
      .ok (u, { l' with artifacts := l'.artifacts.put artifact }) ∧ l'.artifacts = l.artifacts := by
  rcases failure with _ | ⟨code, message⟩
  · cases hrun
    exact ⟨rfl, rfl⟩
  · unfold Repositories.recordFailure Repositories.insertFailure Stmt.issue at hrun ⊢
    simp only [Prog.run_insert] at hrun ⊢
    cases hrow : l.failures.get? job.id with
    | some row =>
      simp only [hrow] at hrun
      cases hrun
    | none =>
      simp only [hrow] at hrun
      cases hrun
      exact ⟨rfl, rfl⟩

theorem recordFailure_refused {job : Job} {failure : Option (String × String)} {e : Error}
    (hrun : (Repositories.recordFailure job failure).run l = .error e) :
    (∃ constraint, e = .integrity constraint) ∧ failure.isSome = true ∧
    (l.failures.get? job.id).isSome = true := by
  rcases failure with _ | ⟨code, message⟩
  · cases hrun
  · unfold Repositories.recordFailure Repositories.insertFailure Stmt.issue at hrun
    simp only [Prog.run_insert] at hrun
    cases hrow : l.failures.get? job.id with
    | some row =>
      simp only [hrow] at hrun
      cases hrun
      exact ⟨⟨_, rfl⟩, rfl, rfl⟩
    | none =>
      simp only [hrow] at hrun
      cases hrun

theorem recordFailure_accepted {job : Job} {failure : Option (String × String)} {u : Unit} {l' : LocalDb}
    (hrun : (Repositories.recordFailure job failure).run l = .ok (u, l')) :
    ¬ (failure.isSome = true ∧ (l.failures.get? job.id).isSome = true) := by
  rintro ⟨hfailure, hrow⟩
  obtain ⟨⟨code, message⟩, rfl⟩ := Option.isSome_iff_exists.mp hfailure
  unfold Repositories.recordFailure Repositories.insertFailure Stmt.issue at hrun
  simp only [Prog.run_insert, hrow, if_true] at hrun
  cases hrun

theorem record_agrees (h : Alike l d) {job : Job} {artifact : Option Artifact}
    {failure : Option (String × String)} (hrecord : Recordable d job artifact failure) :
    Agrees
      (do
        Repositories.recordFailure job failure
        Repositories.recordArtifact job artifact)
      (do
        PostgresRepositories.recordArtifact job artifact
        PostgresRepositories.recordFailure job failure) l d := by
  cases artifact with
  | none =>
    have hfailure := recordFailure_agrees h job failure
    unfold Agrees at hfailure ⊢
    rw [Prog.run_bind]
    cases hrun : (Repositories.recordFailure job failure).run l with
    | error e => rwa [hrun] at hfailure
    | ok r => rwa [hrun] at hfailure
  | some a =>
    have hfailures := h.failures
    have hartifacts := h.artifacts
    have hif := hrecord a rfl
    unfold Agrees
    rw [Prog.run_bind]
    simp only [PostgresRepositories.recordArtifact, Repositories.recordArtifact, Prog.raiseIf_bind]
    split_ifs at hif ⊢ with hbad
    · cases hrun : (Repositories.recordFailure job failure).run l with
      | error e =>
        obtain ⟨-, hrefused⟩ := recordFailure_refused hrun
        rw [hfailures] at hrefused
        exact absurd hrefused hif
      | ok r => exact SameError.refl (Error.value "invalid_completion_artifact")
    · rw [PostgresRepositories.insertArtifact, issue_bind, Prog.run_insert]
      cases hid : d.artifacts.get? a.id with
      | some row =>
        simp only [Option.isSome_some, if_true]
        cases hrun : (Repositories.recordFailure job failure).run l with
        | error e =>
          obtain ⟨⟨constraint, rfl⟩, -⟩ := recordFailure_refused hrun
          exact trivial
        | ok r =>
          obtain ⟨u, l'⟩ := r
          have hsame : l'.artifacts = d.artifacts := (recordFailure_aside hrun a).2.trans hartifacts
          simp only [Repositories.insertArtifact, Stmt.issue, Prog.run_insert, hsame, hid]
          exact trivial
      | none =>
        simp only [Option.isSome_none, Bool.false_eq_true, if_false]
        cases hrun : (Repositories.recordFailure job failure).run l with
        | error e =>
          obtain ⟨⟨constraint, rfl⟩, hrefused⟩ := recordFailure_refused hrun
          split_ifs
          · exact trivial
          · -- the failure is refused beside the new artifact too
            have hfailure := recordFailure_agrees (h.putArtifact a) job failure
            cases hlocal : (Repositories.recordFailure job failure).run
              { l with artifacts := l.artifacts.put a } with
            | ok r =>
              obtain ⟨u, l'⟩ := r
              have haccepted := recordFailure_accepted hlocal
              exact absurd hrefused haccepted
            | error e =>
              unfold Agrees at hfailure
              rw [hlocal] at hfailure
              obtain ⟨⟨constraint', rfl⟩, -⟩ := recordFailure_refused hlocal
              exact integrity_coupled hfailure constraint
        | ok r =>
          obtain ⟨u, l'⟩ := r
          have haccepted := recordFailure_accepted hrun
          rw [hfailures] at haccepted
          obtain ⟨hlocal, hsame⟩ := recordFailure_aside hrun a
          have hfailure := recordFailure_agrees (h.putArtifact a) job failure
          have hother : ¬ d.artifacts.rows.any (·.jobId = a.jobId) = true := by
            intro hany
            rcases hif hany with hknown | hrefused
            · rw [hid] at hknown
              cases hknown
            · exact haccepted hrefused
          unfold Agrees at hfailure
          rw [hlocal] at hfailure
          simp only [Repositories.insertArtifact, Stmt.issue, Prog.run_insert, hsame, hartifacts, hid, hother,
            Option.isSome_none, Bool.false_eq_true, if_false]
          exact hfailure

theorem appendEvent_coupled (h : Alike l d) (jobId eventType : String) (progress : Progress) :
    Prog.Coupled (fun x x' => Alike x x' ∧ x'.artifacts = d.artifacts ∧ x'.failures = d.failures) SameError Eq
      ((Repositories.appendEvent jobId eventType progress).run l)
      ((PostgresRepositories.appendEvent jobId eventType progress).run d) := by
  refine (appendEvent_agrees h jobId eventType progress).and_right fun event d' hrun => ?_
  have hemits : (PostgresRepositories.appendEvent jobId eventType progress).Emits
      (fun w => ∃ event, w = .event event) fun _ => True :=
    PostgresRepositories.appendEvent_emits (fun _ => trivial) (fun event => ⟨event, rfl⟩) fun _ _ => trivial
  have hframe : ∀ w : Write, (∃ event, w = .event event) → ∀ x : HostedDb,
      (apply w x).artifacts = x.artifacts ∧ (apply w x).failures = x.failures := by
    rintro w ⟨event, rfl⟩ x
    exact ⟨rfl, rfl⟩
  constructor
  · exact hemits.frame (fun x => x.artifacts) (fun w hw x => (hframe w hw x).1) hrun
  · exact hemits.frame (fun x => x.failures) (fun w hw x => (hframe w hw x).2) hrun

/-- What an update does after it has written the job. -/
theorem recordEvent_agrees (h : Alike l d) {job : Job} {eventType : String} {artifact : Option Artifact}
    {failure : Option (String × String)} {at' : Time} (hrecord : Recordable d job artifact failure) :
    Agrees
      (do
        let event ← Repositories.appendEvent job.id eventType job.progress
        Repositories.recordFailure job failure
        Repositories.recordArtifact job artifact
        return event)
      (do
        let event ← PostgresRepositories.appendEvent job.id eventType job.progress
        PostgresRepositories.recordArtifact job artifact
        PostgresRepositories.recordFailure job failure
        PostgresRepositories.finishJob none job at'
        return event) l d := by
  refine (appendEvent_coupled h job.id eventType job.progress).bind fun event event' x x' hevent hx => ?_
  obtain ⟨halike, hartifacts, hfailures⟩ := hx
  have hrecord' : Recordable x' job artifact failure := by
    unfold Recordable at hrecord ⊢
    rwa [hartifacts, hfailures]
  rw [← Prog.bind_bind, ← Prog.bind_bind]
  refine (record_agrees halike hrecord').bind fun _ _ y y' _ hy => ?_
  exact finishJob_agrees hy job at' fun d' hd' => ⟨hevent, hd'⟩

theorem updateJobAndAppendEvent_agrees (h : Alike l d) {job : Job} {expectedVersion : ℤ} {eventType : String}
    {artifact : Option Artifact} {lease : Option Lease} {failure : Option (String × String)} {now at' : Time}
    (hupdate : Updatable d job expectedVersion artifact lease failure now) :
    Agrees
      (Repositories.updateJobAndAppendEvent job expectedVersion eventType artifact lease failure now)
      (PostgresRepositories.updateJobAndAppendEvent none job expectedVersion eventType artifact lease
        failure now at')
      l d := by
  have hversion : ¬ (job.version : ℤ) ≠ expectedVersion + 1 := not_not.mpr hupdate.version
  unfold Agrees Repositories.updateJobAndAppendEvent PostgresRepositories.updateJobAndAppendEvent
  rw [Prog.raiseIf_bind, if_neg hversion, Prog.run_bind, Prog.run_bind, Repositories.checkLease_run,
    PostgresExecution.checkLease_run, h.leases]
  by_cases hheld : holdsLease d.leases lease now = true
  · have hjob := h.job job.id
    have hspec : ¬ (l.jobs.get? job.id).any (·.spec ≠ job.spec) = true := by
      rw [hjob]
      cases hrow : d.jobs.get? job.id with
      | none => simp
      | some row => simp [hupdate.spec hheld row hrow]
    simp only [hheld, if_true, issue_bind, Repositories.selectJob, Prog.run_select, Prog.raiseIf_bind]
    rw [if_neg hspec]
    refine (updateJob_coupled h job expectedVersion).bind fun a a' x x' ha hx => ?_
    rw [ha.1]
    refine (requireOne_coupled (R := fun y y' => y = x ∧ y' = x') ⟨rfl, rfl⟩ a').bind
      fun _ _ y y' hone hy => ?_
    obtain ⟨rfl, rfl⟩ := hy
    refine recordEvent_agrees hx.1 ?_
    obtain ⟨row, hrow, hrowVersion⟩ := ha.2 hone
    have hrecord := hupdate.recordable hheld row hrow hrowVersion
    unfold Recordable at hrecord ⊢
    rwa [hx.2.1, hx.2.2]
  · simp only [hheld]
    exact SameError.refl Error.staleWrite

/-- Both stores have the guards of the call, and what it writes fits. -/
def StoreCall.Guarded (d : HostedDb) : StoreCall → Prop
  | .createJobAndDispatch job dispatch idempotencyKey => Creatable d job dispatch idempotencyKey
  | .updateJobAndAppendEvent job expectedVersion _ artifact lease failure now _ =>
    Updatable d job expectedVersion artifact lease failure now
  | .requestCancellation jobId _ => Cancellable d jobId
  | .finishDispatch dispatch lease now => Finishable d dispatch lease now
  | .claimExecution dispatchId limit _ maxAttempts _ now _ =>
    Claimable d dispatchId limit now → Issuable d dispatchId maxAttempts
  | .renewExecution .. | .releaseExecution .. => True
  | .updateDispatch dispatch expectedVersion =>
    (dispatch.version : ℤ) = expectedVersion + 1 → fitsInteger dispatch.version

/-- The call is one that both stores answer alike. -/
structure StoreCall.Uniform (d : HostedDb) (call : StoreCall) : Prop where
  /-- PostgreSQL takes no NUL in a text. -/
  plain : ∀ text ∈ call.texts, '\x00' ∉ text.toList
  guarded : call.Guarded d

/-- What a uniform call writes fits its columns. -/
theorem StoreCall.within (hd : d.Fits) {call : StoreCall} (hcall : call.Uniform d) :
    call.hosted.Within Write.fits d := by
  have hguarded := hcall.guarded
  cases call with
  | createJobAndDispatch job dispatch idempotencyKey =>
    exact (PostgresRepositories.createJobAndDispatch_within hguarded.jobFits hguarded.dispatchFits).bind
      fun _ _ _ => trivial
  | updateJobAndAppendEvent job expectedVersion eventType artifact lease failure now at' =>
    exact (PostgresRepositories.updateJobAndAppendEvent_within hd hguarded.jobFits hguarded.eventFits).bind
      fun _ _ _ => trivial
  | requestCancellation jobId at' =>
    exact (PostgresRepositories.requestCancellation_within hd jobId at' hguarded).bind fun _ _ _ => trivial
  | finishDispatch dispatch lease now =>
    exact (PostgresRepositories.finishDispatch_within dispatch lease now hguarded).bind fun _ _ _ => trivial
  | claimExecution dispatchId limit ttl maxAttempts token now at' =>
    exact Prog.Within.bind (PostgresExecution.claimExecution_within
      (fun lease hclaim => (hguarded hclaim).attempts lease) fun dispatch hclaim =>
        (hguarded hclaim).version dispatch)
      fun _ _ _ => trivial
  | renewExecution dispatchId token ttl now now' =>
    exact (PostgresExecution.renewExecution_within hd dispatchId token ttl now now').bind fun _ _ _ => trivial
  | releaseExecution dispatchId token =>
    exact (PostgresExecution.releaseExecution_within hd dispatchId token).bind fun _ _ _ => trivial
  | updateDispatch dispatch expectedVersion =>
    exact (PostgresRepositories.updateDispatch_within dispatch expectedVersion hguarded).bind
      fun _ _ _ => trivial

theorem StoreCall.agrees (h : Alike l d) (hd : d.Fits) {call : StoreCall} (hcall : call.Uniform d) :
    Agrees call.sqlite call.postgres l d := by
  have hguarded := hcall.guarded
  have hstatements : Agrees call.sqlite call.hosted l d := by
    cases call with
    | createJobAndDispatch job dispatch idempotencyKey => exact (createJobAndDispatch_agrees h hguarded).map _
    | updateJobAndAppendEvent job expectedVersion eventType artifact lease failure now at' =>
      exact (updateJobAndAppendEvent_agrees h hguarded).map _
    | requestCancellation jobId at' => exact (requestCancellation_agrees h jobId at').map _
    | finishDispatch dispatch lease now => exact (finishDispatch_agrees h dispatch lease now).map _
    | claimExecution dispatchId limit ttl maxAttempts token now at' =>
      exact (claimExecution_agrees h fun lease hclaim hrow => ((hguarded hclaim).attempts lease hrow).1).map _
    | renewExecution dispatchId token ttl now now' =>
      exact (renewExecution_agrees h dispatchId token ttl now now').map _
    | releaseExecution dispatchId token =>
      exact (releaseExecution_agrees h dispatchId token).map fun _ => Local.Reply.none
    | updateDispatch dispatch expectedVersion =>
      exact (updateDispatch_agrees h dispatch expectedVersion).map fun _ => Local.Reply.none
  unfold Agrees StoreCall.postgres ranged
  rw [(StoreCall.within hd hcall).run_checked]
  exact hstatements

end

/-- The results of one call on both stores: the same value, or the same exception. -/
def SameOutcome : Except Error Local.Reply → Except Error Local.Reply → Prop
  | .ok r, .ok r' => r = r'
  | .error e, .error e' => SameError e e'
  | _, _ => False

/-- The stores after the calls. -/
def runBoth (calls : List StoreCall) (l : LocalDb) (d : HostedDb) : LocalDb × HostedDb :=
  calls.foldl (fun stores call =>
    ((call.sqlite.transaction stores.1).2, (call.postgres.transaction stores.2).2)) (l, d)

theorem runBoth_snoc (before : List StoreCall) (call : StoreCall) (l : LocalDb) (d : HostedDb) :
    runBoth (before ++ [call]) l d =
      ((call.sqlite.transaction (runBoth before l d).1).2,
        (call.postgres.transaction (runBoth before l d).2).2) := by
  unfold runBoth
  rw [List.foldl_append, List.foldl_cons, List.foldl_nil]

theorem Agrees.sameOutcome {l : LocalDb} {d : HostedDb} {p : LocalProcedure Local.Reply}
    {p' : Procedure Local.Reply} (h : Agrees p p' l d) :
    SameOutcome (p.transaction l).1 (p'.transaction d).1 := by
  unfold Agrees at h
  cases hp : p.run l with
  | error e =>
    cases hp' : p'.run d with
    | error e' =>
      rw [hp, hp'] at h
      rw [Prog.transaction_of_error hp, Prog.transaction_of_error hp']
      exact h
    | ok r' => simp [hp, hp'] at h
  | ok r =>
    cases hp' : p'.run d with
    | error e' => simp [hp, hp'] at h
    | ok r' =>
      rw [hp, hp'] at h
      rw [Prog.transaction_of_ok hp, Prog.transaction_of_ok hp']
      exact h.1

/-- A uniform call leaves hosted rows that fit. -/
theorem StoreCall.fits {d : HostedDb} (hd : d.Fits) {call : StoreCall} (hcall : call.Uniform d) :
    (call.postgres.transaction d).2.Fits := by
  have hwithin := StoreCall.within hd hcall
  have hrun : call.postgres.run d = call.hosted.run d := hwithin.run_checked _
  cases hresult : call.postgres.run d with
  | error e =>
    rw [Prog.transaction_of_error hresult]
    exact hd
  | ok r =>
    rw [Prog.transaction_of_ok hresult]
    exact hd.run hwithin (hrun.symm.trans hresult)

/-- Uniform calls keep the rows equal. -/
theorem runBoth_alike {l : LocalDb} {d : HostedDb} (h : Alike l d) (hd : d.Fits) {calls : List StoreCall}
    (hcalls : ∀ before call after, calls = before ++ call :: after → call.Uniform (runBoth before l d).2)
    (before after : List StoreCall) (hbefore : calls = before ++ after) :
    Alike (runBoth before l d).1 (runBoth before l d).2 ∧ (runBoth before l d).2.Fits := by
  induction before using List.reverseRecOn generalizing after with
  | nil => exact ⟨h, hd⟩
  | append_singleton before call ih =>
    have hcall : calls = before ++ call :: after := by
      rw [hbefore, List.append_assoc, List.singleton_append]
    obtain ⟨halike, hfits⟩ := ih (call :: after) hcall
    have huniform := hcalls before call after hcall
    rw [runBoth_snoc]
    exact ⟨(StoreCall.agrees halike hfits huniform).transaction halike, StoreCall.fits hfits huniform⟩

theorem alike_empty : Alike {} {} := ⟨rfl, rfl, rfl, rfl, rfl, rfl, rfl⟩

theorem fits_empty : HostedDb.Fits {} := by
  constructor <;> intro row hrow <;> cases hrow

def sampleCreation : StoreCall :=
  .createJobAndDispatch Hosted.sampleJob ⟨"dispatch", "job", "pending", 0⟩ (some "key")

/-- A job of version 5 is written over version 0: the local store refuses it, the hosted one does not. -/
def sampleJump : StoreCall :=
  .updateJobAndAppendEvent { Hosted.sampleJob with status := .running, version := 5 } 0 "running"
    none none none 0 0

end KenkuiServer
