import KenkuiServer.Credits.Settlement
import KenkuiServer.Hosted.Coupling
import KenkuiServer.Hosted.Fencing
import KenkuiServer.Txn.Serial

/-! Recovery in the hosted store: a job that is not over can be claimed, until its attempts are used up and
the claim ends it and releases its reservation. -/
namespace KenkuiServer.Storage
open Txn Jobs Billing PostgresExecution PostgresRepositories

namespace HostedDb
variable (d : HostedDb)

/-- How often a dispatch has been issued. -/
def attempts (dispatchId : String) : ℕ := (d.leases.get? dispatchId).elim 0 (·.attempts)

/-- The store after a claim that issued `token`. -/
def issued (dispatch : Dispatch) (token : String) (expiresAt : Time) : HostedDb :=
  { d with
    leases := d.leases.put ⟨dispatch.id, token, expiresAt, d.attempts dispatch.id + 1⟩
    dispatches := d.dispatches.put { dispatch with status := "pending", version := dispatch.version + 1 } }

/-- The event that ends a job whose attempts are used up. -/
def lostEvent (job : JobRow) : JobEvent :=
  ⟨job.id, d.nextSequence job.id, (lostStatus job.status).value, job.progress⟩

def lostFailure (jobId : String) : JobFailure :=
  ⟨jobId, "worker_lost", "The worker repeatedly stopped. Please retry the job."⟩

/-- The row of a job whose attempts are used up. -/
def lostJob (job : JobRow) (at' : Time) : JobRow :=
  { job.set (lostStatus job.status) (job.version + 1) job.progress with terminalAt := some at' }

/-- The store after a claim that found the attempts used up. -/
def lost (dispatch : Dispatch) (job : JobRow) (auth : CreditAuthorization) (at' : Time) : HostedDb :=
  { d with
    jobs := d.jobs.put (lostJob job at')
    events := d.events.put (d.lostEvent job)
    dispatches := d.dispatches.put { dispatch with status := "done", version := dispatch.version + 1 }
    failures := if (d.failures.get? job.id).isSome then d.failures else d.failures.put (lostFailure job.id)
    billing := d.billing.closed auth .released }

variable {d} {dispatch : Dispatch} {job : JobRow} {auth : CreditAuthorization} {at' : Time}

theorem lostEvent_appended : (d.lost dispatch job auth at').events.rows =
    d.events.rows ++ [d.lostEvent job] :=
  Table.rows_put_of_none (get?_nextSequence d job.id)

theorem mem_listIncomplete (collate : String → String → Bool) (hdispatch : dispatch ∈ d.dispatches.rows)
    (hjob : d.jobs.get? dispatch.jobId = some job) (hgoing : job.status.isTerminal = false) :
    dispatch ∈ listIncomplete collate d := by
  unfold listIncomplete
  rw [List.mem_insertionSort, List.mem_filter, hjob]
  exact ⟨hdispatch, by simpa using hgoing⟩

/-- A lease that has expired does not count against the limit. -/
theorem activeLeases_others {now : Time}
    (hexpired : ∀ lease, d.leases.get? dispatch.id = some lease → lease.expiresAt ≤ now) :
    (d.activeLeases now).filter (·.dispatchId ≠ dispatch.id) = d.activeLeases now := by
  refine List.filter_eq_self.mpr fun lease hlease => ?_
  obtain ⟨hmem, hlive⟩ := List.mem_filter.mp hlease
  have hlive := (of_decide_eq_true hlive).1
  refine decide_eq_true fun hid => ?_
  have hget := Table.get?_of_mem hmem
  rw [hid] at hget
  exact absurd hlive (Rat.not_lt.mpr (hexpired lease hget))

end HostedDb

theorem HostedDb.dispatchJob_eq_some {d : HostedDb} {dispatchId : String} {job : JobRow}
    (h : d.dispatchJob dispatchId = some job) :
    ∃ dispatch, d.dispatches.get? dispatchId = some dispatch ∧ dispatch.jobId = job.id ∧
      d.jobs.get? job.id = some job := by
  simp only [HostedDb.dispatchJob, Option.bind_eq_bind, Option.bind_eq_some_iff] at h
  obtain ⟨dispatch, hdispatch, hjob⟩ := h
  have hid : job.id = dispatch.jobId := ((d.jobs.get?_eq_some_iff _ job).mp hjob).2
  exact ⟨dispatch, hdispatch, hid.symm, hid ▸ hjob⟩

namespace PostgresExecution

variable {d d' : HostedDb} {dispatch : Dispatch} {job : JobRow} {auth : CreditAuthorization}
  {limit maxAttempts : ℤ} {ttl now at' : Time} {token : String}
open HostedDb

theorem insertFailureOnce_run {α : Type} {row : JobFailure} {k : Unit → Procedure α} :
    (Prog.step (insertFailureOnce row) k).run d =
      (k ()).run { d with
        failures := if (d.failures.get? row.jobId).isSome then d.failures else d.failures.put row } := by
  simp only [insertFailureOnce, Prog.run_mk]
  by_cases hsome : (d.failures.get? row.jobId).isSome
  · rw [if_pos hsome, if_pos hsome]
    rfl
  · rw [if_neg hsome, if_neg hsome]
    rfl

theorem loseWorker_run (hbooks : d.billing.Books) (hapart : d.billing.Apart)
    (hdispatch : d.dispatches.get? dispatch.id = some dispatch) (hjob : d.jobs.get? job.id = some job)
    (hauth : PostgresBillingRepository.authorizationOfJob job.id d.billing = some auth)
    (hreserved : auth.status = .reserved) :
    (loseWorker PostgresHostedRepository.billing dispatch.id job.id job.status at').run d =
      .ok ((), d.lost dispatch job auth at') := by
  have hlost : (d.jobs.put (lostJob job at')).get? job.id = some (lostJob job at') :=
    Table.get?_put_self d.jobs (lostJob job at')
  have hfree := get?_nextSequence d job.id
  have hexec : ∀ d₁ : HostedDb, d₁.jobs.get? job.id = some (lostJob job at') → d₁.events = d.events →
      (appendJobEvent job.id (lostStatus job.status).value).exec d₁ =
        .ok ((), [.event (d.lostEvent job)]) := by
    intro d₁ hjob₁ hevents
    have hnext : d₁.nextSequence job.id = d.nextSequence job.id := by
      unfold HostedDb.nextSequence
      rw [hevents]
    simp only [appendJobEvent, hjob₁, hnext, hevents, hfree, Option.isSome_none, Bool.false_eq_true, if_false]
    rfl
  have hstatus : (if job.status = .cancelRequested then JobStatus.cancelled else .failed) =
      lostStatus job.status := rfl
  have hfinal : ∀ d₁ : HostedDb, d₁.billing = d.billing →
      (PostgresBillingRepository.finalize job.id .released).run d₁ =
        .ok ({ auth with status := .released }, { d₁ with billing := d.billing.closed auth .released }) := by
    intro d₁ hbilling
    rw [← hbilling] at hbooks hapart hauth ⊢
    exact PostgresBillingRepository.finalize_run hbooks hapart (by decide) hauth hreserved
  unfold loseWorker
  simp only [hstatus, issue_bind, loseJob, Prog.run_update, hjob, setDispatchStatus,
    dispatches_apply, hdispatch, insertFailureOnce_run]
  rw [Prog.run_step, hexec]
  · simp only [PostgresHostedRepository.billing]
    rw [Prog.run_bind, hfinal]
    · rfl
    · rfl
  · exact hlost
  · rfl

/-- What a committed claim did: nothing, the end of a lost worker's job, or a token issued. -/
inductive HostedClaimed (dispatchId : String) (ttl : Time) (maxAttempts : ℤ) (token : String) (now at' : Time)
    (d : HostedDb) : Option String → HostedDb → Prop
  | idle : HostedClaimed dispatchId ttl maxAttempts token now at' d none d
  | lost (dispatch : Dispatch) (job : JobRow) (d' : HostedDb) (id : dispatch.id = dispatchId)
      (foundDispatch : d.dispatches.get? dispatch.id = some dispatch) (found : d.jobs.get? job.id = some job)
      (going : job.status.isTerminal = false)
      (loses : (loseWorker PostgresHostedRepository.billing dispatchId job.id job.status at').run d =
        .ok ((), d')) :
    HostedClaimed dispatchId ttl maxAttempts token now at' d none d'
  | issued (dispatch : Dispatch) (id : dispatch.id = dispatchId)
      (foundDispatch : d.dispatches.get? dispatch.id = some dispatch)
      (left : (d.attempts dispatchId : ℤ) < maxAttempts) :
    HostedClaimed dispatchId ttl maxAttempts token now at' d (some token)
      (d.issued dispatch token (now + ttl))

theorem attempts_exhausted (hmax : 0 < maxAttempts) (dispatchId : String) :
    (d.leases.get? dispatchId).any (fun lease => (lease.attempts : ℤ) ≥ maxAttempts) ↔
      ¬ (d.attempts dispatchId : ℤ) < maxAttempts := by
  unfold HostedDb.attempts
  cases d.leases.get? dispatchId with
  | none => simpa using hmax
  | some lease => simp

theorem issue_run (hdispatch : d.dispatches.get? dispatch.id = some dispatch) {expiresAt : Time} :
    (do
      (upsertLease dispatch.id token expiresAt).issue
      let _ ← (setDispatchStatus dispatch.id "pending").issue
      return some token : Procedure (Option String)).run d =
        .ok (some token, d.issued dispatch token expiresAt) := by
  simp only [issue_bind, upsertLease, Prog.run_mk, setDispatchStatus, Prog.run_update,
    applyAll_cons, applyAll_nil, dispatches_apply, hdispatch]
  unfold HostedDb.issued HostedDb.attempts
  cases d.leases.get? dispatch.id with
  | none => rfl
  | some lease => rfl

theorem claim_cases {dispatchId : String} {reply : Option String} (hmax : 0 < maxAttempts)
    (h : (claimExecution PostgresHostedRepository.billing dispatchId limit ttl maxAttempts token now
      at').run d = .ok (reply, d')) : HostedClaimed dispatchId ttl maxAttempts token now at' d reply d' := by
  unfold claimExecution at h
  simp only [issue_bind, advisoryLock, Prog.run_mk, applyAll_nil, selectDispatchJob, Prog.run_select] at h
  cases hjoin : d.dispatchJob dispatchId with
  | none =>
    simp only [hjoin, Option.map_none] at h
    cases h
    exact .idle
  | some job =>
    obtain ⟨dispatch, hdispatch, hjob, hget⟩ := HostedDb.dispatchJob_eq_some hjoin
    have hid : dispatch.id = dispatchId := Table.key_of_get? hdispatch
    subst hid
    simp only [hjoin, Option.map_some] at h
    split at h
    · cases h
      exact .idle
    rename_i hgoing
    simp only [selectLeaseForUpdate, Prog.run_selectForUpdate, countActiveLeases] at h
    split at h
    · cases h
      exact .idle
    simp only [Prog.run_select] at h
    split at h
    · cases h
      exact .idle
    split at h
    · obtain ⟨_, d₁, hlose, hret⟩ := Prog.run_bind_ok h
      cases hret
      exact .lost dispatch job d' rfl hdispatch hget (by simpa using hgoing) hlose
    · rename_i hleft
      rw [attempts_exhausted hmax, not_not] at hleft
      have hissued := (issue_run hdispatch).symm.trans h
      cases hissued
      exact .issued dispatch rfl hdispatch hleft

/-- What a claim does to a job that is not over, once its lease has expired and there is room. -/
theorem claim_run (hbooks : d.billing.Books) (hapart : d.billing.Apart)
    (hdispatch : d.dispatches.get? dispatch.id = some dispatch) (hjob : d.jobs.get? dispatch.jobId = some job)
    (hgoing : job.status.isTerminal = false)
    (hexpired : ∀ lease, d.leases.get? dispatch.id = some lease → lease.expiresAt ≤ now)
    (hroom : ((d.activeLeases now).length : ℤ) < limit) (hmax : 0 < maxAttempts)
    (hauth : PostgresBillingRepository.authorizationOfJob job.id d.billing = some auth)
    (hreserved : auth.status = .reserved) :
    (claimExecution PostgresHostedRepository.billing dispatch.id limit ttl maxAttempts token now at').run d =
      if (d.attempts dispatch.id : ℤ) < maxAttempts then .ok (some token, d.issued dispatch token (now + ttl))
      else .ok (none, d.lost dispatch job auth at') := by
  have hid : job.id = dispatch.jobId := ((d.jobs.get?_eq_some_iff _ job).mp hjob).2
  have hjoin : d.dispatchJob dispatch.id = some job := by
    simp only [HostedDb.dispatchJob, hdispatch, Option.bind_eq_bind, Option.bind_some, hjob]
  have hheld : ¬ (d.leases.get? dispatch.id).any (·.expiresAt > now) := by
    cases hlease : d.leases.get? dispatch.id with
    | none => simp
    | some lease => simpa [Rat.not_lt] using hexpired lease hlease
  have hexhausted := attempts_exhausted (d := d) hmax dispatch.id
  unfold claimExecution
  simp only [issue_bind, advisoryLock, Prog.run_mk, applyAll_nil, selectDispatchJob, Prog.run_select, hjoin,
    Option.map_some, hgoing, Bool.false_eq_true, if_false, selectLeaseForUpdate,
    Prog.run_selectForUpdate, hheld, countActiveLeases, not_le.mpr hroom, ge_iff_le]
  by_cases hleft : (d.attempts dispatch.id : ℤ) < maxAttempts
  · rw [if_neg (fun h => hexhausted.mp h hleft), if_pos hleft]
    exact issue_run hdispatch
  · rw [if_pos (hexhausted.mpr hleft), if_neg hleft, Prog.run_bind]
    rw [← hid] at hjob
    rw [loseWorker_run hbooks hapart hdispatch hjob hauth hreserved]
    rfl

/-- A procedure that writes no dispatch. -/
abbrev Undispatched {α : Type} (p : Procedure α) : Prop := p.Emits (fun w => w.isDispatch = false)
    fun _ => True

theorem Unleased.leases {α : Type} {p : Procedure α} {a : α} (hp : Unleased p) (h : p.run d = .ok (a, d')) :
    d'.leases = d.leases := by
  refine hp.frame (fun x => x.leases) (fun w hw x => ?_) h
  cases w <;> first | rfl | cases hw

theorem Undispatched.dispatches {α : Type} {p : Procedure α} {a : α} (hp : Undispatched p)
    (h : p.run d = .ok (a, d')) : d'.dispatches = d.dispatches := by
  refine hp.frame (fun x => x.dispatches) (fun w hw x => ?_) h
  cases w <;> first | rfl | cases hw

theorem renew_ok {dispatchId : String} {ttl now' : Time} {renewed : Bool}
    (h : (renewExecution dispatchId token ttl now now').run d = .ok (renewed, d')) :
    d' = d ∨ ∃ row expiresAt, d.leases.get? dispatchId = some row ∧
      d' = { d with leases := d.leases.put ({ row with expiresAt }) } := by
  simp only [renewExecution, issue_bind, renewLease, Prog.run_update] at h
  cases hrow : d.leases.get? dispatchId with
  | none =>
    simp only [hrow] at h
    cases h
    exact Or.inl rfl
  | some row =>
    simp only [hrow] at h
    split_ifs at h
    · cases h
      exact Or.inr ⟨row, _, rfl, rfl⟩
    · cases h
      exact Or.inl rfl

theorem release_ok {dispatchId : String} {u : Unit}
    (h : (releaseExecution dispatchId token).run d = .ok (u, d')) :
    d' = d ∨ ∃ row expiresAt, d.leases.get? dispatchId = some row ∧
      d' = { d with leases := d.leases.put ({ row with expiresAt }) } := by
  simp only [releaseExecution, issue_bind, expireLease, Prog.run_update] at h
  cases hrow : d.leases.get? dispatchId with
  | none =>
    simp only [hrow] at h
    cases h
    exact Or.inl rfl
  | some row =>
    simp only [hrow] at h
    split_ifs at h
    · cases h
      exact Or.inr ⟨row, _, rfl, rfl⟩
    · cases h
      exact Or.inl rfl

theorem updateDispatch_ok {expectedVersion : ℤ} {u : Unit}
    (h : (updateDispatch dispatch expectedVersion).run d = .ok (u, d')) :
    ∃ stored, d.dispatches.get? dispatch.id = some stored ∧ d' = { d with
      dispatches := d.dispatches.put
        ({ stored with status := dispatch.status, version := dispatch.version }) } := by
  unfold updateDispatch at h
  obtain ⟨-, h⟩ := Prog.run_raiseIf_ok h
  simp only [issue_bind, updateDispatchRow, Prog.run_update] at h
  cases hrow : d.dispatches.get? dispatch.id with
  | none => simp [hrow, requireOne, Prog.raiseIf] at h
  | some row =>
    simp only [hrow] at h
    split_ifs at h
    · cases h
      exact ⟨row, rfl, rfl⟩
    · simp [requireOne, Prog.raiseIf] at h

theorem finish_ok {lease : Option Lease} {finished : Bool}
    (h : (finishDispatchIfNotCancellationRequested dispatch lease now).run d = .ok (finished, d')) :
    d' = d ∨ ∃ stored, d.dispatches.get? dispatch.id = some stored ∧ d' = { d with
      dispatches := d.dispatches.put
        ({ stored with status := "done", version := dispatch.version + 1 }) } := by
  unfold finishDispatchIfNotCancellationRequested at h
  obtain ⟨_, d₁, hlease, hrest⟩ := Prog.run_bind_ok h
  have hd := checkLease_ok hlease
  subst hd
  simp only [issue_bind, selectJobStatus, Prog.run_select] at hrest
  cases hjob : d₁.jobs.get? dispatch.jobId with
  | none => simp [hjob] at hrest
  | some job =>
    simp only [hjob, Option.map_some] at hrest
    split at hrest
    · cases hrest
      exact Or.inl rfl
    obtain ⟨-, hrest⟩ := Prog.run_raiseIf_ok hrest
    simp only [finishDispatch, Prog.run_update] at hrest
    cases hrow : d₁.dispatches.get? dispatch.id with
    | none => simp [hrow] at hrest
    | some row =>
      simp only [hrow] at hrest
      split_ifs at hrest
      · cases hrest
        exact Or.inr ⟨row, rfl, rfl⟩
      · simp at hrest

/-- A dispatch stays, with its job. -/
def DispatchesOnward (d d' : HostedDb) : Prop :=
  ∀ id dispatch, d.dispatches.get? id = some dispatch →
    ∃ dispatch', d'.dispatches.get? id = some dispatch' ∧ dispatch'.jobId = dispatch.jobId

theorem onward_same (h : d'.dispatches = d.dispatches) : DispatchesOnward d d' :=
  fun id dispatch hget => ⟨dispatch, by rw [h, hget], rfl⟩

theorem onward_put {next : Dispatch} (h : d'.dispatches = d.dispatches.put next)
    (hnext : ∀ stored, d.dispatches.get? next.id = some stored → next.jobId = stored.jobId) :
    DispatchesOnward d d' := by
  intro id dispatch hget
  rw [h, Table.get?_put]
  split_ifs with hid
  · exact ⟨next, rfl, hnext dispatch (hid ▸ hget)⟩
  · exact ⟨dispatch, hget, rfl⟩

theorem onward_rewritten {id : String} {stored next : Dispatch} (hstored : d.dispatches.get? id = some stored)
    (h : d'.dispatches = d.dispatches.put next) (hid : next.id = stored.id)
    (hjob : next.jobId = stored.jobId) :
    DispatchesOnward d d' := by
  refine onward_put h fun old hold => ?_
  have hkey : stored.id = id := Table.key_of_get? hstored
  rw [hid, hkey, hstored] at hold
  cases hold
  exact hjob

theorem loseWorker_onward {jobId : String} {seen : JobStatus} {u : Unit}
    (hdispatch : d.dispatches.get? dispatch.id = some dispatch)
    (h : (loseWorker PostgresHostedRepository.billing dispatch.id jobId seen at').run d = .ok (u, d')) :
    DispatchesOnward d d' := by
  simp only [loseWorker, issue_bind, PostgresHostedRepository.billing] at h
  obtain ⟨_, d₁, hjob, hrest⟩ := Prog.run_step_ok h
  obtain ⟨_, d₂, hdone, hrest⟩ := Prog.run_step_ok hrest
  obtain ⟨_, d₃, hfailure, hrest⟩ := Prog.run_step_ok hrest
  obtain ⟨_, d₄, hevent, hrest⟩ := Prog.run_step_ok hrest
  obtain ⟨_, d₅, hfinalize, hret⟩ := Prog.run_bind_ok hrest
  cases hret
  have h₁ : d₁.dispatches = d.dispatches :=
    Undispatched.dispatches (emits_issue (loseJob_emits fun _ => rfl)) hjob
  have h₃ := Undispatched.dispatches (emits_issue (insertFailureOnce_emits rfl)) hfailure
  have h₄ := Undispatched.dispatches (emits_issue (appendJobEvent_emits (fun _ => rfl) fun _ => trivial))
    hevent
  have h₅ := Undispatched.dispatches
    (PostgresBillingRepository.finalize_emits (fun _ => rfl) (fun _ _ => trivial) _ _) hfinalize
  have hsame : d'.dispatches = d₂.dispatches := h₅.trans (h₄.trans h₃)
  simp only [Stmt.issue, setDispatchStatus, Prog.run_update, h₁, hdispatch] at hdone
  cases hdone
  have hput : d'.dispatches =
      d.dispatches.put { dispatch with status := "done", version := dispatch.version + 1 } := by
    rw [hsame, dispatches_apply, h₁]
  exact onward_rewritten hdispatch hput rfl rfl

end PostgresExecution

end KenkuiServer.Storage

namespace KenkuiServer.Hosted
open Txn Jobs Billing Storage PostgresBillingRepository PostgresExecution

abbrev HostedRun := Serial HostedDb Call Reply

/-- Claims bound the attempts by their default, and a job is admitted with a dispatch of its own. -/
def Call.Standard : Call → Prop
  | .claimExecution _ _ _ maxAttempts _ _ _ => maxAttempts = 3
  | .admitJob _ job dispatch _ _ _ _ => dispatch.jobId = job.id
  | _ => True

section
variable {past : List HostedDb} {d d' : HostedDb} {reply : Reply}

theorem attempts_same (h : d'.leases = d.leases) (id : String) : d'.attempts id = d.attempts id := by
  unfold HostedDb.attempts
  rw [h]

theorem attempts_rewritten {dispatchId : String} {row : ExecutionLease}
    (hrow : d.leases.get? dispatchId = some row) (expiresAt : Time) (id : String) :
    ({ d with leases := d.leases.put ({ row with expiresAt }) } : HostedDb).attempts id = d.attempts id := by
  have hkey : row.dispatchId = dispatchId := Table.key_of_get? hrow
  simp only [HostedDb.attempts, Table.get?_put]
  split_ifs with hsame
  · rw [← hsame, hkey, hrow]
    rfl
  · rfl

/-- Only a claim that issues a token adds an attempt, and only while there were fewer than three. -/
theorem Call.attempts_effect (call : Call) (hstandard : call.Standard) (hpermitted : call.Permitted past)
    (h : call.prog.run d = .ok (reply, d')) (id : String) :
    d'.attempts id = d.attempts id + (tokensOf id [(call, reply)]).length ∧
      (d.attempts id ≤ 3 → d'.attempts id ≤ 3) := by
  have hkept : ∀ {call : Call}, issuedBy (call, reply) = none → d'.attempts id = d.attempts id →
      d'.attempts id = d.attempts id + (tokensOf id [(call, reply)]).length ∧
        (d.attempts id ≤ 3 → d'.attempts id ≤ 3) := by
    intro call hnone hsame
    rw [hsame]
    simp [tokensOf, hnone]
  have hreturns : ∀ {α : Type} {p : Procedure α} {f : α → Reply}, Unleased p →
      (p >>= fun a => pure (f a)).run d = .ok (reply, d') → d'.attempts id = d.attempts id := by
    intro α p f hp hrun
    obtain ⟨a, hrun, -⟩ := Prog.run_map_ok hrun
    exact attempts_same (Unleased.leases hp hrun) id
  cases call with
  | accountForIdentity accountId lotId identityId allowance =>
    exact hkept rfl (hreturns (accountForIdentity_emits (fun _ => rfl) (fun _ => rfl) (fun _ => rfl)
      (fun _ _ => trivial) _ _ _ _) h)
  | grant lotId accountId credits reference =>
    exact hkept rfl (hreturns (grant_emits (fun _ => rfl) (fun _ => rfl) (fun _ => rfl) (fun _ _ => trivial)
      _ _ _ _) h)
  | processPaymentEvent lotId provider providerEventId accountId credits =>
    exact hkept rfl (hreturns (processPaymentEvent_emits (fun _ => rfl) (fun _ => rfl) (fun _ => rfl)
      (fun _ _ => trivial) (fun _ => rfl) _ _ _ _ _) h)
  | reserve authorizationId jobId accountId credits => exact hpermitted.elim
  | finalize jobId status => exact hpermitted.elim
  | createJobAndDispatch job dispatch idempotencyKey => exact hpermitted.elim
  | admitJob authorizationId job dispatch accountId ownerId credits idempotencyKey =>
    exact hkept rfl (hreturns (admit_records _ _ _ _ _ _ _).unleased h)
  | claimExecution dispatchId limit ttl maxAttempts token now at' =>
    obtain rfl : maxAttempts = 3 := hstandard
    obtain ⟨issued, hrun, rfl⟩ := Prog.run_map_ok h
    cases claim_cases (by decide) hrun with
    | idle => exact hkept rfl rfl
    | lost dispatch job _ hid foundDispatch found going loses =>
      exact hkept rfl (attempts_same (Unleased.leases (loseWorker_records _ _ _ _).unleased loses) id)
    | issued dispatch hid foundDispatch left =>
      subst hid
      by_cases hid : dispatch.id = id
      · subst hid
        have hnew : (d.issued dispatch token (now + ttl)).attempts dispatch.id =
            d.attempts dispatch.id + 1 := by
          simp [HostedDb.attempts, HostedDb.issued]
        rw [hnew]
        simp only [tokensOf, List.filterMap_cons, issuedBy, Option.filter_some, decide_true, if_true,
          Option.map_some, List.filterMap_nil, List.length_singleton, true_and]
        omega
      · have hother : (d.issued dispatch token (now + ttl)).attempts id = d.attempts id := by
          simp [HostedDb.attempts, HostedDb.issued, Table.get?_put, hid]
        rw [hother]
        simp [tokensOf, issuedBy, hid]
  | update snapshot event eventType artifact lease failure now at' =>
    simp only [Call.prog] at h
    cases ht : transition snapshot event with
    | error e => simp [ht] at h
    | ok job =>
      simp only [ht] at h
      exact hkept rfl (hreturns (update_unleased _ _ _ _ _ _ _ _) h)
  | requestCancellation jobId at' => exact hkept rfl (hreturns (cancel_unleased _ _) h)
  | finishDispatch dispatch lease now =>
    exact hkept rfl (hreturns (PostgresRepositories.finishDispatchIfNotCancellationRequested_emits (fun _ =>
      rfl)
      (fun _ _ => trivial) _ _ _) h)
  | updateDispatch dispatch status =>
    exact hkept rfl (hreturns (f := fun _ => Reply.none)
      (PostgresRepositories.updateDispatch_emits (fun _ => rfl) (fun _ _ => trivial) _ _) h)
  | renewExecution dispatchId token ttl now now' =>
    obtain ⟨renewed, hrun, rfl⟩ := Prog.run_map_ok h
    obtain rfl | ⟨row, expiresAt, hrow, rfl⟩ := renew_ok hrun
    · exact hkept rfl rfl
    · exact hkept rfl (attempts_rewritten hrow expiresAt id)
  | releaseExecution dispatchId token =>
    obtain ⟨u, hrun, rfl⟩ := Prog.run_map_ok (f := fun _ => Reply.none) h
    obtain rfl | ⟨row, expiresAt, hrow, rfl⟩ := release_ok hrun
    · exact hkept rfl rfl
    · exact hkept rfl (attempts_rewritten hrow expiresAt id)
  | retainSources now skipped deletions =>
    exact hkept rfl (hreturns (PostgresRetention.runSources_emits (fun _ => rfl) (fun _ => rfl) trivial _ _ _)
      h)

/-- A dispatch stays, with its job. -/
theorem Call.dispatches_onward (call : Call) (hpermitted : call.Permitted past) (hbooks : d.billing.Books)
    (hstandard : call.Standard) (h : call.prog.run d = .ok (reply, d')) : DispatchesOnward d d' := by
  have hreturns : ∀ {α : Type} {p : Procedure α} {f : α → Reply}, Undispatched p →
      (p >>= fun a => pure (f a)).run d = .ok (reply, d') → DispatchesOnward d d' := by
    intro α p f hp hrun
    obtain ⟨a, hrun, -⟩ := Prog.run_map_ok hrun
    exact onward_same (Undispatched.dispatches hp hrun)
  cases call with
  | accountForIdentity accountId lotId identityId allowance =>
    exact hreturns (accountForIdentity_emits (fun _ => rfl) (fun _ => rfl) (fun _ => rfl)
      (fun _ _ => trivial) _ _ _ _) h
  | grant lotId accountId credits reference =>
    exact hreturns (grant_emits (fun _ => rfl) (fun _ => rfl) (fun _ => rfl) (fun _ _ => trivial) _ _ _ _) h
  | processPaymentEvent lotId provider providerEventId accountId credits =>
    exact hreturns (processPaymentEvent_emits (fun _ => rfl) (fun _ => rfl) (fun _ => rfl)
      (fun _ _ => trivial) (fun _ => rfl) _ _ _ _ _) h
  | reserve authorizationId jobId accountId credits => exact hpermitted.elim
  | finalize jobId status => exact hpermitted.elim
  | createJobAndDispatch job dispatch idempotencyKey => exact hpermitted.elim
  | admitJob authorizationId job dispatch accountId ownerId credits idempotencyKey =>
    obtain ⟨_, hadmit, -⟩ := Prog.run_map_ok h
    obtain rfl | ⟨-, hfresh, hdispatches⟩ := admit_ok hbooks hadmit
    · exact onward_same rfl
    · refine onward_put hdispatches fun stored hstored => ?_
      rw [hfresh] at hstored
      cases hstored
  | claimExecution dispatchId limit ttl maxAttempts token now at' =>
    obtain rfl : maxAttempts = 3 := hstandard
    obtain ⟨issued, hrun, rfl⟩ := Prog.run_map_ok h
    cases claim_cases (by decide) hrun with
    | idle => exact onward_same rfl
    | lost dispatch job _ hid foundDispatch found going loses =>
      subst hid
      exact loseWorker_onward foundDispatch loses
    | issued dispatch hid foundDispatch left => exact onward_rewritten foundDispatch rfl rfl rfl
  | update snapshot event eventType artifact lease failure now at' =>
    simp only [Call.prog] at h
    cases ht : transition snapshot event with
    | error e => simp [ht] at h
    | ok job =>
      simp only [ht] at h
      exact hreturns ((update_work _ _ _ _ _ _ _ _).imp
        (fun _ hw => (Write.isWork_aside hw).2) fun _ h => h) h
  | requestCancellation jobId at' =>
    exact hreturns ((cancel_work _ _).imp (fun _ hw => (Write.isWork_aside hw).2) fun _ h => h) h
  | finishDispatch dispatch lease now =>
    obtain ⟨_, hrun, -⟩ := Prog.run_map_ok h
    obtain rfl | ⟨stored, hstored, rfl⟩ := finish_ok hrun
    · exact onward_same rfl
    · exact onward_rewritten hstored rfl rfl rfl
  | updateDispatch dispatch status =>
    obtain ⟨_, hrun, -⟩ := Prog.run_map_ok (f := fun _ => Reply.none) h
    obtain ⟨stored, hstored, rfl⟩ := updateDispatch_ok hrun
    exact onward_rewritten hstored rfl rfl rfl
  | renewExecution dispatchId token ttl now now' =>
    have hrenew : Undispatched (PostgresExecution.renewExecution dispatchId token ttl now now') :=
      ⟨PostgresExecution.renewLease_emits fun _ => rfl, fun _ => trivial⟩
    exact hreturns hrenew h
  | releaseExecution dispatchId token =>
    have hrelease : Undispatched (PostgresExecution.releaseExecution dispatchId token) :=
      ⟨PostgresExecution.expireLease_emits fun _ => rfl, fun _ => trivial⟩
    exact hreturns (f := fun _ => Reply.none) hrelease h
  | retainSources now skipped deletions =>
    exact hreturns (PostgresRetention.runSources_emits (fun _ => rfl) (fun _ => rfl) trivial _ _ _) h

/-- A job that a committed call left was there before, or came with a dispatch. -/
theorem Call.jobs_dispatched (call : Call) (hpermitted : call.Permitted past) (hd : Coupled d)
    (hpast : ∀ d₀ ∈ past, Table.Later (fun r : JobRow => r.version) d₀.jobs d.jobs)
    (hstandard : call.Standard) (h : call.prog.run d = .ok (reply, d')) (job : JobRow)
    (hjob : job ∈ d'.jobs.rows) :
    (∃ old ∈ d.jobs.rows, old.id = job.id) ∨ ∃ dispatch ∈ d'.dispatches.rows, dispatch.jobId = job.id := by
  by_cases hcall : call.isAdmission = false
  · obtain ⟨hjobs, -⟩ | ⟨row, next, hmoved, -⟩ := call.jobProgress hcall hpermitted hd hpast h
    · rw [hjobs] at hjob
      exact Or.inl ⟨job, hjob, rfl⟩
    · rw [hmoved.jobs] at hjob
      rcases (Table.mem_put _ _ _).mp hjob with rfl | ⟨hjob, -⟩
      · exact Or.inl ⟨row, Table.mem_of_get? hmoved.found, hmoved.id.symm⟩
      · exact Or.inl ⟨job, hjob, rfl⟩
  · cases call with
    | admitJob authorizationId row dispatch accountId ownerId credits idempotencyKey =>
      have hown : dispatch.jobId = row.id := hstandard
      obtain ⟨_, hadmit, -⟩ := Prog.run_map_ok h
      obtain rfl | ⟨⟨auth, hadmitted⟩, -, hdispatches⟩ := admit_ok hd.books hadmit
      · exact Or.inl ⟨job, hjob, rfl⟩
      · rw [hadmitted.jobs] at hjob
        rw [hdispatches]
        rcases (Table.mem_put _ _ _).mp hjob with rfl | ⟨hjob, -⟩
        · exact Or.inr ⟨dispatch, (Table.mem_put _ _ _).mpr (Or.inl rfl), hown⟩
        · exact Or.inl ⟨job, hjob, rfl⟩
    | _ => exact absurd rfl hcall

end

/-- The calls of the job processes and of the processes that fund their accounts, whose references keep off
those of the ledger. -/
def Recovers (s : HostedRun) (call : Call) : Prop :=
  call.Permitted (s.db :: s.past) ∧ call.Standard ∧ ∀ reference, call.reference = some reference →
    OffLedger reference

/-- What a run keeps: the attempts of a dispatch are the tokens issued for it, three at most, and every job
has a dispatch and a reservation of its own. -/
structure Recovering (s : HostedRun) : Prop where
  coupled : Coupled s.db
  apart : s.db.billing.Apart
  issued : ∀ dispatchId, s.db.attempts dispatchId = (tokensOf dispatchId s.log).length
  bounded : ∀ dispatchId, s.db.attempts dispatchId ≤ 3
  dispatched : ∀ job ∈ s.db.jobs.rows, ∃ dispatch ∈ s.db.dispatches.rows, dispatch.jobId = job.id

section
variable {s : HostedRun}

theorem reach_jobRun (h : Serial.Reach Call.prog Recovers {} s) : JobRun s.past s.db := by
  induction h with
  | init => exact .empty
  | step call reach allowed ih =>
    rename_i s
    have hrun := JobRun.call call ih allowed.1
    unfold Prog.transaction at hrun
    unfold Serial.step
    cases hcall : call.prog.run s.db with
    | error e =>
      rw [hcall] at hrun
      exact hrun
    | ok r =>
      rw [hcall] at hrun
      exact hrun

theorem reach_recovering (h : Serial.Reach Call.prog Recovers {} s) : Recovering s := by
  induction h with
  | init =>
    refine ⟨(JobRun.coupled .empty).1, ⟨by simp, by simp⟩, fun _ => rfl, fun _ => Nat.zero_le _, by simp⟩
  | step call reach allowed ih =>
    rename_i s
    obtain ⟨hpermitted, hstandard, hoff⟩ := allowed
    have hcoupled := (reach_jobRun (.step call reach ⟨hpermitted, hstandard, hoff⟩)).coupled.1
    have hpast := (reach_jobRun reach).coupled.2
    have hkept := Call.keeping kept_apart call hoff s.db ⟨ih.coupled.books, ih.apart⟩
    have hspec := Serial.step_spec Call.prog s call
    revert hspec hcoupled
    generalize s.step Call.prog call = s'
    intro hcoupled hspec
    cases hspec with
    | fail error => exact ⟨hcoupled, ih.apart, ih.issued, ih.bounded, ih.dispatched⟩
    | commit ok =>
      rename_i r d
      rw [ok] at hkept
      refine ⟨hcoupled, hkept.2, ?_, ?_, ?_⟩
      · intro id
        have hsplit : tokensOf id ((call, r) :: s.log) = tokensOf id [(call, r)] ++ tokensOf id s.log :=
          List.filterMap_append (l := [(call, r)])
        rw [hsplit, List.length_append, (call.attempts_effect hstandard hpermitted ok id).1, ih.issued]
        omega
      · exact fun id => (call.attempts_effect hstandard hpermitted ok id).2 (ih.bounded id)
      · intro job hjob
        rcases call.jobs_dispatched hpermitted ih.coupled hpast hstandard ok job
          hjob with ⟨old, hold, hid⟩ | hnew
        · obtain ⟨dispatch, hdispatch, hof⟩ := ih.dispatched old hold
          obtain ⟨dispatch', hget, hkept'⟩ :=
            call.dispatches_onward hpermitted ih.coupled.books hstandard ok _ dispatch
              (Table.get?_of_mem hdispatch)
          exact ⟨dispatch', Table.mem_of_get? hget, hkept'.trans (hof.trans hid)⟩
        · exact hnew

theorem claim_over {d : HostedDb} {dispatchId token : String} {job : JobRow} {limit maxAttempts : ℤ}
    {ttl now at' : Time} (hjob : d.dispatchJob dispatchId = some job) (hover : job.status.isTerminal = true) :
    (PostgresExecution.claimExecution PostgresHostedRepository.billing dispatchId limit ttl
      maxAttempts token now
      at').run d = .ok (none, d) := by
  simp only [PostgresExecution.claimExecution, issue_bind, PostgresExecution.advisoryLock,
    Prog.run_mk, applyAll_nil, PostgresExecution.selectDispatchJob, Prog.run_select, hjob, Option.map_some,
      hover, if_true]
  rfl

/-- At most three tokens are issued for a dispatch, and none while its job is over. A job that is not over
has a dispatch in `list_incomplete`, and a claim of it, made once its lease has expired and while fewer than
`limit` others are live, issues the next token or, when three have been issued, ends the job and releases its
reservation. -/
structure Recoverable (s : HostedRun) : Prop where
  bounded : ∀ dispatchId, (tokensOf dispatchId s.log).length ≤ 3
  attempts : ∀ dispatchId, s.db.attempts dispatchId = (tokensOf dispatchId s.log).length
  settled : ∀ dispatchId job, s.db.dispatchJob dispatchId = some job → job.status.isTerminal = true →
    ∀ limit ttl maxAttempts token now at',
      (PostgresExecution.claimExecution PostgresHostedRepository.billing dispatchId limit ttl
        maxAttempts token now
        at').run s.db = .ok (none, s.db)
  dispatched : ∀ collate, ∀ job ∈ s.db.jobs.rows, job.status.isTerminal = false →
    ∃ dispatch ∈ PostgresRepositories.listIncomplete collate s.db, dispatch.jobId = job.id
  incomplete : ∀ collate, ∀ dispatch ∈ s.db.dispatches.rows, ∀ job, s.db.jobs.get? dispatch.jobId = some job →
    job.status.isTerminal = false → dispatch ∈ PostgresRepositories.listIncomplete collate s.db
  issued : ∀ dispatch ∈ s.db.dispatches.rows, ∀ job, s.db.jobs.get? dispatch.jobId = some job →
    job.status.isTerminal = false → ∀ limit ttl token now at',
      (∀ lease, s.db.leases.get? dispatch.id = some lease → lease.expiresAt ≤ now) →
      (((s.db.activeLeases now).filter (·.dispatchId ≠ dispatch.id)).length : ℤ) < limit →
      (tokensOf dispatch.id s.log).length < 3 →
        (PostgresExecution.claimExecution PostgresHostedRepository.billing dispatch.id limit ttl 3 token now
          at').run s.db = .ok (some token, s.db.issued dispatch token (now + ttl))
  ended : ∀ dispatch ∈ s.db.dispatches.rows, ∀ job, s.db.jobs.get? dispatch.jobId = some job →
    job.status.isTerminal = false → ∀ limit ttl token now at',
      (∀ lease, s.db.leases.get? dispatch.id = some lease → lease.expiresAt ≤ now) →
      (((s.db.activeLeases now).filter (·.dispatchId ≠ dispatch.id)).length : ℤ) < limit →
      (tokensOf dispatch.id s.log).length = 3 →
        ∃ auth ∈ s.db.billing.authorizations.rows, auth.jobId = job.id ∧ auth.status = .reserved ∧
          (PostgresExecution.claimExecution PostgresHostedRepository.billing dispatch.id limit ttl 3 token now
            at').run s.db = .ok (none, s.db.lost dispatch job auth at') ∧
          (s.db.lost dispatch job auth at').events.rows = s.db.events.rows ++ [s.db.lostEvent job]

/-- A job that is not over has its reservation open. -/
theorem reservation_open {d : HostedDb} (h : Coupled d) {job : JobRow} (hjob : job ∈ d.jobs.rows)
    (hgoing : job.status.isTerminal = false) :
    ∃ auth, authorizationOfJob job.id d.billing = some auth ∧ auth.status = .reserved := by
  obtain ⟨auth, hauth, hof, hstatus, -⟩ := h.coupled job hjob
  rw [reservationOf_going hgoing] at hstatus
  have hsome : (authorizationOfJob job.id d.billing).isSome := by
    unfold authorizationOfJob
    rw [List.find?_isSome]
    exact ⟨auth, hauth, by simpa using hof⟩
  obtain ⟨found, hfound⟩ := Option.isSome_iff_exists.mp hsome
  obtain ⟨hget, hjobId⟩ := authorizationOfJob_get? hfound
  have hsame := h.books.recorded.jobs auth hauth found (Table.mem_of_get? hget) (hof.trans hjobId.symm)
  exact ⟨found, hfound, hsame ▸ hstatus⟩

theorem Recovering.recoverable (h : Recovering s) : Recoverable s := by
  have hclaim : ∀ dispatch ∈ s.db.dispatches.rows, ∀ job, s.db.jobs.get? dispatch.jobId = some job →
      job.status.isTerminal = false → ∀ limit ttl token now at',
        (∀ lease, s.db.leases.get? dispatch.id = some lease → lease.expiresAt ≤ now) →
        (((s.db.activeLeases now).filter (·.dispatchId ≠ dispatch.id)).length : ℤ) < limit →
          ∃ auth ∈ s.db.billing.authorizations.rows, auth.jobId = job.id ∧ auth.status = .reserved ∧
            (PostgresExecution.claimExecution PostgresHostedRepository.billing dispatch.id limit
              ttl 3 token now
              at').run s.db =
                if (s.db.attempts dispatch.id : ℤ) < 3 then .ok
                  (some token, s.db.issued dispatch token (now + ttl))
                else .ok (none, s.db.lost dispatch job auth at') := by
    intro dispatch hdispatch job hjob hgoing limit ttl token now at' hexpired hroom
    rw [HostedDb.activeLeases_others hexpired] at hroom
    obtain ⟨auth, hauth, hreserved⟩ := reservation_open h.coupled (Table.mem_of_get? hjob) hgoing
    obtain ⟨hget, hof⟩ := authorizationOfJob_get? hauth
    refine ⟨auth, Table.mem_of_get? hget, hof, hreserved, ?_⟩
    exact claim_run h.coupled.books h.apart (Table.get?_of_mem hdispatch) hjob hgoing hexpired hroom
      (by decide) hauth
      hreserved
  constructor
  · exact fun id => (h.issued id).symm.trans_le (h.bounded id)
  · exact h.issued
  · exact fun dispatchId job hjob hover limit ttl maxAttempts token now at' => claim_over hjob hover
  · intro collate job hjob hgoing
    obtain ⟨dispatch, hdispatch, hof⟩ := h.dispatched job hjob
    have hget : s.db.jobs.get? dispatch.jobId = some job := hof ▸ Table.get?_of_mem hjob
    exact ⟨dispatch, HostedDb.mem_listIncomplete collate hdispatch hget hgoing, hof⟩
  · exact fun collate dispatch hdispatch job hjob hgoing =>
      HostedDb.mem_listIncomplete collate hdispatch hjob hgoing
  · intro dispatch hdispatch job hjob hgoing limit ttl token now at' hexpired hroom hleft
    obtain ⟨auth, -, -, -, hrun⟩ := hclaim dispatch hdispatch job hjob hgoing limit ttl token now
      at' hexpired hroom
    rw [hrun, h.issued, if_pos]
    omega
  · intro dispatch hdispatch job hjob hgoing limit ttl token now at' hexpired hroom hthree
    obtain ⟨auth, hauth, hof, hreserved, hrun⟩ :=
      hclaim dispatch hdispatch job hjob hgoing limit ttl token now at' hexpired hroom
    refine ⟨auth, hauth, hof, hreserved, ?_, HostedDb.lostEvent_appended⟩
    rw [hrun, h.issued, if_neg]
    omega

end

end KenkuiServer.Hosted
