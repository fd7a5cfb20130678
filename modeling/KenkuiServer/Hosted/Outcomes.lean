import KenkuiServer.Credits.Conservation

/-! What a committed call did to the job it is about and to that job's reservation. -/
namespace KenkuiServer.Storage
open Txn Jobs Billing

/-- The reservation status that goes with a job status. -/
def reservationOf : JobStatus → AuthorizationStatus
  | .succeeded => .settled
  | .failed | .cancelled => .released
  | _ => .reserved

namespace PostgresBillingRepository
open BillingDb

/-- The authorizations after a reservation was ended with `status`, unless it had ended before. -/
def ended (authorizations : Table CreditAuthorization.id) (auth : CreditAuthorization)
    (status : AuthorizationStatus) : Table CreditAuthorization.id :=
  if auth.status = .reserved then authorizations.put { auth with status } else authorizations

theorem recordFinal_ok {auth : CreditAuthorization} {jobId : String} {status : AuthorizationStatus}
    {d d' : HostedDb} (h : (recordFinal auth jobId status).run d = .ok ((), d')) :
    ∃ b, d' = { d with billing := b } ∧ b.authorizations = d.billing.authorizations := by
  unfold recordFinal at h
  split_ifs at h
  · simp only [issue_bind, creditAccount, Prog.run_mk] at h
    cases hrow : d.billing.accounts.get? auth.accountId with
    | none =>
      simp only [hrow, applyAll_nil, Stmt.issue] at h
      cases insertLedger_ok h
      exact ⟨_, rfl, rfl⟩
    | some row =>
      simp only [hrow, Stmt.issue] at h
      split_ifs at h
      cases insertLedger_ok h
      exact ⟨_, rfl, rfl⟩
  · cases insertLedger_ok h
    exact ⟨_, rfl, rfl⟩

theorem finalize_ok {d d' : HostedDb} {jobId : String} {status : AuthorizationStatus}
    {a : CreditAuthorization} (hd : d.billing.Books) (hstatus : status ≠ .reserved)
    (h : (finalize jobId status).run d = .ok (a, d')) :
    ∃ auth b, authorizationOfJob jobId d.billing = some auth ∧ d' = { d with billing := b } ∧
      b.authorizations = ended d.billing.authorizations auth status := by
  cases hauth : authorizationOfJob jobId d.billing with
  | none => simp [finalize_run_none hstatus hauth] at h
  | some auth =>
    by_cases hreserved : auth.status = .reserved
    · obtain ⟨lots, hrun, -⟩ := finalize_run_reserved hd hstatus hauth hreserved
      rw [hrun] at h
      obtain ⟨u, d₁, hrecord, hret⟩ := Prog.run_bind_ok h
      cases hret
      obtain ⟨b, rfl, hb⟩ := recordFinal_ok hrecord
      exact ⟨auth, b, rfl, rfl, by simpa [ended, hreserved] using hb⟩
    · rw [finalize_run_final hstatus hauth hreserved] at h
      cases h
      exact ⟨a, d.billing, rfl, rfl, by simp [ended, hreserved]⟩

end PostgresBillingRepository

open PostgresExecution PostgresRepositories PostgresBillingRepository

/-- One job moved to its next version, and its reservation ended if the job did. -/
structure JobMoved (d d' : HostedDb) (row next : JobRow) : Prop where
  found : d.jobs.get? row.id = some row
  id : next.id = row.id
  version : next.version = row.version + 1
  jobs : d'.jobs = d.jobs.put next
  going : next.status.isTerminal = false →
    next.terminalAt = row.terminalAt ∧ d'.billing.authorizations = d.billing.authorizations
  ended : next.status.isTerminal = true → next.terminalAt.isSome ∧
    ∃ auth, authorizationOfJob row.id d.billing = some auth ∧
      d'.billing.authorizations = ended d.billing.authorizations auth (reservationOf next.status)

theorem reservationOf_terminal {status : JobStatus} (h : status.isTerminal = true) :
    (if status = .succeeded then AuthorizationStatus.settled else .released) = reservationOf status ∧
      reservationOf status ≠ .reserved := by
  cases status <;> simp_all [JobStatus.isTerminal, reservationOf]

/-- The end of a job's write: `d` already holds the job's new row. -/
theorem finishJob_moved {d₀ d d' : HostedDb} {job : Job} {at' : Time} (row next : JobRow)
    (h : (finishJob PostgresHostedRepository.billing job at').run d = .ok ((), d'))
    (hbooks : d.billing.Books) (hfound : d₀.jobs.get? row.id = some row) (hid : next.id = row.id)
    (hversion : next.version = row.version + 1) (hjobs : d.jobs = d₀.jobs.put next)
    (hbilling : d.billing = d₀.billing) (hterminalAt : next.terminalAt = row.terminalAt)
    (hjob : job.id = next.id ∧ job.status = next.status) :
    ∃ next' : JobRow, next'.toJob = next.toJob ∧ JobMoved d₀ d' row next' := by
  unfold finishJob at h
  by_cases hterminal : next.status.isTerminal
  · rw [hjob.2, if_pos hterminal] at h
    simp only [setTerminalAt, issue_bind, Prog.run_update, hjobs, hjob.1, Table.get?_put_self,
      PostgresHostedRepository.billing, (reservationOf_terminal hterminal).1] at h
    obtain ⟨a, d₁, hfinalize, hret⟩ := Prog.run_bind_ok h
    cases hret
    obtain ⟨auth, b, hauth, rfl, hb⟩ :=
      finalize_ok (d := apply (Write.job { next with terminalAt := some at' }) d) hbooks
        (reservationOf_terminal hterminal).2 hfinalize
    have hput : d.jobs.put { next with terminalAt := some at' } =
        d₀.jobs.put { next with terminalAt := some at' } := by
      rw [hjobs]
      exact Table.put_put _ rfl
    refine ⟨{ next with terminalAt := some at' }, rfl, hfound, hid, hversion, hput, ?_, fun _ => ?_⟩
    · exact fun ht => absurd hterminal (by simp [ht])
    · refine ⟨rfl, auth, ?_, ?_⟩
      · rw [← hid, ← hbilling]
        exact hauth
      · rw [← hbilling]
        exact hb
  · rw [hjob.2, if_neg hterminal] at h
    cases h
    refine ⟨next, rfl, hfound, hid, hversion, hjobs, fun _ => ⟨hterminalAt, by rw [hbilling]⟩, ?_⟩
    exact fun ht => absurd ht hterminal

/-- `checkLease` writes nothing. -/
theorem checkLease_ok {lease : Option Lease} {now : Time} {d d' : HostedDb} {u : Unit}
    (h : (checkLease lease now).run d = .ok (u, d')) : d' = d :=
  (checkLease_emits (P := fun _ => False) (Q := fun _ => True) trivial).frame id
    (fun _ hw => hw.elim) h

/-- A write to a table other than those of jobs and of billing. -/
def Write.isLog : Write → Bool
  | .job _ | .billing _ => false
  | _ => true

theorem Write.isLog_keeps {w : Write} (hw : w.isLog) (d : HostedDb) :
    ((apply w d).jobs, (apply w d).billing) = (d.jobs, d.billing) := by
  cases w <;> first | rfl | cases hw

/-- A part of a call that writes no job and no billing row keeps both. -/
theorem log_keeps {α : Type} {p : Procedure α} {d d' : HostedDb} {a : α}
    (hp : p.Emits (fun w => w.isLog) fun _ => True) (h : p.run d = .ok (a, d')) :
    d'.jobs = d.jobs ∧ d'.billing = d.billing := by
  have hkeep := hp.frame (fun x => (x.jobs, x.billing)) (fun w hw x => Write.isLog_keeps hw x) h
  simpa using hkeep

theorem recordArtifact_log (job : Job) (artifact : Option Artifact) :
    (recordArtifact job artifact).Emits (fun w => w.isLog) fun _ => True := by
  cases artifact with
  | none => trivial
  | some artifact =>
    simp only [recordArtifact, Prog.raiseIf_bind]
    split_ifs
    · trivial
    · exact ⟨insertArtifact_emits (fun _ _ => trivial) rfl, fun _ => trivial⟩

theorem recordFailure_log (job : Job) (failure : Option (String × String)) :
    (recordFailure job failure).Emits (fun w => w.isLog) fun _ => True := by
  rcases failure with _ | ⟨code, message⟩
  · trivial
  · exact ⟨insertFailure_emits (fun _ _ => trivial) rfl, fun _ => trivial⟩

theorem appendEvent_log (jobId eventType : String) (progress : Progress) :
    (appendEvent jobId eventType progress).Emits (fun w => w.isLog) fun _ => True :=
  appendEvent_emits (fun _ => trivial) (fun _ => rfl) (fun _ _ => trivial)

theorem update_moved {job : Job} {expectedVersion : ℤ} {eventType : String} {artifact : Option Artifact}
    {lease : Option Lease} {failure : Option (String × String)} {now at' : Time} {d d' : HostedDb}
    {event : JobEvent} (hbooks : d.billing.Books) (hversion : (job.version : ℤ) = expectedVersion + 1)
    (h : (updateJobAndAppendEvent PostgresHostedRepository.billing job expectedVersion eventType artifact
      lease failure now at').run d = .ok (event, d')) :
    ∃ row next, JobMoved d d' row next ∧ row.id = job.id ∧ next.status = job.status ∧
      next.version = job.version := by
  unfold updateJobAndAppendEvent at h
  obtain ⟨_, d₀, hlease, hupdate⟩ := Prog.run_bind_ok h
  have hd := checkLease_ok hlease
  subst hd
  simp only [issue_bind, updateJob, Prog.run_update] at hupdate
  cases hrow : d₀.jobs.get? job.id with
  | none => simp [hrow] at hupdate
  | some row =>
    have hid : row.id = job.id := ((d₀.jobs.get?_eq_some_iff _ row).mp hrow).2
    by_cases hv : (row.version : ℤ) = expectedVersion
    swap
    · simp [hrow, hv] at hupdate
    simp only [hrow, hv, if_true, requireOne_bind, ne_eq, not_true_eq_false, if_false] at hupdate
    obtain ⟨event', d₁, hevent, hrest⟩ := Prog.run_bind_ok hupdate
    obtain ⟨_, d₂, hartifact, hrest⟩ := Prog.run_bind_ok hrest
    obtain ⟨_, d₃, hfailure, hrest⟩ := Prog.run_bind_ok hrest
    obtain ⟨_, d₄, hfinish, hret⟩ := Prog.run_bind_ok hrest
    cases hret
    have h₁ := log_keeps (appendEvent_log _ _ _) hevent
    have h₂ := log_keeps (recordArtifact_log _ _) hartifact
    have h₃ := log_keeps (recordFailure_log _ _) hfailure
    have hjobs : d₃.jobs = d₀.jobs.put (row.set job.status job.version job.progress) := by
      rw [h₃.1, h₂.1, h₁.1]
      rfl
    have hbilling : d₃.billing = d₀.billing := by
      rw [h₃.2, h₂.2, h₁.2]
      rfl
    obtain ⟨next, hnext, hmoved⟩ := finishJob_moved row (row.set job.status job.version job.progress)
      hfinish (hbilling ▸ hbooks) (hid ▸ hrow) rfl (by simp only [JobRow.set]; omega) hjobs hbilling rfl
      ⟨hid.symm, rfl⟩
    exact ⟨row, next, hmoved, hid, by rw [hnext]; rfl, by rw [hnext]; rfl⟩

theorem cancel_moved {jobId : String} {at' : Time} {d d' : HostedDb} {job : Job}
    (hbooks : d.billing.Books)
    (h : (requestCancellation PostgresHostedRepository.billing jobId at').run d = .ok (job, d')) :
    d' = d ∨ ∃ row next, JobMoved d d' row next ∧ row.status.isTerminal = false ∧
      (next.status = .cancelled ∨ next.status = .cancelRequested) := by
  unfold requestCancellation at h
  simp only [issue_bind, selectJob, Prog.run_select] at h
  cases hrow : d.jobs.get? jobId with
  | none => simp [hrow] at h
  | some row =>
    have hid : row.id = jobId := ((d.jobs.get?_eq_some_iff _ row).mp hrow).2
    simp only [hrow, Option.map_some, selectDispatchStatus] at h
    split at h
    · cases h
      exact Or.inl rfl
    rename_i hgoing
    simp only [Prog.run_select] at h
    have hstatus := cancellation_status row.status ((d.dispatchOfJob jobId).map (·.status))
    generalize cancellation row.status ((d.dispatchOfJob jobId).map (·.status)) = target at h hstatus
    obtain ⟨status, eventType⟩ := target
    simp only [updateJob, Prog.run_update, hid, hrow, if_true, requireOne_bind, ne_eq, not_true_eq_false,
      if_false, selectNextSequence, Prog.run_select, insertEvent, Prog.run_insert] at h
    split_ifs at h
    obtain ⟨_, d₁, hfinish, hret⟩ := Prog.run_bind_ok h
    cases hret
    obtain ⟨next, hnext, hmoved⟩ := finishJob_moved row (row.set status (row.version + 1) row.progress)
      hfinish hbooks (hid ▸ hrow) rfl rfl rfl rfl rfl ⟨hid.symm, rfl⟩
    refine Or.inr ⟨row, next, hmoved, ?_, ?_⟩
    · simpa using fun ht => hgoing (Or.inl ht)
    · have : next.status = status := congrArg Job.status hnext
      rw [this]
      exact hstatus

theorem loseWorker_moved {dispatchId jobId : String} {row : JobRow} {at' : Time} {d d' : HostedDb}
    (hbooks : d.billing.Books) (hrow : d.jobs.get? jobId = some row)
    (h : (loseWorker PostgresHostedRepository.billing dispatchId jobId row.status at').run d = .ok ((), d')) :
    ∃ next, JobMoved d d' row next ∧
      next.status = if row.status = .cancelRequested then .cancelled else .failed := by
  have hid : row.id = jobId := ((d.jobs.get?_eq_some_iff _ row).mp hrow).2
  unfold loseWorker at h
  set status : JobStatus := if row.status = .cancelRequested then .cancelled else .failed with hstatus
  have hterminal : status.isTerminal = true ∧ reservationOf status = .released := by
    rw [hstatus]
    split_ifs <;> exact ⟨rfl, rfl⟩
  simp only [issue_bind, loseJob, Prog.run_update, hrow, PostgresHostedRepository.billing] at h
  obtain ⟨_, d₁, hdispatch, hrest⟩ := Prog.run_step_ok h
  obtain ⟨_, d₂, hfailure, hrest⟩ := Prog.run_step_ok hrest
  obtain ⟨_, d₃, hevent, hrest⟩ := Prog.run_step_ok hrest
  obtain ⟨_, d₄, hfinalize, hret⟩ := Prog.run_bind_ok hrest
  cases hret
  have h₁ := log_keeps (emits_issue (setDispatchStatus_emits fun _ => rfl)) hdispatch
  have h₂ := log_keeps (emits_issue (insertFailureOnce_emits rfl)) hfailure
  have h₃ := log_keeps (emits_issue (appendJobEvent_emits (fun _ => rfl) fun _ => trivial)) hevent
  have hjobs : d₃.jobs = d.jobs.put { row.set status (row.version + 1) row.progress with
      terminalAt := some at' } := by
    rw [h₃.1, h₂.1, h₁.1]
    rfl
  have hbilling : d₃.billing = d.billing := by
    rw [h₃.2, h₂.2, h₁.2]
    rfl
  obtain ⟨auth, b, hauth, rfl, hb⟩ := finalize_ok (hbilling ▸ hbooks) (by decide) hfinalize
  rw [hbilling] at hauth hb
  refine ⟨{ row.set status (row.version + 1) row.progress with terminalAt := some at' },
    ⟨hid ▸ hrow, rfl, rfl, hjobs, fun ht => ?_, fun _ => ⟨rfl, auth, hid ▸ hauth, ?_⟩⟩, rfl⟩
  · exact absurd hterminal.1 (by simpa [JobRow.set] using ht)
  · rw [hb, ← hterminal.2]
    rfl

theorem claim_moved {dispatchId token : String} {limit maxAttempts : ℤ} {ttl now at' : Time}
    {d d' : HostedDb} {reply : Option String} (hbooks : d.billing.Books)
    (h : (claimExecution PostgresHostedRepository.billing dispatchId limit ttl maxAttempts token now
      at').run d = .ok (reply, d')) :
    (d'.jobs = d.jobs ∧ d'.billing = d.billing) ∨
      ∃ row next, JobMoved d d' row next ∧ row.status.isTerminal = false ∧
        next.status = if row.status = .cancelRequested then .cancelled else .failed := by
  unfold claimExecution at h
  simp only [issue_bind, advisoryLock, Prog.run_mk, applyAll_nil, selectDispatchJob, Prog.run_select] at h
  cases hdispatch : d.dispatchJob dispatchId with
  | none =>
    simp only [hdispatch, Option.map_none] at h
    cases h
    exact Or.inl ⟨rfl, rfl⟩
  | some row =>
    have hrow : d.jobs.get? row.id = some row := by
      simp only [HostedDb.dispatchJob, Option.bind_eq_bind, Option.bind_eq_some_iff] at hdispatch
      obtain ⟨dispatch, -, hjob⟩ := hdispatch
      rw [((d.jobs.get?_eq_some_iff _ row).mp hjob).2]
      exact hjob
    simp only [hdispatch, Option.map_some] at h
    split at h
    · cases h
      exact Or.inl ⟨rfl, rfl⟩
    rename_i hgoing
    simp only [selectLeaseForUpdate, Prog.run_selectForUpdate, countActiveLeases] at h
    split at h
    · cases h
      exact Or.inl ⟨rfl, rfl⟩
    simp only [Prog.run_select] at h
    split_ifs at h
    · cases h
      exact Or.inl ⟨rfl, rfl⟩
    · obtain ⟨_, d₁, hlose, hret⟩ := Prog.run_bind_ok h
      cases hret
      obtain ⟨next, hmoved, hstatus⟩ := loseWorker_moved hbooks hrow hlose
      exact Or.inr ⟨row, next, hmoved, by simpa using hgoing, hstatus⟩
    · obtain ⟨_, d₁, hlease, hrest⟩ := Prog.run_step_ok h
      obtain ⟨_, d₂, hstatus, hret⟩ := Prog.run_step_ok hrest
      cases hret
      have h₁ := log_keeps (emits_issue (upsertLease_emits fun _ => rfl)) hlease
      have h₂ := log_keeps (emits_issue (setDispatchStatus_emits fun _ => rfl)) hstatus
      exact Or.inl ⟨h₂.1.trans h₁.1, h₂.2.trans h₁.2⟩

/-- A job was admitted as `row`, with `auth` as its reservation. -/
structure JobAdmitted (d d' : HostedDb) (row : JobRow) (auth : CreditAuthorization) : Prop where
  fresh : d.jobs.get? row.id = none
  jobs : d'.jobs = d.jobs.put row
  freshId : d.billing.authorizations.get? auth.id = none
  free : ∀ a ∈ d.billing.authorizations.rows, a.jobId ≠ row.id
  jobId : auth.jobId = row.id
  status : auth.status = .reserved
  authorizations : d'.billing.authorizations = d.billing.authorizations.put auth

theorem admitted_ok {idempotencyKey : Option String} {reply : Option Job} {d d' : HostedDb}
    (h : (admitted idempotencyKey).run d = .ok (reply, d')) : d' = d := by
  rcases idempotencyKey with _ | key
  · cases h
    rfl
  · simp only [admitted, issue_bind, selectIdempotency, Prog.run_select] at h
    cases hkey : d.idempotency.get? key with
    | none =>
      simp only [hkey] at h
      cases h
      rfl
    | some existing =>
      simp only [hkey, selectJob, Prog.run_select] at h
      cases hjob : d.jobs.get? existing.jobId with
      | none => simp [hjob] at h
      | some row =>
        simp only [hjob, Option.map_some] at h
        cases h
        rfl

theorem replay_ok {spec : JobSpec} {idempotencyKey : Option String} {reply : Option Job}
    {d d' : HostedDb} (h : (PostgresHostedRepository.replay spec idempotencyKey).run d = .ok (reply, d')) :
    d' = d := by
  unfold PostgresHostedRepository.replay at h
  obtain ⟨existing, d₁, hadmitted, hrest⟩ := Prog.run_bind_ok h
  rw [← admitted_ok hadmitted]
  rcases existing with _ | existing
  · cases hrest
    rfl
  · obtain ⟨-, hret⟩ := Prog.run_raiseIf_ok hrest
    cases hret
    rfl

theorem recordKey_log (idempotencyKey : Option String) (jobId : String) :
    (recordKey idempotencyKey jobId).Emits (fun w => w.isLog) fun _ => True := by
  rcases idempotencyKey with _ | key
  · trivial
  · exact ⟨insertIdempotency_emits (fun _ _ => trivial) rfl, fun _ => trivial⟩

theorem recordKey_keys (idempotencyKey : Option String) (jobId : String) :
    (recordKey idempotencyKey jobId).Emits (fun w => !w.isDispatch) fun _ => True := by
  rcases idempotencyKey with _ | key
  · trivial
  · exact ⟨insertIdempotency_emits (fun _ _ => trivial) rfl, fun _ => trivial⟩

theorem reserveNew_ok {d d' : HostedDb} {authorizationId jobId accountId : String} {credits : ℤ}
    {auth : CreditAuthorization} (hbooks : d.billing.Books)
    (h : (reserveNew authorizationId jobId accountId credits).run d = .ok (auth, d')) :
    auth = ⟨authorizationId, jobId, accountId, credits, .reserved⟩ ∧
      d.billing.authorizations.get? auth.id = none ∧
      (∀ a ∈ d.billing.authorizations.rows, a.jobId ≠ jobId) ∧
      ∃ b, d' = { d with billing := b } ∧ b.authorizations = d.billing.authorizations.put auth := by
  obtain ⟨e, he, -⟩ | ⟨row, b, hreserving, hrun⟩ :=
    reserveNew_run hbooks authorizationId jobId accountId credits
  · simp [he] at h
  · rw [hrun] at h
    cases insertLedger_ok h
    exact ⟨rfl, hreserving.fresh, hreserving.free, _, rfl, hreserving.authorizations⟩

open PostgresHostedRepository in
theorem admit_ok {authorizationId accountId ownerId : String} {job reply : Job} {dispatch : Dispatch}
    {credits : ℤ} {idempotencyKey : Option String} {d d' : HostedDb} (hbooks : d.billing.Books)
    (h : (admitJob authorizationId job dispatch accountId ownerId credits idempotencyKey).run d =
      .ok (reply, d')) :
    d' = d ∨ (∃ auth, JobAdmitted d d' { job with ownerId := some ownerId } auth) ∧
      d.dispatches.get? dispatch.id = none ∧ d'.dispatches = d.dispatches.put dispatch := by
  unfold admitJob at h
  obtain ⟨-, hrest⟩ := Prog.run_raiseIf_ok h
  simp only [issue_bind, selectAccountForUpdate, Prog.run_selectForUpdate] at hrest
  obtain ⟨existing, d₀, hreplay, hrest⟩ := Prog.run_bind_ok hrest
  have hd := replay_ok hreplay
  subst hd
  rcases existing with _ | existing
  swap
  · cases hrest
    exact Or.inl rfl
  simp only [admitNew, issue_bind, countActiveJobs, Prog.run_select] at hrest
  obtain ⟨-, hrest⟩ := Prog.run_raiseIf_ok hrest
  simp only [selectAssetForUpdate, Prog.run_selectForUpdate] at hrest
  obtain ⟨-, hrest⟩ := Prog.run_raiseIf_ok hrest
  obtain ⟨auth, d₁, hreserve, hrest⟩ := Prog.run_bind_ok hrest
  obtain ⟨rfl, hfresh, hfree, b, rfl, hb⟩ := reserveNew_ok hbooks hreserve
  obtain ⟨_, d₂, hjob, hrest⟩ := Prog.run_step_ok hrest
  obtain ⟨_, d₃, hdispatch, hrest⟩ := Prog.run_step_ok hrest
  obtain ⟨_, d₄, hkey, hret⟩ := Prog.run_bind_ok hrest
  cases hret
  have h₃ := log_keeps (emits_issue (insertDispatch_emits (fun _ _ => trivial) rfl)) hdispatch
  have hkeyed := (recordKey_keys idempotencyKey job.id).frame (fun x => x.dispatches) (fun w hw x => by
    cases w <;> first | rfl | cases hw) hkey
  have h₄ := log_keeps (recordKey_log _ _) hkey
  simp only [insertJob, Stmt.issue, Prog.run_insert] at hjob
  split_ifs at hjob with hnew
  cases hjob
  simp only [insertDispatch, Stmt.issue, Prog.run_insert] at hdispatch
  split_ifs at hdispatch with hno hfreshDispatch
  cases hdispatch
  refine Or.inr ⟨⟨_, by simpa using hnew, ?_, hfresh, hfree, rfl, rfl, ?_⟩, by simpa using hfreshDispatch,
    hkeyed⟩
  · rw [h₄.1, h₃.1]
    rfl
  · rw [h₄.2, h₃.2]
    exact hb

theorem finishDispatch_log (dispatch : Dispatch) (lease : Option Lease) (now : Time) :
    (finishDispatchIfNotCancellationRequested dispatch lease now).Emits (fun w => w.isLog)
      fun _ => True :=
  finishDispatchIfNotCancellationRequested_emits (fun _ => rfl) (fun _ _ => trivial) dispatch lease now

theorem updateDispatch_log (dispatch : Dispatch) (expectedVersion : ℤ) :
    (updateDispatch dispatch expectedVersion).Emits (fun w => w.isLog) fun _ => True :=
  updateDispatch_emits (fun _ => rfl) (fun _ _ => trivial) dispatch expectedVersion

theorem renewExecution_log (dispatchId token : String) (ttl now now' : Time) :
    (renewExecution dispatchId token ttl now now').Emits (fun w => w.isLog) fun _ => True :=
  ⟨renewLease_emits fun _ => rfl, fun _ => trivial⟩

theorem releaseExecution_log (dispatchId token : String) :
    (releaseExecution dispatchId token).Emits (fun w => w.isLog) fun _ => True :=
  ⟨expireLease_emits fun _ => rfl, fun _ => trivial⟩

end KenkuiServer.Storage
