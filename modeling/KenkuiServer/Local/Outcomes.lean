import KenkuiServer.Local.Calls
import KenkuiServer.Storage.Events

/-! What each local call does when it commits. None of them fails on the key of the events, since the
next sequence is selected in the transaction that inserts it. -/
namespace KenkuiServer.Storage
open Txn Jobs Repositories

/-- The error of two events with one sequence. -/
def localClash : Error := .integrity "job_events.job_id, job_events.sequence"

abbrev noLocalClash (e : Error) : Prop := e ≠ localClash

attribute [local simp] localClash

namespace LocalDb
variable {d : LocalDb}

/-- A lease that its dispatch has and that has not expired. -/
def LeaseValid (d : LocalDb) (now : Time) : Option Lease → Prop
  | none => True
  | some (dispatchId, token) =>
    ∃ row, d.leases.get? dispatchId = some row ∧ row.token = token ∧ now < row.expiresAt

theorem get?_nextSequence (d : LocalDb) (jobId : String) :
    d.events.get? (jobId, d.nextSequence jobId) = none := by
  rw [d.nextSequence_eq]
  exact EventTable.get?_nextNumber d.events jobId

theorem dispatchJob_eq_some {dispatchId : String} {row : Job} (h : d.dispatchJob dispatchId = some row) :
    ∃ dispatch, d.dispatches.get? dispatchId = some dispatch ∧ dispatch.jobId = row.id ∧
      d.jobs.get? row.id = some row := by
  simp only [dispatchJob, Option.bind_eq_bind, Option.bind_eq_some_iff] at h
  obtain ⟨dispatch, hdispatch, hjob⟩ := h
  have hid : row.id = dispatch.jobId := Table.key_of_get? hjob
  exact ⟨dispatch, hdispatch, hid.symm, hid ▸ hjob⟩

end LocalDb

section
variable {α : Type} {Q : Error → Prop} {Post : α → LocalDb → Prop} {d d' : LocalDb}

theorem set_eq {row job : Job} (hid : row.id = job.id) (hspec : row.spec = job.spec) :
    row.set job.status job.version job.progress = job := by
  cases row
  cases job
  cases hid
  cases hspec
  rfl

@[simp] theorem requireOne_one_bind {f : Unit → LocalProcedure α} :
    (Repositories.requireOne 1 >>= f) = f () := rfl

@[simp] theorem requireOne_zero_bind {f : Unit → LocalProcedure α} :
    (Repositories.requireOne 0 >>= f) = .raise .staleWrite := rfl

theorem checkLease_outcome {lease : Option Lease} {now : Time} {f : Unit → LocalProcedure α}
    (hstale : ¬ d.LeaseValid now lease → Q .staleWrite)
    (h : d.LeaseValid now lease → (f ()).Outcome Q Post d) :
    (Repositories.checkLease lease now >>= f).Outcome Q Post d := by
  rcases lease with _ | ⟨dispatchId, token⟩
  · exact h trivial
  · simp only [Repositories.checkLease, issue_bind, Prog.step_bind]
    refine Prog.outcome_select ?_
    cases hrow : d.leases.get? dispatchId with
    | none =>
      refine hstale fun hheld => ?_
      obtain ⟨row, hrow', -⟩ := hheld
      rw [hrow] at hrow'
      cases hrow'
    | some row =>
      simp only
      split_ifs with hlost
      · refine hstale fun hheld => ?_
        obtain ⟨row', hrow', htoken, hlive⟩ := hheld
        rw [hrow, Option.some.injEq] at hrow'
        rw [← hrow'] at htoken hlive
        rcases hlost with hother | hexpired
        · exact hother htoken
        · exact Rat.not_le.mpr hlive hexpired
      · rw [not_or, not_not] at hlost
        exact h ⟨row, hrow, hlost.1, Rat.not_le.mp hlost.2⟩

/-- The guarded update of a job's row. -/
theorem updateJob_outcome {job : Job} {expectedVersion : ℤ} {f : Unit → LocalProcedure α}
    (hstale : (∀ row, d.jobs.get? job.id = some row → (row.version : ℤ) ≠ expectedVersion) → Q .staleWrite)
    (h : ∀ row, d.jobs.get? job.id = some row → (row.version : ℤ) = expectedVersion →
      (f ()).Outcome Q Post { d with jobs := d.jobs.put (row.set job.status job.version job.progress) }) :
    (Prog.step (Repositories.updateJob job expectedVersion) fun rowcount =>
      Repositories.requireOne rowcount >>= f).Outcome Q Post d := by
  refine Prog.outcome_update ?_
  cases hrow : d.jobs.get? job.id with
  | none =>
    refine hstale fun row hrow' => ?_
    rw [hrow] at hrow'
    cases hrow'
  | some row =>
    simp only
    split_ifs with hversion
    · exact h row hrow hversion
    · refine hstale fun row' hrow' => ?_
      rw [hrow, Option.some.injEq] at hrow'
      rw [← hrow']
      exact hversion

/-- The guarded update of a dispatch's row. -/
theorem updateDispatchRow_outcome {dispatch : Dispatch} {expectedVersion : ℕ} {f : Unit → LocalProcedure α}
    (hstale : Q .staleWrite)
    (h : ∀ row, d.dispatches.get? dispatch.id = some row → row.version = expectedVersion →
      (f ()).Outcome Q Post { d with
        dispatches := d.dispatches.put
          ({ row with status := dispatch.status, version := dispatch.version }) }) :
    (Prog.step (updateDispatchRow dispatch expectedVersion) fun rowcount =>
      Repositories.requireOne rowcount >>= f).Outcome Q Post d := by
  refine Prog.outcome_update ?_
  cases hrow : d.dispatches.get? dispatch.id with
  | none => exact hstale
  | some row =>
    simp only
    split_ifs with hversion
    · exact h row hrow (by exact_mod_cast hversion)
    · exact hstale

theorem insertEvent_outcome {e : JobEvent} {k : Unit → LocalProcedure α}
    (he : e.sequence = d.nextSequence e.jobId)
    (h : (k ()).Outcome Q Post { d with events := d.events.put e }) :
    (Prog.step (Repositories.insertEvent e) k).Outcome Q Post d := by
  have hfree := d.get?_nextSequence e.jobId
  rw [← he] at hfree
  refine Prog.outcome_insert (fun _ => h) fun e' hclash => ?_
  rw [hfree] at hclash
  cases hclash

/-- The event that a transaction appends to a job: the next one, with the progress of its snapshot. -/
structure LocalAppended (d : LocalDb) (job : Job) (e : JobEvent) : Prop where
  jobId : e.jobId = job.id
  sequence : e.sequence = d.nextSequence job.id
  progress : e.progress = job.progress

theorem appendEvent_outcome {job : Job} {eventType : String} {f : JobEvent → LocalProcedure α}
    (hinvalid : ∀ code, Q (.value code))
    (h : ∀ e, LocalAppended d job e →
      (f e).Outcome Q Post { d with events := d.events.put e }) :
    (Repositories.appendEvent job.id eventType job.progress >>= f).Outcome Q Post d := by
  simp only [Repositories.appendEvent, issue_bind, Prog.step_bind]
  refine Prog.outcome_select ?_
  cases hinit : JobEvent.init job.id (d.nextSequence job.id) eventType job.progress with
  | error e =>
    have hkind := JobEvent.init_error hinit
    simp only [List.mem_cons, List.not_mem_nil, or_false] at hkind
    rcases hkind with rfl | rfl | rfl <;> exact hinvalid _
  | ok e =>
    obtain ⟨hjob, hsequence, hprogress⟩ := JobEvent.init_ok job.named hinit
    simp only [Prog.step_bind]
    exact insertEvent_outcome (by rw [hjob, hsequence]) (h e ⟨hjob, hsequence, hprogress⟩)

/-- What an artifact has to satisfy to be recorded. -/
def Publishable (d : LocalDb) (job : Job) (artifact : Artifact) : Prop :=
  job.status = .succeeded ∧ artifact.jobId = job.id ∧ d.artifacts.get? artifact.id = none

theorem recordFailure_outcome {job : Job} {failure : Option (String × String)} {f : Unit → LocalProcedure α}
    (htaken : Q (.integrity "job_failures.job_id"))
    (h : (f ()).Outcome Q Post { d with
      failures := failure.elim d.failures fun f => d.failures.put ⟨job.id, f.1, f.2⟩ }) :
    (Repositories.recordFailure job failure >>= f).Outcome Q Post d := by
  rcases failure with _ | ⟨code, message⟩
  · exact h
  · simp only [Repositories.recordFailure, Prog.step_bind, Stmt.issue]
    refine Prog.outcome_insert (fun _ => h) fun e he => ?_
    split_ifs at he
    cases he
    exact htaken

theorem recordArtifact_outcome {job : Job} {artifact : Option Artifact} {f : Unit → LocalProcedure α}
    (hinvalid : Q (.value "invalid_completion_artifact")) (htaken : Q (.integrity "artifacts.id"))
    (h : (∀ a ∈ artifact, Publishable d job a) →
      (f ()).Outcome Q Post { d with artifacts := artifact.elim d.artifacts d.artifacts.put }) :
    (Repositories.recordArtifact job artifact >>= f).Outcome Q Post d := by
  rcases artifact with _ | artifact
  · exact h (by simp)
  · simp only [Repositories.recordArtifact, bind_assoc]
    refine Prog.outcome_raiseIf (fun _ => hinvalid) fun hvalid => ?_
    simp only [not_or, not_not] at hvalid
    refine Prog.outcome_insert (fun hfree => h fun a ha => ?_) fun e he => ?_
    · cases ha
      split_ifs at hfree with htaken
      exact ⟨hvalid.1, hvalid.2, by simpa using htaken⟩
    · split_ifs at he
      cases he
      exact htaken

/-- A committed worker write: the job as given, its next event, and what the attempt recorded. -/
structure Updated (job : Job) (expectedVersion : ℤ) (artifact : Option Artifact) (lease : Option Lease)
    (failure : Option (String × String)) (now : Time) (e : JobEvent) (d d' : LocalDb) : Prop where
  lease : d.LeaseValid now lease
  found : ∃ row, d.jobs.get? job.id = some row ∧ (row.version : ℤ) = expectedVersion ∧ row.spec = job.spec
  appended : LocalAppended d job e
  publishable : ∀ a ∈ artifact, Publishable d job a
  result : d' = { d with
    jobs := d.jobs.put job
    events := d.events.put e
    failures := failure.elim d.failures fun f => d.failures.put ⟨job.id, f.1, f.2⟩
    artifacts := artifact.elim d.artifacts d.artifacts.put }

theorem update_outcome {job : Job} {expectedVersion : ℤ} {eventType : String} {artifact : Option Artifact}
    {lease : Option Lease} {failure : Option (String × String)} {now : Time} :
    (Repositories.updateJobAndAppendEvent job expectedVersion eventType artifact lease failure now).Outcome
      noLocalClash (Updated job expectedVersion artifact lease failure now · d ·) d := by
  unfold Repositories.updateJobAndAppendEvent
  refine Prog.outcome_raiseIf (fun _ => by simp) fun hversion => ?_
  refine checkLease_outcome (by simp) fun hlease => ?_
  simp only [issue_bind]
  refine Prog.outcome_select ?_
  refine Prog.outcome_raiseIf (fun _ => by simp) fun hspec => ?_
  refine updateJob_outcome (by simp) fun row hrow hexpected => ?_
  have hid : row.id = job.id := Table.key_of_get? hrow
  have hsame : row.spec = job.spec := by simpa [hrow] using hspec
  rw [set_eq hid hsame]
  refine appendEvent_outcome (by simp) fun e he => ?_
  refine recordFailure_outcome (by simp) ?_
  refine recordArtifact_outcome (by simp) (by simp) fun hpublishable => ?_
  exact ⟨hlease, ⟨row, hrow, hexpected, hsame⟩, ⟨he.jobId, he.sequence, he.progress⟩, hpublishable, rfl⟩

/-- A cancellation request finds the job over or already being cancelled, or moves it on. -/
inductive Cancelled (jobId : String) (job : Job) (d d' : LocalDb) : Prop
  | already (found : d.jobs.get? jobId = some job)
      (settled : job.status.isTerminal = true ∨ job.status = .cancelRequested) (result : d' = d)
  | moved (row : Job) (e : JobEvent) (found : d.jobs.get? jobId = some row)
      (going : row.status.isTerminal = false)
      (cancelled : job = row.set (cancellation row.status ((d.dispatchOfJob jobId).map (·.status))).1
        (row.version + 1) row.progress)
      (appended : LocalAppended d job e)
      (result : d' = { d with jobs := d.jobs.put job, events := d.events.put e })

theorem cancel_outcome {jobId : String} :
    (Repositories.requestCancellation jobId).Outcome noLocalClash (Cancelled jobId · d ·) d := by
  unfold Repositories.requestCancellation
  simp only [issue_bind]
  refine Prog.outcome_select ?_
  cases hrow : d.jobs.get? jobId with
  | none => simp
  | some row =>
    have hid : row.id = jobId := Table.key_of_get? hrow
    simp only
    split_ifs with hover
    · exact .already hrow hover rfl
    have hgoing : row.status.isTerminal = false := by
      rw [not_or, Bool.not_eq_true] at hover
      exact hover.1
    refine Prog.outcome_select ?_
    refine updateJob_outcome (by simp) fun stored hstored _ => ?_
    have hsame : stored = row := by
      have hget : d.jobs.get? row.id = some stored := hstored
      rw [hid, hrow] at hget
      exact (Option.some.inj hget).symm
    subst hsame
    refine Prog.outcome_select ?_
    refine insertEvent_outcome rfl ?_
    exact .moved stored _ hrow hgoing rfl ⟨rfl, rfl, rfl⟩ rfl

/-- The dispatch of a job that is over is done; a cancellation still to be acknowledged keeps it. -/
inductive Finished (dispatch : Dispatch) (lease : Option Lease) (now : Time) (d : LocalDb) :
    Bool → LocalDb → Prop
  | refused (held : d.LeaseValid now lease) (row : Job) (found : d.jobs.get? dispatch.jobId = some row)
      (requested : row.status = .cancelRequested) : Finished dispatch lease now d false d
  | done (held : d.LeaseValid now lease) (row : Job) (found : d.jobs.get? dispatch.jobId = some row)
      (settled : row.status.isTerminal = true) (stored : Dispatch)
      (foundDispatch : d.dispatches.get? dispatch.id = some stored)
      (version : stored.version = dispatch.version) :
    Finished dispatch lease now d true { d with
      dispatches := d.dispatches.put ({ stored with status := "done", version := dispatch.version + 1 }) }

theorem finish_outcome {dispatch : Dispatch} {lease : Option Lease} {now : Time} :
    (Repositories.finishDispatchIfNotCancellationRequested dispatch lease now).Outcome noLocalClash
      (Finished dispatch lease now d) d := by
  unfold Repositories.finishDispatchIfNotCancellationRequested
  refine checkLease_outcome (by simp) fun hlease => ?_
  simp only [issue_bind]
  refine Prog.outcome_select ?_
  cases hrow : d.jobs.get? dispatch.jobId with
  | none => simp
  | some row =>
    simp only [Option.map_some]
    split_ifs with hrequested
    · exact .refused hlease row hrow hrequested
    refine Prog.outcome_raiseIf (fun _ => by simp) fun hover => ?_
    refine updateDispatchRow_outcome (by simp) fun stored hstored hversion => ?_
    exact .done hlease row hrow (by simpa using hover) stored hstored hversion

theorem updateDispatch_outcome {dispatch : Dispatch} {status : String} :
    (Repositories.updateDispatch { dispatch with status, version := dispatch.version + 1 }
      dispatch.version).Outcome noLocalClash (fun _ d' => ∃ stored,
        d.dispatches.get? dispatch.id = some stored ∧ stored.version = dispatch.version ∧
        d' = { d with
          dispatches := d.dispatches.put ({ stored with status, version := dispatch.version + 1 }) }) d := by
  unfold Repositories.updateDispatch
  refine Prog.outcome_raiseIf (fun _ => by simp) fun _ => ?_
  have hreturn : (updateDispatchRow { dispatch with status, version := dispatch.version + 1 }
      dispatch.version).issue >>= Repositories.requireOne =
      .step (updateDispatchRow { dispatch with status, version := dispatch.version + 1 } dispatch.version)
        fun rowcount => Repositories.requireOne rowcount >>= Prog.ret := by
    simp only [issue_bind, Prog.bind_ret]
  refine (congrArg (Prog.Outcome _ _ · d) hreturn).mpr ?_
  refine updateDispatchRow_outcome (by simp) fun stored hstored hversion => ?_
  exact ⟨stored, hstored, hversion, rfl⟩

theorem renew_outcome {dispatchId token : String} {ttl now now' : Time} :
    (Repositories.renewExecution dispatchId token ttl now now').Outcome noLocalClash (fun renewed d' =>
      (renewed = false ∧ d' = d) ∨ ∃ row, d.leases.get? dispatchId = some row ∧ row.token = token ∧
        now' < row.expiresAt ∧ renewed = true ∧
        d' = { d with leases := d.leases.put ({ row with expiresAt := now + ttl }) }) d := by
  simp only [Repositories.renewExecution, issue_bind]
  refine Prog.outcome_update ?_
  cases hrow : d.leases.get? dispatchId with
  | none => exact Or.inl ⟨rfl, rfl⟩
  | some row =>
    simp only
    split_ifs with hheld
    · exact Or.inr ⟨row, rfl, hheld.1, hheld.2, rfl, rfl⟩
    · exact Or.inl ⟨rfl, rfl⟩

theorem release_outcome {dispatchId token : String} :
    (Repositories.releaseExecution dispatchId token).Outcome noLocalClash (fun _ d' =>
      d' = d ∨ ∃ row, d.leases.get? dispatchId = some row ∧ row.token = token ∧
        d' = { d with leases := d.leases.put ({ row with expiresAt := 0 }) }) d := by
  simp only [Repositories.releaseExecution, issue_bind]
  refine Prog.outcome_update ?_
  cases hrow : d.leases.get? dispatchId with
  | none => exact Or.inl rfl
  | some row =>
    simp only
    split_ifs with hheld
    · exact Or.inr ⟨row, rfl, hheld, rfl⟩
    · exact Or.inl rfl

theorem setDispatchStatus_outcome {dispatchId status : String} {dispatch : Dispatch}
    {k : ℕ → LocalProcedure α} (hrow : d.dispatches.get? dispatchId = some dispatch)
    (h : (k 1).Outcome Q Post { d with
      dispatches := d.dispatches.put ({ dispatch with status, version := dispatch.version + 1 }) }) :
    (Prog.step (Repositories.setDispatchStatus dispatchId status) k).Outcome Q Post d := by
  refine Prog.outcome_update ?_
  rw [hrow]
  exact h

theorem appendJobEvent_outcome {jobId eventType : String} {row : Job} {k : Unit → LocalProcedure α}
    (hrow : d.jobs.get? jobId = some row)
    (h : ∀ e, LocalAppended d row e → (k ()).Outcome Q Post { d with events := d.events.put e }) :
    (Prog.step (Repositories.appendJobEvent jobId eventType) k).Outcome Q Post d := by
  have hid : row.id = jobId := Table.key_of_get? hrow
  have hfree := d.get?_nextSequence jobId
  have hexec : (Repositories.appendJobEvent jobId eventType).exec d =
      .ok ((), [.event ⟨jobId, d.nextSequence jobId, eventType, row.progress⟩]) := by
    simp only [Repositories.appendJobEvent, hrow, hfree, Option.isSome_none, Bool.false_eq_true, if_false]
  exact Prog.outcome_exec hexec (h _ ⟨hid.symm, by rw [hid], rfl⟩)

/-- A claim leaves everything as it was, ends the job of a lost worker, or issues its token. -/
inductive Claimed (dispatchId : String) (ttl : Time) (token : String) (now : Time) (d : LocalDb) :
    Option String → LocalDb → Prop
  | idle : Claimed dispatchId ttl token now d none d
  | lost (row : Job) (dispatch : Dispatch) (lease : ExecutionLease) (e : JobEvent)
      (found : d.jobs.get? row.id = some row) (going : row.status.isTerminal = false)
      (foundDispatch : d.dispatches.get? dispatchId = some dispatch) (jobId : dispatch.jobId = row.id)
      (foundLease : d.leases.get? dispatchId = some lease) (expired : lease.expiresAt ≤ now)
      (appended : LocalAppended d (row.set (lostStatus row.status) (row.version + 1) row.progress) e) :
    Claimed dispatchId ttl token now d none { d with
      jobs := d.jobs.put (row.set (lostStatus row.status) (row.version + 1) row.progress)
      events := d.events.put e
      dispatches := d.dispatches.put ({ dispatch with status := "done", version := dispatch.version + 1 })
      failures := d.failures.put
        ⟨row.id, "worker_lost", "The worker repeatedly stopped. Please retry the job."⟩ }
  | issued (row : Job) (dispatch : Dispatch) (attempts : ℕ)
      (found : d.jobs.get? row.id = some row) (going : row.status.isTerminal = false)
      (foundDispatch : d.dispatches.get? dispatchId = some dispatch) (jobId : dispatch.jobId = row.id)
      (expired : ∀ lease, d.leases.get? dispatchId = some lease → lease.expiresAt ≤ now) :
    Claimed dispatchId ttl token now d (some token) { d with
      leases := d.leases.put ⟨dispatchId, token, now + ttl, attempts⟩
      dispatches := d.dispatches.put
        ({ dispatch with status := "pending", version := dispatch.version + 1 }) }

theorem loseWorker_outcome {dispatchId : String} {row : Job} {dispatch : Dispatch}
    (hrow : d.jobs.get? row.id = some row) (hdispatch : d.dispatches.get? dispatchId = some dispatch) :
    (Repositories.loseWorker dispatchId row.id row.status).Outcome noLocalClash (fun _ d' => ∃ e,
      LocalAppended d (row.set (lostStatus row.status) (row.version + 1) row.progress) e ∧ d' = { d with
        jobs := d.jobs.put (row.set (lostStatus row.status) (row.version + 1) row.progress)
        events := d.events.put e
        dispatches := d.dispatches.put ({ dispatch with status := "done", version := dispatch.version + 1 })
        failures := d.failures.put
          ⟨row.id, "worker_lost", "The worker repeatedly stopped. Please retry the job."⟩ }) d := by
  unfold Repositories.loseWorker
  simp only [issue_bind]
  refine Prog.outcome_update ?_
  rw [hrow]
  refine setDispatchStatus_outcome hdispatch ?_
  refine Prog.outcome_exec (show _ = Except.ok _ from rfl) ?_
  have hlost := Table.get?_put_self d.jobs (row.set (lostStatus row.status) (row.version + 1) row.progress)
  exact appendJobEvent_outcome hlost fun e he => ⟨e, ⟨he.jobId, he.sequence, he.progress⟩, rfl⟩

theorem claim_outcome {dispatchId token : String} {limit maxAttempts : ℤ} {ttl now : Time} :
    (Repositories.claimExecution dispatchId limit ttl maxAttempts token now).Outcome noLocalClash
      (Claimed dispatchId ttl token now d) d := by
  unfold Repositories.claimExecution
  simp only [issue_bind]
  refine Prog.outcome_select ?_
  cases hjoin : d.dispatchJob dispatchId with
  | none => exact .idle
  | some row =>
    obtain ⟨dispatch, hdispatch, hjob, hrow⟩ := LocalDb.dispatchJob_eq_some hjoin
    simp only [Option.map_some]
    split
    · exact .idle
    rename_i hgoing
    refine Prog.outcome_select ?_
    split
    · exact .idle
    rename_i hexpired
    refine Prog.outcome_select ?_
    split
    · exact .idle
    split
    · rename_i hexhausted
      obtain ⟨lease, hlease, -⟩ := Option.any_eq_true _ _ |>.mp hexhausted
      refine (loseWorker_outcome hrow hdispatch).bind fun _ d' hd' => ?_
      obtain ⟨e, he, rfl⟩ := hd'
      exact .lost row dispatch lease e hrow (by simpa using hgoing) hdispatch hjob hlease
        (by simpa [hlease, Rat.not_lt] using hexpired) he
    · refine Prog.outcome_exec (show _ = Except.ok _ from rfl) ?_
      refine setDispatchStatus_outcome hdispatch ?_
      refine .issued row dispatch _ hrow (by simpa using hgoing) hdispatch hjob fun lease hlease => ?_
      simpa [hlease, Rat.not_lt] using hexpired

theorem replay_outcome {spec : JobSpec} {idempotencyKey : Option String} :
    (Repositories.replay spec idempotencyKey).Outcome noLocalClash (fun _ d' => d' = d) d := by
  rcases idempotencyKey with _ | key
  · rfl
  · simp only [Repositories.replay, issue_bind]
    refine Prog.outcome_select ?_
    cases d.idempotency.get? key with
    | none => rfl
    | some existing =>
      refine Prog.outcome_select ?_
      cases d.jobs.get? existing.jobId with
      | none => exact (by simp : noLocalClash (.runtime "orphaned_idempotency_key"))
      | some job => exact Prog.outcome_raiseIf (fun _ => by simp) fun _ => rfl

/-- A creation finds its key taken, or inserts the job with its dispatch. -/
inductive LocalCreated (job : Job) (dispatch : Dispatch) (idempotencyKey : Option String) (d : LocalDb) :
    LocalDb → Prop
  | replayed : LocalCreated job dispatch idempotencyKey d d
  | inserted (fresh : d.jobs.get? job.id = none) (freshDispatch : d.dispatches.get? dispatch.id = none) :
    LocalCreated job dispatch idempotencyKey d { d with
      jobs := d.jobs.put job
      dispatches := d.dispatches.put dispatch
      idempotency := idempotencyKey.elim d.idempotency fun key => d.idempotency.put ⟨key, job.id⟩ }

theorem create_outcome {job : Job} {dispatch : Dispatch} {idempotencyKey : Option String} :
    (Repositories.createJobAndDispatch job dispatch idempotencyKey).Outcome noLocalClash
      (fun _ d' => LocalCreated job dispatch idempotencyKey d d') d := by
  unfold Repositories.createJobAndDispatch
  refine replay_outcome.bind fun existing d' hd' => ?_
  rw [hd']
  cases existing with
  | some existing => exact .replayed
  | none =>
    simp only [issue_bind]
    refine Prog.outcome_insert (fun hfree => ?_) fun e he => ?_
    swap
    · split_ifs at he
      cases he
      simp
    split_ifs at hfree with htaken
    refine Prog.outcome_insert (fun hfreeDispatch => ?_) fun e he => ?_
    swap
    · split_ifs at he <;> cases he <;> simp
    split_ifs at hfreeDispatch with htakenDispatch
    have hinserted : LocalCreated job dispatch idempotencyKey d _ :=
      .inserted (by simpa using htaken) (by simpa using htakenDispatch)
    rcases idempotencyKey with _ | key
    · exact hinserted
    · refine Prog.outcome_insert (fun _ => hinserted) fun e he => ?_
      split_ifs at he
      cases he
      simp
end

end KenkuiServer.Storage
