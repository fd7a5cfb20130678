import KenkuiServer.Local.Fencing
import KenkuiServer.Local.Leases

/-! Recovery in the local store: a job that is not over can be claimed, until its attempts are used up and
the claim ends it. -/
namespace KenkuiServer.Storage
open Txn Jobs Repositories

namespace LocalDb
variable (d : LocalDb)

/-- How often a dispatch has been issued. -/
def attempts (dispatchId : String) : ℕ := (d.leases.get? dispatchId).elim 0 (·.attempts)

/-- The store after a claim that issued `token`. -/
def issued (dispatch : Dispatch) (token : String) (expiresAt : Time) : LocalDb :=
  { d with
    leases := d.leases.put ⟨dispatch.id, token, expiresAt, d.attempts dispatch.id + 1⟩
    dispatches := d.dispatches.put { dispatch with status := "pending", version := dispatch.version + 1 } }

/-- The event that ends a job whose attempts are used up. -/
def lostEvent (job : Job) : JobEvent :=
  ⟨job.id, d.nextSequence job.id, (lostStatus job.status).value, job.progress⟩

/-- The store after a claim that found the attempts used up. -/
def lost (dispatch : Dispatch) (job : Job) : LocalDb :=
  { d with
    jobs := d.jobs.put (job.set (lostStatus job.status) (job.version + 1) job.progress)
    events := d.events.put (d.lostEvent job)
    dispatches := d.dispatches.put { dispatch with status := "done", version := dispatch.version + 1 }
    failures := d.failures.put
      ⟨job.id, "worker_lost", "The worker repeatedly stopped. Please retry the job."⟩ }

variable {d} {dispatch : Dispatch} {job : Job}

theorem lostEvent_appended : (d.lost dispatch job).events.rows = d.events.rows ++ [d.lostEvent job] :=
  Table.rows_put_of_none (d.get?_nextSequence job.id)

theorem mem_listIncomplete (hdispatch : dispatch ∈ d.dispatches.rows)
    (hjob : d.jobs.get? dispatch.jobId = some job) (hgoing : job.status.isTerminal = false) :
    dispatch ∈ listIncomplete d := by
  unfold listIncomplete
  rw [List.mem_insertionSort, List.mem_filter, hjob]
  exact ⟨hdispatch, by simpa using hgoing⟩

theorem activeLeases_others {now : Time}
    (hexpired : ∀ lease, d.leases.get? dispatch.id = some lease → lease.expiresAt ≤ now) :
    (d.activeLeases now).filter (·.dispatchId ≠ dispatch.id) = d.activeLeases now := by
  refine List.filter_eq_self.mpr fun lease hlease => ?_
  obtain ⟨hmem, hlive⟩ := List.mem_filter.mp hlease
  have hlive := (of_decide_eq_true hlive).1
  refine decide_eq_true fun hid => ?_
  have hget := Table.get?_of_mem hmem
  rw [hid] at hget
  exact absurd hlive (Rat.not_lt.mpr (hexpired lease hget))

end LocalDb

namespace Repositories

variable {d : LocalDb} {dispatch : Dispatch} {job : Job} {limit maxAttempts : ℤ} {ttl now : Time}
    {token : String}

theorem loseWorker_run (hdispatch : d.dispatches.get? dispatch.id = some dispatch)
    (hjob : d.jobs.get? job.id = some job) :
    (Repositories.loseWorker dispatch.id job.id job.status).run d = .ok ((), d.lost dispatch job) := by
  have hlost := Table.get?_put_self d.jobs (job.set (lostStatus job.status) (job.version + 1) job.progress)
  have hfree := d.get?_nextSequence job.id
  have hstatus : (if job.status = .cancelRequested then JobStatus.cancelled else .failed) =
      lostStatus job.status := rfl
  unfold Repositories.loseWorker
  simp only [hstatus, issue_bind, Repositories.loseJob, Prog.run_update, hjob, apply_job,
    Repositories.setDispatchStatus, hdispatch, apply_dispatch, Repositories.replaceFailure, Prog.run_mk,
      applyAll_cons, applyAll_nil, apply_failure]
  have hexec : ∀ d₁ : LocalDb,
      d₁.jobs.get? job.id = some (job.set (lostStatus job.status) (job.version + 1) job.progress) →
        d₁.events = d.events → (Repositories.appendJobEvent job.id (lostStatus job.status).value).exec d₁ =
        .ok ((), [.event (d.lostEvent job)]) := by
    intro d₁ hjob₁ hevents
    have hnext : d₁.nextSequence job.id = d.nextSequence job.id := by
      unfold LocalDb.nextSequence
      rw [hevents]
    simp only [Repositories.appendJobEvent, hjob₁, hnext, hevents, hfree, Option.isSome_none,
      Bool.false_eq_true, if_false]
    rfl
  rw [run_issue, hexec]
  · rfl
  · exact hlost
  · rfl

/-- What a claim does to a job that is not over, once its lease has expired and there is room. -/
theorem claim_run (hdispatch : d.dispatches.get? dispatch.id = some dispatch)
    (hjob : d.jobs.get? dispatch.jobId = some job) (hgoing : job.status.isTerminal = false)
    (hexpired : ∀ lease, d.leases.get? dispatch.id = some lease → lease.expiresAt ≤ now)
    (hroom : ((d.activeLeases now).length : ℤ) < limit) (hmax : 0 < maxAttempts) :
    (Repositories.claimExecution dispatch.id limit ttl maxAttempts token now).run d =
      if (d.attempts dispatch.id : ℤ) < maxAttempts then .ok (some token, d.issued dispatch token (now + ttl))
      else .ok (none, d.lost dispatch job) := by
  have hid : job.id = dispatch.jobId := Table.key_of_get? hjob
  have hjoin : d.dispatchJob dispatch.id = some job := by
    simp only [LocalDb.dispatchJob, hdispatch, Option.bind_eq_bind, Option.bind_some, hjob]
  have hheld : ¬ (d.leases.get? dispatch.id).any (·.expiresAt > now) := by
    cases hlease : d.leases.get? dispatch.id with
    | none => simp
    | some lease => simpa [Rat.not_lt] using hexpired lease hlease
  have hexhausted : (d.leases.get? dispatch.id).any (fun lease => (lease.attempts : ℤ) ≥ maxAttempts) ↔
      ¬ (d.attempts dispatch.id : ℤ) < maxAttempts := by
    unfold LocalDb.attempts
    cases d.leases.get? dispatch.id with
    | none => simpa using hmax
    | some lease => simp
  unfold Repositories.claimExecution
  simp only [issue_bind, Repositories.selectDispatchJob, Prog.run_select, hjoin, Option.map_some, hgoing,
    Bool.false_eq_true, if_false, Repositories.selectLease, hheld, Repositories.countActiveLeases,
    not_le.mpr hroom, ge_iff_le]
  by_cases hleft : (d.attempts dispatch.id : ℤ) < maxAttempts
  · rw [if_neg (fun h => hexhausted.mp h hleft), if_pos hleft]
    simp only [Repositories.upsertLease, Prog.run_mk, Repositories.setDispatchStatus,
      Prog.run_update, applyAll_cons, applyAll_nil, apply_lease, hdispatch, apply_dispatch]
    unfold LocalDb.issued LocalDb.attempts
    cases d.leases.get? dispatch.id with
    | none => rfl
    | some lease => rfl
  · rw [if_pos (hexhausted.mpr hleft), if_neg hleft, Prog.run_bind]
    rw [← hid] at hjob
    rw [loseWorker_run hdispatch hjob]
    rfl

theorem claim_issued {dispatchId issued : String} {d' : LocalDb} (hmax : 0 < maxAttempts)
    (h : (Repositories.claimExecution dispatchId limit ttl maxAttempts token now).run d =
      .ok (some issued, d')) :
    ∃ dispatch, dispatch.id = dispatchId ∧ d' = d.issued dispatch token (now + ttl) ∧
      (d.attempts dispatchId : ℤ) < maxAttempts := by
  have hroom := Local.claim_room.of_ok h rfl
  cases claim_outcome.of_ok h with
  | issued job dispatch attempts found going foundDispatch jobId expired =>
    have hid : dispatch.id = dispatchId := Table.key_of_get? foundDispatch
    subst hid
    rw [← jobId] at found
    rw [claim_run foundDispatch found going expired hroom hmax] at h
    by_cases hleft : (d.attempts dispatch.id : ℤ) < maxAttempts
    · rw [if_pos hleft] at h
      have hresult := congrArg Prod.snd (Except.ok.inj h)
      exact ⟨dispatch, rfl, hresult.symm, hleft⟩
    · rw [if_neg hleft] at h
      have hreply := congrArg Prod.fst (Except.ok.inj h)
      cases hreply

theorem attempts_put {d' : LocalDb} {row : ExecutionLease} (h : d'.leases = d.leases.put row) (id : String) :
    d'.attempts id = if row.dispatchId = id then row.attempts else d.attempts id := by
  unfold LocalDb.attempts
  rw [h, Table.get?_put]
  split_ifs
  · rfl
  · rfl

theorem attempts_rewritten {d' : LocalDb} {row row' : ExecutionLease}
    (hrow : d.leases.get? row.dispatchId = some row) (h : d'.leases = d.leases.put row')
    (hid : row'.dispatchId = row.dispatchId) (hattempts : row'.attempts = row.attempts) (id : String) :
    d'.attempts id = d.attempts id := by
  rw [attempts_put h]
  split_ifs with hsame
  · unfold LocalDb.attempts
    rw [← hsame, hid, hrow, hattempts]
    rfl
  · rfl

end Repositories

end KenkuiServer.Storage

namespace KenkuiServer.Local
open Txn Jobs Storage Repositories

/-- Claims bound the attempts by their default, and a job is created with a dispatch of its own. -/
def Call.Standard : Call → Prop
  | .claimExecution _ _ _ maxAttempts _ _ => maxAttempts = 3
  | .createJobAndDispatch job dispatch _ => dispatch.jobId = job.id
  | _ => True

section
variable {d d' : LocalDb} {reply : Reply}

theorem Call.attempts_effect (call : Call) (hstandard : call.Standard)
    (h : call.prog.run d = .ok (reply, d')) (id : String) :
    d'.attempts id = d.attempts id + (tokensOf id [(call, reply)]).length ∧
      (d.attempts id ≤ 3 → d'.attempts id ≤ 3) := by
  have hkept : ∀ {call : Call}, issuedBy (call, reply) = none → d'.attempts id = d.attempts id →
      d'.attempts id = d.attempts id + (tokensOf id [(call, reply)]).length ∧
        (d.attempts id ≤ 3 → d'.attempts id ≤ 3) := by
    intro call hnone hsame
    rw [hsame]
    simp [tokensOf, hnone]
  have hleases : d'.leases = d.leases → d'.attempts id = d.attempts id := fun hleases => by
    unfold LocalDb.attempts
    rw [hleases]
  have heffect := call.lease_effect h
  cases call with
  | claimExecution dispatchId limit ttl maxAttempts token now =>
    obtain rfl : maxAttempts = 3 := hstandard
    obtain ⟨issued, hrun, rfl⟩ := Prog.run_map_ok h
    cases issued with
    | none =>
      refine hkept rfl (hleases ?_)
      cases claim_outcome.of_ok hrun <;> rfl
    | some issued =>
      obtain ⟨dispatch, rfl, rfl, hleft⟩ := claim_issued (by decide) hrun
      rw [attempts_put rfl]
      by_cases hid : dispatch.id = id
      · subst hid
        simp only [if_true, tokensOf, List.filterMap_cons, issuedBy, Option.filter_some, decide_true,
          Option.map_some, List.filterMap_nil, List.length_singleton, true_and]
        omega
      · simp [hid, tokensOf, issuedBy]
  | renewExecution dispatchId token ttl now now' =>
    have hreply : issuedBy (.renewExecution dispatchId token ttl now now', reply) = none := rfl
    cases heffect with
    | kept _ leases => exact hkept hreply (hleases leases)
    | renewed row _ _ _ _ found live leases => exact hkept hreply (attempts_rewritten found leases rfl rfl id)
  | releaseExecution dispatchId token =>
    have hreply : issuedBy (.releaseExecution dispatchId token, reply) = none := rfl
    cases heffect with
    | kept _ leases => exact hkept hreply (hleases leases)
    | released row _ found leases => exact hkept hreply (attempts_rewritten found leases rfl rfl id)
  | createJobAndDispatch job dispatch idempotencyKey =>
    cases heffect with
    | kept _ leases => exact hkept rfl (hleases leases)
  | update snapshot event eventType artifact lease failure now =>
    cases heffect with
    | kept _ leases => exact hkept rfl (hleases leases)
  | requestCancellation jobId =>
    cases heffect with
    | kept _ leases => exact hkept rfl (hleases leases)
  | finishDispatch dispatch lease now =>
    cases heffect with
    | kept _ leases => exact hkept rfl (hleases leases)
  | updateDispatch dispatch status =>
    cases heffect with
    | kept _ leases => exact hkept rfl (hleases leases)

theorem jobs_put {row old : Job} (h : d'.jobs = d.jobs.put row)
    (hold : d.jobs.get? row.id = some old) (job : Job) (hjob : job ∈ d'.jobs.rows) :
    (∃ old ∈ d.jobs.rows, old.id = job.id) ∨ ∃ dispatch ∈ d'.dispatches.rows, dispatch.jobId = job.id := by
  rw [h] at hjob
  rcases (Table.mem_put _ _ _).mp hjob with rfl | ⟨hjob, -⟩
  · exact Or.inl ⟨old, Table.mem_of_get? hold, Table.key_of_get? hold⟩
  · exact Or.inl ⟨job, hjob, rfl⟩

theorem jobs_same (h : d'.jobs = d.jobs) (job : Job) (hjob : job ∈ d'.jobs.rows) :
    (∃ old ∈ d.jobs.rows, old.id = job.id) ∨ ∃ dispatch ∈ d'.dispatches.rows, dispatch.jobId = job.id := by
  rw [h] at hjob
  exact Or.inl ⟨job, hjob, rfl⟩

theorem Call.jobs_dispatched (call : Call) (hstandard : call.Standard) (h : call.prog.run d = .ok (reply, d'))
    (job : Job) (hjob : job ∈ d'.jobs.rows) :
    (∃ old ∈ d.jobs.rows, old.id = job.id) ∨ ∃ dispatch ∈ d'.dispatches.rows, dispatch.jobId = job.id := by
  revert job
  cases call with
  | createJobAndDispatch row dispatch idempotencyKey =>
    have hown : dispatch.jobId = row.id := hstandard
    obtain ⟨job', hrun, -⟩ := Prog.run_map_ok h
    cases create_outcome.of_ok hrun with
    | replayed => exact jobs_same rfl
    | inserted fresh freshDispatch =>
      intro job hjob
      rcases (Table.mem_put _ _ _).mp hjob with rfl | ⟨hjob, -⟩
      · exact Or.inr ⟨dispatch, (Table.mem_put _ _ _).mpr (Or.inl rfl), hown⟩
      · exact Or.inl ⟨job, hjob, rfl⟩
  | update snapshot event eventType artifact lease failure now =>
    simp only [Call.prog] at h
    cases ht : transition snapshot event with
    | error e => simp [ht] at h
    | ok job =>
      simp only [ht] at h
      obtain ⟨e, hrun, -⟩ := Prog.run_map_ok h
      have hupdated := update_outcome.of_ok hrun
      obtain ⟨row, hrow, -⟩ := hupdated.found
      rw [hupdated.result]
      exact jobs_put rfl hrow
  | requestCancellation jobId =>
    obtain ⟨job, hrun, -⟩ := Prog.run_map_ok h
    cases cancel_outcome.of_ok hrun with
    | already found settled result =>
      rw [result]
      exact jobs_same rfl
    | moved row e found going cancelled appended result =>
      have hid : row.id = jobId := Table.key_of_get? found
      subst cancelled
      rw [← hid] at found
      rw [result]
      exact jobs_put rfl found
  | finishDispatch dispatch lease now =>
    obtain ⟨finished, hrun, -⟩ := Prog.run_map_ok h
    cases finish_outcome.of_ok hrun <;> exact jobs_same rfl
  | updateDispatch dispatch status =>
    obtain ⟨u, hrun, -⟩ := Prog.run_map_ok (f := fun _ => Reply.none) h
    obtain ⟨stored, -, -, rfl⟩ := updateDispatch_outcome.of_ok hrun
    exact jobs_same rfl
  | claimExecution dispatchId limit ttl maxAttempts token now =>
    obtain ⟨issued, hrun, -⟩ := Prog.run_map_ok h
    cases claim_outcome.of_ok hrun with
    | idle => exact jobs_same rfl
    | lost row dispatch lease e found => exact jobs_put rfl found
    | issued => exact jobs_same rfl
  | renewExecution dispatchId token ttl now now' =>
    obtain ⟨renewed, hrun, -⟩ := Prog.run_map_ok h
    rcases renew_outcome.of_ok hrun with ⟨-, rfl⟩ | ⟨row, -, -, -, -, rfl⟩ <;> exact jobs_same rfl
  | releaseExecution dispatchId token =>
    obtain ⟨u, hrun, -⟩ := Prog.run_map_ok (f := fun _ => Reply.none) h
    rcases release_outcome.of_ok hrun with rfl | ⟨row, -, -, rfl⟩ <;> exact jobs_same rfl

/-- What a run keeps: the attempts of a dispatch are the tokens issued for it, three at most, and every job
has a dispatch. -/
structure Recovering (s : LocalRun) : Prop where
  issued : ∀ dispatchId, s.db.attempts dispatchId = (tokensOf dispatchId s.log).length
  bounded : ∀ dispatchId, s.db.attempts dispatchId ≤ 3
  dispatched : ∀ job ∈ s.db.jobs.rows, ∃ dispatch ∈ s.db.dispatches.rows, dispatch.jobId = job.id

theorem reach_recovering {s : LocalRun} (h : Serial.Reach Call.prog (fun _ call => call.Standard) {} s) :
    Recovering s := by
  induction h with
  | init =>
    constructor
    · exact fun _ => rfl
    · exact fun _ => Nat.zero_le _
    · simp
  | step call reach hstandard ih =>
    rename_i s
    have hspec := Serial.step_spec Call.prog s call
    revert hspec
    generalize s.step Call.prog call = s'
    intro hspec
    cases hspec with
    | fail error => exact ⟨ih.issued, ih.bounded, ih.dispatched⟩
    | commit ok =>
      rename_i r d
      constructor
      · intro id
        have hsplit : tokensOf id ((call, r) :: s.log) = tokensOf id [(call, r)] ++ tokensOf id s.log :=
          List.filterMap_append (l := [(call, r)])
        rw [hsplit, List.length_append, (call.attempts_effect hstandard ok id).1, ih.issued]
        omega
      · exact fun id => (call.attempts_effect hstandard ok id).2 (ih.bounded id)
      · intro job hjob
        rcases call.jobs_dispatched hstandard ok job hjob with ⟨old, hold, hid⟩ | hnew
        · obtain ⟨dispatch, hdispatch, hof⟩ := ih.dispatched old hold
          obtain ⟨dispatch', hget, hkept, -⟩ :=
            call.dispatches_onward ok _ dispatch (Table.get?_of_mem hdispatch)
          exact ⟨dispatch', Table.mem_of_get? hget, hkept.trans (hof.trans hid)⟩
        · exact hnew

theorem claim_over {d : LocalDb} {dispatchId token : String} {job : Job} {limit maxAttempts : ℤ}
    {ttl now : Time} (hjob : d.dispatchJob dispatchId = some job) (hover : job.status.isTerminal = true) :
    (Repositories.claimExecution dispatchId limit ttl maxAttempts token now).run d = .ok (none, d) := by
  simp only [Repositories.claimExecution, issue_bind, Repositories.selectDispatchJob, Prog.run_select, hjob,
    Option.map_some, hover, if_true]
  rfl

/-- At most three tokens are issued for a dispatch, and none while its job is over. A job that is not over
has a dispatch in `list_incomplete`, and a claim of it, made once its lease has expired and while fewer than
`limit` others are live, issues the next token or, when three have been issued, ends the job. -/
structure Recoverable (s : LocalRun) : Prop where
  bounded : ∀ dispatchId, (tokensOf dispatchId s.log).length ≤ 3
  attempts : ∀ dispatchId, s.db.attempts dispatchId = (tokensOf dispatchId s.log).length
  settled : ∀ dispatchId job, s.db.dispatchJob dispatchId = some job → job.status.isTerminal = true →
    ∀ limit ttl maxAttempts token now,
      (Repositories.claimExecution dispatchId limit ttl maxAttempts token now).run s.db = .ok (none, s.db)
  dispatched : ∀ job ∈ s.db.jobs.rows, job.status.isTerminal = false →
    ∃ dispatch ∈ listIncomplete s.db, dispatch.jobId = job.id
  incomplete : ∀ dispatch ∈ s.db.dispatches.rows, ∀ job, s.db.jobs.get? dispatch.jobId = some job →
    job.status.isTerminal = false → dispatch ∈ listIncomplete s.db
  issued : ∀ dispatch ∈ s.db.dispatches.rows, ∀ job, s.db.jobs.get? dispatch.jobId = some job →
    job.status.isTerminal = false → ∀ limit ttl token now,
      (∀ lease, s.db.leases.get? dispatch.id = some lease → lease.expiresAt ≤ now) →
      (((s.db.activeLeases now).filter (·.dispatchId ≠ dispatch.id)).length : ℤ) < limit →
      (tokensOf dispatch.id s.log).length < 3 →
        (Repositories.claimExecution dispatch.id limit ttl 3 token now).run s.db =
          .ok (some token, s.db.issued dispatch token (now + ttl))
  ended : ∀ dispatch ∈ s.db.dispatches.rows, ∀ job, s.db.jobs.get? dispatch.jobId = some job →
    job.status.isTerminal = false → ∀ limit ttl token now,
      (∀ lease, s.db.leases.get? dispatch.id = some lease → lease.expiresAt ≤ now) →
      (((s.db.activeLeases now).filter (·.dispatchId ≠ dispatch.id)).length : ℤ) < limit →
      (tokensOf dispatch.id s.log).length = 3 →
        (Repositories.claimExecution dispatch.id limit ttl 3 token now).run s.db =
          .ok (none, s.db.lost dispatch job) ∧
          (s.db.lost dispatch job).events.rows = s.db.events.rows ++ [s.db.lostEvent job]

theorem Recovering.recoverable {s : LocalRun} (h : Recovering s) : Recoverable s := by
  have hclaim : ∀ dispatch ∈ s.db.dispatches.rows, ∀ job, s.db.jobs.get? dispatch.jobId = some job →
      job.status.isTerminal = false → ∀ limit ttl token now,
        (∀ lease, s.db.leases.get? dispatch.id = some lease → lease.expiresAt ≤ now) →
        (((s.db.activeLeases now).filter (·.dispatchId ≠ dispatch.id)).length : ℤ) < limit →
          (Repositories.claimExecution dispatch.id limit ttl 3 token now).run s.db =
            if (s.db.attempts dispatch.id : ℤ) < 3 then .ok
              (some token, s.db.issued dispatch token (now + ttl))
            else .ok (none, s.db.lost dispatch job) := by
    intro dispatch hdispatch job hjob hgoing limit ttl token now hexpired hroom
    rw [LocalDb.activeLeases_others hexpired] at hroom
    exact claim_run (Table.get?_of_mem hdispatch) hjob hgoing hexpired hroom (by decide)
  constructor
  · exact fun id => (h.issued id).symm.trans_le (h.bounded id)
  · exact h.issued
  · exact fun dispatchId job hjob hover limit ttl maxAttempts token now => claim_over hjob hover
  · intro job hjob hgoing
    obtain ⟨dispatch, hdispatch, hof⟩ := h.dispatched job hjob
    have hget : s.db.jobs.get? dispatch.jobId = some job := hof ▸ Table.get?_of_mem hjob
    exact ⟨dispatch, LocalDb.mem_listIncomplete hdispatch hget hgoing, hof⟩
  · exact fun dispatch hdispatch job hjob hgoing => LocalDb.mem_listIncomplete hdispatch hjob hgoing
  · intro dispatch hdispatch job hjob hgoing limit ttl token now hexpired hroom hleft
    rw [hclaim dispatch hdispatch job hjob hgoing limit ttl token now hexpired hroom, h.issued, if_pos]
    omega
  · intro dispatch hdispatch job hjob hgoing limit ttl token now hexpired hroom hthree
    rw [hclaim dispatch hdispatch job hjob hgoing limit ttl token now hexpired hroom, h.issued, if_neg]
    · exact ⟨rfl, LocalDb.lostEvent_appended⟩
    · omega

end

end KenkuiServer.Local
