import KenkuiServer.Local.Recovery
import KenkuiServer.Local.Superseded

/-! The failures of jobs: a job that failed has one, and no other job. -/
namespace KenkuiServer.Storage
open Txn Jobs

/-- A job has a failure exactly if it failed. -/
def LocalDb.FailuresMatch (d : LocalDb) : Prop :=
  ∀ jobId, (d.failures.get? jobId).isSome ↔ ∃ job, d.jobs.get? jobId = some job ∧ job.status = .failed

section
variable {d d' : LocalDb}

theorem failuresMatch_same (h : d.FailuresMatch) (hjobs : d'.jobs = d.jobs)
    (hfailures : d'.failures = d.failures) :
    d'.FailuresMatch := by
  intro jobId
  rw [hjobs, hfailures]
  exact h jobId

theorem failuresMatch_put_iff (h : d.FailuresMatch) {row next : Job} {failure : Option JobFailure}
    (hrow : d.jobs.get? next.id = some row) (hgoing : row.status ≠ .failed)
    (hjobs : d'.jobs = d.jobs.put next) (hid : ∀ f ∈ failure, f.jobId = next.id)
    (hfailures : d'.failures = failure.elim d.failures d.failures.put) :
    d'.FailuresMatch ↔ (failure.isSome ↔ next.status = .failed) := by
  have hnone : ¬ (d.failures.get? next.id).isSome := by
    rw [h next.id]
    rintro ⟨job, hjob, hfailed⟩
    rw [hrow] at hjob
    cases hjob
    exact hgoing hfailed
  have hself : (d'.failures.get? next.id).isSome ↔ failure.isSome := by
    rw [hfailures]
    cases failure with
    | none => simpa using hnone
    | some f => simp [Table.get?_put, hid f rfl]
  have hother : ∀ jobId, next.id ≠ jobId → d'.failures.get? jobId = d.failures.get? jobId := by
    intro jobId hne
    rw [hfailures]
    cases failure with
    | none => rfl
    | some f => exact Table.get?_put_of_ne _ (by rw [hid f rfl]; exact hne)
  constructor
  · intro hmatch
    rw [← hself, hmatch next.id, hjobs]
    simp
  · intro hfailed jobId
    by_cases hsame : next.id = jobId
    · subst hsame
      rw [hself, hfailed, hjobs]
      simp
    · rw [hother jobId hsame, h jobId, hjobs, Table.get?_put_of_ne _ hsame]

theorem failuresMatch_created (h : d.FailuresMatch) {job : Job} (hfresh : d.jobs.get? job.id = none)
    (hstatus : job.status ≠ .failed) (hjobs : d'.jobs = d.jobs.put job)
    (hfailures : d'.failures = d.failures) :
    d'.FailuresMatch := by
  intro jobId
  rw [hfailures, h jobId, hjobs, Table.get?_put]
  split_ifs with hid
  · subst hid
    simp [hfresh, hstatus]
  · rfl

end

end KenkuiServer.Storage

namespace KenkuiServer.Storage.Repositories
open Txn Jobs

variable {d : LocalDb} {dispatchId token : String} {limit maxAttempts : ℤ} {ttl now : Time}

/-- A claim that finds the attempts of the dispatch used up. -/
structure Exhausts (d : LocalDb) (dispatchId : String) (limit maxAttempts : ℤ) (now : Time)
    (row : Job) : Prop where
  job : d.dispatchJob dispatchId = some row
  going : row.status.isTerminal = false
  lease : ∃ lease, d.leases.get? dispatchId = some lease ∧ lease.expiresAt ≤ now ∧
    maxAttempts ≤ lease.attempts
  room : ((d.activeLeases now).length : ℤ) < limit

/-- The failure that a claim gives a job whose worker was lost. -/
def workerLost (jobId : String) : JobFailure :=
  ⟨jobId, "worker_lost", "The worker repeatedly stopped. Please retry the job."⟩

theorem claim_failures : (claimExecution dispatchId limit ttl maxAttempts token now).Outcome (fun _ => True)
    (fun _ d' => (d'.jobs = d.jobs ∧ d'.failures = d.failures ∧
        ∀ row, ¬ Exhausts d dispatchId limit maxAttempts now row) ∨
      ∃ row, Exhausts d dispatchId limit maxAttempts now row ∧
        d'.jobs = d.jobs.put (row.set (lostStatus row.status) (row.version + 1) row.progress) ∧
        d'.failures = d.failures.put (workerLost row.id)) d := by
  unfold claimExecution
  simp only [issue_bind]
  refine Prog.outcome_select ?_
  cases hjoin : d.dispatchJob dispatchId with
  | none =>
    refine .inl ⟨rfl, rfl, fun row hrow => ?_⟩
    have hnone := hrow.job
    rw [hjoin] at hnone
    cases hnone
  | some row =>
    have hsame : ∀ other, Exhausts d dispatchId limit maxAttempts now other → other = row := by
      intro other hother
      have hjob := hother.job
      rw [hjoin] at hjob
      exact (Option.some.inj hjob).symm
    obtain ⟨dispatch, hdispatch, hjob, hrow⟩ := LocalDb.dispatchJob_eq_some hjoin
    simp only [Option.map_some]
    split
    · rename_i hover
      refine .inl ⟨rfl, rfl, fun other hother => ?_⟩
      have hgoing := hother.going
      rw [hsame other hother, hover] at hgoing
      cases hgoing
    rename_i hgoing
    refine Prog.outcome_select ?_
    split
    · rename_i hheld
      refine .inl ⟨rfl, rfl, fun other hother => ?_⟩
      obtain ⟨lease, hlease, hexpired, -⟩ := hother.lease
      simp only [hlease, Option.any_some, decide_eq_true_eq] at hheld
      exact absurd hexpired (Rat.not_le.mpr hheld)
    rename_i hexpired
    refine Prog.outcome_select ?_
    split
    · rename_i hfull
      exact .inl ⟨rfl, rfl, fun other hother => absurd hother.room (not_lt.mpr hfull)⟩
    rename_i hroom
    split
    · rename_i hexhausted
      obtain ⟨lease, hlease, hattempts⟩ := Option.any_eq_true _ _ |>.mp hexhausted
      refine (loseWorker_outcome hrow hdispatch).bind (fun _ d' hd' => ?_)
        |>.imp (fun _ _ => trivial) fun _ _ h => h
      obtain ⟨e, -, rfl⟩ := hd'
      refine .inr ⟨row, ⟨hjoin, by simpa using hgoing, ⟨lease, hlease, ?_, by simpa using hattempts⟩,
        not_le.mp hroom⟩, rfl, rfl⟩
      simpa [hlease, Rat.not_lt] using hexpired
    · rename_i hleft
      have hnever : ∀ other, ¬ Exhausts d dispatchId limit maxAttempts now other := by
        intro other hother
        obtain ⟨lease, hlease, -, hattempts⟩ := hother.lease
        simp only [hlease, Option.any_some, ge_iff_le, decide_eq_true_eq] at hleft
        exact hleft hattempts
      refine Prog.outcome_exec (show _ = Except.ok _ from rfl) ?_
      refine setDispatchStatus_outcome hdispatch ?_
      exact .inl ⟨rfl, rfl, hnever⟩

/-- Such a claim goes through. -/
theorem exhausts_run {row : Job} (h : Exhausts d dispatchId limit maxAttempts now row) :
    ∃ d', (claimExecution dispatchId limit ttl maxAttempts token now).run d = .ok (none, d') := by
  obtain ⟨dispatch, hdispatch, hjob, hrow⟩ := LocalDb.dispatchJob_eq_some h.job
  obtain ⟨lease, hlease, hexpired, hattempts⟩ := h.lease
  have hid : dispatch.id = dispatchId := Table.key_of_get? hdispatch
  subst hid
  have hheld : ¬ lease.expiresAt > now := Rat.not_lt.mpr hexpired
  refine ⟨d.lost dispatch row, ?_⟩
  unfold claimExecution
  simp only [issue_bind, selectDispatchJob, Prog.run_select, h.job, Option.map_some, h.going,
    Bool.false_eq_true, if_false, selectLease, hlease, Option.any_some, hheld, decide_false,
    countActiveLeases, ge_iff_le, not_le.mpr h.room, hattempts, decide_true, if_true]
  rw [Prog.run_bind, loseWorker_run hdispatch hrow]
  rfl

end KenkuiServer.Storage.Repositories

namespace KenkuiServer.Local
open Txn Data Jobs Storage Repositories

/-- An update fails its job exactly if it records a failure, over a snapshot of which `J` holds; a new job is
queued. -/
def Call.Recorded (J : Job → Prop) : Call → Prop
  | .createJobAndDispatch job _ _ => job.version = 0 ∧ job.status = .queued
  | .update snapshot event _ _ _ failure _ => J snapshot ∧ (failure.isSome ↔ event = .failed)
  | _ => True

/-- A claim that finds the attempts of a job used up whose cancellation is requested. -/
def Call.Overtakes (d : LocalDb) : Call → Prop
  | .claimExecution dispatchId limit _ maxAttempts _ now =>
    ∃ row, Exhausts d dispatchId limit maxAttempts now row ∧ row.status = .cancelRequested
  | _ => False

theorem transition_failed {job next : Job} {event : JobTransitionEvent}
    (h : transition job event = .ok next) :
    next.status = .failed ↔ event = .failed := by
  have hmoves := (transition_advances h).moves
  unfold transition at h
  split at h
  case h_7 stage completed total hs =>
    cases hp : Progress.init stage completed total with
    | error e => simp [hp, Bind.bind, Except.bind] at h
    | ok progress =>
      simp only [hp, Bind.bind, Except.bind, Pure.pure, Except.pure, Except.ok.injEq] at h
      subst h
      simp [hs]
  case h_8 => cases h
  all_goals
    cases h
    simp

section
variable {past : List LocalDb} {d d' : LocalDb} {reply : Reply}

theorem Call.failures_effect (call : Call)
    (hrecorded : call.Recorded fun job => ∃ old ∈ past, job ∈ old.jobs.rows)
    (hpast : ∀ old ∈ past, Table.Later (fun job : Job => job.version) old.jobs d.jobs)
    (hmatch : d.FailuresMatch) (h : call.prog.run d = .ok (reply, d')) : d'.FailuresMatch ↔
      ¬ call.Overtakes d := by
  cases call with
  | createJobAndDispatch job dispatch idempotencyKey =>
    obtain ⟨job', hrun, -⟩ := Prog.run_map_ok h
    refine iff_of_true ?_ (fun h => h)
    cases create_outcome.of_ok hrun with
    | replayed => exact hmatch
    | inserted fresh freshDispatch =>
      refine failuresMatch_created hmatch fresh ?_ rfl rfl
      rw [hrecorded.2]
      decide
  | update snapshot event eventType artifact lease failure now =>
    simp only [Call.prog] at h
    cases ht : transition snapshot event with
    | error e => simp [ht] at h
    | ok job =>
      simp only [ht] at h
      obtain ⟨e, hrun, -⟩ := Prog.run_map_ok h
      have hupdated := update_outcome.of_ok hrun
      obtain ⟨⟨old, hold, hmem⟩, hfailure⟩ := hrecorded
      have hadvances := transition_advances ht
      obtain ⟨row, hrow, hexpected, -⟩ := hupdated.found
      -- the version guard makes the row written over the snapshot
      have hsame : row = snapshot := by
        have hrow' : d.jobs.get? snapshot.id = some row := by
          rw [← hadvances.id]
          exact hrow
        refine (hpast old hold).eq_of_version (Table.get?_of_mem hmem) hrow' ?_
        have := hadvances.version
        omega
      subst hsame
      have hgoing : row.status ≠ .failed := by
        intro hfailed
        have hover := hadvances.moves.not_terminal
        rw [hfailed] at hover
        cases hover
      refine iff_of_true ?_ (fun h => h)
      have hresult := hupdated.result
      have hput := @failuresMatch_put_iff d d' hmatch row job (failure.map fun f =>
        ⟨job.id, f.1, f.2⟩) hrow hgoing
        (congrArg LocalDb.jobs hresult)
      refine (hput ?_ ?_).mpr ?_
      · intro f hf
        obtain ⟨pair, -, rfl⟩ := Option.mem_map.mp hf
        rfl
      · rw [hresult]
        cases failure <;> rfl
      · rw [Option.isSome_map, transition_failed ht]
        exact hfailure
  | requestCancellation jobId =>
    obtain ⟨job, hrun, -⟩ := Prog.run_map_ok h
    refine iff_of_true ?_ (fun h => h)
    cases cancel_outcome.of_ok hrun with
    | already found settled result =>
      rw [result]
      exact hmatch
    | moved row e found going cancelled appended result =>
      have hid : row.id = jobId := Table.key_of_get? found
      subst cancelled
      have hgoing : row.status ≠ .failed := by
        intro hfailed
        rw [hfailed] at going
        cases going
      set next := row.set (cancellation row.status ((d.dispatchOfJob jobId).map (·.status))).1
        (row.version + 1) row.progress
        with hnext
      have hjobs : d'.jobs = d.jobs.put next := congrArg LocalDb.jobs result
      have hfailures : d'.failures = d.failures := by rw [result]
      have hput := @failuresMatch_put_iff d d' hmatch row next none (hid ▸ found)
        hgoing hjobs (by simp) hfailures
      refine hput.mpr ?_
      simp only [hnext, Option.isSome_none, Bool.false_eq_true, false_iff, Job.set, cancellation]
      split_ifs <;> decide
  | claimExecution dispatchId limit ttl maxAttempts token now =>
    obtain ⟨issued, hrun, -⟩ := Prog.run_map_ok h
    obtain ⟨hjobs, hfailures, hnever⟩ | ⟨row, hexhausts, hjobs, hfailures⟩ := claim_failures.of_ok hrun
    · refine iff_of_true (failuresMatch_same hmatch hjobs hfailures) ?_
      rintro ⟨row, hexhausts, -⟩
      exact hnever row hexhausts
    · obtain ⟨dispatch, -, -, hrow⟩ := LocalDb.dispatchJob_eq_some hexhausts.job
      have hgoing : row.status ≠ .failed := by
        intro hfailed
        have hover := hexhausts.going
        rw [hfailed] at hover
        cases hover
      have hput := @failuresMatch_put_iff d d' hmatch row
        (row.set (lostStatus row.status) (row.version + 1) row.progress)
        (some (workerLost row.id)) hrow hgoing hjobs (by simp [workerLost, Job.set]) hfailures
      have hovertakes : (Call.claimExecution dispatchId limit ttl maxAttempts token now).Overtakes d ↔
          row.status = .cancelRequested := by
        constructor
        · rintro ⟨other, hother, hstatus⟩
          have hsame := hother.job
          rw [hexhausts.job] at hsame
          rwa [Option.some.inj hsame]
        · exact fun hstatus => ⟨row, hexhausts, hstatus⟩
      rw [hput, hovertakes]
      simp only [Option.isSome_some, true_iff, Job.set, lostStatus]
      split_ifs with hrequested
      · simp [hrequested]
      · simp [hrequested]
  | finishDispatch dispatch lease now =>
    obtain ⟨finished, hrun, -⟩ := Prog.run_map_ok h
    refine iff_of_true ?_ (fun h => h)
    cases finish_outcome.of_ok hrun with
    | refused => exact hmatch
    | done => exact failuresMatch_same hmatch rfl rfl
  | updateDispatch dispatch status =>
    obtain ⟨u, hrun, -⟩ := Prog.run_map_ok (f := fun _ => Reply.none) h
    obtain ⟨stored, -, -, rfl⟩ := updateDispatch_outcome.of_ok hrun
    exact iff_of_true (failuresMatch_same hmatch rfl rfl) (fun h => h)
  | renewExecution dispatchId token ttl now now' =>
    obtain ⟨renewed, hrun, -⟩ := Prog.run_map_ok h
    refine iff_of_true ?_ (fun h => h)
    rcases renew_outcome.of_ok hrun with ⟨-, rfl⟩ | ⟨row, -, -, -, -, rfl⟩
    · exact hmatch
    · exact failuresMatch_same hmatch rfl rfl
  | releaseExecution dispatchId token =>
    obtain ⟨u, hrun, -⟩ := Prog.run_map_ok (f := fun _ => Reply.none) h
    refine iff_of_true ?_ (fun h => h)
    rcases release_outcome.of_ok hrun with rfl | ⟨row, -, -, rfl⟩
    · exact hmatch
    · exact failuresMatch_same hmatch rfl rfl

end

/-- The calls that a query makes while the jobs that it was given satisfy `J`. -/
def Query.Recorded (J : Job → Prop) (q : Query) : Prop :=
  ∀ moment call, q.call? moment = some call → call.Recorded J

/-- The jobs that a query is given satisfy `J`. -/
def Query.Truthful (J : Job → Prop) : (q : Query) → q.Answer → Prop
  | .job _, answer => ∀ job, (answer : Option Job) = some job → J job
  | _, _ => True

/-- A script that reports what it was given. -/
abbrev Reports (J : Job → Prop) {α : Type} (p : Worker α) : Prop :=
  p.Assuming (Query.Truthful J) (Query.Recorded J)

namespace LocalJobRunner
open Worker
variable {runner : LocalJobRunner} {J : Job → Prop} {α : Type}

theorem recorded_silent {q : Query} (h : ∀ moment, q.call? moment = none) : q.Recorded J := by
  intro moment call hcall
  rw [h] at hcall
  cases hcall

theorem reports_transact {call : Moment → Call} {f : Except Error Reply → Worker α}
    (h : ∀ moment, (call moment).Recorded J) (hf : ∀ reply, Reports J (f reply)) :
    Reports J (transact call >>= f) := by
  constructor
  · intro moment call' hcall
    cases hcall
    exact h moment
  · intro reply _
    exact hf reply

theorem reports_getDispatch (dispatchId : String) : Reports J (getDispatch dispatchId) := by
  refine ⟨recorded_silent fun _ => rfl, fun (answer : Option Dispatch) _ => ?_⟩
  cases answer <;> trivial

theorem reports_getJob {jobId : String} {f : Job → Worker α} (hf : ∀ job, J job → Reports J (f job)) :
    Reports J (getJob jobId >>= f) := by
  refine ⟨recorded_silent fun _ => rfl, fun (answer : Option Job) hanswer => ?_⟩
  cases answer with
  | none => trivial
  | some job => exact hf job (hanswer job rfl)

theorem reports_getAsset (assetId : String) : Reports J (getAsset assetId) := by
  refine ⟨recorded_silent fun _ => rfl, fun (answer : Bool) _ => ?_⟩
  cases answer <;> trivial

theorem reports_unlink (path : String) : Reports J (unlink path) :=
  ⟨recorded_silent fun _ => rfl, fun _ _ => trivial⟩

theorem reports_write (path : String) : Reports J (write path) :=
  ⟨recorded_silent fun _ => rfl, fun _ _ => trivial⟩

theorem reports_update {job : Job} (hjob : J job) {event : JobTransitionEvent} (eventType : String)
    (artifact : Moment → Option Artifact) {failure : Option (String × String)}
    (hfailure : failure.isSome ↔ event = .failed) :
    Reports J (runner.update job event eventType artifact failure) := by
  unfold update
  refine reports_transact (fun moment => ⟨hjob, hfailure⟩) fun reply => ?_
  cases reply with
  | ok reply => trivial
  | error e =>
    simp only
    split_ifs <;> trivial

theorem reports_updateDispatch (dispatch : Dispatch) (status : String) :
    Reports J (updateDispatch dispatch status) := by
  unfold updateDispatch
  refine reports_transact (fun moment => trivial) fun reply => ?_
  cases reply <;> trivial

theorem reports_cancelIfRequested (jobId : String) : Reports J (runner.cancelIfRequested jobId) := by
  unfold cancelIfRequested
  refine reports_getJob fun current hcurrent => ?_
  split_ifs
  · exact (reports_update hcurrent _ _ (by simp)).bind fun _ => trivial
  · trivial

theorem reports_failIfRunning (jobId : String) (error : Option (String × String)) :
    Reports J (runner.failIfRunning jobId error) := by
  unfold failIfRunning
  refine reports_getJob fun current hcurrent => ?_
  split_ifs
  · exact (reports_update hcurrent _ _ (by simp)).bind fun _ => trivial
  · trivial

theorem reports_fail (jobId : String) (error : Option (String × String)) :
    Reports J (runner.fail jobId error) := by
  unfold fail
  refine reports_getJob fun current _ => ?_
  split_ifs
  · exact reports_cancelIfRequested jobId
  · exact reports_failIfRunning jobId error

theorem reports_excepting {jobId : String} {p : Worker Unit} (hp : Reports J p) :
    Reports J (runner.excepting jobId p) := by
  refine hp.handle fun e => ?_
  split_ifs
  · trivial
  · exact reports_fail jobId none

theorem reports_discard (jobId : String) : Reports J (runner.discard jobId) :=
  (reports_unlink _).bind fun _ => reports_cancelIfRequested jobId

theorem reports_publish (jobId : String) : Reports J (runner.publish jobId) := by
  unfold publish
  refine reports_getJob fun current hcurrent => ?_
  split_ifs
  · exact reports_discard jobId
  · refine (reports_update hcurrent _ _ (by simp)).bind fun updated => ?_
    split_ifs
    · trivial
    · refine reports_getJob fun current _ => ?_
      split_ifs
      · exact reports_discard jobId
      · trivial

theorem reports_onEvent (jobId : String) (event : ExecutionEvent) :
    Reports J (runner.onEvent jobId event) := by
  unfold onEvent
  refine reports_getJob fun current hcurrent => ?_
  split_ifs
  · trivial
  cases event.completed with
  | none => trivial
  | some completed =>
    simp only
    split_ifs
    · trivial
    · exact (reports_update hcurrent _ _ (by simp)).bind fun _ => trivial

theorem reports_finishDispatch (dispatchId jobId : String) (output : Option String) :
    Reports J (runner.finishDispatch dispatchId jobId output) := by
  unfold finishDispatch
  refine reports_getJob fun current _ => ?_
  split_ifs
  · trivial
  refine (reports_getDispatch dispatchId).bind fun dispatch => ?_
  split_ifs
  · trivial
  have hcall : Reports J (runner.finishDispatchCall dispatch) := by
    unfold finishDispatchCall
    refine reports_transact (fun moment => trivial) fun reply => ?_
    cases reply <;> trivial
  refine hcall.bind fun finished => ?_
  split_ifs
  · trivial
  have hunlink : Reports J (unlinkOutput output) := by
    cases output with
    | none => trivial
    | some path => exact reports_unlink path
  exact hunlink.bind fun _ => (reports_cancelIfRequested jobId).bind fun _ => trivial

theorem reports_rendering (dispatchId : String) (job : Job) :
    Reports J (runner.rendering dispatchId job) := by
  unfold rendering
  simp only
  split_ifs
  · refine (reports_excepting ?_).bind fun _ => trivial
    exact (reports_write _).bind fun _ => reports_publish job.id
  · refine ⟨recorded_silent fun _ => rfl, fun (step : EngineStep) _ => ?_⟩
    cases step with
    | event event =>
      refine (Script.Assuming.handle (reports_onEvent job.id event) fun _ => ?_).bind fun _ => ?_
      · trivial
      · trivial
    | wrote => trivial
    | returned => exact (reports_excepting (reports_publish job.id)).bind fun _ => trivial
    | cancelled => exact (reports_cancelIfRequested job.id).bind fun _ => trivial
    | failed error => exact (reports_fail job.id error).bind fun _ => trivial
    | interrupted => trivial

theorem reports_render (dispatchId : String) (job : Job) : Reports J (runner.render dispatchId job) := by
  unfold render
  refine Script.Assuming.handle ?_ fun _ => ?_
  · exact (reports_getAsset job.spec.sourceId).bind fun _ => trivial
  · exact (reports_fail job.id none).bind fun _ => trivial

theorem reports_releaseExecution : Reports J runner.releaseExecution := by
  unfold releaseExecution
  split
  · trivial
  · exact reports_transact (fun _ => trivial) fun _ => trivial

theorem reports_enter (dispatch : Dispatch) {job : Job} (hjob : J job) :
    Reports J (runner.enter dispatch job) := by
  unfold enter
  split
  · exact (reports_updateDispatch dispatch _).bind fun _ => trivial
  · exact (reports_cancelIfRequested job.id).bind fun _ => (reports_updateDispatch dispatch _).bind
      fun _ => trivial
  · exact (reports_update hjob _ _ (by simp)).bind fun _ => trivial
  · split_ifs
    · exact (reports_update hjob _ _ (by simp)).bind fun _ => trivial
    · trivial
  · trivial

theorem reports_script (next : Next) : Reports J (runner.script next) := by
  cases next with
  | run dispatchId =>
    refine Script.Assuming.handle ?_ fun _ => trivial
    refine (reports_getDispatch dispatchId).bind fun dispatch => ?_
    unfold proceed
    split_ifs
    · trivial
    · exact reports_getJob fun job hjob => reports_enter dispatch hjob
  | take dispatch job =>
    refine Script.Assuming.handle ?_ fun _ => trivial
    exact (reports_updateDispatch dispatch _).bind fun _ => trivial
  | render dispatchId job => exact (reports_render dispatchId job).handle fun _ => trivial
  | rendering dispatchId job => exact (reports_rendering dispatchId job).handle fun _ => trivial
  | finish dispatchId jobId output =>
    exact (reports_finishDispatch dispatchId jobId output).handle fun _ => trivial
  | release => exact reports_releaseExecution
  | finished => trivial

end LocalJobRunner

/-- What the API and the supervisors do: they update no job, and their new jobs are queued. -/
def Act.Ordinary : Act → Prop
  | .call asked => asked.Recorded fun _ => False
  | _ => True

theorem Call.Recorded.imp {J J' : Job → Prop} {call : Call} (h : call.Recorded J)
    (hJ : ∀ job, J job → J' job) :
    call.Recorded J' := by
  cases call with
  | update snapshot event eventType artifact lease failure now => exact ⟨hJ snapshot h.1, h.2⟩
  | _ => exact h

theorem Call.Recorded.admissible {past : List LocalDb} {call : Call}
    (h : call.Recorded fun job => ∃ old ∈ past, job ∈ old.jobs.rows) : call.Admissible past := by
  cases call with
  | createJobAndDispatch job dispatch idempotencyKey => exact h.1
  | update snapshot event eventType artifact lease failure now => exact h.1
  | _ => trivial

namespace Server
variable {s : Server} {act : Act}

/-- The jobs that were in the store at some time. -/
def Kept (s : Server) (job : Job) : Prop := ∃ d ∈ s.run.db :: s.run.past, job ∈ d.jobs.rows

/-- What a run keeps: the versions of the jobs only grow, and what is left of each script goes on to report
what it was given. -/
structure Reporting (s : Server) : Prop where
  later : ∀ d ∈ s.run.db :: s.run.past, Table.Later (fun job : Job => job.version) d.jobs s.run.db.jobs
  scripts : ∀ attempt ∈ s.attempts, ∀ J : Job → Prop, (∀ job, s.Kept job → J job) → Reports J attempt.script

theorem reporting_start (d : LocalDb) : ({ run := { db := d } } : Server).Reporting where
  later := by simpa using Table.Later.refl _
  scripts _ h := by cases h

theorem kept_step (act : Act) {job : Job} (h : s.Kept job) : (s.step act).Kept job := by
  unfold Kept at h ⊢
  rw [step_run]
  cases s.call? act with
  | none => exact h
  | some call =>
    obtain ⟨d, hd, hjob⟩ := h
    have hspec := Serial.step_spec Call.prog s.run call
    simp only [Option.elim_some]
    revert hspec
    generalize s.run.step Call.prog call = run'
    intro hspec
    cases hspec with
    | commit ok => exact ⟨d, List.mem_cons_of_mem _ hd, hjob⟩
    | fail error => exact ⟨d, List.mem_cons_of_mem _ hd, hjob⟩

theorem Reporting.recorded (h : s.Reporting) (hact : act.Ordinary) {call : Call}
    (hcall : s.call? act = some call) :
    call.Recorded s.Kept := by
  cases act with
  | call call' =>
    cases hcall
    exact Call.Recorded.imp hact fun job hfalse => hfalse.elim
  | spawn runner dispatchId => cases hcall
  | work i moment =>
    obtain ⟨attempt, hattempt, hcall⟩ := Option.bind_eq_some_iff.mp hcall
    have hreports := h.scripts attempt (List.mem_of_getElem? hattempt) s.Kept fun _ hjob => hjob
    unfold Attempt.call? at hcall
    cases hscript : attempt.script with
    | ret next => simp [hscript] at hcall
    | raise e => simp [hscript] at hcall
    | ask q k =>
      rw [hscript] at hcall hreports
      exact hreports.1 moment call hcall
  | beat i ttl now now' =>
    obtain ⟨attempt, -, hcall⟩ := Option.bind_eq_some_iff.mp hcall
    obtain ⟨lease, -, hcall⟩ := Option.bind_eq_some_iff.mp hcall
    cases hcall
    trivial

theorem truthful_answer (moment : Moment) (q : Query) (J : Job → Prop) (hJ : ∀ job, s.Kept job → J job) :
    q.Truthful J (q.answer s.run moment) := by
  cases q with
  | job jobId =>
    intro job hjob
    exact hJ job ⟨s.run.db, List.mem_cons_self, Table.mem_of_get? hjob⟩
  | _ => trivial

theorem Reporting.step (h : s.Reporting) (hact : act.Ordinary) : (s.step act).Reporting := by
  constructor
  · rw [step_run]
    cases hcall : s.call? act with
    | none => exact h.later
    | some call =>
      have hadmissible := (h.recorded hact hcall).admissible
      have hspec := Serial.step_spec Call.prog s.run call
      simp only [Option.elim_some]
      revert hspec
      generalize s.run.step Call.prog call = run'
      intro hspec d hd
      cases hspec with
      | commit ok =>
        have hbumps := ((call.effect hadmissible h.later).of_ok ok).bumps
        rcases List.mem_cons.mp hd with rfl | hd
        · exact .refl _
        · exact (h.later d hd).trans hbumps.later
      | fail error =>
        rcases List.mem_cons.mp hd with rfl | hd
        · exact h.later _ List.mem_cons_self
        · exact h.later d hd
  · intro attempt hattempt J hJ
    have hbefore : ∀ job, s.Kept job → J job := fun job hjob => hJ job (kept_step act hjob)
    cases act with
    | call call => exact h.scripts attempt hattempt J hbefore
    | spawn runner dispatchId =>
      rcases List.mem_append.mp hattempt with hattempt | hattempt
      · exact h.scripts attempt hattempt J hbefore
      · obtain rfl := List.mem_singleton.mp hattempt
        exact LocalJobRunner.reports_script (.run dispatchId)
    | work i moment =>
      rcases mem_modify hattempt with hattempt | ⟨old, hold, rfl⟩
      · exact h.scripts attempt hattempt J hbefore
      · have hreports := h.scripts old (List.mem_of_getElem? hold) J hbefore
        unfold Attempt.advance
        cases hscript : old.script with
        | ret next => exact LocalJobRunner.reports_script next
        | raise e =>
          simp only [hscript]
          trivial
        | ask q k =>
          rw [hscript] at hreports
          exact hreports.2 _ (truthful_answer moment q J hbefore)
    | beat i ttl now now' => exact h.scripts attempt hattempt J hbefore

theorem Reporting.failuresMatch_iff (h : s.Reporting) (hact : act.Ordinary)
    (hmatch : s.run.db.FailuresMatch) :
    (s.step act).run.db.FailuresMatch ↔ ∀ call, s.call? act = some call → ¬ call.Overtakes s.run.db := by
  rw [step_run]
  cases hcall : s.call? act with
  | none => exact iff_of_true hmatch fun _ hnone => by cases hnone
  | some call =>
    have hsingle : (∀ call', some call = some call' → ¬ call'.Overtakes s.run.db) ↔
        ¬ call.Overtakes s.run.db := by
      simp
    rw [hsingle]
    have hspec := Serial.step_spec Call.prog s.run call
    simp only [Option.elim_some]
    revert hspec
    generalize s.run.step Call.prog call = run'
    intro hspec
    cases hspec with
    | commit ok => exact call.failures_effect (h.recorded hact hcall) h.later hmatch ok
    | fail error =>
      refine iff_of_true hmatch fun hovertakes => ?_
      -- an overtaking claim goes through
      cases call with
      | claimExecution dispatchId limit ttl maxAttempts token now =>
        obtain ⟨row, hexhausts, -⟩ := hovertakes
        obtain ⟨d', hrun⟩ := exhausts_run hexhausts
        rw [Call.prog, Prog.run_bind, hrun] at error
        cases error
      | _ => exact hovertakes

/-- In every state of the run the jobs that have a failure are those that failed. -/
def FailuresMatchThroughout (s : Server) : List Act → Prop
  | [] => s.run.db.FailuresMatch
  | act :: acts => s.run.db.FailuresMatch ∧ (s.step act).FailuresMatchThroughout acts

/-- No claim of the run finds the attempts of a job used up whose cancellation is requested. -/
def NeverOvertakes (s : Server) : List Act → Prop
  | [] => True
  | act :: acts => (∀ call, s.call? act = some call → ¬ call.Overtakes s.run.db) ∧
    (s.step act).NeverOvertakes acts

theorem FailuresMatchThroughout.start {acts : List Act} (h : s.FailuresMatchThroughout acts) :
    s.run.db.FailuresMatch := by
  cases acts with
  | nil => exact h
  | cons act acts => exact h.1

end Server

/-- From the empty store, exactly the failed jobs have a failure as long as no claim overtakes a
cancellation. -/
theorem failures_match_iff {acts : List Act} (hacts : ∀ act ∈ acts, act.Ordinary) :
    ({ run := { db := {} } } : Server).FailuresMatchThroughout acts ↔
      ({ run := { db := {} } } : Server).NeverOvertakes acts := by
  have hreporting := Server.reporting_start {}
  have hmatch : ({ run := { db := {} } } : Server).run.db.FailuresMatch := by
    intro jobId
    simp
  revert hreporting hmatch
  generalize ({ run := { db := {} } } : Server) = s
  intro hreporting hmatch
  induction acts generalizing s with
  | nil => exact iff_of_true hmatch trivial
  | cons act acts ih =>
    have hact := hacts act List.mem_cons_self
    have hrest := ih (fun act hact => hacts act (List.mem_cons_of_mem _ hact)) (s.step act)
      (hreporting.step hact)
    have hstep := hreporting.failuresMatch_iff hact hmatch
    constructor
    · rintro ⟨-, hall⟩
      have hnext := hall.start
      exact ⟨hstep.mp hnext, (hrest hnext).mp hall⟩
    · rintro ⟨hnever, hall⟩
      have hnext := hstep.mpr hnever
      exact ⟨hmatch, (hrest hnext).mpr hall⟩

/-- A job is running when its cancellation is requested; its worker is lost, and no attempt is left. -/
def lostAfterCancellation : List Act :=
  [.call (.createJobAndDispatch Hosted.sampleJob ⟨"dispatch", "job", "pending", 0⟩ none),
    .call (.claimExecution "dispatch" 3 30 1 "first" 0),
    .spawn { lease := some ("dispatch", "first") } "dispatch"] ++
  List.replicate 5 (.work 0 {}) ++
  [.call (.requestCancellation "job"), .call (.claimExecution "dispatch" 3 30 1 "second" 40)]

theorem ordinary_lostAfterCancellation : ∀ act ∈ lostAfterCancellation, act.Ordinary := by
  intro act hact
  simp only [lostAfterCancellation, List.cons_append, List.nil_append, List.mem_cons, List.mem_append,
    List.mem_replicate, List.not_mem_nil, or_false] at hact
  rcases hact with rfl | rfl | rfl | ⟨-, rfl⟩ | rfl | rfl
  · exact ⟨rfl, rfl⟩
  all_goals trivial

theorem failures_match_iff_lost :
    ({ run := { db := {} } } : Server).FailuresMatchThroughout lostAfterCancellation ↔
      ({ run := { db := {} } } : Server).NeverOvertakes lostAfterCancellation :=
  failures_match_iff ordinary_lostAfterCancellation

/-- The cancelled job is left with the failure of a lost worker. -/
theorem cancelled_job_fails :
    ¬ ({ run := { db := {} } } : Server).FailuresMatchThroughout lostAfterCancellation := by
  have hlast : ∀ (acts : List Act) (s : Server), s.FailuresMatchThroughout acts →
      (s.after acts).run.db.FailuresMatch := by
    intro acts
    induction acts with
    | nil => exact fun s h => h
    | cons act acts ih => exact fun s h => ih (s.step act) h.2
  intro hthroughout
  have hmatch := hlast lostAfterCancellation _ hthroughout "job"
  have hfailure : ((({ run := { db := {} } } : Server).after lostAfterCancellation).run.db.failures.get?
    "job").isSome := by
    decide +kernel
  have hstatus : ((({ run := { db := {} } } : Server).after lostAfterCancellation).run.db.jobs.get?
      "job").map (·.status) = some .cancelled := by decide +kernel
  obtain ⟨job, hjob, hfailed⟩ := hmatch.mp hfailure
  rw [hjob, Option.map_some, hfailed] at hstatus
  cases hstatus

end KenkuiServer.Local
