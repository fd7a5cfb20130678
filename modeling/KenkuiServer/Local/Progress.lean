import KenkuiServer.Hosted.Calls
import KenkuiServer.Local.JobMoves
import KenkuiServer.Local.Worker
import Mathlib.Logic.Relation

/-! The progress that an attempt publishes: it is filtered against the snapshot that the callback has read,
and written over that snapshot only. -/
namespace KenkuiServer.Jobs

theorem Progress.init_valid {stage : String} {completed total : ℤ} (hstage : strip stage = stage ∧ stage ≠ "")
    (hcompleted : 0 ≤ completed) (htotal : completed ≤ total) : ∃ progress : Progress,
      Progress.init stage completed total = .ok progress ∧ progress.stage = stage ∧
        progress.completed = completed := by
  unfold Progress.init
  split
  · rename_i heq
    rw [required_eq hstage] at heq
    cases heq
  · rename_i heq
    rw [required_eq hstage] at heq
    cases heq
    have hbounds : ¬ (completed < 0 ∨ total < 0 ∨ completed > total) := by omega
    rw [dif_neg hbounds]
    exact ⟨_, rfl, rfl, Int.toNat_of_nonneg hcompleted⟩

theorem transition_progress {job next : Job} {stage : String} {completed total : ℤ}
    (h : transition job (.progressReported stage completed total) = .ok next) :
    job.status = .running ∧ ∃ progress, Progress.init stage completed total = .ok progress ∧
      next = { job with progress, version := job.version + 1 } := by
  cases hstatus : job.status with
  | running =>
    cases hprogress : Progress.init stage completed total with
    | error e => simp [transition, hstatus, hprogress, Bind.bind, Except.bind] at h
    | ok progress =>
      simp only [transition, hstatus, hprogress, Bind.bind, Except.bind, Pure.pure, Except.pure,
        Except.ok.injEq] at h
      exact ⟨rfl, progress, rfl, h.symm⟩
  | queued | cancelRequested | succeeded | failed | cancelled => simp [transition, hstatus] at h

theorem transition_progress_error {job : Job} {stage : String} {completed total : ℤ} {e : Error}
    (hstage : strip stage = stage ∧ stage ≠ "") (hcompleted : 0 ≤ completed) (htotal : completed ≤ total)
    (h : transition job (.progressReported stage completed total) = .error e) : job.status ≠ .running := by
  intro hrunning
  obtain ⟨progress, hprogress, -, -⟩ := Progress.init_valid hstage hcompleted htotal
  simp [transition, hrunning, hprogress, Bind.bind, Except.bind, Pure.pure, Except.pure] at h

end KenkuiServer.Jobs

namespace KenkuiServer.Local
open Txn Data Jobs Storage Repositories Worker

/-- What an execution reports: counts that are not negative, and stages that have a name. -/
structure ExecutionEvent.Valid (event : ExecutionEvent) : Prop where
  completed : ∀ completed, event.completed = some completed → 0 ≤ completed
  stage : ∀ stage, event.stage = some stage → strip stage = stage ∧ stage ≠ ""

/-- A call of anyone but the attempt with the lease: workers write a job under the leases of its dispatch, and
nobody else has this one. -/
def Call.Foreign (jobId : String) (lease : Lease) : Call → Prop
  | .update snapshot _ _ _ lease' _ _ => snapshot.id = jobId → ∃ token, lease' = some (lease.1, token) ∧
    token ≠ lease.2
  | _ => True

/-- The stores, what is left of the callback for the event delivered last, and the progress events that the
callback has recorded, newest first. -/
structure Rendering where
  run : LocalRun
  callback : Worker Unit := .ret ()
  recorded : List JobEvent := []

/-- The event that a query's call appends. -/
def Query.recorded (run : LocalRun) (moment : Moment) : Query → List JobEvent
  | .call f =>
    match ((f moment).prog.transaction run.db).1 with
    | .ok (.event e) => [e]
    | _ => []
  | _ => []

inductive Rendering.Step (runner : LocalJobRunner) (jobId : String) (lease : Lease) : Rendering →
    Rendering → Prop
  /-- Anyone else makes a call. -/
  | other {s : Rendering} (call : Call) (regular : Regular s.run call) (foreign : call.Foreign jobId lease) :
    Step runner jobId lease s { s with run := s.run.step Call.prog call }
  /-- The engine delivers an event, its callback being through with the one before. -/
  | event {s : Rendering} (event : ExecutionEvent) (valid : event.Valid)
    (through : ∀ q k, s.callback ≠ .ask q k) :
    Step runner jobId lease s { s with callback := runner.onEvent jobId event }
  | own {s : Rendering} (q : Query) (k : q.Answer → Worker Unit) (moment : Moment)
    (next : s.callback = .ask q k) :
    Step runner jobId lease s
      { run := (q.call? moment).elim s.run (s.run.step Call.prog)
        callback := k (q.answer s.run moment)
        recorded := q.recorded s.run moment ++ s.recorded }

/-- Of two progress events with one stage, the later one counts at least as far. -/
def NotBackwards (later earlier : JobEvent) : Prop :=
  later.progress.stage = earlier.progress.stage → earlier.progress.completed ≤ later.progress.completed

/-- What `onEvent` reports once it has read the job. -/
structure Publishes (current : Job) (stage : String) (completed total : ℤ) : Prop where
  started : current.status ≠ .queued
  unrequested : current.status ≠ .cancelRequested
  named : strip stage = stage ∧ stage ≠ ""
  nonneg : 0 ≤ completed
  bounded : completed ≤ total
  onward : stage = current.progress.stage → (current.progress.completed : ℤ) ≤ completed

def LocalJobRunner.report (runner : LocalJobRunner) (current : Job) (stage : String) (completed total : ℤ) :
    Worker Unit := do
  let _ ← runner.update current (.progressReported stage completed total) "progress" (fun _ => none) none

/-- Where the callback is. -/
inductive Handling (runner : LocalJobRunner) (jobId : String) (run : LocalRun) (callback : Worker Unit) : Prop
  | through (eq : callback = .ret ())
  | raised (e : Error) (row : Job) (eq : callback = .raise e) (found : run.db.jobs.get? jobId = some row)
      (ended : row.status.isTerminal = true)
  | reading (event : ExecutionEvent) (valid : event.Valid) (eq : callback = runner.onEvent jobId event)
  | publishing (current : Job) (d : LocalDb) (kept : d ∈ run.db :: run.past)
    (read : d.jobs.get? jobId = some current)
      (stage : String) (completed total : ℤ) (publishes : Publishes current stage completed total)
      (eq : callback = runner.report current stage completed total)

section
variable {runner : LocalJobRunner} {jobId : String} {lease : Lease} {s : LocalRun} {d₀ : LocalDb}
    {callback : Worker Unit}

theorem onEvent_read (runner : LocalJobRunner) (jobId : String) {event : ExecutionEvent}
    (hvalid : event.Valid) :
    ∃ k, runner.onEvent jobId event = .ask (.job jobId) k ∧ ∀ current : Job, current.status ≠ .queued →
      k (some current) = .ret () ∨ ∃ stage completed total, Publishes current stage completed total ∧
        k (some current) = runner.report current stage completed total := by
  refine ⟨_, rfl, fun current hstarted => ?_⟩
  simp only [Script.bind, pure]
  split_ifs with hrequested
  · left
    rfl
  cases hcompleted : event.completed with
  | none =>
    left
    rfl
  | some completed =>
    simp only
    split_ifs with hskipped
    · left
      rfl
    rw [not_or, not_and, not_lt, not_lt] at hskipped
    obtain ⟨honward, hbounded⟩ := hskipped
    right
    refine ⟨_, completed, _, ?_, rfl⟩
    have hnamed : strip (event.stage.getD current.progress.stage) = event.stage.getD current.progress.stage ∧
        event.stage.getD current.progress.stage ≠ "" := by
      cases hstage : event.stage with
      | none => exact current.progress.named
      | some stage => exact hvalid.stage stage hstage
    constructor
    · exact hstarted
    · exact hrequested
    · exact hnamed
    · exact hvalid.completed completed hcompleted
    · exact hbounded
    · exact honward

theorem report_eq (runner : LocalJobRunner) (current : Job) (stage : String) (completed total : ℤ) :
    ∃ k : Except Error Reply → Worker Unit, runner.report current stage completed total =
      .ask (.call fun moment =>
        .update current (.progressReported stage completed total) "progress" none runner.lease none
          moment.now) k ∧
      (∀ reply, k (.ok reply) = .ret ()) ∧ k (.error .staleWrite) = .ret () ∧
      ∀ e, e ≠ .staleWrite → k (.error e) = .raise e := by
  refine ⟨_, rfl, fun reply => rfl, rfl, fun e he => ?_⟩
  simp only [Script.bind, if_neg he]

theorem Handling.later (h : Handling runner jobId s callback) (hreach : Serial.Reach Call.prog Regular d₀ s)
    {call : Call} (hcall : Regular s call) : Handling runner jobId (s.step Call.prog call) callback := by
  cases h with
  | through eq => exact .through eq
  | raised e row eq found ended =>
    obtain ⟨next, hnext, hmove⟩ := step_job_move regular_starts hreach hcall found
    have hsame : next = row := hmove.since.settled ended
    rw [hsame] at hnext
    exact .raised e row eq hnext ended
  | reading event valid eq => exact .reading event valid eq
  | publishing current d kept read stage completed total publishes eq =>
    have hkept : d ∈ (s.step Call.prog call).db :: (s.step Call.prog call).past := by
      rw [Serial.step_past]
      exact List.mem_cons_of_mem _ kept
    exact .publishing current d hkept read stage completed total publishes eq

/-- What a progress report comes to: it is recorded over the snapshot it was computed from, or the job is over
or has moved on. -/
inductive Published (s : LocalRun) (lease : Lease) (current : Job) (stage : String) (completed total : ℤ) :
    Except Error Reply → LocalRun → Prop
  | recorded (e : JobEvent) (next : Job) (s' : LocalRun) (held : s.db.tokenOf lease.1 = some lease.2)
      (current_row : s.db.jobs.get? current.id = some current) (running : current.status = .running)
      (job : e.jobId = current.id) (stage_eq : e.progress.stage = stage)
      (completed_eq : (e.progress.completed : ℤ) = completed)
      (next_row : s'.db.jobs.get? current.id = some next) (next_status : next.status = .running)
      (progress : next.progress = e.progress) :
    Published s lease current stage completed total (.ok (.event e)) s'
  | stale (s' : LocalRun) (db : s'.db = s.db) :
    Published s lease current stage completed total (.error .staleWrite) s'
  | ended (e : Error) (s' : LocalRun) (row : Job) (db : s'.db = s.db)
    (found : s.db.jobs.get? current.id = some row)
      (settled : row.status.isTerminal = true) : Published s lease current stage completed total (.error e) s'

theorem update_published (lease : Lease) {now : Time} (hreach : Serial.Reach Call.prog Regular d₀ s)
    {d : LocalDb} (hkept : d ∈ s.db :: s.past) {current : Job} (hread : d.jobs.get? jobId = some current)
    {stage : String} {completed total : ℤ}
    (hpublishes : Publishes current stage completed total) {call : Call}
    (hcall : call = .update current (.progressReported stage completed total)
      "progress" none (some lease) none now) :
    Published s lease current stage completed total (call.prog.transaction s.db).1
      (s.step Call.prog call) := by
  obtain ⟨row, hrow, hsince⟩ := reach_since regular_starts hreach d hkept jobId current hread
  have hid : current.id = jobId := Table.key_of_get? hread
  rw [← hid] at hrow
  have hpast := reach_later regular_starts hreach
  have hmem : ∃ old ∈ s.db :: s.past, current ∈ old.jobs.rows := ⟨d, hkept, Table.mem_of_get? hread⟩
  cases ht : transition current (.progressReported stage completed total) with
  | error e =>
    have hrun : call.prog.run s.db = .error e := by
      simp only [hcall, Call.prog, ht]
      rfl
    have hidle := transition_progress_error hpublishes.named hpublishes.nonneg hpublishes.bounded ht
    have hover : current.status.isTerminal = true := by
      cases hstatus : current.status with
      | queued => exact absurd hstatus hpublishes.started
      | running => exact absurd hstatus hidle
      | cancelRequested => exact absurd hstatus hpublishes.unrequested
      | succeeded | failed | cancelled => rfl
    have hsame : row = current := hsince.settled hover
    rw [Prog.transaction_of_error hrun, Serial.step, hrun]
    exact .ended e _ row rfl hrow (by rw [hsame, hover])
  | ok job =>
    obtain ⟨hrunning, progress, hprogress, hjob⟩ := transition_progress ht
    have hadvances := transition_advances ht
    cases hrun : call.prog.run s.db with
    | error e =>
      have hstale : e = .staleWrite := by
        have hspec : ∀ row', s.db.jobs.get? job.id = some row' → row'.spec = job.spec := by
          intro row' hrow'
          rw [hadvances.id, hrow] at hrow'
          rw [← Option.some.inj hrow', hsince.spec, hadvances.spec]
        have hupdate : (updateJobAndAppendEvent job ((job.version : ℤ) - 1) "progress" none (some lease) none
            now).Outcome (· = .staleWrite) (fun _ _ => True) s.db :=
          (update_refused (by omega) hspec (by decide)).imp (fun _ hrefused => hrefused.1)
            fun _ _ _ => trivial
        have houtcome : call.prog.Outcome (· = .staleWrite) (fun _ _ => True) s.db := by
          simp only [hcall, Call.prog, ht]
          exact hupdate.bind fun _ _ _ => trivial
        exact houtcome.of_error hrun
      rw [Prog.transaction_of_error hrun, Serial.step, hrun, hstale]
      exact .stale _ rfl
    | ok result =>
      obtain ⟨reply, d'⟩ := result
      rw [Prog.transaction_of_ok hrun, Serial.step, hrun]
      rw [hcall] at hrun
      simp only [Call.prog, ht] at hrun
      obtain ⟨e, hupdate, rfl⟩ := Prog.run_map_ok hrun
      have hupdated := update_outcome.of_ok hupdate
      have hcurrent := update_replaces hmem hpast ht hupdated
      obtain ⟨stored, hstored, htoken, -⟩ := hupdated.lease
      have hheld : s.db.tokenOf lease.1 = some lease.2 := by
        rw [LocalDb.tokenOf, hstored, ← htoken]
        rfl
      obtain ⟨progress', hprogress', hstage, hcompleted⟩ :=
        Progress.init_valid hpublishes.named hpublishes.nonneg hpublishes.bounded
      have hsame : job.progress = progress' := by
        rw [hprogress] at hprogress'
        rw [hjob, Except.ok.inj hprogress']
      have hevent : e.progress = progress' := by rw [hupdated.appended.progress, hsame]
      have hnext : d'.jobs.get? current.id = some job := by
        rw [hupdated.result, ← hadvances.id]
        exact Table.get?_put_self _ _
      refine .recorded e job _ hheld hcurrent hrunning ?_ ?_ ?_ hnext ?_ ?_
      · rw [hupdated.appended.jobId, hadvances.id]
      · rw [hevent, hstage]
      · rw [hevent, hcompleted]
      · rw [hjob]
        exact hrunning
      · rw [hsame, hevent]

/-- A request to cancel the job has been committed. -/
def CancelRequested (jobId : String) (s : LocalRun) : Prop :=
  ∃ reply, (.requestCancellation jobId, reply) ∈ s.log

/-- A job that was asked to cancel neither waits nor runs. -/
def Stopping (jobId : String) (d : LocalDb) : Prop :=
  ∃ row, d.jobs.get? jobId = some row ∧ row.status ≠ .queued ∧ row.status ≠ .running

theorem JobMove.stopping {d : LocalDb} {call : Call} {row next : Job} (h : JobMove d call row next)
    (hrow : row.status ≠ .queued ∧ row.status ≠ .running) : next.status ≠ .queued ∧
      next.status ≠ .running := by
  have hover : row.status.isTerminal = true ∨ row.status = .cancelRequested := by
    cases hstatus : row.status with
    | queued => exact absurd hstatus hrow.1
    | running => exact absurd hstatus hrow.2
    | cancelRequested => exact Or.inr rfl
    | succeeded | failed | cancelled => exact Or.inl rfl
  rcases hover with hsettled | hrequested
  · rw [h.since.settled hsettled]
    exact hrow
  · rcases h.since.requested hrequested with hsame | hcancelled
    · rw [hsame]
      exact hrow
    · simp [hcancelled]

theorem requested_stopping {d d' : LocalDb} {reply : Reply}
    (h : (Call.requestCancellation jobId).prog.run d = .ok (reply, d')) : Stopping jobId d' := by
  obtain ⟨job, hrun, -⟩ := Prog.run_map_ok h
  cases cancel_outcome.of_ok hrun with
  | already found settled result =>
    rw [result]
    refine ⟨job, found, ?_⟩
    rcases settled with hover | hrequested
    · constructor <;> intro hstatus <;> rw [hstatus] at hover <;> cases hover
    · simp [hrequested]
  | moved row e found going cancelled appended result =>
    have hrow : row.id = jobId := Table.key_of_get? found
    have hid : job.id = jobId := by
      rw [cancelled]
      exact hrow
    have hget : d'.jobs.get? jobId = some job := by
      rw [result, ← hid]
      exact Table.get?_put_self _ _
    have hstatus : job.status = .cancelled ∨ job.status = .cancelRequested := by
      rw [cancelled]
      exact cancellation_status _ _
    refine ⟨job, hget, ?_⟩
    rcases hstatus with hstatus | hstatus <;> simp [hstatus]

theorem reach_stopping (h : Serial.Reach Call.prog Regular d₀ s) (hrequested : CancelRequested jobId s) :
    Stopping jobId s.db := by
  induction h with
  | init =>
    obtain ⟨reply, hmem⟩ := hrequested
    cases hmem
  | step call reach allowed ih =>
    rename_i s
    have hstays : Stopping jobId s.db → Stopping jobId (s.step Call.prog call).db := by
      intro hstopping
      obtain ⟨row, hrow, hstatus⟩ := hstopping
      obtain ⟨next, hnext, hmove⟩ := step_job_move regular_starts reach allowed hrow
      exact ⟨next, hnext, hmove.stopping hstatus⟩
    have hspec := Serial.step_spec Call.prog s call
    revert hspec hrequested hstays
    generalize s.step Call.prog call = s'
    intro hrequested hstays hspec
    cases hspec with
    | fail error => exact hstays (ih hrequested)
    | commit ran =>
      obtain ⟨reply, hmem⟩ := hrequested
      rcases List.mem_cons.mp hmem with hentry | hmem
      · cases hentry
        exact requested_stopping ran
      · exact hstays (ih ⟨reply, hmem⟩)

/-- Between the steps of the attempt and of everyone else. -/
structure Rendering.Sound (runner : LocalJobRunner) (jobId : String) (lease : Lease) (d₀ : LocalDb)
    (s : Rendering) :
    Prop where
  reach : Serial.Reach Call.prog Regular d₀ s.run
  issued : lease.2 ∈ tokensOf lease.1 s.run.log
  started : ∃ row, s.run.db.jobs.get? jobId = some row ∧ row.status ≠ .queued
  handling : Handling runner jobId s.run s.callback
  /-- While the attempt holds its lease, the job has the progress that the attempt recorded last. -/
  latest : ∀ e rest row, s.recorded = e :: rest → s.run.db.tokenOf lease.1 = some lease.2 →
    s.run.db.jobs.get? jobId = some row → row.progress = e.progress
  mine : ∀ e ∈ s.recorded, e.jobId = jobId
  onward : s.recorded.IsChain NotBackwards

/-- Nobody else moves the job's progress while the attempt has the current token. -/
theorem foreign_progress (hreach : Serial.Reach Call.prog Regular d₀ s) {call : Call} (hcall : Regular s call)
    (hforeign : call.Foreign jobId lease) (htoken : s.db.tokenOf lease.1 = some lease.2) {row : Job}
    (hrow : s.db.jobs.get? jobId = some row) :
    ∃ next, (s.step Call.prog call).db.jobs.get? jobId = some next ∧ next.progress = row.progress := by
  obtain ⟨next, hnext, hmove⟩ := step_job_move regular_starts hreach hcall hrow
  refine ⟨next, hnext, ?_⟩
  cases hmove with
  | same same => rw [same]
  | updated event eventType artifact lease' failure now by_update moved held =>
    rw [by_update] at hforeign
    obtain ⟨token, hlease, hother⟩ := hforeign (Table.key_of_get? hrow)
    rw [hlease] at held
    obtain ⟨stored, hstored, hstored_token, -⟩ := held
    rw [LocalDb.tokenOf, hstored, Option.map_some, hstored_token, Option.some.injEq] at htoken
    exact absurd htoken hother
  | cancelled by_request going status moved =>
    rw [moved]
    rfl
  | lost going moved =>
    rw [moved]
    rfl

namespace Rendering.Sound
variable {s s' : Rendering}

theorem other (h : s.Sound runner jobId lease d₀) {call : Call} (hcall : Regular s.run call)
    (hforeign : call.Foreign jobId lease) :
    Rendering.Sound runner jobId lease d₀ { s with run := s.run.step Call.prog call } where
  reach := .step call h.reach hcall
  issued := tokensOf_step h.issued
  started := by
    obtain ⟨row, hrow, hstatus⟩ := h.started
    obtain ⟨next, hnext, hmove⟩ := step_job_move regular_starts h.reach hcall hrow
    exact ⟨next, hnext, hmove.since.started hstatus⟩
  handling := h.handling.later h.reach hcall
  latest := by
    intro e rest row hrecorded htoken hrow
    have hheld : s.run.db.tokenOf lease.1 = some lease.2 := by
      by_contra hlost
      exact step_superseded h.issued hcall.2 hlost htoken
    obtain ⟨before, hbefore, -⟩ := h.started
    obtain ⟨next, hnext, hprogress⟩ := foreign_progress h.reach hcall hforeign hheld hbefore
    have hsame : row = next := Option.some.inj (hrow.symm.trans hnext)
    rw [hsame, hprogress, h.latest e rest before hrecorded hheld hbefore]
  mine := h.mine
  onward := h.onward

theorem idle (h : s.Sound runner jobId lease d₀) {run : LocalRun} {callback : Worker Unit}
    (hreach : Serial.Reach Call.prog Regular d₀ run) (hissued : lease.2 ∈ tokensOf lease.1 run.log)
    (hdb : run.db = s.run.db) (hcallback : Handling runner jobId run callback) :
    Rendering.Sound runner jobId lease d₀ ⟨run, callback, s.recorded⟩ where
  reach := hreach
  issued := hissued
  started := by
    rw [hdb]
    exact h.started
  handling := hcallback
  latest := by
    rw [hdb]
    exact h.latest
  mine := h.mine
  onward := h.onward

theorem recorded (h : s.Sound runner jobId lease d₀) {run : LocalRun} {callback : Worker Unit}
    (hreach : Serial.Reach Call.prog Regular d₀ run) (hissued : lease.2 ∈ tokensOf lease.1 run.log)
    (hcallback : Handling runner jobId run callback) {e : JobEvent} {row : Job}
    (hrow : run.db.jobs.get? jobId = some row) (hstatus : row.status ≠ .queued)
    (hprogress : row.progress = e.progress) (hmine : e.jobId = jobId)
    (honward : ∀ earlier rest, s.recorded = earlier :: rest → NotBackwards e earlier) :
    Rendering.Sound runner jobId lease d₀ ⟨run, callback, e :: s.recorded⟩ where
  reach := hreach
  issued := hissued
  started := ⟨row, hrow, hstatus⟩
  handling := hcallback
  latest := by
    intro e' rest row' hrecorded _ hrow'
    have hevent : e' = e := (List.cons.inj hrecorded).1.symm
    have hsame : row' = row := Option.some.inj (hrow'.symm.trans hrow)
    rw [hevent, hsame, hprogress]
  mine := by
    intro e' hmem
    rcases List.mem_cons.mp hmem with hsame | hmem
    · rw [hsame, hmine]
    · exact h.mine e' hmem
  onward := by
    cases hrecorded : s.recorded with
    | nil => exact .singleton e
    | cons earlier rest =>
      have hchain := h.onward
      rw [hrecorded] at hchain
      exact .cons_cons (honward earlier rest hrecorded) hchain

theorem publish (h : s.Sound runner jobId lease d₀) (hlease : runner.lease = some lease) {d : LocalDb}
    (hkept : d ∈ s.run.db :: s.run.past) {current : Job} (hread : d.jobs.get? jobId = some current)
    {stage : String} {completed total : ℤ} (hpublishes : Publishes current stage completed total)
    (heq : s.callback = runner.report current stage completed total) {q : Query} {k : q.Answer → Worker Unit}
    (moment : Moment) (hnext : s.callback = .ask q k) :
    Rendering.Sound runner jobId lease d₀
      { run := (q.call? moment).elim s.run (s.run.step Call.prog)
        callback := k (q.answer s.run moment)
        recorded := q.recorded s.run moment ++ s.recorded } := by
  obtain ⟨k', hreport, hok, hstale, hraise⟩ := report_eq runner current stage completed total
  rw [heq, hreport] at hnext
  cases hnext
  have hid : current.id = jobId := Table.key_of_get? hread
  obtain ⟨call, hcall⟩ : ∃ call : Call,
      call = .update current (.progressReported stage completed total) "progress"
      none runner.lease none moment.now := ⟨_, rfl⟩
  have hregular : Regular s.run call := by
    rw [hcall]
    exact ⟨⟨d, hkept, Table.mem_of_get? hread⟩, trivial⟩
  have hpublished := update_published lease h.reach hkept hread hpublishes (hlease ▸ hcall)
  have hreach := h.reach.step call hregular
  have hissued : lease.2 ∈ tokensOf lease.1 (s.run.step Call.prog call).log := tokensOf_step h.issued
  simp only [Query.call?, Option.elim_some, Query.recorded, Query.answer, ← hcall]
  revert hpublished hreach hissued
  generalize s.run.step Call.prog call = run
  generalize (call.prog.transaction s.run.db).1 = answer
  intro hpublished hreach hissued
  cases hpublished with
  | recorded e next run held current_row running job stage_eq completed_eq next_row next_status progress =>
    rw [hid] at current_row next_row
    have hstarted : next.status ≠ .queued := by simp [next_status]
    have hmine : e.jobId = jobId := by rw [job, hid]
    refine h.recorded hreach hissued (.through (hok _)) next_row hstarted progress hmine
      fun earlier rest hrecorded => ?_
    -- the snapshot was the job as the attempt had left it
    have hlatest := h.latest earlier rest current hrecorded held current_row
    intro hstage
    have honward := hpublishes.onward (by rw [← stage_eq, hstage, hlatest])
    rw [hlatest] at honward
    omega
  | stale run db => exact h.idle hreach hissued db (.through hstale)
  | ended e run row db found settled =>
    refine h.idle hreach hissued db ?_
    by_cases he : e = .staleWrite
    · rw [he]
      exact .through hstale
    · have hfound : run.db.jobs.get? jobId = some row := by rw [db, ← hid, found]
      exact .raised e row (hraise e he) hfound settled

theorem read (h : s.Sound runner jobId lease d₀) {event : ExecutionEvent} (hvalid : event.Valid)
    (heq : s.callback = runner.onEvent jobId event) {q : Query} {k : q.Answer → Worker Unit}
    (moment : Moment) (hnext : s.callback = .ask q k) :
    Rendering.Sound runner jobId lease d₀
      { run := (q.call? moment).elim s.run (s.run.step Call.prog)
        callback := k (q.answer s.run moment)
        recorded := q.recorded s.run moment ++ s.recorded } := by
  obtain ⟨k', honEvent, hread⟩ := onEvent_read runner jobId hvalid
  rw [heq, honEvent] at hnext
  cases hnext
  obtain ⟨row, hrow, hstarted⟩ := h.started
  simp only [Query.call?, Option.elim_none, Query.recorded, Query.answer, hrow, List.nil_append]
  refine h.idle h.reach h.issued rfl ?_
  rcases hread row hstarted with hthrough | ⟨stage, completed, total, hpublishes, hreport⟩
  · exact .through hthrough
  · exact .publishing row s.run.db List.mem_cons_self hrow stage completed total hpublishes hreport

theorem step (h : s.Sound runner jobId lease d₀) (hlease : runner.lease = some lease)
    (hstep : Rendering.Step runner jobId lease s s') : s'.Sound runner jobId lease d₀ := by
  cases hstep with
  | other call regular foreign => exact h.other regular foreign
  | event event valid through => exact h.idle h.reach h.issued rfl (.reading event valid rfl)
  | own q k moment next =>
    cases h.handling with
    | through eq =>
      rw [eq] at next
      cases next
    | raised e row eq found ended =>
      rw [eq] at next
      cases next
    | reading event valid eq => exact h.read valid eq moment next
    | publishing current d kept read stage completed total publishes eq =>
      exact h.publish hlease kept read publishes eq moment next

theorem run (h : s.Sound runner jobId lease d₀) (hlease : runner.lease = some lease)
    (hsteps : Relation.ReflTransGen (Rendering.Step runner jobId lease) s s') :
    s'.Sound runner jobId lease d₀ := by
  induction hsteps with
  | refl => exact h
  | tail steps step ih => exact ih.step hlease step

/-- Once a cancellation has been committed, a step records nothing. -/
theorem step_requested (h : s.Sound runner jobId lease d₀) (hlease : runner.lease = some lease)
    (hrequested : CancelRequested jobId s.run) (hstep : Rendering.Step runner jobId lease s s') :
    s'.recorded = s.recorded ∧ CancelRequested jobId s'.run := by
  obtain ⟨reply, hmem⟩ := hrequested
  obtain ⟨row, hrow, hstatus⟩ := reach_stopping h.reach ⟨reply, hmem⟩
  cases hstep with
  | other call regular foreign => exact ⟨rfl, reply, Serial.mem_step_log hmem⟩
  | event event valid through => exact ⟨rfl, reply, hmem⟩
  | own q k moment next =>
    cases h.handling with
    | through eq =>
      rw [eq] at next
      cases next
    | raised e row eq found ended =>
      rw [eq] at next
      cases next
    | reading event valid eq =>
      obtain ⟨k', honEvent, -⟩ := onEvent_read runner jobId valid
      rw [eq, honEvent] at next
      cases next
      exact ⟨rfl, reply, hmem⟩
    | publishing current d kept read stage completed total publishes eq =>
      obtain ⟨k', hreport, -⟩ := report_eq runner current stage completed total
      rw [eq, hreport] at next
      cases next
      have hid : current.id = jobId := Table.key_of_get? read
      refine ⟨?_, reply, Serial.mem_step_log hmem⟩
      obtain ⟨call, hcall⟩ : ∃ call : Call, call = .update current (.progressReported stage completed total)
          "progress" none runner.lease none moment.now := ⟨_, rfl⟩
      have hpublished := update_published lease h.reach kept read publishes (hlease ▸ hcall)
      simp only [Query.recorded, ← hcall]
      revert hpublished
      generalize s.run.step Call.prog call = run
      generalize (call.prog.transaction s.run.db).1 = answer
      intro hpublished
      cases hpublished with
      | recorded e next run held current_row running =>
        rw [hid, hrow] at current_row
        rw [Option.some.inj current_row] at hstatus
        exact absurd running hstatus.2
      | stale run db => rfl
      | ended e run row db found settled => rfl

end Rendering.Sound

/-- Whatever an execution reports and whoever else writes, the callback raises over a job that is over only,
and what it records is within its total, does not run backwards within a stage, and ends with a
cancellation. -/
theorem progress_published {run : LocalRun} {s : Rendering} (hlease : runner.lease = some lease)
    (hreach : Serial.Reach Call.prog Regular d₀ run) (hissued : lease.2 ∈ tokensOf lease.1 run.log)
    (hstarted : ∃ row, run.db.jobs.get? jobId = some row ∧ row.status ≠ .queued)
    (hsteps : Relation.ReflTransGen (Rendering.Step runner jobId lease) { run } s) :
    (∀ e, s.callback = .raise e → ∃ row, s.run.db.jobs.get? jobId = some row ∧ row.status.isTerminal = true) ∧
      (∀ e ∈ s.recorded, e.jobId = jobId ∧ 0 ≤ e.progress.completed ∧
        e.progress.completed ≤ e.progress.total) ∧
      s.recorded.IsChain NotBackwards ∧
      (CancelRequested jobId s.run → ∀ s', Relation.ReflTransGen (Rendering.Step runner jobId lease) s s' →
        s'.recorded = s.recorded) := by
  have hstart : Rendering.Sound runner jobId lease d₀ { run } := by
    constructor
    · exact hreach
    · exact hissued
    · exact hstarted
    · exact .through rfl
    · intro e rest row hrecorded
      cases hrecorded
    · intro e hmem
      cases hmem
    · exact .nil
  have hsound := hstart.run hlease hsteps
  refine ⟨fun e hraised => ?_, fun e hmem =>
    ⟨hsound.mine e hmem, Nat.zero_le _, e.progress.bounded⟩, hsound.onward, fun hrequested s' hlater => ?_⟩
  · cases hsound.handling with
    | through eq =>
      rw [eq] at hraised
      cases hraised
    | raised e row eq found ended => exact ⟨row, found, ended⟩
    | reading event valid eq =>
      obtain ⟨k, honEvent, -⟩ := onEvent_read runner jobId valid
      rw [eq, honEvent] at hraised
      cases hraised
    | publishing current d kept read stage completed total publishes eq =>
      obtain ⟨k, hreport, -⟩ := report_eq runner current stage completed total
      rw [eq, hreport] at hraised
      cases hraised
  · have hkept : s'.recorded = s.recorded ∧ CancelRequested jobId s'.run := by
      induction hlater with
      | refl => exact ⟨rfl, hrequested⟩
      | tail steps step ih =>
        obtain ⟨hsame, hstill⟩ := ih
        obtain ⟨hnext, hstill'⟩ := (hsound.run hlease steps).step_requested hlease hstill step
        exact ⟨hnext.trans hsame, hstill'⟩
    exact hkept.1

/-- A job that its worker has started under the lease it was given. -/
def startedRun : LocalRun :=
  ((({ db := {} } : LocalRun).step Call.prog
    (.createJobAndDispatch Hosted.sampleJob ⟨"dispatch", "job", "pending", 0⟩ none)).step Call.prog
      (.claimExecution "dispatch" 3 30 1 "token" 0)).step Call.prog
        (.update Hosted.sampleJob .dispatchRequested "running" none (some ("dispatch", "token")) none 1)

def startedJob : Job := Hosted.sampleJob.set .running 1 .running

def startedRunner : LocalJobRunner := { lease := some ("dispatch", "token") }

def chapter (completed : ℕ) : ExecutionEvent :=
    { completed := some completed, total := some 3, stage := some "synthesis" }

theorem chapter_valid (completed : ℕ) : (chapter completed).Valid := by
  constructor
  · intro count hcount
    cases hcount
    omega
  · intro stage hstage
    cases hstage
    decide +kernel

/-- The callback's next query is answered. -/
def Rendering.own (s : Rendering) : Rendering :=
  match s.callback with
  | .ask q k =>
    { run := (q.call? {}).elim s.run (s.run.step Call.prog)
      callback := k (q.answer s.run {})
      recorded := q.recorded s.run {} ++ s.recorded }
  | _ => s

def Rendering.through (s : Rendering) : Bool :=
  match s.callback with
  | .ask _ _ => false
  | _ => true

/-- An event is delivered, and the callback for it runs to its end. -/
def Rendering.deliver (runner : LocalJobRunner) (jobId : String) (event : ExecutionEvent)
    (s : Rendering) : Rendering :=
  Rendering.own (Rendering.own { s with callback := runner.onEvent jobId event })

theorem Rendering.own_steps (s : Rendering) :
    Relation.ReflTransGen (Rendering.Step runner jobId lease) s s.own := by
  unfold Rendering.own
  split
  · rename_i q k hnext
    exact .single (.own q k {} hnext)
  · exact .refl

theorem Rendering.deliver_steps {s : Rendering} {event : ExecutionEvent} (hvalid : event.Valid)
    (hthrough : s.through = true) :
    Relation.ReflTransGen (Rendering.Step runner jobId lease) s (s.deliver runner jobId event) := by
  have hdelivered : Rendering.Step runner jobId lease s
      { s with callback := runner.onEvent jobId event } := by
    refine .event event hvalid fun q k hnext => ?_
    simp [Rendering.through, hnext] at hthrough
  exact ((Relation.ReflTransGen.single hdelivered).trans (Rendering.own_steps _)).trans
    (Rendering.own_steps _)

/-- Two of three chapters are reported, then the job is asked to stop, and the report of the third is not
recorded. -/
theorem progress_published_first :
    let requested : Rendering :=
      let s := (({ run := startedRun } : Rendering).deliver startedRunner "job" (chapter 1)).deliver
        startedRunner "job"
        (chapter 2)
      { s with run := s.run.step Call.prog (.requestCancellation "job") }
    let s := requested.deliver startedRunner "job" (chapter 3)
    CancelRequested "job" requested.run ∧
      s.recorded.map (fun e => (e.progress.stage, e.progress.completed, e.progress.total)) =
        [("synthesis", 2, 3), ("synthesis", 1, 3)] ∧
      (∀ e, s.callback = .raise e → ∃ row, s.run.db.jobs.get? "job" = some row ∧
        row.status.isTerminal = true) ∧
      (∀ e ∈ s.recorded, e.jobId = "job" ∧ 0 ≤ e.progress.completed ∧
        e.progress.completed ≤ e.progress.total) ∧
      s.recorded.IsChain NotBackwards ∧
      (CancelRequested "job" s.run → ∀ s',
        Relation.ReflTransGen (Rendering.Step startedRunner "job" ("dispatch", "token")) s s' →
        s'.recorded = s.recorded) := by
  intro requested s
  have hreach : Serial.Reach Call.prog Regular {} startedRun := by
    refine .step _ (.step _ (.step _ .init ⟨rfl, trivial⟩) ⟨trivial, ?_⟩) ⟨?_, trivial⟩
    · unfold FreshTokens
      decide +kernel
    · exact ⟨_, List.mem_cons_self, by decide +kernel⟩
  have hstarted : ∃ row, startedRun.db.jobs.get? "job" = some row ∧ row.status ≠ .queued :=
    ⟨startedJob, by decide +kernel, by decide⟩
  have hfirst : Relation.ReflTransGen (Rendering.Step startedRunner "job" ("dispatch", "token"))
      { run := startedRun } _ :=
    Rendering.deliver_steps (chapter_valid 1) rfl
  have hreported := hfirst.trans (Rendering.deliver_steps (chapter_valid 2) (by decide +kernel))
  have hrequested := hreported.tail (.other (.requestCancellation "job") ⟨trivial, trivial⟩ trivial)
  have hsteps := hrequested.trans (Rendering.deliver_steps (chapter_valid 3) (by decide +kernel))
  have hcancelled : CancelRequested "job" requested.run := by
    have hok : ((Call.prog (.requestCancellation "job")).run
        ((({ run := startedRun } : Rendering).deliver startedRunner
        "job" (chapter 1)).deliver startedRunner "job" (chapter 2)).run.db).toOption.isSome =
          true := by decide +kernel
    obtain ⟨⟨reply, d⟩, hrun⟩ := Option.isSome_iff_exists.mp hok
    refine ⟨reply, ?_⟩
    show (_, reply) ∈ (Serial.step _ _ _).log
    unfold Serial.step
    split
    · rename_i r d' hrun'
      rw [hrun'] at hrun
      cases hrun
      exact List.mem_cons_self
    · rename_i e hrun'
      rw [hrun'] at hrun
      cases hrun
  exact ⟨hcancelled, by decide +kernel, progress_published rfl hreach (by decide +kernel) hstarted hsteps⟩

end

end KenkuiServer.Local
