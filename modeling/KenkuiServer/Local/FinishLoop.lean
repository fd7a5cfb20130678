import KenkuiServer.Hosted.Calls
import KenkuiServer.Local.Dispatches
import KenkuiServer.Local.Worker
import Mathlib.Logic.Relation

/-! The loop of `_finish_dispatch`. It has no counter: it ends since a job whose cancellation is requested
changes in one way only, and a lease that was lost does not come back. -/
namespace KenkuiServer.Storage
open Txn Jobs Repositories
variable {d : LocalDb}

/-- The lease has been replaced or has expired by `clock`. -/
def LocalDb.LeaseLost (d : LocalDb) (clock : Time) : Option Lease → Prop
  | none => False
  | some (dispatchId, token) => ∀ row, d.leases.get? dispatchId = some row → row.token = token →
    row.expiresAt ≤ clock

section
variable {clock now : Time} {lease : Option Lease}

theorem leaseLost_of_invalid (h : ¬ d.LeaseValid now lease) : d.LeaseLost now lease := by
  cases lease with
  | none => exact h trivial
  | some lease =>
    intro row hrow htoken
    by_contra hlive
    exact h ⟨row, hrow, htoken, Rat.not_le.mp hlive⟩

theorem LocalDb.LeaseLost.invalid (h : d.LeaseLost clock lease) (hclock : clock ≤ now) :
    ¬ d.LeaseValid now lease := by
  intro hvalid
  cases lease with
  | none => exact h
  | some lease =>
    obtain ⟨row, hrow, htoken, hlive⟩ := hvalid
    have hexpired : row.expiresAt ≤ clock := h row hrow htoken
    exact Rat.not_le.mpr hlive (Rat.le_trans hexpired hclock)

theorem LocalDb.LeaseLost.mono (h : d.LeaseLost clock lease) (hclock : clock ≤ now) :
    d.LeaseLost now lease := by
  cases lease with
  | none => exact h
  | some lease => exact fun row hrow htoken => Rat.le_trans (h row hrow htoken) hclock

end

theorem finish_stale {dispatch : Dispatch} {lease : Option Lease} {now : Time} {row : Job}
    (hrow : d.jobs.get? dispatch.jobId = some row) :
    (finishDispatchIfNotCancellationRequested dispatch lease now).Outcome (· = .staleWrite)
    (fun _ _ => True) d := by
  unfold finishDispatchIfNotCancellationRequested
  refine checkLease_outcome (fun _ => rfl) fun _ => ?_
  simp only [issue_bind]
  refine Prog.outcome_select ?_
  simp only [hrow, Option.map_some]
  split_ifs
  · trivial
  refine Prog.outcome_raiseIf (fun _ => rfl) fun _ => ?_
  exact updateDispatchRow_outcome rfl fun _ _ _ => trivial

end KenkuiServer.Storage

namespace KenkuiServer.Local
open Txn Data Jobs Storage Repositories Worker

/-- The clock readings of a call that is made between `clock` and `clock'`. -/
def Call.Timed (clock clock' : Time) : Call → Prop
  | .renewExecution _ _ _ now now' => clock ≤ now ∧ now ≤ now' ∧ now' ≤ clock'
  | _ => True

section
variable {s : LocalRun} {d₀ : LocalDb} {clock clock' : Time} {lease : Option Lease}

theorem step_lost {call : Call} (hlost : s.db.LeaseLost clock lease)
    (hissued : ∀ l, lease = some l → l.2 ∈ tokensOf l.1 s.log) (hfresh : FreshTokens s call)
    (hpositive : 0 ≤ clock) (hclock : clock ≤ clock') (htimed : call.Timed clock clock') :
    (s.step Call.prog call).db.LeaseLost clock' lease := by
  have hspec := Serial.step_spec Call.prog s call
  revert hspec
  generalize s.step Call.prog call = s'
  intro hspec
  cases hspec with
  | fail error => exact hlost.mono hclock
  | commit ran =>
    cases lease with
    | none => exact hlost
    | some lease =>
      obtain ⟨dispatchId, token⟩ := lease
      have hexpired : ∀ row, s.db.leases.get? dispatchId = some row → row.token = token →
          row.expiresAt ≤ clock := hlost
      intro row hrow htoken
      cases call.lease_effect ran with
      | kept _ leases =>
        rw [leases] at hrow
        exact Rat.le_trans (hexpired row hrow htoken) hclock
      | renewed old token' ttl now now' found live leases =>
        rw [leases, Table.get?_put] at hrow
        split_ifs at hrow with hid
        · have hid' : old.dispatchId = dispatchId := hid
          rw [hid'] at found
          rw [← Option.some.inj hrow] at htoken
          have hold := hexpired old found htoken
          obtain ⟨hnow, hnow', -⟩ := htimed
          exact absurd live (Rat.not_lt.mpr (Rat.le_trans hold (Rat.le_trans hnow hnow')))
        · exact Rat.le_trans (hexpired row hrow htoken) hclock
      | released old token' found leases =>
        rw [leases, Table.get?_put] at hrow
        split_ifs at hrow with hid
        · rw [← Option.some.inj hrow]
          exact Rat.le_trans hpositive hclock
        · exact Rat.le_trans (hexpired row hrow htoken) hclock
      | issued id limit ttl maxAttempts token' now job attempts found expired room leases =>
        rw [leases, Table.get?_put] at hrow
        split_ifs at hrow with hid
        · rw [← Option.some.inj hrow] at htoken
          have hmem := hissued _ rfl
          obtain ⟨entry, hentry, hissue⟩ := List.mem_filterMap.mp hmem
          obtain ⟨l, hl, hl_token⟩ := Option.map_eq_some_iff.mp hissue
          refine absurd ?_ (hfresh entry hentry)
          rw [(Option.filter_eq_some_iff.mp hl).1, Option.map_some, hl_token]
          exact congrArg some htoken.symm
        · exact Rat.le_trans (hexpired row hrow htoken) hclock

end

namespace LocalJobRunner
variable (runner : LocalJobRunner) (dispatchId jobId : String) (output : Option String)

/-- The end of a round: the cancellation is acknowledged. -/
def acknowledge : Worker Next := do
  runner.cancelIfRequested jobId
  return .finish dispatchId jobId output

def cancel (current : Job) : Worker Unit := do
  let _ ← runner.update current .cancelled "cancelled" (fun _ => none) none

/-- A round once `_cancel_if_requested` has read the job. -/
def cancelling (current : Job) : Worker Next := do
  runner.cancel current
  return .finish dispatchId jobId output

/-- A round once the transaction has left the dispatch to a cancellation. -/
def unlinking : Worker Next := do
  unlinkOutput output
  runner.acknowledge dispatchId jobId output

/-- A round once it has read the dispatch. -/
def finishing (dispatch : Dispatch) : Worker Next := do
  if ← runner.finishDispatchCall dispatch then return .release
  else runner.unlinking dispatchId jobId output

/-- A round once it has read the job. -/
def settling : Worker Next := do
  let dispatch ← getDispatch dispatchId
  if dispatch.status = "done" then return .release
  else runner.finishing dispatchId jobId output dispatch

theorem finishDispatch_ask : ∃ k, runner.finishDispatch dispatchId jobId output = .ask (.job jobId) k ∧
    ∀ current : Job, k (some current) =
      if !current.status.isTerminal ∧ current.status ≠ .cancelRequested then .ret .release
      else runner.settling dispatchId jobId output :=
  ⟨_, rfl, fun _ => rfl⟩

theorem settling_ask : ∃ k, runner.settling dispatchId jobId output = .ask (.dispatch dispatchId) k ∧
    ∀ dispatch : Dispatch, k (some dispatch) =
      if dispatch.status = "done" then .ret .release else runner.finishing dispatchId jobId output dispatch :=
  ⟨_, rfl, fun _ => rfl⟩

theorem finishing_ask (dispatch : Dispatch) : ∃ k : Except Error Reply → Worker Next,
    runner.finishing dispatchId jobId output dispatch =
      .ask (.call fun moment => .finishDispatch dispatch runner.lease moment.now) k ∧
    k (.ok (.flag true)) = .ret .release ∧ k (.ok (.flag false)) = runner.unlinking dispatchId jobId output ∧
    ∀ e, k (.error e) = .raise e :=
  ⟨_, rfl, rfl, rfl, fun _ => rfl⟩

theorem acknowledge_ask : ∃ k, runner.acknowledge dispatchId jobId output = .ask (.job jobId) k ∧
    (∀ current : Job, current.status = .cancelRequested →
      k (some current) = runner.cancelling dispatchId jobId output current) ∧
    ∀ current : Job, current.status ≠ .cancelRequested →
      k (some current) = .ret (.finish dispatchId jobId output) := by
  refine ⟨_, rfl, fun current hrequested => ?_, fun current hother => ?_⟩
  · have hcancel : (if current.status = .cancelRequested then runner.cancel current else pure
        () : Worker Unit) =
        runner.cancel current := if_pos hrequested
    exact congrArg (· >>= fun _ => Script.ret (Next.finish dispatchId jobId output)) hcancel
  · have hskip : (if current.status = .cancelRequested then runner.cancel current else pure
        () : Worker Unit) =
        pure () := if_neg hother
    exact congrArg (· >>= fun _ => Script.ret (Next.finish dispatchId jobId output)) hskip

theorem cancelling_ask (current : Job) : ∃ k : Except Error Reply → Worker Next,
    runner.cancelling dispatchId jobId output current =
      .ask (.call fun moment => .update current .cancelled "cancelled" none runner.lease none moment.now) k ∧
    (∀ reply, k (.ok reply) = .ret (.finish dispatchId jobId output)) ∧
    k (.error .staleWrite) = .ret (.finish dispatchId jobId output) :=
  ⟨_, rfl, fun _ => rfl, rfl⟩

end LocalJobRunner

theorem finishDispatch_bounded (runner : LocalJobRunner) (dispatchId jobId : String)
    (output : Option String) :
    (runner.finishDispatch dispatchId jobId output).Bounded 6 := by
  have hjob : (getJob jobId).Bounded 1 := by
    refine ⟨by decide, fun answer => ?_⟩
    cases (answer : Option Job) <;> trivial
  have hdispatch : (getDispatch dispatchId).Bounded 1 := by
    refine ⟨by decide, fun answer => ?_⟩
    cases (answer : Option Dispatch) <;> trivial
  have hfinish : ∀ dispatch, (runner.finishDispatchCall dispatch).Bounded 1 := by
    refine fun dispatch => ⟨by decide, fun answer => ?_⟩
    cases (answer : Except Error Reply) <;> trivial
  have hunlink : (LocalJobRunner.unlinkOutput output).Bounded 1 := by
    cases output with
    | none => trivial
    | some path => exact ⟨by decide, fun _ => trivial⟩
  have hupdate : ∀ current : Job, (runner.cancel current).Bounded 1 := by
    refine fun current => ⟨by decide, fun answer => ?_⟩
    cases hanswer : (answer : Except Error Reply) with
    | ok reply => trivial
    | error e =>
      simp only [Script.bind]
      split_ifs <;> trivial
  have hcancel : (runner.cancelIfRequested jobId).Bounded 2 := by
    unfold LocalJobRunner.cancelIfRequested
    refine Script.Bounded.bind (n := 1) (m := 1) hjob fun current => ?_
    split_ifs
    · exact hupdate current
    · trivial
  have hround : (LocalJobRunner.unlinkOutput output >>= fun _ =>
    runner.acknowledge dispatchId jobId output).Bounded 3 := by
    refine Script.Bounded.bind (n := 1) (m := 2) hunlink fun _ => ?_
    exact Script.Bounded.bind (n := 2) (m := 0) hcancel fun _ => trivial
  unfold LocalJobRunner.finishDispatch
  refine Script.Bounded.bind (n := 1) (m := 5) hjob fun current => ?_
  split_ifs
  · trivial
  refine Script.Bounded.bind (n := 1) (m := 4) hdispatch fun dispatch => ?_
  split_ifs
  · trivial
  refine Script.Bounded.bind (n := 1) (m := 3) (hfinish dispatch) fun finished => ?_
  split_ifs
  · trivial
  · exact hround

/-- The job is to be cancelled or is cancelled. -/
def Cancelling (d : LocalDb) (jobId : String) : Prop :=
  ∃ row, d.jobs.get? jobId = some row ∧ (row.status = .cancelRequested ∨ row.status = .cancelled)

def IsCancelled (d : LocalDb) (jobId : String) : Prop :=
  ∃ row, d.jobs.get? jobId = some row ∧ row.status = .cancelled

def IsDone (d : LocalDb) (dispatchId : String) : Prop :=
  ∃ row, d.dispatches.get? dispatchId = some row ∧ row.status = "done"

/-- Nothing is left for the worker to acknowledge: the job is cancelled, or the lease is lost. -/
def Resolved (runner : LocalJobRunner) (jobId : String) (d : LocalDb) (clock : Time) : Prop :=
  IsCancelled d jobId ∨ d.LeaseLost clock runner.lease

/-- What a worker can count on in `_finish_dispatch`: its job and its dispatch are there, and its lease was
issued. -/
structure Grounds (runner : LocalJobRunner) (dispatchId jobId : String) (run : LocalRun)
    (clock : Time) : Prop where
  reach : Serial.Reach Call.prog Rely {} run
  positive : 0 ≤ clock
  issued : ∀ lease, runner.lease = some lease → lease.2 ∈ tokensOf lease.1 run.log
  job : ∃ row, run.db.jobs.get? jobId = some row
  dispatch : ∃ row, run.db.dispatches.get? dispatchId = some row ∧ row.jobId = jobId

section
variable {runner : LocalJobRunner} {dispatchId jobId : String} {run : LocalRun}
    {clock clock' : Time} {call : Call}

theorem settled_empty : ({} : LocalDb).Settled := by
  intro id row hrow
  cases hrow

theorem Cancelling.ended {d : LocalDb} (h : Cancelling d jobId) (hover : d.Over jobId) :
    IsCancelled d jobId := by
  obtain ⟨row, hrow, hstatus⟩ := h
  obtain ⟨job, hjob, hterminal⟩ := hover
  rw [hrow, Option.some.injEq] at hjob
  rcases hstatus with hrequested | hcancelled
  · rw [← hjob, hrequested] at hterminal
    cases hterminal
  · exact ⟨row, hrow, hcancelled⟩

namespace Grounds

theorem dispatched (h : Grounds runner dispatchId jobId run clock) : Dispatched run :=
  reach_dispatched settled_empty h.reach

theorem step_dispatch (h : Grounds runner dispatchId jobId run clock) (hcall : Rely run call) {id : String}
    {old : Dispatch} (hold : run.db.dispatches.get? id = some old) :
    ∃ row, (run.step Call.prog call).db.dispatches.get? id = some row ∧ DispatchSince old row := by
  have hkept : run.db ∈ (run.step Call.prog call).db :: (run.step Call.prog call).past := by
    rw [Serial.step_past]
    exact List.mem_cons_of_mem _ List.mem_cons_self
  exact (reach_dispatched settled_empty (h.reach.step call hcall)).since _ hkept id old hold

theorem step (h : Grounds runner dispatchId jobId run clock) (hcall : Rely run call)
    (hclock : clock ≤ clock') :
    Grounds runner dispatchId jobId (run.step Call.prog call) clock' where
  reach := h.reach.step call hcall
  positive := Rat.le_trans h.positive hclock
  issued := fun lease hlease => tokensOf_step (h.issued lease hlease)
  job := by
    obtain ⟨row, hrow⟩ := h.job
    obtain ⟨next, hnext, -⟩ := step_job_move rely_starts h.reach hcall hrow
    exact ⟨next, hnext⟩
  dispatch := by
    obtain ⟨row, hrow, hjob⟩ := h.dispatch
    obtain ⟨next, hnext, hsince⟩ := h.step_dispatch hcall hrow
    exact ⟨next, hnext, by rw [hsince.jobId, hjob]⟩

theorem later (h : Grounds runner dispatchId jobId run clock) (hclock : clock ≤ clock') :
    Grounds runner dispatchId jobId run clock' where
  reach := h.reach
  positive := Rat.le_trans h.positive hclock
  issued := h.issued
  job := h.job
  dispatch := h.dispatch

theorem cancelling (h : Grounds runner dispatchId jobId run clock) (hcall : Rely run call)
    (hcancelling : Cancelling run.db jobId) : Cancelling (run.step Call.prog call).db jobId := by
  obtain ⟨row, hrow, hstatus⟩ := hcancelling
  obtain ⟨next, hnext, hmove⟩ := step_job_move rely_starts h.reach hcall hrow
  refine ⟨next, hnext, ?_⟩
  rcases hstatus with hrequested | hcancelled
  · rcases hmove.since.requested hrequested with hsame | hcancelled
    · rw [hsame]
      exact Or.inl hrequested
    · exact Or.inr hcancelled
  · rw [hmove.since.settled (by rw [hcancelled]; rfl)]
    exact Or.inr hcancelled

theorem cancelled (h : Grounds runner dispatchId jobId run clock) (hcall : Rely run call)
    (hcancelled : IsCancelled run.db jobId) : IsCancelled (run.step Call.prog call).db jobId := by
  obtain ⟨row, hrow, hstatus⟩ := hcancelled
  obtain ⟨next, hnext, hmove⟩ := step_job_move rely_starts h.reach hcall hrow
  refine ⟨next, hnext, ?_⟩
  rw [hmove.since.settled (by rw [hstatus]; rfl), hstatus]

theorem done (h : Grounds runner dispatchId jobId run clock) (hcall : Rely run call)
    (hdone : IsDone run.db dispatchId) : IsDone (run.step Call.prog call).db dispatchId := by
  obtain ⟨row, hrow, hstatus⟩ := hdone
  obtain ⟨next, hnext, hsince⟩ := h.step_dispatch hcall hrow
  exact ⟨next, hnext, hsince.done hstatus⟩

theorem resolved (h : Grounds runner dispatchId jobId run clock) (hcall : Rely run call)
    (hclock : clock ≤ clock') (htimed : call.Timed clock clock')
    (hresolved : Resolved runner jobId run.db clock) :
    Resolved runner jobId (run.step Call.prog call).db clock' := by
  rcases hresolved with hcancelled | hlost
  · exact Or.inl (h.cancelled hcall hcancelled)
  · exact Or.inr (step_lost hlost h.issued hcall.1.2 h.positive hclock htimed)

end Grounds

end

/-- The stores with a clock, and a worker in `_finish_dispatch`: what is left of its round, the rounds it has
begun, the queries it has made, and whether one of them has shown the job as `cancel_requested`. -/
structure Finishing where
  run : LocalRun
  clock : Time
  script : Worker Next
  passes : ℕ := 1
  asked : ℕ := 0
  requested : Bool := false

/-- The answer shows a job whose cancellation is requested. -/
def Query.requested : (q : Query) → q.Answer → Bool
  | .job _, answer => (answer : Option Job).any (·.status = .cancelRequested)
  | .call _, answer => (answer : Except Error Reply).toOption = some (.flag false)
  | _, _ => false

/-- The worker's next query. -/
def Finishing.ask (s : Finishing) (q : Query) (k : q.Answer → Worker Next) (moment : Moment) : Finishing where
  run := (q.call? moment).elim s.run (s.run.step Call.prog)
  clock := moment.now
  script := k (q.answer s.run moment)
  passes := s.passes
  asked := s.asked + 1
  requested := s.requested || q.requested (q.answer s.run moment)

inductive Finishing.Step (runner : LocalJobRunner) (dispatchId jobId : String) (output : Option String) :
    Finishing → Finishing → Prop
  /-- Anyone else makes a call. -/
  | other {s : Finishing} (call : Call) (clock : Time) (rely : Rely s.run call) (later : s.clock ≤ clock)
      (timed : call.Timed s.clock clock) :
    Step runner dispatchId jobId output s { s with run := s.run.step Call.prog call, clock }
  | own {s : Finishing} (q : Query) (k : q.Answer → Worker Next) (moment : Moment)
    (later : s.clock ≤ moment.now)
      (next : s.script = .ask q k) : Step runner dispatchId jobId output s (s.ask q k moment)
  /-- The loop goes on. -/
  | again {s : Finishing} (next : s.script = .ret (.finish dispatchId jobId output)) :
    Step runner dispatchId jobId output s
      { s with script := runner.finishDispatch dispatchId jobId output, passes := s.passes + 1 }

/-- Where the worker is in its round. It gets to the end of its first one only. -/
inductive Finishing.Place (runner : LocalJobRunner) (dispatchId jobId : String) (output : Option String)
    (s : Finishing) : Prop
  | reading (eq : s.script = runner.finishDispatch dispatchId jobId output)
  | settling (eq : s.script = runner.settling dispatchId jobId output)
  | finishing (dispatch : Dispatch) (d : LocalDb) (kept : d ∈ s.run.db :: s.run.past)
      (read : d.dispatches.get? dispatchId = some dispatch)
      (eq : s.script = runner.finishing dispatchId jobId output dispatch)
  | unlinking (path : String) (first : s.passes = 1) (requested : s.requested = true)
      (eq : s.script = .ask (.unlink path) fun _ => runner.acknowledge dispatchId jobId output)
  | acknowledging (first : s.passes = 1) (requested : s.requested = true)
      (eq : s.script = runner.acknowledge dispatchId jobId output)
  | cancelling (current : Job) (d : LocalDb) (kept : d ∈ s.run.db :: s.run.past)
      (read : d.jobs.get? jobId = some current) (status : current.status = .cancelRequested)
      (first : s.passes = 1)
      (requested : s.requested = true) (eq : s.script = runner.cancelling dispatchId jobId output current)
  | again (first : s.passes = 1) (requested : s.requested = true)
    (resolved : Resolved runner jobId s.run.db s.clock)
      (eq : s.script = .ret (.finish dispatchId jobId output))
  | left (done : s.requested = true → IsCancelled s.run.db jobId ∧ IsDone s.run.db dispatchId)
      (eq : s.script = .ret .release)
  | raised (eq : s.script = .raise .staleWrite)

structure Finishing.Sound (runner : LocalJobRunner) (dispatchId jobId : String) (output : Option String)
    (s : Finishing) : Prop where
  grounds : Grounds runner dispatchId jobId s.run s.clock
  seen : s.requested = true → Cancelling s.run.db jobId
  place : s.Place runner dispatchId jobId output
  passes : s.passes = 1 ∨ s.passes = 2 ∧ Resolved runner jobId s.run.db s.clock
  bounded : ∃ n, s.script.Bounded n ∧ s.asked + n ≤ 6 * s.passes

namespace Finishing
variable {runner : LocalJobRunner} {dispatchId jobId : String} {output : Option String} {s s' : Finishing}

theorem mem_step {run : LocalRun} {call : Call} {d : LocalDb} (h : d ∈ run.db :: run.past) :
    d ∈ (run.step Call.prog call).db :: (run.step Call.prog call).past := by
  rw [Serial.step_past]
  exact List.mem_cons_of_mem _ h

theorem Sound.other (h : s.Sound runner dispatchId jobId output) {call : Call} {clock : Time}
    (hrely : Rely s.run call) (hlater : s.clock ≤ clock) (htimed : call.Timed s.clock clock) :
    Sound runner dispatchId jobId output { s with run := s.run.step Call.prog call, clock } where
  grounds := h.grounds.step hrely hlater
  seen := fun hrequested => h.grounds.cancelling hrely (h.seen hrequested)
  place := by
    cases h.place with
    | reading eq => exact .reading eq
    | settling eq => exact .settling eq
    | finishing dispatch d kept read eq => exact .finishing dispatch d (mem_step kept) read eq
    | unlinking path first requested eq => exact .unlinking path first requested eq
    | acknowledging first requested eq => exact .acknowledging first requested eq
    | cancelling current d kept read status first requested eq =>
      exact .cancelling current d (mem_step kept) read status first requested eq
    | again first requested resolved eq =>
      exact .again first requested (h.grounds.resolved hrely hlater htimed resolved) eq
    | left done eq =>
      refine .left (fun hrequested => ?_) eq
      obtain ⟨hcancelled, hdone⟩ := done hrequested
      exact ⟨h.grounds.cancelled hrely hcancelled, h.grounds.done hrely hdone⟩
    | raised eq => exact .raised eq
  passes := by
    rcases h.passes with hfirst | ⟨hsecond, hresolved⟩
    · exact Or.inl hfirst
    · exact Or.inr ⟨hsecond, h.grounds.resolved hrely hlater htimed hresolved⟩
  bounded := h.bounded

theorem ask_requested {q : Query} {k : q.Answer → Worker Next} {moment : Moment} :
    (s.ask q k moment).requested = true ↔ s.requested = true ∨
      q.requested (q.answer s.run moment) = true := by
  simp only [ask, Bool.or_eq_true]

theorem Sound.own (h : s.Sound runner dispatchId jobId output) {q : Query} {k : q.Answer → Worker Next}
    {moment : Moment} (hnext : s.script = .ask q k) (hlater : s.clock ≤ moment.now)
    (hcall : ∀ call, q.call? moment = some call → Rely s.run call ∧ call.Timed s.clock moment.now)
    (hseen : q.requested (q.answer s.run moment) = true → Cancelling s.run.db jobId)
    (hplace : (s.ask q k moment).Place runner dispatchId jobId output) :
    (s.ask q k moment).Sound runner dispatchId jobId output := by
  have hbefore : (s.ask q k moment).requested = true → Cancelling s.run.db jobId := by
    intro hrequested
    rcases ask_requested.mp hrequested with hrequested | hrequested
    · exact h.seen hrequested
    · exact hseen hrequested
  have hbounded : ∃ n, (s.ask q k moment).script.Bounded n ∧ (s.ask q k moment).asked + n ≤ 6 * s.passes := by
    obtain ⟨n, hscript, hasked⟩ := h.bounded
    rw [hnext] at hscript
    obtain ⟨hpositive, hrest⟩ := hscript
    refine ⟨n - 1, hrest _, ?_⟩
    have hcount : (s.ask q k moment).asked = s.asked + 1 := rfl
    omega
  cases hq : q.call? moment with
  | none =>
    have hrun : (s.ask q k moment).run = s.run := by simp only [ask, hq, Option.elim_none]
    constructor
    · rw [hrun]
      exact h.grounds.later hlater
    · rw [hrun]
      exact hbefore
    · exact hplace
    · rw [hrun]
      rcases h.passes with hfirst | ⟨hsecond, hresolved⟩
      · exact Or.inl hfirst
      · right
        refine ⟨hsecond, ?_⟩
        rcases hresolved with hcancelled | hlost
        · exact Or.inl hcancelled
        · exact Or.inr (hlost.mono hlater)
    · exact hbounded
  | some call =>
    obtain ⟨hrely, htimed⟩ := hcall call hq
    have hrun : (s.ask q k moment).run = s.run.step Call.prog call := by simp only [ask, hq, Option.elim_some]
    constructor
    · rw [hrun]
      exact h.grounds.step hrely hlater
    · rw [hrun]
      exact fun hrequested => h.grounds.cancelling hrely (hbefore hrequested)
    · exact hplace
    · rw [hrun]
      rcases h.passes with hfirst | ⟨hsecond, hresolved⟩
      · exact Or.inl hfirst
      · exact Or.inr ⟨hsecond, h.grounds.resolved hrely hlater htimed hresolved⟩
    · exact hbounded

theorem ask_call (s : Finishing) (make : Moment → Call) (k : Except Error Reply → Worker Next)
    (moment : Moment) :
    Query.answer s.run moment (.call make) = ((make moment).prog.transaction s.run.db).1 ∧
      (s.ask (.call make) k moment).run = s.run.step Call.prog (make moment) ∧
      (s.ask (.call make) k moment).script = k ((make moment).prog.transaction s.run.db).1 :=
  ⟨rfl, rfl, rfl⟩

theorem Sound.own_call (h : s.Sound runner dispatchId jobId output) {make : Moment → Call}
    {k : Except Error Reply → Worker Next} {moment : Moment} (hnext : s.script = .ask (.call make) k)
    (hlater : s.clock ≤ moment.now) (hrely : Rely s.run (make moment))
    (htimed : (make moment).Timed s.clock moment.now)
    (hseen : Query.requested (.call make) ((make moment).prog.transaction s.run.db).1 = true →
      Cancelling s.run.db jobId)
    (hplace : (s.ask (.call make) k moment).Place runner dispatchId jobId output) :
    (s.ask (.call make) k moment).Sound runner dispatchId jobId output := by
  have hcall : ∀ call, Query.call? moment (.call make) = some call → Rely s.run call ∧
      call.Timed s.clock moment.now := by
    intro call hcall
    cases hcall
    exact ⟨hrely, htimed⟩
  exact h.own hnext hlater hcall hseen hplace

theorem cancelling_of_read {d : LocalDb} {row : Job} (hrow : d.jobs.get? jobId = some row)
    (hrequested : Query.requested (.job jobId) (some row) = true) : Cancelling d jobId := by
  have hstatus : row.status = .cancelRequested := by
    simpa [Query.requested] using hrequested
  exact ⟨row, hrow, Or.inl hstatus⟩

theorem Sound.reading (h : s.Sound runner dispatchId jobId output)
    (eq : s.script = runner.finishDispatch dispatchId jobId output) {q : Query} {k : q.Answer → Worker Next}
    {moment : Moment} (hlater : s.clock ≤ moment.now) (hnext : s.script = .ask q k) :
    (s.ask q k moment).Sound runner dispatchId jobId output := by
  obtain ⟨k', hask, hread⟩ := runner.finishDispatch_ask dispatchId jobId output
  have hsame := hnext
  rw [eq, hask] at hsame
  cases hsame
  obtain ⟨row, hrow⟩ := h.grounds.job
  have hanswer : Query.answer s.run moment (.job jobId) = some row := hrow
  refine h.own hnext hlater (fun call hcall => by cases hcall) ?_ ?_
  · rw [hanswer]
    exact cancelling_of_read hrow
  have hscript : (s.ask (.job jobId) k' moment).script = k' (some row) := congrArg k' hanswer
  rw [hread row] at hscript
  split_ifs at hscript with hgoing
  · refine .left (fun hrequested => ?_) hscript
    -- a job that was to be cancelled does not go on
    have hcancelling : Cancelling s.run.db jobId := by
      rcases ask_requested.mp hrequested with hrequested | hrequested
      · exact h.seen hrequested
      · rw [hanswer] at hrequested
        exact cancelling_of_read hrow hrequested
    obtain ⟨row', hrow', hstatus⟩ := hcancelling
    rw [hrow, Option.some.injEq] at hrow'
    rw [← hrow'] at hstatus
    rcases hstatus with hrequested | hcancelled
    · exact absurd hrequested hgoing.2
    · rw [hcancelled] at hgoing
      exact absurd hgoing.1 (by decide)
  · exact .settling hscript

theorem Sound.settling (h : s.Sound runner dispatchId jobId output)
    (eq : s.script = runner.settling dispatchId jobId output) {q : Query} {k : q.Answer → Worker Next}
    {moment : Moment} (hlater : s.clock ≤ moment.now) (hnext : s.script = .ask q k) :
    (s.ask q k moment).Sound runner dispatchId jobId output := by
  obtain ⟨k', hask, hread⟩ := runner.settling_ask dispatchId jobId output
  have hsame := hnext
  rw [eq, hask] at hsame
  cases hsame
  obtain ⟨dispatch, hdispatch, hjob⟩ := h.grounds.dispatch
  have hanswer : Query.answer s.run moment (.dispatch dispatchId) = some dispatch := hdispatch
  refine h.own hnext hlater (fun call hcall => by cases hcall) (fun hfalse => by cases hfalse) ?_
  have hscript : (s.ask (.dispatch dispatchId) k' moment).script = k' (some dispatch) := congrArg k' hanswer
  rw [hread dispatch] at hscript
  split_ifs at hscript with hdone
  · refine .left (fun hrequested => ?_) hscript
    have hover : s.run.db.Over jobId := by
      rw [← hjob]
      exact h.grounds.dispatched.settled dispatchId dispatch hdispatch hdone
    have hbefore : s.requested = true := by
      rcases ask_requested.mp hrequested with hrequested | hfalse
      · exact hrequested
      · cases hfalse
    exact ⟨(h.seen hbefore).ended hover, dispatch, hdispatch, hdone⟩
  · exact .finishing dispatch s.run.db List.mem_cons_self hdispatch hscript

theorem Grounds.dispatch_job {run : LocalRun} {clock : Time}
    (h : Grounds runner dispatchId jobId run clock) {d : LocalDb} (hkept : d ∈ run.db :: run.past)
    {dispatch : Dispatch} (hread : d.dispatches.get? dispatchId = some dispatch) :
    dispatch.jobId = jobId := by
  obtain ⟨row, hrow, hsince⟩ := h.dispatched.since d hkept dispatchId dispatch hread
  obtain ⟨row', hrow', hjob⟩ := h.dispatch
  rw [hrow, Option.some.injEq] at hrow'
  rw [← hjob, ← hrow', hsince.jobId]

theorem Sound.finishing (h : s.Sound runner dispatchId jobId output) {dispatch : Dispatch} {d : LocalDb}
    (hkept : d ∈ s.run.db :: s.run.past) (hread : d.dispatches.get? dispatchId = some dispatch)
    (eq : s.script = runner.finishing dispatchId jobId output dispatch) {q : Query}
    {k : q.Answer → Worker Next} {moment : Moment} (hlater : s.clock ≤ moment.now)
    (hnext : s.script = .ask q k) :
    (s.ask q k moment).Sound runner dispatchId jobId output := by
  obtain ⟨k', hask, hdone, hrefused, herror⟩ := runner.finishing_ask dispatchId jobId output dispatch
  have hsame := hnext
  rw [eq, hask] at hsame
  cases hsame
  have hjob := Grounds.dispatch_job h.grounds hkept hread
  have hid : dispatch.id = dispatchId := Table.key_of_get? hread
  have hsincere : ∃ old ∈ s.run.db :: s.run.past, dispatch ∈ old.dispatches.rows :=
    ⟨d, hkept, Table.mem_of_get? hread⟩
  have hrely : Rely s.run (.finishDispatch dispatch runner.lease moment.now) := ⟨⟨trivial, trivial⟩, hsincere⟩
  obtain ⟨row, hrow⟩ := h.grounds.job
  obtain ⟨hanswer, hrun, hscript⟩ :=
    ask_call s (fun moment => .finishDispatch dispatch runner.lease moment.now) k' moment
  have hown := h.own_call hnext hlater hrely trivial
  generalize hcall : Call.finishDispatch dispatch runner.lease moment.now = call at hanswer hrun hscript hown
  cases hresult : call.prog.run s.run.db with
  | error e =>
    have hstale : e = .staleWrite := by
      have houtcome : call.prog.Outcome (· = .staleWrite) (fun _ _ => True) s.run.db := by
        rw [← hjob] at hrow
        rw [← hcall]
        exact (finish_stale hrow).bind fun _ _ _ => trivial
      exact houtcome.of_error hresult
    rw [Prog.transaction_of_error hresult] at hscript hown
    rw [herror, hstale] at hscript
    exact hown (fun hrequested => by cases hrequested) (.raised hscript)
  | ok result =>
    obtain ⟨reply, d'⟩ := result
    rw [Prog.transaction_of_ok hresult] at hscript hanswer hown
    rw [Serial.step, hresult] at hrun
    rw [← hcall] at hresult
    obtain ⟨finished, hfinished, rfl⟩ := Prog.run_map_ok hresult
    cases finish_outcome.of_ok hfinished with
    | refused held stored found requested =>
      rw [hjob] at found
      have hfirst : s.passes = 1 := by
        rcases h.passes with hfirst | ⟨-, hresolved⟩
        · exact hfirst
        rcases hresolved with ⟨row', hrow', hcancelled⟩ | hlost
        · rw [found, Option.some.injEq] at hrow'
          rw [← hrow', requested] at hcancelled
          cases hcancelled
        · exact absurd held (hlost.invalid hlater)
      have hseen : (s.ask (.call fun moment => .finishDispatch dispatch runner.lease moment.now)
          k' moment).requested =
          true := by
        simp only [ask, hanswer]
        exact Bool.or_true _
      rw [hrefused] at hscript
      refine hown (fun _ => ⟨stored, found, Or.inl requested⟩) ?_
      cases output with
      | none => exact .acknowledging hfirst hseen hscript
      | some path => exact .unlinking path hfirst hseen hscript
    | done held stored found settled row' foundDispatch version =>
      rw [hjob] at found
      rw [hdone] at hscript
      refine hown (fun hrequested => by cases hrequested) (.left (fun hrequested => ?_) hscript)
      have hbefore : s.requested = true := by
        rcases ask_requested.mp hrequested with hrequested | hfalse
        · exact hrequested
        · rw [hanswer] at hfalse
          cases hfalse
      rw [hrun]
      constructor
      · exact (h.seen hbefore).ended ⟨stored, found, settled⟩
      · have hkey : row'.id = dispatchId := (Table.key_of_get? foundDispatch).trans hid
        have hput := s.run.db.dispatches.get?_put_self
          { row' with status := "done", version := dispatch.version + 1 }
        refine ⟨{ row' with status := "done", version := dispatch.version + 1 }, ?_, rfl⟩
        rw [← hkey]
        exact hput

theorem Sound.unlinking (h : s.Sound runner dispatchId jobId output) {path : String} (hfirst : s.passes = 1)
    (hrequested : s.requested = true)
    (eq : s.script = .ask (.unlink path) fun _ => runner.acknowledge dispatchId jobId output) {q : Query}
    {k : q.Answer → Worker Next} {moment : Moment} (hlater : s.clock ≤ moment.now)
    (hnext : s.script = .ask q k) :
    (s.ask q k moment).Sound runner dispatchId jobId output := by
  have hsame := hnext
  rw [eq] at hsame
  cases hsame
  have hstill : (s.requested || false) = true := by rw [hrequested]; rfl
  exact h.own hnext hlater (fun call hcall => by cases hcall) (fun hfalse => by cases hfalse)
    (.acknowledging hfirst hstill rfl)

theorem Sound.acknowledging (h : s.Sound runner dispatchId jobId output) (hfirst : s.passes = 1)
    (hrequested : s.requested = true) (eq : s.script = runner.acknowledge dispatchId jobId output) {q : Query}
    {k : q.Answer → Worker Next} {moment : Moment} (hlater : s.clock ≤ moment.now)
    (hnext : s.script = .ask q k) :
    (s.ask q k moment).Sound runner dispatchId jobId output := by
  obtain ⟨k', hask, hcancel, hskip⟩ := runner.acknowledge_ask dispatchId jobId output
  have hsame := hnext
  rw [eq, hask] at hsame
  cases hsame
  obtain ⟨row, hrow, hstatus⟩ := h.seen hrequested
  have hanswer : Query.answer s.run moment (.job jobId) = some row := hrow
  have hscript : (s.ask (.job jobId) k' moment).script = k' (some row) := congrArg k' hanswer
  have hstill : (s.ask (.job jobId) k' moment).requested = true :=
    ask_requested.mpr (Or.inl hrequested)
  refine h.own hnext hlater (fun call hcall => by cases hcall) (fun _ => h.seen hrequested) ?_
  rcases hstatus with hgoing | hcancelled
  · rw [hcancel row hgoing] at hscript
    exact .cancelling row s.run.db List.mem_cons_self hrow hgoing hfirst hstill hscript
  · rw [hskip row (by simp [hcancelled])] at hscript
    exact .again hfirst hstill (Or.inl ⟨row, hrow, hcancelled⟩) hscript

theorem transition_cancelled {current : Job} (h : current.status = .cancelRequested) :
    ∃ job, transition current .cancelled = .ok job ∧ job.status = .cancelled := by
  refine ⟨{ current with status := .cancelled, version := current.version + 1 }, ?_, rfl⟩
  simp only [transition, h]

theorem Sound.cancelling (h : s.Sound runner dispatchId jobId output) {current : Job} {d : LocalDb}
    (hkept : d ∈ s.run.db :: s.run.past) (hread : d.jobs.get? jobId = some current)
    (hstatus : current.status = .cancelRequested) (hfirst : s.passes = 1) (hrequested : s.requested = true)
    (eq : s.script = runner.cancelling dispatchId jobId output current) {q : Query}
    {k : q.Answer → Worker Next} {moment : Moment} (hlater : s.clock ≤ moment.now)
    (hnext : s.script = .ask q k) :
    (s.ask q k moment).Sound runner dispatchId jobId output := by
  obtain ⟨k', hask, hok, hstale⟩ := runner.cancelling_ask dispatchId jobId output current
  have hsame := hnext
  rw [eq, hask] at hsame
  cases hsame
  have hid : current.id = jobId := Table.key_of_get? hread
  obtain ⟨row, hrow, hsince⟩ := reach_since rely_starts h.grounds.reach d hkept jobId current hread
  have hrely : Rely s.run (.update current .cancelled "cancelled" none runner.lease none moment.now) :=
    ⟨⟨⟨d, hkept, Table.mem_of_get? hread⟩, trivial⟩, trivial⟩
  obtain ⟨-, hrun, hscript⟩ := ask_call s
    (fun moment => .update current .cancelled "cancelled" none runner.lease none moment.now) k' moment
  have hstill : (s.ask (.call fun moment =>
      .update current .cancelled "cancelled" none runner.lease none moment.now) k' moment).requested = true :=
    ask_requested.mpr (Or.inl hrequested)
  refine h.own_call hnext hlater hrely trivial (fun _ => h.seen hrequested) ?_
  generalize hcall : Call.update current .cancelled "cancelled" none runner.lease none moment.now =
    call at hrun hscript
  obtain ⟨job, hjob, hjob_status⟩ := transition_cancelled hstatus
  have hadvances := transition_advances hjob
  have hversion := hadvances.version
  cases hresult : call.prog.run s.run.db with
  | ok result =>
    obtain ⟨reply, d'⟩ := result
    rw [Prog.transaction_of_ok hresult, hok reply] at hscript
    rw [Serial.step, hresult] at hrun
    rw [← hcall] at hresult
    simp only [Call.prog, hjob] at hresult
    obtain ⟨e, hupdate, -⟩ := Prog.run_map_ok hresult
    have hupdated := (update_outcome.of_ok hupdate).result
    have hcancelled : IsCancelled d' jobId := by
      refine ⟨job, ?_, hjob_status⟩
      rw [hupdated, ← hid, ← hadvances.id]
      exact Table.get?_put_self s.run.db.jobs job
    refine .again hfirst hstill ?_ hscript
    rw [hrun]
    exact Or.inl hcancelled
  | error e =>
    have hspec : ∀ row', s.run.db.jobs.get? job.id = some row' → row'.spec = job.spec := by
      intro row' hrow'
      rw [hadvances.id, hid, hrow] at hrow'
      rw [← Option.some.inj hrow', hsince.spec, hadvances.spec]
    let refused : Error → Prop := fun e => e = .staleWrite ∧ (¬ s.run.db.LeaseValid moment.now runner.lease ∨
      ∀ row, s.run.db.jobs.get? job.id = some row → (row.version : ℤ) ≠ (job.version : ℤ) - 1)
    have hupdate : (updateJobAndAppendEvent job ((job.version : ℤ) - 1) "cancelled" none runner.lease none
        moment.now).Outcome refused (fun _ _ => True) s.run.db := update_refused (by omega) hspec (by decide)
    have houtcome : call.prog.Outcome refused (fun _ _ => True) s.run.db := by
      simp only [← hcall, Call.prog, hjob]
      exact hupdate.bind fun _ _ _ => trivial
    have hrefused : refused e := houtcome.of_error hresult
    obtain ⟨he, hcause⟩ := hrefused
    rw [Prog.transaction_of_error hresult, he, hstale] at hscript
    rw [Serial.step, hresult] at hrun
    refine .again hfirst hstill ?_ hscript
    rw [hrun]
    rcases hcause with hinvalid | hmoved
    · exact Or.inr (leaseLost_of_invalid hinvalid)
    · -- the one way to move on is to be cancelled
      rcases hsince.requested hstatus with hsame | hcancelled
      · rw [hsame, ← hid, ← hadvances.id] at hrow
        have hother := hmoved current hrow
        omega
      · exact Or.inl ⟨row, hrow, hcancelled⟩

theorem Place.ends (h : s.Place runner dispatchId jobId output) (hends : ∀ q k, s.script ≠ .ask q k) :
    (s.passes = 1 ∧ Resolved runner jobId s.run.db s.clock ∧
      s.script = .ret (.finish dispatchId jobId output)) ∨
      ((s.requested = true → IsCancelled s.run.db jobId ∧ IsDone s.run.db dispatchId) ∧
        s.script = .ret .release) ∨
      s.script = .raise .staleWrite := by
  cases h with
  | reading eq =>
    obtain ⟨k, hask, -⟩ := runner.finishDispatch_ask dispatchId jobId output
    exact absurd (eq.trans hask) (hends _ k)
  | settling eq =>
    obtain ⟨k, hask, -⟩ := runner.settling_ask dispatchId jobId output
    exact absurd (eq.trans hask) (hends _ k)
  | finishing dispatch d kept read eq =>
    obtain ⟨k, hask, -⟩ := runner.finishing_ask dispatchId jobId output dispatch
    exact absurd (eq.trans hask) (hends (.call _) k)
  | unlinking path first requested eq => exact absurd eq (hends _ _)
  | acknowledging first requested eq =>
    obtain ⟨k, hask, -⟩ := runner.acknowledge_ask dispatchId jobId output
    exact absurd (eq.trans hask) (hends _ k)
  | cancelling current d kept read status first requested eq =>
    obtain ⟨k, hask, -⟩ := runner.cancelling_ask dispatchId jobId output current
    exact absurd (eq.trans hask) (hends (.call _) k)
  | again first requested resolved eq => exact Or.inl ⟨first, resolved, eq⟩
  | left done eq => exact Or.inr (Or.inl ⟨done, eq⟩)
  | raised eq => exact Or.inr (Or.inr eq)

theorem Sound.again (h : s.Sound runner dispatchId jobId output)
    (hnext : s.script = .ret (.finish dispatchId jobId output)) :
    Sound runner dispatchId jobId output
      { s with script := runner.finishDispatch dispatchId jobId output, passes := s.passes + 1 } := by
  have hends : ∀ q k, s.script ≠ .ask q k := by
    intro q k hask
    rw [hnext] at hask
    cases hask
  have hfirst : s.passes = 1 ∧ Resolved runner jobId s.run.db s.clock := by
    rcases h.place.ends hends with ⟨hfirst, hresolved, -⟩ | ⟨-, hleft⟩ | hraised
    · exact ⟨hfirst, hresolved⟩
    · rw [hnext] at hleft
      cases hleft
    · rw [hnext] at hraised
      cases hraised
  obtain ⟨hpasses, hresolved⟩ := hfirst
  have hround := finishDispatch_bounded runner dispatchId jobId output
  obtain ⟨n, -, hasked⟩ := h.bounded
  constructor
  · exact h.grounds
  · exact h.seen
  · exact .reading rfl
  · right
    exact ⟨congrArg (· + 1) hpasses, hresolved⟩
  · refine ⟨6, hround, ?_⟩
    have hcount : s.asked ≤ 6 * s.passes := by omega
    simp only
    omega

theorem Sound.step (h : s.Sound runner dispatchId jobId output)
    (hstep : Step runner dispatchId jobId output s s') :
    s'.Sound runner dispatchId jobId output := by
  cases hstep with
  | other call clock rely later timed => exact h.other rely later timed
  | own q k moment later next =>
    cases h.place with
    | reading eq => exact h.reading eq later next
    | settling eq => exact h.settling eq later next
    | finishing dispatch d kept read eq => exact h.finishing kept read eq later next
    | unlinking path first requested eq => exact h.unlinking first requested eq later next
    | acknowledging first requested eq => exact h.acknowledging first requested eq later next
    | cancelling current d kept read status first requested eq =>
      exact h.cancelling kept read status first requested eq later next
    | again first requested resolved eq =>
      rw [eq] at next
      cases next
    | left done eq =>
      rw [eq] at next
      cases next
    | raised eq =>
      rw [eq] at next
      cases next
  | again next => exact h.again next

theorem Sound.reached (h : s.Sound runner dispatchId jobId output)
    (hsteps : Relation.ReflTransGen (Step runner dispatchId jobId output) s s') :
    s'.Sound runner dispatchId jobId output := by
  induction hsteps with
  | refl => exact h
  | tail steps step ih => exact ih.step step

end Finishing

section
variable {runner : LocalJobRunner} {dispatchId jobId : String} {output : Option String}
    {run : LocalRun} {clock : Time}
  {s : Finishing}

/-- Whatever everyone else does, the loop leaves in its second round at the latest, by a return or by a stale
write, and when it returns having seen the job as `cancel_requested`, the job is cancelled and its dispatch
done. -/
theorem finishDispatch_leaves (hgrounds : Grounds runner dispatchId jobId run clock)
    (hsteps : Relation.ReflTransGen (Finishing.Step runner dispatchId jobId output)
      { run, clock, script := runner.finishDispatch dispatchId jobId output } s) :
    s.passes ≤ 2 ∧ s.asked ≤ 12 ∧ (∀ e, s.script = .raise e → e = .staleWrite) ∧
      (∀ next, s.script = .ret next → next = .release ∨ next = .finish dispatchId jobId output ∧
        s.passes = 1) ∧
      (s.script = .ret .release → s.requested = true → IsCancelled s.run.db jobId ∧
        IsDone s.run.db dispatchId) := by
  have hstart : Finishing.Sound runner dispatchId jobId output
      { run, clock, script := runner.finishDispatch dispatchId jobId output } := by
    constructor
    · exact hgrounds
    · intro hfalse
      cases hfalse
    · exact .reading rfl
    · exact Or.inl rfl
    · exact ⟨6, finishDispatch_bounded runner dispatchId jobId output, le_rfl⟩
  have hsound := hstart.reached hsteps
  have hpasses : s.passes ≤ 2 := by
    rcases hsound.passes with hfirst | ⟨hsecond, -⟩ <;> omega
  refine ⟨hpasses, ?_, fun e hraised => ?_, fun next hnext => ?_, fun hleft hrequested => ?_⟩
  · obtain ⟨n, -, hasked⟩ := hsound.bounded
    omega
  · have hends := hsound.place.ends fun q k hask => by rw [hraised] at hask; cases hask
    rcases hends with ⟨-, -, heq⟩ | ⟨-, heq⟩ | heq <;> rw [hraised] at heq <;> cases heq
    rfl
  · have hends := hsound.place.ends fun q k hask => by rw [hnext] at hask; cases hask
    rcases hends with ⟨hfirst, -, heq⟩ | ⟨-, heq⟩ | heq <;> rw [hnext] at heq <;> cases heq
    · exact Or.inr ⟨rfl, hfirst⟩
    · exact Or.inl rfl
  · have hends := hsound.place.ends fun q k hask => by rw [hleft] at hask; cases hask
    rcases hends with ⟨-, -, heq⟩ | ⟨hdone, -⟩ | heq
    · rw [hleft] at heq
      cases heq
    · exact hdone hrequested
    · rw [hleft] at heq
      cases heq

end

/-- The worker's next step, with one moment for all of them. -/
def Finishing.advance (runner : LocalJobRunner) (dispatchId jobId : String) (output : Option String)
    (moment : Moment) (s : Finishing) : Finishing :=
  match s.script with
  | .ask q k => s.ask q k moment
  | .ret (.finish dispatchId' jobId' output') =>
    if dispatchId' = dispatchId ∧ jobId' = jobId ∧ output' = output then
      { s with script := runner.finishDispatch dispatchId jobId output, passes := s.passes + 1 }
    else s
  | _ => s

def Finishing.released (s : Finishing) : Bool :=
  match s.script with
  | .ret .release => true
  | _ => false

theorem Finishing.released_script {s : Finishing} (h : s.released = true) : s.script = .ret .release := by
  unfold released at h
  split at h
  · rename_i heq
    exact heq
  · cases h

theorem Finishing.iterate_steps (runner : LocalJobRunner) (dispatchId jobId : String) (output : Option String)
    (moment : Moment) (n : ℕ) {s : Finishing} (hclock : s.clock ≤ moment.now) :
    Relation.ReflTransGen (Step runner dispatchId jobId output) s
      ((advance runner dispatchId jobId output moment)^[n] s) := by
  induction n generalizing s with
  | zero => exact .refl
  | succ n ih =>
    rw [Function.iterate_succ_apply]
    unfold advance
    split
    · rename_i q k heq
      exact .head (.own q k moment hclock heq) (ih Rat.le_refl)
    · rename_i heq
      split_ifs with hsame
      · obtain ⟨rfl, rfl, rfl⟩ := hsame
        exact .head (.again heq) (ih hclock)
      · exact ih hclock
    · exact ih hclock

/-- A running job whose cancellation has been requested, with its worker about to finish its dispatch. -/
def requestedRun : LocalRun :=
  (((({ db := {} } : LocalRun).step Call.prog
    (.createJobAndDispatch Hosted.sampleJob ⟨"dispatch", "job", "pending", 0⟩ none)).step Call.prog
      (.claimExecution "dispatch" 3 30 1 "token" 0)).step Call.prog
        (.update Hosted.sampleJob .dispatchRequested "running" none (some ("dispatch", "token")) none 1)).step
          Call.prog
          (.requestCancellation "job")

/-- The worker acknowledges the cancellation in its first round and finishes the dispatch in its second
one. -/
theorem finishDispatch_leaves_cancelled : ∃ s : Finishing,
    s.passes = 2 ∧ s.requested = true ∧ s.script = .ret .release ∧ IsCancelled s.run.db "job" ∧
      IsDone s.run.db "dispatch" := by
  let runner : LocalJobRunner := { lease := some ("dispatch", "token") }
  let start :
    Finishing := { run := requestedRun, clock := 2, script := runner.finishDispatch "dispatch" "job" none }
  let s : Finishing := (Finishing.advance runner "dispatch" "job" none { now := 2 })^[9] start
  have hreach : Serial.Reach Call.prog Rely {} requestedRun := by
    refine .step _ (.step _ (.step _ (.step _ .init ⟨⟨rfl, trivial⟩, rfl⟩) ⟨⟨trivial, ?_⟩, trivial⟩)
      ⟨⟨⟨_, List.mem_cons_self, ?_⟩, trivial⟩, trivial⟩) ⟨⟨trivial, trivial⟩, trivial⟩
    · unfold FreshTokens
      decide +kernel
    · decide +kernel
  have hgrounds : Grounds runner "dispatch" "job" requestedRun 2 := by
    constructor
    · exact hreach
    · decide
    · intro lease hlease
      cases hlease
      decide +kernel
    · exact Option.isSome_iff_exists.mp (by decide +kernel)
    · have hjob : (requestedRun.db.dispatches.get? "dispatch").map (·.jobId) = some "job" := by decide +kernel
      exact Option.map_eq_some_iff.mp hjob
  have hsteps := Finishing.iterate_steps runner "dispatch" "job" none { now := 2 } 9 (s := start) Rat.le_refl
  have hleaves := finishDispatch_leaves hgrounds hsteps
  have hrequested : s.requested = true := by decide +kernel
  have hscript : s.script = .ret .release := Finishing.released_script (by decide +kernel)
  exact ⟨s, by decide +kernel, hrequested, hscript, hleaves.2.2.2.2 hscript hrequested⟩

end KenkuiServer.Local
