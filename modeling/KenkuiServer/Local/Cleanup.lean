import KenkuiServer.Local.Worker
import KenkuiServer.Storage.Connection

/-! A worker on its own connection, which it goes on using in its `finally` clauses while an exception unwinds
it. The worker's model has each call be one transaction of the committed store; it is that as long as no
transaction was left open. -/
namespace KenkuiServer.Local
open Data Txn Jobs Storage

/-- A query on the worker's connection. What a transaction raises beside an `Exception` unwinds the
script. -/
def Query.perform (c : Connection LocalDb) (moment : Moment) :
    (q : Query) → Except Raised q.Answer × Connection LocalDb
  | .dispatch dispatchId => (.ok (c.sees.dispatches.get? dispatchId), c)
  | .job jobId => (.ok (c.sees.jobs.get? jobId), c)
  | .asset _ => (.ok moment.asset, c)
  | .call f =>
    match c.transaction (body (f moment).prog) with
    | (.ok reply, c) => (.ok (.ok reply), c)
    | (.error (.exception e), c) => (.ok (.error e), c)
    | (.error r, c) => (.error r, c)
  | .write _ => (.ok (), c)
  | .unlink _ => (.ok (), c)
  | .engine _ => (.ok moment.engine, c)

namespace LocalJobRunner
variable {α : Type}

def perform (moments : ℕ → Moment) : Worker α → Connection LocalDb → Except Raised α × Connection LocalDb
  | .ret a, c => (.ok a, c)
  | .raise e, c => (.error (.exception e), c)
  | .ask q k, c =>
    match q.perform c (moments 0) with
    | (.ok answer, c) => perform (fun n => moments (n + 1)) (k answer) c
    | (.error r, c) => (.error r, c)

/-- The same script on the committed stores, as the steps of an attempt are. -/
def settle (moments : ℕ → Moment) : Worker α → LocalRun → Except Error α × LocalRun
  | .ret a, run => (.ok a, run)
  | .raise e, run => (.error e, run)
  | .ask q k, run =>
    settle (fun n => moments (n + 1)) (k (q.answer run (moments 0)))
      ((q.call? (moments 0)).elim run (run.step Call.prog))

variable (runner : LocalJobRunner)

/-- At most `n` scripts from a point on; the `finally` clauses of an attempt are those from `finish` on. -/
def resume (moments : ℕ → ℕ → Moment) : ℕ → Next → Connection LocalDb →
    Except Raised Next × Connection LocalDb
  | 0, next, c => (.ok next, c)
  | n + 1, next, c =>
    match perform (moments n) (runner.script next) c with
    | (.ok next, c) => resume moments n next c
    | (.error r, c) => (.error r, c)

def resumeSettled (moments : ℕ → ℕ → Moment) : ℕ → Next → LocalRun → Except Error Next × LocalRun
  | 0, next, run => (.ok next, run)
  | n + 1, next, run =>
    match settle (moments n) (runner.script next) run with
    | (.ok next, run) => resumeSettled moments n next run
    | (.error e, run) => (.error e, run)

end LocalJobRunner

/-- How a run over the committed stores looks on a connection with no transaction open. -/
def onConnection {α : Type} (result : Except Error α × LocalRun) : Except Raised α × Connection LocalDb :=
  (result.1.mapError .exception, ⟨result.2.db, none⟩)

/-- A block that did not finish left no trace: queries see the state before it, the next block starts, and
the `finally` clauses of the worker act on the committed stores alone. -/
structure Traceless (before after : Connection LocalDb) : Prop where
  sees : after.sees = before.sees
  starts : ∃ c, after.start = .ok c
  cleanup : ∀ (runner : LocalJobRunner) (moments : ℕ → ℕ → Moment) (n : ℕ) (next : Next) (run : LocalRun),
    run.db = before.sees → runner.resume moments n next after =
      onConnection (runner.resumeSettled moments n next run)

/-- Every block of the run that does not finish leaves no trace. -/
def LeavesNoTrace : Connection LocalDb → List (Operation LocalDb) → Prop
  | _, [] => True
  | c, .transaction body :: ops =>
    (∀ r, (c.transaction body).1 = .error r → Traceless c (c.transaction body).2) ∧
      LeavesNoTrace (c.transaction body).2 ops
  | c, op :: ops => LeavesNoTrace (c.step op) ops

section
variable {α : Type} {moments : ℕ → Moment} {d : LocalDb} {run : LocalRun}

theorem perform_call (f : Moment → Call) (moment : Moment) (c : Connection LocalDb) :
    (Query.call f).perform c moment =
      match c.transaction (body (f moment).prog) with
      | (.ok reply, c) => (.ok (.ok reply), c)
      | (.error (.exception e), c) => (.ok (.error e), c)
      | (.error r, c) => (.error r, c) := rfl

theorem perform_settled (q : Query) (moment : Moment) (hdb : run.db = d) :
    q.perform ⟨d, none⟩ moment =
      (.ok (q.answer run moment), ⟨((q.call? moment).elim run (run.step Call.prog)).db, none⟩) := by
  subst hdb
  cases q with
  | call f =>
    have hstep := Serial.step_db Call.prog run (f moment)
    rw [perform_call, Connection.transaction_body]
    have hrun : (((Query.call f).call? moment).elim run (run.step Call.prog)).db =
        ((f moment).prog.transaction run.db).2 := hstep
    have hanswer : (Query.call f).answer run moment = ((f moment).prog.transaction run.db).1 := rfl
    rw [hrun, hanswer]
    rcases (f moment).prog.transaction run.db with ⟨e | reply, d⟩ <;> rfl
  | _ => rfl

theorem perform_script (p : Worker α) (hdb : run.db = d) :
    LocalJobRunner.perform moments p ⟨d, none⟩ = onConnection (LocalJobRunner.settle moments p run) := by
  induction p generalizing moments d run with
  | ret a =>
    subst hdb
    rfl
  | raise e =>
    subst hdb
    rfl
  | ask q k ih =>
    unfold LocalJobRunner.perform LocalJobRunner.settle
    rw [perform_settled q _ hdb]
    exact ih (q.answer run (moments 0)) rfl

theorem resume_settled (runner : LocalJobRunner) (moments : ℕ → ℕ → Moment) (n : ℕ) (next : Next)
    (hdb : run.db = d) :
    runner.resume moments n next ⟨d, none⟩ = onConnection (runner.resumeSettled moments n next run) := by
  induction n generalizing next d run with
  | zero =>
    subst hdb
    rfl
  | succ n ih =>
    unfold LocalJobRunner.resume LocalJobRunner.resumeSettled
    rw [perform_script _ hdb]
    rcases LocalJobRunner.settle (moments n) (runner.script next) run with ⟨e | next, run⟩
    · rfl
    · exact ih next rfl

end

section
variable {c : Connection LocalDb}

theorem traceless_refl (hc : c.opened = none) : Traceless c c := by
  obtain ⟨d, opened⟩ := c
  obtain rfl : opened = none := hc
  constructor
  · rfl
  · exact ⟨_, rfl⟩
  · intro runner moments n next run hrun
    exact resume_settled runner moments n next hrun

theorem traceless_iff {escape : Escape LocalDb} (hc : c.opened = none)
    (hbefore : escape.before = c.committed) :
    Traceless c (if escape.raised.isException then escape.connection.rollback else escape.connection) ↔
      escape.Clean := by
  obtain ⟨d, opened⟩ := c
  obtain rfl : opened = none := hc
  obtain ⟨before, r, committed, opened⟩ := escape
  obtain rfl : before = d := hbefore
  unfold Escape.Clean
  by_cases hr : r.isException
  · simp only [hr, if_true, true_or, and_true]
    constructor
    · exact fun h => h.sees
    · rintro rfl
      exact traceless_refl rfl
  · simp only [hr, Bool.false_eq_true, if_false, false_or]
    constructor
    · intro h
      obtain ⟨c', hstart⟩ := h.starts
      cases opened with
      | none => exact ⟨h.sees, rfl⟩
      | some d => cases hstart
    · rintro ⟨rfl, rfl⟩
      exact traceless_refl rfl

theorem closed_of_clean {escape : Escape LocalDb} (h : escape.Clean) :
    (if escape.raised.isException then escape.connection.rollback else escape.connection).opened = none := by
  split_ifs with hr
  · rfl
  · exact h.2.resolve_left hr

theorem leavesNoTrace_transaction {body : Body LocalDb Unit} {ops : List (Operation LocalDb)} :
    LeavesNoTrace c (.transaction body :: ops) ↔
      (∀ r, (c.transaction body).1 = .error r → Traceless c (c.transaction body).2) ∧
        LeavesNoTrace (c.transaction body).2 ops := Iff.rfl

theorem escapes_transaction {body : Body LocalDb Unit} {ops : List (Operation LocalDb)} :
    c.escapes (.transaction body :: ops) = (c.escape body).toList ++ (c.transaction body).2.escapes ops := rfl

theorem leavesNoTrace_closed (ops : List (Operation LocalDb)) (hc : c.opened = none) :
    LeavesNoTrace c ops ↔ ∀ escape ∈ c.escapes ops, escape.Clean := by
  induction ops generalizing c with
  | nil => simp [LeavesNoTrace, Connection.escapes]
  | cons op ops ih =>
    cases op with
    | query => exact ih hc
    | elsewhere change =>
      have hstep : (c.step (.elsewhere change)).opened = none := by simp [Connection.step, hc]
      exact ih hstep
    | transaction body =>
      rw [leavesNoTrace_transaction, escapes_transaction]
      rcases Connection.transaction_closed body hc with ⟨hnone, a, d, hended⟩
        | ⟨escape, hsome, hbefore, hended⟩
      · have hfinished : ∀ r, (Except.ok a : Except Raised Unit) = .error r → Traceless c ⟨d, none⟩ := by
          intro r hr
          cases hr
        rw [hended, hnone, ih (c := ⟨d, none⟩) rfl]
        exact and_iff_right hfinished
      · have hblock := traceless_iff hc hbefore
        rw [hended, hsome]
        simp only [Option.toList_some, List.singleton_append, List.forall_mem_cons, Except.error.injEq,
          forall_eq', hblock]
        exact and_congr_right fun hclean => ih (closed_of_clean hclean)

end

/-- A run on a `Database` leaves no trace of the blocks that do not finish exactly if each body that lets an
exception out has committed nothing new where it does, and lets out an `Exception` or has no transaction
open. -/
theorem leavesNoTrace_iff (d : LocalDb) (ops : List (Operation LocalDb)) :
    LeavesNoTrace { committed := d } ops ↔
      ∀ escape ∈ Connection.escapes { committed := d } ops, escape.Clean :=
  leavesNoTrace_closed ops rfl

/-- `executescript` in a block that an `Exception` leaves: what it made is committed. -/
example : ¬ LeavesNoTrace { committed := {} } [.transaction do
    Body.executescript [fun d => .ok (apply (.dispatch ⟨"d", "j", "done", 1⟩) d)]
    .raise (.exception (.operational "table assets already exists"))] := by
  rw [leavesNoTrace_closed _ rfl]
  intro hclean
  have hcommitted := (hclean _ List.mem_cons_self).1
  have hdispatches := congrArg (·.dispatches.rows.length) hcommitted
  revert hdispatches
  decide

/-- `KeyboardInterrupt` after the first statement of a block. -/
def interrupted : Operation LocalDb :=
  .transaction (.ask (SQL.execute fun d => .ok (apply (.dispatch ⟨"d", "j", "done", 1⟩) d)) fun _ =>
    .raise .keyboardInterrupt)

/-- The dispatch that a `KeyboardInterrupt` kept from being finished is done for every later query, and no
further block starts. -/
theorem interrupted_leaves_trace :
    ¬ ∀ (d : LocalDb) (ops : List (Operation LocalDb)), LeavesNoTrace { committed := d } ops := by
  intro h
  have hrun := (leavesNoTrace_closed [interrupted] rfl).mp (h {} [interrupted])
  have hclean := (hrun _ List.mem_cons_self).2
  simp [Raised.isException, Connection.answer, Connection.sees] at hclean

end KenkuiServer.Local
