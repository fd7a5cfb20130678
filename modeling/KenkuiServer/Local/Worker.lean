import KenkuiServer.Data.Script
import KenkuiServer.Local.Calls

/-! One local worker attempt: what `LocalJobRunner.run` asks of the repositories, of the artifact files
and of the engine that renders the audiobook, one query at a time. Where the source loops, the script
ends and names the point to go on from. -/
namespace KenkuiServer.Local
open Data Jobs Storage

structure ExecutionEvent where
  completed : Option ℤ := none
  total : Option ℤ := none
  stage : Option String := none

/-- What the engine does next while it renders. -/
inductive EngineStep
  | event (event : ExecutionEvent)
  | wrote
  /-- `write` returns, the output written. -/
  | returned
  /-- `kk.CancelledError`. -/
  | cancelled
  /-- Any other exception, with the code and text of a `kk.KenkuiError`. -/
  | failed (kenkui : Option (String × String))
  /-- A `BaseException` unwinds the attempt. -/
  | interrupted

/-- What the attempt finds outside of the job tables when it asks: a clock reading, a `uuid4`, whether the
source asset is there, and the engine. -/
structure Moment where
  now : Time := 0
  uuid : String := ""
  asset : Bool := true
  engine : EngineStep := .returned

inductive Query
  | dispatch (dispatchId : String)
  | job (jobId : String)
  | asset (assetId : String)
  | call (call : Moment → Call)
  | write (path : String)
  | unlink (path : String)
  | engine (path : String)

def Query.Answer : Query → Type
  | .dispatch _ => Option Dispatch
  | .job _ => Option Job
  | .asset _ => Bool
  | .call _ => Except Error Reply
  | .write _ => Unit
  | .unlink _ => Unit
  | .engine _ => EngineStep

abbrev Worker (α : Type) := Script Query Query.Answer Error α

namespace Worker

def transact (call : Moment → Call) : Worker (Except Error Reply) := Script.request (Query.call call)

def write (path : String) : Worker Unit := Script.request (Query.write path)

def unlink (path : String) : Worker Unit := Script.request (Query.unlink path)

def render (path : String) : Worker EngineStep := Script.request (Query.engine path)

def getDispatch (dispatchId : String) : Worker Dispatch := do
  let found : Option Dispatch ← Script.request (Query.dispatch dispatchId)
  match found with
  | none => .raise (.key dispatchId)
  | some dispatch => return dispatch

def getJob (jobId : String) : Worker Job := do
  let found : Option Job ← Script.request (Query.job jobId)
  match found with
  | none => .raise (.key jobId)
  | some job => return job

/-- `assets.get`. -/
def getAsset (assetId : String) : Worker Unit := do
  let found : Bool ← Script.request (Query.asset assetId)
  if found then return
  else .raise (.key assetId)

end Worker

structure LocalJobRunner where
  artifacts : String := "artifacts"
  fixtureMode : Bool := false
  lease : Option Lease := none

/-- Where an attempt goes on after a script. -/
inductive Next
  | run (dispatchId : String)
  | take (dispatch : Dispatch) (job : Job)
  | render (dispatchId : String) (job : Job)
  | rendering (dispatchId : String) (job : Job)
  | finish (dispatchId jobId : String) (output : Option String)
  | release
  | finished

namespace LocalJobRunner
open Worker
variable (runner : LocalJobRunner)

def artifactPath (name : String) : String := runner.artifacts ++ "/" ++ name ++ ".m4b"

def output (jobId : String) : String :=
  runner.artifactPath (match runner.lease with | none => jobId | some (_, token) => jobId ++ "." ++ token)

/-- `_update`: whether the guarded transaction went through. -/
def update (job : Job) (event : JobTransitionEvent) (eventType : String)
    (artifact : Moment → Option Artifact) (failure : Option (String × String)) : Worker Bool := do
  match ← transact fun moment =>
    .update job event eventType (artifact moment) runner.lease failure moment.now with
  | .ok _ => return true
  | .error e => if e = .staleWrite then return false else .raise e

def updateDispatch (dispatch : Dispatch) (status : String) : Worker Unit := do
  match ← transact fun _ => .updateDispatch dispatch status with
  | .ok _ => return
  | .error e => .raise e

def cancelIfRequested (jobId : String) : Worker Unit := do
  let current ← getJob jobId
  if current.status = .cancelRequested then
    let _ ← runner.update current .cancelled "cancelled" (fun _ => none) none

def failIfRunning (jobId : String) (error : Option (String × String)) : Worker Unit := do
  let current ← getJob jobId
  if current.status = .running then
    let _ ← runner.update current .failed "failed" (fun _ => none) (some (error.getD ("execution_failed",
      "Audiobook creation failed. Please retry or contact support with the job ID.")))

/-- `_run` once it has read the job of the pending dispatch. -/
def enter (dispatch : Dispatch) (job : Job) : Worker Next :=
  match job.status with
  | .cancelled => do
    updateDispatch dispatch "cancelled"
    return .release
  | .cancelRequested => do
    runner.cancelIfRequested job.id
    updateDispatch dispatch "cancelled"
    return .release
  | .queued => do
    let updated ← runner.update job .dispatchRequested "running" (fun _ => none) none
    return if updated then .take dispatch job else .release
  | .running =>
    -- An attempt restarts the synthesis: the progress of the one before it is not its own.
    if runner.lease.isSome then do
      let updated ← runner.update job (.progressReported "retrying" 0 job.progress.total) "progress"
        (fun _ => none) none
      return if updated then .take dispatch job else .release
    else return .take dispatch job
  | _ => return .release

/-- `_run` once it has read the dispatch. -/
def proceed (dispatch : Dispatch) : Worker Next := do
  if dispatch.status ≠ "pending" then return .release
  else
    let job ← getJob dispatch.jobId
    runner.enter dispatch job

/-- `_run` up to the point where the attempt takes the dispatch. -/
def start (dispatchId : String) : Worker Next := do
  let dispatch ← getDispatch dispatchId
  runner.proceed dispatch

def take (dispatch : Dispatch) (job : Job) : Worker Next := do
  updateDispatch dispatch "running"
  return .render dispatch.id job

/-- The `on_event` callback. -/
def onEvent (jobId : String) (event : ExecutionEvent) : Worker Unit := do
  let current ← getJob jobId
  if current.status = .cancelRequested then return
  else
    match event.completed with
    | none => return
    | some completed =>
      let total := event.total.getD current.progress.total
      let stage := event.stage.getD current.progress.stage
      if (stage = current.progress.stage ∧ completed < current.progress.completed) ∨ total < completed then
        return
      else
        let _ ← runner.update current (.progressReported stage completed total) "progress"
          (fun _ => none) none

def discard (jobId : String) : Worker Unit := do
  unlink (runner.output jobId)
  runner.cancelIfRequested jobId

/-- The end of the `try` block: the output is published, unless the job is to be cancelled. -/
def publish (jobId : String) : Worker Unit := do
  let current ← getJob jobId
  if current.status = .cancelRequested then runner.discard jobId
  else
    let updated ← runner.update current .completed "completed"
      (fun moment => some ⟨moment.uuid, current.id, runner.output jobId, "m4b"⟩) none
    if updated then return
    else
      let current ← getJob jobId
      if current.status = .cancelRequested then runner.discard jobId

/-- `except Exception`. -/
def fail (jobId : String) (error : Option (String × String)) : Worker Unit := do
  let current ← getJob jobId
  if current.status = .cancelRequested then runner.cancelIfRequested jobId
  else runner.failIfRunning jobId error

/-- The `except` clauses around the rendering of a job, for the exceptions of the server's own code. -/
def excepting (jobId : String) (p : Worker Unit) : Worker Unit :=
  p.handle fun e => if e = .staleWrite then .raise e else runner.fail jobId none

/-- `assets.get` of the source, the first call of the `try` block. -/
def render (dispatchId : String) (job : Job) : Worker Next :=
  (do getAsset job.spec.sourceId
      return Next.rendering dispatchId job).handle fun _ => do
    runner.fail job.id none
    return .finish dispatchId job.id none

def rendering (dispatchId : String) (job : Job) : Worker Next := do
  let output := runner.output job.id
  let finish := Next.finish dispatchId job.id (some output)
  if runner.fixtureMode then
    runner.excepting job.id do
      write output
      runner.publish job.id
    return finish
  else
    match ← Worker.render output with
    | .event event =>
      -- What the engine makes of an exception of its callback is its next step.
      (runner.onEvent job.id event).handle fun _ => .ret ()
      return .rendering dispatchId job
    | .wrote => return .rendering dispatchId job
    | .returned => do
      runner.excepting job.id (runner.publish job.id)
      return finish
    | .cancelled => do
      runner.cancelIfRequested job.id
      return finish
    | .failed error => do
      runner.fail job.id error
      return finish
    | .interrupted => return finish

def finishDispatchCall (dispatch : Dispatch) : Worker Bool := do
  match ← transact fun moment => .finishDispatch dispatch runner.lease moment.now with
  | .ok reply => return reply = .flag true
  | .error e => .raise e

def unlinkOutput : Option String → Worker Unit
  | none => return
  | some output => unlink output

/-- One round of the loop of `_finish_dispatch`. -/
def finishDispatch (dispatchId jobId : String) (output : Option String) : Worker Next := do
  let current ← getJob jobId
  if !current.status.isTerminal ∧ current.status ≠ .cancelRequested then return .release
  else
    let dispatch ← getDispatch dispatchId
    if dispatch.status = "done" then return .release
    else if ← runner.finishDispatchCall dispatch then return .release
    else
      unlinkOutput output
      runner.cancelIfRequested jobId
      return .finish dispatchId jobId output

def releaseExecution : Worker Next :=
  match runner.lease with
  | none => return .finished
  | some (dispatchId, token) => do
    let _ ← transact fun _ => .releaseExecution dispatchId token
    return .finished

/-- The script from a point on. An exception in the `try` block of `_run` leads to its `finally` clause, one
outside of it to that of `run`. -/
def script : Next → Worker Next
  | .run dispatchId => (runner.start dispatchId).handle fun _ => .ret .release
  | .take dispatch job => (take dispatch job).handle fun _ => .ret .release
  | .render dispatchId job => (runner.render dispatchId job).handle fun _ =>
    .ret (.finish dispatchId job.id none)
  | .rendering dispatchId job =>
    (runner.rendering dispatchId job).handle fun _ =>
      .ret (.finish dispatchId job.id (some (runner.output job.id)))
  | .finish dispatchId jobId output =>
    (runner.finishDispatch dispatchId jobId output).handle fun _ => .ret .release
  | .release => runner.releaseExecution
  | .finished => .ret .finished

end LocalJobRunner

/-- An attempt, with what is left of its script. -/
structure Attempt where
  runner : LocalJobRunner
  dispatchId : String
  script : Worker Next

/-- The stores, the attempt that wrote each artifact file last, and the attempts started so far. -/
structure Server where
  run : LocalRun
  files : String → Option ℕ := fun _ => none
  attempts : List Attempt := []

inductive Act
  /-- A call of the API or of a supervisor. -/
  | call (call : Call)
  | spawn (runner : LocalJobRunner) (dispatchId : String)
  /-- An attempt takes its next step. -/
  | work (i : ℕ) (moment : Moment)
  /-- Its heartbeat renews the lease. -/
  | beat (i : ℕ) (ttl now now' : Time)

def Query.answer (run : LocalRun) (moment : Moment) : (q : Query) → q.Answer
  | .dispatch dispatchId => run.db.dispatches.get? dispatchId
  | .job jobId => run.db.jobs.get? jobId
  | .asset _ => moment.asset
  | .call f => ((f moment).prog.transaction run.db).1
  | .write _ => ()
  | .unlink _ => ()
  | .engine _ => moment.engine

/-- The call that a query makes on the stores. -/
def Query.call? (moment : Moment) : Query → Option Call
  | .call f => some (f moment)
  | _ => none

/-- The file that attempt `i` writes or removes with a query. -/
def Query.file (i : ℕ) (moment : Moment) (q : Query) (files : String → Option ℕ) : String → Option ℕ :=
  match q with
  | .write path => Function.update files path (some i)
  | .unlink path => Function.update files path none
  | .engine path =>
    match moment.engine with
    | .wrote => Function.update files path (some i)
    | .returned => Function.update files path (some i)
    | _ => files
  | _ => files

namespace Attempt

/-- The call that the attempt's next step makes, if any. -/
def call? (attempt : Attempt) (moment : Moment) : Option Call :=
  match attempt.script with
  | .ask q _ => q.call? moment
  | _ => none

/-- The attempt after its next step. -/
def advance (attempt : Attempt) (run : LocalRun) (moment : Moment) : Attempt :=
  match attempt.script with
  | .ret next => { attempt with script := attempt.runner.script next }
  | .raise _ => attempt
  | .ask q k => { attempt with script := k (q.answer run moment) }

def file (attempt : Attempt) (i : ℕ) (moment : Moment) (files : String → Option ℕ) : String → Option ℕ :=
  match attempt.script with
  | .ask q _ => q.file i moment files
  | _ => files

end Attempt

/-- The call that an act makes on the stores. -/
def Server.call? (s : Server) : Act → Option Call
  | .call call => some call
  | .spawn _ _ => none
  | .work i moment => s.attempts[i]?.bind (·.call? moment)
  | .beat i ttl now now' => do
    let attempt ← s.attempts[i]?
    let (dispatchId, token) ← attempt.runner.lease
    return .renewExecution dispatchId token ttl now now'

def Server.step (s : Server) (act : Act) : Server where
  run := (s.call? act).elim s.run (s.run.step Call.prog)
  files :=
    match act with
    | .work i moment => s.attempts[i]?.elim s.files fun attempt => attempt.file i moment s.files
    | _ => s.files
  attempts :=
    match act with
    | .spawn runner dispatchId => s.attempts ++ [⟨runner, dispatchId, runner.script (.run dispatchId)⟩]
    | .work i moment => s.attempts.modify i fun attempt => attempt.advance s.run moment
    | _ => s.attempts

end KenkuiServer.Local
