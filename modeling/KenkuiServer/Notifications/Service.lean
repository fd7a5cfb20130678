import KenkuiServer.Data.Script
import KenkuiServer.Hosted.Calls
import KenkuiServer.Notifications.Messages
import KenkuiServer.Storage.PostgresNotifications

/-! The end of a hosted worker attempt: the output is published, the job completed, and its owner told. What
it asks of the job store, of the notification tables, of the mailer and of the object store is one query at a
time. -/
namespace KenkuiServer.Notifications
open Data Jobs Storage Hosted

def emailChannel : String := "email"

/-- The clock readings and the `uuid4` that the attempt gets at a step, and whether the step fails: before it
takes effect, or after. -/
structure Moment where
  now : Time := 0
  at' : Time := 0
  uuid : String := ""
  before : Option Error := none
  after : Option Error := none

inductive Query
  /-- `jobs.get`. -/
  | job (jobId : String)
  /-- The record and the upload of `_publish`. -/
  | upload (identifier : String)
  | call (call : Moment → Call)
  | unlink (output : String)
  /-- The database connection of `_notify_completed`. -/
  | connect
  | recipient (jobId : String)
  | claim (jobId channel : String)
  | send (message : Message)
  | markDelivered (jobId channel : String)

def Query.Result : Query → Type
  | .job jobId => { job : Job // job.id = jobId }
  | .upload _ => Unit
  | .call _ => Reply
  | .unlink _ => Unit
  | .connect => Unit
  | .recipient _ => Option Recipient
  | .claim _ _ => Bool
  | .send _ => Unit
  | .markDelivered _ _ => Unit

abbrev Query.Answer (q : Query) : Type := Except Error q.Result

abbrev Worker (α : Type) := Script Query Query.Answer Error α

def perform (q : Query) : Worker q.Result := do
  let answer : Except Error q.Result ← Script.request q
  match answer with
  | .ok result => return result
  | .error e => .raise e

def getJob (jobId : String) : Worker { job : Job // job.id = jobId } := perform (.job jobId)

def recipientForJob (jobId : String) : Worker (Option Recipient) := perform (.recipient jobId)

def claim (jobId channel : String) : Worker Bool := perform (.claim jobId channel)

/-- `CompletionNotifier`, as `notification_settings_from_environment` makes one: never without a secret. -/
structure CompletionNotifier where
  webOrigin : String
  apiOrigin : String
  unsubscribeSecret : String
  signed : unsubscribeSecret ≠ ""

namespace CompletionNotifier
variable (hmac : Hmac) (notifier : CompletionNotifier)

/-- `_send`. -/
def send (job : Job) : Worker Unit := do
  match ← recipientForJob job.id with
  | none => return
  | some recipient =>
    let email := recipient.email.getD ""
    if email = "" ∨ recipient.notifyByEmail = false then return
    else if ← claim job.id emailChannel then
      perform (.send (completionEmail email job.id job.spec.output.title notifier.webOrigin
        (unsubscribeUrl hmac notifier.apiOrigin recipient.identityId notifier.unsubscribeSecret)))
      perform (.markDelivered job.id emailChannel)
    else return

def completed (job : Job) : Worker Unit := (notifier.send hmac job).handle fun _ => return

end CompletionNotifier

/-- `settings` is what `notification_settings_from_environment` gives, or the exception that it raises. -/
structure HostedJobRunner where
  root : String := "artifacts"
  lease : Lease
  settings : Except Error (Option CompletionNotifier) := .ok none

namespace HostedJobRunner
variable (hmac : Hmac) (runner : HostedJobRunner)

def identifier (jobId : String) : String := jobId ++ "." ++ runner.lease.2

def output (jobId : String) : String := runner.root ++ "/" ++ runner.identifier jobId ++ ".m4b"

/-- `_notify_completed`. -/
def notifyCompleted (job : Job) : Worker Unit :=
  match runner.settings with
  | .error e => .raise e
  | .ok none => return
  | .ok (some notifier) => do
    perform .connect
    notifier.completed hmac job

/-- `_update`: whether the guarded transaction went through. -/
def update (snapshot : Job) (event : JobTransitionEvent) (eventType : String)
    (artifact : Moment → Option Artifact) (failure : Option (String × String)) : Worker Bool := do
  let answer : Except Error Reply ← Script.request (Query.call fun moment =>
    .update snapshot event eventType (artifact moment) (some runner.lease) failure moment.now moment.at')
  match answer with
  | .ok _ => return true
  | .error e => if e = .staleWrite then return false else .raise e

def cancelIfRequested (jobId : String) : Worker Unit := do
  let current ← getJob jobId
  if current.val.status = .cancelRequested then
    let _ ← runner.update current.val .cancelled "cancelled" (fun _ => none) none

def failIfRunning (jobId : String) : Worker Unit := do
  let current ← getJob jobId
  if current.val.status = .running then
    let _ ← runner.update current.val .failed "failed" (fun _ => none) (some ("execution_failed",
      "Audiobook creation failed. Please retry or contact support with the job ID."))

def discard (jobId : String) : Worker Unit := do
  perform (.unlink (runner.output jobId))
  runner.cancelIfRequested jobId

/-- The end of the `try` block of `_run`. -/
def publish (jobId : String) : Worker Unit := do
  let current ← getJob jobId
  if current.val.status = .cancelRequested then runner.discard jobId
  else
    match transition current.val .completed with
    | .error e => .raise e
    | .ok completed =>
      perform (.upload (runner.identifier jobId))
      let updated ← runner.update current.val .completed "completed"
        (fun moment => some ⟨moment.uuid, jobId, runner.identifier jobId, "m4b"⟩) none
      if updated then runner.notifyCompleted hmac completed
      else
        let current ← getJob jobId
        if current.val.status = .cancelRequested then runner.discard jobId

/-- `except Exception`. -/
def fail (jobId : String) : Worker Unit := do
  let current ← getJob jobId
  if current.val.status = .cancelRequested then runner.cancelIfRequested jobId
  else runner.failIfRunning jobId

/-- The end of the attempt, with the `except` clauses around it. -/
def conclude (jobId : String) : Worker Unit :=
  (runner.publish hmac jobId).handle fun e => if e = .staleWrite then .raise e else runner.fail jobId

end HostedJobRunner

end KenkuiServer.Notifications
