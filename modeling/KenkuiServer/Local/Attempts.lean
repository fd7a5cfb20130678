import KenkuiServer.Local.Fencing
import KenkuiServer.Local.Leases
import KenkuiServer.Local.Worker

/-! The calls of worker attempts, and where an attempt under the lease of its dispatch may be. -/
namespace KenkuiServer.Local
open Txn Data Jobs Storage Repositories

/-- The calls of an attempt, with the statuses that it gives dispatches. -/
inductive OfAttempt (lease : Option Lease) (P : String → Prop) : Call → Prop
  | update (job : Job) (event : JobTransitionEvent) (eventType : String) (artifact : Option Artifact)
      (failure : Option (String × String)) (now : Time) :
    OfAttempt lease P (.update job event eventType artifact lease failure now)
  | updateDispatch (dispatch : Dispatch) (status : String) (h : P status) :
    OfAttempt lease P (.updateDispatch dispatch status)
  | finishDispatch (dispatch : Dispatch) (now : Time) : OfAttempt lease P (.finishDispatch dispatch lease now)
  | releaseExecution (dispatchId token : String) (h : lease = some (dispatchId, token)) :
    OfAttempt lease P (.releaseExecution dispatchId token)

/-- The calls that a query can make. -/
def Query.Of (lease : Option Lease) (P : String → Prop) (q : Query) : Prop :=
  ∀ moment call, q.call? moment = some call → OfAttempt lease P call

/-- The points that an attempt passes once it is past its early exits. -/
def Next.isLater : Next → Prop
  | .run _ => False
  | .take _ _ => False
  | _ => True

namespace LocalJobRunner
open Worker
variable {runner : LocalJobRunner} {P : String → Prop} {β : Type}

theorem of_silent {lease : Option Lease} {q : Query} (h : ∀ moment, q.call? moment = none) :
    q.Of lease P := by
  intro moment call hcall
  rw [h] at hcall
  cases hcall

theorem within_transact {call : Moment → Call} {f : Except Error Reply → Worker β} {R : β → Prop}
    (h : ∀ moment, OfAttempt runner.lease P (call moment))
    (hf : ∀ reply, (f reply).Within (Query.Of runner.lease P) R) :
    (transact call >>= f).Within (Query.Of runner.lease P) R := by
  constructor
  · intro moment call' hcall
    cases hcall
    exact h moment
  · exact hf

theorem getDispatch_within {lease : Option Lease} (dispatchId : String) :
    (getDispatch dispatchId).Within (Query.Of lease P) fun _ => True := by
  refine ⟨of_silent fun _ => rfl, fun (answer : Option Dispatch) => ?_⟩
  cases answer <;> trivial

theorem getJob_within {lease : Option Lease} (jobId : String) :
    (getJob jobId).Within (Query.Of lease P) fun _ => True := by
  refine ⟨of_silent fun _ => rfl, fun (answer : Option Job) => ?_⟩
  cases answer <;> trivial

theorem getAsset_within {lease : Option Lease} (assetId : String) :
    (getAsset assetId).Within (Query.Of lease P) fun _ => True := by
  refine ⟨of_silent fun _ => rfl, fun (answer : Bool) => ?_⟩
  cases answer <;> trivial

theorem unlink_within {lease : Option Lease} (path : String) :
    (unlink path).Within (Query.Of lease P) fun _ => True :=
  ⟨of_silent fun _ => rfl, fun _ => trivial⟩

theorem write_within {lease : Option Lease} (path : String) :
    (write path).Within (Query.Of lease P) fun _ => True :=
  ⟨of_silent fun _ => rfl, fun _ => trivial⟩

theorem update_within (job : Job) (event : JobTransitionEvent) (eventType : String)
    (artifact : Moment → Option Artifact) (failure : Option (String × String)) :
    (runner.update job event eventType artifact failure).Within (Query.Of runner.lease P) fun _ => True := by
  unfold update
  refine within_transact (fun moment => .update _ _ _ _ _ _) fun reply => ?_
  cases reply with
  | ok reply => trivial
  | error e =>
    simp only
    split_ifs <;> trivial

theorem updateDispatch_within (dispatch : Dispatch) {status : String} (h : P status) :
    (updateDispatch dispatch status).Within (Query.Of runner.lease P) fun _ => True := by
  unfold updateDispatch
  refine within_transact (fun moment => .updateDispatch _ _ h) fun reply => ?_
  cases reply <;> trivial

theorem cancelIfRequested_within (jobId : String) :
    (runner.cancelIfRequested jobId).Within (Query.Of runner.lease P) fun _ => True := by
  unfold cancelIfRequested
  refine (getJob_within jobId).bind fun current _ => ?_
  split_ifs
  · exact (update_within _ _ _ _ _).bind fun _ _ => trivial
  · trivial

theorem failIfRunning_within (jobId : String) (error : Option (String × String)) :
    (runner.failIfRunning jobId error).Within (Query.Of runner.lease P) fun _ => True := by
  unfold failIfRunning
  refine (getJob_within jobId).bind fun current _ => ?_
  split_ifs
  · exact (update_within _ _ _ _ _).bind fun _ _ => trivial
  · trivial

theorem fail_within (jobId : String) (error : Option (String × String)) :
    (runner.fail jobId error).Within (Query.Of runner.lease P) fun _ => True := by
  unfold fail
  refine (getJob_within jobId).bind fun current _ => ?_
  split_ifs
  · exact cancelIfRequested_within jobId
  · exact failIfRunning_within jobId error

theorem excepting_within {jobId : String} {p : Worker Unit}
    (hp : p.Within (Query.Of runner.lease P) fun _ => True) :
    (runner.excepting jobId p).Within (Query.Of runner.lease P) fun _ => True := by
  refine hp.handle fun e => ?_
  split_ifs
  · trivial
  · exact fail_within jobId none

theorem discard_within (jobId : String) :
    (runner.discard jobId).Within (Query.Of runner.lease P) fun _ => True :=
  (unlink_within _).bind fun _ _ => cancelIfRequested_within jobId

theorem publish_within (jobId : String) :
    (runner.publish jobId).Within (Query.Of runner.lease P) fun _ => True := by
  unfold publish
  refine (getJob_within jobId).bind fun current _ => ?_
  split_ifs
  · exact discard_within jobId
  · refine (update_within _ _ _ _ _).bind fun updated _ => ?_
    split_ifs
    · trivial
    · refine (getJob_within jobId).bind fun current _ => ?_
      split_ifs
      · exact discard_within jobId
      · trivial

theorem onEvent_within (jobId : String) (event : ExecutionEvent) :
    (runner.onEvent jobId event).Within (Query.Of runner.lease P) fun _ => True := by
  unfold onEvent
  refine (getJob_within jobId).bind fun current _ => ?_
  split_ifs
  · trivial
  cases event.completed with
  | none => trivial
  | some completed =>
    simp only
    split_ifs
    · trivial
    · exact (update_within _ _ _ _ _).bind fun _ _ => trivial

theorem finishDispatchCall_within (dispatch : Dispatch) :
    (runner.finishDispatchCall dispatch).Within (Query.Of runner.lease P) fun _ => True := by
  unfold finishDispatchCall
  refine within_transact (fun moment => .finishDispatch _ _) fun reply => ?_
  cases reply <;> trivial

theorem finishDispatch_within (dispatchId jobId : String) (output : Option String) :
    (runner.finishDispatch dispatchId jobId output).Within (Query.Of runner.lease P) Next.isLater := by
  unfold finishDispatch
  refine (getJob_within jobId).bind fun current _ => ?_
  split_ifs
  · trivial
  refine (getDispatch_within dispatchId).bind fun dispatch _ => ?_
  split_ifs
  · trivial
  refine (finishDispatchCall_within dispatch).bind fun finished _ => ?_
  split_ifs
  · trivial
  have hunlink : (unlinkOutput output).Within (Query.Of runner.lease P) fun _ => True := by
    cases output with
    | none => trivial
    | some path => exact unlink_within path
  exact hunlink.bind fun _ _ => (cancelIfRequested_within jobId).bind fun _ _ => trivial

theorem rendering_within (dispatchId : String) (job : Job) :
    (runner.rendering dispatchId job).Within (Query.Of runner.lease P) Next.isLater := by
  unfold rendering
  simp only
  split_ifs
  · refine (excepting_within ?_).bind fun _ _ => trivial
    exact (write_within _).bind fun _ _ => publish_within job.id
  · refine ⟨of_silent fun _ => rfl, fun (step : EngineStep) => ?_⟩
    cases step with
    | event event =>
      refine (Script.Within.handle (onEvent_within job.id event) fun _ => ?_).bind fun _ _ => ?_
      · trivial
      · trivial
    | wrote => trivial
    | returned => exact (excepting_within (publish_within job.id)).bind fun _ _ => trivial
    | cancelled => exact (cancelIfRequested_within job.id).bind fun _ _ => trivial
    | failed error => exact (fail_within job.id error).bind fun _ _ => trivial
    | interrupted => trivial

theorem render_within (dispatchId : String) (job : Job) :
    (runner.render dispatchId job).Within (Query.Of runner.lease P) Next.isLater := by
  unfold render
  refine Script.Within.handle ?_ fun _ => ?_
  · exact (getAsset_within job.spec.sourceId).bind fun _ _ => trivial
  · exact (fail_within job.id none).bind fun _ _ => trivial

theorem releaseExecution_within : runner.releaseExecution.Within (Query.Of runner.lease P) Next.isLater := by
  unfold releaseExecution
  split
  · trivial
  · rename_i dispatchId token hlease
    refine within_transact (fun _ => .releaseExecution _ _ hlease) fun _ => ?_
    trivial

/-- From a later point on, an attempt updates no dispatch by its version alone. -/
theorem script_later {next : Next} (h : next.isLater) :
    (runner.script next).Within (Query.Of runner.lease P) Next.isLater := by
  cases next with
  | run dispatchId => cases h
  | take dispatch job => cases h
  | render dispatchId job => exact (render_within dispatchId job).handle fun _ => trivial
  | rendering dispatchId job => exact (rendering_within dispatchId job).handle fun _ => trivial
  | finish dispatchId jobId output =>
    exact (finishDispatch_within dispatchId jobId output).handle fun _ => trivial
  | release => exact releaseExecution_within
  | finished => trivial

/-- The early exits: only a job that is cancelled, or to be, has its dispatch updated. -/
theorem enter_exits {dispatch : Dispatch} {job : Job} (hP : P "cancelled") (hqueued : job.status ≠ .queued)
    (hrunning : job.status ≠ .running) :
    (runner.enter dispatch job).Within (Query.Of runner.lease P) Next.isLater := by
  unfold enter
  split
  · exact (updateDispatch_within dispatch hP).bind fun _ _ => trivial
  · exact (cancelIfRequested_within job.id).bind fun _ _ =>
      (updateDispatch_within dispatch hP).bind fun _ _ => trivial
  · contradiction
  · contradiction
  · trivial

theorem enter_within {dispatch : Dispatch} {job : Job} (hP : P "cancelled") :
    (runner.enter dispatch job).Within (Query.Of runner.lease P) fun _ => True := by
  by_cases hqueued : job.status = .queued
  · simp only [enter, hqueued]
    exact (update_within _ _ _ _ _).bind fun _ _ => trivial
  by_cases hrunning : job.status = .running
  · simp only [enter, hrunning]
    split_ifs
    · exact (update_within _ _ _ _ _).bind fun _ _ => trivial
    · trivial
  · exact (enter_exits hP hqueued hrunning).imp (fun _ h => h) fun _ _ => trivial

theorem proceed_within {dispatch : Dispatch} (hP : P "cancelled") :
    (runner.proceed dispatch).Within (Query.Of runner.lease P) fun _ => True := by
  unfold proceed
  split_ifs
  · trivial
  · exact (getJob_within dispatch.jobId).bind fun job _ => enter_within hP

/-- Every call of an attempt carries its lease or updates a dispatch. -/
theorem script_within (next : Next) :
    (runner.script next).Within (Query.Of runner.lease fun _ => True) fun _ => True := by
  cases next with
  | run dispatchId =>
    have hstart : (runner.start dispatchId).Within (Query.Of runner.lease fun _ => True) fun _ => True :=
      (getDispatch_within dispatchId).bind fun dispatch _ => proceed_within trivial
    exact hstart.handle fun _ => trivial
  | take dispatch job =>
    have htake : (take dispatch job).Within (Query.Of runner.lease fun _ => True) fun _ => True :=
      (updateDispatch_within dispatch trivial).bind fun _ _ => trivial
    exact htake.handle fun _ => trivial
  | _ =>
    refine (script_later ?_).imp (fun _ h => h) fun _ _ => trivial
    trivial

end LocalJobRunner

/-- A dispatch that was read: the row that is stored has at least its version. -/
def Seen (d : LocalDb) (dispatch : Dispatch) : Prop :=
  ∃ row, d.dispatches.get? dispatch.id = some row ∧ dispatch.version ≤ row.version

/-- A dispatch that was read under a lease which was the current one later: the lease still is, or the row
has moved on. -/
def HeldSince (d : LocalDb) (token : String) (dispatch : Dispatch) : Prop :=
  ∃ row, d.dispatches.get? dispatch.id = some row ∧ dispatch.version ≤ row.version ∧
    (d.tokenOf dispatch.id = some token ∨ dispatch.version < row.version)

/-- Where an attempt under the lease of its dispatch may be. -/
inductive Position (d : LocalDb) (attempt : Attempt) (token : String) : Prop
  | starting (script : attempt.script = attempt.runner.script (.run attempt.dispatchId))
  | read (dispatch : Dispatch) (id : dispatch.id = attempt.dispatchId) (seen : Seen d dispatch)
      (script : attempt.script = (attempt.runner.proceed dispatch).handle fun _ => .ret .release)
  | entering (dispatch : Dispatch) (job : Job) (id : dispatch.id = attempt.dispatchId)
    (seen : Seen d dispatch)
      (script : attempt.script = (attempt.runner.enter dispatch job).handle fun _ => .ret .release)
  | taking (dispatch : Dispatch) (job : Job) (id : dispatch.id = attempt.dispatchId)
      (held : HeldSince d token dispatch)
      (script : attempt.script = .ret (.take dispatch job) ∨
        attempt.script = attempt.runner.script (.take dispatch job))
  | apart (script : attempt.script.Within (Query.Of attempt.runner.lease (· = "cancelled")) Next.isLater)

section
variable {d d' : LocalDb} {reply : Reply} {attempt : Attempt} {token : String} {dispatch : Dispatch}

theorem Seen.stays (h : Seen d dispatch) {call : Call} (hrun : call.prog.run d = .ok (reply, d')) :
    Seen d' dispatch := by
  obtain ⟨row, hrow, hversion⟩ := h
  obtain ⟨row', hrow', -, hgrown⟩ := call.dispatches_onward hrun _ row hrow
  exact ⟨row', hrow', hversion.trans hgrown⟩

/-- The claim that issues a dispatch's lease again moves its row on. -/
theorem issued_version {call : Call} {lease : Lease} {row : Dispatch}
    (hrun : call.prog.run d = .ok (reply, d')) (hissued : issuedBy (call, reply) = some lease)
    (hrow : d.dispatches.get? lease.1 = some row) :
    ∃ row', d'.dispatches.get? lease.1 = some row' ∧ row.version < row'.version := by
  cases call with
  | claimExecution dispatchId limit ttl maxAttempts token now =>
    obtain ⟨issued, hclaim, rfl⟩ := Prog.run_map_ok hrun
    cases claim_outcome.of_ok hclaim with
    | idle => cases hissued
    | lost => cases hissued
    | issued job dispatch attempts found going foundDispatch =>
      cases hissued
      have hid : dispatch.id = dispatchId := Table.key_of_get? foundDispatch
      have hsame : dispatch = row := Option.some.inj (foundDispatch.symm.trans hrow)
      refine ⟨{ dispatch with status := "pending", version := dispatch.version + 1 }, ?_, ?_⟩
      · rw [Table.get?_put, if_pos hid]
      · rw [← hsame]
        exact Nat.lt_succ_self _
  | _ => cases hissued

theorem HeldSince.stays (h : HeldSince d token dispatch) {call : Call}
    (hrun : call.prog.run d = .ok (reply, d')) : HeldSince d' token dispatch := by
  obtain ⟨row, hrow, hversion, hheld⟩ := h
  obtain ⟨row', hrow', -, hgrown⟩ := call.dispatches_onward hrun _ row hrow
  refine ⟨row', hrow', hversion.trans hgrown, ?_⟩
  rcases hheld with htoken | hmoved
  · have heffect := call.token_effect hrun dispatch.id
    cases hissued : (issuedBy (call, reply)).filter (·.1 = dispatch.id) with
    | none =>
      rw [hissued] at heffect
      exact Or.inl (heffect.trans htoken)
    | some lease =>
      right
      obtain ⟨hlease, hid⟩ := Option.filter_eq_some_iff.mp hissued
      have hid : lease.1 = dispatch.id := by simpa using hid
      obtain ⟨moved, hmoved, hversion'⟩ := issued_version hrun hlease (hid ▸ hrow)
      rw [hid, hrow'] at hmoved
      cases hmoved
      exact hversion.trans_lt hversion'
  · exact Or.inr (hmoved.trans_le hgrown)

theorem Position.stays (h : Position d attempt token) {call : Call}
    (hrun : call.prog.run d = .ok (reply, d')) :
    Position d' attempt token := by
  cases h with
  | starting script => exact .starting script
  | read dispatch id seen script => exact .read dispatch id (seen.stays hrun) script
  | entering dispatch job id seen script => exact .entering dispatch job id (seen.stays hrun) script
  | taking dispatch job id held script => exact .taking dispatch job id (held.stays hrun) script
  | apart script => exact .apart script

/-- A job update that commits was made under the current lease. -/
theorem update_current {job : Job} {event : JobTransitionEvent} {eventType dispatchId : String}
    {artifact : Option Artifact} {failure : Option (String × String)} {now : Time}
    (h : (Call.update job event eventType artifact (some (dispatchId, token)) failure now).prog.run d =
      .ok (reply, d')) : d.tokenOf dispatchId = some token := by
  simp only [Call.prog] at h
  cases ht : transition job event with
  | error e => simp [ht] at h
  | ok job =>
    simp only [ht] at h
    obtain ⟨e, hrun, -⟩ := Prog.run_map_ok h
    obtain ⟨row, hrow, htoken, -⟩ := (update_outcome.of_ok hrun).lease
    rw [LocalDb.tokenOf, hrow, ← htoken]
    rfl

end

namespace Attempt
variable {run : LocalRun} {moment : Moment} {attempt : Attempt}

theorem advance_ret {next : Next} (h : attempt.script = .ret next) :
    attempt.advance run moment = { attempt with script := attempt.runner.script next } := by
  unfold advance
  rw [h]

theorem advance_ask {q : Query} {k : q.Answer → Worker Next} (h : attempt.script = .ask q k) :
    attempt.advance run moment = { attempt with script := k (q.answer run moment) } := by
  unfold advance
  rw [h]

theorem call?_ask {q : Query} {k : q.Answer → Worker Next} (h : attempt.script = .ask q k) :
    attempt.call? moment = q.call? moment := by
  unfold call?
  rw [h]

@[simp] theorem advance_runner : (attempt.advance run moment).runner = attempt.runner := by
  unfold advance
  split <;> rfl

@[simp] theorem advance_dispatchId : (attempt.advance run moment).dispatchId = attempt.dispatchId := by
  unfold advance
  split <;> rfl

theorem advance_within (h : attempt.script.Within (Query.Of attempt.runner.lease fun _ => True)
    fun _ => True) :
    (attempt.advance run moment).script.Within (Query.Of attempt.runner.lease fun _ => True)
      fun _ => True := by
  cases hscript : attempt.script with
  | ret next =>
    rw [advance_ret hscript]
    exact LocalJobRunner.script_within next
  | raise e =>
    unfold advance
    rw [hscript]
    exact h
  | ask q k =>
    rw [advance_ask hscript]
    rw [hscript] at h
    exact h.2 _

theorem advance_apart
    (h : attempt.script.Within (Query.Of attempt.runner.lease (· = "cancelled")) Next.isLater) :
    (attempt.advance run moment).script.Within (Query.Of attempt.runner.lease (· = "cancelled"))
      Next.isLater := by
  cases hscript : attempt.script with
  | ret next =>
    rw [hscript] at h
    rw [advance_ret hscript]
    exact LocalJobRunner.script_later h
  | raise e =>
    unfold advance
    rw [hscript]
    exact h
  | ask q k =>
    rw [advance_ask hscript]
    rw [hscript] at h
    exact h.2 _

/-- The stores after the attempt's next step. -/
def after (attempt : Attempt) (run : LocalRun) (moment : Moment) : LocalRun :=
  (attempt.call? moment).elim run (run.step Call.prog)

/-- After an update that went through, the attempt is about to take the dispatch. -/
theorem update_taking {token : String} {dispatch : Dispatch} {job job' : Job} {event : JobTransitionEvent}
    {eventType : String} (hlease : attempt.runner.lease = some (attempt.dispatchId, token))
    (hid : dispatch.id = attempt.dispatchId) (hseen : Seen run.db dispatch)
    (hscript : attempt.script = (do
      let updated ← attempt.runner.update job event eventType (fun _ => none) none
      return if updated then Next.take dispatch job' else .release : Worker Next).handle fun _ =>
        .ret .release) :
    Position (attempt.after run moment).db (attempt.advance run moment) token := by
  have hcall : attempt.call? moment =
      some (.update job event eventType none attempt.runner.lease none moment.now) := by
    rw [call?_ask hscript]
    rfl
  have hadvance : attempt.advance run moment = _ := advance_ask hscript
  have hafter : attempt.after run moment =
      run.step Call.prog (.update job event eventType none attempt.runner.lease none moment.now) := by
    unfold after
    rw [hcall]
    rfl
  have hspec := Serial.step_spec Call.prog run
    (.update job event eventType none attempt.runner.lease none moment.now)
  rw [hafter]
  revert hspec
  generalize run.step Call.prog _ = run'
  intro hspec
  cases hspec with
  | commit ok =>
    have hscript' : (attempt.advance run moment).script = .ret (.take dispatch job') := by
      rw [hadvance]
      simp only [Query.answer, Prog.transaction_of_ok ok]
      rfl
    rw [hlease] at ok
    have htoken : run.db.tokenOf dispatch.id = some token := hid ▸ update_current ok
    obtain ⟨row, hrow, hversion⟩ := hseen
    have hheld : HeldSince run.db token dispatch := ⟨row, hrow, hversion, Or.inl htoken⟩
    refine .taking dispatch job' ?_ (hheld.stays ok) (Or.inl hscript')
    rw [advance_dispatchId, hid]
  | fail error =>
    rename_i e
    have hscript' : (attempt.advance run moment).script = .ret .release := by
      rw [hadvance]
      simp only [Query.answer, Prog.transaction_of_error error]
      by_cases he : e = .staleWrite
      · subst he
        rfl
      · show ((if e = .staleWrite then (.ret false : Worker Bool) else .raise e) >>= _).handle _ = _
        rw [if_neg he]
        rfl
    refine .apart ?_
    rw [hscript']
    trivial

theorem after_silent (h : attempt.call? moment = none) : attempt.after run moment = run := by
  unfold after
  rw [h]
  rfl

/-- The attempt's own step. -/
theorem advance_position {token : String} (hlease : attempt.runner.lease = some (attempt.dispatchId, token))
    (h : Position run.db attempt token) :
    Position (attempt.after run moment).db (attempt.advance run moment) token := by
  cases h with
  | starting script =>
    have hadvance : attempt.advance run moment = _ := advance_ask script
    rw [after_silent (by rw [call?_ask script]; rfl)]
    cases hget : run.db.dispatches.get? attempt.dispatchId with
    | none =>
      refine .apart ?_
      rw [hadvance]
      simp only [Query.answer, hget]
      trivial
    | some dispatch =>
      have hid : dispatch.id = attempt.dispatchId := Table.key_of_get? hget
      refine .read dispatch (by rw [advance_dispatchId, hid]) ⟨dispatch, hid ▸ hget, le_rfl⟩ ?_
      rw [hadvance]
      simp only [Query.answer, hget]
      rfl
  | read dispatch id seen script =>
    by_cases hpending : dispatch.status = "pending"
    · have hproceed : attempt.runner.proceed dispatch =
          (Worker.getJob dispatch.jobId >>= attempt.runner.enter dispatch) := by
        unfold LocalJobRunner.proceed
        rw [if_neg (by simp [hpending])]
      rw [hproceed] at script
      have hadvance : attempt.advance run moment = _ := advance_ask script
      rw [after_silent (by rw [call?_ask script]; rfl)]
      cases hget : run.db.jobs.get? dispatch.jobId with
      | none =>
        refine .apart ?_
        rw [hadvance]
        simp only [Query.answer, hget]
        trivial
      | some job =>
        refine .entering dispatch job (by rw [advance_dispatchId, id]) seen ?_
        rw [hadvance]
        simp only [Query.answer, hget]
        rfl
    · have hproceed : attempt.runner.proceed dispatch = .ret .release := by
        unfold LocalJobRunner.proceed
        rw [if_pos (by simpa using hpending)]
        rfl
      rw [hproceed] at script
      refine .apart ?_
      rw [advance_runner]
      refine advance_apart ?_
      rw [script]
      trivial
  | entering dispatch job id seen script =>
    by_cases hqueued : job.status = .queued
    · simp only [LocalJobRunner.enter, hqueued] at script
      exact update_taking hlease id seen script
    by_cases hrunning : job.status = .running
    · simp only [LocalJobRunner.enter, hrunning, hlease, Option.isSome_some, if_true] at script
      exact update_taking hlease id seen script
    · refine .apart ?_
      rw [advance_runner]
      refine advance_apart ?_
      rw [script]
      have hexits : (attempt.runner.enter dispatch job).Within
          (Query.Of attempt.runner.lease (· = "cancelled"))
          Next.isLater := LocalJobRunner.enter_exits rfl hqueued hrunning
      exact hexits.handle fun _ => trivial
  | taking dispatch job id held script =>
    rcases script with script | script
    · rw [after_silent (by unfold call?; rw [script])]
      refine .taking dispatch job (by rw [advance_dispatchId, id]) held (Or.inr ?_)
      rw [advance_ret script]
    · refine .apart ?_
      rw [advance_ask script]
      cases hreply : ((Call.updateDispatch dispatch "running").prog.transaction run.db).1 with
      | ok reply =>
        simp only [Query.answer, hreply]
        trivial
      | error e =>
        simp only [Query.answer, hreply]
        trivial
  | apart script =>
    refine .apart ?_
    rw [advance_runner]
    exact advance_apart script

end Attempt

end KenkuiServer.Local
