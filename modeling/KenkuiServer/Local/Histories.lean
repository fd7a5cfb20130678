import KenkuiServer.Data.Trace
import KenkuiServer.Local.Superseded

/-! What an attempt asks, after all that it has asked and heard before: it updates what it has read, publishes
what it has written, and removes its output only when a cancellation has been requested. -/
namespace KenkuiServer.Local
open Data Jobs Storage

/-- The exchanges of an attempt, the newest first. -/
abbrev History := List (Sigma Query.Answer)

/-- The attempt has put its output at `path`. -/
inductive Wrote (path : String) : Sigma Query.Answer → Prop
  | write : Wrote path ⟨.write path, ()⟩
  | rendered : Wrote path ⟨.engine path, EngineStep.returned⟩

/-- A query that publishes an artifact. -/
def Query.Publishes (q : Query) : Prop :=
  ∃ moment job event eventType artifact lease failure now,
    q.call? moment = some (.update job event eventType (some artifact) lease failure now)

/-- A query that neither publishes nor removes anything. -/
structure Query.Plain (q : Query) : Prop where
  publishes : ¬ q.Publishes
  unlinks : ∀ path, q ≠ .unlink path

namespace History

def ReadJob (past : History) (jobId : String) (job : Job) : Prop := ⟨.job jobId, some job⟩ ∈ past

def ReadDispatch (past : History) (dispatchId : String) (dispatch : Dispatch) : Prop :=
  ⟨.dispatch dispatchId, some dispatch⟩ ∈ past

/-- Nothing has been published or removed so far. -/
def Early (past : History) : Prop := ∀ exchange ∈ past, exchange.1.Plain

/-- The transaction that is to finish the dispatch has left it to a cancellation. -/
def Refused (past : History) (lease : Option Lease) (dispatch : Dispatch) : Prop :=
  ∃ reply, reply ≠ Reply.flag true ∧
    ⟨.call fun moment => .finishDispatch dispatch lease moment.now, .ok reply⟩ ∈ past

/-- The attempt knows which job it works for. -/
structure WorksFor (past : History) (dispatchId jobId : String) (dispatch : Dispatch) (job : Job) : Prop where
  readDispatch : ∃ id, past.ReadDispatch id dispatch
  id : dispatch.id = dispatchId
  readJob : past.ReadJob dispatch.jobId job
  jobId : job.id = jobId

/-- It knows that the job's cancellation has been requested. -/
inductive Requested (past : History) (lease : Option Lease) (jobId : String) : Prop
  | read (job : Job) (read : past.ReadJob jobId job) (requested : job.status = .cancelRequested)
  | refused (dispatchId : String) (dispatch dispatch' : Dispatch) (job : Job)
      (works : past.WorksFor dispatchId jobId dispatch job) (read : past.ReadDispatch dispatchId dispatch')
      (refused : past.Refused lease dispatch')

/-- `past'` goes on from `past`. -/
structure Grows (past past' : History) : Prop where
  subset : past ⊆ past'

/-- It does so without publishing or removing anything. -/
structure Calm (past past' : History) : Prop extends Grows past past' where
  early : past.Early → past'.Early

section
variable {past past' past'' : History} {lease : Option Lease} {dispatchId jobId : String}
    {dispatch : Dispatch} {job : Job}

theorem WorksFor.mono (h : past.WorksFor dispatchId jobId dispatch job) (hgrows : Grows past past') :
    past'.WorksFor dispatchId jobId dispatch job := by
  obtain ⟨id, hdispatch⟩ := h.readDispatch
  exact ⟨⟨id, hgrows.subset hdispatch⟩, h.id, hgrows.subset h.readJob, h.jobId⟩

theorem Grows.refl (past : History) : Grows past past := ⟨fun _ h => h⟩

theorem Grows.trans (h : Grows past past') (h' : Grows past' past'') : Grows past past'' :=
  ⟨fun _ hmem => h'.subset (h.subset hmem)⟩

theorem grows_cons (exchange : Sigma Query.Answer) : Grows past (exchange :: past) :=
  ⟨List.subset_cons_self exchange past⟩

theorem Calm.trans (h : Calm past past') (h' : Calm past' past'') : Calm past past'' := by
  constructor
  · exact h.toGrows.trans h'.toGrows
  · exact fun hearly => h'.early (h.early hearly)

theorem calm_cons {exchange : Sigma Query.Answer} (h : exchange.1.Plain) : Calm past (exchange :: past) := by
  constructor
  · exact grows_cons exchange
  · intro hearly exchange' hmem
    rcases List.mem_cons.mp hmem with rfl | hmem
    · exact h
    · exact hearly exchange' hmem

end

end History

theorem plain_silent {q : Query} (h : ∀ moment, q.call? moment = none) (hunlink : ∀ path, q ≠ .unlink path) :
    q.Plain := by
  constructor
  · rintro ⟨moment, job, event, eventType, artifact, lease, failure, now, hcall⟩
    rw [h] at hcall
    cases hcall
  · exact hunlink

theorem plain_job (jobId : String) : (Query.job jobId).Plain := plain_silent (fun _ => rfl) (by simp)

theorem plain_dispatch (dispatchId : String) : (Query.dispatch dispatchId).Plain := plain_silent
    (fun _ => rfl) (by simp)

theorem plain_asset (assetId : String) : (Query.asset assetId).Plain := plain_silent (fun _ => rfl) (by simp)

theorem plain_write (path : String) : (Query.write path).Plain := plain_silent (fun _ => rfl) (by simp)

theorem plain_engine (path : String) : (Query.engine path).Plain := plain_silent (fun _ => rfl) (by simp)

theorem plain_call {call : Moment → Call}
    (h : ∀ moment job event eventType artifact lease failure now,
      call moment ≠ .update job event eventType (some artifact) lease failure now) :
        (Query.call call).Plain := by
  constructor
  · rintro ⟨moment, job, event, eventType, artifact, lease, failure, now, hcall⟩
    exact h moment job event eventType artifact lease failure now (Option.some.inj hcall)
  · simp

section
variable (runner : LocalJobRunner) (past : History)

/-- The calls that an attempt makes. -/
inductive HonestCall : Call → Prop
  | progress (jobId : String) (job : Job) (event : JobTransitionEvent) (eventType : String)
      (failure : Option (String × String)) (now : Time) (read : past.ReadJob jobId job)
      (going : event ≠ .completed) :
    HonestCall (.update job event eventType none runner.lease failure now)
  | completed (jobId : String) (job : Job) (uuid : String) (now : Time) (read : past.ReadJob jobId job)
      (early : past.Early) (wrote : ∃ exchange ∈ past, Wrote (runner.output jobId) exchange) :
    HonestCall (.update job .completed "completed"
      (some ⟨uuid, job.id, runner.output jobId, "m4b"⟩) runner.lease
      none now)
  | take (dispatchId : String) (dispatch : Dispatch) (status : String)
    (read : past.ReadDispatch dispatchId dispatch)
      (pending : dispatch.status = "pending") (going : status ≠ "done") :
    HonestCall (.updateDispatch dispatch status)
  | finish (dispatchId : String) (dispatch : Dispatch) (now : Time)
    (read : past.ReadDispatch dispatchId dispatch) :
    HonestCall (.finishDispatch dispatch runner.lease now)
  | release (dispatchId token : String) : HonestCall (.releaseExecution dispatchId token)

/-- The queries that it makes. -/
inductive Honest : Query → Prop
  | dispatch (dispatchId : String) : Honest (.dispatch dispatchId)
  | job (jobId : String) : Honest (.job jobId)
  | asset (assetId : String) : Honest (.asset assetId)
  | call (call : Moment → Call) (honest : ∀ moment, HonestCall runner past (call moment)) :
    Honest (.call call)
  | write (jobId : String) (job : Job) (read : past.ReadJob jobId job) (early : past.Early) :
    Honest (.write (runner.output job.id))
  | engine (jobId : String) (job : Job) (read : past.ReadJob jobId job) (early : past.Early) :
    Honest (.engine (runner.output job.id))
  | unlink (jobId : String) (requested : past.Requested runner.lease jobId) :
    Honest (.unlink (runner.output jobId))

/-- What it knows at the point where it goes on. -/
inductive Ready : Next → Prop
  | run (dispatchId : String) (early : past.Early) : Ready (.run dispatchId)
  | take (dispatch : Dispatch) (job : Job) (works : past.WorksFor dispatch.id job.id dispatch job)
      (pending : dispatch.status = "pending") (early : past.Early) : Ready (.take dispatch job)
  | render (dispatchId : String) (dispatch : Dispatch) (job : Job)
      (works : past.WorksFor dispatchId job.id dispatch job) (early : past.Early) :
      Ready (.render dispatchId job)
  | rendering (dispatchId : String) (dispatch : Dispatch) (job : Job)
      (works : past.WorksFor dispatchId job.id dispatch job) (early : past.Early) :
      Ready (.rendering dispatchId job)
  | finish (dispatchId jobId : String) (output : Option String) (dispatch : Dispatch) (job : Job)
      (works : past.WorksFor dispatchId jobId dispatch job)
      (own : ∀ path ∈ output, path = runner.output jobId) :
    Ready (.finish dispatchId jobId output)
  | release : Ready .release
  | finished : Ready .finished

end

/-- Every query of the script is honest, and it ends as `R` says. -/
abbrev Tells (runner : LocalJobRunner) {α : Type} (R : History → Except Error α → Prop) (p : Worker α)
    (past : History) : Prop :=
  p.Follows (Honest runner) R past

namespace LocalJobRunner
open Worker
variable {runner : LocalJobRunner} {past : History} {α β : Type} {R : History → Except Error α → Prop}

theorem tells_transact {call : Moment → Call} {f : Except Error Reply → Worker α}
    (hcall : ∀ moment, HonestCall runner past (call moment))
    (hf : ∀ reply, Tells runner R (f reply) (⟨.call call, reply⟩ :: past)) :
    Tells runner R (transact call >>= f) past :=
  ⟨.call call hcall, hf⟩

theorem tells_getJob {jobId : String} {f : Job → Worker α}
    (hf : ∀ job past', History.Calm past past' → past'.ReadJob jobId job → Tells runner R (f job) past')
    (herror : ∀ past' e, History.Calm past past' → R past' (.error e)) :
    Tells runner R (getJob jobId >>= f) past := by
  refine ⟨.job jobId, fun (answer : Option Job) => ?_⟩
  have hcalm : History.Calm past (⟨.job jobId, answer⟩ :: past) := History.calm_cons (plain_job jobId)
  cases answer with
  | none => exact herror _ _ hcalm
  | some job => exact hf job _ hcalm List.mem_cons_self

theorem tells_getDispatch {dispatchId : String} {f : Dispatch → Worker α}
    (hf : ∀ dispatch past', History.Calm past past' → past'.ReadDispatch dispatchId dispatch →
      Tells runner R (f dispatch) past')
    (herror : ∀ past' e, History.Calm past past' → R past' (.error e)) :
    Tells runner R (getDispatch dispatchId >>= f) past := by
  refine ⟨.dispatch dispatchId, fun (answer : Option Dispatch) => ?_⟩
  have hcalm : History.Calm past (⟨.dispatch dispatchId, answer⟩ :: past) :=
    History.calm_cons (plain_dispatch dispatchId)
  cases answer with
  | none => exact herror _ _ hcalm
  | some dispatch => exact hf dispatch _ hcalm List.mem_cons_self

theorem getAsset_tells (assetId : String) :
    Tells runner (fun past' _ => History.Calm past past') (getAsset assetId) past := by
  refine ⟨.asset assetId, fun (answer : Bool) => ?_⟩
  have hcalm : History.Calm past (⟨.asset assetId, answer⟩ :: past) := History.calm_cons (plain_asset assetId)
  cases answer <;> exact hcalm

/-- An update that publishes nothing. -/
theorem update_tells {jobId : String} {job : Job} (hread : past.ReadJob jobId job)
    {event : JobTransitionEvent} (hgoing : event ≠ .completed) (eventType : String)
    (failure : Option (String × String)) :
    Tells runner (fun past' _ => History.Calm past past')
      (runner.update job event eventType (fun _ => none) failure) past := by
  refine tells_transact (fun moment => .progress jobId job event eventType failure moment.now hread hgoing)
    fun reply => ?_
  have hcalm : History.Calm past
      (⟨.call fun moment => .update job event eventType none runner.lease failure moment.now,
        reply⟩ :: past) := by
    apply History.calm_cons
    apply plain_call
    simp
  cases reply with
  | ok reply => exact hcalm
  | error e =>
    simp only
    split_ifs <;> exact hcalm

theorem updateDispatch_tells {dispatchId status : String} {dispatch : Dispatch}
    (hread : past.ReadDispatch dispatchId dispatch) (hpending : dispatch.status = "pending")
    (hgoing : status ≠ "done") :
    Tells runner (fun past' _ => History.Calm past past') (updateDispatch dispatch status) past := by
  refine tells_transact (fun moment => .take dispatchId dispatch status hread hpending hgoing) fun reply => ?_
  have hcalm : History.Calm past (⟨.call fun _ => .updateDispatch dispatch status, reply⟩ :: past) := by
    apply History.calm_cons
    apply plain_call
    simp
  cases reply <;> exact hcalm

theorem cancelIfRequested_tells (jobId : String) :
    Tells runner (fun past' _ => History.Calm past past') (runner.cancelIfRequested jobId) past := by
  refine tells_getJob (fun current past' hcalm hread => ?_) fun _ _ hcalm => hcalm
  split_ifs
  · refine (update_tells hread (by simp) _ _).bind ?_ ?_
    · exact fun past'' _ hcalm' => hcalm.trans hcalm'
    · exact fun past'' _ hcalm' => hcalm.trans hcalm'
  · exact hcalm

theorem failIfRunning_tells (jobId : String) (error : Option (String × String)) :
    Tells runner (fun past' _ => History.Calm past past') (runner.failIfRunning jobId error) past := by
  refine tells_getJob (fun current past' hcalm hread => ?_) fun _ _ hcalm => hcalm
  split_ifs
  · refine (update_tells hread (by simp) _ _).bind ?_ ?_
    · exact fun past'' _ hcalm' => hcalm.trans hcalm'
    · exact fun past'' _ hcalm' => hcalm.trans hcalm'
  · exact hcalm

theorem fail_tells (jobId : String) (error : Option (String × String)) :
    Tells runner (fun past' _ => History.Calm past past') (runner.fail jobId error) past := by
  refine tells_getJob (fun current past' hcalm _ => ?_) fun _ _ hcalm => hcalm
  split_ifs
  · exact (cancelIfRequested_tells jobId).imp fun past'' _ hcalm' => hcalm.trans hcalm'
  · exact (failIfRunning_tells jobId error).imp fun past'' _ hcalm' => hcalm.trans hcalm'

theorem excepting_tells {jobId : String} {p : Worker Unit}
    (hp : Tells runner (fun past' _ => History.Grows past past') p past) :
    Tells runner (fun past' _ => History.Grows past past') (runner.excepting jobId p) past := by
  refine hp.handle (fun _ _ hgrows => hgrows) fun past' e hgrows => ?_
  split_ifs
  · exact hgrows
  · exact (fail_tells jobId none).imp fun past'' _ hcalm => hgrows.trans hcalm.toGrows

theorem discard_tells {jobId : String} (hrequested : past.Requested runner.lease jobId) :
    Tells runner (fun past' _ => History.Grows past past') (runner.discard jobId) past := by
  refine ⟨.unlink jobId hrequested, fun _ => ?_⟩
  exact (cancelIfRequested_tells jobId).imp fun past' _ hcalm => (History.grows_cons _).trans hcalm.toGrows

/-- The output is published once it is written, and removed only when the cancellation is requested. -/
theorem publish_tells {jobId : String} (hearly : past.Early)
    (hwrote : ∃ exchange ∈ past, Wrote (runner.output jobId) exchange) :
    Tells runner (fun past' _ => History.Grows past past') (runner.publish jobId) past := by
  refine tells_getJob (fun current past' hcalm hread => ?_) fun _ _ hcalm => hcalm.toGrows
  have hread_on := hcalm.toGrows
  split_ifs with hrequested
  · exact (discard_tells (.read current hread hrequested)).imp fun _ _ hgrows => hread_on.trans hgrows
  have hupdate : Tells runner (fun past'' _ => History.Grows past' past'')
      (runner.update current .completed "completed"
      (fun moment => some ⟨moment.uuid, current.id, runner.output jobId, "m4b"⟩) none) past' := by
    refine tells_transact (fun moment => ?_) fun reply => ?_
    · obtain ⟨exchange, hmem, hexchange⟩ := hwrote
      exact .completed jobId current moment.uuid moment.now hread (hcalm.early hearly)
        ⟨exchange, hcalm.subset hmem, hexchange⟩
    · cases reply with
      | ok reply => exact History.grows_cons _
      | error e =>
        simp only
        split_ifs <;> exact History.grows_cons _
  refine hupdate.bind (fun past'' updated hgrows => ?_) fun _ _ hgrows => hread_on.trans hgrows
  have hpast : History.Grows past past'' := hread_on.trans hgrows
  split_ifs
  · exact hpast
  refine tells_getJob (fun current' past₃ hcalm' hread' => ?_) fun _ _ hcalm' => hpast.trans hcalm'.toGrows
  have hon := hpast.trans hcalm'.toGrows
  split_ifs with hrequested'
  · exact (discard_tells (.read current' hread' hrequested')).imp fun _ _ hgrows' => hon.trans hgrows'
  · exact hon

theorem onEvent_tells (jobId : String) (event : ExecutionEvent) :
    Tells runner (fun past' _ => History.Calm past past') (runner.onEvent jobId event) past := by
  refine tells_getJob (fun current past' hcalm hread => ?_) fun _ _ hcalm => hcalm
  split_ifs
  · exact hcalm
  cases event.completed with
  | none => exact hcalm
  | some completed =>
    simp only
    split_ifs
    · exact hcalm
    · refine (update_tells hread (by simp) _ _).bind ?_ ?_
      · exact fun past'' _ hcalm' => hcalm.trans hcalm'
      · exact fun past'' _ hcalm' => hcalm.trans hcalm'

/-- Where a script ends: the attempt is ready to go on. -/
structure Ends (runner : LocalJobRunner) (past past' : History) (result : Except Error Next) : Prop where
  grows : History.Grows past past'
  ready : ∀ next, result = .ok next → Ready runner past' next

theorem ends_ok {past' : History} {next : Next} (hgrows : History.Grows past past')
    (h : Ready runner past' next) :
    Ends runner past past' (.ok next) := by
  constructor
  · exact hgrows
  · intro next' hnext
    cases hnext
    exact h

theorem ends_error {past' : History} (hgrows : History.Grows past past') (e : Error) :
    Ends runner past past' (.error e) := by
  constructor
  · exact hgrows
  · intro next hnext
    cases hnext

theorem tells_grown {past' : History} {p : Worker Next} (hgrows : History.Grows past past')
    (hp : Tells runner (Ends runner past') p past') : Tells runner (Ends runner past) p past' :=
  hp.imp fun _ _ hends => ⟨hgrows.trans hends.grows, hends.ready⟩

/-- A script that neither publishes nor removes anything, and what follows it. -/
theorem tells_calm {p : Worker β} {f : β → Worker Next}
    (hp : Tells runner (fun past' _ => History.Calm past past') p past)
    (hf : ∀ past' b, History.Calm past past' → Tells runner (Ends runner past') (f b) past') :
    Tells runner (Ends runner past) (p >>= f) past := by
  refine hp.bind (fun past' b hcalm => ?_) fun past' e hcalm => ends_error hcalm.toGrows e
  exact tells_grown hcalm.toGrows (hf past' b hcalm)

theorem tells_grows {p : Worker β} {f : β → Worker Next}
    (hp : Tells runner (fun past' _ => History.Grows past past') p past)
    (hf : ∀ past' b, History.Grows past past' → Tells runner (Ends runner past') (f b) past') :
    Tells runner (Ends runner past) (p >>= f) past := by
  refine hp.bind (fun past' b hgrows => ?_) fun past' e hgrows => ends_error hgrows e
  exact tells_grown hgrows (hf past' b hgrows)

/-- An exception leads on to a point that the attempt is ready for as soon as it starts. -/
theorem handle_tells {p : Worker Next} {next : Next} (hp : Tells runner (Ends runner past) p past)
    (hnext : ∀ past', History.Grows past past' → Ready runner past' next) :
    Tells runner (Ends runner past) (p.handle fun _ => .ret next) past := by
  refine hp.handle (fun past' next' hends => hends) fun past' e hends => ?_
  exact ends_ok hends.grows (hnext past' hends.grows)

theorem enter_tells {dispatchId : String} {dispatch : Dispatch} {job : Job}
    (hread : past.ReadDispatch dispatchId dispatch) (hpending : dispatch.status = "pending")
    (hjob : past.ReadJob dispatch.jobId job) (hearly : past.Early) :
    Tells runner (Ends runner past) (runner.enter dispatch job) past := by
  have hcancelled : "cancelled" ≠ "done" := by decide
  have hworks : past.WorksFor dispatch.id job.id dispatch job := ⟨⟨dispatchId, hread⟩, rfl, hjob, rfl⟩
  have hready : ∀ past', History.Calm past past' → ∀ updated : Bool,
      Ready runner past' (if updated then .take dispatch job else .release) := by
    intro past' hcalm updated
    split_ifs
    · exact .take dispatch job (hworks.mono hcalm.toGrows) hpending (hcalm.early hearly)
    · exact .release
  unfold enter
  split
  · refine tells_calm (updateDispatch_tells hread hpending hcancelled) fun past' _ hcalm => ?_
    exact ends_ok (.refl past') .release
  · refine tells_calm (cancelIfRequested_tells job.id) fun past' _ hcalm => ?_
    refine tells_calm (updateDispatch_tells (hcalm.subset hread) hpending hcancelled) fun past'' _ _ => ?_
    exact ends_ok (.refl past'') .release
  · refine tells_calm (update_tells hjob (by simp) _ _) fun past' updated hcalm => ?_
    exact ends_ok (.refl past') (hready past' hcalm updated)
  · split_ifs
    · refine tells_calm (update_tells hjob (by simp) _ _) fun past' updated hcalm => ?_
      exact ends_ok (.refl past') (hready past' hcalm updated)
    · exact ends_ok (.refl past) (.take dispatch job hworks hpending hearly)
  · exact ends_ok (.refl past) .release

theorem start_tells {dispatchId : String} (hearly : past.Early) :
    Tells runner (Ends runner past) (runner.start dispatchId) past := by
  refine tells_getDispatch (fun dispatch past' hcalm hread => ?_) fun past' e hcalm =>
    ends_error hcalm.toGrows e
  refine tells_grown hcalm.toGrows ?_
  unfold proceed
  split_ifs with hpending
  · exact ends_ok (.refl past') .release
  refine tells_getJob (fun job past'' hcalm' hjob => ?_) fun past'' e hcalm' => ends_error hcalm'.toGrows e
  refine tells_grown hcalm'.toGrows
    (enter_tells (hcalm'.subset hread) ?_ hjob (hcalm'.early (hcalm.early hearly)))
  simpa using hpending

theorem render_tells {dispatchId : String} {dispatch : Dispatch} {job : Job}
    (hworks : past.WorksFor dispatchId job.id dispatch job) (hearly : past.Early) :
    Tells runner (Ends runner past) (runner.render dispatchId job) past := by
  have hfinish : ∀ past', History.Grows past past' → Ready runner past' (.finish dispatchId job.id none) := by
    intro past' hgrows
    exact .finish dispatchId job.id none dispatch job (hworks.mono hgrows) (by simp)
  have hasset : Tells runner (Ends runner past) (do
      getAsset job.spec.sourceId
      return Next.rendering dispatchId job) past := by
    refine tells_calm (getAsset_tells job.spec.sourceId) fun past' _ hcalm => ?_
    exact ends_ok (.refl past') (.rendering dispatchId dispatch job (hworks.mono hcalm.toGrows)
      (hcalm.early hearly))
  refine hasset.handle (fun past' next hends => hends) fun past' e hends => ?_
  refine tells_grown hends.grows (tells_calm (fail_tells job.id none) fun past'' _ hcalm => ?_)
  exact ends_ok (.refl past'') (hfinish past'' (hends.grows.trans hcalm.toGrows))

theorem rendering_tells {dispatchId : String} {dispatch : Dispatch} {job : Job}
    (hworks : past.WorksFor dispatchId job.id dispatch job) (hearly : past.Early) :
    Tells runner (Ends runner past) (runner.rendering dispatchId job) past := by
  have hfinish : ∀ past', History.Grows past past' →
      Ready runner past' (.finish dispatchId job.id (some (runner.output job.id))) := by
    intro past' hgrows
    exact .finish dispatchId job.id _ dispatch job (hworks.mono hgrows) (by simp)
  unfold rendering
  simp only
  split_ifs
  · refine tells_grows (excepting_tells ?_) fun past' _ hgrows => ends_ok (.refl past') (hfinish past' hgrows)
    refine ⟨.write dispatch.jobId job hworks.readJob hearly, fun _ => ?_⟩
    have hcalm : History.Calm past (⟨.write (runner.output job.id), ()⟩ :: past) :=
      History.calm_cons (plain_write _)
    have hpublish : Tells runner (fun past' _ => History.Grows _ past') (runner.publish job.id) _ :=
      publish_tells (hcalm.early hearly) ⟨_, List.mem_cons_self, .write⟩
    exact hpublish.imp fun past' _ hgrows => hcalm.toGrows.trans hgrows
  · refine ⟨.engine dispatch.jobId job hworks.readJob hearly, fun (step : EngineStep) => ?_⟩
    have hcalm : History.Calm past (⟨.engine (runner.output job.id), step⟩ :: past) :=
      History.calm_cons (plain_engine _)
    refine tells_grown hcalm.toGrows ?_
    change Tells runner _ (Script.ret step >>= _) _
    rw [Script.ret_bind]
    have hgrown : ∀ past', History.Grows (⟨.engine (runner.output job.id), step⟩ :: past) past' →
        Ready runner past' (.finish dispatchId job.id (some (runner.output job.id))) := by
      intro past' hgrows
      exact hfinish past' (hcalm.toGrows.trans hgrows)
    cases step with
    | event event =>
      have hevent : Tells runner (fun past' _ =>
        History.Calm (⟨.engine (runner.output job.id), .event event⟩ :: past) past')
          ((runner.onEvent job.id event).handle fun _ => .ret ())
            (⟨.engine (runner.output job.id), .event event⟩ :: past) :=
        (onEvent_tells job.id event).handle (fun _ _ hcalm' => hcalm') fun _ _ hcalm' => hcalm'
      refine tells_calm hevent fun past' _ hcalm' => ?_
      exact ends_ok (.refl past') (.rendering dispatchId dispatch job
        (hworks.mono (hcalm.trans hcalm').toGrows) ((hcalm.trans hcalm').early hearly))
    | wrote =>
      exact ends_ok (.refl _) (.rendering dispatchId dispatch job (hworks.mono hcalm.toGrows)
        (hcalm.early hearly))
    | returned =>
      have hpublish : Tells runner (fun past' _ => History.Grows _ past') (runner.publish job.id) _ :=
        publish_tells (hcalm.early hearly) ⟨_, List.mem_cons_self, .rendered⟩
      exact tells_grows (excepting_tells hpublish) fun past' _ hgrows =>
        ends_ok (.refl past') (hgrown past' hgrows)
    | cancelled =>
      exact tells_calm (cancelIfRequested_tells job.id) fun past' _ hcalm' =>
        ends_ok (.refl past') (hgrown past' hcalm'.toGrows)
    | failed error =>
      exact tells_calm (fail_tells job.id error) fun past' _ hcalm' =>
        ends_ok (.refl past') (hgrown past' hcalm'.toGrows)
    | interrupted => exact ends_ok (.refl _) (hgrown _ (.refl _))

/-- A round of the loop removes the output only after the transaction has left the dispatch to a
cancellation. -/
theorem finishDispatch_tells {dispatchId jobId : String} {output : Option String}
    {dispatch : Dispatch} {job : Job} (hworks : past.WorksFor dispatchId jobId dispatch job)
    (hown : ∀ path ∈ output, path = runner.output jobId) :
    Tells runner (Ends runner past) (runner.finishDispatch dispatchId jobId output) past := by
  refine tells_getJob (fun current past' hcalm _ => ?_) fun past' e hcalm => ends_error hcalm.toGrows e
  refine tells_grown hcalm.toGrows ?_
  split_ifs
  · exact ends_ok (.refl past') .release
  refine tells_getDispatch (fun dispatch' past'' hcalm' hread => ?_) fun past'' e hcalm' =>
    ends_error hcalm'.toGrows e
  refine tells_grown hcalm'.toGrows ?_
  split_ifs
  · exact ends_ok (.refl past'') .release
  have hworks' := hworks.mono (hcalm.trans hcalm').toGrows
  have hcall : Tells runner (fun past₃ result => History.Grows past'' past₃ ∧
      (result = .ok false → past₃.Refused runner.lease dispatch'))
        (runner.finishDispatchCall dispatch') past'' := by
    refine tells_transact (fun moment => .finish dispatchId dispatch' moment.now hread) fun reply => ?_
    cases reply with
    | error e =>
      refine ⟨History.grows_cons _, ?_⟩
      intro hresult
      cases hresult
    | ok reply =>
      refine ⟨History.grows_cons _, fun hresult => ⟨reply, ?_, List.mem_cons_self⟩⟩
      simpa using hresult
  refine hcall.bind (fun past₃ finished hrefused => ?_) fun past₃ e hgrows => ends_error hgrows.1 e
  refine tells_grown hrefused.1 ?_
  split_ifs with hfinished
  · exact ends_ok (.refl past₃) .release
  have hunlink : Tells runner (fun past₄ _ => History.Grows past₃ past₄) (unlinkOutput output) past₃ := by
    cases output with
    | none => exact .refl past₃
    | some path =>
      have hpath : path = runner.output jobId := hown path rfl
      have hleft : History.Refused past₃ runner.lease dispatch' := hrefused.2 (by simpa using hfinished)
      rw [hpath]
      refine ⟨.unlink jobId ?_, fun _ => History.grows_cons _⟩
      exact .refused dispatchId dispatch dispatch' job (hworks'.mono hrefused.1)
        (hrefused.1.subset hread) hleft
  refine tells_grows hunlink fun past₄ _ hgrows => ?_
  refine tells_calm (cancelIfRequested_tells jobId) fun past₅ _ hcalm₅ => ?_
  have hon := (hrefused.1.trans hgrows).trans hcalm₅.toGrows
  exact ends_ok (.refl past₅) (.finish dispatchId jobId output dispatch job (hworks'.mono hon) hown)

theorem releaseExecution_tells : Tells runner (Ends runner past) runner.releaseExecution past := by
  unfold releaseExecution
  split
  · exact ends_ok (.refl past) .finished
  · rename_i dispatchId token hlease
    refine tells_transact (fun _ => .release dispatchId token) fun reply => ?_
    exact ends_ok (History.grows_cons _) .finished

/-- From every point that it is ready for, an attempt goes on honestly. -/
theorem script_tells {next : Next} (h : Ready runner past next) :
    Tells runner (Ends runner past) (runner.script next) past := by
  cases h with
  | run dispatchId early => exact handle_tells (start_tells early) fun _ _ => .release
  | take dispatch job works pending early =>
    refine handle_tells ?_ fun _ _ => .release
    obtain ⟨dispatchId, hread⟩ := works.readDispatch
    refine tells_calm (updateDispatch_tells hread pending (by decide)) fun past' _ hcalm => ?_
    exact ends_ok (.refl past') (.render dispatch.id dispatch job (works.mono hcalm.toGrows)
      (hcalm.early early))
  | render dispatchId dispatch job works early =>
    refine handle_tells (render_tells works early) fun past' hgrows => ?_
    exact .finish dispatchId job.id none dispatch job (works.mono hgrows) (by simp)
  | rendering dispatchId dispatch job works early =>
    refine handle_tells (rendering_tells works early) fun past' hgrows => ?_
    exact .finish dispatchId job.id _ dispatch job (works.mono hgrows) (by simp)
  | finish dispatchId jobId output dispatch job works own =>
    exact handle_tells (finishDispatch_tells works own) fun _ _ => .release
  | release => exact releaseExecution_tells
  | finished => exact ends_ok (.refl past) .finished

end LocalJobRunner

end KenkuiServer.Local
