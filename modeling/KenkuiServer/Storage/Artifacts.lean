import KenkuiServer.Hosted.Dispatches

/-! Artifacts in the private bucket, the rows of `stored_objects` that are kept of their uploads, and the
retention of both. Only the completion of a job inserts an artifact, and only an admission an idempotency
key. -/
namespace KenkuiServer.Storage
open Txn Jobs

inductive RetentionKind
  | temporary
  | source
  | artifact
  deriving DecidableEq, Repr

/-- A row of `stored_objects`. -/
structure StoredObject where
  id : String
  objectKind : RetentionKind
  opaqueObjectKey : String
  terminalAt : Time
  resourceId : String
  allDependentJobsTerminal : Bool := true
  deletedAt : Option Time := none
  deriving DecidableEq

abbrev StoredObjects := Table StoredObject.id

/-- An artifact's object in the private bucket. -/
structure ArtifactObject where
  identifier : String
  content : List UInt8
  deriving DecidableEq

abbrev ArtifactObjects := Table ArtifactObject.identifier

/-- `INSERT INTO stored_objects .. ON CONFLICT(object_kind, resource_id) DO NOTHING`. -/
def StoredObjects.insertOnce (stored : StoredObjects) (row : StoredObject) : Except Error StoredObjects :=
  if stored.rows.any fun old => old.objectKind = row.objectKind ∧
    old.resourceId = row.resourceId then .ok stored
  else if (stored.get? row.id).isSome then .error (.integrity "stored_objects_pkey")
  else if stored.rows.any (·.opaqueObjectKey = row.opaqueObjectKey) then
    .error (.integrity "stored_objects_opaque_object_key_key")
  else .ok (stored.put row)

/-- `UPDATE stored_objects SET deleted_at=now() WHERE id`, for each of the rows. -/
def StoredObjects.markDeleted (stored : StoredObjects) (ids : List String) (now : Time) : StoredObjects :=
  stored.map (fun row => if row.id ∈ ids then { row with deletedAt := some now } else row) fun row => by
    split_ifs <;> rfl

theorem StoredObjects.mem_markDeleted {stored : StoredObjects} {ids : List String} {now : Time}
    {row : StoredObject} :
    row ∈ (stored.markDeleted ids now).rows ↔
      ∃ old ∈ stored.rows, (if old.id ∈ ids then { old with deletedAt := some now } else old) = row := by
  simp [markDeleted]

theorem StoredObjects.insertOnce_ok {stored stored' : StoredObjects} {row : StoredObject}
    (h : stored.insertOnce row = .ok stored')
    (hfresh : ∀ old ∈ stored.rows, old.resourceId ≠ row.resourceId) :
    stored.get? row.id = none ∧ stored' = stored.put row := by
  unfold insertOnce at h
  have hnone : (stored.rows.any fun old => old.objectKind = row.objectKind ∧
      old.resourceId = row.resourceId) = false := by
    simp only [List.any_eq_false, decide_eq_true_eq]
    exact fun old hold hsame => hfresh old hold hsame.2
  rw [hnone, if_neg Bool.false_ne_true] at h
  split_ifs at h with hid hkey
  cases h
  exact ⟨by simpa using hid, rfl⟩

namespace PostgresRetention

/-- `interval '24 hours'` of an abandoned upload. -/
def temporaryFor : Time := 24 * 60 * 60

/-- `interval '30 days'`. -/
def artifactFor : Time := 30 * 24 * 60 * 60

/-- The artifact joined with its job, whose `terminal_at` is what the transaction compares and orders by. -/
def endedAt (d : HostedDb) (artifact : Artifact) : Option Time :=
  (d.jobs.get? artifact.jobId).bind (·.terminalAt)

/-- The second transaction of `run`, `ORDER BY j.terminal_at LIMIT 100 FOR UPDATE OF a SKIP LOCKED`. -/
def selectArtifacts (d : HostedDb) (now : Time) (skipped : List String) : List (String × String) :=
  ((((d.artifacts.rows.filter fun row => (endedAt d row).any (· < now - artifactFor)).insertionSort
    fun row row' => (endedAt d row).getD 0 ≤ (endedAt d row').getD 0).filter
      fun row => row.id ∉ skipped).take 100).map fun row => (row.id, row.path)

end PostgresRetention

/-- Nothing became of the upload: it is a day old, and no artifact is at its resource. -/
def StoredObject.abandoned (row : StoredObject) (d : HostedDb) (now : Time) : Bool :=
  row.objectKind = .temporary ∧ row.deletedAt = none ∧ row.terminalAt < now - PostgresRetention.temporaryFor ∧
    ∀ artifact ∈ d.artifacts.rows, artifact.path ≠ row.resourceId

namespace PostgresRetention

/-- The third transaction of `run`, `ORDER BY o.terminal_at LIMIT 100 FOR UPDATE SKIP LOCKED`. -/
def selectAbandoned (d : HostedDb) (stored : StoredObjects) (now : Time) (skipped : List String) :
    List (String × String) :=
  ((((stored.rows.filter fun row => row.abandoned d now).insertionSort
    fun row row' => row.terminalAt ≤ row'.terminalAt).filter fun row => row.id ∉ skipped).take 100).map
      fun row => (row.id, row.resourceId)

theorem mem_selectArtifacts {d : HostedDb} {now : Time} {skipped : List String} {item : String × String}
    (h : item ∈ selectArtifacts d now skipped) :
    ∃ row ∈ d.artifacts.rows, item = (row.id, row.path) ∧ ∃ t, endedAt d row = some t ∧
      t < now - artifactFor := by
  obtain ⟨row, hrow, rfl⟩ := List.mem_map.mp h
  have hfound := (List.mem_filter.mp (List.mem_of_mem_take hrow)).1
  obtain ⟨hmem, hexpired⟩ := List.mem_filter.mp ((List.mem_insertionSort _).mp hfound)
  obtain ⟨t, ht, hlt⟩ := (Option.any_eq_true _ _).mp hexpired
  exact ⟨row, hmem, rfl, t, ht, of_decide_eq_true hlt⟩

theorem mem_selectAbandoned {d : HostedDb} {stored : StoredObjects} {now : Time} {skipped : List String}
    {item : String × String} (h : item ∈ selectAbandoned d stored now skipped) :
    ∃ row ∈ stored.rows, item = (row.id, row.resourceId) ∧ row.abandoned d now = true := by
  obtain ⟨row, hrow, rfl⟩ := List.mem_map.mp h
  have hfound := (List.mem_filter.mp (List.mem_of_mem_take hrow)).1
  obtain ⟨hmem, habandoned⟩ := List.mem_filter.mp ((List.mem_insertionSort _).mp hfound)
  exact ⟨row, hmem, rfl, habandoned⟩

end PostgresRetention

/-- A write to an artifact or to an idempotency key. -/
def Write.isBound : Write → Bool
  | .artifact _ | .idempotency _ => true
  | _ => false

/-- A procedure that writes neither an artifact nor an idempotency key. -/
abbrev Plain {α : Type} (p : Procedure α) : Prop := p.Emits (fun w => w.isBound = false) fun _ => True

section
variable {α : Type} {p : Procedure α} {d d' : HostedDb} {a : α}

theorem Plain.artifacts (hp : Plain p) (h : p.run d = .ok (a, d')) : d'.artifacts = d.artifacts := by
  refine hp.frame (fun x => x.artifacts) (fun w hw x => ?_) h
  cases w <;> first | rfl | cases hw

theorem Plain.idempotency (hp : Plain p) (h : p.run d = .ok (a, d')) : d'.idempotency = d.idempotency := by
  refine hp.frame (fun x => x.idempotency) (fun w hw x => ?_) h
  cases w <;> first | rfl | cases hw

theorem Works.idempotency (hp : Works p) (h : p.run d = .ok (a, d')) : d'.idempotency = d.idempotency := by
  refine hp.frame (fun x => x.idempotency) (fun w hw x => ?_) h
  cases w <;> first | rfl | cases hw

end

theorem Plain.raiseIf (c : Prop) [Decidable c] (e : Error) : Plain (Prog.raiseIf c e) :=
  (Prog.emits_raiseIf c e).mpr fun _ => trivial

open PostgresExecution PostgresRepositories PostgresBillingRepository

theorem finishJob_plain (job : Job) (at' : Time) :
    Plain (finishJob PostgresHostedRepository.billing job at') := by
  unfold finishJob
  by_cases hterminal : job.status.isTerminal
  · rw [if_pos hterminal]
    refine ⟨setTerminalAt_emits fun _ => rfl, fun _ => ?_⟩
    exact (finalize_emits (fun _ => rfl) (fun _ _ => trivial) _ _).bind fun _ => trivial
  · rw [if_neg hterminal]
    trivial

theorem recordFailure_plain (job : Job) (failure : Option (String × String)) :
    Plain (recordFailure job failure) := by
  rcases failure with _ | ⟨code, message⟩
  · trivial
  · exact emits_issue (insertFailure_emits (fun _ _ => trivial) rfl)

theorem cancel_plain (jobId : String) (at' : Time) :
    Plain (requestCancellation PostgresHostedRepository.billing jobId at') := by
  unfold requestCancellation
  simp only [issue_bind]
  refine ⟨Stmt.emits_select _, fun current => ?_⟩
  cases current with
  | none => trivial
  | some current =>
    by_cases hover : current.status.isTerminal ∨ current.status = .cancelRequested
    · simp only [if_pos hover]
      trivial
    simp only [if_neg hover]
    refine ⟨Stmt.emits_select _, fun dispatch => ?_⟩
    refine ⟨updateJob_emits fun _ => rfl, fun rowcount => (Plain.raiseIf _ _).bind fun _ => ?_⟩
    refine ⟨Stmt.emits_select _, fun sequence => ⟨insertEvent_emits (fun _ => trivial) rfl, fun _ => ?_⟩⟩
    exact (finishJob_plain _ at').bind fun _ => trivial

theorem loseWorker_plain (dispatchId jobId : String) (seen : JobStatus) (at' : Time) :
    Plain (loseWorker PostgresHostedRepository.billing dispatchId jobId seen at') := by
  unfold loseWorker
  refine ⟨loseJob_emits fun _ => rfl, fun _ => ⟨setDispatchStatus_emits fun _ => rfl, fun _ => ?_⟩⟩
  refine ⟨insertFailureOnce_emits rfl, fun _ => ⟨appendJobEvent_emits (fun _ => rfl) fun _ => trivial, ?_⟩⟩
  exact fun _ => (finalize_emits (fun _ => rfl) (fun _ _ => trivial) _ _).bind fun _ => trivial

theorem claim_plain (dispatchId : String) (limit : ℤ) (ttl : Time) (maxAttempts : ℤ) (token : String)
    (now at' : Time) :
    Plain (claimExecution PostgresHostedRepository.billing dispatchId limit ttl maxAttempts
      token now at') := by
  simp only [claimExecution, issue_bind]
  refine ⟨advisoryLock_emits _, fun _ => ⟨Stmt.emits_select _, fun found => ?_⟩⟩
  rcases found with _ | ⟨jobId, status⟩
  · trivial
  simp only
  split_ifs
  · trivial
  refine ⟨Stmt.emits_selectForUpdate _ _, fun previous => ?_⟩
  simp only
  split
  · trivial
  refine ⟨Stmt.emits_select _, fun active => ?_⟩
  simp only
  split_ifs
  · trivial
  · exact (loseWorker_plain _ _ _ _).bind fun _ => trivial
  · exact ⟨upsertLease_emits fun _ => rfl, fun _ => ⟨setDispatchStatus_emits fun _ => rfl, fun _ => trivial⟩⟩

theorem update_artifacts {job : Job} {expectedVersion : ℤ} {eventType : String} {artifact : Option Artifact}
    {lease : Option Lease} {failure : Option (String × String)} {now at' : Time} {d d' : HostedDb}
    {event : JobEvent} (h : (updateJobAndAppendEvent PostgresHostedRepository.billing job expectedVersion
      eventType artifact lease
      failure now at').run d = .ok (event, d')) :
    (artifact = none ∧ d'.artifacts = d.artifacts) ∨
      ∃ a, artifact = some a ∧ job.status = .succeeded ∧ a.jobId = job.id ∧
        d'.artifacts = d.artifacts.put a := by
  unfold updateJobAndAppendEvent at h
  obtain ⟨_, d₀, hlease, hrest⟩ := Prog.run_bind_ok h
  obtain ⟨_, d₁, hupdate, hrest⟩ := Prog.run_bind_ok hrest
  obtain ⟨_, d₂, hone, hrest⟩ := Prog.run_bind_ok hrest
  obtain ⟨_, d₃, happend, hrest⟩ := Prog.run_bind_ok hrest
  obtain ⟨_, d₄, hartifact, hrest⟩ := Prog.run_bind_ok hrest
  obtain ⟨_, d₅, hfailure, hrest⟩ := Prog.run_bind_ok hrest
  obtain ⟨_, d₆, hfinish, hret⟩ := Prog.run_bind_ok hrest
  cases hret
  obtain rfl := checkLease_ok hlease
  have h₁ := Plain.artifacts (emits_issue (updateJob_emits fun _ => rfl)) hupdate
  have h₂ := Plain.artifacts (Plain.raiseIf _ _) hone
  have h₃ := Plain.artifacts (appendEvent_emits (fun _ => trivial) (fun _ => rfl) fun _ _ => trivial) happend
  have h₅ := Plain.artifacts (recordFailure_plain _ _) hfailure
  have h₆ := Plain.artifacts (finishJob_plain _ _) hfinish
  have hbefore : d₃.artifacts = d₀.artifacts := by rw [h₃, h₂, h₁]
  have hafter : d'.artifacts = d₄.artifacts := by rw [h₆, h₅]
  cases artifact with
  | none =>
    cases hartifact
    exact Or.inl ⟨rfl, hafter.trans hbefore⟩
  | some a =>
    obtain ⟨hvalid, hinsert⟩ := Prog.run_raiseIf_ok hartifact
    simp only [insertArtifact, Stmt.issue, Prog.run_insert] at hinsert
    split_ifs at hinsert
    cases hinsert
    have hcompletes : job.status = .succeeded ∧ a.jobId = job.id := by
      constructor
      · exact not_not.mp fun hstatus => hvalid (Or.inl hstatus)
      · exact not_not.mp fun hjob => hvalid (Or.inr hjob)
    refine Or.inr ⟨a, rfl, hcompletes.1, hcompletes.2, ?_⟩
    rw [hafter, artifacts_apply, hbefore]

/-- What an admission did: it found the job of its key, or it inserted its own and recorded the key. -/
structure Admission (job reply : Job) (ownerId : String) (idempotencyKey : Option String)
    (d d' : HostedDb) : Prop where
  artifacts : d'.artifacts = d.artifacts
  cases : (d' = d ∧ ∃ key row found, idempotencyKey = some key ∧ d.idempotency.get? key = some row ∧
      d.jobs.get? row.jobId = some found ∧ reply = found.toJob) ∨
    (reply = job ∧ d.jobs.get? job.id = none ∧ d'.jobs = d.jobs.put { job with ownerId := some ownerId } ∧
      d'.idempotency = idempotencyKey.elim d.idempotency fun key => d.idempotency.put ⟨key, job.id⟩)

theorem replay_cases {spec : JobSpec} {idempotencyKey : Option String} {reply : Option Job} {d d' : HostedDb}
    (h : (PostgresHostedRepository.replay spec idempotencyKey).run d = .ok (reply, d')) :
    d' = d ∧ ∀ existing, reply = some existing → ∃ key row found, idempotencyKey = some key ∧
      d.idempotency.get? key = some row ∧ d.jobs.get? row.jobId = some found ∧ existing = found.toJob := by
  refine ⟨replay_ok h, ?_⟩
  rintro existing rfl
  unfold PostgresHostedRepository.replay at h
  obtain ⟨found, d₁, hadmitted, hrest⟩ := Prog.run_bind_ok h
  rcases idempotencyKey with _ | key
  · cases hadmitted
    cases hrest
  simp only [admitted, issue_bind, selectIdempotency, Prog.run_select] at hadmitted
  cases hkey : d.idempotency.get? key with
  | none =>
    simp only [hkey] at hadmitted
    cases hadmitted
    cases hrest
  | some row =>
    simp only [hkey, selectJob, Prog.run_select] at hadmitted
    cases hjob : d.jobs.get? row.jobId with
    | none =>
      simp only [hjob, Option.map_none] at hadmitted
      cases hadmitted
    | some job =>
      simp only [hjob, Option.map_some] at hadmitted
      cases hadmitted
      obtain ⟨-, hret⟩ := Prog.run_raiseIf_ok hrest
      cases hret
      exact ⟨key, row, job, rfl, hkey, hjob, rfl⟩

theorem recordKey_ok {idempotencyKey : Option String} {jobId : String} {u : Unit} {d d' : HostedDb}
    (h : (recordKey idempotencyKey jobId).run d = .ok (u, d')) :
    d'.artifacts = d.artifacts ∧ d'.jobs = d.jobs ∧
      d'.idempotency = idempotencyKey.elim d.idempotency fun key => d.idempotency.put ⟨key, jobId⟩ := by
  rcases idempotencyKey with _ | key
  · cases h
    exact ⟨rfl, rfl, rfl⟩
  · simp only [recordKey, insertIdempotency, Stmt.issue, Prog.run_insert] at h
    split_ifs at h
    cases h
    exact ⟨rfl, rfl, rfl⟩

open PostgresHostedRepository in
theorem admit_cases {authorizationId accountId ownerId : String} {job reply : Job}
    {dispatch : Dispatch} {credits : ℤ} {idempotencyKey : Option String} {d d' : HostedDb}
    (h : (admitJob authorizationId job dispatch accountId ownerId credits idempotencyKey).run d =
      .ok (reply, d')) :
    Admission job reply ownerId idempotencyKey d d' := by
  unfold admitJob at h
  obtain ⟨-, hrest⟩ := Prog.run_raiseIf_ok h
  simp only [issue_bind, selectAccountForUpdate, Prog.run_selectForUpdate] at hrest
  obtain ⟨existing, d₀, hreplay, hrest⟩ := Prog.run_bind_ok hrest
  obtain ⟨rfl, hfound⟩ := replay_cases hreplay
  rcases existing with _ | existing
  swap
  · cases hrest
    exact ⟨rfl, Or.inl ⟨rfl, hfound _ rfl⟩⟩
  simp only [admitNew, issue_bind, countActiveJobs, Prog.run_select] at hrest
  obtain ⟨-, hrest⟩ := Prog.run_raiseIf_ok hrest
  simp only [selectAssetForUpdate, Prog.run_selectForUpdate] at hrest
  obtain ⟨-, hrest⟩ := Prog.run_raiseIf_ok hrest
  obtain ⟨auth, d₁, hreserve, hrest⟩ := Prog.run_bind_ok hrest
  obtain ⟨_, d₂, hjob, hrest⟩ := Prog.run_step_ok hrest
  obtain ⟨_, d₃, hdispatch, hrest⟩ := Prog.run_step_ok hrest
  obtain ⟨_, d₄, hkey, hret⟩ := Prog.run_bind_ok hrest
  cases hret
  have hreserved : Prog.Emits (fun w : Write => w.isBilling = true) (fun _ => True)
      (reserveNew authorizationId job.id accountId credits) :=
    reserveNew_emits (fun _ => rfl) (fun _ _ => trivial) _ _ _ _
  have h₁ : (d₁.jobs, d₁.artifacts, d₁.idempotency) = (d₀.jobs, d₀.artifacts, d₀.idempotency) := by
    refine hreserved.frame (fun x => (x.jobs, x.artifacts, x.idempotency)) (fun w hw x => ?_) hreserve
    cases w <;> first | rfl | cases hw
  simp only [Prod.mk.injEq] at h₁
  obtain ⟨hjobs₁, hartifacts₁, hkeys₁⟩ := h₁
  obtain ⟨hartifacts₄, hjobs₄, hkeys₄⟩ := recordKey_ok hkey
  simp only [insertJob, Stmt.issue, Prog.run_insert] at hjob
  split_ifs at hjob with hnew
  cases hjob
  simp only [insertDispatch, Stmt.issue, Prog.run_insert] at hdispatch
  split_ifs at hdispatch
  cases hdispatch
  refine ⟨?_, Or.inr ⟨rfl, ?_, ?_, ?_⟩⟩
  · rw [hartifacts₄]
    exact hartifacts₁
  · rw [← hjobs₁]
    simpa using hnew
  · rw [hjobs₄, ← hjobs₁]
    rfl
  · rw [hkeys₄, ← hkeys₁]
    rfl

end KenkuiServer.Storage

namespace KenkuiServer.Hosted
open Txn Jobs Billing Storage PostgresExecution PostgresRepositories

/-- The artifact that comes with a write of a job's progress. -/
def Call.artifact? : Call → Option Artifact
  | .update _ _ _ artifact _ _ _ _ => artifact
  | _ => none

/-- The calls that may write an artifact or an idempotency key. -/
def Call.binds : Call → Bool
  | .update _ _ _ _ _ _ _ _ | .admitJob _ _ _ _ _ _ _ | .createJobAndDispatch _ _ _ => true
  | _ => false

open PostgresBillingRepository in
theorem Call.plain (call : Call) (hcall : call.binds = false) : Plain call.prog := by
  have hreturns : ∀ {α : Type} {p : Procedure α} {f : α → Reply}, Plain p →
      Plain (p >>= fun a => pure (f a)) :=
    fun hp => hp.bind fun _ => trivial
  cases call with
  | update snapshot event eventType artifact lease failure now at' => cases hcall
  | createJobAndDispatch job dispatch idempotencyKey => cases hcall
  | admitJob authorizationId job dispatch accountId ownerId credits idempotencyKey => cases hcall
  | accountForIdentity accountId lotId identityId allowance =>
    exact hreturns (accountForIdentity_emits (fun _ => rfl) (fun _ => rfl) (fun _ => rfl)
      (fun _ _ => trivial) _ _ _ _)
  | grant lotId accountId credits reference =>
    exact hreturns (grant_emits (fun _ => rfl) (fun _ => rfl) (fun _ => rfl) (fun _ _ => trivial) _ _ _ _)
  | processPaymentEvent lotId provider providerEventId accountId credits =>
    exact hreturns (processPaymentEvent_emits (fun _ => rfl) (fun _ => rfl) (fun _ => rfl)
      (fun _ _ => trivial)
      (fun _ => rfl) _ _ _ _ _)
  | reserve authorizationId jobId accountId credits =>
    exact hreturns (reserve_emits (fun _ => rfl) (fun _ _ => trivial) _ _ _ _)
  | finalize jobId status => exact hreturns (finalize_emits (fun _ => rfl) (fun _ _ => trivial) _ _)
  | claimExecution dispatchId limit ttl maxAttempts token now at' =>
    exact hreturns (claim_plain _ _ _ _ _ _ _)
  | requestCancellation jobId at' => exact hreturns (cancel_plain _ _)
  | finishDispatch dispatch lease now =>
    exact hreturns (finishDispatchIfNotCancellationRequested_emits (fun _ => rfl) (fun _ _ => trivial) _ _ _)
  | updateDispatch dispatch status =>
    exact hreturns (f := fun _ => Reply.none) (updateDispatch_emits (fun _ => rfl) (fun _ _ => trivial) _ _)
  | renewExecution dispatchId token ttl now now' =>
    have hrenew : Plain (PostgresExecution.renewExecution dispatchId token ttl now now') :=
      ⟨renewLease_emits fun _ => rfl, fun _ => trivial⟩
    exact hreturns hrenew
  | releaseExecution dispatchId token =>
    have hrelease : Plain (PostgresExecution.releaseExecution dispatchId token) :=
      ⟨expireLease_emits fun _ => rfl, fun _ => trivial⟩
    exact hreturns (f := fun _ => Reply.none) hrelease
  | retainSources now skipped deletions =>
    exact hreturns (PostgresRetention.runSources_emits (fun _ => rfl) (fun _ => rfl) trivial _ _ _)

theorem Call.artifacts_cases {past : List HostedDb} {d d' : HostedDb} {reply : Reply} (call : Call)
    (hpermitted : call.Permitted past) (hbooks : d.billing.Books) (h : call.prog.run d = .ok (reply, d')) :
    d'.artifacts = d.artifacts ∨ ∃ artifact row next, call.artifact? = some artifact ∧
      d'.artifacts = d.artifacts.put artifact ∧ JobMoved d d' row next ∧ row.id = artifact.jobId ∧
        next.status = .succeeded := by
  by_cases hbinds : call.binds = false
  · exact Or.inl (Plain.artifacts (call.plain hbinds) h)
  cases call with
  | update snapshot event eventType artifact lease failure now at' =>
    simp only [Call.prog] at h
    cases ht : transition snapshot event with
    | error e => simp [ht] at h
    | ok job =>
      simp only [ht] at h
      obtain ⟨_, hupdate, -⟩ := Prog.run_map_ok h
      obtain ⟨-, hsame⟩ | ⟨a, hartifact, hsucceeded, hjob, hput⟩ := update_artifacts hupdate
      · exact Or.inl hsame
      · obtain ⟨row, next, hmoved, hid, hstatus, -⟩ := update_moved hbooks (by omega) hupdate
        exact Or.inr ⟨a, row, next, hartifact, hput, hmoved, hid.trans hjob.symm, hstatus.trans hsucceeded⟩
  | createJobAndDispatch job dispatch idempotencyKey => exact hpermitted.elim
  | admitJob authorizationId job dispatch accountId ownerId credits idempotencyKey =>
    obtain ⟨_, hadmit, -⟩ := Prog.run_map_ok h
    exact Or.inl (admit_cases hadmit).artifacts
  | _ => exact absurd rfl hbinds

theorem Call.idempotency_same {d d' : HostedDb} {reply : Reply} (call : Call)
    (hcall : call.isAdmission = false)
    (hcreate : ∀ job dispatch idempotencyKey, call ≠ .createJobAndDispatch job dispatch idempotencyKey)
    (h : call.prog.run d = .ok (reply, d')) : d'.idempotency = d.idempotency := by
  by_cases hbinds : call.binds = false
  · exact Plain.idempotency (call.plain hbinds) h
  cases call with
  | update snapshot event eventType artifact lease failure now at' =>
    simp only [Call.prog] at h
    cases ht : transition snapshot event with
    | error e => simp [ht] at h
    | ok job =>
      simp only [ht] at h
      obtain ⟨_, hupdate, -⟩ := Prog.run_map_ok h
      exact Works.idempotency (update_work _ _ _ _ _ _ _ _) hupdate
  | createJobAndDispatch job dispatch idempotencyKey => exact absurd rfl (hcreate job dispatch idempotencyKey)
  | admitJob authorizationId job dispatch accountId ownerId credits idempotencyKey => cases hcall
  | _ => exact absurd rfl hbinds

end KenkuiServer.Hosted
