import KenkuiServer.Hosted.Recovery

/-! Runs of the hosted store: a job has one dispatch, a dispatch keeps its job, and a job that is over stays
so. -/
namespace KenkuiServer.Hosted
open Txn Jobs Billing Storage PostgresExecution PostgresRepositories

/-- Every dispatch is of a job that is there, and no two are of one job. -/
structure Dispatched (d : HostedDb) : Prop where
  jobs : ∀ dispatch ∈ d.dispatches.rows, (d.jobs.get? dispatch.jobId).isSome
  single : ∀ a ∈ d.dispatches.rows, ∀ b ∈ d.dispatches.rows, a.jobId = b.jobId → a = b

/-- The dispatches are the same but for their status and version. -/
def DispatchesSame (d d' : HostedDb) : Prop :=
  ∀ id, (d'.dispatches.get? id).map (·.jobId) = (d.dispatches.get? id).map (·.jobId)

/-- The job is over. -/
def Over (d : HostedDb) (jobId : String) : Prop :=
  ∃ row, d.jobs.get? jobId = some row ∧ row.status.isTerminal = true

section
variable {d d' : HostedDb} {past : List HostedDb} {reply : Reply}

theorem same_same (h : d'.dispatches = d.dispatches) : DispatchesSame d d' := by
  intro id
  rw [h]

theorem same_rewritten {id : String} {stored next : Dispatch} (hstored : d.dispatches.get? id = some stored)
    (h : d'.dispatches = d.dispatches.put next) (hid : next.id = stored.id)
    (hjob : next.jobId = stored.jobId) :
    DispatchesSame d d' := by
  intro other
  have hkey : stored.id = id := Table.key_of_get? hstored
  rw [h, Table.get?_put]
  split_ifs with hsame
  · rw [← hsame, hid, hkey, hstored, Option.map_some, Option.map_some, hjob]
  · rfl

theorem DispatchesSame.dispatched (h : DispatchesSame d d') (hd : Dispatched d)
    (hjobs : ∀ id, (d.jobs.get? id).isSome → (d'.jobs.get? id).isSome) : Dispatched d' := by
  have hold : ∀ dispatch ∈ d'.dispatches.rows,
      ∃ old ∈ d.dispatches.rows, old.id = dispatch.id ∧ old.jobId = dispatch.jobId := by
    intro dispatch hdispatch
    have hsame := h dispatch.id
    rw [Table.get?_of_mem hdispatch, Option.map_some] at hsame
    obtain ⟨old, hget, hof⟩ := Option.map_eq_some_iff.mp hsame.symm
    exact ⟨old, Table.mem_of_get? hget, Table.key_of_get? hget, hof⟩
  constructor
  · intro dispatch hdispatch
    obtain ⟨old, hmem, -, hof⟩ := hold dispatch hdispatch
    exact hof ▸ hjobs _ (hd.jobs old hmem)
  · intro a ha b hb hsame
    obtain ⟨olda, hmema, hida, hofa⟩ := hold a ha
    obtain ⟨oldb, hmemb, hidb, hofb⟩ := hold b hb
    have hone := hd.single olda hmema oldb hmemb (hofa.trans (hsame.trans hofb.symm))
    have hid : a.id = b.id := by rw [← hida, ← hidb, hone]
    exact Table.eq_of_mem ha hb hid

theorem loseWorker_same {dispatch : Dispatch} {jobId : String} {seen : JobStatus} {at' : Time} {u : Unit}
    (hdispatch : d.dispatches.get? dispatch.id = some dispatch)
    (h : (loseWorker PostgresHostedRepository.billing dispatch.id jobId seen at').run d = .ok (u, d')) :
    DispatchesSame d d' := by
  simp only [loseWorker, issue_bind, PostgresHostedRepository.billing] at h
  obtain ⟨_, d₁, hjob, hrest⟩ := Prog.run_step_ok h
  obtain ⟨_, d₂, hdone, hrest⟩ := Prog.run_step_ok hrest
  obtain ⟨_, d₃, hfailure, hrest⟩ := Prog.run_step_ok hrest
  obtain ⟨_, d₄, hevent, hrest⟩ := Prog.run_step_ok hrest
  obtain ⟨_, d₅, hfinalize, hret⟩ := Prog.run_bind_ok hrest
  cases hret
  have h₁ : d₁.dispatches = d.dispatches :=
    Undispatched.dispatches (emits_issue (loseJob_emits fun _ => rfl)) hjob
  have h₃ := Undispatched.dispatches (emits_issue (insertFailureOnce_emits rfl)) hfailure
  have h₄ := Undispatched.dispatches (emits_issue (appendJobEvent_emits (fun _ => rfl) fun _ => trivial))
    hevent
  have h₅ := Undispatched.dispatches
    (PostgresBillingRepository.finalize_emits (fun _ => rfl) (fun _ _ => trivial) _ _) hfinalize
  simp only [Stmt.issue, setDispatchStatus, Prog.run_update, h₁, hdispatch] at hdone
  cases hdone
  have hput : d'.dispatches =
      d.dispatches.put { dispatch with status := "done", version := dispatch.version + 1 } := by
    rw [h₅, h₄, h₃, dispatches_apply, h₁]
  exact same_rewritten hdispatch hput rfl rfl

open PostgresBillingRepository in
theorem Call.dispatches_same (call : Call) (hcall : call.isAdmission = false)
    (hpermitted : call.Permitted past) (hstandard : call.Standard) (h : call.prog.run d = .ok (reply, d')) :
    DispatchesSame d d' := by
  have hreturns : ∀ {α : Type} {p : Procedure α} {f : α → Reply}, Undispatched p →
      (p >>= fun a => pure (f a)).run d = .ok (reply, d') → DispatchesSame d d' := by
    intro α p f hp hrun
    obtain ⟨a, hrun, -⟩ := Prog.run_map_ok hrun
    exact same_same (Undispatched.dispatches hp hrun)
  cases call with
  | accountForIdentity accountId lotId identityId allowance =>
    exact hreturns (accountForIdentity_emits (fun _ => rfl) (fun _ => rfl) (fun _ => rfl)
      (fun _ _ => trivial) _ _ _ _) h
  | grant lotId accountId credits reference =>
    exact hreturns (grant_emits (fun _ => rfl) (fun _ => rfl) (fun _ => rfl) (fun _ _ => trivial) _ _ _ _) h
  | processPaymentEvent lotId provider providerEventId accountId credits =>
    exact hreturns (processPaymentEvent_emits (fun _ => rfl) (fun _ => rfl) (fun _ => rfl)
      (fun _ _ => trivial) (fun _ => rfl) _ _ _ _ _) h
  | reserve authorizationId jobId accountId credits => exact hpermitted.elim
  | finalize jobId status => exact hpermitted.elim
  | createJobAndDispatch job dispatch idempotencyKey => exact hpermitted.elim
  | admitJob authorizationId job dispatch accountId ownerId credits idempotencyKey => cases hcall
  | claimExecution dispatchId limit ttl maxAttempts token now at' =>
    obtain rfl : maxAttempts = 3 := hstandard
    obtain ⟨issued, hrun, rfl⟩ := Prog.run_map_ok h
    cases claim_cases (by decide) hrun with
    | idle => exact same_same rfl
    | lost dispatch job _ hid foundDispatch found going loses =>
      subst hid
      exact loseWorker_same foundDispatch loses
    | issued dispatch hid foundDispatch left => exact same_rewritten foundDispatch rfl rfl rfl
  | update snapshot event eventType artifact lease failure now at' =>
    simp only [Call.prog] at h
    cases ht : transition snapshot event with
    | error e => simp [ht] at h
    | ok job =>
      simp only [ht] at h
      exact hreturns ((update_work _ _ _ _ _ _ _ _).imp
        (fun _ hw => (Write.isWork_aside hw).2) fun _ h => h) h
  | requestCancellation jobId at' =>
    exact hreturns ((cancel_work _ _).imp (fun _ hw => (Write.isWork_aside hw).2) fun _ h => h) h
  | finishDispatch dispatch lease now =>
    obtain ⟨_, hrun, -⟩ := Prog.run_map_ok h
    obtain rfl | ⟨stored, hstored, rfl⟩ := finish_ok hrun
    · exact same_same rfl
    · exact same_rewritten hstored rfl rfl rfl
  | updateDispatch dispatch status =>
    obtain ⟨_, hrun, -⟩ := Prog.run_map_ok (f := fun _ => Reply.none) h
    obtain ⟨stored, hstored, rfl⟩ := updateDispatch_ok hrun
    exact same_rewritten hstored rfl rfl rfl
  | renewExecution dispatchId token ttl now now' =>
    have hrenew : Undispatched (PostgresExecution.renewExecution dispatchId token ttl now now') :=
      ⟨PostgresExecution.renewLease_emits fun _ => rfl, fun _ => trivial⟩
    exact hreturns hrenew h
  | releaseExecution dispatchId token =>
    have hrelease : Undispatched (PostgresExecution.releaseExecution dispatchId token) :=
      ⟨PostgresExecution.expireLease_emits fun _ => rfl, fun _ => trivial⟩
    exact hreturns (f := fun _ => Reply.none) hrelease h
  | retainSources now skipped deletions =>
    exact hreturns (PostgresRetention.runSources_emits (fun _ => rfl) (fun _ => rfl) trivial _ _ _) h

theorem ended_row (h : JobStep d d') {jobId : String} {row : JobRow} (hrow : d.jobs.get? jobId = some row)
    (hterminal : row.status.isTerminal = true) : d'.jobs.get? jobId = some row := by
  cases h with
  | same hjobs => rw [hjobs, hrow]
  | moved old next hmoved hgoing =>
    rw [hmoved.jobs, Table.get?_put]
    split_ifs with hid
    · have hfound := hmoved.found
      rw [← hmoved.id, hid, hrow] at hfound
      cases hfound
      rw [hterminal] at hgoing
      cases hgoing
    · exact hrow
  | admitted next auth hadmitted =>
    rw [hadmitted.jobs, Table.get?_put]
    split_ifs with hid
    · have hfresh := hadmitted.fresh
      rw [hid, hrow] at hfresh
      cases hfresh
    · exact hrow

theorem over_step (h : JobStep d d') {jobId : String} (hover : Over d jobId) : Over d' jobId := by
  obtain ⟨row, hrow, hterminal⟩ := hover
  exact ⟨row, ended_row h hrow hterminal, hterminal⟩

end

/-- What the hosted calls keep for those who hold on to a dispatch. -/
structure Onward (d d' : HostedDb) : Prop where
  dispatches : DispatchesOnward d d'
  ended : ∀ jobId, Over d jobId → Over d' jobId

section
variable {s : HostedRun}

theorem reach_dispatched (h : Serial.Reach Call.prog Recovers {} s) : Dispatched s.db := by
  induction h with
  | init => exact ⟨by simp, by simp⟩
  | step call reach allowed ih =>
    rename_i s
    obtain ⟨hpermitted, hstandard, -⟩ := allowed
    obtain ⟨hcoupled, hpast⟩ := (reach_jobRun reach).coupled
    have hspec := Serial.step_spec Call.prog s call
    revert hspec
    generalize s.step Call.prog call = s'
    intro hspec
    cases hspec with
    | fail error => exact ih
    | commit ok =>
      rename_i reply d
      have hsome : ∀ id, (s.db.jobs.get? id).isSome → (d.jobs.get? id).isSome := by
        intro id hid
        cases call.jobStep hpermitted hcoupled hpast ok with
        | same hjobs => rwa [hjobs]
        | moved old next hmoved _ => rw [hmoved.jobs, Table.get?_put]; split_ifs <;> trivial
        | admitted next auth hadmitted _ => rw [hadmitted.jobs, Table.get?_put]; split_ifs <;> trivial
      by_cases hcall : call.isAdmission = false
      · exact (call.dispatches_same hcall hpermitted hstandard ok).dispatched ih hsome
      · cases call with
        | admitJob authorizationId job dispatch accountId ownerId credits idempotencyKey =>
          have hown : dispatch.jobId = job.id := hstandard
          obtain ⟨_, hadmit, -⟩ := Prog.run_map_ok ok
          obtain rfl | ⟨⟨auth, hadmitted⟩, -, hdispatches⟩ := admit_ok hcoupled.books hadmit
          · exact ih
          · have hother : ∀ other ∈ s.db.dispatches.rows, other.jobId ≠ dispatch.jobId := by
              intro other hother hsame
              have hthere := ih.jobs other hother
              rw [hsame, hown, hadmitted.fresh] at hthere
              cases hthere
            constructor
            · rw [hdispatches]
              intro other hother
              rcases (Table.mem_put _ _ _).mp hother with rfl | ⟨hold, -⟩
              · rw [hadmitted.jobs, hown, Table.get?_put]
                simp
              · exact hsome _ (ih.jobs other hold)
            · rw [hdispatches]
              intro a ha b hb hsame
              rcases (Table.mem_put _ _ _).mp ha with rfl | ⟨holda, -⟩
              · rcases (Table.mem_put _ _ _).mp hb with rfl | ⟨holdb, -⟩
                · rfl
                · exact absurd hsame.symm (hother b holdb)
              · rcases (Table.mem_put _ _ _).mp hb with rfl | ⟨holdb, -⟩
                · exact absurd hsame (hother a holda)
                · exact ih.single a holda b holdb hsame
        | _ => exact absurd rfl hcall

theorem onward_step (h : Serial.Reach Call.prog Recovers {} s) {call : Call} (hcall : Recovers s call) :
    Onward s.db (s.step Call.prog call).db := by
  obtain ⟨hpermitted, hstandard, -⟩ := hcall
  obtain ⟨hcoupled, hpast⟩ := (reach_jobRun h).coupled
  have hspec := Serial.step_spec Call.prog s call
  revert hspec
  generalize s.step Call.prog call = s'
  intro hspec
  cases hspec with
  | fail error => exact ⟨onward_same rfl, fun _ hover => hover⟩
  | commit ok =>
    exact ⟨call.dispatches_onward hpermitted hcoupled.books hstandard ok,
      fun _ hover => over_step (call.jobStep hpermitted hcoupled hpast ok) hover⟩

end

end KenkuiServer.Hosted
