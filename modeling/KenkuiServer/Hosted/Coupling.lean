import KenkuiServer.Hosted.Outcomes
import KenkuiServer.Txn.Versioned

/-! Job state and billing stay coupled: a job holds its reservation exactly as long as it is not
over, and what became of the reservation says how it ended. -/
namespace KenkuiServer.Storage
open Txn Jobs Billing PostgresBillingRepository

/-- What one committed call may have done to the jobs and their reservations. -/
inductive JobStep (d d' : HostedDb) : Prop
  | same (jobs : d'.jobs = d.jobs)
      (authorizations : d'.billing.authorizations = d.billing.authorizations)
  | moved (row next : JobRow) (moved : JobMoved d d' row next) (going : row.status.isTerminal = false)
  | admitted (row : JobRow) (auth : CreditAuthorization) (admitted : JobAdmitted d d' row auth)
      (queued : row.status = .queued) (running : row.terminalAt = none)

theorem JobStep.later {d d' : HostedDb} (h : JobStep d d') :
    Table.Later (fun r : JobRow => r.version) d.jobs d'.jobs := by
  cases h with
  | same jobs =>
    rw [jobs]
    exact .refl _
  | moved row next moved =>
    rw [moved.jobs]
    refine Table.later_put_of_lt (moved.id ▸ moved.found) ?_
    have := moved.version
    omega
  | admitted row auth admitted =>
    rw [admitted.jobs]
    exact Table.later_put_of_none admitted.fresh

/-- The books are kept, and every job is coupled with an authorization of its own. -/
structure Coupled (d : HostedDb) : Prop where
  books : d.billing.Books
  coupled : ∀ row ∈ d.jobs.rows, ∃ a ∈ d.billing.authorizations.rows,
    a.jobId = row.id ∧ a.status = reservationOf row.status ∧
      row.terminalAt.isSome = row.status.isTerminal

theorem reservationOf_going {status : JobStatus} (h : status.isTerminal = false) :
    reservationOf status = .reserved := by
  cases status <;> simp_all [JobStatus.isTerminal, reservationOf]

theorem JobMoved.coupled {d d' : HostedDb} {row next : JobRow} (h : JobMoved d d' row next)
    (hgoing : row.status.isTerminal = false) (hd : Coupled d) (hbooks : d'.billing.Books) :
    Coupled d' := by
  refine ⟨hbooks, fun r hr => ?_⟩
  obtain ⟨a, ha, hjob, hstatus, hat⟩ := hd.coupled row (Table.mem_of_get? h.found)
  rw [reservationOf_going hgoing] at hstatus
  rw [h.jobs] at hr
  by_cases hterminal : next.status.isTerminal
  · obtain ⟨hsome, auth, hauth, hended⟩ := h.ended hterminal
    have hauth' := authorizationOfJob_get? hauth
    have hsame : a = auth := hd.books.recorded.jobs a ha auth (Table.mem_of_get? hauth'.1)
      (hjob.trans hauth'.2.symm)
    subst hsame
    rw [PostgresBillingRepository.ended, if_pos hstatus] at hended
    rw [hended]
    rcases (Table.mem_put _ _ _).mp hr with rfl | ⟨hold, hne⟩
    · refine ⟨_, (Table.mem_put _ _ _).mpr (Or.inl rfl), hjob.trans h.id.symm, rfl, ?_⟩
      rw [hsome, hterminal]
    · obtain ⟨a', ha', hjob', hrest⟩ := hd.coupled r hold
      refine ⟨a', (Table.mem_put _ _ _).mpr (Or.inr ⟨ha', ?_⟩), hjob', hrest⟩
      rintro hid
      have : a' = a := Table.eq_of_mem ha' ha hid
      rw [this, hjob, ← h.id] at hjob'
      exact hne hjob'.symm
  · rw [Bool.not_eq_true] at hterminal
    rw [(h.going hterminal).2]
    rcases (Table.mem_put _ _ _).mp hr with rfl | ⟨hold, -⟩
    · refine ⟨a, ha, hjob.trans h.id.symm, ?_, ?_⟩
      · rw [hstatus, reservationOf_going hterminal]
      · rw [(h.going hterminal).1, hat, hgoing, hterminal]
    · exact hd.coupled r hold

theorem JobAdmitted.coupled {d d' : HostedDb} {row : JobRow} {auth : CreditAuthorization}
    (h : JobAdmitted d d' row auth) (hqueued : row.status = .queued) (hat : row.terminalAt = none)
    (hd : Coupled d) (hbooks : d'.billing.Books) : Coupled d' := by
  refine ⟨hbooks, fun r hr => ?_⟩
  rw [h.jobs] at hr
  rw [h.authorizations]
  rcases (Table.mem_put _ _ _).mp hr with rfl | ⟨hold, -⟩
  · refine ⟨auth, (Table.mem_put _ _ _).mpr (Or.inl rfl), h.jobId, ?_, ?_⟩
    · rw [h.status, hqueued]
      rfl
    · rw [hat, hqueued]
      rfl
  · obtain ⟨a, ha, hrest⟩ := hd.coupled r hold
    refine ⟨a, (Table.mem_put _ _ _).mpr (Or.inr ⟨ha, fun hid => ?_⟩), hrest⟩
    have hfresh := h.freshId
    rw [← hid, Table.get?_of_mem ha] at hfresh
    cases hfresh

theorem JobStep.coupled {d d' : HostedDb} (h : JobStep d d') (hd : Coupled d)
    (hbooks : d'.billing.Books) : Coupled d' := by
  cases h with
  | same jobs authorizations =>
    refine ⟨hbooks, ?_⟩
    rw [jobs, authorizations]
    exact hd.coupled
  | moved row next moved going => exact moved.coupled going hd hbooks
  | admitted row auth admitted queued running => exact admitted.coupled queued running hd hbooks

end KenkuiServer.Storage

namespace KenkuiServer.Hosted
open Txn Jobs Billing Storage PostgresBillingRepository

/-- A call of the job processes, or of the billing processes that fund their accounts. A new job is
queued; the snapshot of an update was read in one of the `past` states. -/
def Call.Permitted (past : List HostedDb) : Call → Prop
  | .admitJob _ job _ _ _ _ _ => job.status = .queued
  | .update snapshot _ _ _ _ _ _ _ => ∃ d ∈ past, ∃ row ∈ d.jobs.rows, row.toJob = snapshot
  | .reserve _ _ _ _ | .finalize _ _ | .createJobAndDispatch _ _ _ => False
  | _ => True

/-- The runs from an empty store, each call one atomic transaction, with every state before the last
one. -/
inductive JobRun : List HostedDb → HostedDb → Prop
  | empty : JobRun [] {}
  | call {past : List HostedDb} {d : HostedDb} (call : Call) (run : JobRun past d)
      (permitted : call.Permitted (d :: past)) : JobRun (d :: past) (call.prog.transaction d).2

/-- A write of the billing processes that fund an account. -/
def isFunding : Write → Bool
  | .billing (.authorization _) | .billing (.allocation _) => false
  | .billing _ => true
  | _ => false

theorem isFunding_keeps {w : Write} (hw : isFunding w) (d : HostedDb) :
    ((apply w d).jobs, (apply w d).billing.authorizations) = (d.jobs, d.billing.authorizations) := by
  rcases w with _ | _ | _ | _ | _ | _ | _ | _ | _ | w
  case billing => cases w <;> first | rfl | cases hw
  all_goals cases hw

theorem funding_step {α : Type} {p : Procedure α} {d d' : HostedDb} {a : α}
    (hp : p.Emits (fun w => isFunding w) fun _ => True) (h : p.run d = .ok (a, d')) :
    d'.jobs = d.jobs ∧ d'.billing.authorizations = d.billing.authorizations := by
  have hkeep := hp.frame (fun x => (x.jobs, x.billing.authorizations)) (fun w hw x => isFunding_keeps hw x) h
  simpa only [Prod.mk.injEq] using hkeep

theorem log_step {α : Type} {p : Procedure α} {d d' : HostedDb} {a : α}
    (hp : p.Emits (fun w => w.isLog) fun _ => True) (h : p.run d = .ok (a, d')) :
    d'.jobs = d.jobs ∧ d'.billing.authorizations = d.billing.authorizations := by
  obtain ⟨hjobs, hbilling⟩ := log_keeps hp h
  exact ⟨hjobs, by rw [hbilling]⟩

def Call.isAdmission : Call → Bool
  | .admitJob _ _ _ _ _ _ _ => true
  | _ => false

theorem Call.jobProgress {past : List HostedDb} {d d' : HostedDb} {reply : Reply} (call : Call)
    (hcall : call.isAdmission = false) (hpermitted : call.Permitted past) (hd : Coupled d)
    (hpast : ∀ d₀ ∈ past, Table.Later (fun r : JobRow => r.version) d₀.jobs d.jobs)
    (h : call.prog.run d = .ok (reply, d')) :
    (d'.jobs = d.jobs ∧ d'.billing.authorizations = d.billing.authorizations) ∨
      ∃ row next, JobMoved d d' row next ∧ row.status.isTerminal = false := by
  cases call with
  | accountForIdentity id lotId identityId allowance =>
    obtain ⟨_, hrun, -⟩ := Prog.run_map_ok h
    exact Or.inl (funding_step (accountForIdentity_emits (fun _ => rfl) (fun _ => rfl) (fun _ => rfl)
      (fun _ _ => trivial) _ _ _ _) hrun)
  | grant lotId accountId credits reference =>
    obtain ⟨_, hrun, -⟩ := Prog.run_map_ok h
    exact Or.inl (funding_step (grant_emits (fun _ => rfl) (fun _ => rfl) (fun _ => rfl) (fun _ _ => trivial)
      _ _ _ _) hrun)
  | processPaymentEvent lotId provider providerEventId accountId credits =>
    obtain ⟨_, hrun, -⟩ := Prog.run_map_ok h
    exact Or.inl (funding_step (processPaymentEvent_emits (fun _ => rfl) (fun _ => rfl) (fun _ => rfl)
      (fun _ _ => trivial) (fun _ => rfl) _ _ _ _ _) hrun)
  | reserve authorizationId jobId accountId credits => exact hpermitted.elim
  | finalize jobId status => exact hpermitted.elim
  | createJobAndDispatch job dispatch idempotencyKey => exact hpermitted.elim
  | admitJob authorizationId job dispatch accountId ownerId credits idempotencyKey =>
    cases hcall
  | claimExecution dispatchId limit ttl maxAttempts token now at' =>
    obtain ⟨_, hclaim, -⟩ := Prog.run_map_ok h
    obtain ⟨hjobs, hbilling⟩ | ⟨row, next, hmoved, hgoing, -⟩ := claim_moved hd.books hclaim
    · exact Or.inl ⟨hjobs, by rw [hbilling]⟩
    · exact Or.inr ⟨row, next, hmoved, hgoing⟩
  | update snapshot event eventType artifact lease failure now at' =>
    simp only [Call.prog] at h
    cases ht : transition snapshot event with
    | error e => simp [ht] at h
    | ok job =>
      rw [ht] at h
      obtain ⟨_, hupdate, -⟩ := Prog.run_map_ok h
      have hadvances := transition_advances ht
      obtain ⟨row, next, hmoved, hid, -, hversion⟩ := update_moved hd.books (by omega) hupdate
      obtain ⟨d₀, hd₀, old, hold, rfl⟩ := hpermitted
      -- the version guard makes the row just written over the one that the snapshot was read from
      have hrow : row = old := by
        have hkey : row.id = old.id := hid.trans hadvances.id
        have hfound : d.jobs.get? old.id = some row := hkey ▸ hmoved.found
        refine (hpast d₀ hd₀).eq_of_version (Table.get?_of_mem hold) hfound ?_
        have h₁ := hmoved.version
        have h₂ := hadvances.version
        omega
      subst hrow
      exact Or.inr ⟨row, next, hmoved, hadvances.moves.not_terminal⟩
  | requestCancellation jobId at' =>
    obtain ⟨_, hcancel, -⟩ := Prog.run_map_ok h
    obtain rfl | ⟨row, next, hmoved, hgoing, -⟩ := cancel_moved hd.books hcancel
    · exact Or.inl ⟨rfl, rfl⟩
    · exact Or.inr ⟨row, next, hmoved, hgoing⟩
  | finishDispatch dispatch lease now =>
    obtain ⟨_, hrun, -⟩ := Prog.run_map_ok h
    exact Or.inl (log_step (finishDispatch_log _ _ _) hrun)
  | updateDispatch dispatch status =>
    obtain ⟨_, _, hrun, hret⟩ := Prog.run_bind_ok h
    cases hret
    exact Or.inl (log_step (updateDispatch_log _ _) hrun)
  | renewExecution dispatchId token ttl now now' =>
    obtain ⟨_, hrun, -⟩ := Prog.run_map_ok h
    exact Or.inl (log_step (renewExecution_log _ _ _ _ _) hrun)
  | releaseExecution dispatchId token =>
    obtain ⟨_, _, hrun, hret⟩ := Prog.run_bind_ok h
    cases hret
    exact Or.inl (log_step (releaseExecution_log _ _) hrun)
  | retainSources now skipped deletions =>
    obtain ⟨_, hrun, -⟩ := Prog.run_map_ok h
    exact Or.inl (log_step (PostgresRetention.runSources_emits (fun _ => rfl) (fun _ => rfl) trivial _ _ _)
      hrun)

theorem Call.jobStep {past : List HostedDb} {d d' : HostedDb} {reply : Reply} (call : Call)
    (hpermitted : call.Permitted past) (hd : Coupled d)
    (hpast : ∀ d₀ ∈ past, Table.Later (fun r : JobRow => r.version) d₀.jobs d.jobs)
    (h : call.prog.run d = .ok (reply, d')) : JobStep d d' := by
  by_cases hcall : call.isAdmission = false
  · obtain ⟨hjobs, hauthorizations⟩ | ⟨row, next, hmoved, hgoing⟩ :=
      call.jobProgress hcall hpermitted hd hpast h
    · exact .same hjobs hauthorizations
    · exact .moved row next hmoved hgoing
  · cases call with
    | admitJob authorizationId job dispatch accountId ownerId credits idempotencyKey =>
      obtain ⟨_, hadmit, -⟩ := Prog.run_map_ok h
      obtain rfl | ⟨⟨auth, hadmitted⟩, -⟩ := admit_ok hd.books hadmit
      · exact .same rfl rfl
      · exact .admitted _ auth hadmitted hpermitted rfl
    | _ => exact absurd rfl hcall

/-- Every state of a run keeps its jobs coupled, and has only grown the versions of earlier ones. -/
theorem JobRun.coupled {past : List HostedDb} {d : HostedDb} (h : JobRun past d) :
    Coupled d ∧ ∀ d₀ ∈ d :: past, Table.Later (fun r : JobRow => r.version) d₀.jobs d.jobs := by
  induction h with
  | empty =>
    refine ⟨⟨Opening.books ⟨by simp, rfl, rfl, rfl, rfl⟩, by simp⟩, ?_⟩
    simpa using Table.Later.refl _
  | call call run permitted ih =>
    rename_i past d
    obtain ⟨hd, hpast⟩ := ih
    have hkept := Call.conserves call d hd.books
    unfold Prog.transaction
    cases hr : call.prog.run d with
    | error e =>
      refine ⟨hd, fun d₀ hd₀ => ?_⟩
      rcases List.mem_cons.mp hd₀ with rfl | hd₀
      · exact .refl _
      · exact hpast d₀ hd₀
    | ok r =>
      rw [hr] at hkept
      have hstep := Call.jobStep call permitted hd hpast hr
      refine ⟨hstep.coupled hd hkept, fun d₀ hd₀ => ?_⟩
      rcases List.mem_cons.mp hd₀ with rfl | hd₀
      · exact .refl _
      · exact (hpast d₀ hd₀).trans hstep.later

/-- How a job, its only authorization and the ledger's releases of it go together. -/
structure Settled (b : BillingDb) (row : JobRow) (a : CreditAuthorization) : Prop where
  mem : a ∈ b.authorizations.rows
  job : a.jobId = row.id
  only : ∀ a' ∈ b.authorizations.rows, a'.jobId = row.id → a' = a
  going : row.status.isTerminal = false ↔ a.status = .reserved ∧ row.terminalAt = none
  succeeded : row.status = .succeeded ↔ a.status = .settled
  stopped : row.status = .failed ∨ row.status = .cancelled ↔ a.status = .released
  terminalAt : row.status.isTerminal = true → row.terminalAt.isSome
  releases : b.ledger.sumWhere (fun e => e.authorizationId = some a.id ∧ e.kind = .release)
    (fun _ => 1) = if a.status = .released then 1 else 0

theorem settled_of_coupled {d : HostedDb} (h : Coupled d) {row : JobRow} (hrow : row ∈ d.jobs.rows) :
    ∃ a, Settled d.billing row a := by
  obtain ⟨a, ha, hjob, hstatus, hat⟩ := h.coupled row hrow
  refine ⟨a, ha, hjob, fun a' ha' hjob' => ?_, ?_, ?_, ?_, ?_, h.books.recorded.releases a ha⟩
  · exact h.books.recorded.jobs a' ha' a ha (hjob'.trans hjob.symm)
  · rw [hstatus, ← Option.not_isSome_iff_eq_none, hat]
    cases row.status <;> simp [JobStatus.isTerminal, reservationOf]
  · rw [hstatus]
    cases row.status <;> simp [reservationOf]
  · rw [hstatus]
    cases row.status <;> simp [reservationOf]
  · intro hterminal
    rw [hat, hterminal]

/-- No job is charged without succeeding, none succeeds without being charged, and no reservation is
released twice. -/
theorem jobs_settled {past : List HostedDb} {d : HostedDb} (h : JobRun past d) :
    ∀ row ∈ d.jobs.rows, ∃ a, Settled d.billing row a :=
  fun _ hrow => settled_of_coupled h.coupled.1 hrow

/-- A funded account's job is admitted and cancelled while it is still queued. -/
theorem jobs_settled_cancelled :
    let d := Call.runAll
      [.accountForIdentity "account" "lot" "identity" 5,
        .admitJob "authorization" sampleJob ⟨"dispatch", "job", "pending", 0⟩ "account" "identity" 3 none,
        .requestCancellation "job" 0] {}
    d.jobs.rows.map (·.status) = [.cancelled] ∧ ∀ row ∈ d.jobs.rows, ∃ a, Settled d.billing row a :=
  ⟨by decide +kernel,
    jobs_settled (.call _ (.call _ (.call _ .empty trivial) rfl) trivial)⟩

end KenkuiServer.Hosted
