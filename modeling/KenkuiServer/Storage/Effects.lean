import KenkuiServer.Hosted.Calls

/-! What each statement of the job tables can write and raise: a row of its own table, or a
constraint of that table. -/
namespace KenkuiServer.Storage
open Txn Jobs Billing

variable {P : Write → Prop} {Q : Error → Prop}

/-- The error of two events with one sequence. -/
def eventClash : Error := .integrity "job_events_pkey"

namespace PostgresExecution

@[simp] theorem advisoryLock_emits (n : ℕ) : (advisoryLock n).Emits P Q := by
  intro d
  simp [advisoryLock]

theorem loseJob_emits {jobId : String} {status : JobStatus} {now : Time}
    (hP : ∀ row : JobRow, P (.job row)) : (loseJob jobId status now).Emits P Q := by
  refine Stmt.emits_update fun d => ?_
  cases d.jobs.get? jobId with
  | none => trivial
  | some row => exact hP _

theorem setDispatchStatus_emits {dispatchId status : String} (hP : ∀ row : Dispatch, P (.dispatch row)) :
    (setDispatchStatus dispatchId status).Emits P Q := by
  refine Stmt.emits_update fun d => ?_
  cases d.dispatches.get? dispatchId with
  | none => trivial
  | some row => exact hP _

theorem insertFailureOnce_emits {row : JobFailure} (hP : P (.failure row)) :
    (insertFailureOnce row).Emits P Q := by
  intro d
  simp only [insertFailureOnce]
  split_ifs <;> simp [hP]

theorem appendJobEvent_emits {jobId eventType : String} (hP : ∀ event : JobEvent, P (.event event))
    (hQ : ∀ constraint, Q (.integrity constraint)) : (appendJobEvent jobId eventType).Emits P Q := by
  intro d
  simp only [appendJobEvent]
  cases d.jobs.get? jobId with
  | none => simp
  | some row =>
    simp only
    split_ifs
    · exact hQ _
    · simpa using hP _

theorem upsertLease_emits {dispatchId token : String} {expiresAt : Time}
    (hP : ∀ row : ExecutionLease, P (.lease row)) : (upsertLease dispatchId token expiresAt).Emits P Q := by
  intro d
  simpa [upsertLease] using hP _

theorem renewLease_emits {dispatchId token : String} {expiresAt now : Time}
    (hP : ∀ row : ExecutionLease, P (.lease row)) :
    (renewLease dispatchId token expiresAt now).Emits P Q := by
  refine Stmt.emits_update fun d => ?_
  cases d.leases.get? dispatchId with
  | none => trivial
  | some row =>
    simp only
    split_ifs
    · exact hP _
    · trivial

theorem expireLease_emits {dispatchId token : String} (hP : ∀ row : ExecutionLease, P (.lease row)) :
    (expireLease dispatchId token).Emits P Q := by
  refine Stmt.emits_update fun d => ?_
  cases d.leases.get? dispatchId with
  | none => trivial
  | some row =>
    simp only
    split_ifs
    · exact hP _
    · trivial

theorem checkLease_emits {lease : Option Lease} {now : Time} (hQ : Q .staleWrite) :
    (checkLease lease now).Emits P Q := by
  rcases lease with _ | ⟨dispatchId, token⟩
  · trivial
  · simp only [checkLease, issue_bind]
    refine ⟨Stmt.emits_selectForUpdate _ _, fun row => ?_⟩
    rcases row with _ | row
    · exact hQ
    · simp only
      split_ifs
      · exact hQ
      · trivial

end PostgresExecution

namespace PostgresRepositories

theorem updateJob_emits {job : Job} {expectedVersion : ℤ} (hP : ∀ row : JobRow, P (.job row)) :
    (updateJob job expectedVersion).Emits P Q := by
  refine Stmt.emits_update fun d => ?_
  cases d.jobs.get? job.id with
  | none => trivial
  | some row =>
    simp only
    split_ifs
    · exact hP _
    · trivial

theorem setTerminalAt_emits {jobId : String} {at' : Time} (hP : ∀ row : JobRow, P (.job row)) :
    (setTerminalAt jobId at').Emits P Q := by
  refine Stmt.emits_update fun d => ?_
  cases d.jobs.get? jobId with
  | none => trivial
  | some row => exact hP _

theorem finishDispatch_emits {dispatch : Dispatch} (hP : ∀ row : Dispatch, P (.dispatch row)) :
    (finishDispatch dispatch).Emits P Q := by
  refine Stmt.emits_update fun d => ?_
  cases d.dispatches.get? dispatch.id with
  | none => trivial
  | some row =>
    simp only
    split_ifs
    · exact hP _
    · trivial

section
variable (hQ : ∀ constraint, Q (.integrity constraint))
include hQ

theorem insertEvent_emits {event : JobEvent} (hP : P (.event event)) : (insertEvent event).Emits P Q := by
  refine Stmt.emits_insert hP fun d e he => ?_
  split_ifs at he
  cases he
  exact hQ _

theorem appendEvent_emits {jobId eventType : String} {progress : Progress}
    (hP : ∀ event : JobEvent, P (.event event))
      (hQe : ∀ e ∈ [Error.value "invalid_job_id", .value "invalid_event_type",
        .value "invalid_event_sequence"], Q e) :
    (appendEvent jobId eventType progress).Emits P Q := by
  simp only [appendEvent, issue_bind]
  refine ⟨Stmt.emits_select _, fun sequence => ?_⟩
  cases hevent : JobEvent.init jobId sequence eventType progress with
  | error e =>
    simp only [hevent]
    exact hQe e (JobEvent.init_error hevent)
  | ok event =>
    simp only [hevent]
    exact ⟨insertEvent_emits hQ (hP event), fun _ => trivial⟩

end

section
variable (hQ : ∀ constraint, constraint ≠ "job_events_pkey" → Q (.integrity constraint))
include hQ

theorem insertArtifact_emits {artifact : Artifact} (hP : P (.artifact artifact)) :
    (insertArtifact artifact).Emits P Q := by
  refine Stmt.emits_insert hP fun d e he => ?_
  split_ifs at he <;> cases he <;> exact hQ _ (by decide)

theorem insertFailure_emits {row : JobFailure} (hP : P (.failure row)) :
    (insertFailure row).Emits P Q := by
  refine Stmt.emits_insert hP fun d e he => ?_
  split_ifs at he
  cases he
  exact hQ _ (by decide)

theorem insertJob_emits {row : JobRow} (hP : P (.job row)) : (insertJob row).Emits P Q := by
  refine Stmt.emits_insert hP fun d e he => ?_
  split_ifs at he
  cases he
  exact hQ _ (by decide)

theorem insertDispatch_emits {dispatch : Dispatch} (hP : P (.dispatch dispatch)) :
    (insertDispatch dispatch).Emits P Q := by
  refine Stmt.emits_insert hP fun d e he => ?_
  split_ifs at he <;> cases he <;> exact hQ _ (by decide)

theorem insertIdempotency_emits {row : JobIdempotency} (hP : P (.idempotency row)) :
    (insertIdempotency row).Emits P Q := by
  refine Stmt.emits_insert hP fun d e he => ?_
  split_ifs at he
  cases he
  exact hQ _ (by decide)

end

theorem updateDispatchRow_emits {dispatch : Dispatch} {expectedVersion : ℤ}
    (hP : ∀ row : Dispatch, P (.dispatch row)) : (updateDispatchRow dispatch expectedVersion).Emits P Q := by
  refine Stmt.emits_update fun d => ?_
  cases d.dispatches.get? dispatch.id with
  | none => trivial
  | some row =>
    simp only
    split_ifs
    · exact hP _
    · trivial

theorem updateDispatch_emits (hP : ∀ row : Dispatch, P (.dispatch row)) (hQ : ∀ e, e ≠ eventClash → Q e)
    (dispatch : Dispatch) (expectedVersion : ℤ) : (updateDispatch dispatch expectedVersion).Emits P Q := by
  unfold updateDispatch
  refine ((Prog.emits_raiseIf _ _).mpr fun _ => hQ _ (by simp [eventClash])).bind fun _ => ?_
  refine ⟨updateDispatchRow_emits hP, fun rowcount => ?_⟩
  exact (Prog.emits_raiseIf _ _).mpr fun _ => hQ _ (by simp [eventClash])

theorem finishDispatchIfNotCancellationRequested_emits (hP : ∀ row : Dispatch, P (.dispatch row))
    (hQ : ∀ e, e ≠ eventClash → Q e) (dispatch : Dispatch) (lease : Option Lease) (now : Time) :
    (finishDispatchIfNotCancellationRequested dispatch lease now).Emits P Q := by
  unfold finishDispatchIfNotCancellationRequested
  refine (PostgresExecution.checkLease_emits (hQ _ (by simp [eventClash]))).bind fun _ => ?_
  simp only [issue_bind]
  refine ⟨Stmt.emits_select _, fun status => ?_⟩
  rcases status with _ | status
  · exact hQ _ (by simp [eventClash])
  simp only
  split_ifs
  · trivial
  refine Prog.Emits.bind ((Prog.emits_raiseIf _ _).mpr fun _ => hQ _ (by simp [eventClash])) fun _ => ?_
  refine ⟨finishDispatch_emits hP, fun rowcount => ?_⟩
  exact Prog.Emits.bind ((Prog.emits_raiseIf _ _).mpr fun _ => hQ _ (by simp [eventClash])) fun _ => trivial

end PostgresRepositories

namespace PostgresBillingRepository
open Hosted

theorem creditAccount_emits {accountId : String} {credits : ℤ}
    (hP : ∀ row : AccountRow, P (.billing (.account row)))
    (hQ : ∀ constraint, constraint ≠ "job_events_pkey" → Q (.integrity constraint)) :
    (creditAccount accountId credits).Emits P Q := by
  intro d
  simp only [creditAccount]
  cases d.billing.accounts.get? accountId with
  | none => simp
  | some row =>
    simp only
    split_ifs
    · exact hQ _ (by decide)
    · simpa using hP _

theorem ledgerChecks_emits {entry : LedgerEntry} {b : BillingDb} {e : Error}
    (hQ : ∀ constraint, constraint ≠ "job_events_pkey" → Q (.integrity constraint)) (hrange : Q .outOfRange)
    (h : ledgerChecks entry b = .error e) : Q e := by
  unfold ledgerChecks at h
  split_ifs at h <;> cases h
  · exact hrange
  · exact hQ _ (by decide)
  · exact hQ _ (by decide)

theorem insertLedgerOnce_emits {entry : LedgerEntry} (hP : P (.billing (.ledger entry)))
    (hQ : ∀ constraint, constraint ≠ "job_events_pkey" → Q (.integrity constraint)) (hrange : Q .outOfRange) :
    (insertLedgerOnce entry).Emits P Q := by
  intro d
  simp only [insertLedgerOnce]
  split_ifs
  · simp
  · cases h : ledgerChecks entry d.billing with
    | error e => exact ledgerChecks_emits hQ hrange h
    | ok u => simpa using hP

theorem insertPaymentEvent_emits {provider providerEventId : String}
    (hP : P (.billing (.paymentEvent ⟨provider, providerEventId⟩))) :
    (insertPaymentEvent provider providerEventId).Emits P Q := by
  intro d
  simp only [insertPaymentEvent]
  split_ifs <;> simp [hP]

theorem insertLot_emits {lot : CreditLot} (hP : P (.billing (.lot lot)))
    (hQ : ∀ constraint, constraint ≠ "job_events_pkey" → Q (.integrity constraint)) :
    (PostgresCreditLots.insertLot lot).Emits P Q := by
  refine Stmt.emits_insert hP fun d e he => ?_
  split_ifs at he <;> cases he <;> exact hQ _ (by decide)

section
variable (haccount : ∀ row : AccountRow, P (.billing (.account row)))
  (hlot : ∀ row : CreditLot, P (.billing (.lot row)))
  (hledger : ∀ row : LedgerEntry, P (.billing (.ledger row))) (hQ : ∀ e, e ≠ eventClash → Q e)
include haccount hlot hledger hQ

/-- What a grant writes: a ledger entry, a lot and the account. -/
theorem grantLot_emits (lotId accountId : String) (credits : ℤ) (reference : String) (kind : LotKind) :
    (grantLot lotId accountId credits reference kind).Emits P Q := by
  have hmissing : Q (.key accountId) := hQ _ (by simp [eventClash])
  simp only [grantLot, issue_bind]
  refine ⟨Stmt.emits_selectForUpdate _ _, fun _ => ?_⟩
  refine ⟨insertLedgerOnce_emits (hledger _) (fun _ hc => hQ _ (by simpa [eventClash] using hc))
    (hQ _ (by simp [eventClash])), fun inserted => ?_⟩
  cases inserted with
  | true =>
    refine Prog.Emits.bind (emits_issue (insertLot_emits (hlot _) fun _ hc =>
      hQ _ (by simpa [eventClash] using hc))) fun _ => ?_
    refine ⟨creditAccount_emits haccount fun _ hc => hQ _ (by simpa [eventClash] using hc), fun row => ?_⟩
    cases row with
    | none => exact hmissing
    | some row => trivial
  | false =>
    refine ⟨Stmt.emits_select _, fun existing => ?_⟩
    rcases existing with _ | existing
    · exact hQ _ (by simp [eventClash])
    · refine Prog.Emits.bind ((Prog.emits_raiseIf _ _).mpr fun _ => hQ _ (by simp [eventClash])) fun _ => ?_
      refine ⟨Stmt.emits_select _, fun row => ?_⟩
      cases row with
      | none => exact hmissing
      | some row => trivial

theorem grant_emits (lotId accountId : String) (credits : ℤ) (reference : String) :
    (grant lotId accountId credits reference).Emits P Q :=
  Prog.Emits.bind ((Prog.emits_raiseIf _ _).mpr fun _ => hQ _ (by simp [eventClash])) fun _ =>
    grantLot_emits haccount hlot hledger hQ _ _ _ _ _

theorem processPaymentEvent_emits (hpayment : ∀ row : PaymentEventRow, P (.billing (.paymentEvent row)))
    (lotId provider providerEventId accountId : String) (credits : ℤ) :
    (processPaymentEvent lotId provider providerEventId accountId credits).Emits P Q :=
  Prog.Emits.bind ((Prog.emits_raiseIf _ _).mpr fun _ => hQ _ (by simp [eventClash])) fun _ =>
    ⟨insertPaymentEvent_emits (hpayment _), fun _ => grantLot_emits haccount hlot hledger hQ _ _ _ _ _⟩

omit hlot hledger in
theorem upsertAccount_emits (id identityId : String) : (upsertAccount id identityId).Emits P Q := by
  intro d
  simp only [upsertAccount]
  cases d.billing.accounts.rows.find? (·.identityId = identityId) with
  | some row => simpa using haccount _
  | none =>
    simp only
    split_ifs
    · exact hQ _ (by simp [eventClash])
    · simpa using haccount _

theorem accountForIdentity_emits (id lotId identityId : String) (allowance : ℤ) :
    (accountForIdentity id lotId identityId allowance).Emits P Q :=
  ⟨upsertAccount_emits haccount hQ id identityId, fun accountId =>
    (grant_emits haccount hlot hledger hQ lotId accountId allowance _).bind fun _ => trivial⟩

end

section
variable (hP : ∀ w : BillingWrite, P (.billing w)) (hQ : ∀ e, e ≠ eventClash → Q e)
include hP hQ

theorem insertLedger_emits (entry : LedgerEntry) : (insertLedger entry).Emits P Q := by
  refine Stmt.emits_insert (hP _) fun d e he => ?_
  split_ifs at he
  · cases he
    exact hQ _ (by simp [eventClash])
  · exact ledgerChecks_emits (fun _ hc => hQ _ (by simpa [eventClash] using hc))
      (hQ _ (by simp [eventClash])) he

theorem insertAllocation_emits (row : CreditAllocation) :
    (PostgresCreditLots.insertAllocation row).Emits P Q := by
  refine Stmt.emits_insert (hP _) fun d e he => ?_
  split_ifs at he <;> cases he <;> exact hQ _ (by simp [eventClash])

theorem insertAuthorization_emits (row : CreditAuthorization) : (insertAuthorization row).Emits P Q := by
  refine Stmt.emits_insert (hP _) fun d e he => ?_
  split_ifs at he <;> cases he <;> exact hQ _ (by simp [eventClash])

theorem finalizeLot_emits (lotId accountId : String) (amount consumed : ℤ) :
    (PostgresCreditLots.finalizeLot lotId accountId amount consumed).Emits P Q := by
  refine Stmt.emits_update fun d => ?_
  cases d.billing.lots.get? lotId with
  | none => trivial
  | some lot =>
    by_cases hmet : lot.accountId = accountId ∧ lot.reserved ≥ amount
    swap
    · simp [hmet]
    simp only [hmet, and_self, if_true]
    split_ifs
    · exact hP _
    · exact hQ _ (by simp [eventClash])

omit hQ in
theorem finalizeAuthorization_emits (id : String) (status : AuthorizationStatus) :
    (finalizeAuthorization id status).Emits P Q := by
  refine Stmt.emits_update fun d => ?_
  cases d.billing.authorizations.get? id with
  | none => trivial
  | some row =>
    simp only
    split_ifs
    · exact hP _
    · trivial

theorem finalizeRows_emits (accountId : String) (status : AuthorizationStatus)
    (rows : List (String × ℤ)) : (PostgresCreditLots.finalizeRows accountId status rows).Emits P Q := by
  induction rows with
  | nil => trivial
  | cons row rows ih =>
    simp only [PostgresCreditLots.finalizeRows, issue_bind]
    refine ⟨finalizeLot_emits hP hQ _ _ _ _, fun rowcount => ?_⟩
    exact Prog.Emits.bind ((Prog.emits_raiseIf _ _).mpr fun _ => hQ _ (by simp [eventClash])) fun _ => ih

theorem finalizeLots_emits (authorizationId accountId : String) (credits : ℤ)
    (status : AuthorizationStatus) :
    (PostgresCreditLots.finalize authorizationId accountId credits status).Emits P Q := by
  simp only [PostgresCreditLots.finalize, issue_bind]
  refine ⟨Stmt.emits_select _, fun rows => ?_⟩
  exact Prog.Emits.bind ((Prog.emits_raiseIf _ _).mpr fun _ => hQ _ (by simp [eventClash])) fun _ =>
    finalizeRows_emits hP hQ _ _ _

theorem recordFinal_emits (auth : CreditAuthorization) (jobId : String) (status : AuthorizationStatus) :
    (recordFinal auth jobId status).Emits P Q := by
  unfold recordFinal
  split_ifs
  · refine ⟨creditAccount_emits (fun _ => hP _) fun _ hc => hQ _ (by simpa [eventClash] using hc),
      fun _ => ?_⟩
    exact emits_issue (insertLedger_emits hP hQ _)
  · exact emits_issue (insertLedger_emits hP hQ _)

omit hQ in
theorem debitAccount_emits (accountId : String) (credits : ℤ) :
    (debitAccount accountId credits).Emits P Q := by
  refine Stmt.emits_update fun d => ?_
  cases d.billing.accounts.get? accountId with
  | none => trivial
  | some row =>
    simp only
    split_ifs
    · exact hP _
    · trivial

theorem reserveLot_emits (lotId : String) (amount : ℤ) :
    (PostgresCreditLots.reserveLot lotId amount).Emits P Q := by
  refine Stmt.emits_update fun d => ?_
  cases d.billing.lots.get? lotId with
  | none => trivial
  | some lot =>
    simp only
    split_ifs
    · exact hP _
    · exact hQ _ (by simp [eventClash])

theorem reserveRows_emits (authorizationId accountId : String) (rows : List (String × ℤ))
    (remaining : ℤ) :
    (PostgresCreditLots.reserveRows authorizationId accountId rows remaining).Emits P Q := by
  induction rows generalizing remaining with
  | nil => exact hQ _ (by simp [eventClash])
  | cons row rows ih =>
    simp only [PostgresCreditLots.reserveRows, issue_bind]
    refine ⟨reserveLot_emits hP hQ _ _, fun _ => ⟨insertAllocation_emits hP hQ _, fun _ => ?_⟩⟩
    split_ifs
    · trivial
    · exact ih _

/-- A reservation writes nothing outside the billing tables. -/
theorem reserveNew_emits (authorizationId jobId accountId : String) (credits : ℤ) :
    (reserveNew authorizationId jobId accountId credits).Emits P Q := by
  simp only [reserveNew, issue_bind]
  refine ⟨debitAccount_emits hP _ _, fun debited => ?_⟩
  refine Prog.Emits.bind ((Prog.emits_raiseIf _ _).mpr fun _ => hQ _ (by simp [eventClash])) fun _ => ?_
  refine ⟨insertAuthorization_emits hP hQ _, fun _ => ?_⟩
  refine Prog.Emits.bind ⟨fun d => by simp [PostgresCreditLots.selectSpendable], fun rows => ?_⟩ fun _ =>
    ⟨insertLedger_emits hP hQ _, fun _ => trivial⟩
  exact reserveRows_emits hP hQ _ _ _ _

theorem reserve_emits (authorizationId jobId accountId : String) (credits : ℤ) :
    (reserve authorizationId jobId accountId credits).Emits P Q := by
  refine Prog.Emits.bind ((Prog.emits_raiseIf _ _).mpr fun _ => hQ _ (by simp [eventClash])) fun _ => ?_
  simp only [issue_bind]
  refine ⟨Stmt.emits_selectForUpdate _ _, fun _ => ⟨Stmt.emits_select _, fun auth => ?_⟩⟩
  rcases auth with _ | auth
  · refine (reserveNew_emits hP hQ _ _ _ _).bind fun auth => ⟨fun d => ?_, fun _ => trivial⟩
    simp only [checkJobKey]
    split_ifs
    · simp
    · exact hQ _ (by simp [eventClash])
  · exact Prog.Emits.bind ((Prog.emits_raiseIf _ _).mpr fun _ => hQ _ (by simp [eventClash])) fun _ => trivial

/-- The end of a reservation writes nothing outside the billing tables. -/
theorem finalize_emits (jobId : String) (status : AuthorizationStatus) :
    (finalize jobId status).Emits P Q := by
  have hrequire : ∀ rowcount, (requireOne rowcount).Emits P Q := fun rowcount =>
    (Prog.emits_raiseIf _ _).mpr fun _ => hQ _ (by simp [eventClash])
  unfold finalize
  refine Prog.Emits.bind ((Prog.emits_raiseIf _ _).mpr fun _ => hQ _ (by simp [eventClash])) fun _ => ?_
  refine Prog.Emits.bind ⟨Stmt.emits_select _, fun auth => ?_⟩ fun auth => ?_
  · rcases auth with _ | auth
    · exact hQ _ (by simp [eventClash])
    · trivial
  refine ⟨Stmt.emits_selectForUpdate _ _, fun _ => ⟨fun d => by simp [selectAuthorizationForUpdate],
    fun auth => ?_⟩⟩
  rcases auth with _ | auth
  · exact hQ _ (by simp [eventClash])
  show Prog.Emits P Q (if auth.status ≠ .reserved then _ else _)
  split_ifs
  · trivial
  refine Prog.Emits.bind (finalizeLots_emits hP hQ _ _ _ _) fun _ => ?_
  refine ⟨finalizeAuthorization_emits hP _ _, fun rowcount => ?_⟩
  exact (hrequire rowcount).bind fun _ => (recordFinal_emits hP hQ _ _ _).bind fun _ => trivial

end

end PostgresBillingRepository

open PostgresExecution PostgresRepositories

def Write.isLease : Write → Bool
  | .lease _ => true
  | _ => false

def Write.isDispatch : Write → Bool
  | .dispatch _ => true
  | _ => false

/-- The writes of a job's progress: to the job, its events, results and reservation. -/
def Write.isWork : Write → Bool
  | .job _ | .event _ | .failure _ | .artifact _ | .billing _ => true
  | _ => false

/-- A write to an asset's row or to its stored object. -/
def Write.isSource : Write → Bool
  | .asset _ | .object _ => true
  | _ => false

/-- A write to the records of a job, its reservation among them. -/
def Write.isRecord : Write → Bool
  | .lease _ | .asset _ | .object _ => false
  | _ => true

theorem Write.isRecord_aside {w : Write} (hw : w.isRecord) : w.isLease = false ∧ w.isSource = false := by
  cases w <;> first | exact ⟨rfl, rfl⟩ | cases hw

theorem Write.isWork_record {w : Write} (hw : w.isWork) : w.isRecord := by
  cases w <;> first | rfl | cases hw

theorem Write.isWork_aside {w : Write} (hw : w.isWork) : w.isLease = false ∧ w.isDispatch = false := by
  cases w <;> first | exact ⟨rfl, rfl⟩ | cases hw

/-- A procedure whose only writes are of a job's progress. -/
abbrev Works {α : Type} (p : Procedure α) : Prop := p.Emits (fun w => w.isWork) fun _ => True

theorem finishJob_work (job : Job) (at' : Time) :
    Works (finishJob PostgresHostedRepository.billing job at') := by
  unfold finishJob
  by_cases hterminal : job.status.isTerminal
  · rw [if_pos hterminal]
    refine ⟨setTerminalAt_emits fun _ => rfl, fun _ => ?_⟩
    exact (PostgresBillingRepository.finalize_emits (fun _ => rfl) (fun _ _ => trivial) _ _).bind
      fun _ => trivial
  · rw [if_neg hterminal]
    trivial

theorem requireOne_work (rowcount : ℕ) : Works (requireOne rowcount) :=
  (Prog.emits_raiseIf _ _).mpr fun _ => trivial

theorem update_work (job : Job) (expectedVersion : ℤ) (eventType : String) (artifact : Option Artifact)
    (lease : Option Lease) (failure : Option (String × String)) (now at' : Time) :
    Works (updateJobAndAppendEvent PostgresHostedRepository.billing job expectedVersion eventType artifact
      lease failure now at') := by
  unfold updateJobAndAppendEvent
  refine (PostgresExecution.checkLease_emits trivial).bind fun _ => ?_
  refine ⟨updateJob_emits fun _ => rfl, fun rowcount => (requireOne_work rowcount).bind fun _ => ?_⟩
  refine (appendEvent_emits (fun _ => trivial) (fun _ => rfl) fun _ _ => trivial).bind fun _ => ?_
  refine Prog.Emits.bind ?_ fun _ => Prog.Emits.bind ?_ fun _ => ?_
  · cases artifact with
    | none => trivial
    | some artifact =>
      refine Prog.Emits.bind ((Prog.emits_raiseIf _ _).mpr fun _ => trivial) fun _ => ?_
      exact emits_issue (insertArtifact_emits (fun _ _ => trivial) rfl)
  · rcases failure with _ | ⟨code, message⟩
    · trivial
    · exact emits_issue (insertFailure_emits (fun _ _ => trivial) rfl)
  · exact (finishJob_work job at').bind fun _ => trivial

theorem cancel_work (jobId : String) (at' : Time) :
    Works (requestCancellation PostgresHostedRepository.billing jobId at') := by
  unfold requestCancellation
  simp only [issue_bind]
  refine ⟨Stmt.emits_select _, fun current => ?_⟩
  cases current with
  | none => trivial
  | some current =>
    by_cases hover : current.status.isTerminal ∨ current.status = .cancelRequested
    · simp only [if_pos hover]
      trivial
    simp only [if_neg hover]
    refine ⟨Stmt.emits_select _, fun dispatch => ?_⟩
    refine ⟨updateJob_emits fun _ => rfl, fun rowcount => (requireOne_work rowcount).bind fun _ => ?_⟩
    refine ⟨Stmt.emits_select _, fun sequence => ⟨insertEvent_emits (fun _ => trivial) rfl, fun _ => ?_⟩⟩
    exact (finishJob_work _ at').bind fun _ => trivial

end KenkuiServer.Storage
