import KenkuiServer.Credits.Conservation

/-! The credit store after migration 0004. Authorizations that had ended before it have no
allocations, and the ledger entries of old credits need not add up; the lots nevertheless cover every
balance, and every later call finds them in order. -/
namespace KenkuiServer.Storage
open Txn Jobs Billing

namespace BillingDb

variable {b : BillingDb}

/-- A store some time after the migration: an authorization that is not live had ended before it, and
the `known` entries of the ledger are still there. -/
structure Migrated (live : String → Bool) (known : Table LedgerEntry.reference) (b : BillingDb) : Prop where
  ended : ∀ id, live id = false → ∃ a, b.authorizations.get? id = some a ∧ a.status ≠ .reserved
  balanced : (b.since live).Balanced "" "" 0
  entries : ∀ reference e, known.get? reference = some e → b.ledger.get? reference = some e

variable {live : String → Bool} {known : Table LedgerEntry.reference}

theorem Migrated.live_of_none (h : Migrated live known b) {id : String}
    (hnew : b.authorizations.get? id = none) : live id = true := by
  by_contra hdead
  obtain ⟨a, ha, -⟩ := h.ended id (Bool.eq_false_iff.mpr hdead)
  rw [hnew] at ha
  cases ha

theorem Migrated.live_of_reserved (h : Migrated live known b) {auth : CreditAuthorization}
    (hget : b.authorizations.get? auth.id = some auth) (hreserved : auth.status = .reserved) :
    live auth.id = true := by
  by_contra hdead
  obtain ⟨a, ha, hne⟩ := h.ended auth.id (Bool.eq_false_iff.mpr hdead)
  rw [hget] at ha
  cases ha
  exact hne hreserved

theorem entries_put {entry : LedgerEntry} (hentry : b.ledger.get? entry.reference = none)
    (h : ∀ reference e, known.get? reference = some e → b.ledger.get? reference = some e) :
    ∀ reference e, known.get? reference = some e → (b.ledger.put entry).get? reference = some e := by
  intro reference e he
  have hold := h reference e he
  have hne : entry.reference ≠ reference := by
    rintro rfl
    rw [hentry] at hold
    cases hold
  exact (Table.get?_put_of_ne _ hne).trans hold

theorem Migrated.putEntry (h : Migrated live known b) {entry : LedgerEntry}
    (hentry : b.ledger.get? entry.reference = none) :
    Migrated live known ((BillingWrite.ledger entry).apply b) :=
  ⟨h.ended, h.balanced.aside _ _, entries_put hentry h.entries⟩

theorem Migrated.recordPayment (h : Migrated live known b) (row : PaymentEventRow) :
    Migrated live known ((BillingWrite.paymentEvent row).apply b) :=
  ⟨h.ended, h.balanced.aside _ _, h.entries⟩

theorem Migrated.openAccount (h : Migrated live known b) {id : String} (identityId : String)
    (hnew : b.accounts.get? id = none) :
    Migrated live known ((BillingWrite.account { id, availableCredits := 0, identityId }).apply b) :=
  ⟨h.ended, h.balanced.openAccount identityId hnew, h.entries⟩

theorem since_finalized {lots : Table CreditLot.id} {auth : CreditAuthorization}
    {status : AuthorizationStatus} {row : AccountRow} {refund : ℤ} (hlive : live auth.id = true) :
    (b.finalized lots auth status row refund).since live =
      (b.since live).finalized lots auth status row refund := by
  have hput := Table.restrict_put b.authorizations (q := live) (r := { auth with status }) hlive
  simp only [since, finalized, BillingWrite.apply, hput]

/-- A write of a live authorization leaves the ended ones as they are. -/
theorem Migrated.ended_put (h : Migrated live known b) {auth : CreditAuthorization}
    (hlive : live auth.id = true) (id : String) (hdead : live id = false) :
    ∃ a, (b.authorizations.put auth).get? id = some a ∧ a.status ≠ .reserved := by
  obtain ⟨a, ha, hne⟩ := h.ended id hdead
  have hother : auth.id ≠ id := by
    rintro rfl
    rw [hlive] at hdead
    cases hdead
  exact ⟨a, (Table.get?_put_of_ne _ hother).trans ha, hne⟩

end BillingDb

open BillingDb in
/-- Keeps a migrated store, and finds its lots in order. -/
abbrev Steady (live : String → Bool) (known : Table LedgerEntry.reference) {α : Type}
    (p : Procedure α) : Prop :=
  p.Keeps (fun d => Migrated live known d.billing) Orderly

section
variable {α : Type}

namespace PostgresBillingRepository
open BillingDb

section
variable {live : String → Bool} {known : Table LedgerEntry.reference}

/-- What a grant can fail with: only one of a negative amount makes a lot outside its checks. -/
def GrantError (credits : ℤ) (e : Error) : Prop :=
  Orderly e ∨ credits < 0 ∧ e = .integrity "credit_lots_check"

theorem grantLot_migrated (lotId accountId : String) (credits : ℤ) (reference : String) (kind : LotKind) :
    (grantLot lotId accountId credits reference kind).Keeps (fun d => Migrated live known d.billing)
      (GrantError credits) := by
  intro d hd
  by_cases hfresh : (d.billing.ledger.get? reference).isSome
  · exact grantLot_replay hd hfresh (Or.inl (orderly_value (by decide))) (Or.inl (orderly_key accountId))
  · simp only [grantLot, issue_bind, selectAccountForUpdate, Prog.run_selectForUpdate, insertLedgerOnce,
      Prog.run_mk]
    set entry : LedgerEntry :=
      { accountId, authorizationId := none, kind := .purchase, credits, reference } with hentry
    simp only [hfresh, Bool.false_eq_true, if_false]
    cases hchecks : ledgerChecks entry d.billing with
    | error e => exact Or.inl (ledgerChecks_orderly hchecks)
    | ok u =>
      obtain ⟨row, hrow : d.billing.accounts.get? accountId = some row⟩ := ledgerChecks_ok hchecks
      obtain rfl := account_id hrow
      simp only [applyAll_cons, applyAll_nil, if_true, PostgresCreditLots.grant, issue_bind,
        PostgresCreditLots.insertLot, Prog.run_insert]
      split_ifs with hbounds hlot href
      · have hnegative : credits < 0 := by simpa [lotChecks] using hbounds
        exact Or.inr ⟨hnegative, rfl⟩
      · exact Or.inl (orderly_integrity (by decide))
      · exact Or.inl (orderly_integrity (by decide))
      simp only [creditAccount, Prog.run_mk, billing_apply, BillingWrite.accounts_apply, hrow]
      split_ifs with hnonneg
      · exact Or.inl (orderly_integrity (by decide))
      simp only [Bool.not_eq_true', Bool.not_eq_false, Option.not_isSome_iff_eq_none]
        at hbounds hlot hfresh
      have hb := hd.balanced.grant
        { id := lotId, accountId := row.id, kind, reference, credited := credits }
        hrow hlot rfl ⟨rfl, rfl⟩ hbounds
      have hentries := entries_put (show d.billing.ledger.get? entry.reference = none from hfresh) hd.entries
      exact ⟨hd.ended, hb.aside _ _, hentries⟩

theorem reserveNew_migrated (authorizationId jobId accountId : String) (credits : ℤ) :
    Steady live known (reserveNew authorizationId jobId accountId credits) := by
  intro d hd
  rcases reserveNew_since hd.balanced (fun _ => hd.live_of_none) authorizationId jobId accountId credits with
    ⟨e, he, horderly⟩ | ⟨row, lots, allocations, -, hid, -, hbal, hrun⟩
  · rw [he]
    exact horderly
  · rw [hrun]
    refine insertLedger_ends (fun _ he => he) fun hentry _ => ?_
    set auth : CreditAuthorization := ⟨authorizationId, jobId, accountId, credits, .reserved⟩ with hauth
    have hlive : live auth.id = true := hd.live_of_none hid
    have hmoved : Migrated live known { d.billing.debited row auth with lots, allocations } :=
      ⟨hd.ended_put hlive, hbal.of_zero "" "", hd.entries⟩
    exact hmoved.putEntry hentry

/-- The store after a reservation ended, whether it was made before the migration or after it. -/
theorem Balanced.finalize_since {b : BillingDb} {lots : Table CreditLot.id} {auth : CreditAuthorization}
    {status : AuthorizationStatus} {row : AccountRow} (h : (b.since live).Balanced "" "" 0)
    (hlive : live auth.id = true) (hget : b.authorizations.get? auth.id = some auth)
    (hreserved : auth.status = .reserved) (hstatus : status ≠ .reserved)
    (hlots : lots.rows = b.lots.rows.map
      (PostgresCreditLots.finalizedLot status (b.allocationRows auth.id auth.accountId)))
    (hbalance : ∀ a, { b with lots }.lotBalance a = b.lotBalance a +
      if auth.accountId = a ∧ status ≠ .settled then auth.credits else 0)
    (hrow : b.accounts.get? row.id = some row) (hid : row.id = auth.accountId) :
    ((b.finalized lots auth status row (if status ≠ .settled then auth.credits else 0)).since
      live).Balanced "" "" 0 := by
  rw [since_finalized hlive]
  have hlook := (Table.get?_restrict b.authorizations hlive).trans hget
  have hrefund : ∀ a, { b with lots }.lotBalance a = b.lotBalance a +
      if row.id = a then (if status ≠ .settled then auth.credits else 0) else 0 := by
    intro a
    rw [hbalance a, hid]
    by_cases ha : auth.accountId = a <;> simp [ha]
  exact h.finalize _ hlook hreserved hstatus hlots hrefund hrow

theorem finalize_migrated (jobId : String) (status : AuthorizationStatus) :
    Steady live known (finalize jobId status) := by
  intro d hd
  by_cases hstatus : status = .reserved
  · simp only [finalize, hstatus, if_true, Prog.raiseIf_bind]
    exact orderly_value (by decide)
  cases hauth : authorizationOfJob jobId d.billing with
  | none =>
    rw [finalize_run_none hstatus hauth]
    exact orderly_key jobId
  | some auth =>
    by_cases hreserved : auth.status = .reserved
    swap
    · rw [finalize_run_final hstatus hauth hreserved]
      exact hd
    obtain ⟨hget, -⟩ := authorizationOfJob_get? hauth
    have hlive := hd.live_of_reserved hget hreserved
    obtain ⟨lots, hrun, hlots, hbalance⟩ := finalize_run_since hd.balanced hlive hstatus hauth hreserved
    have hended : ∀ row, d.billing.accounts.get? row.id = some row → row.id = auth.accountId →
        ((d.billing.finalized lots auth status row (if status ≠ .settled then auth.credits else 0)).since
          live).Balanced "" "" 0 := fun row hrow hid =>
      Balanced.finalize_since hd.balanced hlive hget hreserved hstatus hlots hbalance hrow hid
    rw [hrun]
    cases status with
    | reserved => exact absurd rfl hstatus
    | settled =>
      simp only [recordFinal, reduceCtorEq, if_false, issue_bind]
      refine insertLedger_ends (fun _ he => he) fun hentry haccount => ?_
      obtain ⟨row, hrow⟩ := haccount
      have hid : row.id = auth.accountId := account_id hrow
      have hrow : d.billing.accounts.get? row.id = some row := hid ▸ hrow
      have hb := hended row hrow hid
      simp only [ne_eq, not_true_eq_false, if_false, finalized_zero hrow] at hb
      have hmoved : Migrated live known ((BillingWrite.authorization { auth with status := .settled }).apply
          { d.billing with lots }) := ⟨hd.ended_put hlive, hb, hd.entries⟩
      exact hmoved.putEntry hentry
    | released =>
      simp only [recordFinal, if_true, issue_bind, Prog.step_bind, creditAccount, Prog.run_mk]
      cases hrow : d.billing.accounts.get? auth.accountId with
      | none =>
        simp only [billing_apply, BillingWrite.accounts_apply, hrow, applyAll_nil]
        refine insertLedger_ends (fun _ he => he) fun _ haccount => ?_
        obtain ⟨row, hrow'⟩ := haccount
        exact absurd (hrow.symm.trans hrow') (by simp)
      | some row =>
        simp only [billing_apply, BillingWrite.accounts_apply, hrow]
        split_ifs with hnonneg
        · exact orderly_integrity (by decide)
        refine insertLedger_ends (fun _ he => he) fun hentry _ => ?_
        have hid := account_id hrow
        rw [← hid] at hrow
        have hb := hended row hrow hid
        have hmoved : Migrated live known (d.billing.finalized lots auth .released row auth.credits) :=
          ⟨hd.ended_put hlive, hb, hd.entries⟩
        exact hmoved.putEntry hentry

theorem grantLot_orderly (lotId accountId : String) {credits : ℤ} (reference : String) (kind : LotKind)
    (hcredits : ¬ credits < 1) :
    Steady live known (grantLot lotId accountId credits reference kind) := by
  refine Prog.Keeps.imp (grantLot_migrated lotId accountId credits reference kind) fun e he => ?_
  rcases he with he | ⟨hnegative, -⟩
  · exact he
  · omega

theorem grant_orderly (lotId accountId : String) (credits : ℤ) (reference : String) :
    Steady live known (grant lotId accountId credits reference) := by
  intro d hd
  simp only [grant, Prog.raiseIf_bind]
  split_ifs with hcredits
  · exact orderly_value (by decide)
  · exact grantLot_orderly lotId accountId reference .grant hcredits d hd

theorem processPaymentEvent_orderly (lotId provider providerEventId accountId : String) (credits : ℤ) :
    Steady live known (processPaymentEvent lotId provider providerEventId accountId credits) := by
  intro d hd
  simp only [processPaymentEvent, Prog.raiseIf_bind, issue_bind, insertPaymentEvent]
  split_ifs with hcredits
  · exact orderly_value (by decide)
  simp only [Prog.run_mk]
  split_ifs
  · exact grantLot_orderly lotId accountId _ .purchase hcredits d hd
  · exact grantLot_orderly lotId accountId _ .purchase hcredits _ (hd.recordPayment _)

theorem reserve_orderly (authorizationId jobId accountId : String) (credits : ℤ) :
    Steady live known (reserve authorizationId jobId accountId credits) := by
  refine (Prog.keeps_raiseIf (orderly_value (by decide))).bind fun _ d hd => ?_
  simp only [issue_bind, selectAccountForUpdate, Prog.run_selectForUpdate, selectAuthorizationForJob,
    Prog.run_select]
  cases authorizationOfJob jobId d.billing with
  | some authorization =>
    have hconflict : Steady live known (.raiseIf
        ((authorization.accountId, authorization.credits) ≠ (accountId, credits))
        (.value "authorization_conflict")) := Prog.keeps_raiseIf (orderly_value (by decide))
    exact hconflict.bind (fun _ => Prog.keeps_ret authorization) d hd
  | none =>
    have hkey : Steady live known ((checkJobKey jobId).issue) := by
      intro d hd
      simp only [run_issue, checkJobKey]
      split_ifs
      · exact hd
      · exact orderly_integrity (by decide)
    exact (reserveNew_migrated authorizationId jobId accountId credits).bind
      (fun a => hkey.bind fun _ => Prog.keeps_ret a) d hd

theorem keeps_of_emits {p : Procedure α} (h : p.Emits (fun w => w.isBilling = false) Orderly) :
    Steady live known p :=
  h.keeps fun w hw d hd => by cases w <;> first | exact hd | cases hw

open PostgresHostedRepository PostgresRepositories in
theorem replay_orderly (spec : JobSpec) (idempotencyKey : Option String) :
    (replay spec idempotencyKey).Emits (fun w => w.isBilling = false) Orderly := by
  have hadmitted : (admitted idempotencyKey).Emits (fun w => w.isBilling = false) Orderly := by
    rcases idempotencyKey with _ | key
    · trivial
    refine ⟨Stmt.emits_select _, fun existing => ?_⟩
    rcases existing with _ | existing
    · trivial
    refine ⟨Stmt.emits_select _, fun job => ?_⟩
    rcases job with _ | job
    · exact ⟨by simp [balanceMismatch], by simp⟩
    · trivial
  refine hadmitted.bind fun existing => ?_
  rcases existing with _ | existing
  · trivial
  · exact Prog.Emits.bind ((Prog.emits_raiseIf _ _).mpr fun _ => orderly_value (by decide)) fun _ => trivial

open PostgresHostedRepository PostgresRepositories in
/-- The rows of a new job, once its credits are reserved. -/
theorem insertNew_orderly (job : Job) (dispatch : Dispatch) (ownerId : String)
    (idempotencyKey : Option String) :
    (do
      (insertJob { job with ownerId := some ownerId }).issue
      (insertDispatch dispatch).issue
      recordKey idempotencyKey job.id
      return job : Procedure Job).Emits (fun w => w.isBilling = false) Orderly := by
  have hjob : (insertJob { job with ownerId := some ownerId }).Emits
    (fun w => w.isBilling = false) Orderly := by
    refine Stmt.emits_insert rfl fun d e he => ?_
    split_ifs at he
    cases he
    exact orderly_integrity (by decide)
  have hdispatch : (insertDispatch dispatch).Emits (fun w => w.isBilling = false) Orderly := by
    refine Stmt.emits_insert rfl fun d e he => ?_
    split_ifs at he <;> cases he <;> exact orderly_integrity (by decide)
  have hkey : (recordKey idempotencyKey job.id).Emits (fun w => w.isBilling = false) Orderly := by
    rcases idempotencyKey with _ | key
    · trivial
    refine emits_issue (Stmt.emits_insert rfl fun d e he => ?_)
    split_ifs at he
    cases he
    exact orderly_integrity (by decide)
  exact ⟨hjob, fun _ => ⟨hdispatch, fun _ => hkey.bind fun _ => trivial⟩⟩

open PostgresHostedRepository PostgresRepositories in
theorem admitJob_orderly (authorizationId : String) (job : Job) (dispatch : Dispatch)
    (accountId ownerId : String) (credits : ℤ) (idempotencyKey : Option String) :
    Steady live known (admitJob authorizationId job dispatch accountId ownerId credits idempotencyKey) := by
  refine (Prog.keeps_raiseIf (orderly_value (by decide))).bind fun _ => ?_
  refine Prog.Keeps.bind (p := (selectAccountForUpdate accountId).issue)
    (keeps_of_emits (emits_issue (Stmt.emits_selectForUpdate _ _))) fun _ => ?_
  refine (keeps_of_emits (replay_orderly job.spec idempotencyKey)).bind fun existing => ?_
  rcases existing with _ | existing
  swap
  · exact Prog.keeps_ret existing
  refine Prog.Keeps.bind (p := (countActiveJobs ownerId).issue)
    (keeps_of_emits (emits_issue (Stmt.emits_select _))) fun active => ?_
  refine (Prog.keeps_raiseIf (orderly_value (by decide))).bind fun _ => ?_
  refine Prog.Keeps.bind (p := (selectAssetForUpdate job.spec.sourceId).issue)
    (keeps_of_emits (emits_issue (Stmt.emits_selectForUpdate _ _))) fun source => ?_
  refine (Prog.keeps_raiseIf (orderly_value (by decide))).bind fun _ => ?_
  refine (reserveNew_migrated authorizationId job.id accountId credits).bind fun _ => ?_
  exact keeps_of_emits (insertNew_orderly job dispatch ownerId idempotencyKey)

theorem kept_migrated : Kept (Migrated live known) fun _ => True where
  openAccount identityId hb hnew := hb.openAccount identityId hnew
  recordPayment row hb := hb.recordPayment row
  grantLot lotId accountId credits reference kind _ := by
    refine Prog.Keeps.imp (grantLot_migrated lotId accountId credits reference kind) fun e he => ?_
    rcases he with he | ⟨-, rfl⟩
    · exact he.1
    · exact integrity_ne _
  reserveNew authorizationId jobId accountId credits :=
    Prog.Keeps.imp (reserveNew_migrated authorizationId jobId accountId credits) fun _ he => he.1
  finalize jobId status := Prog.Keeps.imp (finalize_migrated jobId status) fun _ he => he.1

end

end PostgresBillingRepository

end

end KenkuiServer.Storage
