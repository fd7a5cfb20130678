import KenkuiServer.Credits.Books
import KenkuiServer.Credits.Since
import KenkuiServer.Storage.Effects

/-! Conservation of credits: every call keeps the books, and so does any sequence of calls. -/
namespace KenkuiServer.Storage
open Txn Jobs Billing

def balanceMismatch : Error := .value "credit_lot_balance_mismatch"

/-- A run that left the books in order, or failed without having found them wrong. -/
abbrev BooksKept {α : Type} : Except Error (α × HostedDb) → Prop :=
  Prog.Ends (fun d => d.billing.Books) (· ≠ balanceMismatch)

abbrev Conserves {α : Type} (p : Procedure α) : Prop := ∀ d, d.billing.Books → BooksKept (p.run d)

/-- Keeps an invariant of the credit store and never finds a balance that its lots do not cover. -/
abbrev Keeping (I : BillingDb → Prop) {α : Type} (p : Procedure α) : Prop :=
  p.Keeps (fun d => I d.billing) (· ≠ balanceMismatch)

section
variable {α β : Type} {I : BillingDb → Prop}

theorem Keeping.bind {p : Procedure α} {f : α → Procedure β} (hp : Keeping I p)
    (hf : ∀ a, Keeping I (f a)) : Keeping I (p >>= f) := Prog.Keeps.bind hp hf

theorem keeping_ret (a : α) : Keeping I (.ret a : Procedure α) := Prog.keeps_ret a

theorem keeping_raise {e : Error} (he : e ≠ balanceMismatch) :
    Keeping I (.raise e : Procedure α) := fun _ _ => he

theorem keeping_raiseIf {c : Prop} [Decidable c] {e : Error} (he : e ≠ balanceMismatch) :
    Keeping I (.raiseIf c e) := Prog.keeps_raiseIf he

theorem keeping_of_emits {p : Procedure α}
    (h : p.Emits (fun w => w.isBilling = false) (· ≠ balanceMismatch)) : Keeping I p :=
  h.keeps fun w hw d hd => by cases w <;> first | exact hd | cases hw

theorem keeping_step {s : Statement β} {k : β → Procedure α}
    (hs : s.Emits (fun w => w.isBilling = false) (· ≠ balanceMismatch)) (hk : ∀ b, Keeping I (k b)) :
    Keeping I (.step s k) :=
  Keeping.bind (p := s.issue) (keeping_of_emits ⟨hs, fun _ => trivial⟩) hk

end

/-- An error that finds neither the lots short of a balance nor a lot outside its checks. -/
def Orderly (e : Error) : Prop := e ≠ balanceMismatch ∧ e ≠ .integrity "credit_lots_check"

theorem orderly_integrity {constraint : String} (h : constraint ≠ "credit_lots_check") :
    Orderly (.integrity constraint) :=
  ⟨by simp [balanceMismatch], by simpa using h⟩

theorem orderly_value {code : String} (h : code ≠ "credit_lot_balance_mismatch") : Orderly (.value code) :=
  ⟨by simpa [balanceMismatch] using h, by simp⟩

theorem orderly_key (name : String) : Orderly (.key name) := ⟨by simp [balanceMismatch], by simp⟩

theorem orderly_outOfRange : Orderly .outOfRange := ⟨by simp [balanceMismatch], by simp⟩

namespace PostgresBillingRepository
open BillingDb

theorem ledgerChecks_ok {entry : LedgerEntry} {b : BillingDb} (h : ledgerChecks entry b = .ok ()) :
    ∃ row, b.accounts.get? entry.accountId = some row := by
  unfold ledgerChecks at h
  split_ifs at h with h1 h2
  exact Option.ne_none_iff_exists'.mp (by simpa using h2)

section
variable {α : Type} {I : HostedDb → Prop} {Q : Error → Prop}

theorem ledgerChecks_orderly {entry : LedgerEntry} {b : BillingDb} {e : Error}
    (h : ledgerChecks entry b = .error e) : Orderly e := by
  unfold ledgerChecks at h
  split_ifs at h <;> cases h
  · exact orderly_outOfRange
  · exact orderly_integrity (by decide)
  · exact orderly_integrity (by decide)

/-- The ledger insert of a transaction goes through only for a new entry of a known account. -/
theorem insertLedger_ends {entry : LedgerEntry} {k : Unit → Procedure α} {d : HostedDb}
    (hQ : ∀ e, Orderly e → Q e)
    (h : d.billing.ledger.get? entry.reference = none →
      (∃ row, d.billing.accounts.get? entry.accountId = some row) →
      Prog.Ends I Q ((k ()).run (apply (Write.billing (.ledger entry)) d))) :
    Prog.Ends I Q ((Prog.step (insertLedger entry) k).run d) := by
  simp only [insertLedger, Prog.run_insert]
  split_ifs with href
  · exact hQ _ (orderly_integrity (by decide))
  · cases hchecks : ledgerChecks entry d.billing with
    | error e => exact hQ _ (ledgerChecks_orderly hchecks)
    | ok u => exact h (Option.not_isSome_iff_eq_none.mp href) (ledgerChecks_ok hchecks)

theorem account_keeps (accountId : String) (hQ : Q (.key accountId)) :
    (account accountId).Keeps I Q := by
  intro d hd
  simp only [account, issue_bind, selectAccount, Prog.run_select]
  cases d.billing.accounts.get? accountId with
  | none => exact hQ
  | some row => exact hd

/-- A grant under a reference that the ledger has reads the entry and changes nothing. -/
theorem grantLot_replay {lotId accountId : String} {credits : ℤ} {reference : String}
    {kind : LotKind} {d : HostedDb} (hd : I d) (hknown : (d.billing.ledger.get? reference).isSome)
    (hconflict : Q (.value "payment_reference_conflict")) (hkey : Q (.key accountId)) :
    Prog.Ends I Q ((grantLot lotId accountId credits reference kind).run d) := by
  simp only [grantLot, issue_bind, selectAccountForUpdate, Prog.run_selectForUpdate, insertLedgerOnce,
    Prog.run_mk, hknown, if_true, applyAll_nil, Bool.false_eq_true, if_false, selectLedger, Prog.run_select]
  cases d.billing.ledger.get? reference with
  | none => exact hconflict
  | some existing => exact (Prog.keeps_raiseIf hconflict).bind (fun _ => account_keeps accountId hkey) d hd

end

theorem insertLedger_ok {α : Type} {entry : LedgerEntry} {k : Unit → Procedure α} {d d' : HostedDb} {a : α}
    (h : (Prog.step (insertLedger entry) k).run d = .ok (a, d')) :
    (k ()).run (apply (Write.billing (.ledger entry)) d) = .ok (a, d') := by
  simp only [insertLedger, Prog.run_insert] at h
  split_ifs at h
  cases hchecks : ledgerChecks entry d.billing with
  | error e => simp [hchecks] at h
  | ok u => simpa [hchecks] using h

theorem grantLot_conserves (lotId accountId : String) (credits : ℤ) (reference : String)
    (kind : LotKind) : Conserves (grantLot lotId accountId credits reference kind) := by
  intro d hd
  by_cases hfresh : (d.billing.ledger.get? reference).isSome
  · exact grantLot_replay hd hfresh (by simp [balanceMismatch]) (by simp [balanceMismatch])
  · simp only [grantLot, issue_bind, selectAccountForUpdate, Prog.run_selectForUpdate, insertLedgerOnce,
      Prog.run_mk]
    set entry : LedgerEntry :=
      { accountId, authorizationId := none, kind := .purchase, credits, reference } with hentry
    simp only [hfresh, Bool.false_eq_true, if_false]
    cases hchecks : ledgerChecks entry d.billing with
    | error e => exact (ledgerChecks_orderly hchecks).1
    | ok u =>
      obtain ⟨row, hrow : d.billing.accounts.get? accountId = some row⟩ := ledgerChecks_ok hchecks
      obtain rfl := account_id hrow
      simp only [applyAll_cons, applyAll_nil, if_true, PostgresCreditLots.grant, issue_bind,
        PostgresCreditLots.insertLot, Prog.run_insert]
      split_ifs with hbounds hlot href
      · simp [balanceMismatch]
      · simp [balanceMismatch]
      · simp [balanceMismatch]
      simp only [creditAccount, Prog.run_mk, billing_apply, BillingWrite.accounts_apply, hrow]
      split_ifs with hnonneg
      · simp [balanceMismatch]
      simp only [Bool.not_eq_true', Bool.not_eq_false, Option.not_isSome_iff_eq_none]
        at hbounds hlot hfresh
      have hb := hd.balanced.grant
        { id := lotId, accountId := row.id, kind, reference, credited := credits }
        hrow hlot rfl ⟨rfl, rfl⟩ hbounds
      exact hb.books entry hd hrow rfl rfl hfresh rfl (hd.recorded.grant hfresh rfl)

/-- `b'` is `b` after a reservation that still lacks its ledger entry. -/
structure Reserving (b b' : BillingDb) (row : AccountRow) (auth : CreditAuthorization) : Prop where
  account : b.accounts.get? auth.accountId = some row
  fresh : b.authorizations.get? auth.id = none
  free : ∀ a ∈ b.authorizations.rows, a.jobId ≠ auth.jobId
  accounts : b'.accounts =
    b.accounts.put { row with availableCredits := row.availableCredits + -auth.credits }
  authorizations : b'.authorizations = b.authorizations.put auth
  ledger : b'.ledger = b.ledger
  balanced : b'.Balanced row.id auth.id 0

theorem since_debited {live : String → Bool} {b : BillingDb} {row : AccountRow} {auth : CreditAuthorization}
    (hlive : live auth.id = true) : (b.debited row auth).since live = (b.since live).debited row auth := by
  simp only [since, debited, BillingWrite.apply, Table.restrict_put b.authorizations hlive]

/-- A reservation is refused for a reason of its own, or only its ledger entry is left to insert: it
finds lots for all of its credits. Authorizations that are not live need no allocations for that. -/
theorem reserveNew_since {live : String → Bool} {d : HostedDb} (hd : (d.billing.since live).Balanced "" "" 0)
    (hnew : ∀ id, d.billing.authorizations.get? id = none → live id = true)
    (authorizationId jobId accountId : String) (credits : ℤ) :
    let auth : CreditAuthorization := ⟨authorizationId, jobId, accountId, credits, .reserved⟩
    (∃ e, (reserveNew authorizationId jobId accountId credits).run d = .error e ∧ Orderly e) ∨
      ∃ row lots allocations, d.billing.accounts.get? accountId = some row ∧
        d.billing.authorizations.get? authorizationId = none ∧
        (∀ a ∈ d.billing.authorizations.rows, a.jobId ≠ jobId) ∧
        ({ d.billing.debited row auth with lots, allocations }.since live).Balanced row.id authorizationId 0 ∧
        (reserveNew authorizationId jobId accountId credits).run d =
          (Prog.step (insertLedger ⟨accountId, some authorizationId, .reservation, -credits,
            "reservation:" ++ jobId⟩) fun _ => .ret auth).run
            { d with billing := { d.billing.debited row auth with lots, allocations } } := by
  intro auth
  simp only [reserveNew, issue_bind, debitAccount, Prog.run_update]
  cases hrow : d.billing.accounts.get? accountId with
  | none => exact Or.inl ⟨_, rfl, orderly_value (by decide)⟩
  | some row =>
    obtain rfl := account_id hrow
    by_cases havailable : row.availableCredits ≥ credits
    swap
    · exact Or.inl ⟨.value "insufficient_credits", by simp [havailable], orderly_value (by decide)⟩
    simp only [havailable, if_true, one_ne_zero, Prog.raiseIf_bind, if_false, insertAuthorization,
      Prog.run_insert]
    split_ifs with hfits hpos hid hjob
    · exact Or.inl ⟨_, rfl, orderly_outOfRange⟩
    iterate 3 exact Or.inl ⟨_, rfl, orderly_integrity (by decide)⟩
    simp only [billing_apply, BillingWrite.authorizations_apply, Option.not_isSome_iff_eq_none] at hid
    have hlive : live auth.id = true := hnew authorizationId hid
    have hb := hd.debit auth hrow (Table.get?_restrict_none live hid)
    rw [← since_debited hlive] at hb
    set d₁ := apply (Write.billing (.authorization auth)) (apply (Write.billing (.account
      { row with availableCredits := row.availableCredits - credits })) d) with hd₁
    have hcover : credits ≤ d₁.billing.lotBalance row.id := by
      have hbalance := hd.balance row (Table.mem_of_get? hrow)
      simp only [ite_self, add_zero] at hbalance
      exact havailable.trans_eq hbalance
    have hnone : ∀ lotId, d₁.billing.allocations.get? (authorizationId, lotId) = none := fun lotId =>
      (Table.get?_eq_none_iff _ _).mpr fun r hr hk =>
        allocation_eq_none hd (Table.get?_restrict_none live hid) r hr (congrArg Prod.fst hk)
    have hfree : ∀ a ∈ d.billing.authorizations.rows, a.jobId ≠ jobId := by
      simpa [authorizationOfJob] using hjob
    have hget : (d₁.billing.since live).authorizations.get? authorizationId = some auth :=
      (Table.get?_restrict d₁.billing.authorizations hlive).trans (Table.get?_put_self _ auth)
    obtain ⟨lots, allocations, hrun, hbal⟩ := PostgresCreditLots.reserve_since (d := d₁) hb hget rfl rfl
      hnone (not_le.mp hpos) hcover
    refine Or.inr ⟨row, lots, allocations, rfl, hid, hfree, hbal, ?_⟩
    rw [Prog.run_bind, hrun]
    rfl

theorem reserveNew_run {d : HostedDb} (hd : d.billing.Books) (authorizationId jobId accountId : String)
    (credits : ℤ) :
    let auth : CreditAuthorization := ⟨authorizationId, jobId, accountId, credits, .reserved⟩
    (∃ e, (reserveNew authorizationId jobId accountId credits).run d = .error e ∧ e ≠ balanceMismatch) ∨
      ∃ row b, Reserving d.billing b row auth ∧
        (reserveNew authorizationId jobId accountId credits).run d =
          (Prog.step (insertLedger ⟨accountId, some authorizationId, .reservation, -credits,
            "reservation:" ++ jobId⟩) fun _ => .ret auth).run { d with billing := b } := by
  intro auth
  have hall : (d.billing.since fun _ => true).Balanced "" "" 0 := by
    rw [since_all]
    exact hd.balanced
  rcases reserveNew_since hall (fun _ _ => rfl) authorizationId jobId accountId credits with
    ⟨e, he, horderly⟩ | ⟨row, lots, allocations, hrow, hid, hfree, hbal, hrun⟩
  · exact Or.inl ⟨e, he, horderly.1⟩
  · rw [since_all] at hbal
    refine Or.inr ⟨row, { d.billing.debited row auth with lots, allocations },
      ⟨hrow, hid, hfree, ?_, rfl, rfl, hbal⟩, hrun⟩
    exact congrArg (fun n => d.billing.accounts.put { row with availableCredits := n }) (sub_eq_add_neg _ _)

theorem Reserving.books {b b' : BillingDb} {row : AccountRow} {auth : CreditAuthorization}
    {reference : String} (h : Reserving b b' row auth) (hb : b.Books) (hstatus : auth.status = .reserved)
    (hentry : b'.ledger.get? reference = none) :
    ((BillingWrite.ledger ⟨auth.accountId, some auth.id, .reservation, -auth.credits, reference⟩).apply
      b').Books := by
  have hid := account_id h.account
  refine h.balanced.books ⟨auth.accountId, some auth.id, .reservation, -auth.credits, reference⟩ hb
    (hid ▸ h.account) h.accounts h.ledger hentry hid.symm ?_
  rw [h.authorizations]
  exact hb.recorded.reserve (h.ledger ▸ hentry) h.fresh h.free hstatus rfl rfl

theorem reserveNew_conserves (authorizationId jobId accountId : String) (credits : ℤ) :
    Conserves (reserveNew authorizationId jobId accountId credits) := by
  intro d hd
  obtain ⟨e, he, hne⟩ | ⟨row, b, hreserving, hrun⟩ :=
    reserveNew_run hd authorizationId jobId accountId credits
  · rw [he]
    exact hne
  · rw [hrun]
    exact insertLedger_ends (fun _ he => he.1) fun hentry _ => hreserving.books hd rfl hentry

theorem authorizationOfJob_get? {b : BillingDb} {jobId : String} {auth : CreditAuthorization}
    (h : authorizationOfJob jobId b = some auth) :
    b.authorizations.get? auth.id = some auth ∧ auth.jobId = jobId :=
  ⟨Table.get?_of_mem (List.mem_of_find?_eq_some h), by simpa using List.find?_some h⟩

theorem finalize_run_none {d : HostedDb} {jobId : String} {status : AuthorizationStatus}
    (hstatus : status ≠ .reserved) (h : authorizationOfJob jobId d.billing = none) :
    (finalize jobId status).run d = .error (.key jobId) := by
  simp [finalize, hstatus, authorizationForJob, selectAuthorizationForJob, h]

/-- A reservation that ended before stays as it is. -/
theorem finalize_run_final {d : HostedDb} {jobId : String} {status : AuthorizationStatus}
    {auth : CreditAuthorization} (hstatus : status ≠ .reserved)
    (h : authorizationOfJob jobId d.billing = some auth) (hfinal : auth.status ≠ .reserved) :
    (finalize jobId status).run d = .ok (auth, d) := by
  simp [finalize, hstatus, authorizationForJob, selectAuthorizationForJob, h, selectAccountForUpdate,
    selectAuthorizationForUpdate, hfinal]

/-- Up to the refund and the ledger entry, ending a live reservation cannot fail. -/
theorem finalize_run_since {live : String → Bool} {d : HostedDb} {jobId : String}
    {status : AuthorizationStatus} {auth : CreditAuthorization}
    (hd : (d.billing.since live).Balanced "" "" 0) (hlive : live auth.id = true)
    (hstatus : status ≠ .reserved) (h : authorizationOfJob jobId d.billing = some auth)
    (hreserved : auth.status = .reserved) :
    ∃ lots : Table CreditLot.id,
      (finalize jobId status).run d =
        (recordFinal auth jobId status >>= fun _ => .ret { auth with status }).run
          (apply (Write.billing (.authorization { auth with status }))
            { d with billing := { d.billing with lots } }) ∧
      lots.rows = d.billing.lots.rows.map (PostgresCreditLots.finalizedLot status
        (d.billing.allocationRows auth.id auth.accountId)) ∧
      ∀ a, { d.billing with lots }.lotBalance a = d.billing.lotBalance a +
        if auth.accountId = a ∧ status ≠ .settled then auth.credits else 0 := by
  obtain ⟨hget, -⟩ := authorizationOfJob_get? h
  obtain ⟨lots, hrun, hlots⟩ := PostgresCreditLots.finalize_since status hd
    ((Table.get?_restrict d.billing.authorizations hlive).trans hget) hreserved
  refine ⟨lots, ?_, hlots⟩
  simp only [finalize, hstatus, if_false, Prog.raiseIf_bind, authorizationForJob,
    selectAuthorizationForJob, issue_bind, Prog.step_bind, Prog.run_select, h, pure_bind,
    selectAccountForUpdate, Prog.run_selectForUpdate, selectAuthorizationForUpdate, Prog.run_mk,
    applyAll_nil, hreserved, ne_eq, not_true_eq_false]
  rw [Prog.run_bind, hrun]
  simp only [finalizeAuthorization, Prog.run_update, hget, hreserved, if_true, requireOne_bind, ne_eq,
    not_true_eq_false, if_false]
  rfl

theorem finalize_run_reserved {d : HostedDb} {jobId : String} {status : AuthorizationStatus}
    {auth : CreditAuthorization} (hd : d.billing.Books) (hstatus : status ≠ .reserved)
    (h : authorizationOfJob jobId d.billing = some auth) (hreserved : auth.status = .reserved) :
    ∃ lots : Table CreditLot.id,
      (finalize jobId status).run d =
        (recordFinal auth jobId status >>= fun _ => .ret { auth with status }).run
          (apply (Write.billing (.authorization { auth with status }))
            { d with billing := { d.billing with lots } }) ∧
      lots.rows = d.billing.lots.rows.map (PostgresCreditLots.finalizedLot status
        (d.billing.allocationRows auth.id auth.accountId)) ∧
      ∀ a, { d.billing with lots }.lotBalance a = d.billing.lotBalance a +
        if auth.accountId = a ∧ status ≠ .settled then auth.credits else 0 := by
  have hall : (d.billing.since fun _ => true).Balanced "" "" 0 := by
    rw [since_all]
    exact hd.balanced
  exact finalize_run_since hall rfl hstatus h hreserved

theorem finalize_conserves (jobId : String) (status : AuthorizationStatus) :
    Conserves (finalize jobId status) := by
  by_cases hstatus : status = .reserved
  · intro d _
    simp [finalize, hstatus, balanceMismatch]
  intro d hd
  cases hauth : authorizationOfJob jobId d.billing with
  | none => simp [finalize_run_none hstatus hauth, balanceMismatch]
  | some auth =>
    by_cases hreserved : auth.status = .reserved
    swap
    · simpa [finalize_run_final hstatus hauth hreserved] using hd
    obtain ⟨hget, -⟩ := authorizationOfJob_get? hauth
    obtain ⟨lots, hrun, hlots, hbalance⟩ := finalize_run_reserved hd hstatus hauth hreserved
    rw [hrun]
    cases status with
    | reserved => exact absurd rfl hstatus
    | settled =>
      simp only [recordFinal, reduceCtorEq, if_false, issue_bind]
      refine insertLedger_ends (fun _ he => he.1) fun hentry haccount => ?_
      obtain ⟨row, hrow⟩ := haccount
      have hid : row.id = auth.accountId := account_id hrow
      have hrow : d.billing.accounts.get? row.id = some row := hid ▸ hrow
      have hb := hd.balanced.finalize 0 hget hreserved hstatus hlots
        (by simpa using hbalance) hrow
      rw [finalized_zero hrow] at hb
      exact hb.books
        { accountId := auth.accountId, authorizationId := some auth.id, kind := .settlement, credits := 0,
          reference := "settlement:" ++ jobId }
        hd hrow (refund_zero hrow).symm rfl hentry hid.symm
        (hd.recorded.finalize hentry hget hreserved hstatus rfl rfl)
    | released =>
      simp only [recordFinal, if_true, issue_bind, Prog.step_bind, creditAccount, Prog.run_mk]
      cases hrow : d.billing.accounts.get? auth.accountId with
      | none =>
        simp only [billing_apply, BillingWrite.accounts_apply, hrow, applyAll_nil]
        refine insertLedger_ends (fun _ he => he.1) fun _ haccount => ?_
        obtain ⟨row, hrow'⟩ := haccount
        exact absurd (hrow.symm.trans hrow') (by simp)
      | some row =>
        simp only [billing_apply, BillingWrite.accounts_apply, hrow]
        split_ifs with hnonneg
        · simp [balanceMismatch]
        refine insertLedger_ends (fun _ he => he.1) fun hentry _ => ?_
        have hid := account_id hrow
        rw [← hid] at hrow
        have hb := hd.balanced.finalize auth.credits hget hreserved hstatus hlots
          (by simpa [hid] using hbalance) hrow
        exact hb.books _ hd hrow rfl rfl hentry hid.symm
          (hd.recorded.finalize hentry hget hreserved hstatus rfl rfl)

end PostgresBillingRepository

theorem integrity_ne (constraint : String) : Error.integrity constraint ≠ balanceMismatch := by
  simp [balanceMismatch]

open PostgresExecution PostgresRepositories PostgresBillingRepository

/-- The billing procedures keep the invariant, and grants do under the references of which `ok` holds. -/
structure Kept (I : BillingDb → Prop) (ok : String → Prop) : Prop where
  openAccount : ∀ {b : BillingDb} {id : String} (identityId : String), I b → b.accounts.get? id = none →
    I ((BillingWrite.account { id, availableCredits := 0, identityId }).apply b)
  recordPayment : ∀ {b : BillingDb} (row : PaymentEventRow), I b → I ((BillingWrite.paymentEvent row).apply b)
  grantLot : ∀ lotId accountId credits reference kind, ok reference →
    Keeping I (grantLot lotId accountId credits reference kind)
  reserveNew : ∀ authorizationId jobId accountId credits,
    Keeping I (reserveNew authorizationId jobId accountId credits)
  finalize : ∀ jobId status, Keeping I (finalize jobId status)

theorem kept_books : Kept BillingDb.Books fun _ => True where
  openAccount _ hb hnew := hb.openAccount hnew
  recordPayment row hb := hb.recordPayment row
  grantLot lotId accountId credits reference kind _ :=
    grantLot_conserves lotId accountId credits reference kind
  reserveNew := reserveNew_conserves
  finalize := finalize_conserves

section
variable {I : BillingDb → Prop} {ok : String → Prop}

theorem appendEvent_keeping (jobId eventType : String) (progress : Progress) :
    Keeping I (appendEvent jobId eventType progress) :=
  keeping_of_emits (appendEvent_emits integrity_ne (fun _ => rfl) (by simp [balanceMismatch]))

theorem requireOne_keeping (rowcount : ℕ) : Keeping I (requireOne rowcount) :=
  keeping_raiseIf (by simp [balanceMismatch])

theorem checkLease_keeping (lease : Option Lease) (now : Time) : Keeping I (checkLease lease now) :=
  keeping_of_emits (checkLease_emits (by simp [balanceMismatch]))

section
variable {billing : BillingHook}
  (hbilling : ∀ finalize, billing = some finalize → ∀ jobId status, Keeping I (finalize jobId status))
include hbilling

theorem finishJob_keeping (job : Job) (at' : Time) : Keeping I (finishJob billing job at') := by
  unfold finishJob
  by_cases hterminal : job.status.isTerminal
  · rw [if_pos hterminal]
    refine keeping_step (setTerminalAt_emits fun _ => rfl) fun _ => ?_
    cases hb : billing with
    | none => exact keeping_ret _
    | some finalize => exact (hbilling finalize hb job.id _).bind fun _ => keeping_ret _
  · rw [if_neg hterminal]
    exact keeping_ret _

theorem updateJobAndAppendEvent_keeping (job : Job) (expectedVersion : ℤ) (eventType : String)
    (artifact : Option Artifact) (lease : Option Lease) (failure : Option (String × String))
    (now at' : Time) :
    Keeping I (updateJobAndAppendEvent billing job expectedVersion eventType artifact lease failure
      now at') := by
  refine (checkLease_keeping lease now).bind fun _ => ?_
  refine keeping_step (updateJob_emits fun _ => rfl) fun rowcount => ?_
  refine (requireOne_keeping rowcount).bind fun _ => ?_
  refine (appendEvent_keeping _ _ _).bind fun event => Keeping.bind ?_ fun _ =>
    Keeping.bind ?_ fun _ => (finishJob_keeping hbilling job at').bind fun _ => keeping_ret event
  · cases artifact with
    | none => exact keeping_ret _
    | some artifact =>
      exact (keeping_raiseIf (by simp [balanceMismatch])).bind fun _ =>
        keeping_step (insertArtifact_emits (fun c _ => integrity_ne c) rfl) keeping_ret
  · rcases failure with _ | ⟨code, message⟩
    · exact keeping_ret _
    · exact keeping_step (insertFailure_emits (fun c _ => integrity_ne c) rfl) keeping_ret

theorem requestCancellation_keeping (jobId : String) (at' : Time) :
    Keeping I (requestCancellation billing jobId at') := by
  simp only [requestCancellation, issue_bind]
  refine keeping_step (Stmt.emits_select _) fun row => ?_
  rcases row with _ | current
  · exact keeping_raise (by simp [balanceMismatch])
  simp only
  split_ifs
  · exact keeping_ret current
  refine keeping_step (Stmt.emits_select _) fun dispatch => ?_
  refine keeping_step (updateJob_emits fun _ => rfl) fun rowcount => ?_
  refine (requireOne_keeping rowcount).bind fun _ => ?_
  refine keeping_step (Stmt.emits_select _) fun sequence => ?_
  refine keeping_step (insertEvent_emits integrity_ne rfl) fun _ => ?_
  exact (finishJob_keeping hbilling _ at').bind fun _ => keeping_ret _

theorem loseWorker_keeping (dispatchId jobId : String) (seen : JobStatus) (at' : Time) :
    Keeping I (loseWorker billing dispatchId jobId seen at') := by
  refine keeping_step (loseJob_emits fun _ => rfl) fun _ => ?_
  refine keeping_step (setDispatchStatus_emits fun _ => rfl) fun _ => ?_
  refine keeping_step (insertFailureOnce_emits rfl) fun _ => ?_
  refine keeping_step (appendJobEvent_emits (fun _ => rfl) integrity_ne) fun _ => ?_
  cases hb : billing with
  | none => exact keeping_raise (by simp [balanceMismatch])
  | some finalize => exact (hbilling finalize hb jobId _).bind fun _ => keeping_ret _

theorem claimExecution_keeping (dispatchId : String) (limit : ℤ) (ttl : Time) (maxAttempts : ℤ)
    (token : String) (now at' : Time) :
    Keeping I (claimExecution billing dispatchId limit ttl maxAttempts token now at') := by
  simp only [claimExecution, issue_bind]
  refine keeping_step (advisoryLock_emits _) fun _ => ?_
  refine keeping_step (Stmt.emits_select _) fun row => ?_
  rcases row with _ | ⟨jobId, status⟩
  · exact keeping_ret _
  simp only
  split_ifs
  · exact keeping_ret _
  refine keeping_step (Stmt.emits_selectForUpdate _ _) fun previous => ?_
  split
  · exact keeping_ret _
  refine keeping_step (Stmt.emits_select _) fun active => ?_
  split_ifs
  · exact keeping_ret _
  · exact (loseWorker_keeping hbilling dispatchId jobId status at').bind fun _ => keeping_ret _
  refine keeping_step (upsertLease_emits fun _ => rfl) fun _ => ?_
  exact keeping_step (setDispatchStatus_emits fun _ => rfl) fun _ => keeping_ret _

end

theorem updateDispatch_keeping (dispatch : Dispatch) (expectedVersion : ℤ) :
    Keeping I (updateDispatch dispatch expectedVersion) := by
  unfold updateDispatch
  refine (keeping_raiseIf (by simp [balanceMismatch])).bind fun _ => ?_
  exact keeping_step (updateDispatchRow_emits fun _ => rfl) fun rowcount => requireOne_keeping rowcount

theorem finishDispatch_keeping (dispatch : Dispatch) (lease : Option Lease) (now : Time) :
    Keeping I (finishDispatchIfNotCancellationRequested dispatch lease now) := by
  simp only [finishDispatchIfNotCancellationRequested, issue_bind]
  refine (checkLease_keeping lease now).bind fun _ => ?_
  refine keeping_step (Stmt.emits_select _) fun status => ?_
  rcases status with _ | status
  · exact keeping_raise (by simp [balanceMismatch])
  simp only
  split_ifs
  · exact keeping_ret _
  refine (keeping_raiseIf (by simp [balanceMismatch])).bind fun _ => ?_
  refine keeping_step (finishDispatch_emits fun _ => rfl) fun rowcount => ?_
  exact (requireOne_keeping rowcount).bind fun _ => keeping_ret _

theorem admitted_keeping (idempotencyKey : Option String) : Keeping I (admitted idempotencyKey) := by
  rcases idempotencyKey with _ | key
  · exact keeping_ret _
  simp only [admitted, issue_bind]
  refine keeping_step (Stmt.emits_select _) fun existing => ?_
  rcases existing with _ | existing
  · exact keeping_ret _
  refine keeping_step (Stmt.emits_select _) fun job => ?_
  rcases job with _ | job
  · exact keeping_raise (by simp [balanceMismatch])
  · exact keeping_ret _

theorem recordKey_keeping (idempotencyKey : Option String) (jobId : String) :
    Keeping I (recordKey idempotencyKey jobId) := by
  rcases idempotencyKey with _ | key
  · exact keeping_ret _
  · exact keeping_step (insertIdempotency_emits (fun c _ => integrity_ne c) rfl) keeping_ret

theorem createJobAndDispatch_keeping (job : Job) (dispatch : Dispatch)
    (idempotencyKey : Option String) :
    Keeping I (createJobAndDispatch job dispatch idempotencyKey) := by
  refine (admitted_keeping idempotencyKey).bind fun existing => ?_
  rcases existing with _ | existing
  · refine keeping_step (insertJob_emits (fun c _ => integrity_ne c) rfl) fun _ => ?_
    refine keeping_step (insertDispatch_emits (fun c _ => integrity_ne c) rfl) fun _ => ?_
    exact (recordKey_keeping idempotencyKey job.id).bind fun _ => keeping_ret _
  · exact keeping_ret _

theorem grant_keeping (hI : Kept I ok) (lotId accountId : String) (credits : ℤ) {reference : String}
    (hok : ok reference) : Keeping I (grant lotId accountId credits reference) :=
  (keeping_raiseIf (by simp [balanceMismatch])).bind fun _ =>
    hI.grantLot lotId accountId credits reference .grant hok

theorem processPaymentEvent_keeping (hI : Kept I ok) (lotId provider providerEventId accountId : String)
    (credits : ℤ) (hok : ok (provider ++ ":" ++ providerEventId)) :
    Keeping I (processPaymentEvent lotId provider providerEventId accountId credits) := by
  refine (keeping_raiseIf (by simp [balanceMismatch])).bind fun _ d hd => ?_
  simp only [issue_bind, insertPaymentEvent, Prog.run_mk]
  split_ifs
  · exact hI.grantLot lotId accountId credits _ .purchase hok d hd
  · exact hI.grantLot lotId accountId credits _ .purchase hok _ (hI.recordPayment _ hd)

theorem checkJobKey_keeping (jobId : String) : Keeping I (checkJobKey jobId).issue := by
  intro d hd
  simp only [run_issue, checkJobKey]
  split_ifs
  · exact hd
  · simp [Except.map, balanceMismatch]

theorem reserve_keeping (hI : Kept I ok) (authorizationId jobId accountId : String) (credits : ℤ) :
    Keeping I (reserve authorizationId jobId accountId credits) := by
  refine (keeping_raiseIf (by simp [balanceMismatch])).bind fun _ d hd => ?_
  simp only [issue_bind, selectAccountForUpdate, Prog.run_selectForUpdate, selectAuthorizationForJob,
    Prog.run_select]
  cases authorizationOfJob jobId d.billing with
  | some authorization =>
    exact (keeping_raiseIf (by simp [balanceMismatch])).bind (fun _ => keeping_ret _) d hd
  | none =>
    exact (hI.reserveNew authorizationId jobId accountId credits).bind
      (fun a => (checkJobKey_keeping jobId).bind fun _ => keeping_ret a) d hd

open PostgresHostedRepository in
theorem admitJob_keeping (hI : Kept I ok) (authorizationId : String) (job : Job) (dispatch : Dispatch)
    (accountId ownerId : String) (credits : ℤ) (idempotencyKey : Option String) :
    Keeping I (admitJob authorizationId job dispatch accountId ownerId credits idempotencyKey) := by
  simp only [admitJob, issue_bind]
  refine (keeping_raiseIf (by simp [balanceMismatch])).bind fun _ => ?_
  refine keeping_step (Stmt.emits_selectForUpdate _ _) fun _ => ?_
  refine Keeping.bind (p := replay job.spec idempotencyKey) ?_ fun existing => ?_
  · refine (admitted_keeping idempotencyKey).bind fun existing => ?_
    rcases existing with _ | existing
    · exact keeping_ret _
    · exact (keeping_raiseIf (by simp [balanceMismatch])).bind fun _ => keeping_ret _
  rcases existing with _ | existing
  swap
  · exact keeping_ret _
  refine keeping_step (Stmt.emits_select _) fun active => ?_
  refine (keeping_raiseIf (by simp [balanceMismatch])).bind fun _ => ?_
  refine keeping_step (Stmt.emits_selectForUpdate _ _) fun source => ?_
  refine (keeping_raiseIf (by simp [balanceMismatch])).bind fun _ => ?_
  refine (hI.reserveNew authorizationId job.id accountId credits).bind fun _ => ?_
  refine keeping_step (insertJob_emits (fun c _ => integrity_ne c) rfl) fun _ => ?_
  refine keeping_step (insertDispatch_emits (fun c _ => integrity_ne c) rfl) fun _ => ?_
  exact (recordKey_keeping idempotencyKey job.id).bind fun _ => keeping_ret _

end

end KenkuiServer.Storage

namespace KenkuiServer.Hosted
open Txn Jobs Billing Storage BillingDb PostgresExecution PostgresRepositories

/-- The reference under which a call grants credits. -/
def Call.reference : Call → Option String
  | .accountForIdentity _ _ identityId _ => some ("beta-allowance:" ++ identityId)
  | .grant _ _ _ reference => some reference
  | .processPaymentEvent _ provider providerEventId _ _ => some (provider ++ ":" ++ providerEventId)
  | _ => none

section
variable {I : BillingDb → Prop} {ok : String → Prop}

theorem accountForIdentity_keeping (hI : Kept I ok) (id lotId identityId : String) (allowance : ℤ)
    (hok : ok ("beta-allowance:" ++ identityId)) :
    Keeping I (accountForIdentity id lotId identityId allowance) := by
  intro d hd
  have hgrant : ∀ accountId, Keeping I (do
      let _ ← PostgresBillingRepository.grant lotId accountId allowance ("beta-allowance:" ++ identityId)
      return accountId) := fun accountId =>
    (grant_keeping hI lotId accountId allowance hok).bind fun _ => keeping_ret _
  simp only [accountForIdentity, upsertAccount, issue_bind, Prog.run_mk]
  cases hknown : d.billing.accounts.rows.find? (·.identityId = identityId) with
  | some row =>
    have hrow : d.billing.accounts.get? row.id = some row :=
      Table.get?_of_mem (List.mem_of_find?_eq_some hknown)
    refine hgrant row.id _ ?_
    simpa [putAccount_self hrow] using hd
  | none =>
    simp only
    split_ifs with hid
    · simp [balanceMismatch]
    · exact hgrant id _ (hI.openAccount identityId hd (Option.not_isSome_iff_eq_none.mp hid))

theorem billing_keeping (hI : Kept I ok)
    {finalize : String → AuthorizationStatus → Procedure CreditAuthorization}
    (h : PostgresHostedRepository.billing = some finalize) (jobId : String)
    (status : AuthorizationStatus) : Keeping I (finalize jobId status) := by
  cases h
  exact hI.finalize jobId status

theorem transition_error_ne {job : Job} {event : JobTransitionEvent} {e : Error}
    (h : transition job event = .error e) : e ≠ balanceMismatch := by
  rcases transition_error h with rfl | he
  · intro he
    simp only [invalidTransition, balanceMismatch, Error.value.injEq] at he
    have hhead := congrArg (fun code => code.toList.head?) he
    have hi : "invalid_transition.".toList.head? = some 'i' := by decide
    simp only [String.toList_append, List.append_assoc, List.head?_append, hi, Option.some_or] at hhead
    exact absurd hhead (by decide)
  · simp only [List.mem_cons, List.not_mem_nil, or_false] at he
    rcases he with rfl | rfl <;> decide

theorem Call.keeping (hI : Kept I ok) (call : Call)
    (hok : ∀ reference, call.reference = some reference → ok reference) : Keeping I call.prog := by
  have hbilling : ∀ finalize, PostgresHostedRepository.billing = some finalize →
      ∀ jobId status, Keeping I (finalize jobId status) := fun _ => billing_keeping hI
  have hret : ∀ {α : Type} (reply : α → Reply) (a : α), Keeping I (.ret (reply a)) :=
    fun reply a => keeping_ret (reply a)
  cases call with
  | accountForIdentity id lotId identityId allowance =>
    exact (accountForIdentity_keeping hI id lotId identityId allowance (hok _ rfl)).bind (hret _)
  | grant lotId accountId credits reference =>
    exact (grant_keeping hI lotId accountId credits (hok _ rfl)).bind (hret _)
  | processPaymentEvent lotId provider providerEventId accountId credits =>
    exact (processPaymentEvent_keeping hI lotId provider _ accountId credits (hok _ rfl)).bind (hret _)
  | reserve authorizationId jobId accountId credits =>
    exact (reserve_keeping hI authorizationId jobId accountId credits).bind (hret _)
  | finalize jobId status =>
    exact (hI.finalize jobId status).bind (hret _)
  | createJobAndDispatch job dispatch idempotencyKey =>
    exact (createJobAndDispatch_keeping _ _ _).bind (hret _)
  | admitJob authorizationId job dispatch accountId ownerId credits idempotencyKey =>
    exact (admitJob_keeping hI _ _ _ _ _ _ _).bind (hret _)
  | claimExecution dispatchId limit ttl maxAttempts token now at' =>
    exact (claimExecution_keeping hbilling _ _ _ _ _ _ _).bind (hret _)
  | update snapshot event eventType artifact lease failure now at' =>
    simp only [Call.prog]
    cases ht : transition snapshot event with
    | error e => exact keeping_raise (transition_error_ne ht)
    | ok job => exact (updateJobAndAppendEvent_keeping hbilling _ _ _ _ _ _ _ _).bind (hret _)
  | requestCancellation jobId at' =>
    exact (requestCancellation_keeping hbilling _ _).bind (hret _)
  | finishDispatch dispatch lease now =>
    exact (finishDispatch_keeping _ _ _).bind (hret _)
  | updateDispatch dispatch status =>
    exact Keeping.bind (updateDispatch_keeping _ _) fun _ => keeping_ret _
  | renewExecution dispatchId token ttl now now' =>
    exact Keeping.bind (keeping_step (renewLease_emits fun _ => rfl) fun _ => keeping_ret _) (hret _)
  | releaseExecution dispatchId token =>
    exact Keeping.bind (keeping_step (expireLease_emits fun _ => rfl) fun _ => keeping_ret _)
      fun _ => keeping_ret _
  | retainSources now skipped deletions =>
    exact (keeping_of_emits (PostgresRetention.runSources_emits (fun _ => rfl) (fun _ => rfl)
      (by simp [balanceMismatch]) now skipped deletions)).bind (hret _)

end

theorem Call.conserves (call : Call) : Conserves call.prog := Call.keeping kept_books call fun _ _ => trivial

theorem Call.runAll_books {d : HostedDb} (h : d.billing.Books) (calls : List Call) :
    (Call.runAll calls d).billing.Books := by
  refine Call.runAll_keeps (I := fun d => d.billing.Books) (fun call _ d hd => ?_) h
  have hkept := Call.conserves call d hd
  unfold Prog.transaction
  cases hr : call.prog.run d with
  | error e => exact hd
  | ok r =>
    rw [hr] at hkept
    exact hkept

theorem Call.transaction_ne_mismatch {d : HostedDb} (h : d.billing.Books) (call : Call) :
    (call.prog.transaction d).1 ≠ .error balanceMismatch := by
  have hkept := Call.conserves call d h
  unfold Prog.transaction
  cases hr : call.prog.run d with
  | error e => simpa [hr] using hkept
  | ok r => simp

/-- Accounts without credits, and nothing else in the credit store. -/
structure Opening (b : BillingDb) : Prop where
  accounts : ∀ row ∈ b.accounts.rows, row.availableCredits = 0
  lots : b.lots = ∅
  allocations : b.allocations = ∅
  authorizations : b.authorizations = ∅
  ledger : b.ledger = ∅

theorem Opening.books {b : BillingDb} (h : Opening b) : b.Books := by
  obtain ⟨ha, hl, hal, hau, hle⟩ := h
  refine ⟨⟨fun row hrow => ?_, ?_, ?_, ?_, ?_, ?_, ?_⟩, fun row hrow => ?_, ?_, ⟨?_, ?_, ?_⟩⟩
  · simp [lotBalance, hl, ha row hrow]
  iterate 4 simp [hl]
  · simp [hau]
  · simp [hal]
  · simp [ledgerBalance, hle, ha row hrow]
  · simp [hle]
  · simp [hau]
  · simp [hle]
  · simp [hau]

/-- What the books say about each account, lot and authorization. -/
structure Conserved (b : BillingDb) : Prop where
  lots : ∀ row ∈ b.accounts.rows, row.availableCredits = b.lots.sumWhere (·.accountId = row.id)
    fun lot => lot.credited - lot.reserved - lot.consumed
  ledger : ∀ row ∈ b.accounts.rows,
    row.availableCredits = b.ledger.sumWhere (·.accountId = row.id) LedgerEntry.credits
  bounds : ∀ lot ∈ b.lots.rows,
    0 ≤ lot.reserved ∧ 0 ≤ lot.consumed ∧ lot.reserved + lot.consumed ≤ lot.credited
  reserved : ∀ lot ∈ b.lots.rows, lot.reserved = b.allocations.sumWhere
    (fun r => r.lotId = lot.id ∧ b.hasStatus r.authorizationId .reserved) CreditAllocation.credits
  consumed : ∀ lot ∈ b.lots.rows, lot.consumed = b.allocations.sumWhere
    (fun r => r.lotId = lot.id ∧ b.hasStatus r.authorizationId .settled) CreditAllocation.credits
  ownLots : ∀ a ∈ b.authorizations.rows, ∀ r ∈ b.allocations.rows, r.authorizationId = a.id →
    ∃ lot ∈ b.lots.rows, lot.id = r.lotId ∧ lot.accountId = a.accountId
  allocated : ∀ a ∈ b.authorizations.rows,
    b.allocations.sumWhere (·.authorizationId = a.id) CreditAllocation.credits = a.credits

theorem conserved_of_books {b : BillingDb} (h : b.Books) : Conserved b := by
  have hb := h.balanced.balance
  have ha := h.balanced.allocated
  simp only [ite_self, add_zero] at hb ha
  refine ⟨hb, h.ledger, fun lot hlot => ?_, h.balanced.reserved, h.balanced.consumed,
    fun a hmem r hr hid => ?_, ha⟩
  · exact ((lotChecks_iff lot).mp (h.balanced.lotBounds lot hlot)).2
  · obtain ⟨-, ⟨a', ha', hacc⟩, lot, hlot, hlacc⟩ := h.balanced.owned r hr
    rw [hid, Table.get?_of_mem hmem] at ha'
    cases ha'
    exact ⟨lot, Table.mem_of_get? hlot, Table.key_of_get? hlot, hlacc.trans hacc.symm⟩

/-- Credits are conserved by every run of calls, and no call ever finds a balance its lots do not
cover. -/
theorem credits_conserved {d : HostedDb} (h : Opening d.billing) (calls : List Call) (call : Call) :
    Conserved (Call.runAll calls d).billing ∧
      (call.prog.transaction (Call.runAll calls d)).1 ≠ .error balanceMismatch := by
  have hbooks := Call.runAll_books h.books calls
  exact ⟨conserved_of_books hbooks, Call.transaction_ne_mismatch hbooks call⟩

/-- One account of five credits; a job reserves three of them, which are then settled. -/
theorem credits_conserved_settled :
    let d : HostedDb := { billing := { accounts := (∅ : Table _).put ⟨⟨"account", 0⟩, "identity"⟩ } }
    let calls : List Call :=
      [.grant "lot" "account" 5 "welcome",
        .admitJob "authorization" sampleJob ⟨"dispatch", "job", "pending", 0⟩ "account" "identity" 3 none]
    Conserved (Call.runAll calls d).billing ∧
      ((Call.finalize "job" .settled).prog.transaction (Call.runAll calls d)).1 ≠
        .error balanceMismatch :=
  credits_conserved ⟨by decide, rfl, rfl, rfl, rfl⟩ _ _

end KenkuiServer.Hosted
