import KenkuiServer.Credits.Settlement
import KenkuiServer.Txn.Serial

/-! The allowance of an identity. The first call for it opens the account and grants the allowance; a
later call finds both, as long as it asks for the same amount. -/
namespace KenkuiServer.Storage
open Txn Jobs Billing

namespace BillingDb

/-- The account of an identity. -/
def accountOf (b : BillingDb) (identityId : String) : Option String :=
  (b.accounts.rows.find? (·.identityId = identityId)).map fun row => row.id

/-- To whom, how and for how much the lots of a reference were granted. -/
def grantsUnder (b : BillingDb) (reference : String) : List (String × LotKind × ℤ) :=
  (b.lots.rows.filter (·.reference = reference)).map fun lot => (lot.accountId, lot.kind, lot.credited)

/-- What the store has under a reference, and for an identity where that is known. -/
structure Noted (b : BillingDb) (identityId reference : String) (entry : Option LedgerEntry)
    (grants : List (String × LotKind × ℤ)) (accountId : Option String) : Prop where
  entry : b.ledger.get? reference = entry
  grants : b.grantsUnder reference = grants
  account : ∀ id, accountId = some id → b.accountOf identityId = some id

variable {b : BillingDb} {identityId reference : String} {entry : Option LedgerEntry}
  {grants : List (String × LotKind × ℤ)} {accountId : Option String}

/-- The account of an identity is found by the identities of the rows. -/
theorem accountOf_congr {b' : BillingDb}
    (h : b'.accounts.rows.map (fun row => (row.id, row.identityId)) =
      b.accounts.rows.map fun row => (row.id, row.identityId)) (identityId : String) :
    b'.accountOf identityId = b.accountOf identityId := by
  have hpairs : ∀ c : BillingDb, c.accountOf identityId =
      ((c.accounts.rows.map fun row => (row.id, row.identityId)).find? (·.2 = identityId)).map (·.1) := by
    intro c
    simp only [accountOf, List.find?_map, Option.map_map, Function.comp_def]
  rw [hpairs b', hpairs b, h]

theorem grantsUnder_congr {b' : BillingDb}
    (h : b'.lots.rows.map (fun lot => (lot.reference, lot.accountId, lot.kind, lot.credited)) =
      b.lots.rows.map fun lot => (lot.reference, lot.accountId, lot.kind, lot.credited))
        (reference : String) :
    b'.grantsUnder reference = b.grantsUnder reference := by
  have hpairs : ∀ c : BillingDb, c.grantsUnder reference =
      ((c.lots.rows.map fun lot => (lot.reference, lot.accountId, lot.kind, lot.credited)).filter
        (·.1 = reference)).map (·.2) := by
    intro c
    simp only [grantsUnder, List.filter_map, List.map_map, Function.comp_def]
  rw [hpairs b', hpairs b, h]

theorem Noted.putAccount (h : Noted b identityId reference entry grants accountId) {row old : AccountRow}
    (hget : b.accounts.get? row.id = some old) (hsame : row.identityId = old.identityId) :
    Noted ((BillingWrite.account row).apply b) identityId reference entry grants accountId := by
  refine ⟨h.entry, h.grants, fun id hid => ?_⟩
  have hkey : old.id = row.id := account_id hget
  have hrows := Table.map_put_of_some (fun r : AccountRow => (r.id, r.identityId))
    hget (by simp only [hsame, hkey])
  have hfound : ((BillingWrite.account row).apply b).accountOf identityId = b.accountOf identityId :=
    accountOf_congr hrows identityId
  exact hfound.trans (h.account id hid)

theorem Noted.openAccount (h : Noted b identityId reference entry grants accountId) {row : AccountRow}
    (hnew : b.accounts.get? row.id = none) :
    Noted ((BillingWrite.account row).apply b) identityId reference entry grants accountId := by
  refine ⟨h.entry, h.grants, fun id hid => ?_⟩
  have hold := h.account id hid
  have hrows : ((BillingWrite.account row).apply b).accounts.rows = b.accounts.rows ++ [row] :=
    Table.rows_put_of_none hnew
  unfold accountOf at hold ⊢
  rw [hrows, List.find?_append]
  cases hfound : b.accounts.rows.find? (·.identityId = identityId) with
  | none =>
    rw [hfound] at hold
    cases hold
  | some row' =>
    rw [hfound] at hold
    exact hold

theorem Noted.putLot (h : Noted b identityId reference entry grants accountId) {lot old : CreditLot}
    (hget : b.lots.get? lot.id = some old)
    (hsame : (lot.reference, lot.accountId, lot.kind, lot.credited) =
      (old.reference, old.accountId, old.kind, old.credited)) :
    Noted ((BillingWrite.lot lot).apply b) identityId reference entry grants accountId := by
  have hrows := Table.map_put_of_some
    (fun l : CreditLot => (l.reference, l.accountId, l.kind, l.credited)) hget hsame
  have hfound : ((BillingWrite.lot lot).apply b).grantsUnder reference = b.grantsUnder reference :=
    grantsUnder_congr hrows reference
  exact ⟨h.entry, hfound.trans h.grants, h.account⟩

theorem grantsUnder_putNew {lot : CreditLot} (hnew : b.lots.get? lot.id = none) :
    ((BillingWrite.lot lot).apply b).grantsUnder reference = b.grantsUnder reference ++
      if lot.reference = reference then [(lot.accountId, lot.kind, lot.credited)] else [] := by
  have hrows : ((BillingWrite.lot lot).apply b).lots.rows = b.lots.rows ++ [lot] :=
    Table.rows_put_of_none hnew
  unfold grantsUnder
  rw [hrows, List.filter_append, List.map_append]
  by_cases href : lot.reference = reference <;> simp [href]

theorem Noted.putNewLot (h : Noted b identityId reference entry grants accountId) {lot : CreditLot}
    (hnew : b.lots.get? lot.id = none) (hother : lot.reference ≠ reference) :
    Noted ((BillingWrite.lot lot).apply b) identityId reference entry grants accountId := by
  refine ⟨h.entry, ?_, h.account⟩
  rw [grantsUnder_putNew hnew, if_neg hother, List.append_nil, h.grants]

theorem Noted.putEntry (h : Noted b identityId reference entry grants accountId) {e : LedgerEntry}
    (hother : e.reference ≠ reference) :
    Noted ((BillingWrite.ledger e).apply b) identityId reference entry grants accountId :=
  ⟨(Table.get?_put_of_ne b.ledger hother).trans h.entry, h.grants, h.account⟩

end BillingDb

section
open BillingDb
variable {α β : Type} {identityId reference : String} {entry : Option LedgerEntry}
  {grants : List (String × LotKind × ℤ)} {accountId : Option String}

/-- Keeps what is noted under a reference and for an identity. -/
abbrev Quiet (identityId reference : String) (entry : Option LedgerEntry)
    (grants : List (String × LotKind × ℤ)) (accountId : Option String) (p : Procedure α) : Prop :=
  p.Keeps (fun d => d.billing.Noted identityId reference entry grants accountId) fun _ => True

/-- A write of no account, lot or ledger entry. -/
def isUnnoted : Write → Bool
  | .billing (.account _) => false
  | .billing (.lot _) => false
  | .billing (.ledger _) => false
  | _ => true

theorem quiet_of_emits {p : Procedure α} (h : p.Emits (fun w => isUnnoted w = true) fun _ => True) :
    Quiet identityId reference entry grants accountId p := by
  refine h.keeps fun w hw d hd => ?_
  cases w with
  | billing w =>
    cases w with
    | account r => cases hw
    | lot r => cases hw
    | ledger r => cases hw
    | _ => exact ⟨hd.entry, hd.grants, hd.account⟩
  | _ => exact hd

theorem quiet_select (f : HostedDb → β) :
    Quiet identityId reference entry grants accountId (Stmt.select f : Statement β).issue :=
  quiet_of_emits (emits_issue (Stmt.emits_select f))

theorem quiet_selectForUpdate (k : Key) (f : HostedDb → Option β) :
    Quiet identityId reference entry grants accountId
      (Stmt.selectForUpdate k f : Statement (Option β)).issue :=
  quiet_of_emits (emits_issue (Stmt.emits_selectForUpdate k f))

namespace PostgresCreditLots

theorem reserveLot_quiet (lotId : String) (amount : ℤ) :
    Quiet identityId reference entry grants accountId (reserveLot lotId amount).issue := by
  intro d hd
  simp only [run_issue, reserveLot, Stmt.update]
  cases hlot : d.billing.lots.get? lotId with
  | none => exact hd
  | some lot =>
    have hget : d.billing.lots.get? lot.id = some lot := by rw [Table.key_of_get? hlot, hlot]
    simp only
    split_ifs
    · exact Noted.putLot hd hget rfl
    · trivial

theorem finalizeLot_quiet (lotId account : String) (amount consumed : ℤ) :
    Quiet identityId reference entry grants accountId (finalizeLot lotId account amount consumed).issue := by
  intro d hd
  simp only [run_issue, finalizeLot, Stmt.update]
  cases hlot : d.billing.lots.get? lotId with
  | none => exact hd
  | some lot =>
    have hget : d.billing.lots.get? lot.id = some lot := by rw [Table.key_of_get? hlot, hlot]
    by_cases hmet : lot.accountId = account ∧ lot.reserved ≥ amount
    swap
    · simp only [hmet, if_false]
      exact hd
    simp only [hmet, and_self, if_true]
    split_ifs
    · exact Noted.putLot hd hget (by rw [hmet.1])
    · trivial

theorem insertAllocation_quiet (row : CreditAllocation) :
    Quiet identityId reference entry grants accountId (insertAllocation row).issue :=
  quiet_of_emits (emits_issue (Stmt.emits_insert rfl fun _ _ _ => trivial))

theorem reserveRows_quiet (authorizationId account : String) (rows : List (String × ℤ)) (remaining : ℤ) :
    Quiet identityId reference entry grants accountId
      (reserveRows authorizationId account rows remaining) := by
  induction rows generalizing remaining with
  | nil => exact fun _ _ => trivial
  | cons row rows ih =>
    obtain ⟨lotId, available⟩ := row
    refine (reserveLot_quiet lotId (min remaining available)).bind fun _ => ?_
    refine (insertAllocation_quiet _).bind fun _ => ?_
    split_ifs
    · exact Prog.keeps_ret _
    · exact ih _

theorem reserve_quiet (authorizationId account : String) (credits : ℤ) :
    Quiet identityId reference entry grants accountId (reserve authorizationId account credits) := by
  have hselect : Quiet identityId reference entry grants accountId (selectSpendable account).issue :=
    fun d hd => hd
  exact hselect.bind fun rows => reserveRows_quiet authorizationId account rows credits

theorem finalizeRows_quiet (account : String) (status : AuthorizationStatus) (rows : List (String × ℤ)) :
    Quiet identityId reference entry grants accountId (finalizeRows account status rows) := by
  induction rows with
  | nil => exact Prog.keeps_ret _
  | cons row rows ih =>
    obtain ⟨lotId, amount⟩ := row
    refine (finalizeLot_quiet lotId account amount _).bind fun rowcount => ?_
    exact (Prog.keeps_raiseIf trivial).bind fun _ => ih

theorem finalize_quiet (authorizationId account : String) (credits : ℤ) (status : AuthorizationStatus) :
    Quiet identityId reference entry grants accountId (finalize authorizationId account credits status) :=
  (quiet_select _).bind fun rows => (Prog.keeps_raiseIf trivial).bind fun _ =>
    finalizeRows_quiet account status rows

end PostgresCreditLots

namespace PostgresBillingRepository

theorem debitAccount_quiet (account : String) (credits : ℤ) :
    Quiet identityId reference entry grants accountId (debitAccount account credits).issue := by
  intro d hd
  simp only [run_issue, debitAccount, Stmt.update]
  cases hrow : d.billing.accounts.get? account with
  | none => exact hd
  | some row =>
    have hget : d.billing.accounts.get? row.id = some row := by rw [account_id hrow, hrow]
    simp only
    split_ifs
    · exact Noted.putAccount hd hget rfl
    · exact hd

theorem creditAccount_quiet (account : String) (credits : ℤ) :
    Quiet identityId reference entry grants accountId (creditAccount account credits).issue := by
  intro d hd
  simp only [run_issue, creditAccount]
  cases hrow : d.billing.accounts.get? account with
  | none => exact hd
  | some row =>
    have hget : d.billing.accounts.get? row.id = some row := by rw [account_id hrow, hrow]
    simp only
    split_ifs
    · trivial
    · exact Noted.putAccount hd hget rfl

theorem insertLedger_quiet {e : LedgerEntry} (hother : e.reference ≠ reference) :
    Quiet identityId reference entry grants accountId (insertLedger e).issue := by
  intro d hd
  simp only [run_issue, insertLedger, Stmt.insert]
  split_ifs
  · trivial
  · cases ledgerChecks e d.billing with
    | error _ => trivial
    | ok u => exact hd.putEntry hother

theorem insertLedgerOnce_quiet {e : LedgerEntry} (hother : e.reference ≠ reference) :
    Quiet identityId reference entry grants accountId (insertLedgerOnce e).issue := by
  intro d hd
  simp only [run_issue, insertLedgerOnce]
  split_ifs
  · exact hd
  · cases ledgerChecks e d.billing with
    | error _ => trivial
    | ok u => exact hd.putEntry hother

theorem insertLot_quiet {lot : CreditLot} (hother : lot.reference ≠ reference) :
    Quiet identityId reference entry grants accountId (PostgresCreditLots.insertLot lot).issue := by
  intro d hd
  simp only [run_issue, PostgresCreditLots.insertLot, Stmt.insert]
  split_ifs with hchecks hid href
  · trivial
  · trivial
  · trivial
  · exact hd.putNewLot (Option.not_isSome_iff_eq_none.mp hid) hother

theorem account_quiet (account : String) :
    Quiet identityId reference entry grants accountId (PostgresBillingRepository.account account) :=
  account_keeps account trivial

/-- A grant under another reference. -/
theorem grantLot_quiet (lotId account : String) (credits : ℤ) {other : String} (kind : LotKind)
    (hother : other ≠ reference) :
    Quiet identityId reference entry grants accountId (grantLot lotId account credits other kind) := by
  refine (quiet_selectForUpdate _ _).bind fun _ => ?_
  refine (insertLedgerOnce_quiet hother).bind fun inserted => ?_
  cases inserted with
  | true =>
    refine (insertLot_quiet hother).bind fun _ => ?_
    refine (creditAccount_quiet account credits).bind fun row => ?_
    cases row with
    | none => exact fun _ _ => trivial
    | some row => exact Prog.keeps_ret _
  | false =>
    refine (quiet_select _).bind fun existing => ?_
    cases existing with
    | none => exact fun _ _ => trivial
    | some existing => exact (Prog.keeps_raiseIf trivial).bind fun _ => account_quiet account

theorem reserveNew_quiet (authorizationId jobId account : String) (credits : ℤ)
    (hother : "reservation:" ++ jobId ≠ reference) :
    Quiet identityId reference entry grants accountId (reserveNew authorizationId jobId account credits) := by
  refine (debitAccount_quiet account credits).bind fun debited => ?_
  refine (Prog.keeps_raiseIf trivial).bind fun _ => ?_
  refine (quiet_of_emits (emits_issue (Stmt.emits_insert rfl fun _ _ _ => trivial))).bind fun _ => ?_
  refine (PostgresCreditLots.reserve_quiet authorizationId account credits).bind fun _ => ?_
  exact (insertLedger_quiet hother).bind fun _ => Prog.keeps_ret _

theorem finalize_quiet (jobId : String) (status : AuthorizationStatus)
    (hrelease : "release:" ++ jobId ≠ reference) (hsettlement : "settlement:" ++ jobId ≠ reference) :
    Quiet identityId reference entry grants accountId (finalize jobId status) := by
  have hupdate : ∀ id, Quiet identityId reference entry grants accountId
      (finalizeAuthorization id status).issue := by
    intro id
    refine quiet_of_emits (emits_issue (Stmt.emits_update fun d => ?_))
    cases d.billing.authorizations.get? id with
    | none => trivial
    | some row =>
      simp only
      split_ifs <;> trivial
  have hrecord : ∀ auth, Quiet identityId reference entry grants accountId
      (recordFinal auth jobId status) := by
    intro auth
    unfold recordFinal
    split_ifs
    · exact (creditAccount_quiet _ _).bind fun _ => insertLedger_quiet hrelease
    · exact insertLedger_quiet hsettlement
  have hselect : Quiet identityId reference entry grants accountId
      (selectAuthorizationForUpdate jobId).issue :=
    fun d hd => hd
  have hjob : Quiet identityId reference entry grants accountId (authorizationForJob jobId) := by
    refine (quiet_select _).bind fun row => ?_
    cases row with
    | none => exact fun _ _ => trivial
    | some row => exact Prog.keeps_ret _
  refine (Prog.keeps_raiseIf trivial).bind fun _ => hjob.bind fun auth => ?_
  refine (quiet_selectForUpdate _ _).bind fun _ => hselect.bind fun row => ?_
  cases row with
  | none => exact fun _ _ => trivial
  | some authorization =>
    simp only
    split_ifs
    · exact Prog.keeps_ret _
    refine (PostgresCreditLots.finalize_quiet _ _ _ status).bind fun _ => ?_
    refine (hupdate authorization.id).bind fun rowcount => ?_
    exact (Prog.keeps_raiseIf trivial).bind fun _ => (hrecord authorization).bind fun _ => Prog.keeps_ret _

end PostgresBillingRepository

end

namespace PostgresBillingRepository

/-- What is noted of an allowance is kept by every procedure but the grant of the allowance itself. -/
theorem kept_noted (identityId : String) (entry : Option LedgerEntry) (grants : List (String × LotKind × ℤ))
    (accountId : Option String) :
    Kept (fun b => b.Books ∧ b.Noted identityId ("beta-allowance:" ++ identityId) entry grants accountId)
      (· ≠ "beta-allowance:" ++ identityId) := by
  have hquiet : ∀ {α : Type} {p : Procedure α},
      Quiet identityId ("beta-allowance:" ++ identityId) entry grants accountId p → Conserves p →
      Keeping (fun b => b.Books ∧
        b.Noted identityId ("beta-allowance:" ++ identityId) entry grants accountId) p := by
    intro α p hp hconserves
    refine Keeping.and hconserves fun d a d' _ hd hrun => ?_
    have hends := hp d hd
    rw [hrun] at hends
    exact hends
  constructor
  case openAccount => exact fun _ hb hnew => ⟨hb.1.openAccount hnew, hb.2.openAccount hnew⟩
  case recordPayment =>
    exact fun row hb => ⟨hb.1.recordPayment row, hb.2.entry, hb.2.grants, hb.2.account⟩
  case grantLot =>
    intro lotId account credits reference kind hother
    exact hquiet (grantLot_quiet lotId account credits kind hother) (grantLot_conserves _ _ _ _ _)
  case reserveNew =>
    intro authorizationId jobId account credits
    have hother := prefix_ne 1 (p := "reservation:") (q := "beta-allowance:") (by decide) (by decide)
      (by decide) jobId identityId
    exact hquiet (reserveNew_quiet authorizationId jobId account credits hother)
      (reserveNew_conserves _ _ _ _)
  case finalize =>
    intro jobId status
    have hrelease := prefix_ne 1 (p := "release:") (q := "beta-allowance:") (by decide) (by decide)
      (by decide) jobId identityId
    have hsettlement := prefix_ne 1 (p := "settlement:") (q := "beta-allowance:") (by decide) (by decide)
      (by decide) jobId identityId
    exact hquiet (finalize_quiet jobId status hrelease hsettlement) (finalize_conserves jobId status)

end PostgresBillingRepository

end KenkuiServer.Storage

namespace KenkuiServer.Hosted
open Txn Jobs Billing Storage BillingDb PostgresBillingRepository

/-- The allowance of an identity stands: its account has one entry and one lot for it. -/
structure Allowed (b : BillingDb) (identityId accountId : String) (allowance : ℤ) : Prop where
  account : b.accountOf identityId = some accountId
  entry : b.ledger.get? ("beta-allowance:" ++ identityId) =
    some ⟨accountId, none, .purchase, allowance, "beta-allowance:" ++ identityId⟩
  lot : b.grantsUnder ("beta-allowance:" ++ identityId) = [(accountId, .grant, allowance)]

section
variable {identityId accountId : String} {allowance : ℤ} {d : HostedDb}

theorem Allowed.noted {b : BillingDb} (h : Allowed b identityId accountId allowance) :
    b.Noted identityId ("beta-allowance:" ++ identityId)
      (some ⟨accountId, none, .purchase, allowance, "beta-allowance:" ++ identityId⟩)
      [(accountId, .grant, allowance)] (some accountId) :=
  ⟨h.entry, h.lot, fun _ hid => hid ▸ h.account⟩

theorem allowed_of_noted {b : BillingDb}
    (h : b.Noted identityId ("beta-allowance:" ++ identityId)
      (some ⟨accountId, none, .purchase, allowance, "beta-allowance:" ++ identityId⟩)
      [(accountId, .grant, allowance)] (some accountId)) : Allowed b identityId accountId allowance :=
  ⟨h.account accountId rfl, h.entry, h.grants⟩

/-- A call for an allowance that stands changes nothing. -/
theorem accountForIdentity_again (h : Allowed d.billing identityId accountId allowance) (hpos : 1 ≤ allowance)
    (id lotId : String) : (accountForIdentity id lotId identityId allowance).run d = .ok (accountId, d) := by
  obtain ⟨row, hrow, rfl⟩ := Option.map_eq_some_iff.mp h.account
  have hget : d.billing.accounts.get? row.id = some row := Table.get?_of_mem (List.mem_of_find?_eq_some hrow)
  have hself : apply (Write.billing (.account row)) d = d := by
    have hbilling := putAccount_self hget
    exact congrArg (fun billing => { d with billing }) hbilling
  have hcredits : ¬ allowance < 1 := by omega
  simp only [accountForIdentity, upsertAccount, issue_bind, Prog.run_mk, hrow, applyAll_cons, applyAll_nil,
    hself, PostgresBillingRepository.grant, Prog.raiseIf_bind, hcredits, if_false, grantLot,
    selectAccountForUpdate, Prog.step_bind, Prog.run_selectForUpdate, insertLedgerOnce, h.entry,
    Option.isSome_some, if_true, Bool.false_eq_true, selectLedger, Prog.run_select, ne_eq, not_true_eq_false,
    account, selectAccount, hget]
  rfl

/-- The first call for an identity grants its allowance, whether or not it has an account. -/
theorem accountForIdentity_first (hbooks : d.billing.Books)
    (h : d.billing.Noted identityId ("beta-allowance:" ++ identityId) none [] none) (hpos : 1 ≤ allowance)
    (hfits : fitsInteger allowance = true) {id lotId : String} (hid : d.billing.accounts.get? id = none)
    (hlot : d.billing.lots.get? lotId = none) :
    ∃ accountId d', (accountForIdentity id lotId identityId allowance).run d = .ok (accountId, d') ∧
      Allowed d'.billing identityId accountId allowance := by
  -- The upsert finds the account or opens it; the grant runs on what it leaves.
  have hgrant : ∀ (d₁ : HostedDb) (row : AccountRow), d₁.billing.Books →
      d₁.billing.Noted identityId ("beta-allowance:" ++ identityId) none [] (some row.id) →
      d₁.billing.accounts.get? row.id = some row → d₁.billing.lots.get? lotId = none →
      ∃ d', (do
        let _ ← PostgresBillingRepository.grant lotId row.id allowance ("beta-allowance:" ++ identityId)
        return row.id : Procedure String).run d₁ = .ok (row.id, d') ∧
        Allowed d'.billing identityId row.id allowance := by
    intro d₁ row hbooks₁ hnoted hrow hlot₁
    have hcredits : ¬ allowance < 1 := by omega
    have hnonneg := availableCredits_nonneg hbooks₁ (Table.mem_of_get? hrow)
    have hcredit : ¬ row.availableCredits + allowance < 0 := by omega
    set entry : LedgerEntry :=
      ⟨row.id, none, .purchase, allowance, "beta-allowance:" ++ identityId⟩ with hentry
    have hchecks : ledgerChecks entry d₁.billing = .ok () := by
      simp [ledgerChecks, hentry, hfits, hrow]
    set lot : CreditLot :=
      { id := lotId, accountId := row.id, kind := .grant, reference := "beta-allowance:" ++ identityId
        credited := allowance } with hlotdef
    have hlotChecks : lotChecks lot := by
      rw [lotChecks_iff]
      simp only [hlotdef]
      omega
    have hunused : d₁.billing.lots.rows.any (fun l => l.reference = "beta-allowance:" ++ identityId) =
        false := by
      rw [List.any_eq_false]
      intro l hl href
      have hnone : d₁.billing.lots.rows.filter (·.reference = "beta-allowance:" ++ identityId) = [] :=
        List.map_eq_nil_iff.mp hnoted.grants
      exact List.filter_eq_nil_iff.mp hnone l hl href
    set row' : AccountRow := { row with availableCredits := row.availableCredits + allowance } with hrow'
    refine ⟨apply (Write.billing (.account row')) (apply (Write.billing (.lot lot))
      (apply (Write.billing (.ledger entry)) d₁)), ?_, ?_⟩
    · simp only [PostgresBillingRepository.grant, Prog.raiseIf_bind, hcredits, if_false, grantLot, issue_bind,
        selectAccountForUpdate, Prog.step_bind, Prog.run_selectForUpdate, insertLedgerOnce, Prog.run_mk,
        hnoted.entry, Option.isSome_none, Bool.false_eq_true, ← hentry, hchecks, applyAll_cons, applyAll_nil,
        if_true, PostgresCreditLots.grant, PostgresCreditLots.insertLot, Prog.run_insert,
        ← hlotdef, hlotChecks, Bool.not_true, billing_apply, BillingWrite.lots_apply, hlot₁,
        hunused, creditAccount, BillingWrite.accounts_apply, hrow, hcredit]
      rfl
    · have hentered : ((BillingWrite.ledger entry).apply d₁.billing).Noted identityId
          ("beta-allowance:" ++ identityId) (some entry) [] (some row.id) :=
        ⟨Table.get?_put_self _ entry, hnoted.grants, hnoted.account⟩
      have hgranted : ((BillingWrite.lot lot).apply ((BillingWrite.ledger entry).apply d₁.billing)).Noted
          identityId ("beta-allowance:" ++ identityId) (some entry) [(row.id, .grant, allowance)]
            (some row.id) := by
        refine ⟨hentered.entry, ?_, hentered.account⟩
        rw [grantsUnder_putNew hlot₁, hentered.grants]
        simp [hlotdef]
      exact allowed_of_noted (Noted.putAccount hgranted hrow rfl)
  simp only [accountForIdentity, upsertAccount, issue_bind, Prog.run_mk]
  cases hknown : d.billing.accounts.rows.find? (·.identityId = identityId) with
  | some row =>
    have hget : d.billing.accounts.get? row.id = some row :=
      Table.get?_of_mem (List.mem_of_find?_eq_some hknown)
    have hself : apply (Write.billing (.account row)) d = d := by
      have hbilling := putAccount_self hget
      exact congrArg (fun billing => { d with billing }) hbilling
    have haccount : d.billing.accountOf identityId = some row.id := by
      unfold accountOf
      rw [hknown]
      rfl
    obtain ⟨d', hrun, hallowed⟩ := hgrant d row hbooks
      ⟨h.entry, h.grants, fun _ hid' => by rw [haccount, hid']⟩ hget hlot
    refine ⟨row.id, d', ?_, hallowed⟩
    simp only [applyAll_cons, applyAll_nil, hself]
    exact hrun
  | none =>
    set row : AccountRow := { id, availableCredits := 0, identityId } with hrow
    have hopened : ((BillingWrite.account row).apply d.billing).Noted identityId
        ("beta-allowance:" ++ identityId) none [] none := h.openAccount hid
    have haccount : ((BillingWrite.account row).apply d.billing).accountOf identityId = some row.id := by
      have hrows : ((BillingWrite.account row).apply d.billing).accounts.rows =
          d.billing.accounts.rows ++ [row] :=
        Table.rows_put_of_none hid
      unfold accountOf
      rw [hrows, List.find?_append, hknown]
      simp [hrow]
    obtain ⟨d', hrun, hallowed⟩ := hgrant (apply (Write.billing (.account row)) d)
      row (hbooks.openAccount hid)
      ⟨hopened.entry, hopened.grants, fun _ hid' => by rw [← hid']; exact haccount⟩
      (Table.get?_put_self _ row) hlot
    refine ⟨row.id, d', ?_, hallowed⟩
    simp only [hid, Option.isSome_none, Bool.false_eq_true, if_false, applyAll_cons, applyAll_nil]
    exact hrun

end

/-- The call is for the identity's account. -/
def Call.opens (identityId : String) : Call → Prop
  | .accountForIdentity _ _ identity _ => identity = identityId
  | _ => False

/-- A process asks for the identity's account with the allowance it was started with, the same for every
process; the identifiers it generates are new. No other call grants under the allowance's reference. -/
def Configured (identityId : String) (allowance : ℤ) (s : Serial HostedDb Call Reply) : Call → Prop
  | .accountForIdentity id lotId identity amount =>
    identity = identityId → amount = allowance ∧ s.db.billing.accounts.get? id = none ∧
      s.db.billing.lots.get? lotId = none
  | call => call.reference ≠ some ("beta-allowance:" ++ identityId)

/-- Every call for the identity returns one account, to which one allowance was credited. -/
structure Allowing (identityId : String) (allowance : ℤ) (s : Serial HostedDb Call Reply) : Prop where
  credited : ∀ entry ∈ s.log, entry.1.opens identityId →
    ∃ accountId, entry.2 = .accountId accountId ∧ Allowed s.db.billing identityId accountId allowance
  next : ∀ id lotId, Configured identityId allowance s (.accountForIdentity id lotId identityId allowance) →
    ∃ accountId d, (Call.accountForIdentity id lotId identityId allowance).prog.run s.db =
        .ok (.accountId accountId, d) ∧ Allowed d.billing identityId accountId allowance ∧
      ((∃ entry ∈ s.log, entry.1.opens identityId) → d = s.db)

section
variable {identityId : String} {allowance : ℤ} {d₀ : HostedDb} {s : Serial HostedDb Call Reply}

/-- Before the first call for the identity nothing was granted under its reference; after it, the
allowance stands. -/
structure Allotted (identityId : String) (allowance : ℤ) (s : Serial HostedDb Call Reply) : Prop where
  books : s.db.billing.Books
  state : (s.db.billing.Noted identityId ("beta-allowance:" ++ identityId) none [] none ∧
      ∀ entry ∈ s.log, ¬ entry.1.opens identityId) ∨
    ∃ accountId, Allowed s.db.billing identityId accountId allowance ∧
      ∀ entry ∈ s.log, entry.1.opens identityId → entry.2 = .accountId accountId

/-- Any call but those for the identity leaves what is noted as it is. -/
theorem Call.noted_run {call : Call} {entry : Option LedgerEntry} {grants : List (String × LotKind × ℤ)}
    {accountId : Option String} {d d' : HostedDb} {r : Reply} (hbooks : d.billing.Books)
    (h : d.billing.Noted identityId ("beta-allowance:" ++ identityId) entry grants accountId)
    (hother : call.reference ≠ some ("beta-allowance:" ++ identityId))
    (hrun : call.prog.run d = .ok (r, d')) :
    d'.billing.Books ∧ d'.billing.Noted identityId ("beta-allowance:" ++ identityId)
      entry grants accountId := by
  have hkept := Call.keeping (kept_noted identityId entry grants accountId) call
    (fun reference href hsame => hother (href.trans (congrArg some hsame))) d ⟨hbooks, h⟩
  rw [hrun] at hkept
  exact hkept

theorem accountForIdentity_run {id lotId : String} {d d' : HostedDb} {accountId : String}
    (h : (accountForIdentity id lotId identityId allowance).run d = .ok (accountId, d')) :
    (Call.accountForIdentity id lotId identityId allowance).prog.run d = .ok (.accountId accountId, d') := by
  simp only [Call.prog]
  rw [Prog.run_bind, h]
  rfl

theorem configured_reference {call : Call} (h : Configured identityId allowance s call)
    (hopens : ¬ call.opens identityId) : call.reference ≠ some ("beta-allowance:" ++ identityId) := by
  cases call with
  | accountForIdentity id lotId identity amount =>
    intro hsame
    have hreference : "beta-allowance:" ++ identity = "beta-allowance:" ++ identityId := Option.some.inj hsame
    exact hopens (prefix_inj hreference)
  | _ => exact h

theorem Allotted.step (hpos : 1 ≤ allowance) (hfits : fitsInteger allowance = true)
    (h : Allotted identityId allowance s) {call : Call} (hcall : Configured identityId allowance s call) :
    Allotted identityId allowance (s.step Call.prog call) := by
  have hspec := Serial.step_spec Call.prog s call
  revert hspec
  generalize s.step Call.prog call = s'
  intro hspec
  cases hspec with
  | fail error => exact ⟨h.books, h.state⟩
  | commit ok =>
    rename_i r d
    have hbooks : d.billing.Books := by
      have hkept := Call.conserves call s.db h.books
      rw [ok] at hkept
      exact hkept
    refine ⟨hbooks, ?_⟩
    by_cases hopens : call.opens identityId
    · cases call with
      | accountForIdentity id lotId identity amount =>
        obtain rfl : identity = identityId := hopens
        obtain ⟨rfl, hid, hlot⟩ := hcall rfl
        rcases h.state with ⟨hnoted, hnone⟩ | ⟨accountId, hallowed, hreplies⟩
        · obtain ⟨accountId, d', hrun, hallowed⟩ :=
            accountForIdentity_first h.books hnoted hpos hfits hid hlot
          have hreply := accountForIdentity_run hrun
          rw [ok] at hreply
          cases hreply
          refine Or.inr ⟨accountId, hallowed, fun entry hentry hown => ?_⟩
          rcases List.mem_cons.mp hentry with rfl | hentry
          · rfl
          · exact absurd hown (hnone entry hentry)
        · have hreply := accountForIdentity_run (accountForIdentity_again hallowed hpos id lotId)
          rw [ok] at hreply
          cases hreply
          refine Or.inr ⟨accountId, hallowed, fun entry hentry hown => ?_⟩
          rcases List.mem_cons.mp hentry with rfl | hentry
          · rfl
          · exact hreplies entry hentry hown
      | _ => cases hopens
    · have hother := configured_reference hcall hopens
      rcases h.state with ⟨hnoted, hnone⟩ | ⟨accountId, hallowed, hreplies⟩
      · have hkept := (Call.noted_run h.books hnoted hother ok).2
        refine Or.inl ⟨hkept, fun entry hentry => ?_⟩
        rcases List.mem_cons.mp hentry with rfl | hentry
        · exact hopens
        · exact hnone entry hentry
      · have hkept := allowed_of_noted (Call.noted_run h.books hallowed.noted hother ok).2
        refine Or.inr ⟨accountId, hkept, fun entry hentry hown => ?_⟩
        rcases List.mem_cons.mp hentry with rfl | hentry
        · exact absurd hown hopens
        · exact hreplies entry hentry hown

theorem reach_allotted (hpos : 1 ≤ allowance) (hfits : fitsInteger allowance = true) (h₀ : Opening d₀.billing)
    (h : Serial.Reach Call.prog (Configured identityId allowance) d₀ s) :
    Allotted identityId allowance s := by
  induction h with
  | init =>
    refine ⟨h₀.books, Or.inl ⟨⟨?_, ?_, fun _ hid => by cases hid⟩, fun entry hentry => by cases hentry⟩⟩
    · simp [h₀.ledger]
    · simp [grantsUnder, h₀.lots]
  | step call reach allowed ih => exact ih.step hpos hfits allowed

/-- One allowance for each identity, whatever else is called, when every process has the same. -/
theorem allowance_once (hpos : 1 ≤ allowance) (hfits : fitsInteger allowance = true) (h₀ : Opening d₀.billing)
    (h : Serial.Reach Call.prog (Configured identityId allowance) d₀ s) :
    Allowing identityId allowance s := by
  obtain ⟨hbooks, hstate⟩ := reach_allotted hpos hfits h₀ h
  rcases hstate with ⟨hnoted, hnone⟩ | ⟨accountId, hallowed, hreplies⟩
  · refine ⟨fun entry hentry hown => absurd hown (hnone entry hentry), fun id lotId hnext => ?_⟩
    obtain ⟨-, hid, hlot⟩ := hnext rfl
    obtain ⟨accountId, d, hrun, hallowed⟩ := accountForIdentity_first hbooks hnoted hpos hfits hid hlot
    refine ⟨accountId, d, accountForIdentity_run hrun, hallowed, ?_⟩
    rintro ⟨entry, hentry, hown⟩
    exact absurd hown (hnone entry hentry)
  · refine ⟨fun entry hentry hown => ⟨accountId, hreplies entry hentry hown, hallowed⟩, fun id lotId _ => ?_⟩
    exact ⟨accountId, s.db, accountForIdentity_run (accountForIdentity_again hallowed hpos id lotId),
      hallowed, fun _ => rfl⟩

end

/-- An account is opened, paid for and asked for again. -/
theorem allowance_once_again :
    let s := ((Serial.step Call.prog { db := {} } (.accountForIdentity "account" "lot" "identity" 1000)).step
      Call.prog
      (.processPaymentEvent "paid" "stripe" "event" "account" 500)).step Call.prog
        (.accountForIdentity "account2" "lot2" "identity" 1000)
    s.log.length = 3 ∧ s.db.billing.accounts.rows.map (fun row => (row.id, row.availableCredits)) =
      [("account", 1500)] ∧
      Allowing "identity" 1000 s := by
  intro s
  have hopening : Opening ({} : HostedDb).billing := ⟨by decide, rfl, rfl, rfl, rfl⟩
  have hreach : Serial.Reach Call.prog (Configured "identity" 1000) {} s := by
    apply Serial.Reach.step
    · apply Serial.Reach.step
      · apply Serial.Reach.step
        · exact .init
        · exact fun _ => ⟨rfl, rfl, rfl⟩
      · intro hreference
        exact absurd (Option.some.inj hreference) (by decide +kernel)
    · exact fun _ => ⟨rfl, by decide +kernel, by decide +kernel⟩
  exact ⟨by decide +kernel, by decide +kernel, allowance_once (by decide) (by decide) hopening hreach⟩

/-- A process that was started with another allowance turns the identity away. -/
theorem allowance_adjusted :
    let d := Call.runAll [.accountForIdentity "account" "lot" "identity" 1000] {}
    ((Call.accountForIdentity "account'" "lot'" "identity" 2000).prog.transaction d).1 =
      .error (.value "payment_reference_conflict") := by
  intro d
  rfl

end KenkuiServer.Hosted
