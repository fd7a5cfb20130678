import KenkuiServer.Credits.Conservation
import KenkuiServer.Data.Reorder

/-! The end of reservations, over whole lists of `finalize` calls. In a store whose grants keep off the
references of the ledger, `finalize` never fails for a job that has a reservation, and what it does is
one rewriting of the rows. -/
namespace KenkuiServer.Storage
open Txn Billing

theorem prefix_ne {p q : String} (n : ℕ) (hp : n ≤ p.length) (hq : n ≤ q.length)
    (hne : p.toList.take n ≠ q.toList.take n) (x y : String) : p ++ x ≠ q ++ y := by
  intro h
  have hlist := congrArg (fun s => s.toList.take n) h
  simp only [String.toList_append] at hlist
  rw [List.take_append_of_le_length hp, List.take_append_of_le_length hq] at hlist
  exact hne hlist

theorem prefix_inj {p x y : String} (h : p ++ x = p ++ y) : x = y := by
  have hlist := congrArg String.toList h
  simp only [String.toList_append, List.append_cancel_left_eq] at hlist
  exact String.toList_inj.mp hlist

/-- The references under which the ledger enters the end of a job's reservation. -/
def endReference (status : AuthorizationStatus) (jobId : String) : String :=
  if status = .released then "release:" ++ jobId else "settlement:" ++ jobId

theorem endReference_ne_reservation (status : AuthorizationStatus) (jobId jobId' : String) :
    endReference status jobId ≠ "reservation:" ++ jobId' := by
  unfold endReference
  split_ifs
  · exact prefix_ne 3 (by decide) (by decide) (by decide) _ _
  · exact prefix_ne 1 (by decide) (by decide) (by decide) _ _

theorem endReference_job {status status' : AuthorizationStatus} {jobId jobId' : String}
    (h : endReference status jobId = endReference status' jobId') : jobId = jobId' := by
  unfold endReference at h
  split_ifs at h
  · exact prefix_inj h
  · exact absurd h (prefix_ne 1 (by decide) (by decide) (by decide) _ _)
  · exact absurd h (prefix_ne 1 (by decide) (by decide) (by decide) _ _)
  · exact prefix_inj h

namespace BillingDb

/-- Reservations are of amounts that the ledger can enter, and an entry under the end of a job's
reservation is there because that reservation has ended. -/
structure Apart (b : BillingDb) : Prop where
  credits : ∀ a ∈ b.authorizations.rows, 0 < a.credits ∧ fitsInteger a.credits
  ends : ∀ e ∈ b.ledger.rows, ∀ status jobId, e.reference = endReference status jobId →
    ∃ a ∈ b.authorizations.rows, a.jobId = jobId ∧ a.status ≠ .reserved

variable {b : BillingDb} {auth : CreditAuthorization} {status : AuthorizationStatus}

/-- The entry that ends a reservation. -/
def endEntry (auth : CreditAuthorization) (status : AuthorizationStatus) : LedgerEntry :=
  if status = .released then
    ⟨auth.accountId, some auth.id, .release, auth.credits, "release:" ++ auth.jobId⟩
  else ⟨auth.accountId, some auth.id, .settlement, 0, "settlement:" ++ auth.jobId⟩

@[simp] theorem reference_endEntry (auth : CreditAuthorization) (status : AuthorizationStatus) :
    (endEntry auth status).reference = endReference status auth.jobId := by
  unfold endEntry endReference
  split_ifs <;> rfl

def refundedRow (auth : CreditAuthorization) (status : AuthorizationStatus) (row : AccountRow) : AccountRow :=
  if row.id = auth.accountId ∧ status = .released then
    { row with availableCredits := row.availableCredits + auth.credits }
  else row

def endedRow (auth : CreditAuthorization) (status : AuthorizationStatus) (a : CreditAuthorization) :
    CreditAuthorization :=
  if a.id = auth.id then { a with status } else a

/-- The store after the end of a reservation. -/
def closed (b : BillingDb) (auth : CreditAuthorization) (status : AuthorizationStatus) : BillingDb :=
  { b with
    accounts := b.accounts.map (refundedRow auth status) fun row => by unfold refundedRow; split_ifs <;> rfl
    lots := b.lots.map (PostgresCreditLots.finalizedLot status (b.allocationRows auth.id auth.accountId))
      fun _ => rfl
    authorizations := b.authorizations.map (endedRow auth status)
      fun a => by unfold endedRow; split_ifs <;> rfl
    ledger := b.ledger.put (endEntry auth status) }

theorem closed_eq {accounts : Table fun r : AccountRow => r.id} {lots : Table CreditLot.id}
    {authorizations : Table CreditAuthorization.id} (haccounts : accounts = (b.closed auth status).accounts)
    (hlots : lots = (b.closed auth status).lots)
    (hauthorizations : authorizations = (b.closed auth status).authorizations) :
    { b with accounts, lots, authorizations, ledger := b.ledger.put (endEntry auth status) } =
      b.closed auth status := by
  subst haccounts hlots hauthorizations
  rfl

theorem account_of_reserved (hbooks : b.Books) (hapart : b.Apart)
    (hget : b.authorizations.get? auth.id = some auth) :
    ∃ row, b.accounts.get? auth.accountId = some row := by
  have hmem := Table.mem_of_get? hget
  have hallocated := hbooks.balanced.allocated auth hmem
  simp only [ite_self, add_zero] at hallocated
  have hpos := (hapart.credits auth hmem).1
  have hne : (b.allocations.rows.filter fun r => r.authorizationId = auth.id) ≠ [] := by
    intro hnil
    rw [← hallocated] at hpos
    unfold allocated Table.sumWhere at hpos
    rw [hnil] at hpos
    exact lt_irrefl _ hpos
  obtain ⟨r, hr⟩ := List.exists_mem_of_ne_nil _ hne
  obtain ⟨hr, hid⟩ := List.mem_filter.mp hr
  rw [decide_eq_true_eq] at hid
  obtain ⟨-, ⟨a, ha, hacc⟩, lot, hlot, hlacc⟩ := hbooks.balanced.owned r hr
  rw [hid, hget] at ha
  cases ha
  have hsome := hbooks.balanced.lotAccount lot (Table.mem_of_get? hlot)
  rw [hlacc, ← hacc] at hsome
  exact Option.isSome_iff_exists.mp hsome

theorem availableCredits_nonneg (hbooks : b.Books) {row : AccountRow} (hrow : row ∈ b.accounts.rows) :
    0 ≤ row.availableCredits := by
  have hbalance := hbooks.balanced.balance row hrow
  simp only [ite_self, add_zero] at hbalance
  rw [hbalance]
  refine List.sum_nonneg fun x hx => ?_
  obtain ⟨lot, hlot, rfl⟩ := List.mem_map.mp hx
  have hbounds := (lotChecks_iff lot).mp (hbooks.balanced.lotBounds lot (List.mem_filter.mp hlot).1)
  simp only [CreditLot.available]
  omega

/-- The ledger takes the entry that ends an open reservation. -/
theorem ledger_open (hbooks : b.Books) (hapart : b.Apart) (hget : b.authorizations.get? auth.id = some auth)
    (hreserved : auth.status = .reserved) (status : AuthorizationStatus) :
    b.ledger.get? (endEntry auth status).reference = none ∧
      ∀ e ∈ b.ledger.rows, ¬ (e.authorizationId = some auth.id ∧ e.kind = (endEntry auth status).kind) := by
  constructor
  · refine (Table.get?_eq_none_iff _ _).mpr fun e he href => ?_
    rw [reference_endEntry] at href
    obtain ⟨a, ha, hjob, hended⟩ := hapart.ends e he status auth.jobId href
    have hsame := hbooks.recorded.jobs a ha auth (Table.mem_of_get? hget) hjob
    exact hended (hsame ▸ hreserved)
  · rintro e he ⟨hid, hkind⟩
    obtain ⟨a, ha, hrelease, hsettlement⟩ := hbooks.recorded.entries e he auth.id hid
    rw [hget] at ha
    cases ha
    unfold endEntry at hkind
    split_ifs at hkind
    · rw [hrelease hkind] at hreserved
      cases hreserved
    · rw [hsettlement hkind] at hreserved
      cases hreserved

end BillingDb

namespace PostgresBillingRepository
open BillingDb

variable {d : HostedDb} {auth : CreditAuthorization} {status : AuthorizationStatus} {jobId : String}

theorem ledgerChecks_endEntry {b : BillingDb} (hfits : fitsInteger auth.credits)
    (haccount : (b.accounts.get? auth.accountId).isSome)
    (hnew : ∀ e ∈ b.ledger.rows, ¬ (e.authorizationId = some auth.id ∧
      e.kind = (endEntry auth status).kind)) :
    ledgerChecks (endEntry auth status) b = .ok () := by
  have hentry : fitsInteger (endEntry auth status).credits ∧
      (endEntry auth status).accountId = auth.accountId ∧
      (endEntry auth status).authorizationId = some auth.id := by
    unfold endEntry
    split_ifs
    · exact ⟨hfits, rfl, rfl⟩
    · exact ⟨(by decide : fitsInteger 0 = true), rfl, rfl⟩
  obtain ⟨hcredits, hacc, hid⟩ := hentry
  have hnone : ¬ (b.ledger.rows.any fun e =>
      e.authorizationId = some auth.id ∧ e.kind = (endEntry auth status).kind) := by
    rw [List.any_eq_true]
    rintro ⟨e, he, hclash⟩
    exact hnew e he (of_decide_eq_true hclash)
  obtain ⟨row, hrow⟩ := Option.isSome_iff_exists.mp haccount
  unfold ledgerChecks
  rw [hacc, hid, hrow]
  simp only [hcredits, Bool.not_true, Bool.false_eq_true, if_false, Option.isNone_some,
    Option.isSome_some, true_and, hnone]

/-- Ending an open reservation rewrites its account, its lots and itself, and enters it in the ledger. -/
theorem finalize_run (hbooks : d.billing.Books) (hapart : d.billing.Apart) (hstatus : status ≠ .reserved)
    (h : authorizationOfJob jobId d.billing = some auth) (hreserved : auth.status = .reserved) :
    (finalize jobId status).run d =
      .ok ({ auth with status }, { d with billing := d.billing.closed auth status }) := by
  obtain ⟨hget, rfl⟩ := authorizationOfJob_get? h
  obtain ⟨row, hrow⟩ := account_of_reserved hbooks hapart hget
  obtain ⟨hfresh, hnew⟩ := ledger_open hbooks hapart hget hreserved status
  have hid : row.id = auth.accountId := account_id hrow
  have hnonneg := availableCredits_nonneg hbooks (Table.mem_of_get? hrow)
  obtain ⟨hpos, hfits⟩ := hapart.credits auth (Table.mem_of_get? hget)
  obtain ⟨lots, hrun, hlots, -⟩ := finalize_run_reserved hbooks hstatus h hreserved
  rw [hrun]
  have hlots : lots = (d.billing.closed auth status).lots := Table.ext hlots
  have hauthorizations : d.billing.authorizations.put { auth with status } =
      (d.billing.closed auth status).authorizations := by
    refine (Table.put_eq_map (r := { auth with status }) hget).trans (Table.ext ?_)
    refine List.map_congr_left fun a ha => ?_
    unfold endedRow
    split_ifs with hid
    · rw [Table.eq_of_mem ha (Table.mem_of_get? hget) hid]
    · rfl
  have hledger : ∀ d₁ : HostedDb, (d₁.billing.accounts.get? auth.accountId).isSome →
      d₁.billing.ledger = d.billing.ledger → ∀ {α : Type} (k : Unit → Procedure α),
        (Prog.step (insertLedger (endEntry auth status)) k).run d₁ =
          (k ()).run (apply (Write.billing (.ledger (endEntry auth status))) d₁) := by
    intro d₁ haccount hsame α k
    have hchecks := ledgerChecks_endEntry hfits haccount (hsame ▸ hnew)
    have hnone : (d₁.billing.ledger.get? (endEntry auth status).reference).isSome = false := by
      rw [hsame, hfresh]
      rfl
    simp only [insertLedger, Prog.run_insert, hnone, Bool.false_eq_true, if_false, hchecks]
  cases status with
  | reserved => exact absurd rfl hstatus
  | settled =>
    have haccounts : d.billing.accounts = (d.billing.closed auth .settled).accounts := by
      refine Table.ext ((List.map_id _).symm.trans (List.map_congr_left fun r _ => ?_))
      simp [refundedRow]
    have hentry : endEntry auth .settled =
        ⟨auth.accountId, some auth.id, .settlement, 0, "settlement:" ++ auth.jobId⟩ := rfl
    rw [← closed_eq haccounts hlots hauthorizations]
    simp only [recordFinal, reduceCtorEq, if_false, issue_bind, ← hentry]
    refine (hledger _ ?_ ?_ _).trans ?_
    · exact Option.isSome_iff_exists.mpr ⟨row, hrow⟩
    · rfl
    · rfl
  | released =>
    set row' : AccountRow := { row with availableCredits := row.availableCredits + auth.credits } with hrow'
    have haccounts : d.billing.accounts.put row' = (d.billing.closed auth .released).accounts := by
      have hsome : d.billing.accounts.get? row'.id = some row := hid ▸ hrow
      refine (Table.put_eq_map hsome).trans (Table.ext ?_)
      refine List.map_congr_left fun r hr => ?_
      by_cases hrid : r.id = auth.accountId
      · have hsame : r = row := Table.eq_of_mem hr (Table.mem_of_get? hrow) (hrid.trans hid.symm)
        simp [refundedRow, hsame, hid, hrow']
      · simp [refundedRow, hrid, hid, hrow']
    have hentry : endEntry auth .released =
        ⟨auth.accountId, some auth.id, .release, auth.credits, "release:" ++ auth.jobId⟩ := rfl
    have hcredit : ¬ row.availableCredits + auth.credits < 0 := by omega
    have hself : (d.billing.accounts.put row').get? auth.accountId = some row' := by
      rw [← hid]
      exact Table.get?_put_self _ row'
    rw [← closed_eq haccounts hlots hauthorizations]
    simp only [recordFinal, if_true, issue_bind, Prog.step_bind, creditAccount, Prog.run_mk, billing_apply,
      BillingWrite.accounts_apply, hrow, hcredit, if_false, applyAll_cons, applyAll_nil, ← hentry, ← hrow']
    refine (hledger _ ?_ ?_ _).trans ?_
    · exact Option.isSome_iff_exists.mpr ⟨row', hself⟩
    · rfl
    · rfl

theorem Keeping.and {α : Type} {p : Procedure α} {J : BillingDb → Prop} (hp : Conserves p)
    (hJ : ∀ d a d', d.billing.Books → J d.billing → p.run d = .ok (a, d') → J d'.billing) :
    Keeping (fun b => b.Books ∧ J b) p := by
  rintro d ⟨hbooks, hd⟩
  have hkept := hp d hbooks
  cases hrun : p.run d with
  | error e =>
    rw [hrun] at hkept
    exact hkept
  | ok r =>
    rw [hrun] at hkept
    exact ⟨hkept, hJ d r.1 r.2 hbooks hd hrun⟩

theorem grantLot_run_ok {lotId accountId reference : String} {credits : ℤ} {kind : LotKind} {d' : HostedDb}
    {a : CreditAccount} (h : (grantLot lotId accountId credits reference kind).run d = .ok (a, d')) :
    ∃ row, d.billing.accounts.get? accountId = some row ∧
      ((∃ entry, d.billing.ledger.get? reference = some entry ∧
          (entry.accountId, entry.credits) = (accountId, credits) ∧ d' = d) ∨
        (d.billing.ledger.get? reference = none ∧
          d' = { d with
            billing := { d.billing with
              ledger := d.billing.ledger.put ⟨accountId, none, .purchase, credits, reference⟩
              lots := d.billing.lots.put { id := lotId, accountId, kind, reference, credited := credits }
              accounts := d.billing.accounts.put
                { row with availableCredits := row.availableCredits + credits } } })) := by
  simp only [grantLot, issue_bind, selectAccountForUpdate, Prog.run_selectForUpdate, insertLedgerOnce,
    Prog.run_mk] at h
  cases hexisting : d.billing.ledger.get? reference with
  | some entry =>
    simp only [hexisting, Option.isSome_some, if_true, applyAll_nil, Bool.false_eq_true,
      if_false, selectLedger, Prog.run_select] at h
    obtain ⟨hsame, h⟩ := Prog.run_raiseIf_ok h
    simp only [account, issue_bind, selectAccount, Prog.run_select] at h
    cases hrow : d.billing.accounts.get? accountId with
    | none => simp [hrow] at h
    | some row =>
      simp only [hrow] at h
      cases h
      exact ⟨row, rfl, Or.inl ⟨entry, rfl, not_not.mp hsame, rfl⟩⟩
  | none =>
    simp only [hexisting, Option.isSome_none, Bool.false_eq_true, if_false] at h
    cases hchecks : ledgerChecks ⟨accountId, none, .purchase, credits, reference⟩ d.billing with
    | error e => simp [hchecks] at h
    | ok u =>
      simp only [hchecks, applyAll_cons, applyAll_nil, if_true, PostgresCreditLots.grant, issue_bind,
        PostgresCreditLots.insertLot, Prog.run_insert] at h
      split_ifs at h
      simp only [creditAccount, Prog.run_mk, billing_apply, BillingWrite.accounts_apply] at h
      cases hrow : d.billing.accounts.get? accountId with
      | none => simp [hrow] at h
      | some row =>
        simp only [hrow] at h
        split_ifs at h
        cases h
        exact ⟨row, rfl, Or.inr ⟨rfl, rfl⟩⟩

theorem grantLot_ok {lotId accountId reference : String} {credits : ℤ} {kind : LotKind} {d' : HostedDb}
    {a : CreditAccount} (h : (grantLot lotId accountId credits reference kind).run d = .ok (a, d')) :
    d'.billing.authorizations = d.billing.authorizations ∧
      ∀ e ∈ d'.billing.ledger.rows, e ∈ d.billing.ledger.rows ∨ e.reference = reference := by
  obtain ⟨row, -, hfound | hnew⟩ := grantLot_run_ok h
  · obtain ⟨entry, -, -, rfl⟩ := hfound
    exact ⟨rfl, fun e he => Or.inl he⟩
  · obtain ⟨-, rfl⟩ := hnew
    refine ⟨rfl, fun e he => ?_⟩
    rcases (Table.mem_put _ _ _).mp he with rfl | ⟨he, -⟩
    · exact Or.inr rfl
    · exact Or.inl he

theorem reserveNew_checks {authorizationId jobId accountId : String} {credits : ℤ} {d' : HostedDb}
    {a : CreditAuthorization} (h : (reserveNew authorizationId jobId accountId credits).run d = .ok (a, d')) :
    0 < credits ∧ fitsInteger credits := by
  simp only [reserveNew, issue_bind, debitAccount, Prog.run_update] at h
  cases hrow : d.billing.accounts.get? accountId with
  | none => simp [hrow] at h
  | some row =>
    by_cases havailable : row.availableCredits ≥ credits
    · simp only [hrow, havailable, if_true, one_ne_zero, Prog.raiseIf_bind, if_false, insertAuthorization,
        Prog.run_insert] at h
      split_ifs at h with hfits hpos
      exact ⟨not_le.mp hpos, by simpa using hfits⟩
    · simp [hrow, havailable] at h

/-- A reference that the ledger does not use for the end of a reservation. -/
def OffLedger (reference : String) : Prop := ∀ status jobId, reference ≠ endReference status jobId

theorem offLedger_allowance (identityId : String) : OffLedger ("beta-allowance:" ++ identityId) := by
  intro status jobId
  unfold endReference
  split_ifs
  · exact prefix_ne 1 (by decide) (by decide) (by decide) _ _
  · exact prefix_ne 1 (by decide) (by decide) (by decide) _ _

/-- The store is kept as `finalize` needs it, by grants that keep off its references. -/
theorem kept_apart : Kept (fun b => b.Books ∧ b.Apart) OffLedger where
  openAccount _ hb hnew := ⟨hb.1.openAccount hnew, hb.2.credits, hb.2.ends⟩
  recordPayment row hb := ⟨hb.1.recordPayment row, hb.2.credits, hb.2.ends⟩
  grantLot lotId accountId credits reference kind hoff := by
    refine Keeping.and (grantLot_conserves lotId accountId credits reference kind) fun d a d' _ hd hrun => ?_
    obtain ⟨hauthorizations, hledger⟩ := grantLot_ok hrun
    refine ⟨hauthorizations ▸ hd.credits, fun e he status jobId href => ?_⟩
    rw [hauthorizations]
    rcases hledger e he with hold | hown
    · exact hd.ends e hold status jobId href
    · exact absurd (hown.symm.trans href) (hoff status jobId)
  reserveNew authorizationId jobId accountId credits := by
    refine Keeping.and (reserveNew_conserves authorizationId jobId accountId credits)
      fun d a d' hbooks hd hrun => ?_
    obtain ⟨hpos, hfits⟩ := reserveNew_checks hrun
    obtain ⟨e, he, -⟩ | ⟨row, b, hreserving, hnew⟩ :=
      reserveNew_run hbooks authorizationId jobId accountId credits
    · rw [he] at hrun
      cases hrun
    rw [hnew] at hrun
    have hauthorizations := hreserving.authorizations
    have hledger := hreserving.ledger
    have hfresh := hreserving.fresh
    cases insertLedger_ok hrun
    simp only [billing_apply]
    refine ⟨fun x hx => ?_, fun x hx status jobId' href => ?_⟩
    · simp only [BillingWrite.authorizations_apply, hauthorizations] at hx
      rcases (Table.mem_put _ _ _).mp hx with rfl | ⟨hx, -⟩
      · exact ⟨hpos, hfits⟩
      · exact hd.credits x hx
    · simp only [BillingWrite.ledger_apply, hledger] at hx
      simp only [BillingWrite.authorizations_apply, hauthorizations]
      rcases (Table.mem_put _ _ _).mp hx with rfl | ⟨hx, -⟩
      · exact absurd href.symm (endReference_ne_reservation status jobId' jobId)
      · obtain ⟨x', hx', hended⟩ := hd.ends x hx status jobId' href
        refine ⟨x', (Table.mem_put _ _ _).mpr (Or.inr ⟨hx', fun hid => ?_⟩), hended⟩
        have hget := Table.get?_of_mem hx'
        rw [hid, hfresh] at hget
        cases hget
  finalize jobId status := by
    refine Keeping.and (finalize_conserves jobId status) fun d a d' hbooks hd hrun => ?_
    by_cases hstatus : status = .reserved
    · simp [finalize, hstatus] at hrun
    cases hauth : authorizationOfJob jobId d.billing with
    | none => simp [finalize_run_none hstatus hauth] at hrun
    | some auth =>
      by_cases hreserved : auth.status = .reserved
      swap
      · rw [finalize_run_final hstatus hauth hreserved] at hrun
        cases hrun
        exact hd
      rw [finalize_run hbooks hd hstatus hauth hreserved] at hrun
      cases hrun
      obtain ⟨hget, rfl⟩ := authorizationOfJob_get? hauth
      refine ⟨fun x hx => ?_, fun e he status' jobId' href => ?_⟩
      · obtain ⟨old, hold, rfl⟩ := List.mem_map.mp hx
        have hcredits := hd.credits old hold
        unfold endedRow
        split_ifs
        · exact hcredits
        · exact hcredits
      · rcases (Table.mem_put _ _ _).mp he with rfl | ⟨he, -⟩
        · rw [reference_endEntry] at href
          refine ⟨{ auth with status }, List.mem_map.mpr ⟨auth, Table.mem_of_get? hget, by simp [endedRow]⟩,
            endReference_job href, hstatus⟩
        · obtain ⟨x, hx, hjob, hended⟩ := hd.ends e he status' jobId' href
          refine ⟨endedRow auth status x, List.mem_map_of_mem hx, ?_, ?_⟩
          · unfold endedRow
            split_ifs
            · exact hjob
            · exact hjob
          · unfold endedRow
            split_ifs
            · exact hstatus
            · exact hended

end PostgresBillingRepository

end KenkuiServer.Storage
