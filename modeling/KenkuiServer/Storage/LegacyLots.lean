import KenkuiServer.Storage.CreditLots

/-! Migration `0004_credit_lots.sql`: the aggregate balances of an old store become one legacy lot
for each account, on which its open reservations are allocated. -/
namespace KenkuiServer.Storage
open Txn Billing

/-- The range of a `BIGINT` column. -/
def fitsBigint (n : ℤ) : Bool := -9223372036854775808 ≤ n ∧ n ≤ 9223372036854775807

/-- `COALESCE(SUM(c.credits), 0)` over the reserved authorizations that join an account. -/
def BillingDb.reservedCredits (b : BillingDb) (accountId : String) : ℤ :=
  b.authorizations.sumWhere (fun c => c.accountId = accountId ∧ c.status = .reserved)
    CreditAuthorization.credits

namespace CreditLotMigration

def legacyId (accountId : String) : String := "legacy:" ++ accountId

/-- The row that the first `INSERT ... SELECT` makes of an account. -/
def legacyLot (b : BillingDb) (a : AccountRow) : CreditLot :=
  { id := legacyId a.id, accountId := a.id, kind := .legacy, reference := legacyId a.id
    credited := a.availableCredits + b.reservedCredits a.id, reserved := b.reservedCredits a.id }

/-- The row that the second makes of a reserved authorization. -/
def legacyAllocation (c : CreditAuthorization) : CreditAllocation :=
  { authorizationId := c.id, lotId := legacyId c.accountId, accountId := c.accountId, credits := c.credits }

def reservedRows (b : BillingDb) : List CreditAuthorization :=
  b.authorizations.rows.filter (·.status = .reserved)

def selectStore : Statement BillingDb := .select (·.billing)

/-- `INSERT INTO credit_lots ... SELECT`: a sum is numeric until it is stored in its column. -/
def insertLots (b : BillingDb) : List AccountRow → Procedure Unit
  | [] => return
  | a :: rows => do
    .raiseIf (!(fitsBigint (legacyLot b a).credited && fitsBigint (legacyLot b a).reserved)) .outOfRange
    (PostgresCreditLots.insertLot (legacyLot b a)).issue
    insertLots b rows

/-- `INSERT INTO credit_allocations ... SELECT`. -/
def insertAllocations : List CreditAuthorization → Procedure Unit
  | [] => return
  | c :: rows => do
    (PostgresCreditLots.insertAllocation (legacyAllocation c)).issue
    insertAllocations rows

/-- The statements of the migration that move data; both tables are created just before, empty. -/
def migrate : Procedure Unit := do
  let b ← selectStore.issue
  insertLots b b.accounts.rows
  insertAllocations (reservedRows b)

theorem legacyId_inj {a a' : String} : legacyId a = legacyId a' ↔ a = a' := by
  constructor
  · intro h
    have hlist := congrArg String.toList h
    simp only [legacyId, String.toList_append, List.append_cancel_left_eq] at hlist
    exact String.toList_inj.mp hlist
  · exact congrArg legacyId

/-- The lots inserted, one after the other. -/
theorem insertLots_run (b : BillingDb) (rows : List AccountRow) (d : HostedDb)
    (hnodup : (rows.map fun a => a.id).Nodup)
    (hnew : ∀ lot ∈ d.billing.lots.rows, ∀ a ∈ rows, lot.id ≠ legacyId a.id ∧ lot.reference ≠ legacyId a.id)
    (hfits : ∀ a ∈ rows, fitsBigint (legacyLot b a).credited ∧ fitsBigint (legacyLot b a).reserved)
    (hchecks : ∀ a ∈ rows, lotChecks (legacyLot b a)) :
    ∃ lots : Table CreditLot.id, (insertLots b rows).run d =
        .ok ((), { d with billing := { d.billing with lots } }) ∧
      lots.rows = d.billing.lots.rows ++ rows.map (legacyLot b) := by
  induction rows generalizing d with
  | nil => exact ⟨d.billing.lots, rfl, by simp⟩
  | cons a rows ih =>
    have hfit := hfits a List.mem_cons_self
    have hcheck := hchecks a List.mem_cons_self
    have hid : d.billing.lots.get? (legacyLot b a).id = none := by
      rw [Table.get?_eq_none_iff]
      exact fun lot hlot => (hnew lot hlot a List.mem_cons_self).1
    have href : d.billing.lots.rows.any (fun lot => lot.reference = (legacyLot b a).reference) = false := by
      rw [List.any_eq_false]
      intro lot hlot
      have hne : lot.reference ≠ (legacyLot b a).reference := (hnew lot hlot a List.mem_cons_self).2
      simpa using hne
    have hput := Table.rows_put_of_none hid
    simp only [List.map_cons, List.nodup_cons, List.mem_map, not_exists, not_and] at hnodup
    obtain ⟨lots, hrun, hrows⟩ := ih { d with billing := { d.billing with
        lots := d.billing.lots.put (legacyLot b a) } } hnodup.2 (by
      intro lot hlot a' ha'
      rw [hput, List.mem_append, List.mem_singleton] at hlot
      rcases hlot with hlot | rfl
      · exact hnew lot hlot a' (List.mem_cons_of_mem _ ha')
      · have hne : a.id ≠ a'.id := fun h => hnodup.1 a' ha' h.symm
        exact ⟨fun h => hne (legacyId_inj.mp h), fun h => hne (legacyId_inj.mp h)⟩)
      (fun a' ha' => hfits a' (List.mem_cons_of_mem _ ha'))
      (fun a' ha' => hchecks a' (List.mem_cons_of_mem _ ha'))
    refine ⟨lots, ?_, ?_⟩
    · simp only [insertLots, hfit.1, hfit.2, Bool.and_self, Bool.not_true, Bool.false_eq_true,
        Prog.raiseIf_bind, if_false, issue_bind, PostgresCreditLots.insertLot, Prog.run_insert, hcheck, hid,
        Option.isSome_none, href]
      exact hrun
    · rw [hrows, hput]
      simp

/-- The allocations inserted, one after the other. -/
theorem insertAllocations_run (rows : List CreditAuthorization) (d : HostedDb)
    (hnodup : (rows.map CreditAuthorization.id).Nodup)
    (hnew : ∀ r ∈ d.billing.allocations.rows, ∀ c ∈ rows, r.authorizationId ≠ c.id)
    (hpos : ∀ c ∈ rows, 0 < c.credits) (hauth : ∀ c ∈ rows, d.billing.authorizations.get? c.id = some c)
    (hlot : ∀ c ∈ rows, ∃ lot, d.billing.lots.get? (legacyId c.accountId) = some lot ∧
      lot.accountId = c.accountId) :
    ∃ allocations, (insertAllocations rows).run d =
        .ok ((), { d with billing := { d.billing with allocations } }) ∧
      allocations.rows = d.billing.allocations.rows ++ rows.map legacyAllocation := by
  induction rows generalizing d with
  | nil => exact ⟨d.billing.allocations, rfl, by simp⟩
  | cons c rows ih =>
    have hid : d.billing.allocations.get?
        ((legacyAllocation c).authorizationId, (legacyAllocation c).lotId) = none := by
      rw [Table.get?_eq_none_iff]
      exact fun r hr h => hnew r hr c List.mem_cons_self (congrArg Prod.fst h)
    have hput := Table.rows_put_of_none (r := legacyAllocation c) hid
    simp only [List.map_cons, List.nodup_cons, List.mem_map, not_exists, not_and] at hnodup
    obtain ⟨allocations, hrun, hrows⟩ := ih { d with billing := { d.billing with
        allocations := d.billing.allocations.put (legacyAllocation c) } } hnodup.2 (by
      intro r hr c' hc'
      rw [hput, List.mem_append, List.mem_singleton] at hr
      rcases hr with hr | rfl
      · exact hnew r hr c' (List.mem_cons_of_mem _ hc')
      · exact fun h => hnodup.1 c' hc' h.symm)
      (fun c' hc' => hpos c' (List.mem_cons_of_mem _ hc'))
      (fun c' hc' => hauth c' (List.mem_cons_of_mem _ hc'))
      (fun c' hc' => hlot c' (List.mem_cons_of_mem _ hc'))
    obtain ⟨lot, hget, hlacc⟩ := hlot c List.mem_cons_self
    have hinsert := PostgresCreditLots.insertAllocation_run (legacyAllocation c) (d := d)
      (hpos c List.mem_cons_self) hid (hauth c List.mem_cons_self) rfl hget hlacc fun _ =>
        insertAllocations rows
    refine ⟨allocations, ?_, ?_⟩
    · simp only [insertAllocations, issue_bind]
      rw [hinsert]
      exact hrun
    · rw [hrows, hput]
      simp

end CreditLotMigration

end KenkuiServer.Storage
