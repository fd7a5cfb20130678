import KenkuiServer.Storage.Schema

/-! Credit-pack allocation inside the caller's account-locked transaction. -/
namespace KenkuiServer.Storage
open Txn Billing

/-- The `CHECK` constraints of `credit_lots`. -/
def lotChecks (lot : CreditLot) : Bool :=
  0 ≤ lot.credited ∧ 0 ≤ lot.reserved ∧ 0 ≤ lot.consumed ∧ lot.reserved + lot.consumed ≤ lot.credited

namespace PostgresCreditLots

/-- `ORDER BY sequence`: rows stand in insertion order. -/
def list (accountId : String) : Statement (List CreditLot) :=
  .select fun d => d.billing.lots.rows.filter (·.accountId = accountId)

def insertLot (lot : CreditLot) : Statement Unit :=
  .insert (.billing (.lot lot)) [.lotReference lot.reference] fun d =>
    if !lotChecks lot then .error (.integrity "credit_lots_check")
    else if (d.billing.lots.get? lot.id).isSome then .error (.integrity "credit_lots_pkey")
    else if d.billing.lots.rows.any (·.reference = lot.reference) then
      .error (.integrity "credit_lots_reference_key")
    else .ok ()

/-- `ORDER BY (kind='purchase'), sequence`: rows stand in insertion order, so this is every other
kind, then the purchases. -/
def spendable (accountId : String) (b : BillingDb) : List CreditLot :=
  let rows := b.lots.rows.filter fun lot =>
    lot.accountId = accountId ∧ lot.credited > lot.reserved + lot.consumed
  rows.filter (·.kind ≠ .purchase) ++ rows.filter (·.kind = .purchase)

def selectSpendable (accountId : String) : Statement (List (String × ℤ)) where
  exec d := .ok ((spendable accountId d.billing).map fun lot => (lot.id, lot.available), [])
  lock d := (spendable accountId d.billing).map fun lot => .lot lot.id

def reserveLot (lotId : String) (amount : ℤ) : Statement ℕ :=
  .update fun d =>
    match d.billing.lots.get? lotId with
    | none => .ok none
    | some lot =>
      let lot := { lot with reserved := lot.reserved + amount }
      if lotChecks lot then .ok (some (.billing (.lot lot))) else .error (.integrity "credit_lots_check")

def insertAllocation (row : CreditAllocation) : Statement Unit :=
  .insert (.billing (.allocation row)) [] fun d =>
    if row.credits ≤ 0 then .error (.integrity "credit_allocations_credits_check")
    else if (d.billing.allocations.get? (row.authorizationId, row.lotId)).isSome then
      .error (.integrity "credit_allocations_pkey")
    else if (d.billing.authorizations.get? row.authorizationId).map (·.accountId) ≠ some row.accountId then
      .error (.integrity "credit_allocations_authorization_id_account_id_fkey")
    else if (d.billing.lots.get? row.lotId).map (·.accountId) ≠ some row.accountId then
      .error (.integrity "credit_allocations_lot_id_account_id_fkey")
    else .ok ()

def selectAllocations (authorizationId accountId : String) : Statement (List (String × ℤ)) :=
  .select fun d =>
    (d.billing.allocations.rows.filter fun row =>
      row.authorizationId = authorizationId ∧ row.accountId = accountId).map fun row =>
        (row.lotId, row.credits)

/-- `UPDATE ... SET reserved=reserved-amount, consumed=consumed+consumed WHERE id, account_id AND
reserved >= amount`. -/
def finalizeLot (lotId accountId : String) (amount consumed : ℤ) : Statement ℕ :=
  .update fun d =>
    match d.billing.lots.get? lotId with
    | none => .ok none
    | some lot =>
      if lot.accountId = accountId ∧ lot.reserved ≥ amount then
        let lot := { lot with reserved := lot.reserved - amount, consumed := lot.consumed + consumed }
        if lotChecks lot then .ok (some (.billing (.lot lot)))
        else .error (.integrity "credit_lots_check")
      else .ok none

def grant (lotId accountId : String) (credits : ℤ) (reference : String) (kind : LotKind) :
    Procedure Unit :=
  (insertLot { id := lotId, accountId, kind, reference, credited := credits }).issue

/-- The split loop of `reserve`, with `remaining` credits still to place. -/
def reserveRows (authorizationId accountId : String) : List (String × ℤ) → ℤ → Procedure Unit
  -- Roll back admission, including the aggregate balance debit.
  | [], _ => .raise (.value "credit_lot_balance_mismatch")
  | (lotId, available) :: rows, remaining => do
    let amount := min remaining available
    let _ ← (reserveLot lotId amount).issue
    (insertAllocation { authorizationId, lotId, accountId, credits := amount }).issue
    if remaining - amount = 0 then return
    reserveRows authorizationId accountId rows (remaining - amount)

def reserve (authorizationId accountId : String) (credits : ℤ) : Procedure Unit := do
  let rows ← (selectSpendable accountId).issue
  reserveRows authorizationId accountId rows credits

/-- The update loop of `finalize`. -/
def finalizeRows (accountId : String) (status : AuthorizationStatus) :
    List (String × ℤ) → Procedure Unit
  | [] => return
  | (lotId, amount) :: rows => do
    let rowcount ← (finalizeLot lotId accountId amount (if status = .settled then amount else 0)).issue
    .raiseIf (rowcount ≠ 1) (.value "credit_lot_balance_mismatch")
    finalizeRows accountId status rows

def finalize (authorizationId accountId : String) (credits : ℤ) (status : AuthorizationStatus) :
    Procedure Unit := do
  let rows ← (selectAllocations authorizationId accountId).issue
  .raiseIf ((rows.map (·.2)).sum ≠ credits) (.value "credit_lot_balance_mismatch")
  finalizeRows accountId status rows

theorem insertAllocation_run {α : Type} (row : CreditAllocation) {auth : CreditAuthorization}
    {lot : CreditLot} {d : HostedDb} (hpos : 0 < row.credits)
    (hfresh : d.billing.allocations.get? (row.authorizationId, row.lotId) = none)
    (hauth : d.billing.authorizations.get? row.authorizationId = some auth)
    (hacc : auth.accountId = row.accountId) (hlot : d.billing.lots.get? row.lotId = some lot)
    (hlacc : lot.accountId = row.accountId) (k : Unit → Procedure α) :
    (Prog.step (insertAllocation row) k).run d = (k ()).run (apply (.billing (.allocation row)) d) := by
  simp only [insertAllocation, Prog.run_insert, Int.not_le.mpr hpos, if_false, hfresh, Option.isSome_none,
    Bool.false_eq_true, hauth, Option.map_some, hacc, ne_eq, not_true, hlot, hlacc]

end PostgresCreditLots

end KenkuiServer.Storage
