import KenkuiServer.Hosted.Calls
import Mathlib.Algebra.Order.BigOperators.Group.List
import Mathlib.Algebra.Order.Group.Unbundled.Int
import Mathlib.Tactic.Linarith
import Mathlib.Tactic.Ring

/-! What the five record families of the credit store say about one another. Balances, reserved
and consumed amounts are stored sums; `Balanced` states that they are the sums of the rows they
summarize, up to `owed` credits that one authorization has debited but not yet allocated. -/
namespace KenkuiServer.Storage
open Txn Billing

namespace BillingDb

theorem account_id {b : BillingDb} {id : String} {row : AccountRow} (h : b.accounts.get? id = some row) :
    row.id = id :=
  ((b.accounts.get?_eq_some_iff id row).mp h).2

def lotBalance (b : BillingDb) (accountId : String) : ℤ :=
  b.lots.sumWhere (·.accountId = accountId) CreditLot.available

def ledgerBalance (b : BillingDb) (accountId : String) : ℤ :=
  b.ledger.sumWhere (·.accountId = accountId) LedgerEntry.credits

/-- The credits that an authorization has allocated on lots. -/
def allocated (b : BillingDb) (authorizationId : String) : ℤ :=
  b.allocations.sumWhere (·.authorizationId = authorizationId) CreditAllocation.credits

def hasStatus (b : BillingDb) (authorizationId : String) (status : AuthorizationStatus) : Bool :=
  (b.authorizations.get? authorizationId).any (·.status = status)

/-- The credits that authorizations of one status have allocated on a lot. -/
def held (b : BillingDb) (lotId : String) (status : AuthorizationStatus) : ℤ :=
  b.allocations.sumWhere (fun r => r.lotId = lotId ∧ b.hasStatus r.authorizationId status)
    CreditAllocation.credits

/-- An allocation moves a positive amount from a lot of the account that its authorization debited. -/
structure Owned (b : BillingDb) (r : CreditAllocation) : Prop where
  pos : 0 < r.credits
  authorization : ∃ a, b.authorizations.get? r.authorizationId = some a ∧ a.accountId = r.accountId
  lot : ∃ lot, b.lots.get? r.lotId = some lot ∧ lot.accountId = r.accountId

theorem Owned.mono {b b' : BillingDb} {r : CreditAllocation} (h : b.Owned r)
    (hauth : ∀ id a, b.authorizations.get? id = some a →
      ∃ a', b'.authorizations.get? id = some a' ∧ a'.accountId = a.accountId)
    (hlots : ∀ id lot, b.lots.get? id = some lot →
      ∃ lot', b'.lots.get? id = some lot' ∧ lot'.accountId = lot.accountId) : b'.Owned r := by
  obtain ⟨hpos, ⟨a, ha, hacc⟩, lot, hlot, hlacc⟩ := h
  obtain ⟨a', ha', hacc'⟩ := hauth _ _ ha
  obtain ⟨lot', hlot', hlacc'⟩ := hlots _ _ hlot
  exact ⟨hpos, ⟨a', ha', hacc'.trans hacc⟩, lot', hlot', hlacc'.trans hlacc⟩

/-- Sums and rows agree, except for `owed` credits of one account and one authorization. -/
structure Balanced (b : BillingDb) (accountId authorizationId : String) (owed : ℤ) : Prop where
  balance : ∀ row ∈ b.accounts.rows,
    row.availableCredits + (if row.id = accountId then owed else 0) = b.lotBalance row.id
  lotAccount : ∀ lot ∈ b.lots.rows, (b.accounts.get? lot.accountId).isSome
  lotBounds : ∀ lot ∈ b.lots.rows, lotChecks lot
  reserved : ∀ lot ∈ b.lots.rows, lot.reserved = b.held lot.id .reserved
  consumed : ∀ lot ∈ b.lots.rows, lot.consumed = b.held lot.id .settled
  allocated : ∀ a ∈ b.authorizations.rows,
    b.allocated a.id + (if a.id = authorizationId then owed else 0) = a.credits
  owned : ∀ r ∈ b.allocations.rows, b.Owned r

theorem Balanced.of_zero {b : BillingDb} {a id : String} (h : b.Balanced a id 0) (a' id' : String) :
    b.Balanced a' id' 0 := by
  obtain ⟨hb, hla, hl, hr, hc, ha, ho⟩ := h
  simp only [ite_self, add_zero] at hb ha
  exact ⟨by simpa using hb, hla, hl, hr, hc, by simpa using ha, ho⟩

theorem lotChecks_iff (lot : CreditLot) :
    lotChecks lot ↔ 0 ≤ lot.credited ∧ 0 ≤ lot.reserved ∧ 0 ≤ lot.consumed ∧
      lot.reserved + lot.consumed ≤ lot.credited := by
  simp [lotChecks]

theorem hasStatus_iff (b : BillingDb) (id : String) (s : AuthorizationStatus) :
    b.hasStatus id s ↔ ∃ a, b.authorizations.get? id = some a ∧ a.status = s := by
  simp [hasStatus, Option.any_eq_true]

theorem sumWhere_allocations_nonneg {b : BillingDb} (hpos : ∀ r ∈ b.allocations.rows, 0 < r.credits)
    (p : CreditAllocation → Bool) : 0 ≤ b.allocations.sumWhere p CreditAllocation.credits := by
  refine List.sum_nonneg fun x hx => ?_
  obtain ⟨y, hy, rfl⟩ := List.mem_map.mp hx
  exact (hpos y (List.mem_filter.mp hy).1).le

/-- An allocation's share of what its authorization has allocated. -/
theorem le_allocated_of_mem {b : BillingDb} (hpos : ∀ r ∈ b.allocations.rows, 0 < r.credits)
    {p : CreditAllocation → Bool} {r : CreditAllocation} (hr : r ∈ b.allocations.rows) (hp : p r) :
    r.credits ≤ b.allocations.sumWhere p CreditAllocation.credits := by
  unfold Table.sumWhere
  refine List.single_le_sum ?_ _ (List.mem_map_of_mem (List.mem_filter.mpr ⟨hr, hp⟩))
  intro x hx
  obtain ⟨y, hy, rfl⟩ := List.mem_map.mp hx
  exact (hpos y (List.mem_filter.mp hy).1).le

theorem lotBalance_putLot {b : BillingDb} (lot : CreditLot) {old : CreditLot}
    (h : b.lots.get? lot.id = some old) (hacc : lot.accountId = old.accountId) (a : String) :
    ((BillingWrite.lot lot).apply b).lotBalance a =
      b.lotBalance a + if lot.accountId = a then lot.available - old.available else 0 := by
  simp only [lotBalance, BillingWrite.lots_apply, Table.sumWhere_put_of_some _ _ h, ← hacc,
    decide_eq_true_eq]
  split_ifs <;> ring

theorem allocated_putAllocation {b : BillingDb} {r : CreditAllocation}
    (h : b.allocations.get? (r.authorizationId, r.lotId) = none) (id : String) :
    ((BillingWrite.allocation r).apply b).allocated id =
      b.allocated id + if r.authorizationId = id then r.credits else 0 := by
  simp only [allocated, BillingWrite.allocations_apply, Table.sumWhere_put_of_none (r := r) _ _ h,
    decide_eq_true_eq]

theorem held_putAllocation {b : BillingDb} {r : CreditAllocation}
    (h : b.allocations.get? (r.authorizationId, r.lotId) = none) (lotId : String)
    (s : AuthorizationStatus) :
    ((BillingWrite.allocation r).apply b).held lotId s =
      b.held lotId s + if r.lotId = lotId ∧ b.hasStatus r.authorizationId s then r.credits else 0 := by
  refine (Table.sumWhere_put_of_none (r := r) _ _ h).trans ?_
  simp only [decide_eq_true_eq]
  rfl

end BillingDb

end KenkuiServer.Storage
