import KenkuiServer.Billing.Models
import KenkuiServer.Errors
import KenkuiServer.Txn.Table
import Mathlib.Algebra.Ring.Int.Defs

/-! The in-memory credit repository. The generated identifiers of a call are its parameters. -/
namespace KenkuiServer.Billing
open Txn

structure InMemoryBillingRepository where
  accounts : Table CreditAccount.id := ∅
  authorizations : Table CreditAuthorization.id := ∅
  authorizationByJob : Table fun r : String × String => r.1 := ∅
  entries : List LedgerEntry := []
  references : List String := []
  processedPaymentEvents : List (String × String) := []
  lots : Table CreditLot.id := ∅
  allocations : Table fun r : String × List (String × ℤ) => r.1 := ∅

namespace InMemoryBillingRepository

/-- What a method returns or raises, and the repository that it leaves. -/
abbrev Method (α : Type) := InMemoryBillingRepository → Except Error α × InMemoryBillingRepository

def account (accountId : String) (r : InMemoryBillingRepository) : CreditAccount :=
  (r.accounts.get? accountId).getD ⟨accountId, 0⟩

def creditLots (accountId : String) (r : InMemoryBillingRepository) : List CreditLot :=
  r.lots.rows.filter (·.accountId = accountId)

/-- `_grant`. -/
def grantLot (lotId accountId : String) (credits : ℤ) (reference : String) (kind : LotKind) :
    Method CreditAccount :=
  fun r =>
    if credits < 1 then (.error (.value "invalid_credit_amount"), r)
    else if reference ∈ r.references then
      match r.lots.rows.find? (·.reference = reference) with
      | none => (.error (.runtime "StopIteration"), r)
      | some lot =>
        if (lot.accountId, lot.credited, lot.kind) ≠ (accountId, credits, kind) then
          (.error (.value "payment_reference_conflict"), r)
        else (.ok (r.account accountId), r)
    else
      let updated : CreditAccount := ⟨accountId, (r.account accountId).availableCredits + credits⟩
      (.ok updated,
        { r with
          accounts := r.accounts.put updated
          references := reference :: r.references
          lots := r.lots.put { id := lotId, accountId, kind, reference, credited := credits }
          entries := r.entries ++ [⟨accountId, none, .purchase, credits, reference⟩] })

def grant (lotId accountId : String) (credits : ℤ) (reference : String) : Method CreditAccount :=
  grantLot lotId accountId credits reference .grant

def processPaymentEvent (lotId provider providerEventId accountId : String) (credits : ℤ) :
    Method CreditAccount :=
  fun r =>
    match grantLot lotId accountId credits (provider ++ ":" ++ providerEventId) .purchase r with
    | (.error e, r) => (.error e, r)
    | (.ok account, r) =>
      (.ok account,
        { r with processedPaymentEvents := (provider, providerEventId) :: r.processedPaymentEvents })

/-- The loop over the sorted lots: the allocations, and what remains. -/
def takeLots : List CreditLot → ℤ → List (String × ℤ) × ℤ
  | [], remaining => ([], remaining)
  | lot :: lots, remaining =>
    let amount := min remaining lot.available
    let taken := if amount ≠ 0 then [(lot.id, amount)] else []
    if remaining - amount = 0 then (taken, 0)
    else (taken ++ (takeLots lots (remaining - amount)).1, (takeLots lots (remaining - amount)).2)

/-- `self._lots[lot_id] = replace(lot, ..)` for each of the allocations, whose lots are all there. -/
def replaceLots (f : ℤ → CreditLot → CreditLot) (lots : Table CreditLot.id)
    (allocations : List (String × ℤ)) :
    Table CreditLot.id :=
  allocations.foldl (fun lots part => (lots.get? part.1).elim lots fun lot => lots.put (f part.2 lot)) lots

def reserve (authorizationId jobId accountId : String) (credits : ℤ) : Method CreditAuthorization := fun r =>
  match r.authorizationByJob.get? jobId with
  | some existingId =>
    match r.authorizations.get? existingId.2 with
    | none => (.error (.key existingId.2), r)
    | some existing =>
      if (existing.accountId, existing.credits) ≠ (accountId, credits) then
        (.error (.value "authorization_conflict"), r)
      else (.ok existing, r)
  | none =>
    if credits < 1 then (.error (.value "invalid_credit_amount"), r)
    else
      let account := r.account accountId
      if account.availableCredits < credits then (.error (.value "insufficient_credits"), r)
      else
        let authorization : CreditAuthorization :=
          { id := authorizationId, jobId, accountId, credits, status := .reserved }
        let lots := r.creditLots accountId
        -- `sorted(.., key=lambda lot: lot.kind == "purchase")`
        let sorted := lots.filter (·.kind ≠ .purchase) ++ lots.filter (·.kind = .purchase)
        let (allocations, remaining) := takeLots sorted credits
        if remaining ≠ 0 then (.error (.value "credit_lot_balance_mismatch"), r)
        else
          (.ok authorization,
            { r with
              lots := replaceLots (fun amount lot => { lot with reserved := lot.reserved + amount })
                r.lots allocations
              allocations := r.allocations.put (authorizationId, allocations)
              accounts := r.accounts.put ⟨accountId, account.availableCredits - credits⟩
              authorizations := r.authorizations.put authorization
              authorizationByJob := r.authorizationByJob.put (jobId, authorizationId)
              entries := r.entries ++ [⟨accountId, some authorizationId, .reservation, -credits, jobId⟩] })

def authorizationForJob (jobId : String) (r : InMemoryBillingRepository) : Except Error CreditAuthorization :=
  match r.authorizationByJob.get? jobId with
  | none => .error (.key jobId)
  | some authorizationId =>
    match r.authorizations.get? authorizationId.2 with
    | none => .error (.key authorizationId.2)
    | some authorization => .ok authorization

def finalize (jobId : String) (status : AuthorizationStatus) : Method CreditAuthorization := fun r =>
  if status = .reserved then (.error (.value "invalid_final_authorization_status"), r)
  else
    match r.authorizationForJob jobId with
    | .error e => (.error e, r)
    | .ok authorization =>
      if authorization.status ≠ .reserved then (.ok authorization, r)
      else
        let finalized := { authorization with status }
        let r := { r with authorizations := r.authorizations.put finalized }
        match r.allocations.get? authorization.id with
        | none => (.error (.key authorization.id), r)
        | some allocations =>
          let account := r.account authorization.accountId
          (.ok finalized,
            { r with
              lots := replaceLots (fun amount lot =>
                { lot with
                  reserved := lot.reserved - amount
                  consumed := lot.consumed + if status = .settled then amount else 0 }) r.lots allocations.2
              accounts :=
                if status = .settled then r.accounts
                else r.accounts.put ⟨authorization.accountId,
                  account.availableCredits + authorization.credits⟩
              entries := r.entries ++ [
                if status = .settled then
                  ⟨authorization.accountId, some authorization.id, .settlement, 0, jobId⟩
                else
                  ⟨authorization.accountId, some authorization.id, .release, authorization.credits, jobId⟩] })

end InMemoryBillingRepository

end KenkuiServer.Billing
