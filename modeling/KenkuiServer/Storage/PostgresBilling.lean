import KenkuiServer.Storage.CreditLots

/-! The durable credit ledger of hosted mode. The generated identifiers of a call are its
parameters. -/
namespace KenkuiServer.Storage
open Txn Billing

/-- `_require_one`: an update that met no row lost its race. -/
def requireOne (rowcount : ℕ) : Procedure Unit := .raiseIf (rowcount ≠ 1) .staleWrite

@[simp] theorem requireOne_bind {α : Type} (rowcount : ℕ) (f : Unit → Procedure α) :
    (requireOne rowcount >>= f) = if rowcount ≠ 1 then .raise .staleWrite else f () :=
  Prog.raiseIf_bind _ _ _

namespace PostgresBillingRepository

def selectAccountForUpdate (accountId : String) : Statement (Option AccountRow) :=
  .selectForUpdate (.account accountId) fun d => d.billing.accounts.get? accountId

def selectAccount (accountId : String) : Statement (Option AccountRow) :=
  .select fun d => d.billing.accounts.get? accountId

/-- `UPDATE credit_accounts SET available_credits = available_credits - credits ... AND
available_credits >= credits RETURNING id`. -/
def debitAccount (accountId : String) (credits : ℤ) : Statement ℕ :=
  .update fun d =>
    match d.billing.accounts.get? accountId with
    | none => .ok none
    | some row =>
      if row.availableCredits ≥ credits then
        .ok (some (.billing (.account { row with availableCredits := row.availableCredits - credits })))
      else .ok none

/-- `UPDATE credit_accounts SET available_credits = available_credits + credits ... RETURNING`. -/
def creditAccount (accountId : String) (credits : ℤ) : Statement (Option AccountRow) where
  exec d :=
    match d.billing.accounts.get? accountId with
    | none => .ok (none, [])
    | some row =>
      let row := { row with availableCredits := row.availableCredits + credits }
      if row.availableCredits < 0 then .error (.integrity "credit_accounts_available_credits_check")
      else .ok (some row, [.billing (.account row)])

def insertPaymentEvent (provider providerEventId : String) : Statement Unit where
  exec d :=
    if (d.billing.paymentEvents.get? (provider, providerEventId)).isSome then .ok ((), [])
    else .ok ((), [.billing (.paymentEvent ⟨provider, providerEventId⟩)])

/-- The checks of `credit_ledger_entries` other than the unique reference. -/
def ledgerChecks (entry : LedgerEntry) (b : BillingDb) : Except Error Unit :=
  if !fitsInteger entry.credits then .error .outOfRange
  else if (b.accounts.get? entry.accountId).isNone then
    .error (.integrity "credit_ledger_entries_account_id_fkey")
  else if entry.authorizationId.isSome ∧ b.ledger.rows.any (fun e =>
      e.authorizationId = entry.authorizationId ∧ e.kind = entry.kind) then
    .error (.integrity "credit_ledger_one_transition_per_authorization_kind")
  else .ok ()

/-- `INSERT INTO credit_ledger_entries ... ON CONFLICT (reference) DO NOTHING RETURNING id`. -/
def insertLedgerOnce (entry : LedgerEntry) : Statement Bool where
  exec d :=
    if (d.billing.ledger.get? entry.reference).isSome then .ok (false, [])
    else match ledgerChecks entry d.billing with
      | .ok () => .ok (true, [.billing (.ledger entry)])
      | .error e => .error e

def insertLedger (entry : LedgerEntry) : Statement Unit :=
  .insert (.billing (.ledger entry)) [.ledgerKind entry.authorizationId entry.kind] fun d =>
    if (d.billing.ledger.get? entry.reference).isSome then
      .error (.integrity "credit_ledger_entries_reference_key")
    else ledgerChecks entry d.billing

def selectLedger (reference : String) : Statement (Option LedgerEntry) :=
  .select fun d => d.billing.ledger.get? reference

def authorizationOfJob (jobId : String) (b : BillingDb) : Option CreditAuthorization :=
  b.authorizations.rows.find? (·.jobId = jobId)

def selectAuthorizationForJob (jobId : String) : Statement (Option CreditAuthorization) :=
  .select fun d => authorizationOfJob jobId d.billing

def selectAuthorizationForUpdate (jobId : String) : Statement (Option CreditAuthorization) where
  exec d := .ok (authorizationOfJob jobId d.billing, [])
  lock d := match authorizationOfJob jobId d.billing with
    | none => []
    | some row => [.authorization row.id]

def insertAuthorization (row : CreditAuthorization) : Statement Unit :=
  .insert (.billing (.authorization row)) [.authorizationJob row.jobId] fun d =>
    if !fitsInteger row.credits then .error .outOfRange
    else if row.credits ≤ 0 then .error (.integrity "credit_authorizations_credits_check")
    else if (d.billing.authorizations.get? row.id).isSome then
      .error (.integrity "credit_authorizations_pkey")
    else if (authorizationOfJob row.jobId d.billing).isSome then
      .error (.integrity "credit_authorizations_job_id_key")
    else .ok ()

/-- `UPDATE credit_authorizations SET status ... WHERE id AND status = 'reserved'`. -/
def finalizeAuthorization (id : String) (status : AuthorizationStatus) : Statement ℕ :=
  .update fun d =>
    match d.billing.authorizations.get? id with
    | none => .ok none
    | some row =>
      if row.status = .reserved then .ok (some (.billing (.authorization { row with status })))
      else .ok none

/-- The deferred foreign key of an authorization to its job, checked when the transaction commits. -/
def checkJobKey (jobId : String) : Statement Unit where
  exec d :=
    if (d.jobs.get? jobId).isSome then .ok ((), [])
    else .error (.integrity "credit_authorizations_job_id_fkey")

def account (accountId : String) : Procedure CreditAccount := do
  match ← (selectAccount accountId).issue with
  | none => .raise (.key accountId)
  | some row => return row.toCreditAccount

def creditLots (accountId : String) : Procedure (List CreditLot) := (PostgresCreditLots.list accountId).issue

def grantLot (lotId accountId : String) (credits : ℤ) (reference : String) (kind : LotKind) :
    Procedure CreditAccount := do
  let _ ← (selectAccountForUpdate accountId).issue
  let inserted ← (insertLedgerOnce
    { accountId, authorizationId := none, kind := .purchase, credits, reference }).issue
  if inserted then
    PostgresCreditLots.grant lotId accountId credits reference kind
    match ← (creditAccount accountId credits).issue with
    | none => .raise (.key accountId)
    | some row => return row.toCreditAccount
  else
    match ← (selectLedger reference).issue with
    | none => .raise (.value "payment_reference_conflict")
    | some existing =>
      .raiseIf ((existing.accountId, existing.credits) ≠ (accountId, credits))
        (.value "payment_reference_conflict")
      account accountId

def grant (lotId accountId : String) (credits : ℤ) (reference : String) : Procedure CreditAccount := do
  .raiseIf (credits < 1) (.value "invalid_credit_amount")
  grantLot lotId accountId credits reference .grant

def processPaymentEvent (lotId provider providerEventId accountId : String) (credits : ℤ) :
    Procedure CreditAccount := do
  .raiseIf (credits < 1) (.value "invalid_credit_amount")
  (insertPaymentEvent provider providerEventId).issue
  grantLot lotId accountId credits (provider ++ ":" ++ providerEventId) .purchase

/-- The debit, authorization, allocation and ledger entry of one reservation. -/
def reserveNew (authorizationId jobId accountId : String) (credits : ℤ) :
    Procedure CreditAuthorization := do
  let debited ← (debitAccount accountId credits).issue
  .raiseIf (debited = 0) (.value "insufficient_credits")
  let authorization : CreditAuthorization :=
    { id := authorizationId, jobId, accountId, credits, status := .reserved }
  (insertAuthorization authorization).issue
  PostgresCreditLots.reserve authorizationId accountId credits
  (insertLedger
    { accountId, authorizationId := some authorizationId, kind := .reservation, credits := -credits,
      reference := "reservation:" ++ jobId }).issue
  return authorization

def reserve (authorizationId jobId accountId : String) (credits : ℤ) :
    Procedure CreditAuthorization := do
  .raiseIf (credits < 1) (.value "invalid_credit_amount")
  let _ ← (selectAccountForUpdate accountId).issue
  match ← (selectAuthorizationForJob jobId).issue with
  | some authorization =>
    .raiseIf ((authorization.accountId, authorization.credits) ≠ (accountId, credits))
      (.value "authorization_conflict")
    return authorization
  | none =>
    let authorization ← reserveNew authorizationId jobId accountId credits
    (checkJobKey jobId).issue
    return authorization

def authorizationForJob (jobId : String) : Procedure CreditAuthorization := do
  match ← (selectAuthorizationForJob jobId).issue with
  | none => .raise (.key jobId)
  | some row => return row

/-- The last two statements of `finalize`: the refund of a release, and the ledger entry. -/
def recordFinal (authorization : CreditAuthorization) (jobId : String) (status : AuthorizationStatus) :
    Procedure Unit := do
  if status = .released then
    let _ ← (creditAccount authorization.accountId authorization.credits).issue
    (insertLedger
      { accountId := authorization.accountId, authorizationId := some authorization.id,
        kind := .release, credits := authorization.credits, reference := "release:" ++ jobId }).issue
  else
    (insertLedger
      { accountId := authorization.accountId, authorizationId := some authorization.id,
        kind := .settlement, credits := 0, reference := "settlement:" ++ jobId }).issue

def finalize (jobId : String) (status : AuthorizationStatus) : Procedure CreditAuthorization := do
  .raiseIf (status = .reserved) (.value "invalid_final_authorization_status")
  let accountId := (← authorizationForJob jobId).accountId
  let _ ← (selectAccountForUpdate accountId).issue
  match ← (selectAuthorizationForUpdate jobId).issue with
  | none => .raise (.key jobId)
  | some authorization =>
    if authorization.status ≠ .reserved then return authorization
    PostgresCreditLots.finalize authorization.id authorization.accountId authorization.credits status
    let rowcount ← (finalizeAuthorization authorization.id status).issue
    requireOne rowcount
    recordFinal authorization jobId status
    return { authorization with status }

end PostgresBillingRepository

end KenkuiServer.Storage
