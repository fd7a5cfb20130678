import Mathlib.Data.Int.Notation
import Mathlib.Tactic.Common

/-! Provider-neutral prepaid-credit records. -/
namespace KenkuiServer.Billing

inductive AuthorizationStatus
  | reserved | settled | released
  deriving DecidableEq, Repr

structure CreditAccount where
  id : String
  availableCredits : ℤ
  deriving DecidableEq, Repr

structure CreditAuthorization where
  id : String
  jobId : String
  accountId : String
  credits : ℤ
  status : AuthorizationStatus
  deriving DecidableEq, Repr

inductive LedgerKind
  | purchase | reservation | settlement | release
  deriving DecidableEq, Repr

structure LedgerEntry where
  accountId : String
  authorizationId : Option String
  kind : LedgerKind
  credits : ℤ
  reference : String
  deriving DecidableEq, Repr

inductive LotKind
  | purchase | grant | legacy
  deriving DecidableEq, Repr

/-- One grant or paid pack, with bonus credits included in its total. -/
structure CreditLot where
  id : String
  accountId : String
  kind : LotKind
  reference : String
  credited : ℤ
  reserved : ℤ := 0
  consumed : ℤ := 0
  deriving DecidableEq, Repr

def CreditLot.available (lot : CreditLot) : ℤ := lot.credited - lot.reserved - lot.consumed

end KenkuiServer.Billing
