import Mathlib.Tactic.Common

/-! The exceptions that reach a caller of the server's services, by class. -/
namespace KenkuiServer

inductive Error
  /-- `ValueError` with its code. -/
  | value (code : String)
  /-- `StaleWriteError`: the `ValueError` with code `stale_write`. -/
  | staleWrite
  | key (name : String)
  | runtime (message : String)
  /-- `AttributeError`. -/
  | attribute (name : String)
  | type
  | overflow
  /-- A constraint of the database rejected a row. -/
  | integrity (constraint : String)
  /-- A number does not fit the column it is written to. -/
  | outOfRange
  /-- The database refused to run a statement. -/
  | operational (message : String)
  deriving DecidableEq, Repr

namespace Error

/-- The exceptions that `except ValueError` catches. -/
def isValueError : Error → Bool
  | value _ => true
  | staleWrite => true
  | _ => false

end Error

theorem bind_eq_ok {ε α β : Type} {x : Except ε α} {f : α → Except ε β} {b : β} :
    x >>= f = .ok b ↔ ∃ a, x = .ok a ∧ f a = .ok b := by
  cases x with
  | error e => simp [Bind.bind, Except.bind]
  | ok a => simp [Bind.bind, Except.bind]

/-- What unwinds a call: an `Exception`, or another `BaseException`. -/
inductive Raised
  | exception (error : Error)
  | keyboardInterrupt
  | systemExit
  | base (name : String)
  deriving DecidableEq, Repr

/-- What `except Exception` catches. -/
def Raised.isException : Raised → Bool
  | exception _ => true
  | _ => false

end KenkuiServer
