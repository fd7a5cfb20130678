import KenkuiServer.Data.Numerals
import KenkuiServer.Errors
import Mathlib.Data.Rat.Floor

/-! The values that `json.loads` gives, and the operations of Python on a value of unknown type. -/
namespace KenkuiServer.Data

inductive Float
  | finite (value : ℚ)
  | infinity (negative : Bool)
  | nan
  deriving DecidableEq, Repr

inductive Json
  | null
  | bool (b : Bool)
  | int (n : ℤ)
  | float (x : Float)
  | str (s : String)
  | list (items : List Json)
  | dict (items : List (String × Json))

namespace Json

def truthy : Json → Bool
  | null => false
  | bool b => b
  | int n => n ≠ 0
  | float x => x ≠ .finite 0
  | str s => s ≠ ""
  | list items => !items.isEmpty
  | dict items => !items.isEmpty

/-- `value or {}` for what `get` returns. -/
def orEmpty : Option Json → Json
  | none => dict []
  | some j => if j.truthy then j else dict []

/-- `value.get(key)`. -/
def get (key : String) : Json → Except Error (Option Json)
  | dict items => .ok (items.lookup key)
  | _ => .error (.attribute "get")

/-- `value[key]`. -/
def getItem (key : String) : Json → Except Error Json
  | dict items =>
    match items.lookup key with
    | some j => .ok j
    | none => .error (.key key)
  | _ => .error .type

/-- `value in names`, for a set of strings. -/
def isIn (names : List String) : Option Json → Except Error Bool
  | some (str s) => .ok (s ∈ names)
  | some (list _) => .error .type
  | some (dict _) => .error .type
  | _ => .ok false

/-- `value == s`. -/
def eqStr (s : String) : Option Json → Bool
  | some (str t) => t = s
  | _ => false

/-- `value == n`; a Boolean or a float may equal an integer. -/
def eqInt (n : ℤ) : Option Json → Bool
  | some (int m) => m = n
  | some (bool b) => (if b then 1 else 0) = n
  | some (float (.finite q)) => q = n
  | _ => false

/-- `int(value)`. -/
def toInt : Json → Except Error ℤ
  | int n => .ok n
  | bool b => .ok (if b then 1 else 0)
  | float (.finite q) => .ok (if 0 ≤ q then ⌊q⌋ else ⌈q⌉)
  | float (.infinity _) => .error .overflow
  | float .nan => .error (.value "cannot convert float NaN to integer")
  | str s =>
    match Data.int s with
    | some n => .ok n
    | none => .error (.value "invalid literal for int()")
  | _ => .error .type

/-- `str(value)`: `repr` for what is no string. -/
def asStr (repr : Json → String) : Json → String
  | str s => s
  | j => repr j

/-- The items of `for item in value`. -/
def iter : Json → Except Error (List Json)
  | list items => .ok items
  | str s => .ok (s.toList.map fun c => str (.singleton c))
  | dict items => .ok (items.map fun item => str item.1)
  | _ => .error .type

/-- `first, second = value`. -/
def pair (j : Json) : Except Error (Json × Json) :=
  match j.iter with
  | .error e => .error e
  | .ok [first, second] => .ok (first, second)
  | .ok items =>
    .error (.value (if items.length < 2 then "not enough values to unpack" else "too many values to unpack"))

/-- `**value`. -/
def kwargs : Json → Except Error (List (String × Json))
  | dict items => .ok items
  | _ => .error .type

/-- `None` or a string. -/
def ofOption : Option String → Json
  | none => null
  | some s => str s

end Json

section
variable {items : List (String × Json)} {removed : String → Bool} {key : String}

/-- What is left of a dictionary when keys have been removed. -/
def kept (removed : String → Bool) (items : List (String × Json)) : List (String × Json) :=
  items.filter fun item => !removed item.1

theorem lookup_kept (removed : String → Bool) (items : List (String × Json)) (key : String) :
    (kept removed items).lookup key = if removed key then none else items.lookup key := by
  unfold kept
  induction items with
  | nil => simp
  | cons item items ih =>
    obtain ⟨name, value⟩ := item
    by_cases hname : removed name = true
    · have hskip : (!removed name) = false := by simp [hname]
      rw [List.filter_cons_of_neg (by simpa using hname), ih]
      by_cases hkey : key = name
      · simp [hkey, hname]
      · have hne : (key == name) = false := by simpa using hkey
        simp [List.lookup_cons, hne]
    · rw [List.filter_cons_of_pos (by simpa using hname)]
      by_cases hkey : key = name
      · simp [hkey, hname]
      · have hne : (key == name) = false := by simpa using hkey
        simp [List.lookup_cons, hne, ih]

theorem mem_kept {item : String × Json} (h : item ∈ kept removed items) :
    item ∈ items := List.mem_of_mem_filter h

end

end KenkuiServer.Data
