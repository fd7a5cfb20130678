import Mathlib.Data.List.MinMax
import Mathlib.Data.List.Range
import Mathlib.Order.Nat

/-! A versioned record with its history: each change raises the version by one and appends one
numbered entry with the new contents. The number is read off the entries, not off the version. -/
namespace KenkuiServer.Txn

variable {P : Type}

/-- The version and contents of a record, if it exists, and its entries, oldest first. -/
structure Record (P : Type) where
  snapshot : Option (ℕ × P)
  entries : List (ℕ × P)

namespace Record

/-- One more than the largest number so far. -/
def nextNumber (entries : List (ℕ × P)) : ℕ := (entries.map Prod.fst).foldr max 0 + 1

/-- What one committed change may do to a record. -/
inductive Step (r r' : Record P) : Prop
  | same (same : r' = r)
  | created (p : P) (fresh : r.snapshot = none) (snapshot : r'.snapshot = some (0, p))
      (entries : r'.entries = r.entries)
  | moved (version : ℕ) (p p' : P) (found : r.snapshot = some (version, p))
      (snapshot : r'.snapshot = some (version + 1, p'))
      (entries : r'.entries = r.entries ++ [(nextNumber r.entries, p')])

/-- The entries are numbered from 1 to the version, and the last one has the record's contents. -/
structure Sequenced (r : Record P) : Prop where
  absent : r.snapshot = none → r.entries = []
  numbers : ∀ version p, r.snapshot = some (version, p) → r.entries.map Prod.fst = List.range' 1 version
  last : ∀ version p, r.snapshot = some (version, p) → ∀ e ∈ r.entries, e.1 = version → e.2 = p

theorem sequenced_empty : Sequenced ({ snapshot := none, entries := [] } : Record P) := by
  constructor <;> simp

theorem foldr_max_range' (n : ℕ) : (List.range' 1 n).foldr max 0 = n := by
  have hle : (List.range' 1 n).foldr max 0 ≤ n := by
    refine List.max_le_of_forall_le (List.range' 1 n) n fun x hx => ?_
    have := List.mem_range'_1.mp hx
    omega
  rcases Nat.eq_zero_or_pos n with rfl | hpos
  · rfl
  · have hmem : n ∈ List.range' 1 n := List.mem_range'_1.mpr (by omega)
    have hge : n ≤ (List.range' 1 n).foldr max 0 := List.le_max_of_le' 0 hmem le_rfl
    omega

theorem nextNumber_eq {entries : List (ℕ × P)} {version : ℕ}
    (h : entries.map Prod.fst = List.range' 1 version) : nextNumber entries = version + 1 := by
  unfold nextNumber
  rw [h, foldr_max_range']

theorem Step.sequenced {r r' : Record P} (h : Step r r') (hr : r.Sequenced) : r'.Sequenced := by
  cases h with
  | same same =>
    rw [same]
    exact hr
  | created p fresh snapshot entries =>
    have hnil : r'.entries = [] := by rw [entries, hr.absent fresh]
    constructor
    · exact fun _ => hnil
    · intro version p' hp'
      rw [snapshot] at hp'
      cases hp'
      rw [hnil]
      rfl
    · intro version p' _ e he
      rw [hnil] at he
      cases he
  | moved version p p' found snapshot entries =>
    have hnumbers := hr.numbers version p found
    have hnext := nextNumber_eq hnumbers
    constructor
    · intro hnone
      rw [snapshot] at hnone
      cases hnone
    · intro v q hq
      rw [snapshot] at hq
      cases hq
      rw [entries, hnext, List.map_append, hnumbers, List.range'_concat]
      simp [Nat.add_comm]
    · intro v q hq e he hv
      rw [snapshot] at hq
      cases hq
      rw [entries, hnext] at he
      rcases List.mem_append.mp he with he | he
      · -- an older entry has a smaller number
        have hmem : e.1 ∈ List.range' 1 version := hnumbers ▸ List.mem_map_of_mem he
        have := List.mem_range'_1.mp hmem
        omega
      · rw [List.mem_singleton.mp he]

/-- A change leaves a record as it was, creates it at version 0 or raises its version by one. -/
theorem Step.version {r r' : Record P} (h : Step r r') :
    r' = r ∨ (r.snapshot = none ∧ ∃ p, r'.snapshot = some (0, p)) ∨
      ∃ version p p', r.snapshot = some (version, p) ∧ r'.snapshot = some (version + 1, p') := by
  cases h with
  | same same => exact Or.inl same
  | created p fresh snapshot => exact Or.inr (Or.inl ⟨fresh, p, snapshot⟩)
  | moved version p p' found snapshot => exact Or.inr (Or.inr ⟨version, p, p', found, snapshot⟩)

end Record

end KenkuiServer.Txn
