import KenkuiServer.Txn.Table
import Mathlib.Order.Nat

/-! Tables whose rows carry a version that every change raises: a row read earlier is still the
current one as long as its version is. -/
namespace KenkuiServer.Txn.Table

variable {R K : Type} {key : R → K} [DecidableEq K] {version : R → ℕ} {t t' t'' : Table key}

/-- Every row of `t` is still in `t'`, and unless it is unchanged its version has grown. -/
def Later (version : R → ℕ) (t t' : Table key) : Prop :=
  ∀ k row, t.get? k = some row →
    ∃ row', t'.get? k = some row' ∧ version row ≤ version row' ∧ (version row = version row' → row' = row)

theorem Later.refl (t : Table key) : Later version t t := fun _ row h => ⟨row, h, le_rfl, fun _ => rfl⟩

theorem Later.trans (h : Later version t t') (h' : Later version t' t'') : Later version t t'' := by
  intro k row hrow
  obtain ⟨row', hrow', hle, heq⟩ := h k row hrow
  obtain ⟨row'', hrow'', hle', heq'⟩ := h' k row' hrow'
  refine ⟨row'', hrow'', hle.trans hle', fun hsame => ?_⟩
  have hfirst : version row = version row' := by omega
  rw [heq' (by omega), heq hfirst]

theorem later_put_of_none {row : R} (h : t.get? (key row) = none) : Later version t (t.put row) := by
  intro k old hold
  refine ⟨old, ?_, le_rfl, fun _ => rfl⟩
  rw [get?_put_of_ne _ ?_, hold]
  rintro rfl
  simp [h] at hold

theorem later_put_of_lt {row old : R} (h : t.get? (key row) = some old) (hlt : version old < version row) :
    Later version t (t.put row) := by
  intro k r hr
  by_cases hk : key row = k
  · subst hk
    cases h.symm.trans hr
    exact ⟨row, t.get?_put_self row, hlt.le, fun hsame => absurd hsame hlt.ne⟩
  · exact ⟨r, (t.get?_put_of_ne hk).trans hr, le_rfl, fun _ => rfl⟩

/-- One change: none, one row raised to its next version, or one new row at version 0. -/
inductive Bumps (version : R → ℕ) (t t' : Table key) : Prop
  | same (same : t' = t)
  | moved (old new : R) (found : t.get? (key new) = some old) (next : version new = version old + 1)
      (put : t' = t.put new)
  | created (new : R) (fresh : t.get? (key new) = none) (first : version new = 0) (put : t' = t.put new)

theorem Bumps.later (h : Bumps version t t') : Later version t t' := by
  cases h with
  | same same =>
    rw [same]
    exact .refl t
  | moved old new found next put =>
    rw [put]
    exact later_put_of_lt found (by omega)
  | created new fresh first put =>
    rw [put]
    exact later_put_of_none fresh

/-- A row read earlier whose version is still the current one is the current row. -/
theorem Later.eq_of_version (h : Later version t t') {k : K} {row row' : R} (hrow : t.get? k = some row)
    (hrow' : t'.get? k = some row') (hversion : version row' = version row) : row' = row := by
  obtain ⟨r, hr, -, heq⟩ := h k row hrow
  cases hr.symm.trans hrow'
  exact heq hversion.symm

end KenkuiServer.Txn.Table
