import Mathlib.Data.List.Nodup

/-! Fencing: whoever may use a resource has the token issued last, and no token is issued twice. -/
namespace KenkuiServer.Txn

variable {T : Type} {issued : List T} {current current' : Option T} {t : T}

/-- The tokens issued so far, newest first, and the token that the resource has now. -/
structure Fenced (issued : List T) (current : Option T) : Prop where
  nodup : issued.Nodup
  newest : ∀ t, issued.head? = some t → current = some t

namespace Fenced

theorem empty (current : Option T) : Fenced [] current := by
  constructor <;> simp

theorem issue (h : Fenced issued current) (ht : t ∉ issued) : Fenced (t :: issued) (some t) := by
  constructor
  · exact List.nodup_cons.mpr ⟨ht, h.nodup⟩
  · simp

/-- A token that another one has followed is not the current one. -/
theorem superseded (h : Fenced issued current) (ht : t ∈ issued.tail) : current ≠ some t := by
  cases issued with
  | nil => cases ht
  | cons first rest =>
    rw [h.newest first rfl]
    intro heq
    rw [Option.some.inj heq] at h
    exact (List.nodup_cons.mp h.nodup).1 ht

end Fenced

end KenkuiServer.Txn
