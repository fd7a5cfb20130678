import Mathlib.Data.List.Basic
import Mathlib.Tactic.Common

/-! Reordering of a list of actions on a state, where actions on different keys commute up to an
equivalence of states. -/
namespace KenkuiServer.Data

variable {S A K : Type} [DecidableEq K]

/-- `as'` has the actions of `as`, those of each key in the same order. -/
def Reordered (key : A → K) (as as' : List A) : Prop :=
  ∀ k, as.filter (key · = k) = as'.filter (key · = k)

theorem Reordered.cons_inv {key : A → K} {a : A} {as before after : List A}
    (h : Reordered key (a :: as) (before ++ a :: after)) (hbefore : ∀ b ∈ before, key b ≠ key a) :
    Reordered key as (before ++ after) := by
  intro k
  have hk := h k
  by_cases hak : key a = k
  · subst hak
    have hnone : before.filter (key · = key a) = [] := by
      refine List.filter_eq_nil_iff.mpr fun b hb => ?_
      simpa using hbefore b hb
    simpa [hnone] using hk
  · simpa [hak] using hk

theorem Reordered.exists_split {key : A → K} {a : A} {as as' : List A} (h : Reordered key (a :: as) as') :
    ∃ before after, as' = before ++ a :: after ∧ ∀ b ∈ before, key b ≠ key a := by
  have ha := h (key a)
  rw [List.filter_cons_of_pos (by simp)] at ha
  obtain ⟨before, after, rfl, hbefore, -, -⟩ := List.filter_eq_cons_iff.mp ha.symm
  exact ⟨before, after, rfl, fun b hb => by simpa using hbefore b hb⟩

theorem Reordered.nil_left {key : A → K} {as : List A} (h : Reordered key [] as) : as = [] := by
  refine List.eq_nil_iff_forall_not_mem.mpr fun a ha => ?_
  have hmem : a ∈ as.filter (key · = key a) := List.mem_filter.mpr ⟨ha, by simp⟩
  rw [← h (key a)] at hmem
  cases hmem

/-- What `foldl_reordered` asks of the actions: they keep an invariant, respect the equivalence, and
commute up to it when their keys differ. -/
structure Commuting (key : A → K) (step : S → A → S) (I : S → Prop) (R : S → S → Prop) : Prop where
  equivalence : Equivalence R
  keeps : ∀ s a, I s → I (step s a)
  respects : ∀ s s' a, I s → I s' → R s s' → R (step s a) (step s' a)
  commutes : ∀ s a b, I s → key a ≠ key b → R (step (step s a) b) (step (step s b) a)

variable {key : A → K} {step : S → A → S} {I : S → Prop} {R : S → S → Prop}

namespace Commuting

omit [DecidableEq K] in
theorem foldl_keeps (h : Commuting key step I R) (as : List A) {s : S} (hs : I s) : I (as.foldl step s) := by
  induction as generalizing s with
  | nil => exact hs
  | cons a as ih => exact ih (h.keeps s a hs)

omit [DecidableEq K] in
theorem foldl_respects (h : Commuting key step I R) (as : List A) {s s' : S} (hs : I s) (hs' : I s')
    (hR : R s s') :
    R (as.foldl step s) (as.foldl step s') := by
  induction as generalizing s s' with
  | nil => exact hR
  | cons a as ih => exact ih (h.keeps s a hs) (h.keeps s' a hs') (h.respects s s' a hs hs' hR)

omit [DecidableEq K] in
/-- An action moves to the front of those of other keys. -/
theorem foldl_front (h : Commuting key step I R) {a : A} {before : List A}
    (hbefore : ∀ b ∈ before, key b ≠ key a) (after : List A) {s : S} (hs : I s) :
    R ((before ++ a :: after).foldl step s) ((a :: (before ++ after)).foldl step s) := by
  induction before generalizing s with
  | nil => exact h.equivalence.refl _
  | cons b before ih =>
    have hb : key b ≠ key a := hbefore b List.mem_cons_self
    have hrest := ih (fun b' hb' => hbefore b' (List.mem_cons_of_mem _ hb')) (h.keeps s b hs)
    refine h.equivalence.trans hrest ?_
    have hswap : R (step (step s b) a) (step (step s a) b) := h.commutes s b a hs hb
    exact h.foldl_respects _ (h.keeps _ a (h.keeps s b hs)) (h.keeps _ b (h.keeps s a hs)) hswap

/-- Both orders end in equivalent states. -/
theorem foldl_reordered (h : Commuting key step I R) {as as' : List A} (has : Reordered key as as')
    {s : S} (hs : I s) :
    R (as.foldl step s) (as'.foldl step s) := by
  induction as generalizing as' s with
  | nil =>
    rw [has.nil_left]
    exact h.equivalence.refl _
  | cons a as ih =>
    obtain ⟨before, after, rfl, hbefore⟩ := has.exists_split
    have hrest := ih (has.cons_inv hbefore) (h.keeps s a hs)
    exact h.equivalence.trans hrest (h.equivalence.symm (h.foldl_front hbefore after hs))

end Commuting

end KenkuiServer.Data
