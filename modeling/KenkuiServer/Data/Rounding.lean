import Mathlib.Algebra.Order.Field.Rat
import Mathlib.Tactic.Linarith
import Mathlib.Tactic.NormNum
import Mathlib.Tactic.Positivity

/-! Rounding to a double. All that is used of it is that it keeps the order, and leaves alone what is a
double. -/
namespace KenkuiServer.Data

/-- A multiple of `2 ^ -e`. -/
def OnGrid (e : ℕ) (x : ℚ) : Prop := ∃ k : ℤ, x = k / 2 ^ e

structure Rounds (round : ℚ → ℚ) : Prop where
  mono : Monotone round
  exact : ∀ (k : ℤ) (e : ℕ), |k| ≤ 2 ^ 53 → e ≤ 1074 → round (k / 2 ^ e) = k / 2 ^ e

variable {round : ℚ → ℚ} {e : ℕ} {x : ℚ} {b : ℤ}

theorem OnGrid.sub_int (h : OnGrid e x) (n : ℤ) : OnGrid e (x - n) := by
  obtain ⟨k, rfl⟩ := h
  have hpos : (2 : ℚ) ^ e ≠ 0 := by positivity
  refine ⟨k - n * 2 ^ e, ?_⟩
  push_cast
  rw [sub_div, mul_div_cancel_right₀ _ hpos]

theorem OnGrid.neg (h : OnGrid e x) : OnGrid e (-x) := by
  obtain ⟨k, rfl⟩ := h
  refine ⟨-k, ?_⟩
  push_cast
  rw [neg_div]

namespace Rounds

theorem intCast (h : Rounds round) (hb : |b| ≤ 2 ^ 53) : round b = b := by
  have hexact := h.exact b 0 hb (Nat.zero_le _)
  simpa only [pow_zero, div_one] using hexact

theorem abs_le_of_mul_le (hb : |b| * 2 ^ e + 1 ≤ 2 ^ 53) : |b| ≤ 2 ^ 53 := by
  have hone : (1 : ℤ) ≤ 2 ^ e := one_le_pow₀ (by norm_num)
  have hmul : |b| ≤ |b| * 2 ^ e := le_mul_of_one_le_right (abs_nonneg b) hone
  omega

/-- Above an integer the grid has a double that is still above it. -/
theorem round_le_iff (h : Rounds round) (hx : OnGrid e x) (he : e ≤ 1074) (hb : |b| * 2 ^ e + 1 ≤ 2 ^ 53) :
    round x ≤ b ↔ x ≤ b := by
  have hint : round b = b := h.intCast (abs_le_of_mul_le hb)
  constructor
  · intro hle
    by_contra hnot
    have hlt : (b : ℚ) < x := not_le.mp hnot
    obtain ⟨k, rfl⟩ := hx
    have hpos : (0 : ℚ) < 2 ^ e := by positivity
    have hk : b * 2 ^ e + 1 ≤ k := by
      have hcast : (b : ℚ) * 2 ^ e < k := (lt_div_iff₀ hpos).mp hlt
      have hint : b * 2 ^ e < k := by exact_mod_cast hcast
      omega
    have habs : |b * 2 ^ e + 1| ≤ 2 ^ 53 := by
      have hsplit : |b * 2 ^ e + 1| ≤ |b * 2 ^ e| + |1| := abs_add_le _ _
      have hmul : |b * 2 ^ e| = |b| * 2 ^ e := by rw [abs_mul, abs_of_pos (by positivity : (0 : ℤ) < 2 ^ e)]
      rw [hmul, abs_one] at hsplit
      exact hsplit.trans hb
    have hnext := h.exact (b * 2 ^ e + 1) e habs he
    have hgrid : ((b * 2 ^ e + 1 : ℤ) : ℚ) / 2 ^ e ≤ k / 2 ^ e := by
      have hcast : ((b * 2 ^ e + 1 : ℤ) : ℚ) ≤ k := by exact_mod_cast hk
      exact div_le_div_of_nonneg_right hcast hpos.le
    have hround := (h.mono hgrid).trans hle
    rw [hnext, div_le_iff₀ hpos] at hround
    push_cast at hround
    linarith
  · intro hle
    have hround := h.mono hle
    rwa [hint] at hround

theorem neg (h : Rounds round) : Rounds fun x => -round (-x) where
  mono := fun _ _ hle => neg_le_neg (h.mono (neg_le_neg hle))
  exact := by
    intro k e hk he
    have hexact := h.exact (-k) e (by rwa [abs_neg]) he
    have hcast : -((k : ℚ) / 2 ^ e) = ((-k : ℤ) : ℚ) / 2 ^ e := by
      push_cast
      rw [neg_div]
    rw [hcast, hexact]
    push_cast
    rw [neg_div, neg_neg]

theorem le_round_iff (h : Rounds round) (hx : OnGrid e x) (he : e ≤ 1074) (hb : |b| * 2 ^ e + 1 ≤ 2 ^ 53) :
    (b : ℚ) ≤ round x ↔ b ≤ x := by
  have hneg : |-b| * 2 ^ e + 1 ≤ 2 ^ 53 := by rwa [abs_neg]
  have hmirror := h.neg.round_le_iff hx.neg he hneg
  simp only [neg_neg, Int.cast_neg, neg_le_neg_iff] at hmirror
  exact hmirror

/-- On a grid that is fine enough the rounding of a difference does not move it over an integer bound. -/
theorem abs_round_le_iff (h : Rounds round) (hx : OnGrid e x) (he : e ≤ 1074)
    (hb : |b| * 2 ^ e + 1 ≤ 2 ^ 53) :
    |round x| ≤ b ↔ |x| ≤ b := by
  have hupper := h.round_le_iff hx he hb
  have hlower : -(b : ℚ) ≤ round x ↔ -(b : ℚ) ≤ x := by
    have hneg : |-b| * 2 ^ e + 1 ≤ 2 ^ 53 := by rwa [abs_neg]
    have hbound := h.le_round_iff hx he hneg
    rwa [Int.cast_neg] at hbound
  rw [abs_le, abs_le, hupper, hlower]

/-- The rounding of what is large is large. -/
theorem pow_le_abs (h : Rounds round) {k : ℕ} (hk : k ≤ 53) (hlarge : 2 ^ k ≤ |x|) :
    2 ^ k ≤ |round x| := by
  have hpow : |(2 ^ k : ℤ)| ≤ 2 ^ 53 := by
    rw [abs_of_pos (by positivity)]
    exact pow_le_pow_right₀ (by norm_num) hk
  have hexact : round (2 ^ k) = 2 ^ k := by
    have hint := h.intCast hpow
    push_cast at hint
    exact hint
  have hexact' : round (-2 ^ k) = -2 ^ k := by
    have hint := h.intCast (b := -2 ^ k) (by rwa [abs_neg])
    push_cast at hint
    exact hint
  rcases le_abs'.mp hlarge with hneg | hpos
  · have hle := h.mono hneg
    rw [hexact'] at hle
    exact (by linarith : 2 ^ k ≤ -round x).trans (neg_le_abs _)
  · have hle := h.mono hpos
    rw [hexact] at hle
    exact hle.trans (le_abs_self _)

end Rounds

end KenkuiServer.Data
