import Mathlib.Data.List.Range
import Mathlib.Order.Nat
import Mathlib.Tactic.Common

/-! A reader of a growing list whose items are numbered from 1. It passes on each item once, from the
item after number `k`, however often it reads the list again. -/
namespace KenkuiServer.Data

variable {E : Type} (number : E → ℕ)

def Numbered (items : List E) : Prop := items.map number = List.range' 1 items.length

/-- The number of the last item passed on, and the items passed on. -/
structure Reader (E : Type) where
  seen : ℕ
  emitted : List E := []

def Reader.deliver (r : Reader E) (e : E) : Reader E :=
  if number e ≤ r.seen then r else { seen := number e, emitted := r.emitted ++ [e] }

/-- The reader has passed on the items numbered above `k`. -/
structure Caught (k : ℕ) (items : List E) (r : Reader E) : Prop where
  emitted : r.emitted = items.filter fun e => k < number e
  seen : r.seen = max k items.length

variable {number} {items rest : List E} {k : ℕ} {r : Reader E}

theorem numbered_append (h : Numbered number (items ++ rest)) :
    Numbered number items ∧ rest.map number = List.range' (items.length + 1) rest.length := by
  unfold Numbered at h
  rw [List.map_append, List.length_append, ← List.range'_append_1] at h
  have hboth := List.append_inj h (by simp)
  rw [Nat.add_comm 1] at hboth
  exact hboth

theorem Numbered.number_le (h : Numbered number items) {e : E} (he : e ∈ items) :
    number e ≤ items.length := by
  have hmem : number e ∈ items.map number := List.mem_map_of_mem he
  rw [h] at hmem
  have := List.mem_range'_1.mp hmem
  omega

theorem caught_nil (k : ℕ) : Caught number k [] { seen := k } := by
  constructor
  · rfl
  · simp

theorem Caught.deliver (h : Caught number k items r) {e : E} (he : number e = items.length + 1) :
    Caught number k (items ++ [e]) (r.deliver number e) := by
  obtain ⟨hemitted, hseen⟩ := h
  unfold Reader.deliver
  by_cases hk : items.length + 1 ≤ k
  · have hle : number e ≤ r.seen := by omega
    have hnot : ¬ k < number e := by omega
    rw [if_pos hle]
    constructor
    · simpa [hnot] using hemitted
    · rw [hseen, List.length_append, List.length_singleton]
      omega
  · have hle : ¬ number e ≤ r.seen := by omega
    have hlt : k < number e := by omega
    rw [if_neg hle]
    constructor
    · simp [hlt, hemitted]
    · rw [List.length_append, List.length_singleton]
      show number e = _
      omega

/-- One item of a new reading of the list: an old one is passed over, the next one passed on. -/
theorem Caught.deliver_next (h : Caught number k items r) {done : List E} {e : E} (hdone : done <+: items)
    (hitems : items <+: done ++ e :: rest) (hnumbered : Numbered number (done ++ e :: rest)) :
    ∃ items', Caught number k items' (r.deliver number e) ∧ items <+: items' ∧ done ++ [e] <+: items' ∧
      items' <+: done ++ e :: rest := by
  obtain ⟨fresh, rfl⟩ := hdone
  have hfresh : fresh <+: e :: rest := (List.prefix_append_right_inj done).mp hitems
  cases fresh with
  | nil =>
    rw [List.append_nil] at h ⊢
    have hnumber := (numbered_append hnumbered).2
    simp only [List.map_cons, List.length_cons, List.range'_succ, List.cons.injEq] at hnumber
    refine ⟨done ++ [e], h.deliver hnumber.1, List.prefix_append _ _, List.prefix_rfl, ?_⟩
    exact (List.prefix_append_right_inj done).mpr (by simp)
  | cons x fresh =>
    obtain ⟨rfl, -⟩ := List.cons_prefix_cons.mp hfresh
    obtain ⟨later, hlater⟩ := hitems
    have hmem : x ∈ done ++ x :: fresh := by simp
    rw [← hlater] at hnumbered
    have hle := (numbered_append hnumbered).1.number_le hmem
    have hseen : r.deliver number x = r := by
      have hseen := h.seen
      unfold Reader.deliver
      rw [if_pos (by omega)]
    rw [hseen]
    refine ⟨done ++ x :: fresh, h, List.prefix_rfl, ?_, ⟨later, hlater⟩⟩
    exact (List.prefix_append_right_inj done).mpr (by simp)

theorem filter_range' (k n : ℕ) : (List.range' 1 n).filter (k < ·) = List.range' (k + 1) (n - k) := by
  induction n with
  | zero => simp
  | succ n ih =>
    rw [List.range'_1_concat, List.filter_append, ih]
    by_cases hk : k < n + 1
    · have hnext : n + 1 - k = (n - k) + 1 := by omega
      have hlt : k < 1 + n := by omega
      have hlast : k + 1 + (n - k) = 1 + n := by omega
      rw [hnext, List.range'_1_concat, hlast]
      simp [hlt]
    · have hnext : n + 1 - k = n - k := by omega
      have hlt : ¬ k < 1 + n := by omega
      rw [hnext]
      simp [hlt]

/-- The items passed on are numbered on from `k`, without a gap or a repetition. -/
theorem Caught.numbers (h : Caught number k items r) (hnumbered : Numbered number items) :
    r.emitted.map number = List.range' (k + 1) r.emitted.length := by
  have hmap : r.emitted.map number = (items.map number).filter (k < ·) := by
    rw [h.emitted, List.filter_map]
    rfl
  rw [hnumbered, filter_range'] at hmap
  have hlength := congrArg List.length hmap
  rw [List.length_map, List.length_range'] at hlength
  rw [hmap, hlength]

end KenkuiServer.Data
