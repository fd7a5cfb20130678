import Mathlib.Algebra.BigOperators.Group.List.Basic
import Mathlib.Algebra.Order.BigOperators.Group.List
import Mathlib.Algebra.Order.Group.Unbundled.Int
import Mathlib.Tactic.Linarith

/-! The greedy split of an amount over capacities in order: every part takes what its capacity has
until nothing is missing. -/
namespace KenkuiServer.Data

variable {ι : Type}

def split : List (ι × ℤ) → ℤ → Option (List (ι × ℤ))
  | [], _ => none
  | (i, capacity) :: rest, amount =>
    if amount ≤ capacity then some [(i, amount)]
    else (split rest (amount - capacity)).map ((i, capacity) :: ·)

theorem split_eq_some {capacities : List (ι × ℤ)} {amount : ℤ} {parts : List (ι × ℤ)} (hpos : 0 < amount)
    (h : split capacities amount = some parts) :
    ∃ filled i capacity rest part, capacities = filled ++ (i, capacity) :: rest ∧
      parts = filled ++ [(i, part)] ∧ 0 < part ∧ part ≤ capacity ∧
      (filled.map (·.2)).sum + part = amount := by
  induction capacities generalizing amount parts with
  | nil => cases h
  | cons head rest ih =>
    obtain ⟨i, capacity⟩ := head
    unfold split at h
    split_ifs at h with hle
    · cases h
      exact ⟨[], i, capacity, rest, amount, rfl, rfl, hpos, hle, by simp⟩
    · obtain ⟨parts', hsplit, rfl⟩ := Option.map_eq_some_iff.mp h
      have hrest : 0 < amount - capacity := by omega
      obtain ⟨filled, j, c, rest', part, rfl, rfl, hpart, hpc, hsum⟩ := ih hrest hsplit
      refine ⟨(i, capacity) :: filled, j, c, rest', part, rfl, rfl, hpart, hpc, ?_⟩
      simp only [List.map_cons, List.sum_cons]
      omega

theorem split_eq_none_iff {capacities : List (ι × ℤ)} {amount : ℤ} (hpos : 0 < amount) :
    split capacities amount = none ↔ ∀ filled rest, capacities = filled ++ rest →
      (filled.map (·.2)).sum < amount := by
  induction capacities generalizing amount with
  | nil =>
    constructor
    · intro _ filled rest happend
      obtain ⟨rfl, -⟩ := List.append_eq_nil_iff.mp happend.symm
      exact hpos
    · exact fun _ => rfl
  | cons head rest ih =>
    obtain ⟨i, capacity⟩ := head
    unfold split
    split_ifs with hle
    · have hfirst : ¬ ((([(i, capacity)] : List (ι × ℤ)).map (·.2)).sum < amount) := by simpa using hle
      constructor
      · intro h
        cases h
      · intro h
        exact absurd (h [(i, capacity)] rest rfl) hfirst
    · have hrest : 0 < amount - capacity := by omega
      rw [Option.map_eq_none_iff, ih hrest]
      constructor
      · intro h filled rest' happend
        cases filled with
        | nil => exact hpos
        | cons first filled =>
          obtain ⟨rfl, rfl⟩ := List.cons.inj happend
          have := h filled rest' rfl
          simp only [List.map_cons, List.sum_cons]
          omega
      · intro h filled rest' happend
        have := h ((i, capacity) :: filled) rest' (by rw [happend]; rfl)
        simp only [List.map_cons, List.sum_cons] at this
        omega

theorem split_isSome_iff {capacities : List (ι × ℤ)} {amount : ℤ} (hpos : 0 < amount)
    (hcapacities : ∀ c ∈ capacities, 0 ≤ c.2) :
    (split capacities amount).isSome ↔ amount ≤ (capacities.map (·.2)).sum := by
  rw [← not_iff_not, Option.not_isSome_iff_eq_none, split_eq_none_iff hpos, not_le]
  constructor
  · intro h
    exact h capacities [] (List.append_nil _).symm
  · intro h filled rest happend
    have hnonneg : 0 ≤ (rest.map (·.2)).sum := by
      refine List.sum_nonneg fun x hx => ?_
      obtain ⟨c, hc, rfl⟩ := List.mem_map.mp hx
      exact hcapacities c (happend ▸ List.mem_append_right _ hc)
    rw [happend, List.map_append, List.sum_append] at h
    omega

section
variable {capacities parts : List (ι × ℤ)} {amount : ℤ}

theorem sum_split (hpos : 0 < amount) (h : split capacities amount = some parts) :
    (parts.map (·.2)).sum = amount := by
  obtain ⟨filled, i, capacity, rest, part, -, rfl, -, -, hsum⟩ := split_eq_some hpos h
  simpa using hsum

theorem mem_split (hpos : 0 < amount) (hcapacities : ∀ c ∈ capacities, 0 < c.2)
    (h : split capacities amount = some parts) {part : ι × ℤ} (hpart : part ∈ parts) :
    0 < part.2 ∧ ∃ capacity, (part.1, capacity) ∈ capacities ∧ part.2 ≤ capacity := by
  obtain ⟨filled, i, capacity, rest, last, rfl, rfl, hlast, hle, -⟩ := split_eq_some hpos h
  rcases List.mem_append.mp hpart with hfilled | hpart
  · have hmem : part ∈ filled ++ (i, capacity) :: rest := List.mem_append_left _ hfilled
    exact ⟨hcapacities part hmem, part.2, hmem, le_rfl⟩
  · rw [List.mem_singleton] at hpart
    subst hpart
    exact ⟨hlast, capacity, by simp, hle⟩

theorem split_sublist (hpos : 0 < amount) (h : split capacities amount = some parts) :
    (parts.map (·.1)).Sublist (capacities.map (·.1)) := by
  obtain ⟨filled, i, capacity, rest, part, rfl, rfl, -, -, -⟩ := split_eq_some hpos h
  simp only [List.map_append, List.map_cons, List.map_nil]
  exact (List.Sublist.refl _).append (List.Sublist.cons_cons _ (List.nil_sublist _))

/-- A capacity before one that is drawn on is taken whole. -/
theorem split_drained (hpos : 0 < amount) (hnodup : (capacities.map (·.1)).Nodup)
    (h : split capacities amount = some parts) {earlier later : List (ι × ℤ)} {c : ι × ℤ}
    (happend : capacities = earlier ++ c :: later) (hc : c.1 ∈ parts.map (·.1)) :
    ∀ e ∈ earlier, e ∈ parts := by
  obtain ⟨filled, i, capacity, rest, part, rfl, rfl, -, -, -⟩ := split_eq_some hpos h
  have hpre : earlier <+: filled := by
    have hboth : earlier <+: filled ++ (i, capacity) :: rest := ⟨c :: later, happend.symm⟩
    rcases List.prefix_or_prefix_of_prefix hboth
      (List.prefix_append filled ((i, capacity) :: rest)) with hpre | hpre
    · exact hpre
    · obtain ⟨extra, rfl⟩ := hpre
      rw [List.append_assoc, List.append_cancel_left_eq] at happend
      cases extra with
      | nil => simp
      | cons first extra =>
        -- `c` would stand behind every capacity that was drawn on
        obtain ⟨rfl, happend⟩ := List.cons.inj happend
        have hsplit : filled ++ (i, capacity) :: rest =
            (filled ++ [(i, capacity)]) ++ (extra ++ c :: later) := by
          simp [happend]
        have hmem : c.1 ∈ (extra ++ c :: later).map (·.1) := by simp
        rw [hsplit, List.map_append] at hnodup
        have hcapacity : ((i, part) :: []).map (·.1) = ((i, capacity) :: []).map (·.1) := rfl
        rw [List.map_append, hcapacity, ← List.map_append] at hc
        exact absurd rfl ((List.nodup_append.mp hnodup).2.2 _ hc _ hmem)
  intro e he
  exact List.mem_append_left _ (hpre.subset he)

/-- Every part but the last one is a whole capacity. -/
theorem split_last (hpos : 0 < amount) (h : split capacities amount = some parts) :
    ∃ last, ∀ part ∈ parts, part ∈ capacities ∨ part = last := by
  obtain ⟨filled, i, capacity, rest, part, rfl, rfl, -, -, -⟩ := split_eq_some hpos h
  refine ⟨(i, part), fun p hp => ?_⟩
  rcases List.mem_append.mp hp with hp | hp
  · exact Or.inl (List.mem_append_left _ hp)
  · exact Or.inr (List.mem_singleton.mp hp)

end

section
variable [DecidableEq ι] {parts : List (ι × ℤ)}

theorem sum_filter_of_notMem {i : ι} (hi : i ∉ parts.map (·.1)) :
    ((parts.filter (·.1 = i)).map (·.2)).sum = 0 := by
  have hnone : parts.filter (·.1 = i) = [] := by
    refine List.filter_eq_nil_iff.mpr fun part hpart hid => ?_
    rw [decide_eq_true_eq] at hid
    exact hi (hid ▸ List.mem_map_of_mem hpart)
  rw [hnone]
  rfl

theorem sum_filter_of_mem (hnodup : (parts.map (·.1)).Nodup) {part : ι × ℤ} (hpart : part ∈ parts) :
    ((parts.filter (·.1 = part.1)).map (·.2)).sum = part.2 := by
  induction parts with
  | nil => cases hpart
  | cons head parts ih =>
    obtain ⟨hhead, hnodup⟩ := List.nodup_cons.mp hnodup
    rcases List.mem_cons.mp hpart with rfl | hpart
    · have hrest := sum_filter_of_notMem hhead
      simp [hrest]
    · have hne : head.1 ≠ part.1 := fun he => hhead (List.mem_map.mpr ⟨part, hpart, he.symm⟩)
      simp [hne, ih hnodup hpart]

end

end KenkuiServer.Data
