import Mathlib.Algebra.BigOperators.Group.List.Basic
import Mathlib.Data.List.Nodup
import Mathlib.Tactic.Common

/-! Tables with a primary key: a list of rows in insertion order, together with the proof that
no two rows share a key. `put` is the only way to change a table. -/
namespace KenkuiServer.Txn

structure Table {R K : Type} (key : R → K) where
  rows : List R
  nodup : (rows.map key).Nodup

namespace Table

variable {R K : Type} {key : R → K}

@[ext] theorem ext {t t' : Table key} (h : t.rows = t'.rows) : t = t' := by
  cases t; cases t'; cases h; rfl

instance : EmptyCollection (Table key) := ⟨⟨[], List.nodup_nil⟩⟩

instance : Inhabited (Table key) := ⟨∅⟩

@[simp] theorem rows_empty : (∅ : Table key).rows = [] := rfl

theorem eq_of_mem {t : Table key} {r r' : R} (h : r ∈ t.rows) (h' : r' ∈ t.rows)
    (hk : key r = key r') : r = r' :=
  List.inj_on_of_nodup_map t.nodup h h' hk

/-- `SELECT SUM(f) ... WHERE p`. -/
def sumWhere {M : Type} [AddCommMonoid M] (t : Table key) (p : R → Bool) (f : R → M) : M :=
  ((t.rows.filter p).map f).sum

theorem sumWhere_eq {M : Type} [AddCommMonoid M] (t : Table key) (p : R → Bool) (f : R → M) :
    t.sumWhere p f = (t.rows.map fun r => if p r then f r else 0).sum := by
  unfold sumWhere
  induction t.rows with
  | nil => rfl
  | cons y ys ih => by_cases hy : p y <;> simp [hy, ih]

@[simp] theorem sumWhere_empty {M : Type} [AddCommMonoid M] (p : R → Bool) (f : R → M) :
    (∅ : Table key).sumWhere p f = 0 := rfl

theorem sumWhere_congr {M : Type} [AddCommMonoid M] {t : Table key} {p p' : R → Bool} {f f' : R → M}
    (h : ∀ r ∈ t.rows, (if p r then f r else 0) = if p' r then f' r else 0) :
    t.sumWhere p f = t.sumWhere p' f' := by
  rw [sumWhere_eq, sumWhere_eq, List.map_congr_left h]

theorem sumWhere_eq_zero {M : Type} [AddCommMonoid M] {t : Table key} {p : R → Bool} {f : R → M}
    (h : ∀ r ∈ t.rows, p r = false) : t.sumWhere p f = 0 := by
  have hnil : t.rows.filter p = [] := List.filter_eq_nil_iff.mpr fun r hr => by simp [h r hr]
  simp [sumWhere, hnil]

theorem sumWhere_split {M : Type} [AddCommMonoid M] (t : Table key) (p q : R → Bool) (f : R → M) :
    t.sumWhere p f = t.sumWhere (fun r => p r && !q r) f + t.sumWhere (fun r => p r && q r) f := by
  simp only [sumWhere_eq, ← List.sum_map_add]
  refine congrArg List.sum (List.map_congr_left fun r _ => ?_)
  cases p r <;> cases q r <;> simp

variable [DecidableEq K]

def get? (t : Table key) (k : K) : Option R := t.rows.find? fun r => key r = k

theorem get?_eq_some_iff (t : Table key) (k : K) (r : R) :
    t.get? k = some r ↔ r ∈ t.rows ∧ key r = k := by
  constructor
  · intro h
    exact ⟨List.mem_of_find?_eq_some h, by simpa using List.find?_some h⟩
  · rintro ⟨hr, rfl⟩
    cases h : t.get? (key r) with
    | none => simpa using List.find?_eq_none.mp h r hr
    | some r' =>
      have hm : r' ∈ t.rows := List.mem_of_find?_eq_some h
      have hk : key r' = key r := by simpa using List.find?_some h
      rw [List.inj_on_of_nodup_map t.nodup hm hr hk]

theorem get?_eq_none_iff (t : Table key) (k : K) : t.get? k = none ↔ ∀ r ∈ t.rows, key r ≠ k := by
  simp [get?, List.find?_eq_none]

theorem mem_of_get? {t : Table key} {k : K} {r : R} (h : t.get? k = some r) : r ∈ t.rows :=
  ((t.get?_eq_some_iff k r).mp h).1

theorem key_of_get? {t : Table key} {k : K} {r : R} (h : t.get? k = some r) : key r = k :=
  ((t.get?_eq_some_iff k r).mp h).2

theorem get?_of_mem {t : Table key} {r : R} (h : r ∈ t.rows) : t.get? (key r) = some r :=
  (t.get?_eq_some_iff _ r).mpr ⟨h, rfl⟩

@[simp] theorem get?_empty (k : K) : (∅ : Table key).get? k = none := rfl

/-- The rows after writing `r`: it replaces the row with its key, or goes to the end. -/
def putRows (key : R → K) (r : R) : List R → List R
  | [] => [r]
  | x :: xs => if key x = key r then r :: xs else x :: putRows key r xs

theorem mem_putRows_of_ne {r x : R} (xs : List R) (h : key x ≠ key r) :
    x ∈ putRows key r xs ↔ x ∈ xs := by
  induction xs with
  | nil => simp only [putRows, List.mem_singleton, List.not_mem_nil, iff_false]; rintro rfl; exact h rfl
  | cons y ys ih =>
    simp only [putRows]
    split_ifs with hy
    · simp only [List.mem_cons]
      constructor
      · rintro (rfl | hx)
        · exact absurd rfl h
        · exact Or.inr hx
      · rintro (rfl | hx)
        · exact absurd hy h
        · exact Or.inr hx
    · simp only [List.mem_cons, ih]

theorem map_key_putRows (r : R) (xs : List R) :
    (putRows key r xs).map key = if key r ∈ xs.map key then xs.map key else xs.map key ++ [key r] := by
  induction xs with
  | nil => simp [putRows]
  | cons y ys ih =>
    by_cases hy : key y = key r
    · simp [putRows, hy]
    · have hne : key r ≠ key y := fun h => hy h.symm
      simp only [putRows, hy, if_false, List.map_cons, ih, List.mem_cons, hne, false_or]
      split_ifs <;> rfl

theorem nodup_putRows (r : R) (xs : List R) (h : (xs.map key).Nodup) :
    ((putRows key r xs).map key).Nodup := by
  rw [map_key_putRows]
  split_ifs with hm
  · exact h
  · exact List.nodup_append.mpr ⟨h, by simp, by
      intro a ha b hb
      rw [List.mem_singleton] at hb
      subst hb
      rintro rfl
      exact hm ha⟩

def put (t : Table key) (r : R) : Table key := ⟨putRows key r t.rows, nodup_putRows r t.rows t.nodup⟩

theorem get?_put (t : Table key) (r : R) (k : K) :
    (t.put r).get? k = if key r = k then some r else t.get? k := by
  simp only [get?, put]
  induction t.rows with
  | nil => simp [putRows, List.find?_cons]; split_ifs <;> simp_all
  | cons y ys ih =>
    by_cases hy : key y = key r <;> by_cases hk : key r = k <;>
      simp_all [putRows, List.find?_cons]

@[simp] theorem get?_put_self (t : Table key) (r : R) : (t.put r).get? (key r) = some r := by
  simp [get?_put]

theorem get?_put_of_ne (t : Table key) {r : R} {k : K} (h : key r ≠ k) :
    (t.put r).get? k = t.get? k := by
  simp [get?_put, h]

theorem mem_put (t : Table key) (r x : R) :
    x ∈ (t.put r).rows ↔ x = r ∨ (x ∈ t.rows ∧ key x ≠ key r) := by
  by_cases hk : key x = key r
  · constructor
    · intro h
      have h1 := get?_of_mem h
      rw [hk, get?_put_self] at h1
      exact Or.inl (Option.some.inj h1).symm
    · rintro (rfl | ⟨-, h⟩)
      · exact mem_of_get? (t.get?_put_self x)
      · exact absurd hk h
  · simp only [put, mem_putRows_of_ne _ hk]
    constructor
    · exact fun h => Or.inr ⟨h, hk⟩
    · rintro (rfl | ⟨h, -⟩)
      · exact absurd rfl hk
      · exact h

theorem mem_put_self (t : Table key) (r : R) : r ∈ (t.put r).rows := (t.mem_put r r).mpr (Or.inl rfl)

/-- A new key goes to the end of the table. -/
theorem rows_put_of_none {t : Table key} {r : R} (h : t.get? (key r) = none) :
    (t.put r).rows = t.rows ++ [r] := by
  have hne := (t.get?_eq_none_iff (key r)).mp h
  simp only [put]
  revert hne
  induction t.rows with
  | nil => simp [putRows]
  | cons y ys ih =>
    intro hne
    simp only [List.mem_cons, forall_eq_or_imp] at hne
    simp [putRows, hne.1, ih hne.2]

theorem putRows_of_mem {r : R} {xs : List R} (hnodup : (xs.map key).Nodup) (h : key r ∈ xs.map key) :
    putRows key r xs = xs.map fun x => if key x = key r then r else x := by
  induction xs with
  | nil => simp at h
  | cons y ys ih =>
    simp only [List.map_cons, List.nodup_cons, List.mem_cons] at hnodup h
    by_cases hy : key y = key r
    · have hrest : ys.map (fun x => if key x = key r then r else x) = ys := by
        refine (List.map_congr_left fun x hx => ?_).trans (List.map_id ys)
        have hne : key x ≠ key r := by
          intro he
          refine hnodup.1 ?_
          rw [hy, ← he]
          exact List.mem_map_of_mem hx
        simp [hne]
      simp [putRows, hy, hrest]
    · have hmem : key r ∈ ys.map key := h.resolve_left (Ne.symm hy)
      simp [putRows, hy, ih hnodup.2 hmem]

/-- A known key is written over in place. -/
theorem rows_put_of_some {t : Table key} {r r' : R} (h : t.get? (key r) = some r') :
    (t.put r).rows = t.rows.map fun x => if key x = key r then r else x :=
  putRows_of_mem t.nodup (key_of_get? h ▸ List.mem_map_of_mem (mem_of_get? h))

@[simp] theorem put_get? {t : Table key} {r : R} (h : t.get? (key r) = some r) : t.put r = t := by
  refine Table.ext ((rows_put_of_some h).trans ?_)
  refine (List.map_congr_left fun x hx => ?_).trans (List.map_id t.rows)
  split_ifs with hk
  · exact eq_of_mem (mem_of_get? h) hx hk.symm
  · rfl

/-- The later of two writes of one row is the one that stays. -/
theorem put_put (t : Table key) {r r' : R} (hk : key r = key r') : (t.put r).put r' = t.put r' := by
  apply ext
  simp only [put]
  induction t.rows with
  | nil => simp [putRows, hk]
  | cons y ys ih =>
    by_cases hy : key y = key r'
    · simp [putRows, hk, hy]
    · simp [putRows, hk, hy, ih]

/-- Rewrites every row and keeps the keys. -/
def map (t : Table key) (f : R → R) (hf : ∀ r, key (f r) = key r) : Table key :=
  ⟨t.rows.map f, by
    have hkeys : key ∘ f = key := funext hf
    rw [List.map_map, hkeys]
    exact t.nodup⟩

omit [DecidableEq K] in
@[simp] theorem rows_map (t : Table key) (f : R → R) (hf : ∀ r, key (f r) = key r) :
    (t.map f hf).rows = t.rows.map f := rfl

@[simp] theorem get?_map (t : Table key) (f : R → R) (hf : ∀ r, key (f r) = key r) (k : K) :
    (t.map f hf).get? k = (t.get? k).map f := by
  simp only [get?, rows_map, List.find?_map, Function.comp_def, hf]

theorem put_eq_map {t : Table key} {r r' : R} (h : t.get? (key r) = some r') :
    t.put r = t.map (fun x => if key x = key r then r else x) (fun x => by
      split_ifs with hk
      · exact hk.symm
      · rfl) :=
  ext (rows_put_of_some h)

/-- What the new row shares with the old one, the rows share. -/
theorem map_put_of_some {S : Type} {t : Table key} {r old : R} (g : R → S) (h : t.get? (key r) = some old)
    (hg : g r = g old) : (t.put r).rows.map g = t.rows.map g := by
  rw [put_eq_map h, rows_map, List.map_map]
  refine List.map_congr_left fun x hx => ?_
  simp only [Function.comp_def]
  split_ifs with hk
  · have hkey := key_of_get? h
    rw [eq_of_mem hx (mem_of_get? h) (hk.trans hkey.symm), hg]
  · rfl

/-- Rows written alike. -/
theorem putRows_map {R' : Type} {key' : R' → K} {f : R → R'} (hf : ∀ r, key' (f r) = key r) (r : R)
    (xs : List R) : putRows key' (f r) (xs.map f) = (putRows key r xs).map f := by
  induction xs with
  | nil => rfl
  | cons x xs ih =>
    simp only [List.map_cons, putRows, hf]
    split_ifs
    · rfl
    · rw [ih, List.map_cons]

theorem get?_of_rows_map {R' : Type} {key' : R' → K} {f : R → R'} (hf : ∀ r, key' (f r) = key r)
    {t : Table key} {t' : Table key'} (h : t'.rows = t.rows.map f) (k : K) :
    t'.get? k = (t.get? k).map f := by
  simp only [get?, h, List.find?_map, Function.comp_def, hf]

/-- New sum plus the replaced row's share is the old sum plus the new row's share. -/
theorem sum_put {M : Type} [AddCommMonoid M] (f : R → M) (t : Table key) (r : R) :
    ((t.put r).rows.map f).sum + ((t.get? (key r)).map f).getD 0 = (t.rows.map f).sum + f r := by
  simp only [put, get?]
  induction t.rows with
  | nil => simp [putRows]
  | cons y ys ih =>
    by_cases hy : key y = key r
    · simp only [putRows, hy, if_true, List.map_cons, List.sum_cons, decide_true, List.find?_cons_of_pos,
        Option.map_some, Option.getD_some]
      rw [add_right_comm, add_comm (f r), add_comm (f y)]
      simp only [add_assoc, add_comm]
    · simp only [putRows, hy, if_false, List.map_cons, List.sum_cons, decide_false, List.find?_cons_of_neg,
        Bool.false_eq_true, not_false_eq_true, add_assoc, ih]

theorem sumWhere_put_of_none {M : Type} [AddCommMonoid M] {t : Table key} {r : R} (p : R → Bool)
    (f : R → M) (h : t.get? (key r) = none) :
    (t.put r).sumWhere p f = t.sumWhere p f + if p r then f r else 0 := by
  simpa [sumWhere_eq, h] using t.sum_put (fun r => if p r then f r else 0) r

theorem sumWhere_put_of_some {M : Type} [AddCommGroup M] {t : Table key} {r r' : R} (p : R → Bool)
    (f : R → M) (h : t.get? (key r) = some r') :
    (t.put r).sumWhere p f =
      t.sumWhere p f - (if p r' then f r' else 0) + if p r then f r else 0 := by
  have hs := t.sum_put (fun r => if p r then f r else 0) r
  simp only [h, Option.map_some, Option.getD_some] at hs
  rw [sumWhere_eq, sumWhere_eq, sub_add_eq_add_sub, ← hs, add_sub_cancel_right]

/-- A write outside the filter, over nothing the filter keeps, leaves the filtered rows alone. -/
theorem filter_put_of_not {p : R → Bool} {t : Table key} {r : R} (hr : p r = false)
    (hold : ∀ r', t.get? (key r) = some r' → p r' = false) :
    (t.put r).rows.filter p = t.rows.filter p := by
  simp only [put, get?] at hold ⊢
  revert hold
  induction t.rows with
  | nil => simp [putRows, hr]
  | cons y ys ih =>
    intro hold
    by_cases hy : key y = key r
    · have hpy : p y = false := hold y (by simp [hy])
      simp [putRows, hy, hr, hpy]
    · have := ih (fun r' h => hold r' (by simpa [hy] using h))
      simp only [putRows, hy, if_false, List.filter_cons, this]

theorem filter_put_of_none {p : R → Bool} {t : Table key} {r : R} (h : t.get? (key r) = none)
    (hr : p r = true) : (t.put r).rows.filter p = t.rows.filter p ++ [r] := by
  simp [rows_put_of_none h, hr]

/-- Rows picked by their key are picked alike before and after a write. -/
theorem filter_put_of_key {q : K → Bool} (t : Table key) (r : R) :
    (t.put r).rows.filter (fun x => q (key x)) =
      if q (key r) then putRows key r (t.rows.filter fun x => q (key x))
      else t.rows.filter fun x => q (key x) := by
  simp only [put]
  induction t.rows with
  | nil => by_cases hr : q (key r) <;> simp [putRows, hr]
  | cons y ys ih =>
    by_cases hy : key y = key r
    · by_cases hr : q (key r) <;> simp [putRows, hy, hr]
    · by_cases hr : q (key r) <;> by_cases hqy : q (key y) <;> simp_all [putRows]

theorem countP_putRows_le {p q : R → Bool} {r : R} {xs : List R} (hnodup : (xs.map key).Nodup)
    (h : ∀ x ∈ xs, key x ≠ key r → p x = true → q x = true) :
    (putRows key r xs).countP p ≤ xs.countP q + 1 := by
  induction xs with
  | nil => exact List.countP_le_length
  | cons y ys ih =>
    obtain ⟨hy, hnodup⟩ := List.nodup_cons.mp hnodup
    have hys : ∀ x ∈ ys, key x ≠ key r → p x = true →
        q x = true := fun x hx => h x (List.mem_cons_of_mem _ hx)
    by_cases hkey : key y = key r
    · have hrest : ys.countP p ≤ ys.countP q := by
        refine List.countP_mono_left fun x hx => hys x hx fun hx' => hy ?_
        rw [hkey, ← hx']
        exact List.mem_map_of_mem hx
      simp only [putRows, hkey, if_true, List.countP_cons]
      split_ifs <;> omega
    · have hrest := ih hnodup hys
      have hhead : p y = true → q y = true := h y List.mem_cons_self hkey
      simp only [putRows, hkey, if_false, List.countP_cons]
      by_cases hpy : p y = true
      · simp only [hpy, hhead hpy, if_true]
        omega
      · simp only [hpy, Bool.false_eq_true, if_false]
        omega

/-- A write adds at most its own row to a count that the other rows do not enter anew. -/
theorem countP_put_le {p q : R → Bool} {t : Table key} {r : R}
    (h : ∀ x ∈ t.rows, key x ≠ key r → p x = true → q x = true) :
    (t.put r).rows.countP p ≤ t.rows.countP q + 1 := countP_putRows_le t.nodup h

/-- A row written over adds nothing if it was counted before. -/
theorem countP_put_le_of_some {p q : R → Bool} {t : Table key} {r r' : R} (hget : t.get? (key r) = some r')
    (h : ∀ x ∈ t.rows, key x ≠ key r → p x = true → q x = true) (hr : p r = true → q r' = true) :
    (t.put r).rows.countP p ≤ t.rows.countP q := by
  rw [rows_put_of_some hget, List.countP_map]
  refine List.countP_mono_left fun x hx hp => ?_
  by_cases hkey : key x = key r
  · have hsame : x = r' := eq_of_mem hx (mem_of_get? hget) (hkey.trans (key_of_get? hget).symm)
    simp only [Function.comp_def, hkey, if_true] at hp
    rw [hsame]
    exact hr hp
  · simp only [Function.comp_def, hkey, if_false] at hp
    exact h x hx hkey hp

/-- The rows whose key satisfies `q`. -/
def restrict (t : Table key) (q : K → Bool) : Table key :=
  ⟨t.rows.filter fun r => q (key r), (List.filter_sublist.map _).nodup t.nodup⟩

omit [DecidableEq K] in
theorem mem_restrict {t : Table key} {q : K → Bool} {r : R} :
    r ∈ (t.restrict q).rows ↔ r ∈ t.rows ∧ q (key r) = true := List.mem_filter

theorem get?_restrict (t : Table key) {q : K → Bool} {k : K} (hk : q k = true) :
    (t.restrict q).get? k = t.get? k := by
  cases h : t.get? k with
  | none =>
    rw [get?_eq_none_iff] at h ⊢
    exact fun r hr => h r (mem_restrict.mp hr).1
  | some r =>
    have hmem := mem_of_get? h
    have hkey := key_of_get? h
    rw [get?_eq_some_iff]
    exact ⟨mem_restrict.mpr ⟨hmem, by rw [hkey, hk]⟩, hkey⟩

theorem get?_restrict_none {t : Table key} {k : K} (q : K → Bool) (h : t.get? k = none) :
    (t.restrict q).get? k = none := by
  rw [get?_eq_none_iff] at h ⊢
  exact fun r hr => h r (mem_restrict.mp hr).1

theorem restrict_put (t : Table key) {q : K → Bool} {r : R} (hr : q (key r) = true) :
    (t.put r).restrict q = (t.restrict q).put r := by
  have h := filter_put_of_key (q := q) t r
  rw [if_pos hr] at h
  exact ext h

/-- The sum over the rows of one key is that of its row. -/
theorem sumWhere_key {M : Type} [AddCommMonoid M] {t : Table key} {k : K} {r : R} (f : R → M)
    (h : t.get? k = some r) : t.sumWhere (fun x => key x = k) f = f r := by
  have hkey := key_of_get? h
  obtain ⟨before, after, hrows⟩ := List.append_of_mem (mem_of_get? h)
  have hnodup := t.nodup
  rw [hrows, List.map_append, List.map_cons, List.nodup_middle, List.nodup_cons] at hnodup
  have hother : ∀ x ∈ before ++ after, key x ≠ k := by
    intro x hx hk
    have hx' := List.mem_map_of_mem (f := key) hx
    rw [List.map_append, hk, ← hkey] at hx'
    exact hnodup.1 hx'
  have hbefore : before.filter (fun x => key x = k) = [] := List.filter_eq_nil_iff.mpr fun x hx => by
    simpa using hother x (List.mem_append_left _ hx)
  have hafter : after.filter (fun x => key x = k) = [] := List.filter_eq_nil_iff.mpr fun x hx => by
    simpa using hother x (List.mem_append_right _ hx)
  simp [sumWhere, hrows, hbefore, hafter, hkey]

end Table

end KenkuiServer.Txn
