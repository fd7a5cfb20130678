import KenkuiServer.Txn.Program

/-! Programs whose writes are checked: a statement that would write what the store does not take raises
instead. -/
namespace KenkuiServer.Txn

variable {D W K E α β : Type}

/-- The statement on a store that takes the writes which pass a check. -/
def Stmt.checked (takes : W → Bool) (e : E) (s : Stmt D W K E β) : Stmt D W K E β where
  exec d :=
    match s.exec d with
    | .ok (b, ws) => if ws.all takes then .ok (b, ws) else .error e
    | .error e' => .error e'
  lock := s.lock

namespace Prog

def checked (takes : W → Bool) (e : E) : Prog D W K E α → Prog D W K E α
  | .ret a => .ret a
  | .raise e' => .raise e'
  | .step s k => .step (s.checked takes e) fun b => (k b).checked takes e

variable [Store D W K] {takes : W → Bool}

/-- All that the program writes when it runs on a store passes the check. -/
def Within (takes : W → Bool) : Prog D W K E α → D → Prop
  | .ret _, _ => True
  | .raise _, _ => True
  | .step s k, d =>
    match s.exec d with
    | .ok (b, ws) => (∀ w ∈ ws, takes w) ∧ (k b).Within takes (applyAll ws d)
    | .error _ => True

@[simp] theorem within_ret (a : α) (d : D) : (Prog.ret a : Prog D W K E α).Within takes d := trivial

@[simp] theorem within_raise (e : E) (d : D) : (Prog.raise e : Prog D W K E α).Within takes d := trivial

theorem within_step (s : Stmt D W K E β) (k : β → Prog D W K E α) (d : D) :
    (Prog.step s k).Within takes d ↔
      match s.exec d with
      | .ok (b, ws) => (∀ w ∈ ws, takes w) ∧ (k b).Within takes (applyAll ws d)
      | .error _ => True := by
  rw [Within]

@[simp] theorem within_select (f : D → β) (k : β → Prog D W K E α) (d : D) :
    (Prog.step (.select f) k).Within takes d ↔ (k (f d)).Within takes d := by
  simp [within_step, Stmt.select]

@[simp] theorem within_selectForUpdate (key : K) (f : D → Option β) (k : Option β → Prog D W K E α) (d : D) :
    (Prog.step (.selectForUpdate key f) k).Within takes d ↔ (k (f d)).Within takes d := by
  simp [within_step, Stmt.selectForUpdate]

@[simp] theorem within_update (f : D → Except E (Option W)) (k : ℕ → Prog D W K E α) (d : D) :
    (Prog.step (.update f) k).Within takes d ↔
      match f d with
      | .ok (some w) => takes w ∧ (k 1).Within takes (apply w d)
      | .ok none => (k 0).Within takes d
      | .error _ => True := by
  simp only [within_step, Stmt.update]
  rcases f d with e | _ | w <;> simp

@[simp] theorem within_insert (w : W) (ks : List K) (f : D → Except E Unit)
    (k : Unit → Prog D W K E α) (d : D) :
    (Prog.step (.insert w ks f) k).Within takes d ↔
      match f d with
      | .ok () => takes w ∧ (k ()).Within takes (apply w d)
      | .error _ => True := by
  simp only [within_step, Stmt.insert]
  rcases f d with e | u <;> simp

/-- Where all writes pass, the check makes no difference. -/
theorem Within.run_checked {p : Prog D W K E α} {d : D} (h : p.Within takes d) (e : E) :
    (p.checked takes e).run d = p.run d := by
  induction p generalizing d with
  | ret a => rfl
  | raise e' => rfl
  | step s k ih =>
    rw [within_step] at h
    simp only [checked, run_step, Stmt.checked]
    cases hexec : s.exec d with
    | error e' => rfl
    | ok r =>
      rw [hexec] at h
      have hall : r.2.all takes = true := List.all_eq_true.mpr h.1
      simp only [hall, if_true]
      exact ih r.1 h.2

theorem Within.bind {p : Prog D W K E α} {f : α → Prog D W K E β} {d : D} (hp : p.Within takes d)
    (hf : ∀ a d', p.run d = .ok (a, d') → (f a).Within takes d') : (p >>= f).Within takes d := by
  induction p generalizing d with
  | ret a => exact hf a d rfl
  | raise e => trivial
  | step s k ih =>
    rw [step_bind, within_step]
    rw [within_step] at hp
    cases hexec : s.exec d with
    | error e => trivial
    | ok r =>
      rw [hexec] at hp
      refine ⟨hp.1, ih r.1 hp.2 fun a d' hrun => hf a d' ?_⟩
      rw [run_step, hexec]
      exact hrun

/-- A program whose every write passes. -/
theorem Emits.within {P : W → Prop} {Q : E → Prop} {p : Prog D W K E α} (h : p.Emits P Q)
    (hP : ∀ w, P w → takes w) (d : D) : p.Within takes d := by
  induction p generalizing d with
  | ret a => trivial
  | raise e => trivial
  | step s k ih =>
    have hs := h.1 d
    rw [within_step]
    cases hexec : s.exec d with
    | error e => trivial
    | ok r =>
      rw [hexec] at hs
      exact ⟨fun w hw => hP w (hs w hw), ih r.1 (h.2 r.1) _⟩

/-- What every write that passes keeps, the run keeps. -/
theorem Within.keeps {I : D → Prop} (hI : ∀ w, takes w → ∀ d, I d → I (apply w d)) {p : Prog D W K E α}
    {d d' : D} {a : α} (h : p.Within takes d) (hd : I d) (hrun : p.run d = .ok (a, d')) : I d' := by
  induction p generalizing d with
  | ret a => cases hrun; exact hd
  | raise e => cases hrun
  | step s k ih =>
    rw [within_step] at h
    rw [run_step] at hrun
    cases hexec : s.exec d with
    | error e => simp [hexec] at hrun
    | ok r =>
      rw [hexec] at h hrun
      exact ih r.1 h.2 (applyAll_keeps (P := fun w => takes w) hI h.1 hd) hrun

end Prog

end KenkuiServer.Txn
