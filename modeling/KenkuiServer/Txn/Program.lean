import Mathlib.Tactic.Common

/-! Programs that issue one statement at a time against a store, and their execution as one
atomic transaction. A statement lists the rows it writes, so that the same program can also be
run with its writes held back until it commits (`ReadCommitted`). -/
namespace KenkuiServer.Txn

/-- How a write changes the store, and which row a writer has to lock for it. -/
class Store (D : Type) (W K : outParam Type) where
  apply : W → D → D
  key : W → K

export Store (apply)

section
variable {D W K : Type} [Store D W K]

def applyAll (ws : List W) (d : D) : D := ws.foldl (fun d w => apply w d) d

@[simp] theorem applyAll_nil (d : D) : applyAll ([] : List W) d = d := rfl

@[simp] theorem applyAll_cons (w : W) (ws : List W) (d : D) :
    applyAll (w :: ws) d = applyAll ws (apply w d) := rfl

@[simp] theorem applyAll_append (ws ws' : List W) (d : D) :
    applyAll (ws ++ ws') d = applyAll ws' (applyAll ws d) := List.foldl_append

/-- What every write of a list keeps, the whole list keeps. -/
theorem applyAll_keeps {I : D → Prop} {P : W → Prop} (h : ∀ w, P w → ∀ d, I d → I (apply w d))
    {ws : List W} (hws : ∀ w ∈ ws, P w) {d : D} (hd : I d) : I (applyAll ws d) := by
  induction ws generalizing d with
  | nil => exact hd
  | cons w ws ih =>
    exact ih (fun w' hw' => hws w' (List.mem_cons_of_mem _ hw')) (h w (hws w List.mem_cons_self) d hd)

end

/-- One statement. `exec` answers or fails on the store it sees and lists its writes; `lock` names
the rows it locks without writing them. -/
structure Stmt (D W K E β : Type) where
  exec : D → Except E (β × List W)
  lock : D → List K := fun _ => []

namespace Stmt

variable {D W K E β : Type}

/-- The rows a statement needs: those it asks for and those it writes. -/
def locks [Store D W K] (s : Stmt D W K E β) (d : D) : List K :=
  s.lock d ++ match s.exec d with
    | .ok (_, ws) => ws.map (Store.key D)
    | .error _ => []

/-- A plain `SELECT`. -/
def select (f : D → β) : Stmt D W K E β := { exec := fun d => .ok (f d, []) }

/-- A `SELECT ... FOR UPDATE` of at most one row. -/
def selectForUpdate (k : K) (f : D → Option β) : Stmt D W K E (Option β) :=
  { exec := fun d => .ok (f d, []), lock := fun d => if (f d).isSome then [k] else [] }

/-- An `UPDATE` of at most one row; the answer is its row count. -/
def update (f : D → Except E (Option W)) : Stmt D W K E ℕ :=
  { exec := fun d =>
      match f d with
      | .ok (some w) => .ok (1, [w])
      | .ok none => .ok (0, [])
      | .error e => .error e }

/-- An `INSERT`: it fails, or writes `w` and locks the unique keys `ks` beside the row itself. -/
def insert (w : W) (ks : List K) (f : D → Except E Unit) : Stmt D W K E Unit :=
  { exec := fun d =>
      match f d with
      | .ok () => .ok ((), [w])
      | .error e => .error e
    lock := fun _ => ks }

/-- Every write the statement can issue satisfies `P`, and every error it can raise satisfies `Q`. -/
def Emits (P : W → Prop) (Q : E → Prop) (s : Stmt D W K E β) : Prop :=
  ∀ d, match s.exec d with
    | .ok (_, ws) => ∀ w ∈ ws, P w
    | .error e => Q e

section
variable {P : W → Prop} {Q : E → Prop}

@[simp] theorem emits_select (f : D → β) : (select f : Stmt D W K E β).Emits P Q := by
  intro d
  simp [select]

@[simp] theorem emits_selectForUpdate (k : K) (f : D → Option β) :
    (selectForUpdate k f : Stmt D W K E (Option β)).Emits P Q := by
  intro d
  simp [selectForUpdate]

theorem emits_update {f : D → Except E (Option W)}
    (h : ∀ d, match f d with
      | .ok (some w) => P w
      | .ok none => True
      | .error e => Q e) : (update f : Stmt D W K E ℕ).Emits P Q := by
  intro d
  have hd := h d
  simp only [update]
  rcases hf : f d with e | _ | w <;> simp_all

theorem emits_insert {w : W} {ks : List K} {f : D → Except E Unit} (hw : P w)
    (h : ∀ d e, f d = .error e → Q e) : (insert w ks f : Stmt D W K E Unit).Emits P Q := by
  intro d
  simp only [insert]
  cases hf : f d with
  | error e => exact h d e hf
  | ok u => simp [hw]

end

end Stmt

inductive Prog (D W K E α : Type) : Type 1
  | ret (a : α)
  | raise (e : E)
  | step {β : Type} (s : Stmt D W K E β) (k : β → Prog D W K E α)

namespace Prog

variable {D W K E α β γ : Type}

def bind : Prog D W K E α → (α → Prog D W K E β) → Prog D W K E β
  | .ret a, f => f a
  | .raise e, _ => .raise e
  | .step s k, f => .step s fun b => (k b).bind f

instance : Monad (Prog D W K E) where
  pure := .ret
  bind := bind

@[simp] theorem pure_def (a : α) : (pure a : Prog D W K E α) = .ret a := rfl

@[simp] theorem ret_bind (a : α) (f : α → Prog D W K E β) : (Prog.ret a >>= f) = f a := rfl

@[simp] theorem raise_bind (e : E) (f : α → Prog D W K E β) : (Prog.raise e >>= f) = .raise e := rfl

@[simp] theorem step_bind (s : Stmt D W K E γ) (k : γ → Prog D W K E α) (f : α → Prog D W K E β) :
    (Prog.step s k >>= f) = .step s fun b => k b >>= f := rfl

theorem bind_ret (p : Prog D W K E α) : (p >>= Prog.ret) = p := by
  induction p with
  | ret a => rfl
  | raise e => rfl
  | step s k ih => simp only [step_bind, ih]

theorem bind_bind (p : Prog D W K E α) (f : α → Prog D W K E β) (g : β → Prog D W K E γ) :
    (p >>= f >>= g) = p >>= fun a => f a >>= g := by
  induction p with
  | ret a => rfl
  | raise e => rfl
  | step s k ih => simp only [step_bind, ih]

instance : LawfulMonad (Prog D W K E) :=
  LawfulMonad.mk' _ (fun p => bind_ret p) (fun _ _ => rfl) bind_bind

/-- `if c: raise e`. -/
def raiseIf (c : Prop) [Decidable c] (e : E) : Prog D W K E Unit := if c then .raise e else .ret ()

@[simp] theorem raiseIf_bind (c : Prop) [Decidable c] (e : E) (f : Unit → Prog D W K E α) :
    (raiseIf c e >>= f) = if c then .raise e else f () := by
  unfold raiseIf
  split_ifs <;> rfl

/-- Run a program alone, as one transaction: every statement sees the writes before it. -/
def run [Store D W K] : Prog D W K E α → D → Except E (α × D)
  | .ret a, d => .ok (a, d)
  | .raise e, _ => .error e
  | .step s k, d =>
    match s.exec d with
    | .ok (b, ws) => (k b).run (applyAll ws d)
    | .error e => .error e

section
variable [Store D W K]

@[simp] theorem run_ret (a : α) (d : D) : (Prog.ret a : Prog D W K E α).run d = .ok (a, d) := rfl

@[simp] theorem run_raise (e : E) (d : D) : (Prog.raise e : Prog D W K E α).run d = .error e := rfl

theorem run_step (s : Stmt D W K E β) (k : β → Prog D W K E α) (d : D) :
    (Prog.step s k).run d =
      match s.exec d with
      | .ok (b, ws) => (k b).run (applyAll ws d)
      | .error e => .error e := by
  rw [run]

@[simp] theorem run_mk (exec : D → Except E (β × List W)) (lock : D → List K) (k : β → Prog D W K E α)
    (d : D) :
    (Prog.step ⟨exec, lock⟩ k).run d =
      match exec d with
      | .ok (b, ws) => (k b).run (applyAll ws d)
      | .error e => .error e :=
  run_step _ k d

@[simp] theorem run_select (f : D → β) (k : β → Prog D W K E α) (d : D) :
    (Prog.step (.select f) k).run d = (k (f d)).run d := by
  simp [run_step, Stmt.select]

@[simp] theorem run_selectForUpdate (key : K) (f : D → Option β) (k : Option β → Prog D W K E α)
    (d : D) : (Prog.step (.selectForUpdate key f) k).run d = (k (f d)).run d := by
  simp [run_step, Stmt.selectForUpdate]

@[simp] theorem run_update (f : D → Except E (Option W)) (k : ℕ → Prog D W K E α) (d : D) :
    (Prog.step (.update f) k).run d =
      match f d with
      | .ok (some w) => (k 1).run (apply w d)
      | .ok none => (k 0).run d
      | .error e => .error e := by
  simp only [run_step, Stmt.update]
  rcases f d with e | _ | w <;> rfl

@[simp] theorem run_insert (w : W) (ks : List K) (f : D → Except E Unit) (k : Unit → Prog D W K E α)
    (d : D) :
    (Prog.step (.insert w ks f) k).run d =
      match f d with
      | .ok () => (k ()).run (apply w d)
      | .error e => .error e := by
  simp only [run_step, Stmt.insert]
  rcases f d with e | u <;> rfl

theorem run_bind (p : Prog D W K E α) (f : α → Prog D W K E β) (d : D) :
    (p >>= f).run d =
      match p.run d with
      | .ok (a, d') => (f a).run d'
      | .error e => .error e := by
  induction p generalizing d with
  | ret a => rfl
  | raise e => rfl
  | step s k ih =>
    simp only [step_bind, run_step]
    cases s.exec d with
    | error e => rfl
    | ok r => exact ih r.1 _

theorem run_bind_ok {p : Prog D W K E α} {f : α → Prog D W K E β} {d d' : D} {b : β}
    (h : (p >>= f).run d = .ok (b, d')) : ∃ a d₁, p.run d = .ok (a, d₁) ∧ (f a).run d₁ = .ok (b, d') := by
  rw [run_bind] at h
  cases hp : p.run d with
  | error e => simp [hp] at h
  | ok r => exact ⟨r.1, r.2, rfl, by simpa [hp] using h⟩

theorem run_map_ok {p : Prog D W K E α} {f : α → β} {d d' : D} {b : β}
    (h : (p >>= fun a => pure (f a)).run d = .ok (b, d')) : ∃ a, p.run d = .ok (a, d') ∧ f a = b := by
  obtain ⟨a, d₁, hp, hret⟩ := run_bind_ok h
  cases hret
  exact ⟨a, hp, rfl⟩

theorem run_raiseIf_ok {c : Prop} [Decidable c] {e : E} {f : Unit → Prog D W K E α} {d d' : D} {a : α}
    (h : (raiseIf c e >>= f).run d = .ok (a, d')) : ¬ c ∧ (f ()).run d = .ok (a, d') := by
  rw [raiseIf_bind] at h
  split_ifs at h with hc
  · simp at h
  · exact ⟨hc, h⟩

/-- A transaction around a program: it commits, or raises and leaves the store as it was. -/
def transaction (p : Prog D W K E α) (d : D) : Except E α × D :=
  match p.run d with
  | .ok (a, d') => (.ok a, d')
  | .error e => (.error e, d)

theorem transaction_of_ok {p : Prog D W K E α} {d d' : D} {a : α} (h : p.run d = .ok (a, d')) :
    p.transaction d = (.ok a, d') := by
  simp [transaction, h]

theorem transaction_of_error {p : Prog D W K E α} {d : D} {e : E} (h : p.run d = .error e) :
    p.transaction d = (.error e, d) := by
  simp [transaction, h]

end

/-- Every write a program can issue satisfies `P`, and every error it can raise satisfies `Q`. -/
def Emits (P : W → Prop) (Q : E → Prop) : Prog D W K E α → Prop
  | .ret _ => True
  | .raise e => Q e
  | .step s k => s.Emits P Q ∧ ∀ b, (k b).Emits P Q

/-- A run that ended well ended in `I`, and one that failed did so with an error in `Q`. -/
def Ends (I : D → Prop) (Q : E → Prop) : Except E (α × D) → Prop
  | .ok (_, d) => I d
  | .error e => Q e

/-- The program keeps an invariant, and every error it raises satisfies `Q`. -/
def Keeps [Store D W K] (I : D → Prop) (Q : E → Prop) (p : Prog D W K E α) : Prop :=
  ∀ d, I d → Ends I Q (p.run d)

section
variable {P : W → Prop} {Q : E → Prop}

@[simp] theorem ends_ok {I : D → Prop} (a : α) (d : D) : Ends I Q (.ok (a, d)) ↔ I d := Iff.rfl

@[simp] theorem ends_error {I : D → Prop} (e : E) :
    Ends I Q (.error e : Except E (α × D)) ↔ Q e := Iff.rfl

@[simp] theorem emits_ret (a : α) : (Prog.ret a : Prog D W K E α).Emits P Q := trivial

@[simp] theorem emits_raise (e : E) : (Prog.raise e : Prog D W K E α).Emits P Q ↔ Q e := Iff.rfl

@[simp] theorem emits_raiseIf (c : Prop) [Decidable c] (e : E) :
    (raiseIf c e : Prog D W K E Unit).Emits P Q ↔ (c → Q e) := by
  unfold raiseIf
  split_ifs with h <;> simp [h]

@[simp] theorem emits_step (s : Stmt D W K E β) (k : β → Prog D W K E α) :
    (Prog.step s k).Emits P Q ↔ s.Emits P Q ∧ ∀ b, (k b).Emits P Q := Iff.rfl

theorem Emits.bind {p : Prog D W K E α} {f : α → Prog D W K E β} (hp : p.Emits P Q)
    (hf : ∀ a, (f a).Emits P Q) : (p >>= f).Emits P Q := by
  induction p with
  | ret a => exact hf a
  | raise e => exact hp
  | step s k ih => exact ⟨hp.1, fun b => ih b (hp.2 b)⟩

theorem Emits.imp {P' : W → Prop} {Q' : E → Prop} {p : Prog D W K E α} (h : p.Emits P Q)
    (hP : ∀ w, P w → P' w) (hQ : ∀ e, Q e → Q' e) : p.Emits P' Q' := by
  induction p with
  | ret a => trivial
  | raise e => exact hQ e h
  | step s k ih =>
    refine ⟨fun d => ?_, fun b => ih b (h.2 b)⟩
    have hs := h.1 d
    revert hs
    cases s.exec d with
    | error e => exact hQ e
    | ok r => exact fun hs w hw => hP w (hs w hw)

variable [Store D W K] {I : D → Prop}

/-- What every permitted write keeps, the program keeps. -/
theorem Emits.keeps {p : Prog D W K E α} (hp : p.Emits P Q) (hI : ∀ w, P w → ∀ d, I d → I (apply w d)) :
    p.Keeps I Q := by
  induction p with
  | ret a => exact fun d hd => hd
  | raise e => exact fun d _ => hp
  | step s k ih =>
    intro d hd
    have hs := hp.1 d
    rw [run_step]
    cases h : s.exec d with
    | error e => simpa [h] using hs
    | ok r =>
      simp only [h] at hs
      exact ih r.1 (hp.2 r.1) _ (applyAll_keeps hI hs hd)

theorem Keeps.bind {p : Prog D W K E α} {f : α → Prog D W K E β} (hp : p.Keeps I Q)
    (hf : ∀ a, (f a).Keeps I Q) : (p >>= f).Keeps I Q := by
  intro d hd
  have h := hp d hd
  rw [run_bind]
  cases hr : p.run d with
  | error e => simpa [hr] using h
  | ok r =>
    simp only [hr] at h
    exact hf r.1 r.2 h

theorem keeps_ret (a : α) : (.ret a : Prog D W K E α).Keeps I Q := fun _ hd => hd

theorem keeps_raiseIf {c : Prop} [Decidable c] {e : E} (he : Q e) :
    (raiseIf c e : Prog D W K E Unit).Keeps I Q := by
  intro d hd
  unfold raiseIf
  split_ifs
  · exact he
  · exact hd

theorem Keeps.imp {Q' : E → Prop} {p : Prog D W K E α} (h : p.Keeps I Q) (hQ : ∀ e, Q e → Q' e) :
    p.Keeps I Q' := by
  intro d hd
  have hends := h d hd
  revert hends
  cases p.run d with
  | error e => exact hQ e
  | ok r => exact id

/-- Frame rule: what no permitted write changes, the program does not change. -/
theorem Emits.frame {V : Type} {p : Prog D W K E α} (hp : p.Emits P Q) (f : D → V)
    (hf : ∀ w, P w → ∀ d, f (apply w d) = f d) {d d' : D} {a : α} (h : p.run d = .ok (a, d')) :
    f d' = f d := by
  have hk := hp.keeps (I := fun x => f x = f d) (fun w hw x hx => (hf w hw x).trans hx) d rfl
  simpa [h] using hk

end

end Prog

/-- A statement issued by a program. -/
def Stmt.issue {D W K E β : Type} (s : Stmt D W K E β) : Prog D W K E β := .step s .ret

section
variable {D W K E α β : Type}

@[simp] theorem issue_bind (s : Stmt D W K E β) (f : β → Prog D W K E α) :
    (s.issue >>= f) = .step s f := rfl

theorem Prog.run_step_ok [Store D W K] {s : Stmt D W K E β} {k : β → Prog D W K E α} {d d' : D} {a : α}
    (h : (Prog.step s k).run d = .ok (a, d')) :
    ∃ b d₁, s.issue.run d = .ok (b, d₁) ∧ (k b).run d₁ = .ok (a, d') :=
  Prog.run_bind_ok (p := s.issue) h

theorem emits_issue {P : W → Prop} {Q : E → Prop} {s : Stmt D W K E β} (hs : s.Emits P Q) :
    s.issue.Emits P Q := ⟨hs, fun _ => trivial⟩

@[simp] theorem run_issue [Store D W K] (s : Stmt D W K E β) (d : D) :
    s.issue.run d = (s.exec d).map fun r => (r.1, applyAll r.2 d) := by
  simp only [Stmt.issue, Prog.run_step]
  cases s.exec d <;> rfl

end

namespace Prog

variable {D W K E α β : Type} [Store D W K] {f : D → D} {I : D → Prop} {P : W → Prop} {Q : E → Prop}

/-- In the stores of `I`, which it keeps, the program neither reads nor writes what `f` replaces. -/
def Oblivious (I : D → Prop) (f : D → D) (p : Prog D W K E α) : Prop :=
  ∀ d, I d → p.run (f d) = (p.run d).map (fun r => (r.1, f r.2)) ∧ ∀ a d', p.run d = .ok (a, d') → I d'

theorem oblivious_ret (a : α) : (Prog.ret a : Prog D W K E α).Oblivious I f := by
  intro d hd
  refine ⟨rfl, fun a' d' h => ?_⟩
  cases h
  exact hd

theorem oblivious_raise (e : E) : (Prog.raise e : Prog D W K E α).Oblivious I f := by
  intro d _
  refine ⟨rfl, fun a d' h => ?_⟩
  cases h

theorem oblivious_raiseIf (c : Prop) [Decidable c] (e : E) :
    (raiseIf c e : Prog D W K E Unit).Oblivious I f := by
  unfold raiseIf
  split_ifs
  · exact oblivious_raise e
  · exact oblivious_ret ()

theorem Oblivious.bind {p : Prog D W K E α} {g : α → Prog D W K E β} (hp : p.Oblivious I f)
    (hg : ∀ a, (g a).Oblivious I f) : (p >>= g).Oblivious I f := by
  intro d hd
  obtain ⟨hsame, hkept⟩ := hp d hd
  rw [run_bind, run_bind, hsame]
  cases hrun : p.run d with
  | error e =>
    refine ⟨rfl, fun a d' h => ?_⟩
    cases h
  | ok r => exact hg r.1 r.2 (hkept _ _ hrun)

theorem applyAll_comm (hP : ∀ w, P w → ∀ d, apply w (f d) = f (apply w d)) {ws : List W}
    (hws : ∀ w ∈ ws, P w) (d : D) : applyAll ws (f d) = f (applyAll ws d) := by
  induction ws generalizing d with
  | nil => rfl
  | cons w ws ih =>
    have hrest : ∀ w' ∈ ws, P w' := fun w' hw' => hws w' (List.mem_cons_of_mem _ hw')
    rw [applyAll_cons, applyAll_cons, hP w (hws w List.mem_cons_self)]
    exact ih hrest _

theorem applyAll_keeps (hI : ∀ w, P w → ∀ d, I d → I (apply w d)) {ws : List W} (hws : ∀ w ∈ ws, P w) {d : D}
    (hd : I d) : I (applyAll ws d) := by
  induction ws generalizing d with
  | nil => exact hd
  | cons w ws ih =>
    rw [applyAll_cons]
    exact ih (fun w' hw' => hws w' (List.mem_cons_of_mem _ hw')) (hI w (hws w List.mem_cons_self) d hd)

/-- A statement whose answer and writes do not depend on what `f` replaces. -/
theorem oblivious_issue {s : Stmt D W K E β} (hexec : ∀ d, I d → s.exec (f d) = s.exec d)
    (hs : s.Emits P Q) (hP : ∀ w, P w → ∀ d, apply w (f d) = f (apply w d))
    (hI : ∀ w, P w → ∀ d, I d → I (apply w d)) : s.issue.Oblivious I f := by
  intro d hd
  have hwrites := hs d
  rw [run_issue, run_issue, hexec d hd]
  cases h : s.exec d with
  | error e =>
    refine ⟨rfl, fun a d' hrun => ?_⟩
    cases hrun
  | ok r =>
    rw [h] at hwrites
    constructor
    · simp only [Except.map, applyAll_comm hP hwrites d]
    · intro a d' hrun
      cases hrun
      exact applyAll_keeps hI hwrites hd

end Prog

end KenkuiServer.Txn
