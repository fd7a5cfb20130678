import KenkuiServer.Txn.Program

/-! Programs run alone: what one transaction ends with, and runs of calls one after the other. -/
namespace KenkuiServer.Txn

namespace Prog
variable {D W K E α β : Type} [Store D W K]

/-- Run alone on `d`, the program returns what `Post` says, or raises an error in `Q`. -/
def Outcome (Q : E → Prop) (Post : α → D → Prop) (p : Prog D W K E α) (d : D) : Prop :=
  match p.run d with
  | .ok (a, d') => Post a d'
  | .error e => Q e

variable {Q : E → Prop} {Post : α → D → Prop} {d : D}

theorem Outcome.of_ok {p : Prog D W K E α} (h : p.Outcome Q Post d) {a : α} {d' : D}
    (hrun : p.run d = .ok (a, d')) : Post a d' := by
  unfold Outcome at h
  rwa [hrun] at h

theorem Outcome.of_error {p : Prog D W K E α} (h : p.Outcome Q Post d) {e : E}
    (hrun : p.run d = .error e) : Q e := by
  unfold Outcome at h
  rwa [hrun] at h

theorem Outcome.imp {Q' : E → Prop} {Post' : α → D → Prop} {p : Prog D W K E α} (h : p.Outcome Q Post d)
    (hQ : ∀ e, Q e → Q' e) (hPost : ∀ a d', Post a d' → Post' a d') : p.Outcome Q' Post' d := by
  unfold Outcome at h ⊢
  cases hrun : p.run d with
  | error e =>
    rw [hrun] at h
    exact hQ e h
  | ok r =>
    rw [hrun] at h
    exact hPost r.1 r.2 h

@[simp] theorem outcome_ret (a : α) : (Prog.ret a : Prog D W K E α).Outcome Q Post d ↔ Post a d := Iff.rfl

@[simp] theorem outcome_raise (e : E) : (Prog.raise e : Prog D W K E α).Outcome Q Post d ↔ Q e := Iff.rfl

theorem Outcome.bind {p : Prog D W K E β} {f : β → Prog D W K E α} {Mid : β → D → Prop}
    (hp : p.Outcome Q Mid d) (hf : ∀ b d', Mid b d' → (f b).Outcome Q Post d') :
    (p >>= f).Outcome Q Post d := by
  unfold Outcome at hp
  unfold Outcome
  rw [run_bind]
  cases hrun : p.run d with
  | error e =>
    rw [hrun] at hp
    exact hp
  | ok r =>
    rw [hrun] at hp
    exact hf r.1 r.2 hp

theorem outcome_raiseIf {c : Prop} [Decidable c] {e : E} {f : Unit → Prog D W K E α} (he : c → Q e)
    (h : ¬ c → (f ()).Outcome Q Post d) : (raiseIf c e >>= f).Outcome Q Post d := by
  rw [raiseIf_bind]
  split_ifs with hc
  · exact he hc
  · exact h hc

theorem outcome_exec {s : Stmt D W K E β} {k : β → Prog D W K E α} {b : β} {ws : List W}
    (hexec : s.exec d = .ok (b, ws)) (h : (k b).Outcome Q Post (applyAll ws d)) :
    (Prog.step s k).Outcome Q Post d := by
  unfold Outcome
  rw [run_step, hexec]
  exact h

theorem outcome_select {f : D → β} {k : β → Prog D W K E α} (h : (k (f d)).Outcome Q Post d) :
    (Prog.step (.select f) k).Outcome Q Post d := by
  unfold Outcome
  rw [run_select]
  exact h

theorem outcome_update {f : D → Except E (Option W)} {k : ℕ → Prog D W K E α}
    (h : match f d with
      | .ok (some w) => (k 1).Outcome Q Post (apply w d)
      | .ok none => (k 0).Outcome Q Post d
      | .error e => Q e) : (Prog.step (.update f) k).Outcome Q Post d := by
  unfold Outcome
  rw [run_update]
  rcases hf : f d with e | _ | w
  all_goals
    rw [hf] at h
    exact h

theorem outcome_insert {w : W} {ks : List K} {f : D → Except E Unit} {k : Unit → Prog D W K E α}
    (hok : f d = .ok () → (k ()).Outcome Q Post (apply w d)) (herror : ∀ e, f d = .error e → Q e) :
    (Prog.step (.insert w ks f) k).Outcome Q Post d := by
  unfold Outcome
  rw [run_insert]
  cases hf : f d with
  | error e => exact herror e hf
  | ok u => exact hok hf

end Prog

/-- The store with the stores before it, and the committed calls with their replies (newest first). -/
structure Serial (D C R : Type) where
  db : D
  past : List D := []
  log : List (C × R) := []

namespace Serial
variable {D W K E C R : Type} [Store D W K]

def step (prog : C → Prog D W K E R) (s : Serial D C R) (call : C) : Serial D C R :=
  match (prog call).run s.db with
  | .ok (r, d) => { db := d, past := s.db :: s.past, log := (call, r) :: s.log }
  | .error _ => { s with past := s.db :: s.past }

/-- A call commits, or fails and changes nothing. -/
inductive Stepped (prog : C → Prog D W K E R) (s : Serial D C R) (call : C) : Serial D C R → Prop
  | commit {r : R} {d : D} (ok : (prog call).run s.db = .ok (r, d)) :
    Stepped prog s call { db := d, past := s.db :: s.past, log := (call, r) :: s.log }
  | fail {e : E} (error : (prog call).run s.db = .error e) :
    Stepped prog s call { s with past := s.db :: s.past }

theorem step_spec (prog : C → Prog D W K E R) (s : Serial D C R) (call : C) :
    Stepped prog s call (s.step prog call) := by
  unfold step
  cases hrun : (prog call).run s.db with
  | error e => exact .fail hrun
  | ok r => exact .commit hrun

theorem step_db (prog : C → Prog D W K E R) (s : Serial D C R) (call : C) :
    (s.step prog call).db = ((prog call).transaction s.db).2 := by
  unfold step Prog.transaction
  cases (prog call).run s.db <;> rfl

@[simp] theorem step_past (prog : C → Prog D W K E R) (s : Serial D C R) (call : C) :
    (s.step prog call).past = s.db :: s.past := by
  unfold step
  cases (prog call).run s.db <;> rfl

theorem mem_step_log {prog : C → Prog D W K E R} {s : Serial D C R} {call : C} {entry : C × R}
    (h : entry ∈ s.log) : entry ∈ (s.step prog call).log := by
  unfold step
  cases (prog call).run s.db with
  | error e => exact h
  | ok r => exact List.mem_cons_of_mem _ h

/-- The states that a run reaches when each of its calls is allowed. -/
inductive Reach (prog : C → Prog D W K E R) (ok : Serial D C R → C → Prop) (d₀ : D) : Serial D C R → Prop
  | init : Reach prog ok d₀ { db := d₀ }
  | step {s : Serial D C R} (call : C) (reach : Reach prog ok d₀ s) (allowed : ok s call) :
    Reach prog ok d₀ (s.step prog call)

/-- What every commit keeps holds of every store of a run. -/
theorem Reach.keeps {prog : C → Prog D W K E R} {ok : Serial D C R → C → Prop} {d₀ : D} {I : D → Prop}
    {s : Serial D C R} (h : Reach prog ok d₀ s) (h₀ : I d₀)
    (hstep : ∀ {s : Serial D C R} {call : C} {r : R} {d : D}, Reach prog ok d₀ s → ok s call → I s.db →
      (prog call).run s.db = .ok (r, d) → I d) : ∀ d ∈ s.db :: s.past, I d := by
  induction h with
  | init => simpa using h₀
  | step call reach allowed ih =>
    rename_i s
    have hspec := step_spec prog s call
    revert hspec
    generalize s.step prog call = s'
    intro hspec d hd
    cases hspec with
    | commit ok =>
      rcases List.mem_cons.mp hd with rfl | hd
      · exact hstep reach allowed (ih s.db List.mem_cons_self) ok
      · exact ih d hd
    | fail error =>
      rcases List.mem_cons.mp hd with rfl | hd
      · exact ih s.db List.mem_cons_self
      · exact ih d hd

end Serial

end KenkuiServer.Txn
