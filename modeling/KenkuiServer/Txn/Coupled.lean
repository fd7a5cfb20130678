import KenkuiServer.Txn.Program

/-! Two programs run alone on two stores, compared: both return, or both raise. -/
namespace KenkuiServer.Txn.Prog

variable {D D' W W' K K' E E' α α' β β' : Type}

/-- Two ways to end agree: both return related values and leave related stores, or both raise related
errors. -/
def Coupled (R : D → D' → Prop) (F : E → E' → Prop) (Q : α → α' → Prop) :
    Except E (α × D) → Except E' (α' × D') → Prop
  | .ok (a, d), .ok (a', d') => Q a a' ∧ R d d'
  | .error e, .error e' => F e e'
  | _, _ => False

section
variable {R S : D → D' → Prop} {F : E → E' → Prop} {Q : α → α' → Prop} {Q' : β → β' → Prop}

@[simp] theorem coupled_ok {a : α} {a' : α'} {d : D} {d' : D'} :
    Coupled R F Q (.ok (a, d)) (.ok (a', d')) ↔ Q a a' ∧ R d d' := Iff.rfl

@[simp] theorem coupled_error {e : E} {e' : E'} : Coupled R F Q (.error e) (.error e') ↔ F e e' := Iff.rfl

@[simp] theorem coupled_ok_error {r : α × D} {e' : E'} : ¬ Coupled R F Q (.ok r) (.error e') := id

@[simp] theorem coupled_error_ok {e : E} {r : α' × D'} : ¬ Coupled R F Q (.error e) (.ok r) := id

theorem Coupled.imp {Q₀ : α → α' → Prop} {r : Except E (α × D)} {r' : Except E' (α' × D')}
    (h : Coupled R F Q r r') (hR : ∀ d d', R d d' → S d d') (hQ : ∀ a a', Q a a' → Q₀ a a') :
    Coupled S F Q₀ r r' := by
  cases r with
  | error e =>
    cases r' with
    | error e' => exact h
    | ok r' => exact h
  | ok r =>
    cases r' with
    | error e' => exact h
    | ok r' => exact ⟨hQ _ _ h.1, hR _ _ h.2⟩

theorem Coupled.and_right {r : Except E (α × D)} {r' : Except E' (α' × D')} {I : D' → Prop}
    (h : Coupled R F Q r r') (hI : ∀ a d', r' = .ok (a, d') → I d') :
    Coupled (fun d d' => R d d' ∧ I d') F Q r r' := by
  cases r with
  | error e =>
    cases r' with
    | error e' => exact h
    | ok r' => exact h
  | ok r =>
    cases r' with
    | error e' => exact h
    | ok r' => exact ⟨h.1, h.2, hI r'.1 r'.2 rfl⟩

variable [Store D W K] [Store D' W' K']

theorem Coupled.bind {p : Prog D W K E α} {p' : Prog D' W' K' E' α'} {f : α → Prog D W K E β}
    {f' : α' → Prog D' W' K' E' β'} {d : D} {d' : D'} (h : Coupled R F Q (p.run d) (p'.run d'))
    (hf : ∀ a a' x x', Q a a' → R x x' → Coupled S F Q' ((f a).run x) ((f' a').run x')) :
    Coupled S F Q' ((p >>= f).run d) ((p' >>= f').run d') := by
  rw [run_bind, run_bind]
  cases hp : p.run d with
  | error e =>
    rw [hp] at h
    cases hp' : p'.run d' with
    | error e' => simpa [hp'] using h
    | ok r' => simp [hp'] at h
  | ok r =>
    rw [hp] at h
    cases hp' : p'.run d' with
    | error e' => simp [hp'] at h
    | ok r' =>
      rw [hp'] at h
      exact hf r.1 r'.1 r.2 r'.2 h.1 h.2

theorem Coupled.transaction {p : Prog D W K E α} {p' : Prog D' W' K' E' α'} {d : D} {d' : D'}
    (h : Coupled R F Q (p.run d) (p'.run d')) (hd : R d d') :
    R (p.transaction d).2 (p'.transaction d').2 := by
  cases hp : p.run d with
  | error e =>
    cases hp' : p'.run d' with
    | error e' =>
      rw [transaction_of_error hp, transaction_of_error hp']
      exact hd
    | ok r' => simp [hp, hp'] at h
  | ok r =>
    cases hp' : p'.run d' with
    | error e' => simp [hp, hp'] at h
    | ok r' =>
      rw [transaction_of_ok hp, transaction_of_ok hp']
      rw [hp, hp'] at h
      exact h.2

end

end KenkuiServer.Txn.Prog
