import Mathlib.Tactic.Common

/-! Scripts: programs that ask their surroundings, one query at a time, and go on with the answer or
raise an exception. What is left of a script half way is again a script. -/
namespace KenkuiServer.Data

inductive Script (Q : Type) (A : Q → Type) (E α : Type)
  | ret (a : α)
  | raise (e : E)
  | ask (q : Q) (k : A q → Script Q A E α)

namespace Script
variable {Q : Type} {A : Q → Type} {E α β : Type}

protected def bind : Script Q A E α → (α → Script Q A E β) → Script Q A E β
  | ret a, f => f a
  | raise e, _ => raise e
  | ask q k, f => ask q fun answer => (k answer).bind f

instance : Monad (Script Q A E) where
  pure := ret
  bind := Script.bind

def request (q : Q) : Script Q A E (A q) := ask q ret

/-- `try: p except: handler`. -/
def handle : Script Q A E α → (E → Script Q A E α) → Script Q A E α
  | ret a, _ => ret a
  | raise e, handler => handler e
  | ask q k, handler => ask q fun answer => (k answer).handle handler

/-- Whatever the answers, every query of the script satisfies `P` and what it returns `R`. -/
def Within (P : Q → Prop) (R : α → Prop) : Script Q A E α → Prop
  | ret a => R a
  | raise _ => True
  | ask q k => P q ∧ ∀ answer, (k answer).Within P R

/-- As long as the answers are what `T` says, every query of the script satisfies `P`. -/
def Assuming (T : (q : Q) → A q → Prop) (P : Q → Prop) : Script Q A E α → Prop
  | ret _ => True
  | raise _ => True
  | ask q k => P q ∧ ∀ answer, T q answer → (k answer).Assuming T P

/-- Whatever the answers, the script ends after at most `n` queries. -/
def Bounded : Script Q A E α → ℕ → Prop
  | ret _, _ => True
  | raise _, _ => True
  | ask _ k, n => 0 < n ∧ ∀ answer, (k answer).Bounded (n - 1)

section
variable {P P' : Q → Prop} {R R' : α → Prop} {p : Script Q A E α}

@[simp] theorem pure_def (a : α) : (pure a : Script Q A E α) = .ret a := rfl

@[simp] theorem ret_bind (a : α) (f : α → Script Q A E β) : (Script.ret a >>= f) = f a := rfl

@[simp] theorem raise_bind (e : E) (f : α → Script Q A E β) : (Script.raise e >>= f) = .raise e := rfl

@[simp] theorem ask_bind (q : Q) (k : A q → Script Q A E α) (f : α → Script Q A E β) :
    (Script.ask q k >>= f) = .ask q fun answer => k answer >>= f := rfl

@[simp] theorem request_bind (q : Q) (f : A q → Script Q A E β) : (request q >>= f) = .ask q f := rfl

@[simp] theorem within_ret (a : α) : (Script.ret a : Script Q A E α).Within P R ↔ R a := Iff.rfl

@[simp] theorem within_raise (e : E) : (Script.raise e : Script Q A E α).Within P R := trivial

@[simp] theorem within_ask {q : Q} {k : A q → Script Q A E α} :
    (Script.ask q k).Within P R ↔ P q ∧ ∀ answer, (k answer).Within P R := Iff.rfl

theorem Within.bind {S : β → Prop} {f : α → Script Q A E β} (hp : p.Within P R)
    (hf : ∀ a, R a → (f a).Within P S) : (p >>= f).Within P S := by
  induction p with
  | ret a => exact hf a hp
  | raise e => trivial
  | ask q k ih => exact ⟨hp.1, fun answer => ih answer (hp.2 answer)⟩

theorem Within.handle {handler : E → Script Q A E α} (hp : p.Within P R)
    (hhandler : ∀ e, (handler e).Within P R) : (p.handle handler).Within P R := by
  induction p with
  | ret a => exact hp
  | raise e => exact hhandler e
  | ask q k ih => exact ⟨hp.1, fun answer => ih answer (hp.2 answer)⟩

theorem Assuming.bind {T : (q : Q) → A q → Prop} {f : α → Script Q A E β} (hp : p.Assuming T P)
    (hf : ∀ a, (f a).Assuming T P) : (p >>= f).Assuming T P := by
  induction p with
  | ret a => exact hf a
  | raise e => trivial
  | ask q k ih => exact ⟨hp.1, fun answer hanswer => ih answer (hp.2 answer hanswer)⟩

theorem Assuming.handle {T : (q : Q) → A q → Prop} {handler : E → Script Q A E α} (hp : p.Assuming T P)
    (hhandler : ∀ e, (handler e).Assuming T P) : (p.handle handler).Assuming T P := by
  induction p with
  | ret a => trivial
  | raise e => exact hhandler e
  | ask q k ih => exact ⟨hp.1, fun answer hanswer => ih answer (hp.2 answer hanswer)⟩

theorem Within.imp (hp : p.Within P R) (hP : ∀ q, P q → P' q) (hR : ∀ a, R a → R' a) : p.Within P' R' := by
  induction p with
  | ret a => exact hR a hp
  | raise e => trivial
  | ask q k ih => exact ⟨hP q hp.1, fun answer => ih answer (hp.2 answer)⟩

theorem Bounded.mono {n m : ℕ} (hp : p.Bounded n) (h : n ≤ m) : p.Bounded m := by
  induction p generalizing n m with
  | ret a => trivial
  | raise e => trivial
  | ask q k ih => exact ⟨by have := hp.1; omega, fun answer => ih answer (hp.2 answer) (by omega)⟩

theorem Bounded.bind {n m : ℕ} {f : α → Script Q A E β} (hp : p.Bounded n) (hf : ∀ a, (f a).Bounded m) :
    (p >>= f).Bounded (n + m) := by
  induction p generalizing n with
  | ret a => exact (hf a).mono (by omega)
  | raise e => trivial
  | ask q k ih =>
    have hpositive := hp.1
    refine ⟨by omega, fun answer => ?_⟩
    have hrest := ih answer (hp.2 answer)
    exact hrest.mono (by omega)

end

end Script

end KenkuiServer.Data
