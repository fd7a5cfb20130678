import KenkuiServer.Data.Script

/-! Scripts together with what they have asked and heard so far, the newest exchange first. -/
namespace KenkuiServer.Data.Script

variable {Q : Type} {A : Q → Type} {E α β : Type}

/-- Whatever the answers, each query is one that `P` allows after the exchanges before it, and the script
ends as `R` says. -/
def Follows (P : List (Sigma A) → Q → Prop) (R : List (Sigma A) → Except E α → Prop) :
    Script Q A E α → List (Sigma A) → Prop
  | ret a, past => R past (.ok a)
  | raise e, past => R past (.error e)
  | ask q k, past => P past q ∧ ∀ answer, (k answer).Follows P R (⟨q, answer⟩ :: past)

/-- Each exchange has a query that `P` allows after those before it. -/
def Allowed (P : List (Sigma A) → Q → Prop) : List (Sigma A) → Prop
  | [] => True
  | exchange :: past => P past exchange.1 ∧ Allowed P past

section
variable {P : List (Sigma A) → Q → Prop} {R : List (Sigma A) → Except E α → Prop} {past : List (Sigma A)}
  {p : Script Q A E α}

@[simp] theorem follows_ret (a : α) : (Script.ret a : Script Q A E α).Follows P R past ↔
    R past (.ok a) := Iff.rfl

@[simp] theorem follows_raise (e : E) :
    (Script.raise e : Script Q A E α).Follows P R past ↔ R past (.error e) := Iff.rfl

@[simp] theorem follows_ask {q : Q} {k : A q → Script Q A E α} :
    (Script.ask q k).Follows P R past ↔ P past q ∧ ∀ answer, (k answer).Follows P R (⟨q, answer⟩ :: past) :=
      Iff.rfl

theorem Follows.bind {S : List (Sigma A) → Except E β → Prop} {f : α → Script Q A E β}
    (hp : p.Follows P R past) (hok : ∀ past a, R past (.ok a) → (f a).Follows P S past)
    (herror : ∀ past e, R past (.error e) → S past (.error e)) : (p >>= f).Follows P S past := by
  induction p generalizing past with
  | ret a => exact hok past a hp
  | raise e => exact herror past e hp
  | ask q k ih => exact ⟨hp.1, fun answer => ih answer (hp.2 answer)⟩

theorem Follows.handle {S : List (Sigma A) → Except E α → Prop} {handler : E → Script Q A E α}
    (hp : p.Follows P R past) (hok : ∀ past a, R past (.ok a) → S past (.ok a))
    (herror : ∀ past e, R past (.error e) → (handler e).Follows P S past) :
    (p.handle handler).Follows P S past := by
  induction p generalizing past with
  | ret a => exact hok past a hp
  | raise e => exact herror past e hp
  | ask q k ih => exact ⟨hp.1, fun answer => ih answer (hp.2 answer)⟩

theorem Follows.imp {R' : List (Sigma A) → Except E α → Prop} (hp : p.Follows P R past)
    (h : ∀ past result, R past result → R' past result) : p.Follows P R' past := by
  induction p generalizing past with
  | ret a => exact h past _ hp
  | raise e => exact h past _ hp
  | ask q k ih => exact ⟨hp.1, fun answer => ih answer (hp.2 answer)⟩

/-- A script all of whose queries are always allowed. -/
theorem Within.follows {T : α → Prop} (hp : p.Within (fun q => ∀ past, P past q) T) :
    p.Follows P (fun _ _ => True) past := by
  induction p generalizing past with
  | ret a => trivial
  | raise e => trivial
  | ask q k ih => exact ⟨hp.1 past, fun answer => ih answer (hp.2 answer)⟩

/-- The exchange that a query was one of, with those before it. -/
theorem Allowed.split {newer older : List (Sigma A)} {exchange : Sigma A}
    (h : Allowed P (newer ++ exchange :: older)) : P older exchange.1 ∧ Allowed P older := by
  induction newer with
  | nil => exact h
  | cons first newer ih => exact ih h.2

end

end KenkuiServer.Data.Script
