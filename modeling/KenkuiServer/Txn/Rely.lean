import KenkuiServer.Txn.ReadCommitted

/-! Reasoning about a transaction from the committed store it ends at. Its statements saw earlier
stores, and all that is known of those is how they relate to the last one while the transaction held
its locks. -/
namespace KenkuiServer.Txn

/-- How a committed store can have changed while a transaction held the given locks. -/
structure Rely (D K : Type) where
  rel : List K → D → D → Prop
  refl : ∀ ks d, rel ks d d
  trans : ∀ {ks d d' d''}, rel ks d d' → rel ks d' d'' → rel ks d d''
  anti : ∀ {ks ks' d d'}, ks ⊆ ks' → rel ks' d d' → rel ks d d'

/-- A statement saw `d`: it came after all that was seen before, and from then until `now` the
transaction held `ks`. -/
structure Rely.Sees {D W K : Type} (R : Rely D K) (t : Trace D W K) (ks : List K) (d now : D) : Prop where
  later : ∀ d' ∈ t.seen, R.rel [] d' d
  held : R.rel ks d now

/-- Which statements may run on which committed stores. -/
abbrev Allow (D W K E : Type) : Type 1 := ∀ β : Type, Stmt D W K E β → D → Prop

namespace Prog
variable {D W K E α β : Type} [Store D W K]

/-- Whatever earlier stores the program's statements see, it ends with `Φ` at the store `now`. -/
def Along (R : Rely D K) (allow : Allow D W K E) (now : D) (Φ : Except E α → Trace D W K → Prop) :
    Prog D W K E α → Trace D W K → Prop
  | .ret a, t => Φ (.ok a) t
  | .raise e, t => Φ (.error e) t
  | .step s k, t =>
    ∀ d, R.Sees t (t.locks ++ s.locks (applyAll t.writes d)) d now → allow _ s d →
      match s.exec (applyAll t.writes d) with
      | .ok (b, ws) => (k b).Along R allow now Φ (t.next d ws (s.locks (applyAll t.writes d)))
      | .error e => Φ (.error e) (t.next d [] [])

variable {R R' : Rely D K} {allow allow' : Allow D W K E} {now : D} {t : Trace D W K}
  {Φ Ψ : Except E α → Trace D W K → Prop}

@[simp] theorem along_ret (a : α) : (Prog.ret a).Along R allow now Φ t ↔ Φ (.ok a) t := Iff.rfl

@[simp] theorem along_raise (e : E) : (Prog.raise e).Along R allow now Φ t ↔ Φ (.error e) t := Iff.rfl

theorem along_select {f : D → β} {k : β → Prog D W K E α}
    (h : ∀ d, R.Sees t t.locks d now → (k (f (applyAll t.writes d))).Along R allow now Φ (t.next d [] [])) :
    (Prog.step (.select f) k).Along R allow now Φ t := by
  intro d hd _
  have hlocks : (Stmt.select f : Stmt D W K E β).locks (applyAll t.writes d) = [] := rfl
  rw [hlocks, List.append_nil] at hd
  exact h d hd

theorem along_selectForUpdate {key : K} {f : D → Option β} {k : Option β → Prog D W K E α}
    (hnone : ∀ d, f (applyAll t.writes d) = none → R.Sees t t.locks d now →
      (k none).Along R allow now Φ (t.next d [] []))
    (hsome : ∀ d b, f (applyAll t.writes d) = some b → R.Sees t (t.locks ++ [key]) d now →
      (k (some b)).Along R allow now Φ (t.next d [] [key])) :
    (Prog.step (.selectForUpdate key f) k).Along R allow now Φ t := by
  intro d hd _
  simp only [Stmt.locks, Stmt.selectForUpdate] at hd ⊢
  cases hf : f (applyAll t.writes d) with
  | none =>
    simp only [hf, Option.isSome_none, Bool.false_eq_true, if_false, List.map_nil, List.append_nil] at hd ⊢
    exact hnone d hf hd
  | some b =>
    simp only [hf, Option.isSome_some, if_true, List.map_nil, List.append_nil] at hd ⊢
    exact hsome d b hf hd

theorem along_update {f : D → Except E (Option W)} {k : ℕ → Prog D W K E α}
    (hsome : ∀ d w, allow _ (.update f) d → f (applyAll t.writes d) = .ok (some w) →
      R.Sees t (t.locks ++ [Store.key D w]) d now → (k 1).Along R allow now Φ (t.next d [w] [Store.key D w]))
    (hnone : ∀ d, f (applyAll t.writes d) = .ok none → R.Sees t t.locks d now →
      (k 0).Along R allow now Φ (t.next d [] []))
    (herror : ∀ d e, f (applyAll t.writes d) = .error e → R.Sees t t.locks d now →
      Φ (.error e) (t.next d [] [])) :
    (Prog.step (.update f) k).Along R allow now Φ t := by
  intro d hd ha
  simp only [Stmt.locks, Stmt.update] at hd ⊢
  rcases hf : f (applyAll t.writes d) with e | _ | w
  · simp only [hf, List.append_nil] at hd ⊢
    exact herror d e hf hd
  · simp only [hf, List.map_nil, List.append_nil] at hd ⊢
    exact hnone d hf hd
  · simp only [hf, List.map_cons, List.map_nil, List.nil_append] at hd ⊢
    exact hsome d w ha hf hd

theorem along_insert {w : W} {ks : List K} {f : D → Except E Unit} {k : Unit → Prog D W K E α}
    (hok : ∀ d, f (applyAll t.writes d) = .ok () → R.Sees t (t.locks ++ (ks ++ [Store.key D w])) d now →
      (k ()).Along R allow now Φ (t.next d [w] (ks ++ [Store.key D w])))
    (herror : ∀ d e, f (applyAll t.writes d) = .error e → R.Sees t (t.locks ++ ks) d now →
      Φ (.error e) (t.next d [] [])) :
    (Prog.step (.insert w ks f) k).Along R allow now Φ t := by
  intro d hd _
  simp only [Stmt.locks, Stmt.insert] at hd ⊢
  rcases hf : f (applyAll t.writes d) with e | u
  · simp only [hf, List.append_nil] at hd ⊢
    exact herror d e hf hd
  · simp only [hf, List.map_cons, List.map_nil] at hd ⊢
    exact hok d hf hd

theorem Along.mono {p : Prog D W K E α} (h : p.Along R allow now Φ t)
    (hrel : ∀ ks d d', R'.rel ks d d' → R.rel ks d d')
    (hallow : ∀ β (s : Stmt D W K E β) d, allow' β s d → allow β s d)
    (hend : ∀ r t, Φ r t → Ψ r t) : p.Along R' allow' now Ψ t := by
  induction p generalizing t with
  | ret a => exact hend _ _ h
  | raise e => exact hend _ _ h
  | step s k ih =>
    intro d hd ha
    have hs := h d ⟨fun d' hd' => hrel _ _ _ (hd.later d' hd'), hrel _ _ _ hd.held⟩ (hallow _ _ _ ha)
    revert hs
    cases s.exec (applyAll t.writes d) with
    | error e => exact hend _ _
    | ok r => exact fun hs => ih r.1 hs

theorem Along.imp {p : Prog D W K E α} (h : p.Along R allow now Φ t) (hend : ∀ r t, Φ r t → Ψ r t) :
    p.Along R allow now Ψ t :=
  h.mono (fun _ _ _ => id) (fun _ _ _ => id) hend

theorem along_of_forall (p : Prog D W K E α) (h : ∀ r t, Φ r t) : p.Along R allow now Φ t := by
  induction p generalizing t with
  | ret a => exact h _ _
  | raise e => exact h _ _
  | step s k ih =>
    intro d _ _
    cases s.exec (applyAll t.writes d) with
    | error e => exact h _ _
    | ok r => exact ih r.1

theorem Along.and {p : Prog D W K E α} (h : p.Along R allow now Φ t) (h' : p.Along R allow now Ψ t) :
    p.Along R allow now (fun r t => Φ r t ∧ Ψ r t) t := by
  induction p generalizing t with
  | ret a => exact ⟨h, h'⟩
  | raise e => exact ⟨h, h'⟩
  | step s k ih =>
    intro d hd ha
    have hs := h d hd ha
    have hs' := h' d hd ha
    revert hs hs'
    cases s.exec (applyAll t.writes d) with
    | error e => exact fun hs hs' => ⟨hs, hs'⟩
    | ok r => exact fun hs hs' => ih r.1 hs hs'

/-- Sequential composition: the rest of the program goes on from the trace of the first part. -/
theorem Along.bind {p : Prog D W K E β} {f : β → Prog D W K E α}
    (h : p.Along R allow now (fun r t => match r with
      | .ok b => (f b).Along R allow now Φ t
      | .error e => Φ (.error e) t) t) : (p >>= f).Along R allow now Φ t := by
  induction p generalizing t with
  | ret b => exact h
  | raise e => exact h
  | step s k ih =>
    intro d hd ha
    have hs := h d hd ha
    revert hs
    cases s.exec (applyAll t.writes d) with
    | error e => exact id
    | ok r => exact fun hs => ih r.1 hs

/-- What has to hold when the program returns; an error only has to be in `Q`. -/
def upTo (Q : E → Prop) (Post : α → Trace D W K → Prop) (r : Except E α) (t : Trace D W K) : Prop :=
  match r with
  | .ok a => Post a t
  | .error e => Q e

section
variable {Q : E → Prop} {Post : α → Trace D W K → Prop}

omit [Store D W K] in
@[simp] theorem upTo_ok (a : α) : upTo Q Post (.ok a) t ↔ Post a t := Iff.rfl

omit [Store D W K] in
@[simp] theorem upTo_error (e : E) : upTo Q Post (.error e) t ↔ Q e := Iff.rfl

theorem along_return {a : α} (h : Post a t) :
    (Prog.ret a : Prog D W K E α).Along R allow now (upTo Q Post) t := h

theorem Along.seq {p : Prog D W K E β} {f : β → Prog D W K E α} {Mid : β → Trace D W K → Prop}
    (hp : p.Along R allow now (upTo Q Mid) t)
    (hf : ∀ b t', Mid b t' → (f b).Along R allow now (upTo Q Post) t') :
    (p >>= f).Along R allow now (upTo Q Post) t := by
  refine Along.bind (hp.imp fun r t' hr => ?_)
  cases r with
  | ok b => exact hf b t' hr
  | error e => exact hr

theorem along_raiseIf {c : Prop} [Decidable c] {e : E} {f : Unit → Prog D W K E α} (he : c → Q e)
    (h : ¬ c → (f ()).Along R allow now (upTo Q Post) t) :
    (raiseIf c e >>= f).Along R allow now (upTo Q Post) t := by
  rw [raiseIf_bind]
  split_ifs with hc
  · exact he hc
  · exact h hc

end

theorem along_locked (p : Prog D W K E α) (ht : ∀ w ∈ t.writes, Store.key D w ∈ t.locks) :
    p.Along R allow now (fun _ t => ∀ w ∈ t.writes, Store.key D w ∈ t.locks) t := by
  induction p generalizing t with
  | ret a => exact ht
  | raise e => exact ht
  | step s k ih =>
    intro d hd ha
    have hlocks : ∀ r, s.exec (applyAll t.writes d) = .ok r →
        ∀ w ∈ r.2, Store.key D w ∈ s.locks (applyAll t.writes d) := by
      intro r hr w hw
      simp only [Stmt.locks, hr]
      exact List.mem_append_right _ (List.mem_map_of_mem hw)
    revert hlocks
    cases s.exec (applyAll t.writes d) with
    | error e => exact fun _ => by simpa using ht
    | ok r =>
      intro hlocks
      refine ih r.1 fun w hw => ?_
      rcases List.mem_append.mp hw with hw | hw
      · exact List.mem_append_left _ (ht w hw)
      · exact List.mem_append_right _ (hlocks r rfl w hw)

theorem Emits.along {P : W → Prop} {Q : E → Prop} {p : Prog D W K E α} (hp : p.Emits P Q)
    (hok : ∀ a ws ks ds, (∀ w ∈ ws, P w) → Φ (.ok a) ⟨t.writes ++ ws, t.locks ++ ks, t.seen ++ ds⟩)
    (herror : ∀ e ws ks ds, Q e → Φ (.error e) ⟨t.writes ++ ws, t.locks ++ ks, t.seen ++ ds⟩) :
    p.Along R allow now Φ t := by
  induction p generalizing t with
  | ret a => simpa using hok a [] [] [] (by simp)
  | raise e => simpa using herror e [] [] [] hp
  | step s k ih =>
    intro d hd ha
    have hs := hp.1 (applyAll t.writes d)
    revert hs
    cases hexec : s.exec (applyAll t.writes d) with
    | error e => exact fun hs => by simpa [Trace.next] using herror e [] [] [d] hs
    | ok r =>
      intro hs
      refine ih r.1 (hp.2 r.1) (fun a ws ks ds hws => ?_) fun e ws ks ds hQ => ?_
      · have hall : ∀ w ∈ r.2 ++ ws, P w := by
          intro w hw
          rcases List.mem_append.mp hw with hw | hw
          · exact hs w hw
          · exact hws w hw
        simpa using hok a (r.2 ++ ws) (s.locks (applyAll t.writes d) ++ ks) (d :: ds) hall
      · simpa using herror e (r.2 ++ ws) (s.locks (applyAll t.writes d) ++ ks) (d :: ds) hQ

/-- Run alone, every statement sees the same store. -/
theorem Along.run {p : Prog D W K E α} {d : D} (h : p.Along R allow d Φ t)
    (ht : ∀ d' ∈ t.seen, d' = d) (hallow : ∀ β (s : Stmt D W K E β), allow β s d) :
    match p.run (applyAll t.writes d) with
    | .ok (a, d') => ∃ t', Φ (.ok a) t' ∧ d' = applyAll t'.writes d
    | .error e => ∃ t', Φ (.error e) t' := by
  induction p generalizing t with
  | ret a => exact ⟨t, h, rfl⟩
  | raise e => exact ⟨t, h⟩
  | step s k ih =>
    have hs := h d ⟨fun d' hd' => ht d' hd' ▸ R.refl _ _, R.refl _ d⟩ (hallow _ _)
    rw [run_step]
    revert hs
    cases s.exec (applyAll t.writes d) with
    | error e => exact fun hs => ⟨_, hs⟩
    | ok r =>
      intro hs
      have hrec := ih r.1 hs (by simpa [or_imp, forall_and] using ht)
      rwa [Trace.next_writes, applyAll_append] at hrec

end Prog

section
variable {D W K E C A : Type} [DecidableEq K] [Store D W K]

/-- Every commit changes the store only as sessions with other locks rely on. `adm` says which calls
may start when the committed stores so far are the given ones. -/
structure Guarantee (R : Rely D K) (allow : Allow D W K E) (adm : List D → C → Prop)
    (prog : C → Prog D W K E A) (ok : Sys D W K E C A → Label C → Prop) : Prop where
  allows : ∀ {s i call t β} {st : Stmt D W K E β} {k}, ok s (.run i) →
    s.sessions[i]? = some (.running call t (.step st k)) → s.free i (st.locks (applyAll t.writes s.db)) →
      allow β st s.db
  admits : ∀ {s call}, ok s (.start call) → adm (s.db :: s.past) call
  keeps : ∀ {seen call now}, adm seen call → (∀ d ∈ seen, R.rel [] d now) →
    (prog call).Along R allow now (Prog.upTo (fun _ => True) fun _ t =>
      ∀ ks, (∀ k ∈ t.locks, k ∉ ks) → R.rel ks now (applyAll t.writes now)) {}

namespace Sys
variable {R : Rely D K} {allow : Allow D W K E} {adm : List D → C → Prop} {prog : C → Prog D W K E A}
  {ok : Sys D W K E C A → Label C → Prop} {d₀ : D} {s : Sys D W K E C A}

/-- What holds of every reachable state: locks are held by one session, and what can be shown of a
call at the store where it ends, whatever it saw before, holds of what is left of it. -/
structure Good (R : Rely D K) (allow : Allow D W K E) (adm : List D → C → Prop)
    (prog : C → Prog D W K E A) (s : Sys D W K E C A) : Prop where
  past : ∀ d ∈ s.past, R.rel [] d s.db
  disjoint : ∀ {i j : ℕ} {a b : Session D W K E C A}, i ≠ j → s.sessions[i]? = some a →
    s.sessions[j]? = some b → ∀ k ∈ a.locks, k ∉ b.locks
  admitted : ∀ {i : ℕ} {call : C} {t : Trace D W K} {rest : Prog D W K E A},
    s.sessions[i]? = some (.running call t rest) → ∃ seen, adm seen call ∧ ∀ d ∈ seen, R.rel [] d s.db
  seen : ∀ {i : ℕ} {call : C} {t : Trace D W K} {rest : Prog D W K E A},
    s.sessions[i]? = some (.running call t rest) → ∀ d ∈ t.seen, R.rel [] d s.db
  along : ∀ {i : ℕ} {call : C} {t : Trace D W K} {rest : Prog D W K E A},
    s.sessions[i]? = some (.running call t rest) → ∀ {now : D} {Φ : Except E A → Trace D W K → Prop},
    R.rel t.locks s.db now → (prog call).Along R allow now Φ {} → rest.Along R allow now Φ t

theorem getElem?_set_cases {α : Type*} {l : List α} {i j : ℕ} {a b : α} (h : (l.set i a)[j]? = some b) :
    (j = i ∧ b = a) ∨ (j ≠ i ∧ l[j]? = some b) := by
  rw [List.getElem?_set] at h
  split_ifs at h with hij hlt
  · cases h
    exact Or.inl ⟨hij.symm, rfl⟩
  · exact Or.inr ⟨Ne.symm hij, h⟩

theorem getElem?_append_cases {α : Type*} {l : List α} {j : ℕ} {a b : α} (h : (l ++ [a])[j]? = some b) :
    l[j]? = some b ∨ (l.length ≤ j ∧ b = a) := by
  rw [List.getElem?_append] at h
  split_ifs at h with hlt
  · exact Or.inl h
  · rw [List.getElem?_singleton] at h
    split_ifs at h
    cases h
    exact Or.inr ⟨Nat.not_lt.mp hlt, rfl⟩

omit [DecidableEq K] in
theorem Good.disjoint_set (h : s.Good R allow adm prog) {i : ℕ} {session : Session D W K E C A}
    (hlocks : ∀ (j : ℕ) (b : Session D W K E C A), j ≠ i → s.sessions[j]? = some b →
      ∀ k ∈ session.locks, k ∉ b.locks)
    {j j' : ℕ} {a b : Session D W K E C A} (hne : j ≠ j') (ha : (s.sessions.set i session)[j]? = some a)
    (hb : (s.sessions.set i session)[j']? = some b) : ∀ k ∈ a.locks, k ∉ b.locks := by
  rcases getElem?_set_cases ha with ⟨rfl, rfl⟩ | ⟨hji, holda⟩
  · rcases getElem?_set_cases hb with ⟨rfl, rfl⟩ | ⟨hji', holdb⟩
    · exact absurd rfl hne
    · exact hlocks j' b hji' holdb
  · rcases getElem?_set_cases hb with ⟨rfl, rfl⟩ | ⟨-, holdb⟩
    · exact fun k hk hk' => hlocks j a hji holda k hk' hk
    · exact h.disjoint hne holda holdb

omit [DecidableEq K] in
theorem Good.ended (h : s.Good R allow adm prog) (i : ℕ) (call : C) (t : Trace D W K)
    (result : Option (Except E A)) : (s.set i (.ended call t result)).Good R allow adm prog where
  past := h.past
  disjoint := h.disjoint_set (by simp [Session.locks])
  admitted hrunning := by
    rcases getElem?_set_cases hrunning with ⟨-, hsession⟩ | ⟨-, hold⟩
    · cases hsession
    · exact h.admitted hold
  seen hrunning := by
    rcases getElem?_set_cases hrunning with ⟨-, hsession⟩ | ⟨-, hold⟩
    · cases hsession
    · exact h.seen hold
  along hrunning := by
    rcases getElem?_set_cases hrunning with ⟨-, hsession⟩ | ⟨-, hold⟩
    · cases hsession
    · exact h.along hold

omit [DecidableEq K] in
theorem Good.start (h : s.Good R allow adm prog) {call : C} (hadm : adm (s.db :: s.past) call) :
    ({ s with sessions := s.sessions ++ [.running call {} (prog call)] } : Sys D W K E C A).Good R allow adm
      prog where
  past := h.past
  disjoint := by
    intro i j a b hne ha hb
    rcases getElem?_append_cases ha with ha | ⟨hi, rfl⟩
    · rcases getElem?_append_cases hb with hb | ⟨hj, rfl⟩
      · exact h.disjoint hne ha hb
      · simp [Session.locks]
    · simp [Session.locks]
  admitted hrunning := by
    rcases getElem?_append_cases hrunning with hold | ⟨-, hsession⟩
    · exact h.admitted hold
    · cases hsession
      refine ⟨_, hadm, fun d hd => ?_⟩
      rcases List.mem_cons.mp hd with rfl | hd
      · exact R.refl _ _
      · exact h.past d hd
  seen hrunning := by
    rcases getElem?_append_cases hrunning with hold | ⟨-, hsession⟩
    · exact h.seen hold
    · cases hsession
      simp
  along hrunning := by
    rcases getElem?_append_cases hrunning with hold | ⟨-, hsession⟩
    · exact h.along hold
    · cases hsession
      exact fun _ => id

theorem Good.commit (h : s.Good R allow adm prog) (hg : Guarantee R allow adm prog ok) {i : ℕ} {call : C}
    {t : Trace D W K} {r : A} (running : s.sessions[i]? = some (.running call t (.ret r))) :
    ({ db := applyAll t.writes s.db, past := s.db :: s.past, log := (call, r) :: s.log
       sessions := s.sessions.set i (.ended call t (some (.ok r))) } : Sys D W K E C A).Good R allow adm
      prog := by
  obtain ⟨seen, hadm, hseen⟩ := h.admitted running
  have hkeeps : ∀ ks, (∀ k ∈ t.locks, k ∉ ks) → R.rel ks s.db (applyAll t.writes s.db) :=
    h.along running (R.refl _ _) (hg.keeps hadm hseen)
  have hnone := hkeeps [] (by simp)
  have hended := h.ended i call t (some (.ok r))
  refine ⟨fun d hd => ?_, hended.disjoint, fun hrunning => ?_, fun hrunning d hd => ?_,
    fun hrunning => ?_⟩
  · rcases List.mem_cons.mp hd with rfl | hd
    · exact hnone
    · exact R.trans (h.past d hd) hnone
  · obtain ⟨seen', hadm', hseen'⟩ := hended.admitted hrunning
    exact ⟨seen', hadm', fun d hd => R.trans (hseen' d hd) hnone⟩
  · exact R.trans (hended.seen hrunning d hd) hnone
  · intro now Φ hrel hcall
    refine hended.along hrunning (R.trans (hkeeps _ ?_) hrel) hcall
    rcases getElem?_set_cases hrunning with ⟨-, hsession⟩ | ⟨hne, hold⟩
    · cases hsession
    · exact h.disjoint (Ne.symm hne) running hold

theorem Good.exec (h : s.Good R allow adm prog) {i : ℕ} {call : C} {t : Trace D W K} {β : Type}
    {st : Stmt D W K E β} {k : β → Prog D W K E A} {b : β} {ws : List W}
    (running : s.sessions[i]? = some (.running call t (.step st k)))
    (free : s.free i (st.locks (applyAll t.writes s.db)))
    (hexec : st.exec (applyAll t.writes s.db) = .ok (b, ws)) (hallow : allow β st s.db) :
    (s.set i (.running call (t.next s.db ws (st.locks (applyAll t.writes s.db))) (k b))).Good R allow adm
      prog where
  past := h.past
  disjoint := by
    refine h.disjoint_set fun j b' hne hb key hkey => ?_
    rcases List.mem_append.mp hkey with hkey | hkey
    · exact h.disjoint (Ne.symm hne) running hb key hkey
    · exact fun hkey' => free_iff.mp free j b' hb hne key hkey' hkey
  admitted hrunning := by
    rcases getElem?_set_cases hrunning with ⟨-, hsession⟩ | ⟨-, hold⟩
    · cases hsession
      exact h.admitted running
    · exact h.admitted hold
  seen hrunning := by
    rcases getElem?_set_cases hrunning with ⟨-, hsession⟩ | ⟨-, hold⟩
    · cases hsession
      intro d hd
      rcases List.mem_append.mp hd with hd | hd
      · exact h.seen running d hd
      · rw [List.mem_singleton.mp hd]
        exact R.refl _ _
    · exact h.seen hold
  along hrunning := by
    rcases getElem?_set_cases hrunning with ⟨-, hsession⟩ | ⟨-, hold⟩
    · cases hsession
      intro now Φ hrel hcall
      have hstep := h.along running (R.anti (by simp) hrel) hcall s.db ⟨h.seen running, hrel⟩ hallow
      rwa [hexec] at hstep
    · exact h.along hold

theorem Good.step (h : s.Good R allow adm prog) (hg : Guarantee R allow adm prog ok) {l : Label C}
    (hok : ok s l) : (s.step prog l).Good R allow adm prog := by
  have hspec := step_spec prog s l
  revert hspec
  generalize s.step prog l = s'
  intro hspec
  cases hspec with
  | stay => exact h
  | start call => exact h.start (hg.admits hok)
  | crash running => exact h.ended _ _ _ _
  | exec running free hexec => exact h.exec running free hexec (hg.allows hok running free)
  | fail running free error => exact h.ended _ _ _ _
  | raise running => exact h.ended _ _ _ _
  | commit running => exact h.commit hg running

theorem Reach.good (hg : Guarantee R allow adm prog ok) (h : Reach prog ok d₀ s) :
    s.Good R allow adm prog := by
  induction h with
  | init =>
    refine ⟨by simp, ?_, ?_, ?_, ?_⟩ <;> intros <;> simp_all
  | step l reach allowed ih => exact ih.step hg allowed

/-- What a session ended with: anything that can be shown of its call at the store where it ended. -/
theorem Good.ends (h : s.Good R allow adm prog) (hg : Guarantee R allow adm prog ok) {l : Label C}
    (hok : ok s l) {i : ℕ} {call : C} {t t' : Trace D W K} {rest : Prog D W K E A} {r : Except E A}
    (hrunning : s.sessions[i]? = some (.running call t rest))
    (hended : (s.step prog l).sessions[i]? = some (.ended call t' (some r)))
    {Φ : Except E A → Trace D W K → Prop} (hΦ : (prog call).Along R allow s.db Φ {}) : Φ r t' := by
  have hspec := step_spec prog s l
  revert hspec hended
  generalize s.step prog l = s'
  intro hended hspec
  have hset : ∀ {j : ℕ} {session : Session D W K E C A}, s'.sessions = s.sessions.set j session →
      j = i ∧ session = .ended call t' (some r) := by
    intro j session hs'
    rw [hs'] at hended
    rcases getElem?_set_cases hended with ⟨hij, hsession⟩ | ⟨-, hold⟩
    · exact ⟨hij.symm, hsession.symm⟩
    · rw [hrunning] at hold
      cases hold
  cases hspec with
  | stay =>
    rw [hrunning] at hended
    cases hended
  | start call' =>
    rcases getElem?_append_cases hended with hold | ⟨-, hsession⟩
    · rw [hrunning] at hold
      cases hold
    · cases hsession
  | crash running => cases (hset rfl).2
  | exec running free hexec => cases (hset rfl).2
  | fail running free error =>
    obtain ⟨rfl, hsession⟩ := hset rfl
    cases hsession
    have hstep := h.along running (R.refl _ _) hΦ s.db ⟨h.seen running, R.refl _ _⟩
      (hg.allows hok running free)
    rwa [error] at hstep
  | raise running =>
    obtain ⟨rfl, hsession⟩ := hset rfl
    cases hsession
    exact h.along running (R.refl _ _) hΦ
  | commit running =>
    obtain ⟨rfl, hsession⟩ := hset rfl
    cases hsession
    exact h.along running (R.refl _ _) hΦ

/-- What can be shown of a call at every store where it may end holds of every session that ended. -/
theorem Reach.ended (hg : Guarantee R allow adm prog ok) (h : Reach prog ok d₀ s)
    {Φ : C → Except E A → Trace D W K → Prop}
    (hΦ : ∀ {seen : List D} {call : C} {now : D}, adm seen call → (∀ d ∈ seen, R.rel [] d now) →
      (prog call).Along R allow now (Φ call) {})
    {i : ℕ} {call : C} {t : Trace D W K} {r : Except E A}
    (hended : s.sessions[i]? = some (.ended call t (some r))) : Φ call r t := by
  induction h with
  | init => simp at hended
  | step l reach allowed ih =>
    rcases ended_of_step hended with hold | ⟨t', rest, hrunning⟩
    · exact ih hold
    · have hgood := reach.good hg
      obtain ⟨seen, hadm, hseen⟩ := hgood.admitted hrunning
      exact hgood.ends hg allowed hrunning hended (hΦ hadm hseen)

end Sys

end

end KenkuiServer.Txn
