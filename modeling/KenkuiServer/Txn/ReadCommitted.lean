import KenkuiServer.Txn.Program

/-! Transactions at isolation level READ COMMITTED. A statement sees the newest committed store under
the writes of its own transaction; it waits while another open transaction holds a lock it needs, and
its locks are held until its transaction ends. A transaction commits all of its writes or none. -/
namespace KenkuiServer.Txn

/-- What a transaction has written and locked, and the committed stores that its statements saw. -/
structure Trace (D W K : Type) where
  writes : List W := []
  locks : List K := []
  seen : List D := []

namespace Trace
variable {D W K : Type}

/-- The trace after one more statement. -/
def next (t : Trace D W K) (d : D) (ws : List W) (ks : List K) : Trace D W K :=
  ⟨t.writes ++ ws, t.locks ++ ks, t.seen ++ [d]⟩

@[simp] theorem next_writes (t : Trace D W K) (d : D) (ws : List W) (ks : List K) :
    (t.next d ws ks).writes = t.writes ++ ws := rfl

@[simp] theorem next_locks (t : Trace D W K) (d : D) (ws : List W) (ks : List K) :
    (t.next d ws ks).locks = t.locks ++ ks := rfl

@[simp] theorem next_seen (t : Trace D W K) (d : D) (ws : List W) (ks : List K) :
    (t.next d ws ks).seen = t.seen ++ [d] := rfl

end Trace

/-- A session runs one call in one transaction. One that ended has its result, or none if it crashed. -/
inductive Session (D W K E C R : Type) : Type 1
  | running (call : C) (trace : Trace D W K) (rest : Prog D W K E R)
  | ended (call : C) (trace : Trace D W K) (result : Option (Except E R))

namespace Session
variable {D W K E C R : Type}

def call : Session D W K E C R → C
  | running call _ _ => call
  | ended call _ _ => call

def locks : Session D W K E C R → List K
  | running _ trace _ => trace.locks
  | ended _ _ _ => []

def trace : Session D W K E C R → Trace D W K
  | running _ trace _ => trace
  | ended _ trace _ => trace

/-- The session writes what its call can write, and while it is running it has the locks for that. -/
def Wrote [Store D W K] (P : C → W → Prop) : Session D W K E C R → Prop
  | running call trace rest =>
    (∀ w ∈ trace.writes, P call w ∧ Store.key D w ∈ trace.locks) ∧ rest.Emits (P call) fun _ => True
  | ended call trace _ => ∀ w ∈ trace.writes, P call w

theorem Wrote.writes [Store D W K] {P : C → W → Prop} {session : Session D W K E C R} (h : session.Wrote P) :
    ∀ w ∈ session.trace.writes, P session.call w := by
  cases session with
  | running call trace rest => exact fun w hw => (h.1 w hw).1
  | ended call trace result => exact h

end Session

/-- The newest committed store with those before it, the committed calls with their replies (newest
first), and the sessions. -/
structure Sys (D W K E C R : Type) : Type 1 where
  db : D
  past : List D := []
  log : List (C × R) := []
  sessions : List (Session D W K E C R) := []

inductive Label (C : Type)
  | start (call : C)
  | run (session : ℕ)
  | crash (session : ℕ)

namespace Sys
variable {D W K E C R : Type}

def set (s : Sys D W K E C R) (i : ℕ) (session : Session D W K E C R) : Sys D W K E C R :=
  { s with sessions := s.sessions.set i session }

section
variable [DecidableEq K]

/-- No other session holds one of the locks. -/
def free (s : Sys D W K E C R) (i : ℕ) (ks : List K) : Bool :=
  s.sessions.zipIdx.all fun p => p.2 = i ∨ p.1.locks.all (· ∉ ks)

theorem free_iff {s : Sys D W K E C R} {i : ℕ} {ks : List K} :
    s.free i ks = true ↔
      ∀ (j : ℕ) (b : Session D W K E C R), s.sessions[j]? = some b → j ≠ i → ∀ k ∈ b.locks, k ∉ ks := by
  simp only [free, List.all_eq_true, Prod.forall, List.mk_mem_zipIdx_iff_getElem?, decide_eq_true_eq]
  constructor
  · intro h j b hb hne
    have := (h b j hb).resolve_left hne
    simpa using this
  · intro h b j hb
    by_cases hij : j = i
    · exact Or.inl hij
    · exact Or.inr (by simpa using h j b hb hij)

variable [Store D W K]

def runSession (s : Sys D W K E C R) (i : ℕ) (call : C) (t : Trace D W K) :
    Prog D W K E R → Sys D W K E C R
  | .ret r =>
    { db := applyAll t.writes s.db, past := s.db :: s.past, log := (call, r) :: s.log
      sessions := s.sessions.set i (.ended call t (some (.ok r))) }
  | .raise e => s.set i (.ended call t (some (.error e)))
  | .step st k =>
    let view := applyAll t.writes s.db
    if s.free i (st.locks view) then
      match st.exec view with
      | .ok (b, ws) => s.set i (.running call (t.next s.db ws (st.locks view)) (k b))
      | .error e => s.set i (.ended call (t.next s.db [] []) (some (.error e)))
    else s

/-- One step of the scheduler; a session that has to wait, or has ended, stays as it is. -/
def step (prog : C → Prog D W K E R) (s : Sys D W K E C R) : Label C → Sys D W K E C R
  | .start call => { s with sessions := s.sessions ++ [.running call {} (prog call)] }
  | .run i =>
    match s.sessions[i]? with
    | some (.running call t rest) => s.runSession i call t rest
    | _ => s
  | .crash i =>
    match s.sessions[i]? with
    | some (.running call t _) => s.set i (.ended call t none)
    | _ => s

/-- What one step can do. -/
inductive Stepped (prog : C → Prog D W K E R) (s : Sys D W K E C R) : Label C → Sys D W K E C R → Prop
  | stay (l : Label C) : Stepped prog s l s
  | start (call : C) :
    Stepped prog s (.start call) { s with sessions := s.sessions ++ [.running call {} (prog call)] }
  | crash {i : ℕ} {call : C} {t : Trace D W K} {rest : Prog D W K E R}
      (running : s.sessions[i]? = some (.running call t rest)) :
    Stepped prog s (.crash i) (s.set i (.ended call t none))
  | exec {i : ℕ} {call : C} {t : Trace D W K} {β : Type} {st : Stmt D W K E β} {k : β → Prog D W K E R}
      {b : β} {ws : List W} (running : s.sessions[i]? = some (.running call t (.step st k)))
      (free : s.free i (st.locks (applyAll t.writes s.db)))
      (ok : st.exec (applyAll t.writes s.db) = .ok (b, ws)) :
    Stepped prog s (.run i)
      (s.set i (.running call (t.next s.db ws (st.locks (applyAll t.writes s.db))) (k b)))
  | fail {i : ℕ} {call : C} {t : Trace D W K} {β : Type} {st : Stmt D W K E β} {k : β → Prog D W K E R}
      {e : E} (running : s.sessions[i]? = some (.running call t (.step st k)))
      (free : s.free i (st.locks (applyAll t.writes s.db)))
      (error : st.exec (applyAll t.writes s.db) = .error e) :
    Stepped prog s (.run i) (s.set i (.ended call (t.next s.db [] []) (some (.error e))))
  | raise {i : ℕ} {call : C} {t : Trace D W K} {e : E}
      (running : s.sessions[i]? = some (.running call t (.raise e))) :
    Stepped prog s (.run i) (s.set i (.ended call t (some (.error e))))
  | commit {i : ℕ} {call : C} {t : Trace D W K} {r : R}
      (running : s.sessions[i]? = some (.running call t (.ret r))) :
    Stepped prog s (.run i)
      { db := applyAll t.writes s.db, past := s.db :: s.past, log := (call, r) :: s.log
        sessions := s.sessions.set i (.ended call t (some (.ok r))) }

theorem step_spec (prog : C → Prog D W K E R) (s : Sys D W K E C R) (l : Label C) :
    Stepped prog s l (s.step prog l) := by
  cases l with
  | start call => exact .start call
  | run i =>
    simp only [step]
    split
    case h_1 call t rest hrunning =>
      cases rest with
      | ret r => exact .commit hrunning
      | raise e => exact .raise hrunning
      | step st k =>
        simp only [runSession]
        split_ifs with hfree
        · cases hexec : st.exec (applyAll t.writes s.db) with
          | ok r => exact .exec hrunning hfree hexec
          | error e => exact .fail hrunning hfree hexec
        · exact .stay _
    case h_2 => exact .stay _
  | crash i =>
    simp only [step]
    split
    case h_1 call t rest hrunning => exact .crash hrunning
    case h_2 => exact .stay _

theorem committed_of_step (prog : C → Prog D W K E R) (s : Sys D W K E C R) (l : Label C) :
    ((s.step prog l).db = s.db ∧ (s.step prog l).past = s.past ∧ (s.step prog l).log = s.log) ∨
      ∃ i call t r, l = .run i ∧ s.sessions[i]? = some (.running call t (.ret r)) ∧
        (s.step prog l).db = applyAll t.writes s.db ∧ (s.step prog l).past = s.db :: s.past ∧
        (s.step prog l).log = (call, r) :: s.log ∧
        (s.step prog l).sessions = s.sessions.set i (.ended call t (some (.ok r))) := by
  have hspec := step_spec prog s l
  revert hspec
  generalize s.step prog l = s'
  intro hspec
  cases hspec with
  | commit running => exact Or.inr ⟨_, _, _, _, rfl, running, rfl, rfl, rfl, rfl⟩
  | _ => exact Or.inl ⟨rfl, rfl, rfl⟩

/-- The calls of the sessions, in the order in which they started. -/
def calls (s : Sys D W K E C R) : List C := s.sessions.map Session.call

omit [DecidableEq K] [Store D W K] in
theorem calls_set {s : Sys D W K E C R} {i : ℕ} {old session : Session D W K E C R}
    (h : s.sessions[i]? = some old) (hcall : session.call = old.call) :
    (s.sessions.set i session).map Session.call = s.calls := by
  obtain ⟨hi, rfl⟩ := List.getElem?_eq_some_iff.mp h
  unfold calls
  rw [List.map_set, hcall, ← List.getElem_map Session.call (h := by simpa using hi)]
  exact List.set_getElem_self (by simpa using hi)

theorem calls_of_step (prog : C → Prog D W K E R) (s : Sys D W K E C R) (l : Label C) :
    (s.step prog l).calls = s.calls ∨ ∃ call, l = .start call ∧
    (s.step prog l).calls = s.calls ++ [call] := by
  have hspec := step_spec prog s l
  revert hspec
  generalize s.step prog l = s'
  intro hspec
  cases hspec with
  | stay => exact Or.inl rfl
  | start call => exact Or.inr ⟨call, rfl, by simp [calls, Session.call]⟩
  | crash running => exact Or.inl (calls_set running rfl)
  | exec running free ok => exact Or.inl (calls_set running rfl)
  | fail running free error => exact Or.inl (calls_set running rfl)
  | raise running => exact Or.inl (calls_set running rfl)
  | commit running => exact Or.inl (calls_set running rfl)

theorem ended_stays {prog : C → Prog D W K E R} {s : Sys D W K E C R} {l : Label C} {i : ℕ} {call : C}
    {t : Trace D W K} {result : Option (Except E R)} (h : s.sessions[i]? = some (.ended call t result)) :
    (s.step prog l).sessions[i]? = some (.ended call t result) := by
  have hset : ∀ {j : ℕ} {call' : C} {t' : Trace D W K} {rest : Prog D W K E R}
      {session : Session D W K E C R}, s.sessions[j]? = some (.running call' t' rest) →
      (s.sessions.set j session)[i]? = some (.ended call t result) := by
    intro j call' t' rest session hrunning
    rw [List.getElem?_set_ne, h]
    rintro rfl
    rw [h] at hrunning
    cases hrunning
  have hspec := step_spec prog s l
  revert hspec
  generalize s.step prog l = s'
  intro hspec
  cases hspec with
  | stay => exact h
  | start call' => exact (List.getElem?_append_left (List.getElem?_eq_some_iff.mp h).1).trans h
  | crash running => exact hset running
  | exec running free ok => exact hset running
  | fail running free error => exact hset running
  | raise running => exact hset running
  | commit running => exact hset running

theorem ended_of_step {prog : C → Prog D W K E R} {s : Sys D W K E C R} {l : Label C} {i : ℕ} {call : C}
    {t : Trace D W K} {result : Option (Except E R)}
    (h : (s.step prog l).sessions[i]? = some (.ended call t result)) :
    s.sessions[i]? = some (.ended call t result) ∨
      ∃ t' rest, s.sessions[i]? = some (.running call t' rest) := by
  have hspec := step_spec prog s l
  revert hspec h
  generalize s.step prog l = s'
  intro h hspec
  have hset : ∀ {j : ℕ} {session : Session D W K E C R} {t' : Trace D W K} {rest : Prog D W K E R},
      s'.sessions = s.sessions.set j session → s.sessions[j]? = some (.running session.call t' rest) →
      s.sessions[i]? = some (.ended call t result) ∨
        ∃ t' rest, s.sessions[i]? = some (.running call t' rest) := by
    intro j session t' rest hs' hrunning
    rw [hs', List.getElem?_set] at h
    split_ifs at h with hij hlt
    · cases h
      exact Or.inr ⟨t', rest, hij ▸ hrunning⟩
    · exact Or.inl h
  cases hspec with
  | stay => exact Or.inl h
  | start call' =>
    rw [List.getElem?_append] at h
    split_ifs at h with hlt
    · exact Or.inl h
    · rw [List.getElem?_singleton] at h
      split_ifs at h
      cases h
  | crash running => exact hset rfl running
  | exec running free ok => exact hset rfl running
  | fail running free error => exact hset rfl running
  | raise running => exact hset rfl running
  | commit running => exact hset rfl running

/-- The states that a run reaches when each of its steps is allowed. -/
inductive Reach (prog : C → Prog D W K E R) (ok : Sys D W K E C R → Label C → Prop) (d₀ : D) :
    Sys D W K E C R → Prop
  | init : Reach prog ok d₀ { db := d₀ }
  | step {s : Sys D W K E C R} (l : Label C) (reach : Reach prog ok d₀ s) (allowed : ok s l) :
    Reach prog ok d₀ (s.step prog l)

theorem Reach.wrote {prog : C → Prog D W K E R} {ok : Sys D W K E C R → Label C → Prop} {d₀ : D}
    {s : Sys D W K E C R} {P : C → W → Prop} (hP : ∀ call, (prog call).Emits (P call) fun _ => True)
    (h : Reach prog ok d₀ s) : ∀ session ∈ s.sessions, session.Wrote P := by
  induction h with
  | init => simp
  | step l reach allowed ih =>
    rename_i s
    have hset : ∀ {i : ℕ} {new : Session D W K E C R}, new.Wrote P →
        ∀ session ∈ s.sessions.set i new, session.Wrote P := by
      intro i new hnew session hsession
      rcases List.mem_or_eq_of_mem_set hsession with hsession | rfl
      · exact ih session hsession
      · exact hnew
    have hspec := step_spec prog s l
    revert hspec
    generalize s.step prog l = s'
    intro hspec
    cases hspec with
    | stay => exact ih
    | start call =>
      intro session hsession
      rcases List.mem_append.mp hsession with hsession | hsession
      · exact ih session hsession
      · obtain rfl := List.mem_singleton.mp hsession
        exact ⟨by simp, hP call⟩
    | crash running => exact hset fun w hw => ((ih _ (List.mem_of_getElem? running)).1 w hw).1
    | exec running free ok =>
      obtain ⟨hwrites, hrest⟩ := ih _ (List.mem_of_getElem? running)
      rename_i t _ st _ _ _
      have hstatement := hrest.1 (applyAll t.writes s.db)
      rw [ok] at hstatement
      refine hset ⟨fun w hw => ?_, hrest.2 _⟩
      rcases List.mem_append.mp hw with hw | hw
      · exact ⟨(hwrites w hw).1, List.mem_append_left _ (hwrites w hw).2⟩
      · refine ⟨hstatement w hw, List.mem_append_right _ ?_⟩
        simp only [Stmt.locks, ok]
        exact List.mem_append_right _ (List.mem_map_of_mem hw)
    | fail running free error =>
      refine hset fun w hw => ?_
      rw [Trace.next_writes, List.append_nil] at hw
      exact ((ih _ (List.mem_of_getElem? running)).1 w hw).1
    | raise running => exact hset fun w hw => ((ih _ (List.mem_of_getElem? running)).1 w hw).1
    | commit running => exact hset fun w hw => ((ih _ (List.mem_of_getElem? running)).1 w hw).1

/-- The sessions take their turns in the given order. -/
def schedule (prog : C → Prog D W K E R) (s : Sys D W K E C R) (turns : List ℕ) : Sys D W K E C R :=
  turns.foldl (fun s i => s.step prog (.run i)) s

theorem calls_schedule (prog : C → Prog D W K E R) (s : Sys D W K E C R) (turns : List ℕ) :
    (s.schedule prog turns).calls = s.calls := by
  induction turns generalizing s with
  | nil => rfl
  | cons i turns ih =>
    have hturn := (calls_of_step prog s (.run i)).resolve_right (by simp)
    exact (ih _).trans hturn

theorem Reach.schedule {prog : C → Prog D W K E R} {ok : Sys D W K E C R → Label C → Prop} {d₀ : D}
    (hrun : ∀ s i, ok s (.run i)) {s : Sys D W K E C R} (h : Reach prog ok d₀ s) (turns : List ℕ) :
    Reach prog ok d₀ (s.schedule prog turns) := by
  induction turns generalizing s with
  | nil => exact h
  | cons i turns ih => exact ih (.step (.run i) h (hrun s i))

end

end Sys

end KenkuiServer.Txn
