import KenkuiServer.Hosted.Calls
import KenkuiServer.Local.Attempts

/-! Worker attempts whose lease has been issued again. Their job updates are fenced by the lease; of their
dispatch updates, which carry a version only, the one that takes the dispatch is fenced by the version,
since every claim moves it on. -/
namespace KenkuiServer.Local
open Txn Data Jobs Storage Repositories

/-- The attempt that an act is a step of. -/
def Act.attempt (s : Server) : Act → Option Attempt
  | .work i _ => s.attempts[i]?
  | .beat i _ _ _ => s.attempts[i]?
  | _ => none

/-- The attempt's token has been followed by another one for its dispatch. -/
def Attempt.Superseded (attempt : Attempt) (log : List (Call × Reply)) : Prop :=
  ∃ token, attempt.runner.lease = some (attempt.dispatchId, token) ∧
    token ∈ (tokensOf attempt.dispatchId log).tail

/-- The rows that only the attempt with the current token may change. -/
structure SameRows (d d' : LocalDb) : Prop where
  jobs : d'.jobs = d.jobs
  events : d'.events = d.events
  failures : d'.failures = d.failures
  artifacts : d'.artifacts = d.artifacts
  dispatches : d'.dispatches = d.dispatches

theorem SameRows.refl (d : LocalDb) : SameRows d d := ⟨rfl, rfl, rfl, rfl, rfl⟩

namespace Server

/-- The claims among the acts draw fresh tokens. -/
def Fresh (s : Server) : List Act → Prop
  | [] => True
  | act :: acts => (∀ call, act = .call call → FreshTokens s.run call) ∧ (s.step act).Fresh acts

instance (run : LocalRun) (call : Call) : Decidable (FreshTokens run call) :=
  match call with
  | .claimExecution _ _ _ _ token _ =>
    inferInstanceAs (Decidable (∀ entry ∈ run.log, (issuedBy entry).map (·.2) ≠ some token))
  | .createJobAndDispatch _ _ _ | .update _ _ _ _ _ _ _ | .requestCancellation _ | .finishDispatch _ _ _
  | .updateDispatch _ _ | .renewExecution _ _ _ _ _ | .releaseExecution _ _ => isTrue trivial

instance (s : Server) (act : Act) : Decidable (∀ call, act = .call call → FreshTokens s.run call) :=
  match act with
  | .call call =>
    decidable_of_iff (FreshTokens s.run call) ⟨fun h _ heq => Act.call.inj heq ▸ h, fun h => h call rfl⟩
  | .spawn _ _ => isTrue fun _ heq => Act.noConfusion heq
  | .work _ _ => isTrue fun _ heq => Act.noConfusion heq
  | .beat _ _ _ _ => isTrue fun _ heq => Act.noConfusion heq

instance Fresh.decidable : (s : Server) → (acts : List Act) → Decidable (s.Fresh acts)
  | _, [] => isTrue trivial
  | s, act :: acts =>
    have := Fresh.decidable (s.step act) acts
    inferInstanceAs (Decidable ((∀ call, act = .call call → FreshTokens s.run call) ∧
      (s.step act).Fresh acts))

/-- No step of a superseded attempt changes a row. -/
def Harmless (s : Server) : List Act → Prop
  | [] => True
  | act :: acts =>
    (∀ attempt, act.attempt s = some attempt → attempt.Superseded s.run.log →
      SameRows s.run.db (s.step act).run.db) ∧ (s.step act).Harmless acts

/-- Whenever a superseded attempt is to mark a dispatch cancelled, the row has moved on since it was read. -/
def MovedOn (s : Server) : List Act → Prop
  | [] => True
  | act :: acts =>
    (∀ attempt, act.attempt s = some attempt → attempt.Superseded s.run.log →
      ∀ dispatch, s.call? act = some (.updateDispatch dispatch "cancelled") →
        ∀ row, s.run.db.dispatches.get? dispatch.id = some row → row.version ≠ dispatch.version) ∧
      (s.step act).MovedOn acts

def after (s : Server) (acts : List Act) : Server := acts.foldl step s

theorem harmless_append {s : Server} {acts acts' : List Act} :
    s.Harmless (acts ++ acts') ↔ s.Harmless acts ∧ (s.after acts).Harmless acts' := by
  induction acts generalizing s with
  | nil => exact ⟨fun h => ⟨trivial, h⟩, And.right⟩
  | cons act acts ih =>
    have hrest := ih (s := s.step act)
    simp only [List.cons_append, Harmless, hrest, and_assoc]
    rfl

/-- What a run keeps. -/
structure Sound (d₀ : LocalDb) (s : Server) : Prop where
  reach : Serial.Reach Call.prog FreshTokens d₀ s.run
  within : ∀ attempt ∈ s.attempts,
    attempt.script.Within (Query.Of attempt.runner.lease fun _ => True) fun _ => True
  position : ∀ attempt ∈ s.attempts, ∀ token, attempt.runner.lease = some (attempt.dispatchId, token) →
    Position s.run.db attempt token

section
variable {d₀ : LocalDb} {s : Server} {act : Act}

theorem Sound.fresh (h : s.Sound d₀)
    (hfresh : ∀ call, act = .call call → FreshTokens s.run call) {call : Call}
    (hcall : s.call? act = some call) : FreshTokens s.run call := by
  cases act with
  | call call' =>
    cases hcall
    exact hfresh _ rfl
  | spawn runner dispatchId => cases hcall
  | work i moment =>
    obtain ⟨attempt, hattempt, hcall⟩ := Option.bind_eq_some_iff.mp hcall
    have hwithin := h.within attempt (List.mem_of_getElem? hattempt)
    unfold Attempt.call? at hcall
    cases hscript : attempt.script with
    | ret next => simp [hscript] at hcall
    | raise e => simp [hscript] at hcall
    | ask q k =>
      rw [hscript] at hcall hwithin
      cases hwithin.1 moment call hcall <;> trivial
  | beat i ttl now now' =>
    obtain ⟨attempt, -, hcall⟩ := Option.bind_eq_some_iff.mp hcall
    obtain ⟨lease, -, hcall⟩ := Option.bind_eq_some_iff.mp hcall
    cases hcall
    trivial

theorem step_run (s : Server) (act : Act) :
    (s.step act).run = (s.call? act).elim s.run (s.run.step Call.prog) := rfl

/-- An attempt's position outlives the acts that are not its own. -/
theorem position_stays {attempt : Attempt} {token : String}
    (h : Position s.run.db attempt token) (act : Act) :
    Position (s.step act).run.db attempt token := by
  rw [step_run]
  cases s.call? act with
  | none => exact h
  | some call =>
    have hspec := Serial.step_spec Call.prog s.run call
    simp only [Option.elim_some]
    revert hspec
    generalize s.run.step Call.prog call = run'
    intro hspec
    cases hspec with
    | commit ok => exact h.stays ok
    | fail error => exact h

theorem mem_modify {i : ℕ} {f : Attempt → Attempt} {attempts : List Attempt} {attempt : Attempt}
    (h : attempt ∈ attempts.modify i f) :
    attempt ∈ attempts ∨ ∃ old, attempts[i]? = some old ∧ f old = attempt := by
  obtain ⟨j, hj⟩ := List.mem_iff_getElem?.mp h
  rw [List.getElem?_modify] at hj
  split_ifs at hj with hij
  · subst hij
    exact Or.inr (Option.map_eq_some_iff.mp hj)
  · exact Or.inl (List.mem_of_getElem? (by simpa using hj))

theorem Sound.step (h : s.Sound d₀) (hfresh : ∀ call, act = .call call → FreshTokens s.run call) :
    (s.step act).Sound d₀ := by
  have hreach : Serial.Reach Call.prog FreshTokens d₀ (s.step act).run := by
    rw [step_run]
    cases hcall : s.call? act with
    | none => exact h.reach
    | some call => exact .step call h.reach (h.fresh hfresh hcall)
  have hold : ∀ attempt ∈ s.attempts, ∀ token, attempt.runner.lease = some (attempt.dispatchId, token) →
      Position (s.step act).run.db attempt token :=
    fun attempt hattempt token hlease => position_stays (h.position attempt hattempt token hlease) act
  refine ⟨hreach, ?_, ?_⟩
  · intro attempt hattempt
    cases act with
    | call call => exact h.within attempt hattempt
    | spawn runner dispatchId =>
      rcases List.mem_append.mp hattempt with hattempt | hattempt
      · exact h.within attempt hattempt
      · obtain rfl := List.mem_singleton.mp hattempt
        exact runner.script_within (.run dispatchId)
    | work i moment =>
      rcases mem_modify hattempt with hattempt | ⟨old, hold, rfl⟩
      · exact h.within attempt hattempt
      · rw [Attempt.advance_runner]
        exact Attempt.advance_within (h.within old (List.mem_of_getElem? hold))
    | beat i ttl now now' => exact h.within attempt hattempt
  · intro attempt hattempt token hlease
    cases act with
    | call call => exact hold attempt hattempt token hlease
    | spawn runner dispatchId =>
      rcases List.mem_append.mp hattempt with hattempt | hattempt
      · exact hold attempt hattempt token hlease
      · rw [List.mem_singleton.mp hattempt]
        exact .starting rfl
    | work i moment =>
      rcases mem_modify hattempt with hattempt | ⟨old, hfound, rfl⟩
      · exact hold attempt hattempt token hlease
      · rw [Attempt.advance_runner, Attempt.advance_dispatchId] at hlease
        have hposition := h.position old (List.mem_of_getElem? hfound) token hlease
        have hrun : (s.step (.work i moment)).run = old.after s.run moment := by
          rw [step_run]
          simp only [call?, hfound, Option.bind_some]
          rfl
        rw [hrun]
        exact Attempt.advance_position hlease hposition
    | beat i ttl now now' => exact hold attempt hattempt token hlease

theorem step_call {call : Call} (hcall : s.call? act = some call) :
    (s.step act).run.db = (call.prog.transaction s.run.db).2 := by
  rw [step_run, hcall]
  exact Serial.step_db Call.prog s.run call

theorem step_silent (hcall : s.call? act = none) : (s.step act).run.db = s.run.db := by
  rw [step_run, hcall]
  rfl

end

end Server

section
variable {d : LocalDb} {dispatch : Dispatch} {status : String}

theorem updateDispatch_run {row : Dispatch} (hrow : d.dispatches.get? dispatch.id = some row)
    (hversion : row.version = dispatch.version) :
    (Call.updateDispatch dispatch status).prog.run d = .ok (.none, { d with
      dispatches := d.dispatches.put ({ row with status, version := dispatch.version + 1 }) }) := by
  have hnext : ¬ ((dispatch.version + 1 : ℕ) : ℤ) ≠ dispatch.version + 1 := by simp
  simp only [Call.prog, Repositories.updateDispatch, Prog.raiseIf_bind, if_neg hnext, updateDispatchRow,
    issue_bind, Prog.step_bind, Prog.run_update, hrow, hversion, if_true]
  rfl

theorem updateDispatch_moved
    (h : ∀ row, d.dispatches.get? dispatch.id = some row → row.version ≠ dispatch.version) :
    ∃ e, (Call.updateDispatch dispatch status).prog.run d = .error e := by
  cases hrun : (Call.updateDispatch dispatch status).prog.run d with
  | error e => exact ⟨e, rfl⟩
  | ok r =>
    obtain ⟨u, hupdate, -⟩ := Prog.run_map_ok (f := fun _ => Reply.none) hrun
    obtain ⟨stored, hstored, hversion, -⟩ := updateDispatch_outcome.of_ok hupdate
    exact absurd hversion (h stored hstored)

theorem updateDispatch_changes {row : Dispatch} (hrow : d.dispatches.get? dispatch.id = some row)
    (hversion : row.version = dispatch.version) :
    ¬ SameRows d ((Call.updateDispatch dispatch status).prog.transaction d).2 := by
  rw [Prog.transaction_of_ok (updateDispatch_run hrow hversion)]
  intro hsame
  have hid : row.id = dispatch.id := Table.key_of_get? hrow
  have hget := congrArg (Table.get? · dispatch.id) hsame.dispatches
  simp only [Table.get?_put, hid, if_true, hrow, Option.some.injEq] at hget
  have hnext := congrArg Dispatch.version hget
  simp only at hnext
  omega

theorem Position.updateDispatch {attempt : Attempt} {token : String} {moment : Moment}
    (h : Position d attempt token) (hcall : attempt.call? moment = some (.updateDispatch dispatch status)) :
    status = "cancelled" ∨ (dispatch.id = attempt.dispatchId ∧ HeldSince d token dispatch) := by
  have hcancelled : attempt.script.Within (Query.Of attempt.runner.lease (· = "cancelled")) Next.isLater →
      status = "cancelled" := by
    intro hwithin
    unfold Attempt.call? at hcall
    cases hscript : attempt.script with
    | ret next => simp [hscript] at hcall
    | raise e => simp [hscript] at hcall
    | ask q k =>
      rw [hscript] at hcall hwithin
      cases hwithin.1 moment _ hcall
      assumption
  cases h with
  | starting script =>
    rw [Attempt.call?_ask script] at hcall
    cases hcall
  | read found id seen script =>
    unfold LocalJobRunner.proceed at script
    split_ifs at script
    · exact Or.inl (hcancelled (by rw [script]; trivial))
    · rw [Attempt.call?_ask script] at hcall
      cases hcall
  | entering found job id seen script =>
    by_cases hqueued : job.status = .queued
    · simp only [LocalJobRunner.enter, hqueued] at script
      rw [Attempt.call?_ask script] at hcall
      cases hcall
    by_cases hrunning : job.status = .running
    · simp only [LocalJobRunner.enter, hrunning] at script
      split_ifs at script
      · rw [Attempt.call?_ask script] at hcall
        cases hcall
      · unfold Attempt.call? at hcall
        rw [script] at hcall
        cases hcall
    · refine Or.inl (hcancelled ?_)
      rw [script]
      have hexits : (attempt.runner.enter found job).Within (Query.Of attempt.runner.lease (· = "cancelled"))
          Next.isLater := LocalJobRunner.enter_exits rfl hqueued hrunning
      exact hexits.handle fun _ => trivial
  | taking found job id held script =>
    rcases script with script | script
    · unfold Attempt.call? at hcall
      rw [script] at hcall
      cases hcall
    · rw [Attempt.call?_ask script] at hcall
      cases hcall
      exact Or.inr ⟨id, held⟩
  | apart script => exact Or.inl (hcancelled script)

end

namespace Server
variable {d₀ : LocalDb} {s : Server} {act : Act} {attempt : Attempt}

theorem Sound.refused (h : s.Sound d₀) {call : Call} {token : String}
    (hsuperseded : token ∈ (tokensOf attempt.dispatchId s.run.log).tail)
    (hcall : s.call? act = some call) (hlease : call.lease = some (attempt.dispatchId, token)) :
    SameRows s.run.db (s.step act).run.db := by
  rw [step_call hcall, superseded_refused h.reach hsuperseded hlease]
  exact SameRows.refl _

/-- What a superseded attempt's step changes: rows, if and only if it marks a dispatch cancelled that has not
moved on since it was read. -/
theorem Sound.superseded (h : s.Sound d₀) (hattempt : act.attempt s = some attempt)
    (hsuperseded : attempt.Superseded s.run.log) :
    SameRows s.run.db (s.step act).run.db ↔
      ∀ dispatch, s.call? act = some (.updateDispatch dispatch "cancelled") →
        ∀ row, s.run.db.dispatches.get? dispatch.id = some row → row.version ≠ dispatch.version := by
  constructor
  · intro hsame dispatch hcall row hrow hversion
    rw [step_call hcall] at hsame
    exact updateDispatch_changes hrow hversion hsame
  · intro hmoved
    obtain ⟨token, hlease, htoken⟩ := hsuperseded
    cases hcall : s.call? act with
    | none =>
      rw [step_silent hcall]
      exact SameRows.refl _
    | some call =>
      cases act with
      | call call' => cases hattempt
      | spawn runner dispatchId => cases hattempt
      | work i moment =>
        have hfound : s.attempts[i]? = some attempt := hattempt
        have hmem := List.mem_of_getElem? hfound
        have hown : attempt.call? moment = some call := by
          simpa only [call?, hfound, Option.bind_some] using hcall
        have hof : OfAttempt attempt.runner.lease (fun _ => True) call := by
          have hwithin := h.within attempt hmem
          unfold Attempt.call? at hown
          cases hscript : attempt.script with
          | ret next => simp [hscript] at hown
          | raise e => simp [hscript] at hown
          | ask q k =>
            rw [hscript] at hown hwithin
            exact hwithin.1 moment call hown
        cases hof with
        | update => exact h.refused htoken hcall hlease
        | finishDispatch => exact h.refused htoken hcall hlease
        | releaseExecution dispatchId token' hlease' =>
          refine h.refused htoken hcall ?_
          rw [← hlease, hlease']
          rfl
        | updateDispatch dispatch status =>
          have hstale : ∀ row, s.run.db.dispatches.get? dispatch.id = some row →
              row.version ≠ dispatch.version := by
            rcases (h.position attempt hmem token hlease).updateDispatch hown with rfl | ⟨hid, hheld⟩
            · exact hmoved dispatch hcall
            · obtain ⟨row, hrow, -, hcurrent⟩ := hheld
              have hlost : s.run.db.tokenOf dispatch.id ≠ some token :=
                hid ▸ (reach_fenced h.reach attempt.dispatchId).superseded htoken
              intro row' hrow'
              rw [hrow] at hrow'
              cases hrow'
              exact (hcurrent.resolve_left hlost).ne'
          obtain ⟨e, hrun⟩ : ∃ e, (Call.updateDispatch dispatch status).prog.run s.run.db = .error e :=
            updateDispatch_moved hstale
          rw [step_call hcall, Prog.transaction_of_error hrun]
          exact SameRows.refl _
      | beat i ttl now now' =>
        refine h.refused htoken hcall ?_
        have hfound : s.attempts[i]? = some attempt := hattempt
        simp only [call?, hfound, hlease, Option.bind_eq_bind, Option.bind_some] at hcall
        cases hcall
        rfl

end Server

/-- Superseded attempts change no row if and only if, whenever one of them is to mark a dispatch cancelled,
the row has moved on since it was read. -/
theorem superseded_harmless (d₀ : LocalDb) (acts : List Act)
    (hfresh : ({ run := { db := d₀ } } : Server).Fresh acts) :
    ({ run := { db := d₀ } } : Server).Harmless acts ↔ ({ run := { db := d₀ } } : Server).MovedOn acts := by
  have hsound : ({ run := { db := d₀ } } : Server).Sound d₀ := by
    constructor
    · exact .init
    · intro attempt hattempt
      cases hattempt
    · intro attempt hattempt
      cases hattempt
  revert hfresh hsound
  generalize ({ run := { db := d₀ } } : Server) = s
  intro hfresh hsound
  induction acts generalizing s with
  | nil => exact Iff.rfl
  | cons act acts ih =>
    have hrest := ih (s.step act) hfresh.2 (hsound.step hfresh.1)
    refine and_congr (forall_congr' fun attempt => forall_congr' fun hattempt => ?_) hrest
    exact forall_congr' fun hsuperseded => hsound.superseded hattempt hsuperseded

/-- Three claims of a dispatch: the first attempt starts the job, whose cancellation is then requested; the
second starts when its lease has expired and been issued again, and goes on up to its early exit. -/
def lateStart : List Act :=
  [.call (.createJobAndDispatch Hosted.sampleJob ⟨"dispatch", "job", "pending", 0⟩ none),
    .call (.claimExecution "dispatch" 3 30 3 "first" 0),
    .spawn { lease := some ("dispatch", "first") } "dispatch"] ++
  List.replicate 5 (.work 0 {}) ++
  [.call (.requestCancellation "job"), .call (.claimExecution "dispatch" 3 30 3 "second" 40),
    .call (.claimExecution "dispatch" 3 30 3 "third" 80),
    .spawn { lease := some ("dispatch", "second") } "dispatch"] ++
  List.replicate 4 (.work 1 { now := 80 })

theorem superseded_harmless_lateStart :
    ({ run := { db := {} } } : Server).Fresh lateStart ∧
    (({ run := { db := {} } } : Server).Harmless lateStart ↔
      ({ run := { db := {} } } : Server).MovedOn lateStart) := by
  have hfresh : ({ run := { db := {} } } : Server).Fresh lateStart := by decide +kernel
  exact ⟨hfresh, superseded_harmless {} lateStart hfresh⟩

/-- The late attempt takes the dispatch from the third one. -/
theorem superseded_harmful : ∃ acts, ({ run := { db := {} } } : Server).Fresh acts ∧
    ¬ ({ run := { db := {} } } : Server).Harmless acts := by
  refine ⟨lateStart ++ [.work 1 { now := 80 }], by decide +kernel, fun hharmless => ?_⟩
  have hlast := (Server.harmless_append.mp hharmless).2.1
  have hfound : ((({ run := { db := {} } } : Server).after lateStart).attempts[1]?).map
      (fun attempt => (attempt.runner.lease, attempt.dispatchId)) =
        some (some ("dispatch", "second"), "dispatch") := by decide +kernel
  obtain ⟨attempt, hattempt, hnames⟩ := Option.map_eq_some_iff.mp hfound
  obtain ⟨hlease, hdispatchId⟩ := Prod.mk.inj hnames
  have hsame := hlast attempt hattempt ⟨"second", hdispatchId ▸ hlease, hdispatchId ▸ by decide +kernel⟩
  have hstatuses := congrArg (fun dispatches => dispatches.rows.map Dispatch.status) hsame.dispatches
  revert hstatuses
  decide +kernel

end KenkuiServer.Local
