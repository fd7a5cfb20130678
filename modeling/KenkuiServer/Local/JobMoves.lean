import KenkuiServer.Local.Fencing
import KenkuiServer.Local.Leases

/-! One job under the local calls: what a single call does to its row, and how a row read earlier relates to
the row of now. -/
namespace KenkuiServer.Jobs

theorem JobEvent.init_named {jobId eventType : String} {sequence : ℕ} {progress : Progress}
    (hid : strip jobId = jobId ∧ jobId ≠ "") (htype : strip eventType = eventType ∧ eventType ≠ "")
    (hsequence : 1 ≤ sequence) :
    JobEvent.init jobId sequence eventType progress = .ok ⟨jobId, sequence, eventType, progress⟩ := by
  have hfirst : ¬ sequence < 1 := by omega
  simp only [JobEvent.init, required_eq hid, required_eq htype, Bind.bind, Except.bind, Pure.pure,
    Except.pure, hfirst, if_false]

end KenkuiServer.Jobs

namespace KenkuiServer.Storage
open Txn Jobs Repositories
variable {d : LocalDb}

theorem update_refused {job : Job} {expectedVersion : ℤ} {eventType : String}
    {lease : Option Lease} {now : Time} (hversion : (job.version : ℤ) = expectedVersion + 1)
    (hspec : ∀ row, d.jobs.get? job.id = some row → row.spec = job.spec)
    (htype : strip eventType = eventType ∧ eventType ≠ "") :
    (updateJobAndAppendEvent job expectedVersion eventType none lease none now).Outcome
      (fun e => e = .staleWrite ∧ (¬ d.LeaseValid now lease ∨
        ∀ row, d.jobs.get? job.id = some row → (row.version : ℤ) ≠ expectedVersion))
      (fun _ _ => True) d := by
  unfold updateJobAndAppendEvent
  refine Prog.outcome_raiseIf (fun hne => absurd hversion hne) fun _ => ?_
  refine checkLease_outcome (fun hlost => ⟨rfl, Or.inl hlost⟩) fun _ => ?_
  simp only [issue_bind]
  refine Prog.outcome_select ?_
  refine Prog.outcome_raiseIf (fun hother => ?_) fun _ => ?_
  · simp only [Option.any_eq_true, decide_eq_true_eq] at hother
    obtain ⟨row, hrow, hne⟩ := hother
    exact absurd (hspec row hrow) hne
  refine updateJob_outcome (fun hmoved => ⟨rfl, Or.inr hmoved⟩) fun row hrow _ => ?_
  simp only [appendEvent, issue_bind, Prog.step_bind]
  refine Prog.outcome_select ?_
  have hsequence : ∀ d : LocalDb, 1 ≤ d.nextSequence job.id := fun d => Nat.le_add_left 1 _
  simp only [JobEvent.init_named job.named htype (hsequence _), Prog.step_bind]
  exact insertEvent_outcome rfl trivial

end KenkuiServer.Storage

namespace KenkuiServer.Local
open Txn Jobs Storage Repositories

/-- What a committed call did to the row of a job. -/
inductive JobMove (d : LocalDb) (call : Call) (row next : Job) : Prop
  | same (same : next = row)
  | updated (event : JobTransitionEvent) (eventType : String) (artifact : Option Artifact)
    (lease : Option Lease)
      (failure : Option (String × String)) (now : Time)
      (by_update : call = .update row event eventType artifact lease failure now)
      (moved : transition row event = .ok next) (held : d.LeaseValid now lease)
  | cancelled (by_request : call = .requestCancellation row.id) (going : row.status = .queued ∨
    row.status = .running)
      (status : next.status = .cancelled ∨ next.status = .cancelRequested)
      (moved : next = row.set next.status (row.version + 1) row.progress)
  | lost (going : row.status.isTerminal = false)
      (moved : next = row.set (lostStatus row.status) (row.version + 1) row.progress)

/-- A row read earlier, and the row of the job now. -/
structure Since (old row : Job) : Prop where
  spec : row.spec = old.spec
  version : old.version ≤ row.version
  current : old.version = row.version → row = old
  settled : old.status.isTerminal = true → row = old
  started : old.status ≠ .queued → row.status ≠ .queued
  requested : old.status = .cancelRequested → row = old ∨ row.status = .cancelled

section
variable {d d' : LocalDb} {call : Call} {old row next : Job}

theorem Since.refl (row : Job) : Since row row where
  spec := rfl
  version := le_rfl
  current := fun _ => rfl
  settled := fun _ => rfl
  started := id
  requested := fun _ => Or.inl rfl

theorem Since.trans (h : Since old row) (h' : Since row next) : Since old next := by
  have hversion := h.version
  have hversion' := h'.version
  constructor
  · rw [h'.spec, h.spec]
  · omega
  · intro hsame
    have hrow : row = old := h.current (by omega)
    have hnext : next = row := h'.current (by omega)
    rw [hnext, hrow]
  · intro hsettled
    have hrow : row = old := h.settled hsettled
    have hnext : next = row := h'.settled (by rw [hrow, hsettled])
    rw [hnext, hrow]
  · exact fun hstarted => h'.started (h.started hstarted)
  · intro hrequested
    rcases h.requested hrequested with hrow | hcancelled
    · rw [hrow] at h'
      exact h'.requested hrequested
    · have hnext : next = row := h'.settled (by rw [hcancelled]; rfl)
      right
      rw [hnext, hcancelled]

theorem cancelled_of_moves {status : JobStatus} (h : Moves .cancelRequested status) :
    status = .cancelled := by
  cases h
  rfl

theorem not_queued_of_moves {status status' : JobStatus} (h : Moves status status') : status' ≠ .queued := by
  cases h <;> simp

theorem JobMove.since (h : JobMove d call row next) : Since row next := by
  cases h with
  | same same =>
    rw [same]
    exact .refl row
  | updated event eventType artifact lease failure now by_update moved held =>
    have hadvances := transition_advances moved
    have hgoing := hadvances.moves.not_terminal
    have hversion := hadvances.version
    constructor
    · exact hadvances.spec
    · omega
    · intro hsame
      omega
    · intro hsettled
      rw [hgoing] at hsettled
      cases hsettled
    · intro hstarted
      exact not_queued_of_moves hadvances.moves
    · intro hrequested
      have hmoves := hadvances.moves
      rw [hrequested] at hmoves
      exact Or.inr (cancelled_of_moves hmoves)
  | cancelled by_request going status moved =>
    have hversion : next.version = row.version + 1 := by rw [moved]; rfl
    have hspec : next.spec = row.spec := by rw [moved]; rfl
    constructor
    · exact hspec
    · omega
    · intro hsame
      omega
    · intro hsettled
      rcases going with hstatus | hstatus <;> rw [hstatus] at hsettled <;> cases hsettled
    · intro hstarted hqueued
      rcases status with hstatus | hstatus <;> rw [hstatus] at hqueued <;> cases hqueued
    · intro hrequested
      rcases going with hstatus | hstatus <;> rw [hstatus] at hrequested <;> cases hrequested
  | lost going moved =>
    have hversion : next.version = row.version + 1 := by rw [moved]; rfl
    have hspec : next.spec = row.spec := by rw [moved]; rfl
    have hstatus : next.status = lostStatus row.status := by rw [moved]; rfl
    constructor
    · exact hspec
    · omega
    · intro hsame
      omega
    · intro hsettled
      rw [going] at hsettled
      cases hsettled
    · intro hstarted
      rw [hstatus, lostStatus]
      split_ifs <;> simp
    · intro hrequested
      right
      rw [hstatus, hrequested]
      rfl

end

section
variable {past : List LocalDb} {d d' : LocalDb} {reply : Reply} {id : String} {row : Job}

theorem update_replaces {snapshot job : Job} {event : JobTransitionEvent}
    {artifact : Option Artifact} {lease : Option Lease} {failure : Option (String × String)} {now : Time}
    {e : JobEvent} (hsnapshot : ∃ old ∈ past, snapshot ∈ old.jobs.rows)
    (hpast : ∀ old ∈ past, Table.Later (fun job : Job => job.version) old.jobs d.jobs)
    (ht : transition snapshot event = .ok job)
    (h : Updated job ((job.version : ℤ) - 1) artifact lease failure now e d d') :
    d.jobs.get? snapshot.id = some snapshot := by
  have hadvances := transition_advances ht
  have hversion := hadvances.version
  obtain ⟨old, hold, hmem⟩ := hsnapshot
  obtain ⟨stored, hstored, hexpected, -⟩ := h.found
  rw [hadvances.id] at hstored
  have hsame : stored = snapshot :=
    (hpast old hold).eq_of_version (Table.get?_of_mem hmem) hstored (by omega)
  rw [hstored, hsame]

theorem requestCancellation_requested {jobId : String} (hrow : d.jobs.get? jobId = some row)
    (hrequested : row.status = .cancelRequested) : (requestCancellation jobId).run d = .ok (row, d) := by
  unfold requestCancellation
  simp only [selectJob, issue_bind, Prog.run_select, hrow, hrequested, or_true, if_true]
  rfl

theorem cancellation_status (status : JobStatus) (dispatch : Option String) :
    (cancellation status dispatch).1 = .cancelled ∨ (cancellation status dispatch).1 = .cancelRequested := by
  unfold cancellation
  split_ifs <;> simp

theorem get?_put_moved {moved next : Job} {P : Job → Prop} (hrow : d.jobs.get? id = some row)
    (hjobs : d'.jobs = d.jobs.put next) (hmoved : d.jobs.get? next.id = some moved)
    (hnext : moved = row → P next) (hsame : P row) : ∃ job, d'.jobs.get? id = some job ∧ P job := by
  rw [hjobs, Table.get?_put]
  split_ifs with hid
  · have hrow' : moved = row := by
      rw [hid, hrow] at hmoved
      exact (Option.some.inj hmoved).symm
    exact ⟨next, rfl, hnext hrow'⟩
  · exact ⟨row, hrow, hsame⟩

theorem requestCancellation_move {jobId : String} {job : Job}
    (h : (requestCancellation jobId).run d = .ok (job, d')) (hrow : d.jobs.get? id = some row) :
    ∃ next, d'.jobs.get? id = some next ∧ JobMove d (.requestCancellation jobId) row next := by
  cases cancel_outcome.of_ok h with
  | already found settled result =>
    rw [result]
    exact ⟨row, hrow, .same rfl⟩
  | moved stored e found going cancelled appended result =>
    have hjob : stored.id = jobId := Table.key_of_get? found
    have hstatus : stored.status = .queued ∨ stored.status = .running := by
      cases hs : stored.status with
      | queued => exact Or.inl rfl
      | running => exact Or.inr rfl
      | cancelRequested =>
        have hrun := requestCancellation_requested found hs
        rw [h] at hrun
        have hsame : job = stored := congrArg Prod.fst (Except.ok.inj hrun)
        have hversion : job.version = stored.version + 1 := by rw [cancelled]; rfl
        rw [hsame] at hversion
        omega
      | succeeded | failed | cancelled =>
        rw [hs] at going
        cases going
    have hid : job.id = stored.id := by rw [cancelled]; rfl
    have hnext : job.status = .cancelled ∨ job.status = .cancelRequested := by
      rw [cancelled]
      exact cancellation_status _ _
    have hmoved : job = stored.set job.status (stored.version + 1) stored.progress := by
      rw [cancelled]
      rfl
    refine get?_put_moved hrow (congrArg LocalDb.jobs result) (by rw [hid, hjob, found]) ?_ (.same rfl)
    intro hsame
    rw [← hsame, ← hjob]
    exact .cancelled rfl hstatus hnext hmoved

theorem claimExecution_move {dispatchId token : String} {limit maxAttempts : ℤ} {ttl now : Time}
    {issued : Option String} {call : Call}
    (h : (claimExecution dispatchId limit ttl maxAttempts token now).run d = .ok (issued, d'))
    (hrow : d.jobs.get? id = some row) : ∃ next, d'.jobs.get? id = some next ∧ JobMove d call row next := by
  cases claim_outcome.of_ok h with
  | idle => exact ⟨row, hrow, .same rfl⟩
  | issued => exact ⟨row, hrow, .same rfl⟩
  | lost stored dispatch lease e found going =>
    refine get?_put_moved hrow rfl found ?_ (.same rfl)
    intro hsame
    rw [← hsame]
    exact .lost going rfl

theorem Call.job_move (call : Call) (hadm : call.Admissible past)
    (hpast : ∀ old ∈ past, Table.Later (fun job : Job => job.version) old.jobs d.jobs)
    (h : call.prog.run d = .ok (reply, d')) (hrow : d.jobs.get? id = some row) :
    ∃ next, d'.jobs.get? id = some next ∧ JobMove d call row next := by
  cases call with
  | createJobAndDispatch job dispatch idempotencyKey =>
    obtain ⟨job', hrun, -⟩ := Prog.run_map_ok h
    cases create_outcome.of_ok hrun with
    | replayed => exact ⟨row, hrow, .same rfl⟩
    | inserted fresh freshDispatch =>
      have hne : job.id ≠ id := by
        intro hid
        rw [hid, hrow] at fresh
        cases fresh
      exact ⟨row, (d.jobs.get?_put_of_ne hne).trans hrow, .same rfl⟩
  | update snapshot event eventType artifact lease failure now =>
    simp only [Call.prog] at h
    cases ht : transition snapshot event with
    | error e => simp [ht] at h
    | ok job =>
      simp only [ht] at h
      obtain ⟨e, hrun, -⟩ := Prog.run_map_ok h
      have hupdated := update_outcome.of_ok hrun
      have hcurrent := update_replaces hadm hpast ht hupdated
      have hid := (transition_advances ht).id
      refine get?_put_moved hrow (congrArg LocalDb.jobs hupdated.result)
        (by rw [hid, hcurrent]) ?_ (.same rfl)
      intro hsame
      rw [← hsame]
      exact .updated event eventType artifact lease failure now rfl ht hupdated.lease
  | requestCancellation jobId =>
    obtain ⟨job, hrun, -⟩ := Prog.run_map_ok h
    exact requestCancellation_move hrun hrow
  | finishDispatch dispatch lease now =>
    obtain ⟨finished, hrun, -⟩ := Prog.run_map_ok h
    cases finish_outcome.of_ok hrun <;> exact ⟨row, hrow, .same rfl⟩
  | updateDispatch dispatch status =>
    obtain ⟨u, hrun, -⟩ := Prog.run_map_ok (f := fun _ => Reply.none) h
    obtain ⟨stored, -, -, rfl⟩ := updateDispatch_outcome.of_ok hrun
    exact ⟨row, hrow, .same rfl⟩
  | claimExecution dispatchId limit ttl maxAttempts token now =>
    obtain ⟨issued, hrun, -⟩ := Prog.run_map_ok h
    exact claimExecution_move hrun hrow
  | renewExecution dispatchId token ttl now now' =>
    obtain ⟨renewed, hrun, -⟩ := Prog.run_map_ok h
    rcases renew_outcome.of_ok hrun with ⟨-, rfl⟩ | ⟨lease, -, -, -, -, rfl⟩ <;> exact ⟨row, hrow, .same rfl⟩
  | releaseExecution dispatchId token =>
    obtain ⟨u, hrun, -⟩ := Prog.run_map_ok (f := fun _ => Reply.none) h
    rcases release_outcome.of_ok hrun with rfl | ⟨lease, -, -, rfl⟩ <;> exact ⟨row, hrow, .same rfl⟩

end

/-- Calls as their callers may make them, each claim with a fresh token. -/
def Regular (s : LocalRun) (call : Call) : Prop := Starts s call ∧ FreshTokens s call

theorem regular_starts (s : LocalRun) (call : Call) (h : Regular s call) : Starts s call := h.1

section
variable {ok : LocalRun → Call → Prop} {d₀ : LocalDb} {s : LocalRun} {id : String} {row : Job}

theorem step_job_move (hok : ∀ s call, ok s call → Starts s call)
    (h : Serial.Reach Call.prog ok d₀ s) {call : Call} (hcall : ok s call)
    (hrow : s.db.jobs.get? id = some row) :
    ∃ next, (s.step Call.prog call).db.jobs.get? id = some next ∧ JobMove s.db call row next := by
  have hspec := Serial.step_spec Call.prog s call
  revert hspec
  generalize s.step Call.prog call = s'
  intro hspec
  cases hspec with
  | commit ran => exact call.job_move (hok s call hcall) (reach_later hok h) ran hrow
  | fail error => exact ⟨row, hrow, .same rfl⟩

theorem reach_since (hok : ∀ s call, ok s call → Starts s call) (h : Serial.Reach Call.prog ok d₀ s) :
    ∀ d ∈ s.db :: s.past, ∀ id old, d.jobs.get? id = some old →
      ∃ row, s.db.jobs.get? id = some row ∧ Since old row := by
  induction h with
  | init =>
    intro d hd id old hold
    rw [List.mem_singleton] at hd
    rw [hd] at hold
    exact ⟨old, hold, .refl old⟩
  | step call reach allowed ih =>
    rename_i s
    intro d hd id old hold
    rw [Serial.step_past] at hd
    rcases List.mem_cons.mp hd with rfl | hd
    · exact ⟨old, hold, .refl old⟩
    · obtain ⟨row, hrow, hsince⟩ := ih d hd id old hold
      obtain ⟨next, hnext, hmove⟩ := step_job_move hok reach allowed hrow
      exact ⟨next, hnext, hsince.trans hmove.since⟩

end

end KenkuiServer.Local
