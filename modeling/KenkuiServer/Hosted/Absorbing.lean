import KenkuiServer.Hosted.Concurrency

/-! Terminal statuses under concurrency. Completion and cancellation are guarded by the job's version,
but a claim that ends a lost worker's job writes over whatever the job has become since the claim read
its status. -/
namespace KenkuiServer.Hosted
open Txn Jobs Billing Storage PostgresExecution

/-- The calls that race for one job. -/
def Call.isRacing : Call → Bool
  | .claimExecution _ _ _ _ _ _ _ | .update _ _ _ _ _ _ _ _ | .requestCancellation _ _ => true
  | _ => false

/-- Racing calls start at any time, with snapshots read before. -/
def Racing (s : HostedSys) : Label Call → Prop
  | .start call => call.isRacing ∧ call.Admissible (s.db :: s.past)
  | _ => True

/-- A lost worker's job is ended only while it is not over: the update that ends it, when it comes to
run, meets no committed terminal status. -/
def Guarded (s : HostedSys) : Label Call → Prop
  | .start call => call.Admissible (s.db :: s.past)
  | .run i => ∀ call t jobId status at' k,
    s.sessions[i]? = some (.running call t (.step (loseJob jobId status at') k)) →
      s.free i ((loseJob jobId status at').locks (applyAll t.writes s.db)) →
        ∀ row, s.db.jobs.get? jobId = some row → row.status.isTerminal = false
  | .crash _ => True

theorem guarded_guarantee :
    Guarantee (hostedRely True) (exhaustion True) Call.Admissible Call.prog Guarded := by
  refine hosted_guarantee (fun _ _ h => h) fun s i call t β st k hok hrunning hfree => ?_
  rintro - rfl jobId status at' rfl
  exact hok call t jobId status at' k hrunning hfree

/-- In a run whose lost workers' jobs are ended only while they are not over, a terminal status once
committed is there to stay. -/
theorem terminal_absorbing {d₀ : HostedDb} {s : HostedSys} (h : Sys.Reach Call.prog Guarded d₀ s) :
    ∀ d ∈ s.past, ∀ row ∈ d.jobs.rows, row.status.isTerminal = true →
      ∃ row', s.db.jobs.get? row.id = some row' ∧ row'.status = row.status := by
  intro d hd row hrow hterminal
  have hsince : Since True [] d s.db := (h.good guarded_guarantee).past d hd
  have hfound := Table.get?_of_mem hrow
  obtain ⟨row', hrow', -⟩ := hsince.jobs row.id row hfound
  exact ⟨row', hrow', (hsince.kept row.id row row' hfound hrow').2.2 trivial hterminal⟩

/-- A job on the last of its three attempts, whose lease expires at 110. -/
def lastAttempt : HostedDb :=
  Call.runAll
    [.accountForIdentity "account" "lot" "identity" 5,
      .admitJob "authorization" sampleJob ⟨"dispatch", "job", "pending", 0⟩ "account" "identity" 3 none,
      .claimExecution "dispatch" 3 30 3 "first" 0 0, .claimExecution "dispatch" 3 30 3 "second" 40 0,
      .claimExecution "dispatch" 3 30 3 "third" 80 0,
      .update sampleJob .dispatchRequested "running" none (some ("dispatch", "third")) none 81 0] {}

def sampleRunning : Job := { sampleJob with status := .running, version := 1, progress := .running }

/-- The last attempt completes the job, one second before its lease expires. -/
def completion : Call :=
  .update sampleRunning .completed "succeeded" none (some ("dispatch", "third")) none 109 109

def started (calls : List Call) : HostedSys :=
  calls.foldl (fun s call => s.step Call.prog (.start call)) { db := lastAttempt }

/-- The completion passes its lease check; a claim at 111 reads that the job is running and waits for
the lease; the completion commits; the claim finds the attempts exhausted and fails the job. -/
theorem terminal_overwritten :
    ∃ s : HostedSys, Sys.Reach Call.prog Racing lastAttempt s ∧ ∃ d ∈ s.past, ∃ row ∈ d.jobs.rows,
      row.status = .succeeded ∧ (s.db.jobs.get? row.id).map (·.status) = some .failed := by
  have hracing : Racing (started []) (.start completion) :=
    ⟨rfl, lastAttempt, List.mem_cons_self, by decide +kernel⟩
  have hclaim : Racing (started [completion])
      (.start (.claimExecution "dispatch" 3 30 3 "fourth" 111 111)) := ⟨rfl, trivial⟩
  have hreach : Sys.Reach Call.prog Racing lastAttempt
      (started [completion, .claimExecution "dispatch" 3 30 3 "fourth" 111 111]) :=
    .step _ (.step _ .init hracing) hclaim
  exact ⟨_, hreach.schedule (fun _ _ => trivial)
    ([0, 1, 1] ++ List.replicate 25 0 ++ List.replicate 15 1), by decide +kernel⟩

/-- A turn of a session that has no statement to run, or while no job is over, is always guarded. -/
def calm (s : HostedSys) (i : ℕ) : Bool :=
  s.db.jobs.rows.all (!·.status.isTerminal) || match s.sessions[i]? with
    | some (.running _ _ (.step _ _)) => false
    | _ => true

theorem guarded_of_calm {s : HostedSys} {i : ℕ} (h : calm s i) : Guarded s (.run i) := by
  intro call t jobId status at' k hrunning _ row hrow
  simp only [calm, hrunning, Bool.or_false, List.all_eq_true, Bool.not_eq_true'] at h
  exact h row (Table.mem_of_get? hrow)

def calmTurns : List ℕ → HostedSys → Bool
  | [], _ => true
  | i :: turns, s => calm s i && calmTurns turns (s.step Call.prog (.run i))

theorem reach_calm {s : HostedSys} (h : Sys.Reach Call.prog Guarded lastAttempt s) {turns : List ℕ}
    (hcalm : calmTurns turns s) :
    Sys.Reach Call.prog Guarded lastAttempt (s.schedule Call.prog turns) := by
  induction turns generalizing s with
  | nil => exact h
  | cons i turns ih =>
    simp only [calmTurns, Bool.and_eq_true] at hcalm
    exact ih (.step (.run i) h (guarded_of_calm hcalm.1)) hcalm.2

/-- A claim finds the attempts exhausted and fails the running job, while a late renewal has already been
refused and only has to return. -/
theorem terminal_absorbing_exhausted :
    let s := (started [.claimExecution "dispatch" 3 30 3 "fourth" 111 111,
      .renewExecution "dispatch" "second" 30 111 111]).schedule
      Call.prog (1 :: List.replicate 25 0 ++ [1])
    (s.db.jobs.get? "job").map (·.status) = some .failed ∧
      (∃ d ∈ s.past, ∃ row ∈ d.jobs.rows, row.status.isTerminal = true) ∧
      ∀ d ∈ s.past, ∀ row ∈ d.jobs.rows, row.status.isTerminal = true →
        ∃ row', s.db.jobs.get? row.id = some row' ∧ row'.status = row.status := by
  have hclaim : Guarded (started []) (.start (.claimExecution "dispatch" 3 30 3 "fourth" 111 111)) := trivial
  have hrenewal : Guarded (started [.claimExecution "dispatch" 3 30 3 "fourth" 111 111])
      (.start (.renewExecution "dispatch" "second" 30 111 111)) := trivial
  exact ⟨by decide +kernel, by decide +kernel,
    terminal_absorbing (reach_calm (.step _ (.step _ .init hclaim) hrenewal) (by decide +kernel))⟩

end KenkuiServer.Hosted
