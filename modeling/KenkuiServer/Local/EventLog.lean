import KenkuiServer.Local.Outcomes
import KenkuiServer.Txn.Versioned

/-! The event log of the local store. -/
namespace KenkuiServer.Storage
open Txn Jobs

/-- What a committed local call did to the jobs and their events: nothing, one job moved to its next
version with one more event, or one new job. -/
inductive LocalEffect (moves : Job → Job → Prop) (d d' : LocalDb) : Prop
  | idle (jobs : d'.jobs = d.jobs) (events : d'.events = d.events)
  | moved (row next : Job) (e : JobEvent) (move : moves row next)
      (found : d.jobs.get? next.id = some row) (version : next.version = row.version + 1)
      (appended : LocalAppended d next e) (jobs : d'.jobs = d.jobs.put next)
      (events : d'.events = d.events.put e)
  | created (row : Job) (fresh : d.jobs.get? row.id = none) (version : row.version = 0)
      (jobs : d'.jobs = d.jobs.put row) (events : d'.events = d.events)

section
variable {moves : Job → Job → Prop} {d d' : LocalDb}

theorem LocalEffect.bumps (h : LocalEffect moves d d') :
    Table.Bumps (fun job : Job => job.version) d.jobs d'.jobs := by
  cases h with
  | idle jobs events => exact .same jobs
  | moved row next e move found version appended jobs events => exact .moved row next found version jobs
  | created row fresh version jobs events => exact .created row fresh version jobs

theorem LocalEffect.record (h : LocalEffect moves d d') (id : String) :
    Record.Step (d.record id) (d'.record id) := by
  unfold LocalDb.record
  cases h with
  | idle jobs events =>
    rw [jobs, events]
    exact .same rfl
  | moved row next e move found version appended jobs events =>
    rw [jobs, events]
    refine EventTable.record_moved found version appended.jobId ?_ appended.progress id
    rw [appended.sequence]
    exact d.nextSequence_eq next.id
  | created row fresh version jobs events =>
    rw [jobs, events]
    exact EventTable.record_created fresh version id

end

end KenkuiServer.Storage

namespace KenkuiServer.Local
open Txn Jobs Storage

/-- The status moves of a local job: those of `transition`, those of a cancellation request, and the
end of a job whose worker was lost. -/
inductive StatusMove (row next : Job) : Prop
  | worker (moves : Moves row.status next.status)
  | cancellation (going : row.status.isTerminal = false) (dispatch : Option String)
      (status : next.status = (Repositories.cancellation row.status dispatch).1)
  | lost (going : row.status.isTerminal = false) (status : next.status = lostStatus row.status)

/-- What a call does to the jobs, and that it never fails on the key of the events. -/
theorem Call.effect {past : List LocalDb} {d : LocalDb} (call : Call) (hadm : call.Admissible past)
    (hpast : ∀ old ∈ past, Table.Later (fun job : Job => job.version) old.jobs d.jobs) :
    call.prog.Outcome noLocalClash (fun _ d' => LocalEffect StatusMove d d') d := by
  cases call with
  | createJobAndDispatch job dispatch idempotencyKey =>
    refine create_outcome.bind fun _ d' hcreated => ?_
    cases hcreated with
    | replayed => exact .idle rfl rfl
    | inserted fresh freshDispatch => exact .created job fresh hadm rfl rfl
  | update snapshot event eventType artifact lease failure now =>
    simp only [Call.prog]
    cases ht : transition snapshot event with
    | error e =>
      obtain ⟨code, rfl⟩ := transition_error_value ht
      exact (by simp [localClash] : noLocalClash (.value code))
    | ok job =>
      have hadvances := transition_advances ht
      obtain ⟨old, hold, hmem⟩ := hadm
      refine update_outcome.bind fun e d' hupdated => ?_
      obtain ⟨row, hrow, hexpected, hspec⟩ := hupdated.found
      -- the version guard makes the row written over the snapshot
      have hsame : row = snapshot := by
        have hrow' : d.jobs.get? snapshot.id = some row := by rw [← hadvances.id]; exact hrow
        refine (hpast old hold).eq_of_version (Table.get?_of_mem hmem) hrow' ?_
        have := hadvances.version
        omega
      subst hsame
      exact .moved row job e (.worker hadvances.moves) hrow hadvances.version hupdated.appended
        (congrArg LocalDb.jobs hupdated.result) (congrArg LocalDb.events hupdated.result)
  | requestCancellation jobId =>
    refine cancel_outcome.bind fun job d' hcancelled => ?_
    cases hcancelled with
    | already found settled result =>
      rw [result]
      exact .idle rfl rfl
    | moved row e found going cancelled appended result =>
      have hid : row.id = jobId := Table.key_of_get? found
      subst cancelled
      refine .moved row _ e (.cancellation going _ rfl) ?_ rfl appended ?_ ?_
      · rw [← hid] at found
        exact found
      · rw [result]
      · rw [result]
  | finishDispatch dispatch lease now =>
    refine finish_outcome.bind fun finished d' hfinished => ?_
    cases hfinished with
    | refused => exact .idle rfl rfl
    | done => exact .idle rfl rfl
  | updateDispatch dispatch status =>
    refine updateDispatch_outcome.bind fun _ d' hupdated => ?_
    obtain ⟨stored, -, -, rfl⟩ := hupdated
    exact .idle rfl rfl
  | claimExecution dispatchId limit ttl maxAttempts token now =>
    refine claim_outcome.bind fun reply d' hclaimed => ?_
    cases hclaimed with
    | idle => exact .idle rfl rfl
    | lost row dispatch lease e found going foundDispatch jobId foundLease expired appended =>
      exact .moved row (row.set (lostStatus row.status) (row.version + 1) row.progress) e (.lost going rfl)
        found rfl appended rfl rfl
    | issued => exact .idle rfl rfl
  | renewExecution dispatchId token ttl now now' =>
    refine renew_outcome.bind fun renewed d' hrenewed => ?_
    rcases hrenewed with ⟨-, rfl⟩ | ⟨row, -, -, -, -, rfl⟩
    · exact .idle rfl rfl
    · exact .idle rfl rfl
  | releaseExecution dispatchId token =>
    refine release_outcome.bind fun _ d' hreleased => ?_
    rcases hreleased with rfl | ⟨row, -, -, rfl⟩
    · exact .idle rfl rfl
    · exact .idle rfl rfl

/-- Calls as their callers may make them. -/
def Starts (s : LocalRun) (call : Call) : Prop := call.Admissible (s.db :: s.past)

section
variable {ok : LocalRun → Call → Prop} {d₀ : LocalDb} {s : LocalRun}

theorem reach_later (hok : ∀ s call, ok s call → Starts s call) (h : Serial.Reach Call.prog ok d₀ s) :
    ∀ d ∈ s.db :: s.past, Table.Later (fun job : Job => job.version) d.jobs s.db.jobs := by
  induction h with
  | init => simpa using Table.Later.refl _
  | step call reach allowed ih =>
    rename_i s
    have hspec := Serial.step_spec Call.prog s call
    revert hspec
    generalize s.step Call.prog call = s'
    intro hspec d hd
    cases hspec with
    | commit ok =>
      have hbumps := ((call.effect (hok s call allowed) ih).of_ok ok).bumps
      rcases List.mem_cons.mp hd with rfl | hd
      · exact .refl _
      · exact (ih d hd).trans hbumps.later
    | fail error =>
      rcases List.mem_cons.mp hd with rfl | hd
      · exact ih _ List.mem_cons_self
      · exact ih d hd

theorem reach_effect (hok : ∀ s call, ok s call → Starts s call) (h : Serial.Reach Call.prog ok d₀ s)
    {call : Call} (hcall : ok s call) :
    call.prog.Outcome noLocalClash (fun _ d' => LocalEffect StatusMove s.db d') s.db :=
  call.effect (hok s call hcall) (reach_later hok h)

theorem step_bumps (hok : ∀ s call, ok s call → Starts s call) (h : Serial.Reach Call.prog ok d₀ s)
    {call : Call} (hcall : ok s call) :
    Table.Bumps (fun job : Job => job.version) s.db.jobs (s.step Call.prog call).db.jobs := by
  have heffect := reach_effect hok h hcall
  have hspec := Serial.step_spec Call.prog s call
  revert hspec
  generalize s.step Call.prog call = s'
  intro hspec
  cases hspec with
  | commit ok => exact (heffect.of_ok ok).bumps
  | fail error => exact .same rfl

theorem reach_sequenced (hok : ∀ s call, ok s call → Starts s call)
    (h₀ : ∀ id, (d₀.record id).Sequenced) (h : Serial.Reach Call.prog ok d₀ s) :
    ∀ d ∈ s.db :: s.past, ∀ id, (d.record id).Sequenced :=
  h.keeps (I := fun d => ∀ id, (d.record id).Sequenced) h₀ fun hreach hcall hI hrun id =>
    (((reach_effect hok hreach hcall).of_ok hrun).record id).sequenced (hI id)
end

end KenkuiServer.Local
