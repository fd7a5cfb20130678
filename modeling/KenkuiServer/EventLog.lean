import KenkuiServer.Hosted.EventLog
import KenkuiServer.Local.EventLog

/-! Event log and snapshot agree, in both stores. -/
namespace KenkuiServer
open Txn Jobs Storage

/-- From a store without jobs, however the hosted transactions interleave and in whatever order the
local ones run: every job's events are numbered from 1 to its version and the last one has its progress,
no call fails on the key of the events, and a commit changes at most one job, by one version. -/
theorem events_agree :
    (∀ (d₀ : HostedDb) (s : Hosted.HostedSys), d₀.jobs = ∅ → d₀.events = ∅ →
      Sys.Reach Hosted.Call.prog Hosted.Starts d₀ s →
        (∀ d ∈ s.db :: s.past, ∀ row ∈ d.jobs.rows, EventTable.Agrees d.events row.toJob) ∧
        (∀ call t, Session.ended call t (some (.error eventClash)) ∉ s.sessions) ∧
        ∀ l, Table.Bumps (fun row : JobRow => row.version) s.db.jobs (s.step Hosted.Call.prog l).db.jobs) ∧
    ∀ (d₀ : LocalDb) (s : Local.LocalRun), d₀.jobs = ∅ → d₀.events = ∅ →
      Serial.Reach Local.Call.prog Local.Starts d₀ s →
        (∀ d ∈ s.db :: s.past, ∀ job ∈ d.jobs.rows, EventTable.Agrees d.events job) ∧
        (∀ call, Local.Starts s call → call.prog.run s.db ≠ .error localClash) ∧
        ∀ call, Local.Starts s call →
          Table.Bumps (fun job : Job => job.version) s.db.jobs (s.step Local.Call.prog call).db.jobs := by
  constructor
  · intro d₀ s hjobs hevents hreach
    have h₀ : ∀ id, (d₀.record id).Sequenced := by
      intro id
      unfold HostedDb.record
      rw [hjobs, hevents]
      exact Record.sequenced_empty
    refine ⟨fun d hd row hrow => ?_, fun call t hmem => ?_, Hosted.step_bumps (fun _ _ => id) hreach⟩
    · have hsequenced := Hosted.reach_sequenced (fun _ _ => id) h₀ hreach d hd row.id
      unfold HostedDb.record at hsequenced
      rw [Table.get?_of_mem hrow] at hsequenced
      exact EventTable.agrees_of_sequenced hsequenced
    · obtain ⟨i, hended⟩ := List.mem_iff_getElem?.mp hmem
      exact Hosted.ended_noClash (fun _ _ => id) hreach hended rfl
  · intro d₀ s hjobs hevents hreach
    have h₀ : ∀ id, (d₀.record id).Sequenced := by
      intro id
      unfold LocalDb.record
      rw [hjobs, hevents]
      exact Record.sequenced_empty
    refine ⟨fun d hd job hjob => ?_, fun call hcall hrun => ?_,
      fun call => Local.step_bumps (fun _ _ => id) hreach⟩
    · have hsequenced := Local.reach_sequenced (fun _ _ => id) h₀ hreach d hd job.id
      unfold LocalDb.record at hsequenced
      rw [Table.get?_of_mem hjob] at hsequenced
      exact EventTable.agrees_of_sequenced hsequenced
    · exact (Local.reach_effect (fun _ _ => id) hreach hcall).of_error hrun rfl

def sampleDispatch : Dispatch := ⟨"dispatch", "job", "pending", 0⟩

/-- The hosted store after a creation. -/
def hostedCreated : Hosted.HostedSys :=
  (({ db := {} } : Hosted.HostedSys).step Hosted.Call.prog
    (.start (.createJobAndDispatch Hosted.sampleJob sampleDispatch none))).schedule Hosted.Call.prog [0, 0, 0]

/-- The worker starts the job, in both stores. -/
theorem events_agree_started :
    let s := (hostedCreated.step Hosted.Call.prog
      (.start (.update Hosted.sampleJob .dispatchRequested "running" none none none 0 0))).schedule
        Hosted.Call.prog (List.replicate 9 1)
    let s' := (({ db := {} } : Local.LocalRun).step Local.Call.prog
      (.createJobAndDispatch Hosted.sampleJob sampleDispatch none)).step Local.Call.prog
        (.update Hosted.sampleJob .dispatchRequested "running" none none none 0)
    ((s.db.jobs.rows.map (·.version) = [1] ∧
      ∀ d ∈ s.db :: s.past, ∀ row ∈ d.jobs.rows, EventTable.Agrees d.events row.toJob) ∧
    s'.db.jobs.rows.map (·.version) = [1] ∧
      ∀ d ∈ s'.db :: s'.past, ∀ job ∈ d.jobs.rows, EventTable.Agrees d.events job) := by
  have hcreate : Hosted.Starts { db := {} }
      (.start (.createJobAndDispatch Hosted.sampleJob sampleDispatch none)) := rfl
  have hcreated : Sys.Reach Hosted.Call.prog Hosted.Starts {} hostedCreated :=
    Sys.Reach.schedule (fun _ _ => trivial) (.step _ .init hcreate) _
  have hupdate : Hosted.Starts hostedCreated
      (.start (.update Hosted.sampleJob .dispatchRequested "running" none none none 0 0)) :=
    ⟨hostedCreated.db, List.mem_cons_self, by decide +kernel⟩
  have hlocal : Serial.Reach Local.Call.prog Local.Starts {}
      (({ db := {} } : Local.LocalRun).step Local.Call.prog
        (.createJobAndDispatch Hosted.sampleJob sampleDispatch none)) := .step _ .init rfl
  refine ⟨⟨by decide +kernel, (events_agree.1 {} _ rfl rfl ?_).1⟩, by decide +kernel,
    (events_agree.2 {} _ rfl rfl ?_).1⟩
  · exact Sys.Reach.schedule (fun _ _ => trivial) (.step _ hcreated hupdate) _
  · exact .step _ hlocal ⟨_, List.mem_cons_self, by decide +kernel⟩

end KenkuiServer
