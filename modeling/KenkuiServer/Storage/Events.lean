import KenkuiServer.Storage.Database
import KenkuiServer.Storage.PostgresExecution
import KenkuiServer.Txn.History

/-! The events of a job as the history of its row, in either store. -/
namespace KenkuiServer.Storage
open Txn Jobs

/-- The status that a job ends with when its worker is lost. -/
def lostStatus (seen : JobStatus) : JobStatus := if seen = .cancelRequested then .cancelled else .failed

abbrev EventTable := Table fun r : JobEvent => (r.jobId, r.sequence)

namespace EventTable
variable (t : EventTable)

def entries (jobId : String) : List (ℕ × Progress) :=
  (t.rows.filter (·.jobId = jobId)).map fun e => (e.sequence, e.progress)

theorem nextNumber_entries (jobId : String) :
    Record.nextNumber (t.entries jobId) =
      (((t.rows.filter (·.jobId = jobId)).map (·.sequence)).foldr max 0) + 1 := by
  simp only [Record.nextNumber, entries, List.map_map, Function.comp_def]

theorem get?_nextNumber (jobId : String) : t.get? (jobId, Record.nextNumber (t.entries jobId)) = none := by
  rw [nextNumber_entries]
  refine (Table.get?_eq_none_iff _ _).mpr fun e he hkey => ?_
  simp only [Prod.mk.injEq] at hkey
  have hmem : e.sequence ∈ (t.rows.filter (·.jobId = jobId)).map (·.sequence) :=
    List.mem_map_of_mem (List.mem_filter.mpr ⟨he, by simp [hkey.1]⟩)
  have hle := List.le_max_of_le' 0 hmem le_rfl
  omega

variable {t}

theorem entries_put {e : JobEvent} (hfree : t.get? (e.jobId, e.sequence) = none) (jobId : String) :
    entries (t.put e) jobId =
      if e.jobId = jobId then t.entries jobId ++ [(e.sequence, e.progress)] else t.entries jobId := by
  unfold entries
  split_ifs with hjob
  · have hput : (t.put e).rows.filter (·.jobId = jobId) = t.rows.filter (·.jobId = jobId) ++ [e] :=
      Table.filter_put_of_none hfree (by simpa using hjob)
    rw [hput, List.map_append]
    rfl
  · have hput : (t.put e).rows.filter (·.jobId = jobId) = t.rows.filter (·.jobId = jobId) :=
      Table.filter_put_of_not (by simpa using hjob) fun r hr => by rw [hfree] at hr; cases hr
    rw [hput]

/-- The events of a job are numbered from 1 to its version, and the last one has its progress. -/
def Agrees (t : EventTable) (job : Job) : Prop :=
  (t.rows.filter (·.jobId = job.id)).map (·.sequence) = List.range' 1 job.version ∧
    ∀ e ∈ t.rows, e.jobId = job.id → e.sequence = job.version → e.progress = job.progress

theorem agrees_of_sequenced {job : Job}
    (h : Record.Sequenced ⟨some (job.version, job.progress), t.entries job.id⟩) : t.Agrees job := by
  constructor
  · have hnumbers := h.numbers _ _ rfl
    simpa only [entries, List.map_map, Function.comp_def] using hnumbers
  · intro e he hjob hsequence
    have hmem : (e.sequence, e.progress) ∈ t.entries job.id :=
      List.mem_map_of_mem (List.mem_filter.mpr ⟨he, by simpa using hjob⟩)
    exact h.last _ _ rfl _ hmem hsequence

section
variable {R : Type} {key : R → String} {jobs : Table key} {f : R → ℕ × Progress} {next : R}

theorem record_moved {row : R} {e : JobEvent} (found : jobs.get? (key next) = some row)
    (version : (f next).1 = (f row).1 + 1) (jobId : e.jobId = key next)
    (sequence : e.sequence = Record.nextNumber (t.entries (key next))) (progress : e.progress = (f next).2)
    (id : String) :
    Record.Step ⟨(jobs.get? id).map f, t.entries id⟩
      ⟨((jobs.put next).get? id).map f, entries (t.put e) id⟩ := by
  have hfree : t.get? (e.jobId, e.sequence) = none := by
    rw [jobId, sequence]
    exact t.get?_nextNumber _
  have hentries := entries_put hfree id
  rw [Table.get?_put]
  by_cases hid : key next = id
  · subst hid
    rw [if_pos jobId] at hentries
    refine .moved (f row).1 (f row).2 (f next).2 ?_ ?_ ?_
    · rw [found]
      rfl
    · rw [if_pos rfl, ← version]
      rfl
    · rw [hentries, sequence, progress]
  · rw [if_neg (fun h => hid (jobId.symm.trans h))] at hentries
    rw [if_neg hid, hentries]
    exact .same rfl

theorem record_created (fresh : jobs.get? (key next) = none) (version : (f next).1 = 0) (id : String) :
    Record.Step ⟨(jobs.get? id).map f, t.entries id⟩ ⟨((jobs.put next).get? id).map f, t.entries id⟩ := by
  rw [Table.get?_put]
  by_cases hid : key next = id
  · subst hid
    refine .created (f next).2 ?_ ?_ rfl
    · rw [fresh]
      rfl
    · rw [if_pos rfl, ← version]
      rfl
  · rw [if_neg hid]
    exact .same rfl

end

end EventTable

def HostedDb.record (d : HostedDb) (jobId : String) : Record Progress :=
  ⟨(d.jobs.get? jobId).map fun row => (row.version, row.progress), EventTable.entries d.events jobId⟩

def LocalDb.record (d : LocalDb) (jobId : String) : Record Progress :=
  ⟨(d.jobs.get? jobId).map fun job => (job.version, job.progress), EventTable.entries d.events jobId⟩

theorem HostedDb.nextSequence_eq (d : HostedDb) (jobId : String) :
    d.nextSequence jobId = Record.nextNumber (d.record jobId).entries :=
  (EventTable.nextNumber_entries d.events jobId).symm

theorem LocalDb.nextSequence_eq (d : LocalDb) (jobId : String) :
    d.nextSequence jobId = Record.nextNumber (d.record jobId).entries :=
  (EventTable.nextNumber_entries d.events jobId).symm

end KenkuiServer.Storage
