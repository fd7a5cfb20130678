import KenkuiServer.Local.JobMoves

/-! The dispatches under the local calls: a dispatch that is done is the one of a job that is over, and stays
done. -/
namespace KenkuiServer.Storage
open Txn Jobs

/-- A job that is over. -/
def LocalDb.Over (d : LocalDb) (jobId : String) : Prop :=
  ∃ job, d.jobs.get? jobId = some job ∧ job.status.isTerminal = true

/-- The jobs of the dispatches that are done are over. -/
def LocalDb.Settled (d : LocalDb) : Prop :=
  ∀ id row, d.dispatches.get? id = some row → row.status = "done" → d.Over row.jobId

/-- What a committed call did to the dispatches. -/
inductive DispatchEffect (d d' : LocalDb) : Prop
  | idle (dispatches : d'.dispatches = d.dispatches)
  | written (row next : Dispatch) (found : d.dispatches.get? next.id = some row)
    (jobId : next.jobId = row.jobId)
      (version : row.version < next.version) (going : row.status ≠ "done") (status : next.status ≠ "done")
      (dispatches : d'.dispatches = d.dispatches.put next)
  | done (row next : Dispatch) (found : d.dispatches.get? next.id = some row) (jobId : next.jobId = row.jobId)
      (version : row.version < next.version) (status : next.status = "done") (ended : d'.Over next.jobId)
      (dispatches : d'.dispatches = d.dispatches.put next)
  | created (row : Dispatch) (fresh : d.dispatches.get? row.id = none) (status : row.status = "pending")
      (dispatches : d'.dispatches = d.dispatches.put row)

/-- A dispatch read earlier, and the dispatch now. -/
structure DispatchSince (old row : Dispatch) : Prop where
  jobId : row.jobId = old.jobId
  done : old.status = "done" → row.status = "done"

section
variable {d d' : LocalDb}

theorem DispatchEffect.later (h : DispatchEffect d d') :
    Table.Later (fun row : Dispatch => row.version) d.dispatches d'.dispatches := by
  cases h with
  | idle dispatches =>
    rw [dispatches]
    exact .refl _
  | written row next found jobId version going status dispatches =>
    rw [dispatches]
    exact Table.later_put_of_lt found version
  | done row next found jobId version status ended dispatches =>
    rw [dispatches]
    exact Table.later_put_of_lt found version
  | created row fresh status dispatches =>
    rw [dispatches]
    exact Table.later_put_of_none fresh

theorem since_put {row next old : Dispatch} {id : String} (hfound : d.dispatches.get? next.id = some row)
    (hjob : next.jobId = row.jobId) (hdone : row.status = "done" → next.status = "done")
    (hdispatches : d'.dispatches = d.dispatches.put next) (hold : d.dispatches.get? id = some old) :
    ∃ row, d'.dispatches.get? id = some row ∧ DispatchSince old row := by
  rw [hdispatches, Table.get?_put]
  split_ifs with hid
  · have hsame : row = old := by
      rw [hid, hold] at hfound
      exact (Option.some.inj hfound).symm
    rw [hsame] at hjob hdone
    exact ⟨next, rfl, hjob, hdone⟩
  · exact ⟨old, hold, rfl, fun hdone => hdone⟩

theorem DispatchEffect.since (h : DispatchEffect d d') {id : String} {old : Dispatch}
    (hold : d.dispatches.get? id = some old) : ∃ row, d'.dispatches.get? id = some row ∧
      DispatchSince old row := by
  cases h with
  | idle dispatches =>
    rw [dispatches]
    exact ⟨old, hold, rfl, fun hdone => hdone⟩
  | written row next found jobId version going status dispatches =>
    exact since_put found jobId (fun hdone => absurd hdone going) dispatches hold
  | done row next found jobId version status ended dispatches =>
    exact since_put found jobId (fun _ => status) dispatches hold
  | created row fresh status dispatches =>
    have hne : row.id ≠ id := by
      intro hid
      rw [hid, hold] at fresh
      cases fresh
    rw [dispatches, Table.get?_put_of_ne _ hne]
    exact ⟨old, hold, rfl, fun hdone => hdone⟩

theorem DispatchEffect.settled (h : DispatchEffect d d') (hd : d.Settled)
    (hover : ∀ jobId, d.Over jobId → d'.Over jobId) : d'.Settled := by
  intro id row hrow hdone
  cases h with
  | idle dispatches =>
    rw [dispatches] at hrow
    exact hover _ (hd id row hrow hdone)
  | written old next found jobId version going status dispatches =>
    rw [dispatches, Table.get?_put] at hrow
    split_ifs at hrow with hid
    · rw [← Option.some.inj hrow] at hdone
      exact absurd hdone status
    · exact hover _ (hd id row hrow hdone)
  | done old next found jobId version status ended dispatches =>
    rw [dispatches, Table.get?_put] at hrow
    split_ifs at hrow with hid
    · rw [← Option.some.inj hrow]
      exact ended
    · exact hover _ (hd id row hrow hdone)
  | created new fresh status dispatches =>
    rw [dispatches, Table.get?_put] at hrow
    split_ifs at hrow with hid
    · rw [← Option.some.inj hrow, status] at hdone
      exact absurd hdone (by decide)
    · exact hover _ (hd id row hrow hdone)

theorem DispatchSince.trans {old row next : Dispatch} (h : DispatchSince old row)
    (h' : DispatchSince row next) :
    DispatchSince old next := by
  constructor
  · rw [h'.jobId, h.jobId]
  · exact fun hdone => h'.done (h.done hdone)

end

end KenkuiServer.Storage

namespace KenkuiServer.Local
open Txn Jobs Storage Repositories

/-- What is done to dispatches: a new one is pending, a worker writes over one that it has read as pending,
and the one that is finished has been read. -/
def Call.Sincere (past : List LocalDb) : Call → Prop
  | .createJobAndDispatch _ dispatch _ => dispatch.status = "pending"
  | .updateDispatch dispatch status => dispatch.status = "pending" ∧ status ≠ "done" ∧
      ∃ old ∈ past, dispatch ∈ old.dispatches.rows
  | .finishDispatch dispatch _ _ => ∃ old ∈ past, dispatch ∈ old.dispatches.rows
  | _ => True

section
variable {past : List LocalDb} {d d' : LocalDb} {reply : Reply}

theorem over_same (h : d'.jobs = d.jobs) {jobId : String} (hover : d.Over jobId) : d'.Over jobId := by
  obtain ⟨job, hjob, hstatus⟩ := hover
  exact ⟨job, by rw [h, hjob], hstatus⟩

theorem lostStatus_terminal (status : JobStatus) : (lostStatus status).isTerminal = true := by
  unfold lostStatus
  split_ifs <;> rfl

theorem Call.dispatch_effect (call : Call) (hsincere : call.Sincere past)
    (hpast : ∀ old ∈ past, Table.Later (fun row : Dispatch => row.version) old.dispatches d.dispatches)
    (hsettled : d.Settled) (h : call.prog.run d = .ok (reply, d')) : DispatchEffect d d' := by
  -- a row at the version of a dispatch read before is that dispatch
  have hread : ∀ dispatch stored : Dispatch, (∃ old ∈ past, dispatch ∈ old.dispatches.rows) →
      d.dispatches.get? dispatch.id = some stored → stored.version = dispatch.version →
        stored = dispatch := by
    intro dispatch stored hmem hstored hversion
    obtain ⟨old, hold, hmem⟩ := hmem
    exact (hpast old hold).eq_of_version (Table.get?_of_mem hmem) hstored hversion
  cases call with
  | createJobAndDispatch job dispatch idempotencyKey =>
    obtain ⟨job', hrun, -⟩ := Prog.run_map_ok h
    cases create_outcome.of_ok hrun with
    | replayed => exact .idle rfl
    | inserted fresh freshDispatch => exact .created dispatch freshDispatch hsincere rfl
  | update snapshot event eventType artifact lease failure now =>
    simp only [Call.prog] at h
    cases ht : transition snapshot event with
    | error e => simp [ht] at h
    | ok job =>
      simp only [ht] at h
      obtain ⟨e, hrun, -⟩ := Prog.run_map_ok h
      have hresult := (update_outcome.of_ok hrun).result
      exact .idle (by rw [hresult])
  | requestCancellation jobId =>
    obtain ⟨job, hrun, -⟩ := Prog.run_map_ok h
    cases cancel_outcome.of_ok hrun with
    | already found settled result => exact .idle (by rw [result])
    | moved row e found going cancelled appended result => exact .idle (by rw [result])
  | finishDispatch dispatch lease now =>
    obtain ⟨finished, hrun, -⟩ := Prog.run_map_ok h
    cases finish_outcome.of_ok hrun with
    | refused => exact .idle rfl
    | done held row found settled stored foundDispatch version =>
      have hsame := hread dispatch stored hsincere foundDispatch version
      have hid : stored.id = dispatch.id := Table.key_of_get? foundDispatch
      have hover : d.Over stored.jobId := by
        rw [hsame]
        exact ⟨row, found, settled⟩
      have hversion : stored.version < dispatch.version + 1 := by omega
      refine .done stored { stored with status := "done", version := dispatch.version + 1 }
        ?_ rfl hversion rfl
        (over_same rfl hover) rfl
      rw [hid]
      exact foundDispatch
  | updateDispatch dispatch status =>
    obtain ⟨hpending, hstatus, hmem⟩ := hsincere
    obtain ⟨u, hrun, -⟩ := Prog.run_map_ok (f := fun _ => Reply.none) h
    obtain ⟨stored, hstored, hversion, rfl⟩ := updateDispatch_outcome.of_ok hrun
    have hsame := hread dispatch stored hmem hstored hversion
    have hgoing : stored.status ≠ "done" := by
      rw [hsame, hpending]
      decide
    have hnext : stored.version < dispatch.version + 1 := by omega
    have hid : stored.id = dispatch.id := Table.key_of_get? hstored
    refine .written stored { stored with status, version := dispatch.version + 1 } ?_ rfl hnext
      hgoing hstatus rfl
    rw [hid]
    exact hstored
  | claimExecution dispatchId limit ttl maxAttempts token now =>
    obtain ⟨issued, hrun, -⟩ := Prog.run_map_ok h
    cases claim_outcome.of_ok hrun with
    | idle => exact .idle rfl
    | lost row dispatch lease e found going foundDispatch jobId =>
      have hid : dispatch.id = dispatchId := Table.key_of_get? foundDispatch
      refine .done dispatch { dispatch with status := "done", version := dispatch.version + 1 } ?_ rfl
        (Nat.lt_succ_self _) rfl ?_ rfl
      · rw [hid]
        exact foundDispatch
      · rw [jobId]
        exact ⟨_, Table.get?_put_self _ _, lostStatus_terminal _⟩
    | issued row dispatch attempts found going foundDispatch jobId =>
      have hid : dispatch.id = dispatchId := Table.key_of_get? foundDispatch
      have hgoing : dispatch.status ≠ "done" := by
        intro hdone
        obtain ⟨job, hjob, hover⟩ := hsettled dispatchId dispatch foundDispatch hdone
        rw [jobId, found] at hjob
        rw [← Option.some.inj hjob, going] at hover
        cases hover
      have hpending : "pending" ≠ "done" := by decide
      refine .written dispatch { dispatch with status := "pending", version := dispatch.version + 1 } ?_ rfl
        (Nat.lt_succ_self _) hgoing hpending rfl
      rw [hid]
      exact foundDispatch
  | renewExecution dispatchId token ttl now now' =>
    obtain ⟨renewed, hrun, -⟩ := Prog.run_map_ok h
    rcases renew_outcome.of_ok hrun with ⟨-, rfl⟩ | ⟨row, -, -, -, -, rfl⟩ <;> exact .idle rfl
  | releaseExecution dispatchId token =>
    obtain ⟨u, hrun, -⟩ := Prog.run_map_ok (f := fun _ => Reply.none) h
    rcases release_outcome.of_ok hrun with rfl | ⟨row, -, -, rfl⟩ <;> exact .idle rfl

end

/-- Calls as the server, its supervisors and its workers make them. -/
def Rely (s : LocalRun) (call : Call) : Prop := Regular s call ∧ call.Sincere (s.db :: s.past)

theorem rely_starts (s : LocalRun) (call : Call) (h : Rely s call) : Starts s call := h.1.1

section
variable {s : LocalRun} {d₀ : LocalDb}

theorem step_over {call : Call} (hreach : Serial.Reach Call.prog Rely d₀ s) (hcall : Rely s call)
    {jobId : String} (h : s.db.Over jobId) : (s.step Call.prog call).db.Over jobId := by
  obtain ⟨job, hjob, hover⟩ := h
  obtain ⟨next, hnext, hmove⟩ := step_job_move rely_starts hreach hcall hjob
  exact ⟨next, hnext, by rw [hmove.since.settled hover, hover]⟩

/-- What a run keeps of the dispatches. -/
structure Dispatched (s : LocalRun) : Prop where
  later : ∀ d ∈ s.db :: s.past, Table.Later (fun row : Dispatch => row.version) d.dispatches s.db.dispatches
  settled : s.db.Settled
  since : ∀ d ∈ s.db :: s.past, ∀ id old, d.dispatches.get? id = some old →
    ∃ row, s.db.dispatches.get? id = some row ∧ DispatchSince old row

theorem reach_dispatched (h₀ : d₀.Settled) (h : Serial.Reach Call.prog Rely d₀ s) : Dispatched s := by
  induction h with
  | init =>
    constructor
    · simpa using Table.Later.refl _
    · exact h₀
    · intro d hd id old hold
      rw [List.mem_singleton] at hd
      rw [hd] at hold
      exact ⟨old, hold, rfl, fun hdone => hdone⟩
  | step call reach allowed ih =>
    rename_i s
    have hover : ∀ jobId, s.db.Over jobId → (s.step Call.prog call).db.Over jobId := fun _ =>
      step_over reach allowed
    have heffect : DispatchEffect s.db (s.step Call.prog call).db := by
      have hspec := Serial.step_spec Call.prog s call
      revert hspec
      generalize s.step Call.prog call = s'
      intro hspec
      cases hspec with
      | commit ran => exact call.dispatch_effect allowed.2 ih.later ih.settled ran
      | fail error => exact .idle rfl
    constructor
    · intro d hd
      rw [Serial.step_past] at hd
      rcases List.mem_cons.mp hd with rfl | hd
      · exact .refl _
      · exact (ih.later d hd).trans heffect.later
    · exact heffect.settled ih.settled hover
    · intro d hd id old hold
      rw [Serial.step_past] at hd
      rcases List.mem_cons.mp hd with rfl | hd
      · exact ⟨old, hold, rfl, fun hdone => hdone⟩
      · obtain ⟨row, hrow, hsince⟩ := ih.since d hd id old hold
        obtain ⟨next, hnext, hnext_since⟩ := heffect.since hrow
        exact ⟨next, hnext, hsince.trans hnext_since⟩

end

end KenkuiServer.Local
