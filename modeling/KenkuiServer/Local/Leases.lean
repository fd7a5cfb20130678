import KenkuiServer.Local.EventLog

/-! What the local calls do to the leases, and to the dispatches and jobs that the leases are of. -/
namespace KenkuiServer.Storage
open Txn Jobs

/-- Jobs and dispatches stay, a job that is over as it is and a dispatch with its job. -/
structure Onward (d d' : LocalDb) : Prop where
  jobs : ∀ id row, d.jobs.get? id = some row →
    ∃ row', d'.jobs.get? id = some row' ∧ (row.status.isTerminal = true → row' = row)
  dispatches : ∀ id dispatch, d.dispatches.get? id = some dispatch →
    ∃ dispatch', d'.dispatches.get? id = some dispatch' ∧ dispatch'.jobId = dispatch.jobId

section
variable {d d' : LocalDb}

theorem Onward.dispatchJob (h : Onward d d') {dispatchId : String} {row : Job}
    (hrow : d.dispatchJob dispatchId = some row) :
    ∃ row', d'.dispatchJob dispatchId = some row' ∧ (row.status.isTerminal = true → row' = row) := by
  obtain ⟨dispatch, hdispatch, hjob, hget⟩ := LocalDb.dispatchJob_eq_some hrow
  obtain ⟨dispatch', hdispatch', hjob'⟩ := h.dispatches dispatchId dispatch hdispatch
  obtain ⟨row', hget', hover⟩ := h.jobs row.id row hget
  refine ⟨row', ?_, hover⟩
  simp only [LocalDb.dispatchJob, hdispatch', Option.bind_eq_bind, Option.bind_some, hjob', hjob, hget']

/-- A dispatch that stays: with its job, and at no lower version. -/
def Stays (d d' : LocalDb) : Prop :=
  ∀ id dispatch, d.dispatches.get? id = some dispatch →
    ∃ dispatch', d'.dispatches.get? id = some dispatch' ∧ dispatch'.jobId = dispatch.jobId ∧
      dispatch.version ≤ dispatch'.version

theorem dispatches_same (h : d'.dispatches = d.dispatches) : Stays d d' := by
  intro id dispatch hget
  exact ⟨dispatch, by rw [h, hget], rfl, le_rfl⟩

theorem dispatches_put {next : Dispatch} (h : d'.dispatches = d.dispatches.put next)
    (hnext : ∀ stored, d.dispatches.get? next.id = some stored →
      next.jobId = stored.jobId ∧ stored.version ≤ next.version) : Stays d d' := by
  intro id dispatch hget
  rw [h, Table.get?_put]
  split_ifs with hid
  · exact ⟨next, rfl, hnext dispatch (hid ▸ hget)⟩
  · exact ⟨dispatch, hget, rfl, le_rfl⟩

/-- A rewritten dispatch keeps its job. -/
theorem dispatch_rewritten {id : String} {dispatch next : Dispatch}
    (hget : d.dispatches.get? id = some dispatch) (hid : next.id = dispatch.id)
    (hjob : next.jobId = dispatch.jobId) (hversion : dispatch.version ≤ next.version) (stored : Dispatch)
    (hstored : d.dispatches.get? next.id = some stored) :
    next.jobId = stored.jobId ∧ stored.version ≤ next.version := by
  have hkey : dispatch.id = id := Table.key_of_get? hget
  rw [hid, hkey, hget] at hstored
  cases hstored
  exact ⟨hjob, hversion⟩

end

end KenkuiServer.Storage

namespace KenkuiServer.Local
open Txn Jobs Storage Repositories

theorem StatusMove.going {row next : Job} (h : StatusMove row next) : row.status.isTerminal = false := by
  cases h with
  | worker moves => exact moves.not_terminal
  | cancellation going => exact going
  | lost going => exact going

section
variable {past : List LocalDb} {d d' : LocalDb} {reply : Reply}

theorem jobs_onward (h : LocalEffect StatusMove d d') (id : String) (row : Job)
    (hrow : d.jobs.get? id = some row) :
    ∃ row', d'.jobs.get? id = some row' ∧ (row.status.isTerminal = true → row' = row) := by
  cases h with
  | idle jobs => exact ⟨row, by rw [jobs, hrow], fun _ => rfl⟩
  | moved old next e move found version appended jobs =>
    rw [jobs, Table.get?_put]
    split_ifs with hid
    · have hsame : old = row := Option.some.inj (found.symm.trans (hid ▸ hrow))
      refine ⟨next, rfl, fun hover => ?_⟩
      rw [← hsame, move.going] at hover
      cases hover
    · exact ⟨row, hrow, fun _ => rfl⟩
  | created new fresh version jobs =>
    rw [jobs, Table.get?_put_of_ne]
    · exact ⟨row, hrow, fun _ => rfl⟩
    · rintro rfl
      rw [fresh] at hrow
      cases hrow

theorem Call.dispatches_onward (call : Call) (h : call.prog.run d = .ok (reply, d')) : Stays d d' := by
  cases call with
  | createJobAndDispatch job dispatch idempotencyKey =>
    obtain ⟨job', hrun, -⟩ := Prog.run_map_ok h
    cases create_outcome.of_ok hrun with
    | replayed => exact dispatches_same rfl
    | inserted fresh freshDispatch =>
      refine dispatches_put rfl fun stored hstored => ?_
      rw [freshDispatch] at hstored
      cases hstored
  | update snapshot event eventType artifact lease failure now =>
    simp only [Call.prog] at h
    cases ht : transition snapshot event with
    | error e => simp [ht] at h
    | ok job =>
      simp only [ht] at h
      obtain ⟨e, hrun, -⟩ := Prog.run_map_ok h
      refine dispatches_same ?_
      rw [(update_outcome.of_ok hrun).result]
  | requestCancellation jobId =>
    obtain ⟨job, hrun, -⟩ := Prog.run_map_ok h
    cases cancel_outcome.of_ok hrun with
    | already found settled result =>
      refine dispatches_same ?_
      rw [result]
    | moved row e found going cancelled appended result =>
      refine dispatches_same ?_
      rw [result]
  | finishDispatch dispatch lease now =>
    obtain ⟨finished, hrun, -⟩ := Prog.run_map_ok h
    cases finish_outcome.of_ok hrun with
    | refused => exact dispatches_same rfl
    | done held row found settled stored foundDispatch version =>
      exact dispatches_put rfl (dispatch_rewritten foundDispatch rfl rfl (Nat.le_succ_of_le version.le))
  | updateDispatch dispatch status =>
    obtain ⟨u, hrun, -⟩ := Prog.run_map_ok (f := fun _ => Reply.none) h
    obtain ⟨stored, hstored, hversion, rfl⟩ := updateDispatch_outcome.of_ok hrun
    exact dispatches_put rfl (dispatch_rewritten hstored rfl rfl (Nat.le_succ_of_le hversion.le))
  | claimExecution dispatchId limit ttl maxAttempts token now =>
    obtain ⟨issued, hrun, -⟩ := Prog.run_map_ok h
    cases claim_outcome.of_ok hrun with
    | idle => exact dispatches_same rfl
    | lost row dispatch lease e found going foundDispatch =>
      exact dispatches_put rfl (dispatch_rewritten foundDispatch rfl rfl (Nat.le_succ _))
    | issued row dispatch attempts found going foundDispatch =>
      exact dispatches_put rfl (dispatch_rewritten foundDispatch rfl rfl (Nat.le_succ _))
  | renewExecution dispatchId token ttl now now' =>
    obtain ⟨renewed, hrun, -⟩ := Prog.run_map_ok h
    rcases renew_outcome.of_ok hrun with ⟨-, rfl⟩ | ⟨row, -, -, -, -, rfl⟩
    · exact dispatches_same rfl
    · exact dispatches_same rfl
  | releaseExecution dispatchId token =>
    obtain ⟨u, hrun, -⟩ := Prog.run_map_ok (f := fun _ => Reply.none) h
    rcases release_outcome.of_ok hrun with rfl | ⟨row, -, -, rfl⟩
    · exact dispatches_same rfl
    · exact dispatches_same rfl

theorem Call.onward (call : Call) (hadm : call.Admissible past)
    (hpast : ∀ old ∈ past, Table.Later (fun job : Job => job.version) old.jobs d.jobs)
    (h : call.prog.run d = .ok (reply, d')) : Onward d d' := by
  refine ⟨jobs_onward ((call.effect hadm hpast).of_ok h), fun id dispatch hget => ?_⟩
  obtain ⟨dispatch', hget', hjob, -⟩ := call.dispatches_onward h id dispatch hget
  exact ⟨dispatch', hget', hjob⟩

/-- What a committed call did to the leases. -/
inductive LeaseEffect (d d' : LocalDb) : Call → Prop
  | kept (call : Call) (leases : d'.leases = d.leases) : LeaseEffect d d' call
  | renewed (row : ExecutionLease) (token : String) (ttl now now' : Time)
      (found : d.leases.get? row.dispatchId = some row) (live : now' < row.expiresAt)
      (leases : d'.leases = d.leases.put ({ row with expiresAt := now + ttl })) :
    LeaseEffect d d' (.renewExecution row.dispatchId token ttl now now')
  | released (row : ExecutionLease) (token : String) (found : d.leases.get? row.dispatchId = some row)
      (leases : d'.leases = d.leases.put ({ row with expiresAt := 0 })) :
    LeaseEffect d d' (.releaseExecution row.dispatchId token)
  | issued (dispatchId : String) (limit : ℤ) (ttl : Time) (maxAttempts : ℤ) (token : String) (now : Time)
      (row : Job) (attempts : ℕ) (found : d.dispatchJob dispatchId = some row)
      (expired : ∀ lease, d.leases.get? dispatchId = some lease → lease.expiresAt ≤ now)
      (room : ((d.activeLeases now).length : ℤ) < limit)
      (leases : d'.leases = d.leases.put ⟨dispatchId, token, now + ttl, attempts⟩) :
    LeaseEffect d d' (.claimExecution dispatchId limit ttl maxAttempts token now)

theorem claim_room {dispatchId token : String} {limit maxAttempts : ℤ} {ttl now : Time} :
    (Repositories.claimExecution dispatchId limit ttl maxAttempts token now).Outcome (fun _ => True)
      (fun issued _ => issued.isSome → ((d.activeLeases now).length : ℤ) < limit) d := by
  unfold Repositories.claimExecution
  simp only [issue_bind]
  refine Prog.outcome_select ?_
  cases hjoin : d.dispatchJob dispatchId with
  | none => simp
  | some row =>
    simp only [Option.map_some]
    split
    · simp
    refine Prog.outcome_select ?_
    split
    · simp
    refine Prog.outcome_select ?_
    split
    · simp
    rename_i hroom
    split
    · have hlost : (Repositories.loseWorker dispatchId row.id row.status).Outcome (fun _ => True)
          (fun _ _ => True) d := by
        unfold Prog.Outcome
        split <;> trivial
      exact hlost.bind fun _ _ _ => by simp
    · refine Prog.outcome_exec (show _ = Except.ok _ from rfl) ?_
      have hissued : ∀ (rowcount : ℕ) (d' : LocalDb),
          (Prog.ret (some token) : LocalProcedure (Option String)).Outcome
          (fun _ => True) (fun issued _ => issued.isSome → ((d.activeLeases now).length : ℤ) < limit) d' :=
        fun _ _ _ => not_le.mp hroom
      refine Prog.outcome_update ?_
      split
      · exact hissued 1 _
      · exact hissued 0 _
      · trivial

theorem Call.lease_effect (call : Call) (h : call.prog.run d = .ok (reply, d')) : LeaseEffect d d' call := by
  cases call with
  | createJobAndDispatch job dispatch idempotencyKey =>
    obtain ⟨job', hrun, -⟩ := Prog.run_map_ok h
    cases create_outcome.of_ok hrun <;> exact .kept _ rfl
  | update snapshot event eventType artifact lease failure now =>
    simp only [Call.prog] at h
    cases ht : transition snapshot event with
    | error e => simp [ht] at h
    | ok job =>
      simp only [ht] at h
      obtain ⟨e, hrun, -⟩ := Prog.run_map_ok h
      refine .kept _ ?_
      rw [(update_outcome.of_ok hrun).result]
  | requestCancellation jobId =>
    obtain ⟨job, hrun, -⟩ := Prog.run_map_ok h
    cases cancel_outcome.of_ok hrun with
    | already found settled result =>
      refine .kept _ ?_
      rw [result]
    | moved row e found going cancelled appended result =>
      refine .kept _ ?_
      rw [result]
  | finishDispatch dispatch lease now =>
    obtain ⟨finished, hrun, -⟩ := Prog.run_map_ok h
    cases finish_outcome.of_ok hrun <;> exact .kept _ rfl
  | updateDispatch dispatch status =>
    obtain ⟨u, hrun, -⟩ := Prog.run_map_ok (f := fun _ => Reply.none) h
    obtain ⟨stored, -, -, rfl⟩ := updateDispatch_outcome.of_ok hrun
    exact .kept _ rfl
  | claimExecution dispatchId limit ttl maxAttempts token now =>
    obtain ⟨issued, hrun, -⟩ := Prog.run_map_ok h
    have hroom := claim_room.of_ok hrun
    cases claim_outcome.of_ok hrun with
    | idle => exact .kept _ rfl
    | lost => exact .kept _ rfl
    | issued row dispatch attempts found going foundDispatch jobId expired =>
      have hjob : d.dispatchJob dispatchId = some row := by
        simp only [LocalDb.dispatchJob, foundDispatch, Option.bind_eq_bind, Option.bind_some, jobId, found]
      exact .issued dispatchId limit ttl maxAttempts token now row attempts hjob expired (hroom rfl) rfl
  | renewExecution dispatchId token ttl now now' =>
    obtain ⟨renewed, hrun, -⟩ := Prog.run_map_ok h
    rcases renew_outcome.of_ok hrun with ⟨-, rfl⟩ | ⟨row, hrow, -, hlive, -, rfl⟩
    · exact .kept _ rfl
    · obtain rfl : row.dispatchId = dispatchId := Table.key_of_get? hrow
      exact .renewed row token ttl now now' hrow hlive rfl
  | releaseExecution dispatchId token =>
    obtain ⟨u, hrun, -⟩ := Prog.run_map_ok (f := fun _ => Reply.none) h
    rcases release_outcome.of_ok hrun with rfl | ⟨row, hrow, -, rfl⟩
    · exact .kept _ rfl
    · obtain rfl : row.dispatchId = dispatchId := Table.key_of_get? hrow
      exact .released row token hrow rfl

end

end KenkuiServer.Local
