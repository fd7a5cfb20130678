import KenkuiServer.Local.Outcomes
import KenkuiServer.Txn.Fence

/-! Fencing of stale attempts in the local store, whose transactions run one after the other. -/
namespace KenkuiServer.Storage
open Txn Jobs Repositories

/-- The token of the attempt that may run a dispatch. -/
def LocalDb.tokenOf (d : LocalDb) (dispatchId : String) : Option String :=
  (d.leases.get? dispatchId).map (·.token)

section
variable {α : Type} {d : LocalDb} {dispatchId token : String}

theorem LocalDb.tokenOf_renewed {row : ExecutionLease} (hrow : d.leases.get? dispatchId = some row)
    (expiresAt : Time) (id : String) :
    ({ d with leases := d.leases.put ({ row with expiresAt }) } : LocalDb).tokenOf id = d.tokenOf id := by
  have hid : row.dispatchId = dispatchId := Table.key_of_get? hrow
  simp only [LocalDb.tokenOf, Table.get?_put]
  split_ifs with h
  · rw [← h, hid, hrow]
    rfl
  · rfl

theorem checkLease_stale {now : Time} {f : Unit → LocalProcedure α} (h : d.tokenOf dispatchId ≠ some token) :
    (Repositories.checkLease (some (dispatchId, token)) now >>= f).run d = .error .staleWrite := by
  simp only [Repositories.checkLease, issue_bind, Prog.step_bind, selectLease, Prog.run_select]
  cases hrow : d.leases.get? dispatchId with
  | none => rfl
  | some row =>
    have hlost : row.token ≠ token := fun htoken => h (by rw [LocalDb.tokenOf, hrow, ← htoken]; rfl)
    simp only [hlost, ne_eq, not_false_eq_true, true_or, if_true]
    rfl

theorem renewLease_stale {expiresAt now : Time} (h : d.tokenOf dispatchId ≠ some token) :
    (Repositories.renewLease dispatchId token expiresAt now).exec d = .ok (0, []) := by
  simp only [Repositories.renewLease, Stmt.update]
  cases hrow : d.leases.get? dispatchId with
  | none => rfl
  | some row =>
    have hlost : row.token ≠ token := fun htoken => h (by rw [LocalDb.tokenOf, hrow, ← htoken]; rfl)
    simp only [hlost, false_and, if_false]

theorem expireLease_stale (h : d.tokenOf dispatchId ≠ some token) :
    (Repositories.expireLease dispatchId token).exec d = .ok (0, []) := by
  simp only [Repositories.expireLease, Stmt.update]
  cases hrow : d.leases.get? dispatchId with
  | none => rfl
  | some row =>
    have hlost : row.token ≠ token := fun htoken => h (by rw [LocalDb.tokenOf, hrow, ← htoken]; rfl)
    simp only [hlost, if_false]

end

end KenkuiServer.Storage

namespace KenkuiServer.Local
open Txn Jobs Storage Repositories

/-- The lease that a committed call issued. -/
def issuedBy : Call × Reply → Option Lease
  | (.claimExecution dispatchId _ _ _ _ _, .token (some token)) => some (dispatchId, token)
  | _ => none

/-- The tokens issued for a dispatch, newest first. -/
def tokensOf (dispatchId : String) (log : List (Call × Reply)) : List String :=
  log.filterMap fun entry => ((issuedBy entry).filter (·.1 = dispatchId)).map (·.2)

/-- The lease under which a call works. -/
def Call.lease : Call → Option Lease
  | .update _ _ _ _ lease _ _ => lease
  | .finishDispatch _ lease _ => lease
  | .renewExecution dispatchId token _ _ _ => some (dispatchId, token)
  | .releaseExecution dispatchId token => some (dispatchId, token)
  | _ => none

/-- What a call ends with when its lease has been superseded. -/
def Call.refusal : Call → Except Error Reply
  | .update snapshot event _ _ _ _ _ =>
    match transition snapshot event with
    | .error e => .error e
    | .ok _ => .error .staleWrite
  | .renewExecution _ _ _ _ _ => .ok (.flag false)
  | .releaseExecution _ _ => .ok .none
  | _ => .error .staleWrite

/-- A claim draws a token that was never issued before. -/
def FreshTokens (s : LocalRun) : Call → Prop
  | .claimExecution _ _ _ _ token _ => ∀ entry ∈ s.log, (issuedBy entry).map (·.2) ≠ some token
  | _ => True

section
variable {d₀ : LocalDb} {s : LocalRun}

theorem Call.token_effect {d d' : LocalDb} {reply : Reply} (call : Call)
    (h : call.prog.run d = .ok (reply, d')) (id : String) :
    d'.tokenOf id = ((issuedBy (call, reply)).filter (·.1 = id)).elim (d.tokenOf id) fun lease =>
      some lease.2 := by
  cases call with
  | createJobAndDispatch job dispatch idempotencyKey =>
    obtain ⟨job', hrun, rfl⟩ := Prog.run_map_ok h
    cases create_outcome.of_ok hrun <;> rfl
  | update snapshot event eventType artifact lease failure now =>
    simp only [Call.prog] at h
    cases ht : transition snapshot event with
    | error e => simp [ht] at h
    | ok job =>
      simp only [ht] at h
      obtain ⟨e, hrun, rfl⟩ := Prog.run_map_ok h
      rw [(update_outcome.of_ok hrun).result]
      rfl
  | requestCancellation jobId =>
    obtain ⟨job, hrun, rfl⟩ := Prog.run_map_ok h
    cases cancel_outcome.of_ok hrun with
    | already found settled result => rw [result]; rfl
    | moved row e found going cancelled appended result => rw [result]; rfl
  | finishDispatch dispatch lease now =>
    obtain ⟨finished, hrun, rfl⟩ := Prog.run_map_ok h
    cases finish_outcome.of_ok hrun <;> rfl
  | updateDispatch dispatch status =>
    obtain ⟨u, hrun, rfl⟩ := Prog.run_map_ok (f := fun _ => Reply.none) h
    obtain ⟨stored, -, -, rfl⟩ := updateDispatch_outcome.of_ok hrun
    rfl
  | claimExecution dispatchId limit ttl maxAttempts token now =>
    obtain ⟨issued, hrun, rfl⟩ := Prog.run_map_ok h
    cases claim_outcome.of_ok hrun with
    | idle => rfl
    | lost => rfl
    | issued row dispatch attempts found going foundDispatch jobId expired =>
      simp only [LocalDb.tokenOf, Table.get?_put, issuedBy, Option.filter_some, decide_eq_true_eq]
      split_ifs <;> rfl
  | renewExecution dispatchId token ttl now now' =>
    obtain ⟨renewed, hrun, rfl⟩ := Prog.run_map_ok h
    rcases renew_outcome.of_ok hrun with ⟨-, rfl⟩ | ⟨row, hrow, -, -, -, rfl⟩
    · rfl
    · exact LocalDb.tokenOf_renewed hrow _ id
  | releaseExecution dispatchId token =>
    obtain ⟨u, hrun, rfl⟩ := Prog.run_map_ok (f := fun _ => Reply.none) h
    rcases release_outcome.of_ok hrun with rfl | ⟨row, hrow, -, rfl⟩
    · rfl
    · exact LocalDb.tokenOf_renewed hrow _ id

theorem Call.issued_fresh {d d' : LocalDb} {reply : Reply} {call : Call} {lease : Lease}
    (h : call.prog.run d = .ok (reply, d')) (hissued : issuedBy (call, reply) = some lease)
    (hfresh : FreshTokens s call) (dispatchId : String) : lease.2 ∉ tokensOf dispatchId s.log := by
  cases call with
  | claimExecution id limit ttl maxAttempts token now =>
    obtain ⟨issued, hrun, rfl⟩ := Prog.run_map_ok h
    cases claim_outcome.of_ok hrun with
    | idle => cases hissued
    | lost => cases hissued
    | issued =>
      cases hissued
      intro htoken
      obtain ⟨entry, hentry, htoken⟩ := List.mem_filterMap.mp htoken
      obtain ⟨lease, hlease, rfl⟩ := Option.map_eq_some_iff.mp htoken
      refine hfresh entry hentry ?_
      rw [(Option.filter_eq_some_iff.mp hlease).1]
      rfl
  | _ => cases hissued

theorem reach_fenced (h : Serial.Reach Call.prog FreshTokens d₀ s) (dispatchId : String) :
    Fenced (tokensOf dispatchId s.log) (s.db.tokenOf dispatchId) := by
  induction h with
  | init => exact Fenced.empty _
  | step call reach allowed ih =>
    rename_i s
    have hspec := Serial.step_spec Call.prog s call
    revert hspec
    generalize s.step Call.prog call = s'
    intro hspec
    cases hspec with
    | fail error => exact ih
    | commit ok =>
      rename_i r d
      rw [call.token_effect ok dispatchId]
      simp only [tokensOf, List.filterMap_cons]
      cases hissued : (issuedBy (call, r)).filter (·.1 = dispatchId) with
      | none => exact ih
      | some lease =>
        obtain ⟨hlease, -⟩ := Option.filter_eq_some_iff.mp hissued
        exact ih.issue (Call.issued_fresh ok hlease allowed dispatchId)

theorem tokensOf_step {call : Call} {dispatchId token : String} (h : token ∈ tokensOf dispatchId s.log) :
    token ∈ tokensOf dispatchId (s.step Call.prog call).log := by
  obtain ⟨entry, hentry, htoken⟩ := List.mem_filterMap.mp h
  exact List.mem_filterMap.mpr ⟨entry, Serial.mem_step_log hentry, htoken⟩

theorem step_superseded {call : Call} {dispatchId token : String}
    (hissued : token ∈ tokensOf dispatchId s.log) (hfresh : FreshTokens s call)
    (h : s.db.tokenOf dispatchId ≠ some token) :
    (s.step Call.prog call).db.tokenOf dispatchId ≠ some token := by
  have hspec := Serial.step_spec Call.prog s call
  revert hspec
  generalize s.step Call.prog call = s'
  intro hspec
  cases hspec with
  | fail error => exact h
  | commit ran =>
    rename_i r d
    simp only [call.token_effect ran dispatchId]
    cases hentry : (issuedBy (call, r)).filter (·.1 = dispatchId) with
    | none => exact h
    | some lease =>
      obtain ⟨hlease, -⟩ := Option.filter_eq_some_iff.mp hentry
      have hother := Call.issued_fresh ran hlease hfresh dispatchId
      intro hsame
      rw [Option.elim_some, Option.some.injEq] at hsame
      rw [hsame] at hother
      exact hother hissued

/-- Once a dispatch's lease has been issued again, a call under an earlier token changes nothing and is
refused. -/
theorem superseded_refused (h : Serial.Reach Call.prog FreshTokens d₀ s) {dispatchId token : String}
    (hsuperseded : token ∈ (tokensOf dispatchId s.log).tail) {call : Call}
    (hlease : call.lease = some (dispatchId, token)) :
    call.prog.transaction s.db = (call.refusal, s.db) := by
  have hlost : s.db.tokenOf dispatchId ≠ some token := (reach_fenced h dispatchId).superseded hsuperseded
  cases call with
  | update snapshot event eventType artifact lease failure now =>
    cases hlease
    simp only [Call.prog, Call.refusal]
    cases transition snapshot event with
    | error e => rfl
    | ok job =>
      have hrun : (Repositories.updateJobAndAppendEvent job ((job.version : ℤ) - 1) eventType artifact
          (some (dispatchId, token)) failure now).run s.db = .error .staleWrite := by
        unfold Repositories.updateJobAndAppendEvent
        rw [Prog.raiseIf_bind, if_neg (by omega)]
        exact checkLease_stale hlost
      refine Prog.transaction_of_error ?_
      rw [Prog.run_bind, hrun]
  | finishDispatch dispatch lease now =>
    cases hlease
    have hrun : (Repositories.finishDispatchIfNotCancellationRequested dispatch (some (dispatchId, token))
        now).run s.db = .error .staleWrite := checkLease_stale hlost
    refine Prog.transaction_of_error ?_
    simp only [Call.prog]
    rw [Prog.run_bind, hrun]
  | renewExecution dispatchId token ttl now now' =>
    cases hlease
    refine Prog.transaction_of_ok ?_
    simp only [Call.prog, Repositories.renewExecution, issue_bind, Prog.step_bind, Prog.run_step,
      renewLease_stale hlost]
    rfl
  | releaseExecution dispatchId token =>
    cases hlease
    refine Prog.transaction_of_ok ?_
    simp only [Call.prog, Repositories.releaseExecution, issue_bind, Prog.step_bind, Prog.run_step,
      expireLease_stale hlost]
    rfl
  | _ => cases hlease

end

end KenkuiServer.Local
