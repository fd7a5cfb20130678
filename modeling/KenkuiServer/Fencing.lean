import KenkuiServer.EventLog
import KenkuiServer.Hosted.Fencing
import KenkuiServer.Local.Fencing

/-! Fencing of stale attempts, in both stores and with any clock readings. -/
namespace KenkuiServer
open Txn Jobs Storage

/-- Once a dispatch's lease has been issued again, a call under an earlier token changes nothing and is
refused: however the hosted transactions interleave, and in whatever order the local ones run. -/
theorem stale_attempts_fenced :
    (∀ (d₀ : HostedDb) (s : Hosted.HostedSys), Sys.Reach Hosted.Call.prog Hosted.FreshTokens d₀ s →
      ∀ (dispatchId token : String), token ∈ (Hosted.tokensOf dispatchId s.log).tail →
        ∀ (i : ℕ) (call : Hosted.Call) (t : Locked) (rest : Procedure Hosted.Reply),
          s.sessions[i]? = some (.running call t rest) → call.lease = some (dispatchId, token) →
            (s.step Hosted.Call.prog (.run i)).db = s.db ∧
              ∀ t' r, (s.step Hosted.Call.prog (.run i)).sessions[i]? = some (.ended call t' (some r)) →
                r = call.refusal) ∧
    ∀ (d₀ : LocalDb) (s : Local.LocalRun), Serial.Reach Local.Call.prog Local.FreshTokens d₀ s →
      ∀ (dispatchId token : String), token ∈ (Local.tokensOf dispatchId s.log).tail →
        ∀ call : Local.Call, call.lease = some (dispatchId, token) →
          call.prog.transaction s.db = (call.refusal, s.db) := by
  constructor
  · intro d₀ s hreach dispatchId token hsuperseded i call t rest hrunning hlease
    exact Hosted.superseded_refused hreach hsuperseded hrunning hlease
  · intro d₀ s hreach dispatchId token hsuperseded call hlease
    exact Local.superseded_refused hreach hsuperseded hlease

/-- The hosted store after a claim of the dispatch and, the lease expired, another one. -/
def hostedReclaimed : Hosted.HostedSys :=
  let claimed := (hostedCreated.step Hosted.Call.prog
    (.start (.claimExecution "dispatch" 3 10 3 "first" 0 0))).schedule Hosted.Call.prog (List.replicate 9 1)
  (claimed.step Hosted.Call.prog
    (.start (.claimExecution "dispatch" 3 10 3 "second" 20 20))).schedule Hosted.Call.prog
      (List.replicate 9 2)

/-- The local store after the same calls. -/
def localReclaimed : Local.LocalRun :=
  ((({ db := {} } : Local.LocalRun).step Local.Call.prog
    (.createJobAndDispatch Hosted.sampleJob sampleDispatch none)).step Local.Call.prog
      (.claimExecution "dispatch" 3 10 3 "first" 0)).step Local.Call.prog
        (.claimExecution "dispatch" 3 10 3 "second" 20)

/-- A worker whose clock is behind starts the job under the first lease, in both stores. -/
theorem stale_attempts_fenced_reclaimed :
    let started := Hosted.Call.update Hosted.sampleJob .dispatchRequested "running" none
      (some ("dispatch", "first")) none 5 5
    let s := hostedReclaimed.step Hosted.Call.prog (.start started)
    ((s.step Hosted.Call.prog (.run 3)).db = s.db ∧
      ∀ t r, (s.step Hosted.Call.prog (.run 3)).sessions[3]? = some (.ended started t (some r)) →
        r = started.refusal) ∧
    (Local.Call.update Hosted.sampleJob .dispatchRequested "running" none
        (some ("dispatch", "first")) none 5).prog.transaction localReclaimed.db =
      (.error .staleWrite, localReclaimed.db) := by
  have hreach : Sys.Reach Hosted.Call.prog Hosted.FreshTokens {} hostedReclaimed := by
    have hcreated : Sys.Reach Hosted.Call.prog Hosted.FreshTokens {} hostedCreated :=
      Sys.Reach.schedule (fun _ _ => trivial)
        (.step _ .init (by simp [Hosted.FreshTokens, Hosted.Call.draws])) _
    have hfirst : Hosted.FreshTokens hostedCreated
        (.start (.claimExecution "dispatch" 3 10 3 "first" 0 0)) := by
      intro token htoken
      cases htoken
      decide +kernel
    have hclaimed := Sys.Reach.schedule (fun _ _ => trivial) (.step _ hcreated hfirst) (List.replicate 9 1)
    refine Sys.Reach.schedule (fun _ _ => trivial) (.step _ hclaimed ?_) (List.replicate 9 2)
    intro token htoken
    cases htoken
    decide +kernel
  have hlocal : Serial.Reach Local.Call.prog Local.FreshTokens {} localReclaimed := by
    have hcreate : Local.FreshTokens { db := {} }
        (.createJobAndDispatch Hosted.sampleJob sampleDispatch none) := trivial
    refine .step _ (.step _ (.step _ .init hcreate) ?_) ?_
    · unfold Local.FreshTokens
      decide +kernel
    · unfold Local.FreshTokens
      decide +kernel
  constructor
  · have hlast : hostedReclaimed.sessions.length = 3 := by decide +kernel
    refine stale_attempts_fenced.1 {} _ (.step _ hreach ?_) "dispatch" "first" (by decide +kernel) 3 _ {} _
      (hlast ▸ List.getElem?_concat_length) rfl
    intro token htoken
    cases htoken
  · exact stale_attempts_fenced.2 {} _ hlocal "dispatch" "first" (by decide +kernel) _ rfl

end KenkuiServer
