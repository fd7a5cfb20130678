import KenkuiServer.Hosted.Recovery
import KenkuiServer.Local.Recovery

/-! Bounded attempts and no stranded job, in both stores. -/
namespace KenkuiServer
open Txn Jobs Storage

/-- In every run of either store from nothing, each call atomic and every claim with the default bound: at
most three tokens are issued for a dispatch, none while its job is over, and a job that is not over can
always be claimed, for a new attempt or, after the third, to its end. -/
theorem attempts_bounded :
    (∀ s : Local.LocalRun, Serial.Reach Local.Call.prog (fun _ call => call.Standard) {} s →
      Local.Recoverable s) ∧
    ∀ s : Hosted.HostedRun, Serial.Reach Hosted.Call.prog Hosted.Recovers {} s → Hosted.Recoverable s :=
  ⟨fun _ h => (Local.reach_recovering h).recoverable, fun _ h => (Hosted.reach_recovering h).recoverable⟩

def ownDispatch : Dispatch := ⟨"dispatch", "job", "pending", 0⟩

/-- A local job claimed three times, the worker lost each time. -/
def localWorn : Local.LocalRun :=
  [.createJobAndDispatch Hosted.sampleJob ownDispatch none, .claimExecution "dispatch" 1 30 3 "first" 0,
    .claimExecution "dispatch" 1 30 3 "second" 40, .claimExecution "dispatch" 1 30 3 "third" 80].foldl
      (Serial.step Local.Call.prog) { db := {} }

/-- A hosted job claimed once. -/
def hostedClaimed : Hosted.HostedRun :=
  [.accountForIdentity "account" "lot" "identity" 5,
    .admitJob "authorization" Hosted.sampleJob ownDispatch "account" "identity" 3 none,
    .claimExecution "dispatch" 1 30 3 "first" 0 0].foldl (Serial.step Hosted.Call.prog) { db := {} }

theorem attempts_bounded_claimed :
    (Local.tokensOf "dispatch" localWorn.log = ["third", "second", "first"] ∧ Local.Recoverable localWorn) ∧
      Hosted.tokensOf "dispatch" hostedClaimed.log = ["first"] ∧ Hosted.Recoverable hostedClaimed := by
  have hfunded : Hosted.Recovers { db := {} } (.accountForIdentity "account" "lot" "identity" 5) := by
    refine ⟨trivial, trivial, fun reference hreference => ?_⟩
    cases hreference
    exact PostgresBillingRepository.offLedger_allowance "identity"
  have hlocal : Serial.Reach Local.Call.prog (fun _ call => call.Standard) {} { db := {} } := .init
  have hhosted : Serial.Reach Hosted.Call.prog Hosted.Recovers {} { db := {} } := .init
  have hcreated := hlocal.step (Local.Call.createJobAndDispatch Hosted.sampleJob ownDispatch none) rfl
  have hfirst := hcreated.step (Local.Call.claimExecution "dispatch" 1 30 3 "first" 0) rfl
  have hsecond := hfirst.step (Local.Call.claimExecution "dispatch" 1 30 3 "second" 40) rfl
  have hthird := hsecond.step (Local.Call.claimExecution "dispatch" 1 30 3 "third" 80) rfl
  have hadmitted := (hhosted.step _ hfunded).step
    (Hosted.Call.admitJob "authorization" Hosted.sampleJob ownDispatch "account" "identity" 3 none)
    ⟨rfl, rfl, fun _ h => by cases h⟩
  have hclaimed := hadmitted.step (Hosted.Call.claimExecution "dispatch" 1 30 3 "first" 0 0)
    ⟨trivial, rfl, fun _ h => by cases h⟩
  exact ⟨⟨by decide +kernel, attempts_bounded.1 _ hthird⟩, by decide +kernel, attempts_bounded.2 _ hclaimed⟩

end KenkuiServer
