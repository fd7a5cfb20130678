import KenkuiServer.Hosted.Calls
import KenkuiServer.Local.Leases
import Mathlib.Algebra.Order.Ring.Unbundled.Rat

/-! The limit on running jobs. A claim counts the leases that are live at the time it read before it
waited for the lock, which are at least those that are live when it commits; a renewal reads the clock
under the lock and only extends a lease that is still counted. -/
namespace KenkuiServer.Local
open Txn Jobs Storage

/-- A lease counts at `t`: it has not expired and its job is not over. -/
def liveAt (d : LocalDb) (t : Time) (lease : ExecutionLease) : Bool :=
  lease.expiresAt > t ∧ (d.dispatchJob lease.dispatchId).any (!·.status.isTerminal)

theorem length_activeLeases (d : LocalDb) (t : Time) : (d.activeLeases t).length = d.leases.rows.countP
    (liveAt d t) :=
  List.countP_eq_length_filter.symm

/-- Every lease is of a dispatch whose job exists. -/
def Placed (d : LocalDb) : Prop := ∀ lease ∈ d.leases.rows, ∃ row, d.dispatchJob lease.dispatchId = some row

/-- The clock readings of a call that commits at `t'` after the commit at `t`: a claim reads its clock at
any time before, a renewal while it holds the lock. -/
def Call.Clocked (limit : ℤ) (t t' : Time) : Call → Prop
  | .claimExecution _ limit' _ _ _ now => limit' = limit ∧ now ≤ t'
  | .renewExecution _ _ _ now now' => t ≤ now ∧ now ≤ now' ∧ now' ≤ t'
  | _ => True

/-- Runs of serialized transactions with the time of the last one. -/
inductive ClockedRun (limit : ℤ) (d₀ : LocalDb) : Time → LocalRun → Prop
  | init (t : Time) (epoch : 0 ≤ t) : ClockedRun limit d₀ t { db := d₀ }
  | step {t : Time} {s : LocalRun} (call : Call) (t' : Time) (run : ClockedRun limit d₀ t s) (later : t ≤ t')
      (starts : Starts s call) (clocked : call.Clocked limit t t') :
    ClockedRun limit d₀ t' (s.step Call.prog call)

section
variable {d d' : LocalDb} {limit : ℤ} {t t' : Time} {d₀ : LocalDb} {s : LocalRun}

theorem ClockedRun.reach (h : ClockedRun limit d₀ t s) : Serial.Reach Call.prog Starts d₀ s := by
  induction h with
  | init => exact .init
  | step call t' run later starts clocked ih => exact .step call ih starts

theorem ClockedRun.epoch (h : ClockedRun limit d₀ t s) : 0 ≤ t := by
  induction h with
  | init t epoch => exact epoch
  | step call t' run later starts clocked ih => exact ih.trans later

theorem going_before (honward : Onward d d') {id : String} {row : Job} (hrow : d.dispatchJob id = some row)
    (h : (d'.dispatchJob id).any (!·.status.isTerminal)) : (d.dispatchJob id).any (!·.status.isTerminal) := by
  obtain ⟨row', hrow', hover⟩ := honward.dispatchJob hrow
  rw [hrow'] at h
  rw [hrow]
  cases hterminal : row.status.isTerminal with
  | false => simp [hterminal]
  | true =>
    rw [hover hterminal] at h
    simp [hterminal] at h

theorem liveAt_before (honward : Onward d d') {u u' : Time} {lease lease' : ExecutionLease}
    (hid : lease.dispatchId = lease'.dispatchId) {row : Job}
    (hrow : d.dispatchJob lease.dispatchId = some row) (hexpires : lease'.expiresAt > u' →
      lease.expiresAt > u) (h : liveAt d' u' lease' = true) :
    liveAt d u lease = true := by
  simp only [liveAt, decide_eq_true_eq] at h ⊢
  refine ⟨hexpires h.1, ?_⟩
  rw [hid] at hrow ⊢
  exact going_before honward hrow h.2

theorem Placed.step (h : Placed d) (honward : Onward d d') {call : Call} (heffect : LeaseEffect d d' call) :
    Placed d' := by
  have hold : ∀ {id : String}, (∃ row, d.dispatchJob id = some row) →
      ∃ row, d'.dispatchJob id = some row := by
    rintro id ⟨row, hrow⟩
    obtain ⟨row', hrow', -⟩ := honward.dispatchJob hrow
    exact ⟨row', hrow'⟩
  intro lease hlease
  cases heffect with
  | kept _ leases =>
    rw [leases] at hlease
    exact hold (h lease hlease)
  | renewed row token ttl now now' found live leases =>
    rw [leases] at hlease
    rcases (Table.mem_put _ _ _).mp hlease with rfl | ⟨hlease, -⟩
    · exact hold (h row (Table.mem_of_get? found))
    · exact hold (h lease hlease)
  | released row token found leases =>
    rw [leases] at hlease
    rcases (Table.mem_put _ _ _).mp hlease with rfl | ⟨hlease, -⟩
    · exact hold (h row (Table.mem_of_get? found))
    · exact hold (h lease hlease)
  | issued dispatchId limit ttl maxAttempts token now row attempts found expired room leases =>
    rw [leases] at hlease
    rcases (Table.mem_put _ _ _).mp hlease with rfl | ⟨hlease, -⟩
    · exact hold ⟨row, found⟩
    · exact hold (h lease hlease)

/-- One commit keeps the bound from its own time on. -/
theorem bound_step (hplaced : Placed d) (honward : Onward d d') {call : Call}
    (heffect : LeaseEffect d d' call) (hclocked : call.Clocked limit t t') (hepoch : 0 ≤ t) (hlater : t ≤ t')
    (h : ∀ u, t ≤ u → ((d.activeLeases u).length : ℤ) ≤ limit) (u : Time) (hu : t' ≤ u) :
    ((d'.activeLeases u).length : ℤ) ≤ limit := by
  have hothers : ∀ {now : Time}, now ≤ u → ∀ lease ∈ d.leases.rows, liveAt d' u lease = true →
      liveAt d now lease = true := by
    intro now hnow lease hlease hlive
    obtain ⟨row, hrow⟩ := hplaced lease hlease
    exact liveAt_before honward rfl hrow (fun hexpires => lt_of_le_of_lt hnow hexpires) hlive
  have hbound : ∀ {now : Time}, t ≤ now →
      d'.leases.rows.countP (liveAt d' u) ≤ d.leases.rows.countP (liveAt d now) →
      ((d'.activeLeases u).length : ℤ) ≤ limit := by
    intro now hnow hle
    have hcount := h now hnow
    rw [length_activeLeases] at hcount ⊢
    omega
  have hpast : t ≤ u := hlater.trans hu
  cases heffect with
  | kept _ leases =>
    refine hbound hpast ?_
    rw [leases]
    exact List.countP_mono_left fun lease hlease => hothers le_rfl lease hlease
  | renewed row token ttl now now' found live leases =>
    obtain ⟨hstart, hnow, hend⟩ := hclocked
    refine hbound (hstart.trans hnow) ?_
    rw [leases]
    refine Table.countP_put_le_of_some found (fun lease hlease _ => hothers (hend.trans hu) lease hlease) ?_
    obtain ⟨job, hjob⟩ := hplaced row (Table.mem_of_get? found)
    exact liveAt_before honward rfl hjob fun _ => live
  | released row token found leases =>
    refine hbound hpast ?_
    rw [leases]
    refine Table.countP_put_le_of_some found (fun lease hlease _ => hothers le_rfl lease hlease)
      fun hlive => ?_
    simp only [liveAt, decide_eq_true_eq] at hlive
    exact absurd hlive.1 (not_lt.mpr (hepoch.trans hpast))
  | issued dispatchId limit' ttl maxAttempts token now row attempts found expired room leases =>
    obtain ⟨rfl, hnow⟩ := hclocked
    rw [length_activeLeases] at room ⊢
    rw [leases]
    have hput := Table.countP_put_le (t := d.leases) (p := liveAt d' u) (q := liveAt d now)
      (r := ⟨dispatchId, token, now + ttl, attempts⟩) fun lease hlease _ =>
        hothers (hnow.trans hu) lease hlease
    omega

/-- In every run of claims with one limit, renewals, releases and all other calls, at every moment from the
last commit on, at most `limit` leases that have not expired are of jobs that are not over. -/
theorem limit_holds (h : ClockedRun limit d₀ t s) (hleases : d₀.leases = ∅) (hlimit : 0 ≤ limit) (u : Time)
    (hu : t ≤ u) : ((s.db.activeLeases u).length : ℤ) ≤ limit := by
  have hinv : Placed s.db ∧ ∀ u, t ≤ u → ((s.db.activeLeases u).length : ℤ) ≤ limit := by
    clear hu u
    induction h with
    | init t =>
      constructor
      · simp [Placed, hleases]
      · simpa [LocalDb.activeLeases, hleases] using fun _ _ => hlimit
    | step call t' run later starts clocked ih =>
      rename_i t s
      have hspec := Serial.step_spec Call.prog s call
      revert hspec
      generalize s.step Call.prog call = s'
      intro hspec
      cases hspec with
      | fail error => exact ⟨ih.1, fun u hu => ih.2 u (later.trans hu)⟩
      | commit ok =>
        have honward := call.onward starts (reach_later (fun _ _ => id) run.reach) ok
        have heffect := call.lease_effect ok
        exact ⟨ih.1.step honward heffect, bound_step ih.1 honward heffect clocked run.epoch later ih.2⟩
  exact hinv.2 u hu

end

/-- A claim that read the clock at 1 and got the lock at 5, of a job created at 2. -/
theorem limit_holds_claimed :
    let s := (({ db := {} } : LocalRun).step Call.prog
      (.createJobAndDispatch Hosted.sampleJob ⟨"dispatch", "job", "pending", 0⟩ none)).step Call.prog
        (.claimExecution "dispatch" 1 30 3 "token" 1)
    (s.db.activeLeases 6).length = 1 ∧ ((s.db.activeLeases 6).length : ℤ) ≤ 1 := by
  refine ⟨by decide +kernel, ?_⟩
  have hcreated : ClockedRun 1 {} 2 (({ db := {} } : LocalRun).step Call.prog
      (.createJobAndDispatch Hosted.sampleJob ⟨"dispatch", "job", "pending", 0⟩ none)) :=
    .step _ 2 (.init 0 le_rfl) (by decide) rfl trivial
  exact limit_holds (.step (.claimExecution "dispatch" 1 30 3 "token" 1) 5 hcreated (by decide)
    trivial ⟨rfl, by decide⟩) rfl (by decide) 6 (by decide)

end KenkuiServer.Local
