import KenkuiServer.Storage.Effects
import KenkuiServer.Txn.Checked

/-! The `INTEGER` columns of the hosted job tables. What a call writes in them fits if what it is given and
what it counts up from fits. -/
namespace KenkuiServer.Storage
open Txn Jobs Prog

/-- The values of the `INTEGER` columns of a row that is written. -/
def Write.integers : Write → List ℤ
  | job r => [r.version]
  | event r => [r.sequence]
  | dispatch r => [r.version]
  | lease r => [r.attempts]
  | billing (.authorization r) => [r.credits]
  | billing (.ledger r) => [r.credits]
  | _ => []

def Write.fits (w : Write) : Bool := w.integers.all fitsInteger

namespace Write

@[simp] theorem fits_job (r : JobRow) : fits (.job r) = fitsInteger r.version := by simp [fits, integers]

@[simp] theorem fits_event (r : JobEvent) : fits (.event r) = fitsInteger r.sequence := by
  simp [fits, integers]

@[simp] theorem fits_dispatch (r : Dispatch) : fits (.dispatch r) = fitsInteger r.version := by
  simp [fits, integers]

@[simp] theorem fits_lease (r : ExecutionLease) : fits (.lease r) = fitsInteger r.attempts := by
  simp [fits, integers]

end Write

/-- The hosted statements with the range of their columns. -/
def ranged {α : Type} (p : Procedure α) : Procedure α := p.checked Write.fits .outOfRange

/-- Every row of the job tables is one that its columns can hold. -/
structure HostedDb.Fits (d : HostedDb) : Prop where
  jobs : ∀ row ∈ d.jobs.rows, fitsInteger row.version
  events : ∀ row ∈ d.events.rows, fitsInteger row.sequence
  dispatches : ∀ row ∈ d.dispatches.rows, fitsInteger row.version
  leases : ∀ row ∈ d.leases.rows, fitsInteger row.attempts

/-- Rows that fit stay so under a row that fits. -/
theorem fits_put {R K : Type} [DecidableEq K] {key : R → K} {column : R → ℤ} {t : Table key} {r : R}
    (h : ∀ row ∈ t.rows, fitsInteger (column row)) (hr : fitsInteger (column r)) :
    ∀ row ∈ (t.put r).rows, fitsInteger (column row) := by
  intro row hrow
  rcases (t.mem_put r row).mp hrow with rfl | ⟨hmem, -⟩
  · exact hr
  · exact h row hmem

namespace HostedDb.Fits
variable {d : HostedDb}

theorem apply (w : Write) (hw : w.fits) (d : HostedDb) (h : d.Fits) : (apply w d).Fits := by
  obtain ⟨hjobs, hevents, hdispatches, hleases⟩ := h
  cases w with
  | job r =>
    exact ⟨fits_put hjobs (by simpa using hw), hevents, hdispatches, hleases⟩
  | event r =>
    exact ⟨hjobs, fits_put hevents (by simpa using hw), hdispatches, hleases⟩
  | dispatch r =>
    exact ⟨hjobs, hevents, fits_put hdispatches (by simpa using hw), hleases⟩
  | lease r =>
    exact ⟨hjobs, hevents, hdispatches, fits_put hleases (by simpa using hw)⟩
  | _ => exact ⟨hjobs, hevents, hdispatches, hleases⟩

theorem run (h : d.Fits) {α : Type} {p : Procedure α} {a : α} {d' : HostedDb} (hp : p.Within Write.fits d)
    (hrun : p.run d = .ok (a, d')) : d'.Fits := hp.keeps apply h hrun

end HostedDb.Fits

/-- The lease is the current one of its dispatch and has not expired. -/
def holdsLease (leases : Table ExecutionLease.dispatchId) (lease : Option Lease) (now : Time) : Bool :=
  lease.all fun lease => (leases.get? lease.1).any fun row => row.token = lease.2 ∧ now < row.expiresAt

/-- A claim at this time finds the job not over, no live lease and a free slot. -/
structure Claimable (d : HostedDb) (dispatchId : String) (limit : ℤ) (now : Time) : Prop where
  incomplete : ∃ job, d.dispatchJob dispatchId = some job ∧ job.status.isTerminal = false
  expired : ∀ lease, d.leases.get? dispatchId = some lease → ¬ lease.expiresAt > now
  free : ¬ ((d.activeLeases now).length : ℤ) ≥ limit

/-- A program that writes nothing. -/
theorem within_of_silent {α : Type} {p : Procedure α} (h : p.Emits (fun _ => False) fun _ => True)
    (d : HostedDb) :
    p.Within Write.fits d := h.within (fun _ hw => hw.elim) d

namespace PostgresExecution
variable {d : HostedDb}

theorem checkLease_run (d : HostedDb) (lease : Option Lease) (now : Time) :
    (checkLease lease now).run d =
      if holdsLease d.leases lease now then .ok ((), d) else .error .staleWrite := by
  unfold checkLease holdsLease
  rcases lease with _ | ⟨dispatchId, token⟩
  · rfl
  · cases hrow : d.leases.get? dispatchId with
    | none => simp [selectLeaseForUpdate, hrow]
    | some row =>
      by_cases hheld : row.token = token ∧ now < row.expiresAt
      · have hvalid : ¬ row.expiresAt ≤ now := Rat.not_le.mpr hheld.2
        simp [selectLeaseForUpdate, hrow, hheld, hvalid]
      · have hstale : row.token ≠ token ∨ row.expiresAt ≤ now := by
          rwa [← Rat.not_lt, ← not_and_or]
        simp [selectLeaseForUpdate, hrow, hheld, hstale]

theorem checkLease_holds {lease : Option Lease} {now : Time} {u : Unit} {d' : HostedDb}
    (h : (checkLease lease now).run d = .ok (u, d')) : holdsLease d.leases lease now = true ∧ d' = d := by
  rw [checkLease_run] at h
  split_ifs at h with hheld
  cases h
  exact ⟨hheld, rfl⟩

theorem checkLease_within (lease : Option Lease) (now : Time) : (checkLease lease now).Within Write.fits d :=
  within_of_silent (checkLease_emits trivial) d

theorem renewExecution_within (hd : d.Fits) (dispatchId token : String) (ttl now now' : Time) :
    (renewExecution dispatchId token ttl now now').Within Write.fits d := by
  simp only [renewExecution, renewLease, issue_bind, within_update]
  cases hrow : d.leases.get? dispatchId with
  | none => trivial
  | some row =>
    have hfits := hd.leases row (Table.mem_of_get? hrow)
    by_cases hlive : row.token = token ∧
      row.expiresAt > now' <;> simp [hlive, hfits]

theorem releaseExecution_within (hd : d.Fits) (dispatchId token : String) :
    (releaseExecution dispatchId token).Within Write.fits d := by
  simp only [releaseExecution, expireLease, issue_bind, within_update]
  cases hrow : d.leases.get? dispatchId with
  | none => trivial
  | some row =>
    have hfits := hd.leases row (Table.mem_of_get? hrow)
    by_cases htoken : row.token = token <;> simp [htoken, hfits]

theorem issueLease_within {dispatchId token : String} {expiresAt : Time}
    (hattempts : ∀ lease, d.leases.get? dispatchId = some lease → fitsInteger (lease.attempts + 1))
    (hversion : ∀ dispatch, d.dispatches.get? dispatchId = some dispatch →
      fitsInteger (dispatch.version + 1)) :
    (do
      (upsertLease dispatchId token expiresAt).issue
      let _ ← (setDispatchStatus dispatchId "pending").issue
      return some token : Procedure (Option String)).Within Write.fits d := by
  obtain ⟨attempts, hexec, hfits⟩ : ∃ attempts : ℕ, (upsertLease dispatchId token expiresAt).exec d =
      .ok ((), [.lease { dispatchId, token, expiresAt, attempts }]) ∧ fitsInteger attempts := by
    simp only [upsertLease]
    cases hrow : d.leases.get? dispatchId with
    | none => exact ⟨1, rfl, by decide⟩
    | some row => exact ⟨row.attempts + 1, rfl, by exact_mod_cast hattempts row hrow⟩
  rw [issue_bind, within_step, hexec]
  refine ⟨by simpa using hfits, ?_⟩
  simp only [issue_bind, setDispatchStatus, within_update, applyAll_cons, applyAll_nil, dispatches_apply]
  cases hrow : d.dispatches.get? dispatchId with
  | none => trivial
  | some row =>
    have hversion := hversion row hrow
    exact ⟨by simpa using hversion, trivial⟩

/-- A claim counts the attempts of its lease and the version of its dispatch up. -/
theorem claimExecution_within {billing : BillingHook} {dispatchId : String} {limit : ℤ} {ttl : Time}
    {maxAttempts : ℤ} {token : String} {now at' : Time}
    (hattempts : ∀ lease, Claimable d dispatchId limit now → d.leases.get? dispatchId = some lease →
      (lease.attempts : ℤ) < maxAttempts ∧ fitsInteger (lease.attempts + 1))
    (hversion : ∀ dispatch, Claimable d dispatchId limit now → d.dispatches.get? dispatchId = some dispatch →
      fitsInteger (dispatch.version + 1)) :
    (claimExecution billing dispatchId limit ttl maxAttempts token now at').Within Write.fits d := by
  unfold claimExecution
  refine Within.bind (within_of_silent (emits_issue (advisoryLock_emits _)) d) fun _ d' hlock => ?_
  cases hlock
  simp only [issue_bind, selectDispatchJob, within_select, applyAll_nil]
  cases hjob : d.dispatchJob dispatchId with
  | none => trivial
  | some job =>
    simp only [Option.map_some]
    split_ifs with hover
    · trivial
    simp only [selectLeaseForUpdate, within_selectForUpdate]
    by_cases hlease : (d.leases.get? dispatchId).any (·.expiresAt > now) = true
    · rw [if_pos hlease]
      trivial
    rw [if_neg hlease]
    simp only [countActiveLeases, within_select]
    by_cases hlimit : ((d.activeLeases now).length : ℤ) ≥ limit
    · rw [if_pos hlimit]
      trivial
    rw [if_neg hlimit]
    have hclaim : Claimable d dispatchId limit now := by
      refine ⟨⟨job, hjob, by simpa using hover⟩, fun lease hrow => ?_, hlimit⟩
      simpa [hrow] using hlease
    split_ifs with hmax
    · rw [Option.any_eq_true] at hmax
      obtain ⟨lease, hrow, hused⟩ := hmax
      have hleft := (hattempts lease hclaim hrow).1
      have hused : (lease.attempts : ℤ) ≥ maxAttempts := of_decide_eq_true hused
      omega
    · exact issueLease_within (fun lease hrow => (hattempts lease hclaim hrow).2) fun dispatch =>
        hversion dispatch hclaim

end PostgresExecution

namespace PostgresRepositories
open PostgresExecution
variable {d : HostedDb}

theorem requireOne_within (rowcount : ℕ) : (requireOne rowcount).Within Write.fits d :=
  within_of_silent ((Prog.emits_raiseIf _ _).mpr fun _ => trivial) d

theorem updateDispatchRow_within (dispatch : Dispatch) (expectedVersion : ℤ)
    (h : fitsInteger dispatch.version) :
    (updateDispatchRow dispatch expectedVersion).issue.Within Write.fits d := by
  simp only [Stmt.issue, updateDispatchRow, within_update]
  cases d.dispatches.get? dispatch.id with
  | none => trivial
  | some row =>
    by_cases hversion : (row.version : ℤ) = expectedVersion
    · simp [hversion, h]
    · simp [hversion]

theorem updateDispatch_within (dispatch : Dispatch) (expectedVersion : ℤ)
    (h : (dispatch.version : ℤ) = expectedVersion + 1 → fitsInteger dispatch.version) :
    (updateDispatch dispatch expectedVersion).Within Write.fits d := by
  unfold updateDispatch
  rw [raiseIf_bind]
  split_ifs with hversion
  · trivial
  · exact Within.bind (updateDispatchRow_within dispatch expectedVersion (h (not_not.mp hversion)))
      fun rowcount d' _ => requireOne_within rowcount

/-- The dispatch of a job that is over is counted up. -/
theorem finishDispatch_within (dispatch : Dispatch) (lease : Option Lease) (now : Time)
    (h : holdsLease d.leases lease now = true → ∀ row, d.jobs.get? dispatch.jobId = some row →
      row.status.isTerminal = true → fitsInteger (dispatch.version + 1)) :
    (finishDispatchIfNotCancellationRequested dispatch lease now).Within Write.fits d := by
  unfold finishDispatchIfNotCancellationRequested
  refine Within.bind (checkLease_within lease now) fun _ d' hcheck => ?_
  obtain ⟨hheld, rfl⟩ := checkLease_holds hcheck
  simp only [issue_bind, selectJobStatus, within_select]
  cases hrow : d'.jobs.get? dispatch.jobId with
  | none => trivial
  | some row =>
    simp only [Option.map_some, raiseIf_bind]
    split_ifs with hrequested hlive
    · trivial
    · trivial
    · have hfits := h hheld row hrow (by simpa using hlive)
      rw [← issue_bind]
      refine Within.bind ?_ fun rowcount d₁ _ => Within.bind (requireOne_within rowcount) fun _ _ _ => trivial
      simp only [Stmt.issue, finishDispatch, within_update]
      cases d'.dispatches.get? dispatch.id with
      | none => trivial
      | some stored =>
        by_cases hversion : stored.version = dispatch.version
        · simp [hversion, hfits]
        · simp [hversion]

theorem updateJob_within (job : Job) (expectedVersion : ℤ) (h : fitsInteger job.version) :
    (updateJob job expectedVersion).issue.Within Write.fits d := by
  simp only [Stmt.issue, updateJob, within_update]
  cases d.jobs.get? job.id with
  | none => trivial
  | some row =>
    by_cases hversion : (row.version : ℤ) = expectedVersion
    · simp [hversion, JobRow.set, h]
    · simp [hversion]

theorem insertEvent_within (event : JobEvent) (h : fitsInteger event.sequence) :
    (insertEvent event).issue.Within Write.fits d := by
  simp only [Stmt.issue, insertEvent, within_insert]
  split_ifs
  · trivial
  · exact ⟨by simpa using h, trivial⟩

/-- The end of a job is noted in its row. -/
theorem finishJob_within (hd : d.Fits) (job : Job) (at' : Time) :
    (finishJob none job at').Within Write.fits d := by
  unfold finishJob
  by_cases hover : job.status.isTerminal = true
  · rw [if_pos hover]
    simp only [issue_bind, setTerminalAt, within_update]
    cases hrow : d.jobs.get? job.id with
    | none => trivial
    | some row =>
      have hfits := hd.jobs row (Table.mem_of_get? hrow)
      exact ⟨by simpa using hfits, trivial⟩
  · rw [if_neg hover]
    trivial

/-- What an update of one row found, and what it leaves alone. -/
theorem updateJob_one {job : Job} {expectedVersion : ℤ} {d₁ : HostedDb}
    (h : (updateJob job expectedVersion).issue.run d = .ok (1, d₁)) :
    (∃ row, d.jobs.get? job.id = some row ∧ (row.version : ℤ) = expectedVersion) ∧ d₁.events = d.events := by
  simp only [Stmt.issue, updateJob, run_update] at h
  cases hrow : d.jobs.get? job.id with
  | none =>
    simp only [hrow] at h
    cases h
  | some row =>
    simp only [hrow] at h
    split_ifs at h with hversion
    · cases h
      exact ⟨⟨row, rfl, hversion⟩, rfl⟩
    · cases h

/-- An update writes the job's version and its next event. -/
theorem writeJob_within {α : Type} {job : Job} {expectedVersion : ℤ} {rest : Procedure α} (hd : d.Fits)
    (hjob : fitsInteger job.version)
    (hrest : ∀ d₁ : HostedDb, d₁.Fits → d₁.events = d.events →
      (∃ row, d.jobs.get? job.id = some row ∧ (row.version : ℤ) = expectedVersion) →
        rest.Within Write.fits d₁) :
    (do
      let rowcount ← (updateJob job expectedVersion).issue
      requireOne rowcount
      rest).Within Write.fits d := by
  have hupdate := updateJob_within (d := d) job expectedVersion hjob
  refine Within.bind hupdate fun rowcount d₁ hrun => ?_
  refine Within.bind (requireOne_within rowcount) fun _ d₂ hone => ?_
  have hd₁ := hd.run hupdate hrun
  unfold requireOne raiseIf at hone
  split_ifs at hone with hrowcount
  · cases hone
  · cases hone
    obtain rfl := not_not.mp hrowcount
    obtain ⟨hrow, hevents⟩ := updateJob_one hrun
    exact hrest d₁ hd₁ hevents hrow

theorem nextSequence_congr {d d₁ : HostedDb} (h : d₁.events = d.events) (jobId : String) :
    d₁.nextSequence jobId = d.nextSequence jobId := by
  unfold HostedDb.nextSequence
  rw [h]

theorem appendEvent_within (jobId eventType : String) (progress : Progress)
    (h : fitsInteger (d.nextSequence jobId)) :
    (appendEvent jobId eventType progress).Within Write.fits d := by
  simp only [appendEvent, issue_bind, selectNextSequence, within_select]
  cases hevent : JobEvent.init jobId (d.nextSequence jobId) eventType progress with
  | error e => trivial
  | ok event =>
    have hsequence : event.sequence = d.nextSequence jobId := JobEvent.init_sequence hevent
    exact Within.bind (p := (insertEvent event).issue) (insertEvent_within event (hsequence ▸ h))
      fun _ _ _ => trivial

theorem recordArtifact_within (job : Job) (artifact : Option Artifact) :
    (recordArtifact job artifact).Within Write.fits d := by
  cases artifact with
  | none => trivial
  | some artifact =>
    have hemits : (recordArtifact job (some artifact)).Emits (fun w => w = .artifact artifact)
      fun _ => True :=
      Emits.bind ((emits_raiseIf _ _).mpr fun _ => trivial) fun _ =>
        emits_issue (insertArtifact_emits (fun _ _ => trivial) rfl)
    exact hemits.within (fun _ hw => by rw [hw]; rfl) d

theorem recordFailure_within (job : Job) (failure : Option (String × String)) :
    (recordFailure job failure).Within Write.fits d := by
  rcases failure with _ | ⟨code, message⟩
  · trivial
  · have hemits : (recordFailure job (some (code, message))).Emits
        (fun w => w = .failure ⟨job.id, code, message⟩) fun _ => True :=
      emits_issue (insertFailure_emits (fun _ _ => trivial) rfl)
    exact hemits.within (fun _ hw => by rw [hw]; rfl) d

theorem updateJobAndAppendEvent_within (hd : d.Fits) {job : Job} {expectedVersion : ℤ} {eventType : String}
    {artifact : Option Artifact} {lease : Option Lease} {failure : Option (String × String)} {now at' : Time}
    (hjob : holdsLease d.leases lease now = true → fitsInteger job.version)
    (hsequence : holdsLease d.leases lease now = true → ∀ row, d.jobs.get? job.id = some row →
      (row.version : ℤ) = expectedVersion → fitsInteger (d.nextSequence job.id)) :
    (updateJobAndAppendEvent none job expectedVersion eventType artifact lease failure now at').Within
      Write.fits d := by
  unfold updateJobAndAppendEvent
  refine Within.bind (checkLease_within lease now) fun _ d₀ hcheck => ?_
  obtain ⟨hheld, rfl⟩ := checkLease_holds hcheck
  refine writeJob_within hd (hjob hheld) fun d₁ hd₁ hevents hrow => ?_
  obtain ⟨row, hrow, hversion⟩ := hrow
  have happend := appendEvent_within (d := d₁) job.id eventType job.progress
    (nextSequence_congr hevents job.id ▸ hsequence hheld row hrow hversion)
  refine Within.bind happend fun event d₂ hrun => ?_
  have hd₂ := hd₁.run happend hrun
  refine Within.bind (recordArtifact_within job artifact) fun _ d₃ hrun => ?_
  have hd₃ := hd₂.run (recordArtifact_within job artifact) hrun
  refine Within.bind (recordFailure_within job failure) fun _ d₄ hrun => ?_
  have hd₄ := hd₃.run (recordFailure_within job failure) hrun
  exact Within.bind (finishJob_within hd₄ job at') fun _ _ _ => trivial

theorem requestCancellation_within (hd : d.Fits) (jobId : String) (at' : Time)
    (h : ∀ row, d.jobs.get? jobId = some row →
      ¬ (row.status.isTerminal = true ∨ row.status = .cancelRequested) →
      fitsInteger (row.version + 1) ∧ fitsInteger (d.nextSequence jobId)) :
    (requestCancellation none jobId at').Within Write.fits d := by
  unfold requestCancellation
  simp only [issue_bind, selectJob, within_select]
  cases hrow : d.jobs.get? jobId with
  | none => trivial
  | some row =>
    simp only [Option.map_some]
    split_ifs with hover
    · trivial
    · obtain ⟨hversion, hsequence⟩ := h row hrow hover
      simp only [selectDispatchStatus, within_select]
      generalize cancellation row.status ((d.dispatchOfJob jobId).map (·.status)) = next
      obtain ⟨status, eventType⟩ := next
      refine writeJob_within hd (by exact_mod_cast hversion) fun d₁ hd₁ hevents _ => ?_
      simp only [selectNextSequence, within_select, nextSequence_congr hevents]
      rw [← issue_bind]
      have hinsert := insertEvent_within (d := d₁)
        ⟨jobId, d.nextSequence jobId, eventType, row.progress⟩ hsequence
      refine Within.bind hinsert fun _ d₂ hrun => ?_
      exact Within.bind (finishJob_within (hd₁.run hinsert hrun) _ at') fun _ _ _ => trivial

theorem admitted_within (idempotencyKey : Option String) : (admitted idempotencyKey).Within Write.fits d := by
  cases idempotencyKey with
  | none => trivial
  | some key =>
    simp only [admitted, issue_bind, selectIdempotency, within_select]
    cases d.idempotency.get? key with
    | none => trivial
    | some existing =>
      simp only [selectJob, within_select]
      cases d.jobs.get? existing.jobId <;> trivial

theorem admitted_none {idempotencyKey : Option String} {d' : HostedDb}
    (h : (admitted idempotencyKey).run d = .ok (none, d')) :
    d' = d ∧ ∀ key, idempotencyKey = some key → d.idempotency.get? key = none := by
  cases idempotencyKey with
  | none =>
    cases h
    exact ⟨rfl, fun key hkey => by cases hkey⟩
  | some key =>
    simp only [admitted, issue_bind, selectIdempotency, run_select] at h
    cases hrow : d.idempotency.get? key with
    | none =>
      simp only [hrow] at h
      cases h
      refine ⟨rfl, fun key' hkey => ?_⟩
      cases hkey
      exact hrow
    | some existing =>
      simp only [hrow, selectJob, run_select] at h
      cases hjob : d.jobs.get? existing.jobId <;> simp only [hjob] at h <;> cases h

theorem recordKey_within (idempotencyKey : Option String) (jobId : String) :
    (recordKey idempotencyKey jobId).Within Write.fits d := by
  cases idempotencyKey with
  | none => trivial
  | some key =>
    have hemits : (recordKey (some key) jobId).Emits (fun w => w = .idempotency ⟨key, jobId⟩) fun _ => True :=
      emits_issue (insertIdempotency_emits (fun _ _ => trivial) rfl)
    exact hemits.within (fun _ hw => by rw [hw]; rfl) d

/-- A creation that is no replay writes the versions it is given. -/
theorem createJobAndDispatch_within {job : Job} {dispatch : Dispatch} {idempotencyKey : Option String}
    (hjob : (∀ key, idempotencyKey = some key → d.idempotency.get? key = none) → fitsInteger job.version)
    (hdispatch : (∀ key, idempotencyKey = some key → d.idempotency.get? key = none) →
      d.jobs.get? job.id = none →
      fitsInteger dispatch.version) :
    (createJobAndDispatch job dispatch idempotencyKey).Within Write.fits d := by
  unfold createJobAndDispatch
  refine Within.bind (admitted_within idempotencyKey) fun existing d' hadmitted => ?_
  cases existing with
  | some existing => trivial
  | none =>
    obtain ⟨rfl, hnew⟩ := admitted_none hadmitted
    refine Within.bind ?_ fun _ d₁ hinsert => ?_
    · simp only [Stmt.issue, insertJob, within_insert]
      split_ifs
      · trivial
      · exact ⟨by simpa using hjob hnew, trivial⟩
    · have hfree : d'.jobs.get? job.id = none := by
        simp only [Stmt.issue, insertJob, run_insert] at hinsert
        split_ifs at hinsert with hknown
        simpa using hknown
      refine Within.bind ?_ fun _ d₂ _ => ?_
      · simp only [Stmt.issue, insertDispatch, within_insert]
        split_ifs
        · trivial
        · trivial
        · trivial
        · exact ⟨by simpa using hdispatch hnew hfree, trivial⟩
      · exact Within.bind (recordKey_within idempotencyKey job.id) fun _ _ _ => trivial

end PostgresRepositories

end KenkuiServer.Storage
