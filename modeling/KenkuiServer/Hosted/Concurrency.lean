import KenkuiServer.Hosted.Writes

/-! The hosted processes running concurrently: every call keeps what the others rely on. -/
namespace KenkuiServer.Storage
open Txn Jobs Billing

section
variable {absorb : Prop} {now : HostedDb} {births : JobRow → Prop}
    {moves : JobRow → JobRow → Prop} {t : Locked}

theorem JobEffect.own (h : JobEffect now births moves t) {e : JobEvent} (he : Write.event e ∈ t.writes) :
    Key.job e.jobId ∈ t.locks := by
  cases h with
  | idle writes => cases writes _ he
  | moved row next event move version wrote appended => exact wrote.own e he ▸ wrote.lock
  | created row birth version going created => exact absurd he (created.own e)

theorem JobEffect.bumps (h : JobEffect now births moves t) :
    Table.Bumps (fun r : JobRow => r.version) now.jobs (applyAll t.writes now).jobs := by
  cases h with
  | idle writes => exact .same (aside_keeps writes now).1
  | moved row next event move version wrote appended =>
    exact .moved row next (wrote.id ▸ wrote.found) version wrote.jobs
  | created row birth version going created => exact .created row created.fresh version created.jobs

theorem JobEffect.kept (h : JobEffect now births moves t)
    (hmoves : ∀ row next, moves row next → absorb → row.status.isTerminal = false) (id : String)
    (row row' : JobRow) (hrow : now.jobs.get? id = some row)
    (hrow' : (applyAll t.writes now).jobs.get? id = some row') :
    row'.spec = row.spec ∧ row'.ownerId = row.ownerId ∧
      (absorb → row.status.isTerminal = true → row'.status = row.status) := by
  cases h with
  | idle writes =>
    rw [(aside_keeps writes now).1, hrow] at hrow'
    cases hrow'
    exact ⟨rfl, rfl, fun _ _ => rfl⟩
  | moved old next event move version wrote appended =>
    rw [wrote.jobs, Table.get?_put] at hrow'
    split_ifs at hrow' with hid
    · cases hrow'
      obtain rfl : old = row := by
        rw [← hid, wrote.id, wrote.found] at hrow
        exact Option.some.inj hrow
      refine ⟨wrote.spec, wrote.ownerId, fun ha ht => ?_⟩
      rw [hmoves old _ move ha] at ht
      cases ht
    · rw [hrow] at hrow'
      cases hrow'
      exact ⟨rfl, rfl, fun _ _ => rfl⟩
  | created new birth version going created =>
    rw [created.jobs, Table.get?_put] at hrow'
    split_ifs at hrow' with hid
    · rw [← hid, created.fresh] at hrow
      cases hrow
    · rw [hrow] at hrow'
      cases hrow'
      exact ⟨rfl, rfl, fun _ _ => rfl⟩

/-- What the locks of a transaction do not cover, the transaction leaves alone. -/
theorem JobEffect.since (h : JobEffect now births moves t)
    (hmoves : ∀ row next, moves row next → absorb → row.status.isTerminal = false)
    (hlocked : ∀ w ∈ t.writes, w.key ∈ t.locks) {ks : List Key} (hks : ∀ k ∈ t.locks, k ∉ ks) :
    Since absorb ks now (applyAll t.writes now) := by
  refine ⟨h.bumps.later, h.kept hmoves, fun id hid => ?_, leases_since hlocked hks now⟩
  · refine applyAll_keeps (P := fun w : Write => w.key ≠ .job id ∧ ∀ e, w = .event e → e.jobId ≠ id)
      (I := SameJob id now) (fun w hw d hd => hd.trans (.of_write w d hw.1 hw.2)) (fun w hw => ?_)
      (.refl id now)
    refine ⟨fun hkey => ?_, fun e he hjob => ?_⟩
    · exact hks _ (hlocked w hw) (hkey ▸ hid)
    · subst he hjob
      exact hks _ (h.own hw) hid

end

end KenkuiServer.Storage

namespace KenkuiServer.Hosted
open Txn Jobs Billing Storage PostgresExecution

abbrev HostedSys := Sys HostedDb Write Key Error Call Reply

/-- A new job starts at version 0; the snapshot of an update was read in one of the `past` states. -/
def Call.Admissible (past : List HostedDb) : Call → Prop
  | .createJobAndDispatch job _ _ => job.version = 0
  | .admitJob _ job _ _ _ _ _ => job.version = 0
  | .update snapshot _ _ _ _ _ _ _ => ∃ d ∈ past, ∃ row ∈ d.jobs.rows, row.toJob = snapshot
  | _ => True

/-- With `absorb`, the statement that ends a lost worker's job runs only on a job that is not over. -/
def exhaustion (absorb : Prop) : Allow HostedDb Write Key Error := fun β st d =>
  absorb → ∀ (h : ℕ = β) (jobId : String) (status : JobStatus) (at' : Time),
    st = cast (congrArg Statement h) (loseJob jobId status at') →
      ∀ row, d.jobs.get? jobId = some row → row.status.isTerminal = false

section
variable {absorb : Prop} {now : HostedDb}

/-- A job that was over is moved only to another terminal status, and not at all given `absorb`. -/
structure Going (absorb : Prop) (row next : JobRow) : Prop where
  going : absorb → row.status.isTerminal = false
  finished : row.status.isTerminal = true → next.status.isTerminal = true
  ends : EndsOnce row next

theorem Going.of_going {row next : JobRow} (h : row.status.isTerminal = false) (hends : EndsOnce row next) :
    Going absorb row next := by
  refine ⟨fun _ => h, fun hover => ?_, hends⟩
  rw [h] at hover
  cases hover

theorem Lost.going {at' : Time} {row next : JobRow} (h : Lost (exhaustion absorb) at' row next) :
    Going absorb row next := by
  obtain ⟨hover, status, d, hallow, hrow⟩ := h
  exact ⟨fun ha => hallow ha rfl row.id status at' rfl row hrow, fun _ => hover, Or.inr hover⟩

theorem idle_along {α : Type} {p : Procedure α} {reply : α → Reply} {births : JobRow → Prop}
    (hp : p.Emits (fun w => w.isAside) noClash) :
    (p >>= fun a => pure (reply a)).Along (hostedRely absorb) (exhaustion absorb) now
      (Prog.upTo noClash fun _ t => JobEffect now births (Going absorb) t) {} :=
  (aside_along (by simp) hp).seq fun _ _ ht => Prog.along_return (.idle ht)

theorem reply_along {α : Type} {p : Procedure α} {reply : α → Reply} {births births' : JobRow → Prop}
    {moves : JobRow → JobRow → Prop}
    (hp : p.Along (hostedRely absorb) (exhaustion absorb) now (Prog.upTo noClash fun _ t =>
      JobEffect now births moves t) {})
    (hbirths : ∀ row, births row → births' row) (hmoves : ∀ row next, moves row next →
      Going absorb row next) :
    (p >>= fun a => pure (reply a)).Along (hostedRely absorb) (exhaustion absorb) now
      (Prog.upTo noClash fun _ t => JobEffect now births' (Going absorb) t) {} :=
  hp.seq fun _ _ ht => Prog.along_return (ht.imp hbirths hmoves)

theorem transition_noClash {job : Job} {event : JobTransitionEvent} {e : Error}
    (h : transition job event = .error e) : noClash e := by
  obtain ⟨code, rfl⟩ := transition_error_value h
  simp [eventClash]

/-- The jobs that a call may create. -/
def Call.Creates : Call → JobRow → Prop
  | .createJobAndDispatch job _ _, row => row.spec = job.spec
  | .admitJob _ job _ _ _ _ _, row => row.spec = job.spec
  | _, _ => False

/-- What a committed call did to the jobs, whatever ran beside it. -/
theorem Call.effect_along {past : List HostedDb} (call : Call) (hadm : call.Admissible past)
    (hpast : ∀ d ∈ past, Since absorb [] d now) :
    call.prog.Along (hostedRely absorb) (exhaustion absorb) now
      (Prog.upTo noClash fun _ t => JobEffect now call.Creates (Going absorb) t) {} := by
  have hbilling : ∀ w : BillingWrite, (Write.billing w).isAside := fun _ => rfl
  cases call with
  | accountForIdentity id lotId identityId allowance =>
    exact idle_along (PostgresBillingRepository.accountForIdentity_emits (fun _ => rfl) (fun _ => rfl)
      (fun _ => rfl) (fun _ h => h) _ _ _ _)
  | grant lotId accountId credits reference =>
    exact idle_along (PostgresBillingRepository.grant_emits (fun _ => rfl) (fun _ => rfl)
      (fun _ => rfl) (fun _ h => h) _ _ _ _)
  | processPaymentEvent lotId provider providerEventId accountId credits =>
    exact idle_along (PostgresBillingRepository.processPaymentEvent_emits (fun _ => rfl) (fun _ => rfl)
      (fun _ => rfl) (fun _ h => h) (fun _ => rfl) _ _ _ _ _)
  | reserve authorizationId jobId accountId credits =>
    exact idle_along (PostgresBillingRepository.reserve_emits hbilling (fun _ h => h) _ _ _ _)
  | finalize jobId status =>
    exact idle_along (PostgresBillingRepository.finalize_emits hbilling (fun _ h => h) _ _)
  | createJobAndDispatch job dispatch idempotencyKey =>
    exact reply_along (create_along hadm) (fun _ h => h) fun _ _ h => h.elim
  | admitJob authorizationId job dispatch accountId ownerId credits idempotencyKey =>
    exact reply_along (admit_along hadm) (fun _ h => h) fun _ _ h => h.elim
  | claimExecution dispatchId limit ttl maxAttempts token clock at' =>
    exact reply_along claim_along (fun _ h => h.elim) fun _ _ h => Lost.going h
  | update snapshot event eventType artifact lease failure clock at' =>
    simp only [Call.prog]
    cases ht : transition snapshot event with
    | error e => exact transition_noClash ht
    | ok job =>
      have hadvances := transition_advances ht
      obtain ⟨d, hd, old, hold, rfl⟩ := hadm
      -- the version guard makes the row written over the one that the snapshot was read from
      have hsame : ∀ row : JobRow, now.jobs.get? row.id = some row → row.id = job.id →
          (row.version : ℤ) = job.version - 1 → row.status.isTerminal = false := by
        intro row hrow hid hversion
        have hkey : row.id = old.id := hid.trans hadvances.id
        have hrow' : row = old := by
          refine (hpast d hd).jobs.eq_of_version (Table.get?_of_mem hold) (hkey ▸ hrow) ?_
          have := hadvances.version
          omega
        rw [hrow']
        exact hadvances.moves.not_terminal
      refine (update_along (by omega)).seq fun _ t heffect => Prog.along_return ?_
      cases heffect with
      | idle writes => exact .idle writes
      | created row birth version going created => exact birth.elim
      | moved row next e move version wrote appended =>
        exact .moved row next e (.of_going (hsame row wrote.found move.1 move.2.1) move.2.2.2) version wrote
          appended
  | requestCancellation jobId at' =>
    exact reply_along cancel_along (fun _ h => h.elim) fun _ _ h => .of_going h.2.1 h.2.2.2
  | finishDispatch dispatch lease clock =>
    exact idle_along (PostgresRepositories.finishDispatchIfNotCancellationRequested_emits (fun _ => rfl)
      (fun _ h => h) _ _ _)
  | updateDispatch dispatch status =>
    have haside : (PostgresRepositories.updateDispatch
        { dispatch with status, version := dispatch.version + 1 } dispatch.version).Emits
          (fun w => w.isAside) noClash :=
      PostgresRepositories.updateDispatch_emits (fun _ => rfl) (fun _ h => h) _ _
    exact (aside_along (by simp) haside).seq fun _ _ ht => Prog.along_return (.idle ht)
  | renewExecution dispatchId token ttl clock clock' =>
    exact idle_along ⟨renewLease_emits fun _ => rfl, fun _ => trivial⟩
  | releaseExecution dispatchId token =>
    have haside : (PostgresExecution.releaseExecution dispatchId token).Emits (fun w => w.isAside) noClash :=
      ⟨expireLease_emits fun _ => rfl, fun _ => trivial⟩
    exact (aside_along (by simp) haside).seq fun _ _ ht => Prog.along_return (.idle ht)
  | retainSources clock skipped deletions =>
    exact idle_along (PostgresRetention.runSources_emits (fun _ => rfl) (fun _ => rfl)
      (by simp [eventClash]) _ _ _)

/-- Calls start at any time, as their callers may make them. -/
def Starts (s : HostedSys) : Label Call → Prop
  | .start call => call.Admissible (s.db :: s.past)
  | _ => True

theorem hosted_guarantee {ok : HostedSys → Label Call → Prop}
    (hstart : ∀ s call, ok s (.start call) → call.Admissible (s.db :: s.past))
    (hrun : ∀ s i call t β (st : Statement β) k, ok s (.run i) →
      s.sessions[i]? = some (.running call t (.step st k)) →
      s.free i (st.locks (applyAll t.writes s.db)) → exhaustion absorb β st s.db) :
    Guarantee (hostedRely absorb) (exhaustion absorb) Call.Admissible Call.prog ok where
  allows hok hrunning hfree := hrun _ _ _ _ _ _ _ hok hrunning hfree
  admits hok := hstart _ _ hok
  keeps {seen call now} hadm hseen := by
    have heffect : call.prog.Along (hostedRely absorb) (exhaustion absorb) now
        (Prog.upTo noClash fun _ t => JobEffect now call.Creates (Going absorb) t) {} :=
          call.effect_along hadm hseen
    refine (heffect.and (Prog.along_locked _ (by simp))).imp fun r t h => ?_
    cases r with
    | ok reply => exact fun ks hks => JobEffect.since h.1 (fun _ _ h => h.going) h.2 hks
    | error e => trivial

theorem starts_guarantee {ok : HostedSys → Label Call → Prop} (hok : ∀ s l, ok s l → Starts s l) :
    Guarantee (hostedRely False) (exhaustion False) Call.Admissible Call.prog ok :=
  hosted_guarantee (fun s call h => hok s (.start call) h) fun _ _ _ _ _ _ _ _ _ _ ha => ha.elim

end

end KenkuiServer.Hosted
