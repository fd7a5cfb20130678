import KenkuiServer.Hosted.Interference
import KenkuiServer.Storage.Events

/-! What the calls write to a job and its events, whatever other transactions do meanwhile: a guarded
update takes the row lock, and everything read about the job after it stays true until the commit. -/
namespace KenkuiServer.Storage
open Txn Jobs Billing PostgresExecution PostgresRepositories

/-- A write to a table other than those of jobs and events. -/
def Write.isAside : Write → Bool
  | .job _ | .event _ => false
  | _ => true

theorem Write.isAside_keeps {w : Write} (hw : w.isAside) (d : HostedDb) :
    (apply w d).jobs = d.jobs ∧ (apply w d).events = d.events := by
  cases w <;> first | exact ⟨rfl, rfl⟩ | cases hw

abbrev Locked := Trace HostedDb Write Key

abbrev noClash (e : Error) : Prop := e ≠ eventClash

attribute [local simp] eventClash

theorem aside_keeps {ws : List Write} (hws : ∀ w ∈ ws, w.isAside) (d : HostedDb) :
    (applyAll ws d).jobs = d.jobs ∧ (applyAll ws d).events = d.events := by
  refine applyAll_keeps (P := fun w : Write => w.isAside)
    (I := fun x : HostedDb => x.jobs = d.jobs ∧ x.events = d.events) (fun w hw x hx => ?_) hws ⟨rfl, rfl⟩
  obtain ⟨hjobs, hevents⟩ := Write.isAside_keeps hw x
  exact ⟨hjobs.trans hx.1, hevents.trans hx.2⟩

/-- The transaction has written `next` over `row`, and inserted `event` if there is one. -/
structure Wrote (now : HostedDb) (row next : JobRow) (event : Option JobEvent) (t : Locked) : Prop where
  found : now.jobs.get? row.id = some row
  id : next.id = row.id
  spec : next.spec = row.spec
  ownerId : next.ownerId = row.ownerId
  lock : Key.job row.id ∈ t.locks
  jobs : (applyAll t.writes now).jobs = now.jobs.put next
  events : (applyAll t.writes now).events = event.elim now.events now.events.put
  own : ∀ e, Write.event e ∈ t.writes → e.jobId = row.id

section
variable {absorb : Prop} {allow : Allow HostedDb Write Key Error} {now : HostedDb} {row next : JobRow}
  {event : Option JobEvent} {t : Locked} {α β : Type}

theorem Wrote.sameJob (h : Wrote now row next event t) {d : HostedDb} (hd : Since absorb t.locks d now) :
    SameJob row.id (applyAll t.writes d) (applyAll t.writes now) :=
  (hd.locked row.id h.lock).applyAll t.writes

theorem Wrote.view (h : Wrote now row next event t) {d : HostedDb} (hd : Since absorb t.locks d now) :
    (applyAll t.writes d).jobs.get? row.id = some next := by
  rw [← (h.sameJob hd).row, h.jobs, ← h.id]
  exact Table.get?_put_self _ _

theorem Wrote.aside (h : Wrote now row next event t) {ws : List Write} (hws : ∀ w ∈ ws, w.isAside)
    (ks : List Key) (ds : List HostedDb) :
    Wrote now row next event ⟨t.writes ++ ws, t.locks ++ ks, t.seen ++ ds⟩ := by
  obtain ⟨hjobs, hevents⟩ := aside_keeps hws (applyAll t.writes now)
  refine ⟨h.found, h.id, h.spec, h.ownerId, List.mem_append_left _ h.lock, ?_, ?_, fun e he => ?_⟩
  · rw [applyAll_append, hjobs, h.jobs]
  · rw [applyAll_append, hevents, h.events]
  · rcases List.mem_append.mp he with he | he
    · exact h.own e he
    · cases hws _ he

theorem Wrote.idle (h : Wrote now row next event t) (d : HostedDb) :
    Wrote now row next event (t.next d [] []) :=
  h.aside (by simp) [] [d]

theorem Wrote.along_aside (h : Wrote now row next event t) {p : Procedure α}
    (hp : p.Emits (fun w => w.isAside) noClash) :
    p.Along (hostedRely absorb) allow now (Prog.upTo noClash fun _ t' => Wrote now row next event t') t :=
  hp.along (fun _ _ ks ds hws => h.aside hws ks ds) fun _ _ _ _ he => he

/-- The guarded update: it goes on only over the row whose version was expected, and with its lock. -/
theorem updateJob_along {job : Job} {expectedVersion : ℤ} {f : Unit → Procedure α}
    {Post : α → Locked → Prop} (ht : ∀ w ∈ t.writes, w.isAside)
    (hf : ∀ row t', now.jobs.get? job.id = some row → (row.version : ℤ) = expectedVersion →
      Wrote now row (row.set job.status job.version job.progress) none t' →
      (f ()).Along (hostedRely absorb) allow now (Prog.upTo noClash Post) t') :
    (Prog.step (updateJob job expectedVersion) fun rowcount => requireOne rowcount >>= f).Along
      (hostedRely absorb) allow now (Prog.upTo noClash Post) t := by
  refine Prog.along_update (fun d w _ hw hd => ?_) (fun d _ _ => ?_) fun d e he _ => ?_
  · rw [(aside_keeps ht d).1] at hw
    cases hrow : d.jobs.get? job.id with
    | none => simp [hrow] at hw
    | some row =>
      have hid : row.id = job.id := ((d.jobs.get?_eq_some_iff _ row).mp hrow).2
      by_cases hversion : (row.version : ℤ) = expectedVersion
      swap
      · simp [hrow, hversion] at hw
      simp only [hrow, hversion, if_true, Except.ok.injEq, Option.some.injEq] at hw
      subst hw
      have hlock : Key.job row.id ∈ t.locks ++ [Key.job row.id] := by simp
      have hnow : now.jobs.get? row.id = some row := (hd.held.locked row.id hlock).row.trans (hid ▸ hrow)
      have hview := aside_keeps ht now
      simp only [requireOne_bind, ne_eq, not_true_eq_false, if_false]
      refine hf row _ (hid ▸ hnow) hversion ⟨hnow, rfl, rfl, rfl, hlock, ?_, ?_, fun e he => ?_⟩
      · simp [hview.1]
      · simp [hview.2]
      · simp only [Trace.next_writes, List.mem_append, List.mem_singleton, reduceCtorEq, or_false] at he
        cases ht _ he
  · simp
  · cases hrow : (applyAll t.writes d).jobs.get? job.id with
    | none => simp [hrow] at he
    | some row =>
      simp only [hrow] at he
      split_ifs at he

theorem Wrote.nextSequence (h : Wrote now row next none t) {d : HostedDb} (hd : Since absorb t.locks d now) :
    (applyAll t.writes d).nextSequence row.id = now.nextSequence row.id := by
  rw [← (h.sameJob hd).nextSequence]
  simp only [HostedDb.nextSequence, h.events, Option.elim]

theorem Wrote.insertEvent (h : Wrote now row next none t) {e : JobEvent} (he : e.jobId = row.id)
    (d : HostedDb) (ks : List Key) : Wrote now row next (some e) (t.next d [.event e] ks) := by
  refine ⟨h.found, h.id, h.spec, h.ownerId, List.mem_append_left _ h.lock, ?_, ?_, fun e' he' => ?_⟩
  · simpa using h.jobs
  · have := h.events
    simp only [Option.elim] at this
    simp [this]
  · rcases List.mem_append.mp he' with he' | he'
    · exact h.own e' he'
    · simp only [List.mem_singleton, Write.event.injEq] at he'
      rw [he', he]

/-- The event that a transaction appends to a job: the next one, with the progress of its snapshot. -/
structure Appended (now : HostedDb) (row : JobRow) (progress : Progress) (e : JobEvent) : Prop where
  jobId : e.jobId = row.id
  sequence : e.sequence = now.nextSequence row.id
  progress : e.progress = progress

theorem get?_nextSequence (d : HostedDb) (jobId : String) :
    d.events.get? (jobId, d.nextSequence jobId) = none := by
  rw [d.nextSequence_eq]
  exact EventTable.get?_nextNumber d.events jobId

theorem insertEvent_along {e : JobEvent} {k : Unit → Procedure α} {Post : α → Locked → Prop}
    (h : Wrote now row next none t) (he : Appended now row next.progress e)
    (hk : ∀ t', Wrote now row next (some e) t' →
      (k ()).Along (hostedRely absorb) allow now (Prog.upTo noClash Post) t') :
    (Prog.step (insertEvent e) k).Along (hostedRely absorb) allow now (Prog.upTo noClash Post) t := by
  refine Prog.along_insert (fun _ _ _ => hk _ (h.insertEvent he.jobId _ _)) fun d e' hclash hd => ?_
  have hfree := get?_nextSequence (applyAll t.writes d) row.id
  rw [h.nextSequence (Since.drop hd.held), ← he.sequence, ← he.jobId] at hfree
  simp [hfree] at hclash

/-- The transaction has inserted `row` as a new job. -/
structure Created (now : HostedDb) (row : JobRow) (t : Locked) : Prop where
  fresh : now.jobs.get? row.id = none
  lock : Key.job row.id ∈ t.locks
  jobs : (applyAll t.writes now).jobs = now.jobs.put row
  events : (applyAll t.writes now).events = now.events
  own : ∀ e, Write.event e ∉ t.writes

/-- What a committed transaction did to the jobs and their events: nothing, one job moved to its next
version with one more event, or one new job. -/
inductive JobEffect (now : HostedDb) (births : JobRow → Prop) (moves : JobRow → JobRow → Prop)
    (t : Locked) : Prop
  | idle (writes : ∀ w ∈ t.writes, w.isAside)
  | moved (row next : JobRow) (e : JobEvent) (move : moves row next)
      (version : next.version = row.version + 1) (wrote : Wrote now row next (some e) t)
      (appended : Appended now row next.progress e)
  | created (row : JobRow) (birth : births row) (version : row.version = 0) (going : row.terminalAt = none)
    (created : Created now row t)

theorem JobEffect.imp {births births' : JobRow → Prop} {moves moves' : JobRow → JobRow → Prop}
    (h : JobEffect now births moves t) (hbirths : ∀ row, births row → births' row)
    (himp : ∀ row next, moves row next → moves' row next) : JobEffect now births' moves' t := by
  cases h with
  | idle writes => exact .idle writes
  | moved row next e move version wrote appended =>
    exact .moved row next e (himp row next move) version wrote appended
  | created row birth version going created => exact .created row (hbirths row birth) version going created

/-- The time at which a job ended is set when it ends, and only then. -/
def EndsOnce (row next : JobRow) : Prop := next.terminalAt = row.terminalAt ∨ next.status.isTerminal = true

theorem appendEvent_along {eventType : String} {progress : Progress} (h : Wrote now row next none t)
    (hsame : next.progress = progress) :
    (appendEvent row.id eventType progress).Along (hostedRely absorb) allow now
      (Prog.upTo noClash fun e t' => Appended now row progress e ∧ Wrote now row next (some e) t') t := by
  simp only [appendEvent, issue_bind]
  refine Prog.along_select fun d hd => ?_
  rw [h.nextSequence hd.held]
  cases hinit : JobEvent.init row.id (now.nextSequence row.id) eventType progress with
  | error e =>
    have hkind := JobEvent.init_error hinit
    simp only [List.mem_cons, List.not_mem_nil, or_false] at hkind
    rcases hkind with rfl | rfl | rfl <;> simp
  | ok e =>
    obtain ⟨hjob, hsequence, hprogress⟩ := JobEvent.init_ok row.named hinit
    have happended : Appended now row progress e := ⟨hjob, hsequence, hprogress⟩
    refine insertEvent_along (h.idle d) (hsame ▸ happended) fun t' ht' => ?_
    exact Prog.along_return ⟨happended, ht'⟩

theorem Wrote.rewrite (h : Wrote now row next event t) (at' : Time) (d : HostedDb) (ks : List Key) :
    Wrote now row { next with terminalAt := some at' } event
      (t.next d [.job { next with terminalAt := some at' }] ks) := by
  refine ⟨h.found, h.id, h.spec, h.ownerId, List.mem_append_left _ h.lock, ?_, ?_, fun e he => ?_⟩
  · have hput : (now.jobs.put next).put { next with terminalAt := some at' } =
        now.jobs.put { next with terminalAt := some at' } := Table.put_put _ rfl
    simp [h.jobs, hput]
  · simpa using h.events
  · simp only [Trace.next_writes, List.mem_append, List.mem_singleton, reduceCtorEq, or_false] at he
    exact h.own e he

theorem finalize_aside (jobId : String) (status : AuthorizationStatus) :
    (PostgresBillingRepository.finalize jobId status).Emits (fun w => w.isAside) noClash :=
  PostgresBillingRepository.finalize_emits (fun _ => rfl) (fun _ h => h) jobId status

theorem finishJob_along {job : Job} {at' : Time} (h : Wrote now row next event t)
    (hid : job.id = row.id) :
    (finishJob PostgresHostedRepository.billing job at').Along (hostedRely absorb) allow now
      (Prog.upTo noClash fun _ t' => ∃ next' : JobRow, next'.toJob = next.toJob ∧
        (next'.terminalAt = next.terminalAt ∨ job.status.isTerminal = true) ∧
          Wrote now row next' event t') t := by
  unfold finishJob
  by_cases hterminal : job.status.isTerminal
  swap
  · rw [if_neg hterminal]
    exact Prog.along_return ⟨next, rfl, Or.inl rfl, h⟩
  rw [if_pos hterminal]
  simp only [issue_bind]
  generalize (if job.status = .succeeded then AuthorizationStatus.settled else .released) = status
  refine Prog.along_update (fun d w _ hw hd => ?_) (fun d hnone hd => ?_) fun d e he hd => ?_
  · rw [hid, h.view (Since.drop hd.held)] at hw
    cases hw
    refine ((h.rewrite at' d _).along_aside (finalize_aside job.id status)).seq fun _ t' ht' => ?_
    exact Prog.along_return ⟨{ next with terminalAt := some at' }, rfl, Or.inr hterminal, ht'⟩
  · simp [hid, h.view hd.held] at hnone
  · simp [hid, h.view hd.held] at he

/-- The token of a lease is the one that its dispatch has. -/
def LeaseHeld (d : HostedDb) : Option Lease → Prop
  | none => True
  | some (dispatchId, token) => ∃ row, d.leases.get? dispatchId = some row ∧ row.token = token

/-- A lease that passes its check is locked, so it is still held when the transaction ends. -/
theorem checkLease_along {lease : Option Lease} {at' : Time} {Φ : Except Error Unit → Locked → Prop}
    (ht : t.writes = []) (hok : ∀ t', t'.writes = [] → LeaseHeld now lease → Φ (.ok ()) t')
    (hstale : ∀ t', Φ (.error .staleWrite) t') :
    (checkLease lease at').Along leaseRely allow now Φ t := by
  rcases lease with _ | ⟨dispatchId, token⟩
  · exact hok t ht trivial
  simp only [checkLease, issue_bind]
  refine Prog.along_selectForUpdate (fun d _ _ => hstale _) fun d row hrow hd => ?_
  rw [ht] at hrow
  simp only
  split_ifs with hlost
  · exact hstale _
  · refine hok _ (by simp [ht]) ⟨row, ?_, ?_⟩
    · rw [hd.held dispatchId (by simp)]
      exact hrow
    · by_contra hne
      exact hlost (Or.inl hne)

theorem recordArtifact_aside (job : Job) (artifact : Option Artifact) :
    (recordArtifact job artifact).Emits (fun w => w.isAside) noClash := by
  cases artifact with
  | none => trivial
  | some artifact =>
    refine Prog.Emits.bind ((Prog.emits_raiseIf _ _).mpr fun _ => by simp) fun _ => ?_
    exact emits_issue (insertArtifact_emits (fun _ hc => by simpa using hc) rfl)

theorem recordFailure_aside (job : Job) (failure : Option (String × String)) :
    (recordFailure job failure).Emits (fun w => w.isAside) noClash := by
  rcases failure with _ | ⟨code, message⟩
  · trivial
  · exact emits_issue (insertFailure_emits (fun _ hc => by simpa using hc) rfl)

theorem update_along {job : Job} {expectedVersion : ℤ} {eventType : String} {artifact : Option Artifact}
    {lease : Option Lease} {failure : Option (String × String)} {clock at' : Time}
    (hnext : (job.version : ℤ) = expectedVersion + 1) :
    (updateJobAndAppendEvent PostgresHostedRepository.billing job expectedVersion eventType artifact lease
      failure clock at').Along (hostedRely absorb) allow now
      (Prog.upTo noClash fun _ t => JobEffect now (fun _ => False) (fun row next => row.id = job.id ∧
        (row.version : ℤ) = expectedVersion ∧ next.status = job.status ∧ EndsOnce row next) t) {} := by
  unfold updateJobAndAppendEvent
  refine Prog.Along.bind ((checkLease_along rfl (fun t' ht' _ => ?_) fun _ => ?_).mono
    (fun _ _ _ h => h.leases) (fun _ _ _ => id) fun _ _ => id)
  swap
  · simp
  simp only [issue_bind]
  refine updateJob_along (by simp [ht']) fun row t₁ hrow hversion h₁ => ?_
  have hid : row.id = job.id := ((now.jobs.get?_eq_some_iff _ row).mp hrow).2
  rw [← hid]
  refine (appendEvent_along h₁ rfl).seq fun e t₂ h₂ => ?_
  obtain ⟨happended, h₂⟩ := h₂
  refine (h₂.along_aside (recordArtifact_aside job artifact)).seq fun _ t₃ h₃ => ?_
  refine (h₃.along_aside (recordFailure_aside job failure)).seq fun _ t₄ h₄ => ?_
  refine (finishJob_along h₄ hid.symm).seq fun _ t₅ h₅ => ?_
  obtain ⟨next, hset, hends, hwrote⟩ := h₅
  have hstatus : next.status = job.status := (congrArg Job.status hset).trans rfl
  have hto : next.version = job.version := (congrArg Job.version hset).trans rfl
  have hprogress : next.progress = job.progress := (congrArg Job.progress hset).trans rfl
  exact Prog.along_return
    (.moved row next e ⟨rfl, hversion, hstatus, hends.imp_right fun h => hstatus ▸ h⟩ (by omega) hwrote
      (hprogress ▸ happended))

theorem cancel_along {jobId : String} {at' : Time} :
    (requestCancellation PostgresHostedRepository.billing jobId at').Along (hostedRely absorb) allow now
      (Prog.upTo noClash fun _ t => JobEffect now (fun _ => False) (fun row next => row.id = jobId ∧
        row.status.isTerminal = false ∧ (next.status = .cancelled ∨ next.status = .cancelRequested) ∧
        EndsOnce row next) t)
      {} := by
  unfold requestCancellation
  simp only [issue_bind]
  refine Prog.along_select fun d₀ hd₀ => ?_
  cases hcurrent : d₀.jobs.get? jobId with
  | none => simp [hcurrent]
  | some current =>
    have hid : current.id = jobId := ((d₀.jobs.get?_eq_some_iff _ current).mp hcurrent).2
    simp only [applyAll_nil, hcurrent, Option.map_some]
    split_ifs with hover
    · exact Prog.along_return (.idle (by simp))
    refine Prog.along_select fun d₁ _ => ?_
    refine updateJob_along (by simp) fun row t₁ hrow hversion h₁ => ?_
    -- the version guard makes the row written over the one that was read
    have hsame : row = current := by
      refine hd₀.held.jobs.eq_of_version hcurrent (hid ▸ hrow) ?_
      exact_mod_cast hversion
    subst hsame
    refine Prog.along_select fun d₂ hd₂ => ?_
    have hsequence := h₁.nextSequence hd₂.held
    rw [hid] at hsequence
    rw [hsequence]
    have h₂ : Wrote now row _ none (t₁.next d₂ [] []) := h₁.idle d₂
    refine insertEvent_along h₂ ⟨hid.symm, ?_, rfl⟩ fun t₃ h₃ => ?_
    · rw [hid]
    refine Prog.Along.seq (finishJob_along h₃ ?_) fun _ t₄ h₄ => ?_
    · rfl
    obtain ⟨next, hnext, hends, hwrote⟩ := h₄
    have hstatus : next.status = _ := congrArg Job.status hnext
    have hprogress : next.progress = row.progress := (congrArg Job.progress hnext).trans rfl
    refine Prog.along_return (.moved row next _ ⟨hid, ?_, ?_, hends.imp_right ?_⟩
      (congrArg Job.version hnext) hwrote
      ⟨hid.symm, ?_, hprogress.symm⟩)
    · simpa using fun h => hover (Or.inl h)
    · rw [hstatus]
      exact cancellation_status _ _
    · exact fun h => hstatus ▸ h
    · rw [hid]

theorem appendJobEvent_along {eventType : String} {k : Unit → Procedure α} {Post : α → Locked → Prop}
    (h : Wrote now row next none t)
    (hk : ∀ e t', Appended now row next.progress e → Wrote now row next (some e) t' →
      (k ()).Along (hostedRely absorb) allow now (Prog.upTo noClash Post) t') :
    (Prog.step (appendJobEvent row.id eventType) k).Along (hostedRely absorb) allow now
    (Prog.upTo noClash Post)
      t := by
  intro d hd _
  have hsince : Since absorb t.locks d now := Since.drop hd.held
  have hfree := get?_nextSequence (applyAll t.writes d) row.id
  rw [h.nextSequence hsince] at hfree
  simp only [appendJobEvent, h.view hsince, h.nextSequence hsince, hfree, Option.isSome_none,
    Bool.false_eq_true, if_false]
  exact hk _ _ ⟨rfl, rfl, rfl⟩ (h.insertEvent rfl _ _)

/-- The move of a job whose worker is lost, over a row that the ending statement may run on. -/
def Lost (allow : Allow HostedDb Write Key Error) (at' : Time) (row next : JobRow) : Prop :=
  next.status.isTerminal = true ∧ ∃ (status : JobStatus) (d : HostedDb),
    allow _ (loseJob row.id status at') d ∧ d.jobs.get? row.id = some row

theorem loseWorker_along {dispatchId jobId : String} {seen : JobStatus} {at' : Time}
    (ht : ∀ w ∈ t.writes, w.isAside) (hseen : ∃ d ∈ t.seen, (d.jobs.get? jobId).isSome) :
    (loseWorker PostgresHostedRepository.billing dispatchId jobId seen at').Along (hostedRely absorb) allow
      now (Prog.upTo noClash fun _ t' => JobEffect now (fun _ => False) (Lost allow at') t') t := by
  simp only [loseWorker, issue_bind]
  have hover : (if seen = .cancelRequested then JobStatus.cancelled else .failed).isTerminal = true := by
    split_ifs <;> rfl
  revert hover
  generalize (if seen = .cancelRequested then JobStatus.cancelled else .failed) = status
  intro hover
  refine Prog.along_update (fun d w hallow hw hd => ?_) (fun d hnone hd => ?_) fun d e he hd => ?_
  · rw [(aside_keeps ht d).1] at hw
    cases hrow : d.jobs.get? jobId with
    | none => simp [hrow] at hw
    | some row =>
      obtain rfl : row.id = jobId := ((d.jobs.get?_eq_some_iff _ row).mp hrow).2
      simp only [hrow, Except.ok.injEq, Option.some.injEq] at hw
      subst hw
      set next : JobRow := { row.set status (row.version + 1) row.progress with terminalAt := some at' }
        with hnext
      have hlock : Key.job row.id ∈ t.locks ++ [Key.job row.id] := by simp
      have hview := aside_keeps ht now
      have h₁ : Wrote now row next none (t.next d [.job next] [Key.job row.id]) := by
        refine ⟨(hd.held.locked row.id hlock).row.trans hrow, rfl, rfl, rfl, hlock, ?_, ?_,
          fun e he => ?_⟩
        · simp [hview.1]
        · simp [hview.2]
        · simp only [Trace.next_writes, List.mem_append, List.mem_singleton, reduceCtorEq, or_false] at he
          cases ht _ he
      refine Prog.Along.seq (p := (setDispatchStatus dispatchId "done").issue)
        (h₁.along_aside (emits_issue (setDispatchStatus_emits fun _ => rfl))) fun _ t₂ h₂ => ?_
      refine Prog.Along.seq (p := (insertFailureOnce _).issue)
        (h₂.along_aside (emits_issue (insertFailureOnce_emits rfl))) fun _ t₃ h₃ => ?_
      refine appendJobEvent_along h₃ fun e t₄ happended h₄ => ?_
      refine (h₄.along_aside (finalize_aside row.id .released)).seq fun _ t₅ h₅ => ?_
      exact Prog.along_return (.moved row next e ⟨hover, status, d, hallow, hrow⟩ rfl h₅ happended)
  · obtain ⟨d₀, hd₀, hsome⟩ := hseen
    obtain ⟨row₀, hrow₀⟩ := Option.isSome_iff_exists.mp hsome
    obtain ⟨row, hrow, -⟩ := (hd.later d₀ hd₀).jobs jobId row₀ hrow₀
    simp [(aside_keeps ht d).1, hrow] at hnone
  · cases hrow : (applyAll t.writes d).jobs.get? jobId with
    | none => simp [hrow] at he
    | some row => simp [hrow] at he

/-- The three ends of a claim, whatever the other transactions rely on. -/
theorem claim_ends {R : Rely HostedDb Key} {dispatchId token : String} {limit maxAttempts : ℤ}
    {ttl clock at' : Time} {Φ : Except Error (Option String) → Locked → Prop}
    (hidle : ∀ t : Locked, t.writes = [] → Φ (.ok none) t)
    (hlost : ∀ (row : JobRow) (t : Locked), t.writes = [] → (∃ d ∈ t.seen, (d.jobs.get? row.id).isSome) →
      (loseWorker PostgresHostedRepository.billing dispatchId row.id row.status at' >>= fun _ =>
        pure none).Along R allow now Φ t)
    (hissued : ∀ t : Locked, t.writes = [] →
      (Prog.step (upsertLease dispatchId token (clock + ttl)) fun _ =>
        .step (setDispatchStatus dispatchId "pending") fun _ => pure (some token)).Along R allow now Φ t) :
    (claimExecution PostgresHostedRepository.billing dispatchId limit ttl maxAttempts token clock
      at').Along R allow now Φ {} := by
  simp only [claimExecution, issue_bind]
  intro d₀ _ _
  simp only [advisoryLock, applyAll_nil]
  refine Prog.along_select fun d hd => ?_
  simp only [Trace.next_writes, List.append_nil, applyAll_nil]
  cases hdispatch : d.dispatchJob dispatchId with
  | none => exact hidle _ rfl
  | some row =>
    have hrow : (d.jobs.get? row.id).isSome := by
      simp only [HostedDb.dispatchJob, Option.bind_eq_bind, Option.bind_eq_some_iff] at hdispatch
      obtain ⟨dispatch, -, hjob⟩ := hdispatch
      rw [((d.jobs.get?_eq_some_iff _ row).mp hjob).2, hjob]
      rfl
    simp only [Option.map_some]
    split_ifs
    · exact hidle _ rfl
    -- what follows the lease lock, whether or not there is a lease to lock
    have hrest : ∀ (previous : Option ExecutionLease) (t : Locked), t.writes = [] → d ∈ t.seen →
        Prog.Along R allow now Φ
        (if previous.any (·.expiresAt > clock) then pure none
        else .step (countActiveLeases clock) fun active =>
          if active ≥ limit then pure none
          else if previous.any (·.attempts ≥ maxAttempts) then do
            loseWorker PostgresHostedRepository.billing dispatchId row.id row.status at'
            return none
          else .step (upsertLease dispatchId token (clock + ttl)) fun _ =>
            .step (setDispatchStatus dispatchId "pending") fun _ => pure (some token)) t := by
      intro previous t ht hseen
      split
      · exact hidle t ht
      refine Prog.along_select fun d' _ => ?_
      have ht' : (t.next d' [] []).writes = [] := by simp [ht]
      split_ifs
      · exact hidle _ ht'
      · exact hlost row _ ht' ⟨d, by simp [hseen], hrow⟩
      · exact hissued _ ht'
    refine Prog.along_selectForUpdate (fun d' _ _ => hrest none _ ?_ ?_) fun d' lease _ _ =>
      hrest (some lease) _ ?_ ?_
    all_goals simp

theorem claim_along {dispatchId token : String} {limit maxAttempts : ℤ} {ttl clock at' : Time} :
    (claimExecution PostgresHostedRepository.billing dispatchId limit ttl maxAttempts token clock
      at').Along (hostedRely absorb) allow now
        (Prog.upTo noClash fun _ t' => JobEffect now (fun _ => False) (Lost allow at') t') {} := by
  refine claim_ends (fun t ht => ?_) (fun row t ht hseen => ?_) fun t ht => ?_
  · exact .idle (by simp [ht])
  · exact (loseWorker_along (by simp [ht]) hseen).seq fun _ _ ht' => Prog.along_return ht'
  · have hemits : Prog.Emits (fun w : Write => w.isAside) noClash
        (.step (upsertLease dispatchId token (clock + ttl)) fun _ =>
          .step (setDispatchStatus dispatchId "pending") fun _ => .ret (some token)) :=
      ⟨upsertLease_emits fun _ => rfl, fun _ => ⟨setDispatchStatus_emits fun _ => rfl, fun _ => trivial⟩⟩
    refine hemits.along (fun _ ws _ _ hws => ?_) fun _ _ _ _ he => he
    simpa [ht] using JobEffect.idle hws

theorem Created.along_aside (h : Created now row t) {p : Procedure α}
    (hp : p.Emits (fun w => w.isAside) noClash) :
    p.Along (hostedRely absorb) allow now (Prog.upTo noClash fun _ t' => Created now row t') t := by
  refine hp.along (fun _ ws ks ds hws => ?_) fun _ _ _ _ he => he
  obtain ⟨hjobs, hevents⟩ := aside_keeps hws (applyAll t.writes now)
  refine ⟨h.fresh, List.mem_append_left _ h.lock, ?_, ?_, fun e he => ?_⟩
  · rw [applyAll_append, hjobs, h.jobs]
  · rw [applyAll_append, hevents, h.events]
  · rcases List.mem_append.mp he with he | he
    · exact h.own e he
    · cases hws _ he

theorem insertJob_along {k : Unit → Procedure α} {Post : α → Locked → Prop}
    (ht : ∀ w ∈ t.writes, w.isAside)
    (hk : ∀ t', Created now row t' → (k ()).Along (hostedRely absorb) allow now (Prog.upTo noClash Post) t') :
    (Prog.step (insertJob row) k).Along (hostedRely absorb) allow now (Prog.upTo noClash Post) t := by
  refine Prog.along_insert (fun d hfree hd => hk _ ?_) fun d e he _ => ?_
  swap
  · split_ifs at he
    cases he
    simp
  rw [(aside_keeps ht d).1] at hfree
  split_ifs at hfree with hnone
  have hlock : Key.job row.id ∈ t.locks ++ ([] ++ [Key.job row.id]) := by simp
  obtain ⟨hjobs, hevents⟩ := aside_keeps ht now
  refine ⟨(hd.held.locked row.id hlock).row.trans (by simpa using hnone), hlock, ?_, ?_, fun e he => ?_⟩
  · simp [hjobs]
  · simp [hevents]
  · simp only [Trace.next_writes, List.mem_append, List.mem_singleton, reduceCtorEq, or_false] at he
    cases ht _ he

theorem insertNew_along {dispatch : Dispatch} {idempotencyKey : Option String} {job : Job}
    (ht : ∀ w ∈ t.writes, w.isAside) (hversion : row.version = 0) (hgoing : row.terminalAt = none) :
    (do
      (insertJob row).issue
      (insertDispatch dispatch).issue
      recordKey idempotencyKey job.id
      return job : Procedure Job).Along (hostedRely absorb) allow now
        (Prog.upTo noClash fun _ t' => JobEffect now (· = row) (fun _ _ => False) t') t := by
  simp only [issue_bind]
  refine insertJob_along ht fun t₁ h₁ => ?_
  refine Prog.Along.seq (p := (insertDispatch dispatch).issue)
    (h₁.along_aside (emits_issue (insertDispatch_emits (fun _ hc => by simpa using hc) rfl)))
      fun _ t₂ h₂ => ?_
  refine (h₂.along_aside ?_).seq fun _ t₃ h₃ => Prog.along_return (.created row rfl hversion hgoing h₃)
  rcases idempotencyKey with _ | key
  · trivial
  · exact emits_issue (insertIdempotency_emits (fun _ hc => by simpa using hc) rfl)

theorem admitted_silent (idempotencyKey : Option String) :
    (admitted idempotencyKey).Emits (fun _ => False) noClash := by
  rcases idempotencyKey with _ | key
  · trivial
  · simp only [admitted, issue_bind]
    refine ⟨Stmt.emits_select _, fun existing => ?_⟩
    rcases existing with _ | existing
    · trivial
    · refine ⟨Stmt.emits_select _, fun job => ?_⟩
      cases job with
      | none => exact (by simp : noClash (.runtime "orphaned_idempotency_key"))
      | some job => trivial

theorem aside_along {p : Procedure α} (ht : ∀ w ∈ t.writes, w.isAside)
    (hp : p.Emits (fun w => w.isAside) noClash) :
    p.Along (hostedRely absorb) allow now (Prog.upTo noClash fun _ t' => ∀ w ∈ t'.writes, w.isAside) t := by
  refine hp.along (fun _ ws _ _ hws => ?_) fun _ _ _ _ he => he
  intro w hw
  rcases List.mem_append.mp hw with hw | hw
  · exact ht w hw
  · exact hws w hw

theorem silent_along {p : Procedure α} (hp : p.Emits (fun _ => False) noClash) :
    p.Along (hostedRely absorb) allow now (Prog.upTo noClash fun _ t' => t'.writes = t.writes) t := by
  refine hp.along (fun _ ws _ _ hws => ?_) fun _ _ _ _ he => he
  have hnil : ws = [] := List.eq_nil_iff_forall_not_mem.mpr hws
  simp [hnil]

theorem replay_silent (spec : JobSpec) (idempotencyKey : Option String) :
    (PostgresHostedRepository.replay spec idempotencyKey).Emits (fun _ => False) noClash := by
  refine (admitted_silent idempotencyKey).bind fun existing => ?_
  rcases existing with _ | existing
  · trivial
  · exact Prog.Emits.bind ((Prog.emits_raiseIf _ _).mpr fun _ => by simp) fun _ => trivial

theorem create_along {job : Job} {dispatch : Dispatch} {idempotencyKey : Option String}
    (hversion : job.version = 0) :
    (createJobAndDispatch job dispatch idempotencyKey).Along (hostedRely absorb) allow now
      (Prog.upTo noClash fun _ t' => JobEffect now (·.spec = job.spec) (fun _ _ => False) t') {} := by
  unfold createJobAndDispatch
  refine (silent_along (admitted_silent idempotencyKey)).seq fun existing t ht => ?_
  rcases existing with _ | existing
  · refine (insertNew_along (by simp [ht]) hversion rfl).imp fun r t' hr => ?_
    cases r with
    | ok job => exact hr.imp (fun _ heq => heq ▸ rfl) fun _ _ h => h
    | error e => exact hr
  · exact Prog.along_return (.idle (by simp [ht]))

open PostgresHostedRepository PostgresBillingRepository in
theorem admit_along {authorizationId accountId ownerId : String} {job : Job} {dispatch : Dispatch}
    {credits : ℤ} {idempotencyKey : Option String} (hversion : job.version = 0) :
    (admitJob authorizationId job dispatch accountId ownerId credits idempotencyKey).Along
      (hostedRely absorb) allow now
      (Prog.upTo noClash fun _ t' => JobEffect now (·.spec = job.spec) (fun _ _ => False) t') {} := by
  unfold admitJob
  refine Prog.along_raiseIf (fun _ => by simp) fun _ => ?_
  refine Prog.Along.seq (p := (selectAccountForUpdate accountId).issue)
    (silent_along (emits_issue (Stmt.emits_selectForUpdate _ _))) fun _ t₁ h₁ => ?_
  refine (silent_along (replay_silent job.spec idempotencyKey)).seq fun existing t₂ h₂ => ?_
  rw [h₁] at h₂
  rcases existing with _ | existing
  swap
  · exact Prog.along_return (.idle (by simp [h₂]))
  unfold admitNew
  refine Prog.Along.seq (p := (countActiveJobs ownerId).issue)
    (silent_along (emits_issue (Stmt.emits_select _))) fun active t₃ h₃ => ?_
  refine Prog.along_raiseIf (fun _ => by simp) fun _ => ?_
  refine Prog.Along.seq (p := (selectAssetForUpdate job.spec.sourceId).issue)
    (silent_along (emits_issue (Stmt.emits_selectForUpdate _ _))) fun source t₄ h₄ => ?_
  refine Prog.along_raiseIf (fun _ => by simp) fun _ => ?_
  rw [h₃, h₂] at h₄
  refine (aside_along (by simp [h₄])
    (PostgresBillingRepository.reserveNew_emits (fun _ => rfl) (fun _ h => h) _ _ _ _)).seq
      fun _ t₅ h₅ => ?_
  refine (insertNew_along h₅ hversion rfl).imp fun r t' hr => ?_
  cases r with
  | ok job => exact hr.imp (fun _ heq => heq ▸ rfl) fun _ _ h => h
  | error e => exact hr
end

end KenkuiServer.Storage
