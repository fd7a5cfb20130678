import KenkuiServer.Local.Histories
import KenkuiServer.Local.Publications

/-! Safety of the local job protocol: any number of attempts, leased or not, next to the API and the
supervisors, in any order, each of them stopping anywhere. -/
namespace KenkuiServer.Local
open Txn Data Jobs Storage Repositories

/-- A query that writes or removes the file at `path`. -/
inductive Query.Touches (path : String) : Query → Prop
  | write : Touches path (.write path)
  | engine : Touches path (.engine path)
  | unlink : Touches path (.unlink path)

theorem file_untouched {i : ℕ} {moment : Moment} {q : Query} {path : String} (h : ¬ q.Touches path)
    (files : String → Option ℕ) : q.file i moment files path = files path := by
  have hupdate : ∀ (path' : String) (value : Option ℕ), path' ≠ path →
      Function.update files path' value path = files path := by
    intro path' value hne
    exact Function.update_of_ne (Ne.symm hne) value files
  unfold Query.file
  cases q with
  | write path' => exact hupdate path' (some i) fun heq => h (heq ▸ .write)
  | unlink path' => exact hupdate path' none fun heq => h (heq ▸ .unlink)
  | engine path' =>
    have hne : path' ≠ path := fun heq => h (heq ▸ .engine)
    cases moment.engine <;> simp only
    · exact hupdate path' (some i) hne
    · exact hupdate path' (some i) hne
  | _ => rfl

/-- A file that was the attempt's stays so until the attempt removes it. -/
theorem file_kept {i : ℕ} {moment : Moment} {q : Query} {path : String} {files : String → Option ℕ}
    (h : files path = some i) (hunlink : q ≠ .unlink path) : q.file i moment files path = some i := by
  by_cases htouches : q.Touches path
  · cases htouches with
    | write => exact Function.update_self path (some i) files
    | engine =>
      unfold Query.file
      cases moment.engine <;> simp only
      all_goals first
        | exact Function.update_self path (some i) files
        | exact h
    | unlink => exact absurd rfl hunlink
  · rw [file_untouched htouches, h]

namespace Server

/-- The stores so far, the newest first. -/
def stores (s : Server) : List LocalDb := s.run.db :: s.run.past

/-- What a server does, with `assets` its artifacts directory: new jobs are queued and their dispatches
pending, a claim draws a fresh token, each token is given to one attempt, and neither ids nor tokens have a
dot. -/
inductive Serves (assets : String) (s : Server) : Act → Prop
  | create (job : Job) (dispatch : Dispatch) (key : Option String) (version : job.version = 0)
      (queued : job.status = .queued) (pending : dispatch.status = "pending") (id : '.' ∉ job.id.toList) :
    Serves assets s (.call (.createJobAndDispatch job dispatch key))
  | cancel (jobId : String) : Serves assets s (.call (.requestCancellation jobId))
  | claim (dispatchId : String) (limit : ℤ) (ttl : Time) (maxAttempts : ℤ) (token : String) (now : Time)
      (fresh : FreshTokens s.run (.claimExecution dispatchId limit ttl maxAttempts token now)) :
    Serves assets s (.call (.claimExecution dispatchId limit ttl maxAttempts token now))
  | renew (dispatchId token : String) (ttl now now' : Time) :
    Serves assets s (.call (.renewExecution dispatchId token ttl now now'))
  | release (dispatchId token : String) : Serves assets s (.call (.releaseExecution dispatchId token))
  | spawn (runner : LocalJobRunner) (dispatchId : String) (directory : runner.artifacts = assets)
      (token : ∀ lease, runner.lease = some lease → '.' ∉ lease.2.toList ∧
        ∀ attempt ∈ s.attempts, ∀ lease', attempt.runner.lease = some lease' → lease'.2 ≠ lease.2) :
    Serves assets s (.spawn runner dispatchId)
  | work (i : ℕ) (moment : Moment) : Serves assets s (.work i moment)
  | beat (i : ℕ) (ttl now now' : Time) : Serves assets s (.beat i ttl now now')

/-- The states of a server that started with an empty store. -/
inductive Reach (assets : String) : Server → Prop
  | init : Reach assets { run := { db := {} } }
  | step {s : Server} (act : Act) (reach : Reach assets s) (serves : s.Serves assets act) :
    Reach assets (s.step act)

/-- What is known of an attempt from all that it has asked and heard. -/
structure Known (s : Server) (i : ℕ) (attempt : Attempt) (past : History) : Prop where
  tells : Tells attempt.runner (fun past' result => ∀ next, result = .ok next →
    Ready attempt.runner past' next)
    attempt.script past
  jobs : ∀ id job, past.ReadJob id job → ∃ d ∈ s.stores, d.jobs.get? id = some job
  dispatches : ∀ id dispatch, past.ReadDispatch id dispatch →
    ∃ d ∈ s.stores, d.dispatches.get? id = some dispatch
  refused : ∀ dispatch, past.Refused attempt.runner.lease dispatch →
    ∃ d ∈ s.stores, ∃ row, d.jobs.get? dispatch.jobId = some row ∧ row.status = .cancelRequested
  own : ∀ path, ∀ exchange ∈ past, Wrote path exchange → ∃ jobId, path = attempt.runner.output jobId
  wrote : attempt.runner.lease.isSome → past.Early → ∀ path, ∀ exchange ∈ past, Wrote path exchange →
    s.files path = some i

/-- The artifacts at the outputs of attempt `i`, if it has a lease, are its own. -/
def Owns (s : Server) (i : ℕ) (runner : LocalJobRunner) (past : History) : Prop :=
  ∀ artifact ∈ s.run.db.artifacts.rows, artifact.path = runner.output artifact.jobId → runner.lease.isSome →
    ¬ past.Early ∧ s.files artifact.path = some i

/-- The artifact was published by an attempt of `runner`. -/
structure Author (s : Server) (i : ℕ) (runner : LocalJobRunner) (artifact : Artifact) : Prop where
  attempt : s.attempts[i]?.map (·.runner) = some runner
  path : artifact.path = runner.output artifact.jobId
  committed : ∃ snapshot eventType failure now reply,
    (.update snapshot .completed eventType (some artifact) runner.lease failure now, reply) ∈ s.run.log

/-- What a run keeps. -/
structure Protocol (assets : String) (s : Server) : Prop where
  reach : Serial.Reach Call.prog Rely {} s.run
  ids : ∀ d ∈ s.stores, ∀ job ∈ d.jobs.rows, '.' ∉ job.id.toList
  artifacts : s.run.db.ArtifactsMatch
  directory : ∀ attempt ∈ s.attempts, attempt.runner.artifacts = assets
  dotless : ∀ attempt ∈ s.attempts, ∀ lease, attempt.runner.lease = some lease → '.' ∉ lease.2.toList
  tokens : ∀ (i j : ℕ) (a b : Attempt) (lease lease' : Lease), s.attempts[i]? = some a →
    s.attempts[j]? = some b →
    a.runner.lease = some lease → b.runner.lease = some lease' → lease'.2 = lease.2 → i = j
  known : ∀ i attempt, s.attempts[i]? = some attempt → ∃ past, s.Known i attempt past ∧
    s.Owns i attempt.runner past
  authors : ∀ artifact ∈ s.run.db.artifacts.rows, ∃ i runner, s.Author i runner artifact

section
variable {assets : String} {s : Server} {act : Act} {i : ℕ} {attempt : Attempt} {past : History} {call : Call}
  {jobId : String}

theorem stores_step (act : Act) {d : LocalDb} (h : d ∈ s.stores) : d ∈ (s.step act).stores := by
  unfold stores at h ⊢
  rw [step_run]
  cases s.call? act with
  | none => exact h
  | some call =>
    simp only [Option.elim_some, Serial.step_past]
    exact List.mem_cons_of_mem _ h

theorem Known.rely (h : s.Known i attempt past) (hcall : HonestCall attempt.runner past call) :
    Rely s.run call ∧ call.Completes := by
  have hread : ∀ id job, past.ReadJob id job → ∃ d ∈ s.stores, job ∈ d.jobs.rows := by
    intro id job hjob
    obtain ⟨d, hd, hget⟩ := h.jobs id job hjob
    exact ⟨d, hd, Table.mem_of_get? hget⟩
  have hread_dispatch : ∀ id dispatch, past.ReadDispatch id dispatch →
      ∃ d ∈ s.stores, dispatch ∈ d.dispatches.rows := by
    intro id dispatch hdispatch
    obtain ⟨d, hd, hget⟩ := h.dispatches id dispatch hdispatch
    exact ⟨d, hd, Table.mem_of_get? hget⟩
  cases hcall with
  | progress id job event eventType failure now read going =>
    refine ⟨⟨⟨hread id job read, trivial⟩, trivial⟩, ?_⟩
    simpa [Call.Completes] using going
  | completed id job uuid now read early wrote =>
    refine ⟨⟨⟨hread id job read, trivial⟩, trivial⟩, ?_⟩
    simp [Call.Completes]
  | take id dispatch status read pending going =>
    exact ⟨⟨⟨trivial, trivial⟩, pending, going, hread_dispatch id dispatch read⟩, trivial⟩
  | finish id dispatch now read => exact ⟨⟨⟨trivial, trivial⟩, hread_dispatch id dispatch read⟩, trivial⟩
  | release dispatchId token => exact ⟨⟨⟨trivial, trivial⟩, trivial⟩, trivial⟩

theorem settled_empty : ({} : LocalDb).Settled := by
  intro id dispatch hget
  simp at hget

theorem Known.requested (h : s.Known i attempt past) (hprotocol : s.Protocol assets)
    (hrequested : past.Requested attempt.runner.lease jobId) :
    ∃ d ∈ s.stores, ∃ row, d.jobs.get? jobId = some row ∧ row.status = .cancelRequested := by
  cases hrequested with
  | read job read requested =>
    obtain ⟨d, hd, hjob⟩ := h.jobs jobId job read
    exact ⟨d, hd, job, hjob, requested⟩
  | refused dispatchId dispatch dispatch' job works read refused =>
    have hdispatched := reach_dispatched settled_empty hprotocol.reach
    obtain ⟨id, hdispatch⟩ := works.readDispatch
    obtain ⟨d, hd, hget⟩ := h.dispatches id dispatch hdispatch
    obtain ⟨d', hd', hget'⟩ := h.dispatches dispatchId dispatch' read
    have hid : dispatch.id = id := Table.key_of_get? hget
    rw [← hid, works.id] at hget
    obtain ⟨row, hrow, hsince⟩ := hdispatched.since d hd dispatchId dispatch hget
    obtain ⟨row', hrow', hsince'⟩ := hdispatched.since d' hd' dispatchId dispatch' hget'
    have hsame : row = row' := Option.some.inj (hrow.symm.trans hrow')
    obtain ⟨d₂, hd₂, hjob⟩ := h.jobs dispatch.jobId job works.readJob
    have hjobId : job.id = dispatch.jobId := Table.key_of_get? hjob
    have hdispatch_job : dispatch'.jobId = jobId := by
      rw [← hsince'.1, ← hsame, hsince.1, ← hjobId, works.jobId]
    obtain ⟨d₃, hd₃, requested, hrequested, hstatus⟩ := h.refused dispatch' refused
    rw [hdispatch_job] at hrequested
    exact ⟨d₃, hd₃, requested, hrequested, hstatus⟩

theorem Known.honest (h : s.Known i attempt past) {q : Query} {k : q.Answer → Worker Next}
    (hscript : attempt.script = .ask q k) : Honest attempt.runner past q := by
  have htells := h.tells
  rw [hscript] at htells
  exact htells.1

theorem Protocol.working (h : s.Protocol assets) {moment : Moment}
    (hcall : s.call? (.work i moment) = some call) :
    ∃ attempt past, s.attempts[i]? = some attempt ∧ s.Known i attempt past ∧ s.Owns i attempt.runner past ∧
      HonestCall attempt.runner past call := by
  obtain ⟨attempt, hattempt, hcall⟩ := Option.bind_eq_some_iff.mp hcall
  obtain ⟨past, hknown, howns⟩ := h.known i attempt hattempt
  refine ⟨attempt, past, hattempt, hknown, howns, ?_⟩
  unfold Attempt.call? at hcall
  cases hscript : attempt.script with
  | ret next => simp [hscript] at hcall
  | raise e => simp [hscript] at hcall
  | ask q k =>
    have hhonest := hknown.honest hscript
    rw [hscript] at hcall
    cases hhonest with
    | call f honest =>
      cases hcall
      exact honest moment
    | _ => cases hcall

theorem Protocol.rely (h : s.Protocol assets) (hserves : s.Serves assets act)
    (hcall : s.call? act = some call) :
    Rely s.run call ∧ call.Completes ∧
      ∀ job dispatch key, call = .createJobAndDispatch job dispatch key → job.status = .queued ∧
        '.' ∉ job.id.toList := by
  have hother : Rely s.run call ∧ call.Completes →
      (∀ job dispatch key, call ≠ .createJobAndDispatch job dispatch key) →
      Rely s.run call ∧ call.Completes ∧
        ∀ job dispatch key, call = .createJobAndDispatch job dispatch key → job.status = .queued ∧
          '.' ∉ job.id.toList :=
    fun hrely hne => ⟨hrely.1, hrely.2, fun job dispatch key heq => absurd heq (hne job dispatch key)⟩
  cases hserves with
  | create job dispatch key version queued pending id =>
    cases hcall
    refine ⟨⟨⟨version, trivial⟩, pending⟩, trivial, ?_⟩
    intro job' dispatch' key' heq
    cases heq
    exact ⟨queued, id⟩
  | cancel jobId =>
    cases hcall
    exact hother ⟨⟨⟨trivial, trivial⟩, trivial⟩, trivial⟩ (by simp)
  | claim dispatchId limit ttl maxAttempts token now fresh =>
    cases hcall
    exact hother ⟨⟨⟨trivial, fresh⟩, trivial⟩, trivial⟩ (by simp)
  | renew dispatchId token ttl now now' =>
    cases hcall
    exact hother ⟨⟨⟨trivial, trivial⟩, trivial⟩, trivial⟩ (by simp)
  | release dispatchId token =>
    cases hcall
    exact hother ⟨⟨⟨trivial, trivial⟩, trivial⟩, trivial⟩ (by simp)
  | spawn runner dispatchId directory token => cases hcall
  | work i moment =>
    obtain ⟨attempt, past, hattempt, hknown, -, hhonest⟩ := h.working hcall
    refine hother (hknown.rely hhonest) ?_
    intro job dispatch key heq
    rw [heq] at hhonest
    cases hhonest
  | beat i ttl now now' =>
    obtain ⟨attempt, -, hcall⟩ := Option.bind_eq_some_iff.mp hcall
    obtain ⟨lease, -, hcall⟩ := Option.bind_eq_some_iff.mp hcall
    cases hcall
    exact hother ⟨⟨⟨trivial, trivial⟩, trivial⟩, trivial⟩ (by simp)

theorem Known.touches (h : s.Known i attempt past) (hprotocol : s.Protocol assets) {q : Query}
    (hq : Honest attempt.runner past q) {path : String} (htouches : q.Touches path) :
    ∃ jobId, path = attempt.runner.output jobId ∧ '.' ∉ jobId.toList := by
  have hread : ∀ jobId job, past.ReadJob jobId job → '.' ∉ job.id.toList := by
    intro jobId job hjob
    obtain ⟨d, hd, hget⟩ := h.jobs jobId job hjob
    exact hprotocol.ids d hd job (Table.mem_of_get? hget)
  cases htouches with
  | write =>
    cases hq with
    | write jobId job read early => exact ⟨job.id, rfl, hread jobId job read⟩
  | engine =>
    cases hq with
    | engine jobId job read early => exact ⟨job.id, rfl, hread jobId job read⟩
  | unlink =>
    cases hq with
    | unlink jobId requested =>
      obtain ⟨d, hd, row, hrow, -⟩ := h.requested hprotocol requested
      have hid : row.id = jobId := Table.key_of_get? hrow
      refine ⟨jobId, rfl, ?_⟩
      rw [← hid]
      exact hprotocol.ids d hd row (Table.mem_of_get? hrow)

/-- The outputs of an attempt with a lease are no other attempt's. -/
theorem Protocol.apart (h : s.Protocol assets) {j : ℕ} {other : Attempt} {jobId' : String}
    (hi : s.attempts[i]? = some attempt) (hj : s.attempts[j]? = some other)
    (hlease : attempt.runner.lease.isSome) (hjob : '.' ∉ jobId'.toList)
    (hpath : attempt.runner.output jobId = other.runner.output jobId') :
    i = j ∧ jobId = jobId' := by
  obtain ⟨lease, hlease⟩ := Option.isSome_iff_exists.mp hlease
  have hattempt := List.mem_of_getElem? hi
  have hother := List.mem_of_getElem? hj
  have hroot : attempt.runner.artifacts = other.runner.artifacts := by
    rw [h.directory attempt hattempt, h.directory other hother]
  obtain ⟨hid, lease', hlease', htoken⟩ :=
    LocalJobRunner.output_inj hroot hlease (h.dotless attempt hattempt lease hlease)
    (h.dotless other hother) hjob hpath
  exact ⟨h.tokens i j attempt other lease lease' hi hj hlease hlease' htoken, hid⟩

theorem dotless_artifact {d : LocalDb} (hmatch : d.ArtifactsMatch)
    (hids : ∀ job ∈ d.jobs.rows, '.' ∉ job.id.toList) {artifact : Artifact}
    (h : artifact ∈ d.artifacts.rows) : '.' ∉ artifact.jobId.toList := by
  obtain ⟨job, hjob, -⟩ := (hmatch.succeeded artifact.jobId).mp ⟨artifact, h, rfl⟩
  have hid : job.id = artifact.jobId := Table.key_of_get? hjob
  rw [← hid]
  exact hids job (Table.mem_of_get? hjob)

/-- A job that has an artifact has never had its cancellation requested. -/
theorem Protocol.not_requested (h : s.Protocol assets) {artifact : Artifact}
    (hmem : artifact ∈ s.run.db.artifacts.rows) {d : LocalDb} (hd : d ∈ s.stores) {row : Job}
    (hrow : d.jobs.get? artifact.jobId = some row) :
    row.status ≠ .cancelRequested := by
  intro hrequested
  obtain ⟨job, hjob, hdone⟩ := (h.artifacts.succeeded artifact.jobId).mp ⟨artifact, hmem, rfl⟩
  obtain ⟨now, hnow, hsince⟩ := reach_since rely_starts h.reach d hd artifact.jobId row hrow
  rw [hjob] at hnow
  cases hnow
  rcases hsince.requested hrequested with hsame | hcancelled
  · rw [hsame, hrequested] at hdone
    cases hdone
  · rw [hcancelled] at hdone
    cases hdone

/-- An artifact that an attempt publishes is at its output for the job, which it has written. -/
theorem Known.published (h : s.Known i attempt past) {snapshot : Job} {event : JobTransitionEvent}
    {eventType : String} {artifact : Artifact} {lease : Option Lease}
    {failure : Option (String × String)} {now : Time}
    (hcall : HonestCall attempt.runner past
      (.update snapshot event eventType (some artifact) lease failure now)) :
    artifact.path = attempt.runner.output artifact.jobId ∧ event = .completed ∧ lease = attempt.runner.lease ∧
      past.Early ∧ ∃ exchange ∈ past, Wrote artifact.path exchange := by
  cases hcall with
  | completed jobId job uuid now read early wrote =>
    obtain ⟨d, -, hjob⟩ := h.jobs jobId snapshot read
    have hid : snapshot.id = jobId := Table.key_of_get? hjob
    refine ⟨?_, rfl, rfl, early, wrote⟩
    simp only [hid]

theorem refused_answer {d : LocalDb} {dispatch : Dispatch} {lease : Option Lease} {now : Time} {reply : Reply}
    (h : ((Call.finishDispatch dispatch lease now).prog.transaction d).1 = .ok reply)
    (hne : reply ≠ .flag true) :
    ∃ row, d.jobs.get? dispatch.jobId = some row ∧ row.status = .cancelRequested := by
  unfold Prog.transaction at h
  cases hrun : (Call.finishDispatch dispatch lease now).prog.run d with
  | error e => simp [hrun] at h
  | ok r =>
    obtain ⟨reply', d'⟩ := r
    simp only [hrun, Except.ok.injEq] at h
    obtain ⟨finished, hfinish, hreply⟩ := Prog.run_map_ok hrun
    cases finish_outcome.of_ok hfinish with
    | refused held row found requested => exact ⟨row, found, requested⟩
    | done => exact absurd (h.symm.trans hreply.symm) hne

theorem Known.stays (h : s.Known i attempt past) (act : Act)
    (hfiles : ∀ jobId, s.files (attempt.runner.output jobId) = some i → attempt.runner.lease.isSome →
      (s.step act).files (attempt.runner.output jobId) = some i) : (s.step act).Known i attempt past := by
  constructor
  · exact h.tells
  · intro id job hread
    obtain ⟨d, hd, hjob⟩ := h.jobs id job hread
    exact ⟨d, stores_step act hd, hjob⟩
  · intro id dispatch hread
    obtain ⟨d, hd, hdispatch⟩ := h.dispatches id dispatch hread
    exact ⟨d, stores_step act hd, hdispatch⟩
  · intro dispatch hrefused
    obtain ⟨d, hd, hrow⟩ := h.refused dispatch hrefused
    exact ⟨d, stores_step act hd, hrow⟩
  · exact h.own
  · intro hlease hearly path exchange hmem hwrote
    obtain ⟨jobId, hpath⟩ := h.own path exchange hmem hwrote
    rw [hpath]
    apply hfiles jobId _ hlease
    rw [← hpath]
    exact h.wrote hlease hearly path exchange hmem hwrote

theorem Known.ask (h : s.Known i attempt past) {moment : Moment}
    (hi : s.attempts[i]? = some attempt) {q : Query} {k : q.Answer → Worker Next}
    (hscript : attempt.script = .ask q k) :
    (s.step (.work i moment)).Known i (attempt.advance s.run moment)
    (⟨q, q.answer s.run moment⟩ :: past) := by
  have hhonest := h.honest hscript
  have hfiles : (s.step (.work i moment)).files = q.file i moment s.files := by
    simp only [Server.step, hi, Option.elim_some, Attempt.file, hscript]
  have hnewest : s.run.db ∈ (s.step (.work i moment)).stores := stores_step _ List.mem_cons_self
  rw [Attempt.advance_ask hscript]
  constructor
  · have htells := h.tells
    rw [hscript] at htells
    exact htells.2 _
  · intro id job hread
    rcases List.mem_cons.mp hread with hnew | hold
    · generalize hanswer : q.answer s.run moment = answer at hnew
      cases hnew
      exact ⟨s.run.db, hnewest, hanswer⟩
    · obtain ⟨d, hd, hjob⟩ := h.jobs id job hold
      exact ⟨d, stores_step _ hd, hjob⟩
  · intro id dispatch hread
    rcases List.mem_cons.mp hread with hnew | hold
    · generalize hanswer : q.answer s.run moment = answer at hnew
      cases hnew
      exact ⟨s.run.db, hnewest, hanswer⟩
    · obtain ⟨d, hd, hdispatch⟩ := h.dispatches id dispatch hold
      exact ⟨d, stores_step _ hd, hdispatch⟩
  · intro dispatch hrefused
    have hleft : History.Refused (⟨q, q.answer s.run moment⟩ :: past) attempt.runner.lease dispatch :=
      hrefused
    obtain ⟨reply, hne, hread⟩ := hleft
    rcases List.mem_cons.mp hread with hnew | hold
    · generalize hanswer : q.answer s.run moment = answer at hnew
      cases hnew
      obtain ⟨row, hrow⟩ := refused_answer hanswer hne
      exact ⟨s.run.db, hnewest, row, hrow⟩
    · obtain ⟨d, hd, hrow⟩ := h.refused dispatch ⟨reply, hne, hold⟩
      exact ⟨d, stores_step _ hd, hrow⟩
  · intro path exchange hmem hwrote
    rcases List.mem_cons.mp hmem with hnew | hold
    · rw [hnew] at hwrote
      generalize q.answer s.run moment = answer at hwrote
      cases hwrote with
      | write =>
        cases hhonest with
        | write jobId job read early => exact ⟨job.id, rfl⟩
      | rendered =>
        cases hhonest with
        | engine jobId job read early => exact ⟨job.id, rfl⟩
    · exact h.own path exchange hold hwrote
  · intro hlease hearly path exchange hmem hwrote
    rw [hfiles]
    rcases List.mem_cons.mp hmem with hnew | hold
    · rw [hnew] at hwrote
      generalize hanswer : q.answer s.run moment = answer at hwrote
      cases hwrote with
      | write => exact Function.update_self path (some i) s.files
      | rendered =>
        have hstep : moment.engine = .returned := hanswer
        simp only [Query.file, hstep]
        exact Function.update_self path (some i) s.files
    · have hplain := hearly _ List.mem_cons_self
      have hbefore : past.Early := fun exchange hmem => hearly exchange (List.mem_cons_of_mem _ hmem)
      exact file_kept (h.wrote hlease hbefore path exchange hold hwrote) (hplain.unlinks path)

theorem Protocol.artifacts_step (h : s.Protocol assets) (hserves : s.Serves assets act) {artifact : Artifact}
    (hmem : artifact ∈ (s.step act).run.db.artifacts.rows) :
    artifact ∈ s.run.db.artifacts.rows ∨ ∃ snapshot event eventType lease failure now reply,
      s.call? act = some (.update snapshot event eventType (some artifact) lease failure now) ∧
      (.update snapshot event eventType (some artifact) lease failure now, reply) ∈ (s.step act).run.log := by
  rw [step_run] at hmem ⊢
  cases hcall : s.call? act with
  | none =>
    rw [hcall] at hmem
    exact Or.inl hmem
  | some call =>
    obtain ⟨hrely, hcompletes, -⟩ := h.rely hserves hcall
    have hspec := Serial.step_spec Call.prog s.run call
    rw [hcall] at hmem
    simp only [Option.elim_some] at hmem ⊢
    revert hspec hmem
    generalize s.run.step Call.prog call = run'
    intro hmem hspec
    cases hspec with
    | fail error => exact Or.inl hmem
    | @commit reply d ran =>
      cases call.publication (rely_starts s.run call hrely)
        hcompletes (reach_later rely_starts h.reach) ran with
      | same jobs artifacts =>
        rw [artifacts] at hmem
        exact Or.inl hmem
      | created job dispatch key asked fresh jobs artifacts =>
        rw [artifacts] at hmem
        exact Or.inl hmem
      | moved row next found going unfinished jobs artifacts =>
        rw [artifacts] at hmem
        exact Or.inl hmem
      | published snapshot event eventType new lease failure now asked next found going done own fresh
        jobs artifacts =>
        rw [artifacts, Table.mem_put] at hmem
        rcases hmem with rfl | ⟨hold, -⟩
        · right
          refine ⟨snapshot, event, eventType, lease, failure, now, reply, congrArg some asked, ?_⟩
          rw [← asked]
          exact List.mem_cons_self
        · exact Or.inl hold

theorem Protocol.store_step (h : s.Protocol assets) (hserves : s.Serves assets act) :
    Serial.Reach Call.prog Rely {} (s.step act).run ∧
      (∀ d ∈ (s.step act).stores, ∀ job ∈ d.jobs.rows, '.' ∉ job.id.toList) ∧
      (s.step act).run.db.ArtifactsMatch := by
  unfold stores
  rw [step_run]
  cases hcall : s.call? act with
  | none => exact ⟨h.reach, h.ids, h.artifacts⟩
  | some call =>
    obtain ⟨hrely, hcompletes, hnew⟩ := h.rely hserves hcall
    refine ⟨.step call h.reach hrely, ?_⟩
    have hspec := Serial.step_spec Call.prog s.run call
    simp only [Option.elim_some]
    revert hspec
    generalize s.run.step Call.prog call = run'
    intro hspec
    cases hspec with
    | fail error =>
      refine ⟨?_, h.artifacts⟩
      intro d hd
      rcases List.mem_cons.mp hd with rfl | hd
      · exact h.ids _ List.mem_cons_self
      · exact h.ids d hd
    | commit ran =>
      have hpublication := call.publication (rely_starts s.run call hrely)
        hcompletes (reach_later rely_starts h.reach) ran
      constructor
      · intro d hd
        rcases List.mem_cons.mp hd with rfl | hd
        · refine hpublication.ids (P := fun id => '.' ∉ id.toList) ?_ (h.ids s.run.db List.mem_cons_self)
          exact fun job dispatch key asked => (hnew job dispatch key asked).2
        · exact h.ids d hd
      · exact hpublication.artifactsMatch h.artifacts fun job dispatch key asked =>
          (hnew job dispatch key asked).1

theorem Author.stays {runner : LocalJobRunner} {artifact : Artifact}
    (h : s.Author i runner artifact) (act : Act) (hattempt : s.attempts[i]?.map (·.runner) = some runner →
      (s.step act).attempts[i]?.map (·.runner) = some runner) :
    (s.step act).Author i runner artifact := by
  constructor
  · exact hattempt h.attempt
  · exact h.path
  · obtain ⟨snapshot, eventType, failure, now, reply, hmem⟩ := h.committed
    refine ⟨snapshot, eventType, failure, now, reply, ?_⟩
    rw [step_run]
    cases s.call? act with
    | none => exact hmem
    | some call => exact Serial.mem_step_log hmem

theorem Protocol.outside (h : s.Protocol assets) (hserves : s.Serves assets act)
    (hact : ∀ i moment, act ≠ .work i moment) {artifact : Artifact}
    (hmem : artifact ∈ (s.step act).run.db.artifacts.rows) :
    artifact ∈ s.run.db.artifacts.rows := by
  rcases h.artifacts_step hserves hmem with hold | ⟨snapshot, event, eventType, lease, failure, now,
    reply, hcall, -⟩
  · exact hold
  · cases hserves with
    | work i moment => exact absurd rfl (hact i moment)
    | spawn runner dispatchId directory token => cases hcall
    | beat i ttl now now' =>
      obtain ⟨attempt, -, hcall⟩ := Option.bind_eq_some_iff.mp hcall
      obtain ⟨lease, -, hcall⟩ := Option.bind_eq_some_iff.mp hcall
      cases hcall
    | _ => cases hcall

theorem Protocol.aside (h : s.Protocol assets) (hserves : s.Serves assets act)
    (hact : ∀ i moment, act ≠ .work i moment) (hattempts : (s.step act).attempts = s.attempts)
    (hfiles : (s.step act).files = s.files) :
    (s.step act).Protocol assets := by
  obtain ⟨hreach, hids, hmatch⟩ := h.store_step hserves
  refine ⟨hreach, hids, hmatch, ?_, ?_, ?_, ?_, ?_⟩
  · rw [hattempts]
    exact h.directory
  · rw [hattempts]
    exact h.dotless
  · rw [hattempts]
    exact h.tokens
  · rw [hattempts]
    intro i attempt hi
    obtain ⟨past, hknown, howns⟩ := h.known i attempt hi
    refine ⟨past, hknown.stays act ?_, ?_⟩
    · intro jobId hfile hlease
      rw [hfiles, hfile]
    · intro artifact hmem hpath hlease
      rw [hfiles]
      exact howns artifact (h.outside hserves hact hmem) hpath hlease
  · intro artifact hmem
    obtain ⟨i, runner, hauthor⟩ := h.authors artifact (h.outside hserves hact hmem)
    refine ⟨i, runner, hauthor.stays act ?_⟩
    rw [hattempts]
    exact id

theorem Protocol.spawn (h : s.Protocol assets) {runner : LocalJobRunner} {dispatchId : String}
    (hserves : s.Serves assets (.spawn runner dispatchId)) :
    (s.step (.spawn runner dispatchId)).Protocol assets := by
  obtain ⟨hreach, hids, hmatch⟩ := h.store_step hserves
  have hact : ∀ i moment, Act.spawn runner dispatchId ≠ .work i moment := by simp
  cases hserves with
  | spawn _ _ directory token =>
    have hserves : s.Serves assets (.spawn runner dispatchId) := .spawn runner dispatchId directory token
    set fresh : Attempt := ⟨runner, dispatchId, runner.script (.run dispatchId)⟩ with hfresh
    have hattempts : (s.step (.spawn runner dispatchId)).attempts = s.attempts ++ [fresh] := rfl
    have hfiles : (s.step (.spawn runner dispatchId)).files = s.files := rfl
    have hcases : ∀ i attempt, (s.attempts ++ [fresh])[i]? = some attempt →
        s.attempts[i]? = some attempt ∨ i = s.attempts.length ∧ attempt = fresh := by
      intro i attempt hi
      rw [List.getElem?_append] at hi
      split_ifs at hi with hlt
      · exact Or.inl hi
      · obtain ⟨hindex, hget⟩ := List.getElem?_eq_some_iff.mp hi
        simp only [List.length_singleton] at hindex
        right
        constructor
        · omega
        · simpa using hget.symm
    -- a token of an attempt before is not that of the new one
    have hapart : ∀ (i : ℕ) (attempt : Attempt) (lease lease' : Lease), s.attempts[i]? = some attempt →
        runner.lease = some lease →
        attempt.runner.lease = some lease' → lease'.2 ≠ lease.2 :=
      fun i attempt lease lease' hi hlease hlease' =>
        (token lease hlease).2 attempt (List.mem_of_getElem? hi) lease' hlease'
    refine ⟨hreach, hids, hmatch, ?_, ?_, ?_, ?_, ?_⟩
    · intro attempt hattempt
      rcases List.mem_append.mp hattempt with hold | hnew
      · exact h.directory attempt hold
      · rw [List.mem_singleton.mp hnew]
        exact directory
    · intro attempt hattempt lease hlease
      rcases List.mem_append.mp hattempt with hold | hnew
      · exact h.dotless attempt hold lease hlease
      · rw [List.mem_singleton.mp hnew] at hlease
        exact (token lease hlease).1
    · intro i j a b lease lease' hi hj hlease hlease' hsame
      rcases hcases i a hi with hi | ⟨hi, ha⟩ <;> rcases hcases j b hj with hj | ⟨hj, hb⟩
      · exact h.tokens i j a b lease lease' hi hj hlease hlease' hsame
      · rw [hb] at hlease'
        exact absurd hsame.symm (hapart i a lease' lease hi hlease' hlease)
      · rw [ha] at hlease
        exact absurd hsame (hapart j b lease lease' hj hlease hlease')
      · rw [hi, hj]
    · intro i attempt hi
      rcases hcases i attempt hi with hi | ⟨hi, hattempt⟩
      · obtain ⟨past, hknown, howns⟩ := h.known i attempt hi
        refine ⟨past, hknown.stays _ fun jobId hfile _ => hfile, ?_⟩
        exact fun artifact hmem => howns artifact (h.outside hserves hact hmem)
      · rw [hattempt]
        have hearly : History.Early [] := fun exchange hmem => absurd hmem List.not_mem_nil
        refine ⟨[], ⟨?_, ?_, ?_, ?_, ?_, ?_⟩, ?_⟩
        · exact (LocalJobRunner.script_tells (.run dispatchId hearly)).imp fun _ _ hends => hends.ready
        · exact fun id job hread => absurd hread List.not_mem_nil
        · exact fun id dispatch hread => absurd hread List.not_mem_nil
        · rintro dispatch ⟨reply, -, hread⟩
          exact absurd hread List.not_mem_nil
        · exact fun path exchange hmem => absurd hmem List.not_mem_nil
        · exact fun _ _ path exchange hmem => absurd hmem List.not_mem_nil
        · intro artifact hmem hpath hlease
          obtain ⟨lease, hlease⟩ := Option.isSome_iff_exists.mp hlease
          have hold := h.outside hserves hact hmem
          obtain ⟨k, author, hauthor⟩ := h.authors artifact hold
          obtain ⟨attempt', hk, hrunner⟩ := Option.map_eq_some_iff.mp hauthor.attempt
          have hmem' := List.mem_of_getElem? hk
          have hroot : runner.artifacts =
              attempt'.runner.artifacts := by rw [directory, h.directory attempt' hmem']
          have hdot := dotless_artifact h.artifacts (h.ids s.run.db List.mem_cons_self) hold
          obtain ⟨-, lease', hlease', hsame⟩ := LocalJobRunner.output_inj hroot hlease (token lease hlease).1
            (h.dotless attempt' hmem') hdot (by rw [hrunner, ← hauthor.path]; exact hpath.symm)
          exact absurd hsame (hapart k attempt' lease lease' hk hlease hlease')
    · intro artifact hmem
      obtain ⟨i, author, hauthor⟩ := h.authors artifact (h.outside hserves hact hmem)
      refine ⟨i, author, hauthor.stays _ ?_⟩
      intro hrunner
      obtain ⟨attempt, hi, hattempt⟩ := Option.map_eq_some_iff.mp hrunner
      have hlt : i < s.attempts.length := (List.getElem?_eq_some_iff.mp hi).1
      rw [hattempts, List.getElem?_append_left hlt, hrunner]

theorem attempts_work {j : ℕ} {moment : Moment} {next : Attempt}
    (h : (s.step (.work i moment)).attempts[j]? = some next) :
    ∃ before, s.attempts[j]? = some before ∧
      next = if i = j then before.advance s.run moment else before := by
  have hmodify : (s.attempts.modify i fun attempt => attempt.advance s.run moment)[j]? = some next := h
  rw [List.getElem?_modify] at hmodify
  split_ifs at hmodify ⊢ with hij
  · obtain ⟨before, hbefore, hnext⟩ := Option.map_eq_some_iff.mp hmodify
    exact ⟨before, hbefore, hnext.symm⟩
  · exact ⟨next, by simpa using hmodify, rfl⟩

theorem runner_work {j : ℕ} {moment : Moment} {next : Attempt}
    (h : (s.step (.work i moment)).attempts[j]? = some next) :
    ∃ before, s.attempts[j]? = some before ∧ next.runner = before.runner := by
  obtain ⟨before, hbefore, hnext⟩ := attempts_work h
  refine ⟨before, hbefore, ?_⟩
  rw [hnext]
  split_ifs
  · exact Attempt.advance_runner
  · rfl

theorem runner_kept {j : ℕ} {moment : Moment} {runner : LocalJobRunner}
    (h : s.attempts[j]?.map (·.runner) = some runner) :
    (s.step (.work i moment)).attempts[j]?.map (·.runner) = some runner := by
  have hmodify : (s.step (.work i moment)).attempts[j]? =
      (s.attempts.modify i fun attempt => attempt.advance s.run moment)[j]? := rfl
  rw [hmodify, List.getElem?_modify]
  obtain ⟨attempt, hattempt, hrunner⟩ := Option.map_eq_some_iff.mp h
  rw [hattempt]
  split_ifs
  · simpa using hrunner
  · simpa using hrunner

theorem Protocol.file_apart (h : s.Protocol assets) {j : ℕ} {moment : Moment}
    (hj : s.attempts[j]? = some attempt) (hne : i ≠ j) (hlease : attempt.runner.lease.isSome) :
    (s.step (.work i moment)).files (attempt.runner.output jobId) = s.files
    (attempt.runner.output jobId) := by
  simp only [Server.step]
  cases hi : s.attempts[i]? with
  | none => rfl
  | some other =>
    obtain ⟨past, hknown, -⟩ := h.known i other hi
    simp only [Option.elim_some, Attempt.file]
    cases hscript : other.script with
    | ret next => rfl
    | raise e => rfl
    | ask q k =>
      apply file_untouched
      intro htouches
      obtain ⟨jobId', hpath, hdot⟩ := hknown.touches h (hknown.honest hscript) htouches
      exact hne (h.apart hj hi hlease hdot hpath).1.symm

theorem Protocol.not_unlinked (h : s.Protocol assets) (hknown : s.Known i attempt past)
    (hi : s.attempts[i]? = some attempt) (hlease : attempt.runner.lease.isSome) {artifact : Artifact}
    (hmem : artifact ∈ s.run.db.artifacts.rows) (hpath : artifact.path = attempt.runner.output artifact.jobId)
    {path : String} (hhonest : Honest attempt.runner past (.unlink path)) : path ≠ artifact.path := by
  intro hsame
  have hdot := dotless_artifact h.artifacts (h.ids s.run.db List.mem_cons_self) hmem
  cases hhonest with
  | unlink jobId' requested =>
    have hjob := (h.apart hi hi hlease hdot (hsame.trans hpath)).2
    obtain ⟨d, hd, row, hrow, hstatus⟩ := hknown.requested h requested
    rw [hjob] at hrow
    exact h.not_requested hmem hd hrow hstatus

theorem Protocol.artifacts_work (h : s.Protocol assets) {moment : Moment} {artifact : Artifact}
    (hmem : artifact ∈ (s.step (.work i moment)).run.db.artifacts.rows) : artifact ∈ s.run.db.artifacts.rows ∨
      ∃ attempt past snapshot event eventType lease failure now reply, s.attempts[i]? = some attempt ∧
        s.Known i attempt past ∧ s.call? (.work i moment) =
          some (.update snapshot event eventType (some artifact) lease failure now) ∧
        HonestCall attempt.runner past (.update snapshot event eventType (some artifact) lease failure now) ∧
        (.update snapshot event eventType (some artifact) lease failure now, reply) ∈
        (s.step (.work i moment)).run.log := by
  rcases h.artifacts_step (.work i moment) hmem with hold |
    ⟨snapshot, event, eventType, lease, failure, now, reply, hcall, hlog⟩
  · exact Or.inl hold
  · obtain ⟨attempt, past, hi, hknown, -, hhonest⟩ := h.working hcall
    exact Or.inr ⟨attempt, past, snapshot, event, eventType, lease, failure, now, reply, hi, hknown,
      hcall, hhonest, hlog⟩

theorem silent_work (moment : Moment) (hi : s.attempts[i]? = some attempt)
    (hsilent : ∀ q k, attempt.script ≠ .ask q k) :
    (s.step (.work i moment)).run = s.run ∧ (s.step (.work i moment)).files = s.files := by
  rw [step_run]
  cases hscript : attempt.script with
  | ask q k => exact absurd hscript (hsilent q k)
  | ret point =>
    simp only [Server.call?, Server.step, hi, Option.bind_some, Option.elim_some, Attempt.call?,
      Attempt.file, hscript, Option.elim_none, and_self]
  | raise e =>
    simp only [Server.call?, Server.step, hi, Option.bind_some, Option.elim_some, Attempt.call?,
      Attempt.file, hscript, Option.elim_none, and_self]

/-- The attempt that goes on still knows what it has heard, and owns what it has published. -/
theorem Protocol.work_own (h : s.Protocol assets) (hi : s.attempts[i]? = some attempt) (moment : Moment) :
    ∃ past, (s.step (.work i moment)).Known i (attempt.advance s.run moment) past ∧
      (s.step (.work i moment)).Owns i attempt.runner past := by
  obtain ⟨past, hknown, howns⟩ := h.known i attempt hi
  have hquiet : (∀ q k, attempt.script ≠ .ask q k) →
      (s.step (.work i moment)).Known i attempt past ∧
        (s.step (.work i moment)).Owns i attempt.runner past := by
    intro hsilent
    obtain ⟨hrun, hfiles⟩ := silent_work moment hi hsilent
    constructor
    · apply hknown.stays
      intro jobId hfile _
      rw [hfiles, hfile]
    · intro artifact hmem
      rw [hfiles]
      rw [hrun] at hmem
      exact howns artifact hmem
  cases hscript : attempt.script with
  | ret point =>
    obtain ⟨hstays, hkept⟩ := hquiet (by simp [hscript])
    have hready : Ready attempt.runner past point := by
      have htells := hknown.tells
      rw [hscript] at htells
      exact htells point rfl
    rw [Attempt.advance_ret hscript]
    refine ⟨past, ⟨?_, hstays.jobs, hstays.dispatches, hstays.refused, hstays.own, hstays.wrote⟩, hkept⟩
    exact (LocalJobRunner.script_tells hready).imp fun _ _ hends => hends.ready
  | raise e =>
    have hsame : attempt.advance s.run moment = attempt := by
      unfold Attempt.advance
      rw [hscript]
    rw [hsame]
    exact ⟨past, hquiet (by simp [hscript])⟩
  | ask q k =>
    have hhonest := hknown.honest hscript
    have hfiles : (s.step (.work i moment)).files = q.file i moment s.files := by
      simp only [Server.step, hi, Option.elim_some, Attempt.file, hscript]
    refine ⟨⟨q, q.answer s.run moment⟩ :: past, hknown.ask hi hscript, ?_⟩
    intro artifact hmem hpath hlease
    rw [hfiles]
    rcases h.artifacts_work hmem with hold |
      ⟨other, past', snapshot, event, eventType, lease, failure, now, reply, hj, hknown', hcall, hcalls, -⟩
    · obtain ⟨hearly, hfile⟩ := howns artifact hold hpath hlease
      constructor
      · intro hlater
        exact hearly fun exchange hexchange => hlater exchange (List.mem_cons_of_mem _ hexchange)
      · apply file_kept hfile
        intro hunlink
        rw [hunlink] at hhonest
        exact h.not_unlinked hknown hi hlease hold hpath hhonest rfl
    · have hcall' : q.call? moment =
          some (.update snapshot event eventType (some artifact) lease failure now) := by
        rw [← Attempt.call?_ask hscript]
        simpa only [Server.call?, hi, Option.bind_some] using hcall
      constructor
      · intro hearly
        have hplain := hearly _ List.mem_cons_self
        exact hplain.publishes ⟨moment, snapshot, event, eventType, artifact, lease, failure, now, hcall'⟩
      · cases hhonest with
        | call f honest =>
          have hf : f moment = .update snapshot event eventType (some artifact) lease failure now :=
            Option.some.inj hcall'
          have hown := honest moment
          rw [hf] at hown
          obtain ⟨-, -, -, hearly, exchange, hexchange, hwrote⟩ := hknown.published hown
          exact hknown.wrote hlease hearly artifact.path exchange hexchange hwrote
        | _ => cases hcall'

theorem Protocol.work_beside (h : s.Protocol assets) {j : ℕ} (hj : s.attempts[j]? = some attempt)
    (hij : ¬ i = j) (moment : Moment)
      (hdotless : ∀ artifact ∈ (s.step (.work i moment)).run.db.artifacts.rows, '.' ∉ artifact.jobId.toList) :
    ∃ past, (s.step (.work i moment)).Known j attempt past ∧
      (s.step (.work i moment)).Owns j attempt.runner past := by
  obtain ⟨past, hknown, howns⟩ := h.known j attempt hj
  refine ⟨past, hknown.stays _ ?_, ?_⟩
  · intro jobId hfile hlease
    rw [h.file_apart hj hij hlease, hfile]
  · intro artifact hmem hpath hlease
    rcases h.artifacts_work hmem with hold |
      ⟨other, past', snapshot, event, eventType, lease, failure, now, reply, hi, hknown', -, hcalls, -⟩
    · obtain ⟨hearly, hfile⟩ := howns artifact hold hpath hlease
      refine ⟨hearly, ?_⟩
      rw [hpath, h.file_apart hj hij hlease, ← hpath, hfile]
    · have hpath' := (hknown'.published hcalls).1
      have hsame := (h.apart hj hi hlease (hdotless artifact hmem) (hpath.symm.trans hpath')).1
      exact absurd hsame.symm hij

theorem Protocol.work (h : s.Protocol assets) (i : ℕ) (moment : Moment) :
    (s.step (.work i moment)).Protocol assets := by
  obtain ⟨hreach, hids, hmatch⟩ := h.store_step (.work i moment)
  have hdotless : ∀ artifact ∈ (s.step (.work i moment)).run.db.artifacts.rows, '.' ∉ artifact.jobId.toList :=
    fun artifact hmem => dotless_artifact hmatch (hids _ List.mem_cons_self) hmem
  refine ⟨hreach, hids, hmatch, ?_, ?_, ?_, ?_, ?_⟩
  · intro next hnext
    obtain ⟨j, hj⟩ := List.mem_iff_getElem?.mp hnext
    obtain ⟨before, hbefore, hrunner⟩ := runner_work hj
    rw [hrunner]
    exact h.directory before (List.mem_of_getElem? hbefore)
  · intro next hnext lease hlease
    obtain ⟨j, hj⟩ := List.mem_iff_getElem?.mp hnext
    obtain ⟨before, hbefore, hrunner⟩ := runner_work hj
    rw [hrunner] at hlease
    exact h.dotless before (List.mem_of_getElem? hbefore) lease hlease
  · intro j j' a b lease lease' hj hj' hlease hlease' hsame
    obtain ⟨before, hbefore, hrunner⟩ := runner_work hj
    obtain ⟨before', hbefore', hrunner'⟩ := runner_work hj'
    rw [hrunner] at hlease
    rw [hrunner'] at hlease'
    exact h.tokens j j' before before' lease lease' hbefore hbefore' hlease hlease' hsame
  · intro j next hj
    obtain ⟨before, hbefore, hnext⟩ := attempts_work hj
    by_cases hij : i = j
    · subst hij
      rw [if_pos rfl] at hnext
      rw [hnext, Attempt.advance_runner]
      exact h.work_own hbefore moment
    · rw [if_neg hij] at hnext
      rw [hnext]
      exact h.work_beside hbefore hij moment hdotless
  · intro artifact hmem
    rcases h.artifacts_work hmem with hold |
      ⟨attempt, past', snapshot, event, eventType, lease, failure, now, reply, hi, hknown', -, hcalls, hlog⟩
    · obtain ⟨j, runner, hauthor⟩ := h.authors artifact hold
      exact ⟨j, runner, hauthor.stays _ runner_kept⟩
    · obtain ⟨hpath, hevent, hlease, -⟩ := hknown'.published hcalls
      rw [hevent, hlease] at hlog
      refine ⟨i, attempt.runner, ⟨?_, hpath, snapshot, eventType, failure, now, reply, hlog⟩⟩
      apply runner_kept
      rw [hi]
      rfl

/-- Every reachable state keeps the protocol. -/
theorem reach_protocol (h : Reach assets s) : s.Protocol assets := by
  induction h with
  | init =>
    refine ⟨.init, ?_, ⟨?_, ?_⟩, ?_, ?_, ?_, ?_, ?_⟩
    · intro d hd job hjob
      rw [List.mem_singleton.mp hd] at hjob
      cases hjob
    · intro a ha
      cases ha
    · intro jobId
      simp [LocalDb.Succeeded]
    · intro attempt hattempt
      cases hattempt
    · intro attempt hattempt
      cases hattempt
    · intro i j a b lease lease' hi
      simp at hi
    · intro i attempt hi
      simp at hi
    · intro artifact hmem
      cases hmem
  | step act reach serves ih =>
    cases act with
    | call call => exact ih.aside serves (by simp) rfl rfl
    | spawn runner dispatchId => exact ih.spawn serves
    | work i moment => exact ih.work i moment
    | beat i ttl now now' => exact ih.aside serves (by simp) rfl rfl

theorem Reach.works (h : Reach assets s) (n i : ℕ) (moment : Moment) :
    Reach assets (s.after (List.replicate n (.work i moment))) := by
  induction n generalizing s with
  | zero => exact h
  | succ n ih => exact ih (.step (.work i moment) h (.work i moment))

end

/-- An act that writes or removes the file at `path`. -/
inductive Touches (s : Server) (path : String) : Act → Prop
  | work (i : ℕ) (moment : Moment) (attempt : Attempt) (q : Query) (k : q.Answer → Worker Next)
      (found : s.attempts[i]? = some attempt) (script : attempt.script = .ask q k)
      (touches : q.Touches path) :
    Touches s path (.work i moment)

/-- A job is created, claimed and given to an attempt. -/
def sampleClaimed : Server :=
  ((({ run := { db := {} } } : Server).step
    (.call (.createJobAndDispatch Hosted.sampleJob ⟨"dispatch", "job", "pending", 0⟩ none))).step
    (.call (.claimExecution "dispatch" 3 30 1 "first" 0))).step
      (.spawn { lease := some ("dispatch", "first") } "dispatch")

/-- The attempt has published its output. -/
def sampleFinished : Server := sampleClaimed.after (List.replicate 20 (.work 0 {}))

theorem reach_sampleFinished : Reach "artifacts" sampleFinished := by
  apply Reach.works
  refine .step _ (.step _ (.step _ .init (.create _ _ _ rfl rfl rfl (by decide))) (.claim _ _ _ _ _ _ ?_))
    (.spawn _ _ rfl ?_)
  · decide +kernel
  · intro lease hlease
    cases hlease
    refine ⟨by decide, fun attempt hattempt => ?_⟩
    cases hattempt

section
variable {assets : String} {s : Server}

/-- In every state of a server a job that was over is as it was, a job whose cancellation was requested has
neither succeeded nor failed, and the job of a dispatch that is done is over. -/
theorem jobs_settle (h : Reach assets s) :
    (∀ d ∈ s.stores, ∀ id old, d.jobs.get? id = some old → ∃ row, s.run.db.jobs.get? id = some row ∧
      (old.status.isTerminal = true → row.status = old.status) ∧
      (old.status = .cancelRequested ∨ old.status = .cancelled → row.status ≠ .succeeded ∧
        row.status ≠ .failed)) ∧
    s.run.db.Settled := by
  have hprotocol := reach_protocol h
  constructor
  · intro d hd id old hold
    obtain ⟨row, hrow, hsince⟩ := reach_since rely_starts hprotocol.reach d hd id old hold
    refine ⟨row, hrow, fun hover => by rw [hsince.settled hover], ?_⟩
    have hgoes : old.status = .cancelRequested ∨ old.status = .cancelled →
        row.status = .cancelRequested ∨ row.status = .cancelled := by
      rintro (hrequested | hcancelled)
      · rcases hsince.requested hrequested with hsame | hcancelled
        · rw [hsame]
          exact Or.inl hrequested
        · exact Or.inr hcancelled
      · have hsame : row = old := hsince.settled (by rw [hcancelled]; rfl)
        rw [hsame]
        exact Or.inr hcancelled
    intro hcancel
    rcases hgoes hcancel with hstatus | hstatus
    all_goals
      rw [hstatus]
      decide
  · exact (reach_dispatched settled_empty hprotocol.reach).settled

/-- The job of the sample has succeeded, after it was queued and running. -/
theorem jobs_settle_finished :
    (sampleFinished.run.db.jobs.get? "job").map (·.status) = some .succeeded ∧
      (∀ d ∈ sampleFinished.stores, ∀ id old, d.jobs.get? id = some old → ∃ row,
        sampleFinished.run.db.jobs.get? id = some row ∧
        (old.status.isTerminal = true → row.status = old.status) ∧
        (old.status = .cancelRequested ∨ old.status = .cancelled → row.status ≠ .succeeded ∧
          row.status ≠ .failed)) ∧
      sampleFinished.run.db.Settled := ⟨by decide +kernel, jobs_settle reach_sampleFinished⟩

/-- In every state of a server a job has an artifact exactly if it succeeded, and never two. -/
theorem artifacts_match (h : Reach assets s) : s.run.db.ArtifactsMatch := (reach_protocol h).artifacts

theorem artifacts_match_finished : sampleFinished.run.db.ArtifactsMatch :=
    artifacts_match reach_sampleFinished

/-- The file of an artifact is where the attempt that committed the completion puts its output; if that
attempt has a lease, it wrote the file last, and no act writes or removes it afterwards. -/
theorem output_kept (h : Reach assets s) {artifact : Artifact} (hmem : artifact ∈ s.run.db.artifacts.rows) :
    ∃ (i : ℕ) (attempt : Attempt), s.attempts[i]? = some attempt ∧
      artifact.path = attempt.runner.output artifact.jobId ∧
      (∃ snapshot eventType failure now reply,
        (.update snapshot .completed eventType (some artifact) attempt.runner.lease failure now,
          reply) ∈ s.run.log) ∧
      (attempt.runner.lease.isSome → s.files artifact.path = some i ∧
        ∀ act, ¬ s.Touches artifact.path act) := by
  have hprotocol := reach_protocol h
  obtain ⟨i, runner, hauthor⟩ := hprotocol.authors artifact hmem
  obtain ⟨attempt, hi, hrunner⟩ := Option.map_eq_some_iff.mp hauthor.attempt
  have hpath : artifact.path = attempt.runner.output artifact.jobId := by rw [hrunner, hauthor.path]
  refine ⟨i, attempt, hi, hpath, ?_, ?_⟩
  · rw [hrunner]
    exact hauthor.committed
  intro hlease
  obtain ⟨past, hknown, howns⟩ := hprotocol.known i attempt hi
  obtain ⟨hearly, hfile⟩ := howns artifact hmem hpath hlease
  refine ⟨hfile, ?_⟩
  rintro act ⟨j, moment, other, q, k, hj, hscript, htouches⟩
  obtain ⟨past', hknown', howns'⟩ := hprotocol.known j other hj
  have hhonest := hknown'.honest hscript
  obtain ⟨jobId, hother, hdot⟩ := hknown'.touches hprotocol hhonest htouches
  obtain ⟨hij, -⟩ := hprotocol.apart hi hj hlease hdot (hpath.symm.trans hother)
  -- the attempt itself
  subst hij
  rw [hi] at hj
  cases hj
  have hlater := (howns' artifact hmem hpath hlease).1
  cases htouches with
  | write =>
    generalize hpath' : artifact.path = path at hhonest
    cases hhonest with
    | write jobId' job read early => exact hlater early
  | engine =>
    generalize hpath' : artifact.path = path at hhonest
    cases hhonest with
    | engine jobId' job read early => exact hlater early
  | unlink => exact hprotocol.not_unlinked hknown' hi hlease hmem hpath hhonest rfl

theorem output_kept_finished :
    ∃ artifact ∈ sampleFinished.run.db.artifacts.rows, ∃ (i : ℕ) (attempt : Attempt),
      sampleFinished.attempts[i]? = some attempt ∧ artifact.path = attempt.runner.output artifact.jobId ∧
      sampleFinished.files artifact.path = some i := by
  have hsome : (sampleFinished.run.db.artifacts.rows.head?).isSome = true := by decide +kernel
  have hleased : (sampleFinished.attempts.all fun attempt => attempt.runner.lease.isSome) =
      true := by decide +kernel
  obtain ⟨artifact, hhead⟩ := Option.isSome_iff_exists.mp hsome
  have hmem := List.mem_of_head? hhead
  obtain ⟨i, attempt, hi, hpath, -, hkept⟩ := output_kept reach_sampleFinished hmem
  have hlease := List.all_eq_true.mp hleased attempt (List.mem_of_getElem? hi)
  exact ⟨artifact, hmem, i, attempt, hi, hpath, (hkept hlease).1⟩

end

end Server

end KenkuiServer.Local
