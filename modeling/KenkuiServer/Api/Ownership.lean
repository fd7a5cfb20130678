import KenkuiServer.Api.Tenancy

/-! Whose jobs the hosted routes tell of and touch: those that their caller's subject submitted. -/
namespace KenkuiServer.Api
open Txn Data Jobs Billing Storage Hosted Auth

namespace ApiRun
variable (dep : ApiDeployment) (s : ApiRun)

/-- The source of the request is its own. -/
def Vetted (sources : Sources) (r : Request) : Prop :=
  ∀ spec characters idempotencyKey, r.route = .create spec characters idempotencyKey →
    ∃ source, sources.get? spec.sourceId = some source ∧ source.ownerId = r.identity.userId.str

/-- The handlers: each request keeps its identity, and tells of its own jobs only. -/
structure Sound : Prop where
  since : ∀ d ∈ s.run.db :: s.run.past, Since False [] d s.run.db
  known : ∀ r ∈ s.requests, ∃ row, s.identities.get? r.identity.userId = some row ∧
    row.workosSubject = r.identity.providerSubject
  presents : ∀ r ∈ s.requests, ∃ user, Presents dep.config r.sessions r.headers user ∧
    dep.config.invites user = true ∧ user.id = r.identity.providerSubject
  ended : ∀ r ∈ s.requests, r.created.isSome → ∃ response, r.stage = .answered response
  owned : ∀ row ∈ s.run.db.jobs.rows, ∃ r ∈ s.requests, r.created = some row.id ∧
    row.ownerId = some r.identity.userId.str
  keyed : ∀ row ∈ s.run.db.idempotency.rows, ∃ r ∈ s.requests, ∃ text, r.keyText = some text ∧
    row.key = dep.digest text ∧ ownerId s.run.db row.jobId = some r.identity.userId
  shown : ∀ r ∈ s.requests, ∀ id ∈ r.stage.jobIds, ownerId s.run.db id = some r.identity.userId
  uploads : ∀ row ∈ s.sources.rows, ∃ r ∈ s.requests, r.uploaded = some row.id ∧
    row.ownerId = r.identity.userId.str
  silent : ∀ r ∈ s.requests, r.uploaded.isSome → ∃ response, r.stage = .answered response
  vetted : ∀ r ∈ s.requests, r.stage.vetted = true → Vetted s.sources r
  sourced : ∀ row ∈ s.run.db.jobs.rows, ∃ source, s.sources.get? row.spec.sourceId = some source ∧
    row.ownerId = some source.ownerId

section
variable {dep : ApiDeployment} {s : ApiRun} {d d' : HostedDb} {i : ℕ} {r : Request} {reply : Reply}

theorem ownerId_of_get? {id : String} {row : JobRow} (h : d.jobs.get? id = some row) :
    ownerId d id = row.ownerId.bind UUID.parse := by
  rw [ownerId, h, Option.bind_some]

/-- A job keeps its owner. -/
theorem ownerId_since (h : Since False [] d d') {id : String} {owner : UUID}
    (howner : ownerId d id = some owner) :
    ownerId d' id = some owner := by
  cases hrow : d.jobs.get? id with
  | none =>
    rw [ownerId, hrow, Option.bind_none] at howner
    cases howner
  | some row =>
    obtain ⟨row', hrow', -⟩ := h.jobs id row hrow
    rw [ownerId_of_get? hrow', (h.kept id row row' hrow hrow').2.1, ← ownerId_of_get? hrow]
    exact howner

/-- What a committed procedure did to the jobs, from what it may do beside others. -/
theorem effect_of_along {p : Procedure Reply} {births : JobRow → Prop} {moves : JobRow → JobRow → Prop}
    (hp : p.Along (hostedRely False) (exhaustion False)
      d (Prog.upTo noClash fun _ t => JobEffect d births moves t) {})
    (hrun : p.run d = .ok (reply, d')) : ∃ t, JobEffect d births moves t ∧ d' = applyAll t.writes d := by
  have halong := hp.run (by simp) fun _ _ => fun habsorb => habsorb.elim
  simp only [applyAll_nil, hrun] at halong
  obtain ⟨t, heffect, rfl⟩ := halong
  exact ⟨t, heffect, rfl⟩

theorem effect_of_run {past : List HostedDb} {call : Call} (hadm : call.Admissible past)
    (hpast : ∀ d₀ ∈ past, Since False [] d₀ d) (hrun : call.prog.run d = .ok (reply, d')) :
    ∃ t, JobEffect d call.Creates (Going False) t ∧ d' = applyAll t.writes d :=
  effect_of_along (call.effect_along hadm hpast) hrun

/-- Only the jobs that are moved change. -/
theorem sameJob_of_effect {births : JobRow → Prop} {moves : JobRow → JobRow → Prop} {t : Locked}
    (h : JobEffect d births moves t) {id : String} {row : JobRow} (hrow : d.jobs.get? id = some row)
    (hmoves : ∀ old next, moves old next → old.id ≠ id) : SameJob id d (applyAll t.writes d) := by
  cases h with
  | idle writes =>
    obtain ⟨hjobs, hevents⟩ := aside_keeps writes d
    constructor
    · rw [hjobs]
    · rw [HostedDb.eventsOf, HostedDb.eventsOf, hevents]
  | moved old next e move version wrote appended =>
    have hother := hmoves old next move
    constructor
    · rw [wrote.jobs]
      exact Table.get?_put_of_ne _ (wrote.id ▸ hother)
    · have hevents : (applyAll t.writes d).eventsOf id = (apply (Write.event e) d).eventsOf id := by
        rw [HostedDb.eventsOf, wrote.events]
        rfl
      rw [hevents, SameJob.eventsOf_put, if_neg (appended.jobId ▸ hother)]
  | created new birth version going created =>
    have hother : new.id ≠ id := by
      intro hid
      have hfresh := created.fresh
      rw [hid, hrow] at hfresh
      cases hfresh
    constructor
    · rw [created.jobs]
      exact Table.get?_put_of_ne _ hother
    · rw [HostedDb.eventsOf, HostedDb.eventsOf, created.events]

theorem since_of_run {past : List HostedDb} {call : Call} (hadm : call.Admissible past)
    (hpast : ∀ d₀ ∈ past, Since False [] d₀ d) (hrun : call.prog.run d = .ok (reply, d')) :
    Since False [] d d' := by
  obtain ⟨t, heffect, rfl⟩ := effect_of_run hadm hpast hrun
  refine ⟨heffect.bumps.later, heffect.kept fun _ _ _ habsorb => habsorb.elim, ?_, ?_⟩
  · intro id hid
    cases hid
  · intro id hid
    cases hid

/-- A job that another call than an admission leaves was there before. -/
theorem old_of_run {past : List HostedDb} {call : Call} (hsourced : call.Sourced past)
    (hcall : call.isAdmission = false) (hpast : ∀ d₀ ∈ past, Since False [] d₀ d)
    (hrun : call.prog.run d = .ok (reply, d')) {row : JobRow} (hrow : row ∈ d'.jobs.rows) :
    ∃ old ∈ d.jobs.rows, old.id = row.id ∧ row.ownerId = old.ownerId ∧ row.spec = old.spec := by
  obtain ⟨hadm, hcreate⟩ := hsourced
  have hsince := since_of_run hadm hpast hrun
  obtain ⟨t, heffect, rfl⟩ := effect_of_run hadm hpast hrun
  cases hold : d.jobs.get? row.id with
  | some old =>
    have hkept := hsince.kept row.id old row hold (Table.get?_of_mem hrow)
    obtain ⟨hmem, hid⟩ := (d.jobs.get?_eq_some_iff row.id old).mp hold
    exact ⟨old, hmem, hid, hkept.2.1, hkept.1⟩
  | none =>
    have hbirth := heffect.birth hrow hold
    cases call with
    | createJobAndDispatch job dispatch idempotencyKey =>
      exact absurd rfl (hcreate job dispatch idempotencyKey)
    | admitJob authorizationId job dispatch accountId ownerId credits idempotencyKey => cases hcall
    | _ => exact hbirth.elim

theorem Sound.call (h : s.Sound dep) {call : Call} (hsourced : call.Sourced (s.run.db :: s.run.past))
    (hcall : call.isAdmission = false) : Sound dep { s with run := s.run.step Call.prog call } := by
  have hspec := Serial.step_spec Call.prog s.run call
  revert hspec
  generalize s.run.step Call.prog call = run'
  intro hspec
  cases hspec with
  | fail error =>
    refine ⟨fun d hd => ?_, h.known, h.presents, h.ended, h.owned, h.keyed, h.shown, h.uploads,
      h.silent, h.vetted, h.sourced⟩
    rcases List.mem_cons.mp hd with rfl | hpast
    · exact .refl _ _ _
    · exact h.since d hpast
  | commit ok =>
    have hsince := since_of_run hsourced.1 h.since ok
    refine ⟨fun d hd => ?_, h.known, h.presents, h.ended, ?_, ?_, ?_, h.uploads, h.silent, h.vetted, ?_⟩
    · rcases List.mem_cons.mp hd with rfl | hpast
      · exact .refl _ _ _
      · exact (h.since d hpast).trans hsince
    · intro row hrow
      obtain ⟨old, hold, hid, howner, -⟩ := old_of_run hsourced hcall h.since ok hrow
      obtain ⟨r, hr, hcreated, hof⟩ := h.owned old hold
      exact ⟨r, hr, hid ▸ hcreated, howner.trans hof⟩
    · intro row hrow
      have hsame := call.idempotency_same hcall hsourced.2 ok
      obtain ⟨r, hr, text, htext, hkey, howner⟩ := h.keyed row (hsame ▸ hrow)
      exact ⟨r, hr, text, htext, hkey, ownerId_since hsince howner⟩
    · intro r hr id hid
      exact ownerId_since hsince (h.shown r hr id hid)
    · intro row hrow
      obtain ⟨old, hold, -, howner, hspec⟩ := old_of_run hsourced hcall h.since ok hrow
      obtain ⟨source, hsource, hof⟩ := h.sourced old hold
      exact ⟨source, hspec ▸ hsource, howner.trans hof⟩

/-- The request goes on as `next`, which is its own. -/
structure Goes (r next : Request) : Prop where
  identity : next.identity = r.identity
  headers : next.headers = r.headers
  sessions : next.sessions = r.sessions
  route : next.route = r.route
  created : ∀ id, r.created = some id → next.created = some id
  uploaded : ∀ id, r.uploaded = some id → next.uploaded = some id

theorem Goes.vetted {next : Request} (h : Goes r next) {sources : Sources} (hvetted : Vetted sources r) :
    Vetted sources next := by
  intro spec characters idempotencyKey hroute
  rw [h.identity]
  exact hvetted spec characters idempotencyKey (h.route ▸ hroute)

theorem Goes.keyText {next : Request} (h : Goes r next) : next.keyText = r.keyText := by
  rw [Request.keyText, Request.keyText, h.route, h.identity]

theorem mem_set (hr : s.requests[i]? = some r) {next other : Request} (hgoes : Goes r next)
    (hother : other ∈ s.requests) :
    ∃ later ∈ s.requests.set i next, Goes other later := by
  obtain ⟨j, hj⟩ := List.mem_iff_getElem?.mp hother
  have hlt := (List.getElem?_eq_some_iff.mp hr).1
  by_cases hij : i = j
  · subst hij
    rw [hr] at hj
    cases hj
    exact ⟨next, List.mem_set hlt next, hgoes⟩
  · have hkept : (s.requests.set i next)[j]? = some other := by
      rw [List.getElem?_set_ne hij, hj]
    exact ⟨other, List.mem_of_getElem? hkept, rfl, rfl, rfl, rfl, fun _ h => h, fun _ h => h⟩

/-- A request goes on, with what its transaction left. -/
theorem Sound.goes (h : s.Sound dep) (hr : s.requests[i]? = some r) {next : Request} (hgoes : Goes r next)
    {run : HostedRun} (hpast : ∀ d ∈ run.db :: run.past, Since False [] d run.db)
    (hsince : Since False [] s.run.db run.db)
    (hended : next.created.isSome → ∃ response, next.stage = .answered response)
    (huploaded : next.uploaded.isSome → ∃ response, next.stage = .answered response)
    (hvetted : next.stage.vetted = true → Vetted s.sources r)
    (hjobs : ∀ row ∈ run.db.jobs.rows, row ∈ s.run.db.jobs.rows ∨
      (next.created = some row.id ∧ row.ownerId = some r.identity.userId.str ∧
        ∃ source, s.sources.get? row.spec.sourceId = some source ∧ source.ownerId = r.identity.userId.str))
    (hkeys : ∀ row ∈ run.db.idempotency.rows, row ∈ s.run.db.idempotency.rows ∨
      ∃ text, r.keyText = some text ∧ row.key = dep.digest text ∧
        ownerId run.db row.jobId = some r.identity.userId)
    (hshown : ∀ id ∈ next.stage.jobIds, ownerId run.db id = some r.identity.userId) :
    Sound dep { s with run, requests := s.requests.set i next } := by
  have hmem := List.mem_of_getElem? hr
  have hnew : next ∈ s.requests.set i next := List.mem_set (List.getElem?_eq_some_iff.mp hr).1 next
  refine ⟨hpast, ?_, ?_, ?_, ?_, ?_, ?_, ?_, ?_, ?_, ?_⟩
  · intro other hother
    rcases List.mem_or_eq_of_mem_set hother with hold | rfl
    · exact h.known other hold
    · rw [hgoes.identity]
      exact h.known r hmem
  · intro other hother
    rcases List.mem_or_eq_of_mem_set hother with hold | rfl
    · exact h.presents other hold
    · rw [hgoes.identity, hgoes.headers, hgoes.sessions]
      exact h.presents r hmem
  · intro other hother hcreated
    rcases List.mem_or_eq_of_mem_set hother with hold | rfl
    · exact h.ended other hold hcreated
    · exact hended hcreated
  · intro row hrow
    rcases hjobs row hrow with hold | ⟨hcreated, howner, -⟩
    · obtain ⟨other, hother, hcreated, howner⟩ := h.owned row hold
      obtain ⟨later, hlater, hgo⟩ := mem_set hr hgoes hother
      exact ⟨later, hlater, hgo.created _ hcreated, by rw [hgo.identity]; exact howner⟩
    · exact ⟨next, hnew, hcreated, by rw [hgoes.identity]; exact howner⟩
  · intro row hrow
    rcases hkeys row hrow with hold | ⟨text, htext, hkey, howner⟩
    · obtain ⟨other, hother, text, htext, hkey, howner⟩ := h.keyed row hold
      obtain ⟨later, hlater, hgo⟩ := mem_set hr hgoes hother
      exact ⟨later, hlater, text, hgo.keyText.trans htext, hkey,
        by rw [hgo.identity]; exact ownerId_since hsince howner⟩
    · exact ⟨next, hnew, text, hgoes.keyText.trans htext, hkey, by rw [hgoes.identity]; exact howner⟩
  · intro other hother id hid
    rcases List.mem_or_eq_of_mem_set hother with hold | rfl
    · exact ownerId_since hsince (h.shown other hold id hid)
    · rw [hgoes.identity]
      exact hshown id hid
  · intro row hrow
    obtain ⟨other, hother, huploaded, howner⟩ := h.uploads row hrow
    obtain ⟨later, hlater, hgo⟩ := mem_set hr hgoes hother
    exact ⟨later, hlater, hgo.uploaded _ huploaded, by rw [hgo.identity]; exact howner⟩
  · intro other hother hsome
    rcases List.mem_or_eq_of_mem_set hother with hold | rfl
    · exact h.silent other hold hsome
    · exact huploaded hsome
  · intro other hother hstage
    rcases List.mem_or_eq_of_mem_set hother with hold | rfl
    · exact h.vetted other hold hstage
    · exact hgoes.vetted (hvetted hstage)
  · intro row hrow
    rcases hjobs row hrow with hold | ⟨-, howner, source, hsource, hof⟩
    · exact h.sourced row hold
    · exact ⟨source, hsource, howner.trans (congrArg some hof.symm)⟩

theorem Sound.setStage (h : s.Sound dep) (hr : s.requests[i]? = some r) {stage : Stage}
    (hended : r.created.isSome ∨ r.uploaded.isSome → ∃ response, stage = .answered response)
    (hvetted : stage.vetted = true → Vetted s.sources r)
    (hshown : ∀ id ∈ stage.jobIds, ownerId s.run.db id = some r.identity.userId) :
    Sound dep { s with requests := s.requests.set i (r.to stage) } := by
  have hgoes : Goes r (r.to stage) := ⟨rfl, rfl, rfl, rfl, fun _ h => h, fun _ h => h⟩
  apply h.goes hr hgoes h.since (.refl _ _ _) (fun hsome => hended (Or.inl hsome))
    (fun hsome => hended (Or.inr hsome))
    hvetted
  · intro row hrow
    exact Or.inl hrow
  · intro row hrow
    exact Or.inl hrow
  · exact hshown

/-- A call that fails is only remembered. -/
theorem Sound.failed (h : s.Sound dep) {call : Call} {e : Error} (hrun : call.prog.run s.run.db = .error e) :
    (s.run.step Call.prog call).db = s.run.db ∧ Sound dep { s with run := s.run.step Call.prog call } := by
  have hspec := Serial.step_spec Call.prog s.run call
  revert hspec
  generalize s.run.step Call.prog call = run'
  intro hspec
  cases hspec with
  | commit ok =>
    rw [hrun] at ok
    cases ok
  | fail error =>
    refine ⟨rfl, fun d hd => ?_, h.known, h.presents, h.ended, h.owned, h.keyed, h.shown, h.uploads,
      h.silent, h.vetted, h.sourced⟩
    rcases List.mem_cons.mp hd with rfl | hpast
    · exact .refl _ _ _
    · exact h.since d hpast

/-- A handler that goes on has created no job and uploaded no source yet. -/
theorem Sound.unanswered (h : s.Sound dep) (hr : r ∈ s.requests)
    (hstage : ∀ response, r.stage ≠ .answered response) :
    r.created = none ∧ r.uploaded = none := by
  have hnot : ¬ ∃ response, r.stage = .answered response := fun ⟨response, hanswered⟩ =>
    hstage response hanswered
  constructor
  · exact Option.not_isSome_iff_eq_none.mp fun hsome => hnot (h.ended r hr hsome)
  · exact Option.not_isSome_iff_eq_none.mp fun hsome => hnot (h.silent r hr hsome)

/-- A user has one subject. -/
theorem Sound.subject_of_user (h : s.Sound dep) {r' : Request} (hr : r ∈ s.requests) (hr' : r' ∈ s.requests)
    (huser : r.identity.userId = r'.identity.userId) :
    r.identity.providerSubject = r'.identity.providerSubject := by
  obtain ⟨mine, hmine, hsubject⟩ := h.known r hr
  obtain ⟨theirs, htheirs, hsubject'⟩ := h.known r' hr'
  rw [huser, htheirs] at hmine
  have hsame : theirs = mine := Option.some.inj hmine
  rw [← hsubject, ← hsubject', hsame]

/-- The jobs of the identity of a request are those that requests of its subject created. -/
theorem Sound.created (h : s.Sound dep) (hr : r ∈ s.requests) {id : String}
    (howner : ownerId s.run.db id = some r.identity.userId) :
    ∃ r' ∈ s.requests, r'.created = some id ∧ r'.identity.providerSubject = r.identity.providerSubject := by
  cases hrow : s.run.db.jobs.get? id with
  | none =>
    rw [ownerId, hrow, Option.bind_none] at howner
    cases howner
  | some row =>
    obtain ⟨hmem, hid⟩ := (s.run.db.jobs.get?_eq_some_iff id row).mp hrow
    obtain ⟨r', hr', hcreated, hof⟩ := h.owned row hmem
    rw [ownerId_of_get? hrow, hof, Option.bind_some, UUID.parse_str] at howner
    exact ⟨r', hr', hid ▸ hcreated, h.subject_of_user hr' hr (Option.some.inj howner)⟩

theorem cancelled_id {jobId : String} {at' : Time} {job : Job}
    (h : (PostgresRepositories.requestCancellation PostgresHostedRepository.billing jobId at').run d =
      .ok (job, d')) :
    job.id = jobId := by
  unfold PostgresRepositories.requestCancellation at h
  simp only [issue_bind, PostgresRepositories.selectJob, Prog.run_select] at h
  cases hcurrent : d.jobs.get? jobId with
  | none => simp [hcurrent] at h
  | some current =>
    have hid : current.id = jobId := ((d.jobs.get?_eq_some_iff jobId current).mp hcurrent).2
    simp only [hcurrent, Option.map_some] at h
    split_ifs at h with hover
    · cases h
      exact hid
    obtain ⟨_, _, -, hrest⟩ := Prog.run_step_ok h
    obtain ⟨_, _, -, hrest⟩ := Prog.run_step_ok hrest
    obtain ⟨_, _, -, hrest⟩ := Prog.run_bind_ok hrest
    obtain ⟨_, _, -, hrest⟩ := Prog.run_step_ok hrest
    obtain ⟨_, _, -, hrest⟩ := Prog.run_step_ok hrest
    obtain ⟨_, _, -, hrest⟩ := Prog.run_bind_ok hrest
    cases hrest
    exact hid

/-- The admission of a request. -/
def admission (dep : ApiDeployment) (r : Request) (draws : Draws) (accountId : String)
    (spec : JobSpec) (credits : ℤ) (idempotencyKey : Option String) : Call :=
  .admitJob draws.authorizationId (draws.job spec)
    ⟨draws.dispatchId, draws.jobId.text, "pending", 0⟩ accountId r.identity.userId.str credits
    (idempotencyKey.map fun key => dep.digest (r.identity.userId.str ++ ":" ++ key))

/-- What a handler's next transaction comes to. -/
inductive Handled (dep : ApiDeployment) (s : ApiRun) (r : Request) (draws : Draws) :
    HostedRun × Request → Prop
  | stays (stage : Stage) (ended : r.created.isSome ∨ r.uploaded.isSome →
    ∃ response, stage = .answered response)
      (vetted : stage.vetted = true → Vetted s.sources r)
      (shown : ∀ id ∈ stage.jobIds, ownerId s.run.db id = some r.identity.userId) :
    Handled dep s r draws (s.run, r.to stage)
  | failed (call : Call) {e : Error} (status : ℕ) (detail : String)
    (error : call.prog.run s.run.db = .error e) :
    Handled dep s r draws (s.run.step Call.prog call, r.to (.answered (.error status detail)))
  | accounted {accountId : String} (call : Call)
      (ok : call = .accountForIdentity draws.accountId draws.lotId r.identity.userId.str dep.allowance)
      (fresh : r.created = none ∧ r.uploaded = none) (vetted : Vetted s.sources r) :
    Handled dep s r draws (s.run.step Call.prog call, r.to (.charged accountId))
  | cancelled {jobId : String} {response : JobResponse} (own : jobId ∈ r.stage.jobIds)
    (told : response.id = jobId) :
    Handled dep s r draws (s.run.step Call.prog (.requestCancellation jobId draws.now),
      r.to (.answered (.job 200 response)))
  | admitted {accountId : String} {spec : JobSpec} {credits : ℤ} {characters : ℤ}
    {idempotencyKey : Option String}
      {admitted : Job} {db : HostedDb} (route : r.route = .create spec characters idempotencyKey)
      (fresh : r.created = none ∧ r.uploaded = none) (vetted : Vetted s.sources r)
      (ok : (admission dep r draws accountId spec credits idempotencyKey).prog.run s.run.db =
        .ok (.job admitted, db)) :
    Handled dep s r draws (s.run.step Call.prog (admission dep r draws accountId spec credits idempotencyKey),
      { r.to (.answered (.job 202 (jobResponse admitted none))) with
        created := if admitted.id = draws.jobId.text then some draws.jobId.text else none })

/-- A handler that goes on has only read. -/
theorem Handled.read {draws : Draws} {stage : Stage} (hfresh : r.created = none ∧ r.uploaded = none)
    (hstage : stage.vetted = false ∧ ∀ id ∈ stage.jobIds, ownerId s.run.db id = some r.identity.userId) :
    Handled dep s r draws (s.run, r.to stage) := by
  refine .stays stage ?_ ?_ hstage.2
  · simp [hfresh.1, hfresh.2]
  · simp [hstage.1]

theorem refused_error (e : Error) : ∃ status detail, refused e = .error status detail := by
  cases e with
  | value code =>
    rw [refused]
    split_ifs
    · exact ⟨_, _, rfl⟩
    · exact ⟨_, _, rfl⟩
  | _ => exact ⟨_, _, rfl⟩

/-- A call is performed: its reply is answered to, or its exception is. -/
theorem perform_cases (call : Call) (answer : Reply → Request) (failed : Error → Response) :
    (∃ e, call.prog.run s.run.db = .error e ∧
      s.perform call r answer failed = (s.run.step Call.prog call, r.to (.answered (failed e)))) ∨
    ∃ reply db, call.prog.run s.run.db = .ok (reply, db) ∧
      s.perform call r answer failed = (s.run.step Call.prog call, answer reply) := by
  rw [perform]
  cases hrun : call.prog.run s.run.db with
  | error e => exact Or.inl ⟨e, rfl, rfl⟩
  | ok result => exact Or.inr ⟨result.1, result.2, rfl, rfl⟩

theorem Sound.authorize (h : s.Sound dep) (hr : r ∈ s.requests) {job : Job} (hstage : r.stage = .found job)
    (draws : Draws) : Handled dep s r draws (s.run, r.to (authorize s.run.db r.identity.userId job)) := by
  apply Handled.read (h.unanswered hr (by simp [hstage]))
  unfold ApiRun.authorize
  cases howner : ownerId s.run.db job.id with
  | none => simp [Stage.vetted, Stage.jobIds, internalError, Response.jobIds]
  | some owner =>
    simp only
    split_ifs with hmine
    · refine ⟨rfl, fun id hid => ?_⟩
      rw [List.mem_singleton.mp hid, howner, hmine]
    · simp [Stage.vetted, Stage.jobIds, Response.jobIds]

theorem internalError_silent : internalError.jobIds = [] := rfl

theorem authorizeAsset_cases (sources : Sources) (userId : UUID) (sourceId : String) {missing : Response}
    (hmissing : missing.jobIds = []) (next : Stage) :
    (∃ source, sources.get? sourceId = some source ∧ UUID.parse source.ownerId = some userId ∧
      authorizeAsset missing next sources userId sourceId = next) ∨
    ∃ response, authorizeAsset missing next sources userId sourceId = .answered response ∧
      response.jobIds = [] := by
  unfold authorizeAsset
  cases hsource : sources.get? sourceId with
  | none => exact Or.inr ⟨missing, rfl, hmissing⟩
  | some source =>
    simp only
    cases hparse : UUID.parse source.ownerId with
    | none => exact Or.inr ⟨internalError, rfl, rfl⟩
    | some owner =>
      simp only
      split_ifs with hmine
      · exact Or.inl ⟨source, rfl, hmine ▸ hparse, rfl⟩
      · exact Or.inr ⟨_, rfl, rfl⟩

theorem Sound.authorizeSource (h : s.Sound dep) (hr : r ∈ s.requests) (hstage : r.stage = .sourced)
    {spec : JobSpec} {characters : ℤ} {idempotencyKey : Option String}
    (hroute : r.route = .create spec characters idempotencyKey) {missing : Response}
    (hmissing : missing.jobIds = []) (draws : Draws) :
    Handled dep s r draws
      (s.run, r.to (authorizeAsset missing .preflighted s.sources r.identity.userId spec.sourceId)) := by
  have hfresh := h.unanswered hr (by simp [hstage])
  obtain ⟨source, hsource, hparse, hnext⟩ | ⟨response, hnext, hsilent⟩ :=
    authorizeAsset_cases s.sources r.identity.userId spec.sourceId hmissing .preflighted
  · rw [hnext]
    refine .stays _ (by simp [hfresh]) ?_ (by simp [Stage.jobIds])
    intro _ spec' characters' idempotencyKey' hroute'
    rw [hroute] at hroute'
    cases hroute'
    -- a row that names its owner has been written by an upload
    obtain ⟨hmem, -⟩ := (s.sources.get?_eq_some_iff _ source).mp hsource
    obtain ⟨other, -, -, howner⟩ := h.uploads source hmem
    rw [howner, UUID.parse_str] at hparse
    refine ⟨source, hsource, ?_⟩
    rw [howner, Option.some.inj hparse]
  · rw [hnext]
    exact .read hfresh (by simp [Stage.vetted, Stage.jobIds, hsilent])

theorem Sound.listNext (h : s.Sound dep) (hr : r ∈ s.requests) {job : Job} {jobs : List Job}
    {items : List JobResponse} (hstage : r.stage = .listed (job :: jobs) items) (draws : Draws) :
    Handled dep s r draws (s.run, r.to (listNext s.run.db r.identity.userId job jobs items)) := by
  have hfresh := h.unanswered hr (by simp [hstage])
  have hitems := h.shown r hr
  rw [hstage] at hitems
  apply Handled.read hfresh
  unfold ApiRun.listNext
  cases howner : ownerId s.run.db job.id with
  | none => simp [Stage.vetted, Stage.jobIds, internalError, Response.jobIds]
  | some owner =>
    simp only
    split_ifs with hmine
    · refine ⟨rfl, fun id hid => ?_⟩
      simp only [Stage.jobIds, List.map_append, List.mem_append] at hid
      rcases hid with hbefore | hnew
      · exact hitems id hbefore
      · rw [List.mem_singleton.mp hnew]
        exact howner.trans (congrArg some hmine.symm)
    · exact ⟨rfl, hitems⟩

theorem artifactOf_cases (d : HostedDb) (job : Job) :
    (∃ path, artifactOf d job = .redirect job.id path) ∨
      ∃ status detail, artifactOf d job = .error status detail := by
  unfold artifactOf
  split_ifs
  · exact Or.inr ⟨_, _, rfl⟩
  · split
    · exact Or.inl ⟨_, rfl⟩
    · exact Or.inr ⟨_, _, rfl⟩

theorem Sound.serve (h : s.Sound dep) (hr : r ∈ s.requests) {job : Job} (hstage : r.stage = .authorized job)
    (draws : Draws) : Handled dep s r draws (s.serve r draws job) := by
  have hfresh := h.unanswered hr (by simp [hstage])
  have hown := h.shown r hr
  rw [hstage] at hown
  have hstays : Handled dep s r draws (s.run, r) := by
    exact Handled.stays r.stage (by simp [hfresh]) (h.vetted r hr) (h.shown r hr)
  unfold ApiRun.serve
  cases hroute : r.route with
  | upload => exact hstays
  | cover assetId => exact hstays
  | list => exact hstays
  | create spec characters idempotencyKey => exact hstays
  | get jobId =>
    apply Handled.read hfresh
    exact ⟨rfl, hown⟩
  | events jobId =>
    apply Handled.read hfresh
    exact ⟨rfl, hown⟩
  | artifact jobId =>
    apply Handled.read hfresh
    rcases artifactOf_cases s.run.db job with ⟨path, htold⟩ | ⟨status, detail, htold⟩
    · rw [htold]
      exact ⟨rfl, hown⟩
    · simp [htold, Stage.vetted, Stage.jobIds, Response.jobIds]
  | cancel jobId =>
    simp only
    obtain ⟨e, herror, hout⟩ | ⟨reply, db, hok, hout⟩ := perform_cases (s := s) (r := r) _ _ _
    · rw [hout]
      exact .failed _ _ _ herror
    · obtain ⟨cancelled, hcancel, rfl⟩ := Prog.run_map_ok hok
      rw [hout]
      have hid : (jobResponse cancelled none).id = job.id := cancelled_id hcancel
      exact .cancelled (by simp [hstage, Stage.jobIds]) hid

theorem Sound.submit (h : s.Sound dep) (hr : r ∈ s.requests) {accountId : String}
    (hstage : r.stage = .charged accountId) {spec : JobSpec} {characters : ℤ} {idempotencyKey : Option String}
    (hroute : r.route = .create spec characters idempotencyKey) (draws : Draws) :
    Handled dep s r draws (s.submit dep r draws accountId spec characters idempotencyKey) := by
  have hfresh := h.unanswered hr (by simp [hstage])
  have hrefused : ∀ e, Handled dep s r draws (s.run, r.to (.answered (refused e))) := by
    intro e
    obtain ⟨status, detail, hrefused⟩ := refused_error e
    apply Handled.read hfresh
    simp [hrefused, Stage.vetted, Stage.jobIds, Response.jobIds]
  unfold ApiRun.submit
  cases hcredits : creditsFor dep.cost characters spec.casting.isCharacters with
  | error e => exact hrefused e
  | ok credits =>
    simp only
    split_ifs with hempty
    · exact hrefused _
    obtain ⟨e, herror, hout⟩ | ⟨reply, db, hok, hout⟩ := perform_cases (s := s) (r := r) _ _ _
    · obtain ⟨status, detail, hrefused⟩ := refused_error e
      rw [hout, hrefused]
      exact .failed _ _ _ herror
    · obtain ⟨admitted, -, rfl⟩ := Prog.run_map_ok hok
      rw [hout]
      exact .admitted hroute hfresh (h.vetted r hr (by rw [hstage]; rfl)) hok

theorem Sound.handled (h : s.Sound dep) (hr : r ∈ s.requests) (draws : Draws) :
    Handled dep s r draws (s.handle dep r draws) := by
  have hkept : Handled dep s r draws (s.run, r) := by
    refine .stays r.stage ?_ (h.vetted r hr) (h.shown r hr)
    rintro (hsome | hsome)
    · exact h.ended r hr hsome
    · exact h.silent r hr hsome
  unfold ApiRun.handle
  split
  next hstage =>
    have hfresh := h.unanswered hr (by simp [hstage])
    have hlookUp : ∀ jobId, Handled dep s r draws (s.run, r.to (lookUp s.run.db jobId)) := by
      intro jobId
      apply Handled.read hfresh
      unfold lookUp
      cases s.run.db.jobs.get? jobId with
      | none => simp [Stage.vetted, Stage.jobIds, Response.jobIds]
      | some row => simp [Stage.vetted, Stage.jobIds]
    cases hroute : r.route with
    | upload => exact hkept
    | cover assetId =>
      apply Handled.read hfresh
      obtain ⟨-, -, -, hnext⟩ | ⟨response, hnext, hsilent⟩ :=
        authorizeAsset_cases s.sources r.identity.userId assetId internalError_silent .replacing
      · simp [hnext, Stage.vetted, Stage.jobIds]
      · simp [hnext, Stage.vetted, Stage.jobIds, hsilent]
    | list => exact .read hfresh (by simp [Stage.vetted, Stage.jobIds])
    | get jobId => exact hlookUp jobId
    | cancel jobId => exact hlookUp jobId
    | events jobId => exact hlookUp jobId
    | artifact jobId => exact hlookUp jobId
    | create spec characters idempotencyKey =>
      apply Handled.read hfresh
      unfold findSource
      split_ifs
      · simp [Stage.vetted, Stage.jobIds]
      · simp [Stage.vetted, Stage.jobIds, Response.jobIds]
  next job hstage => exact h.authorize hr hstage draws
  next job hstage => exact h.serve hr hstage draws
  next items hstage =>
    have hitems := h.shown r hr
    rw [hstage] at hitems
    exact .read (h.unanswered hr (by simp [hstage])) ⟨rfl, hitems⟩
  next job jobs items hstage => exact h.listNext hr hstage draws
  next hstage =>
    split
    next spec characters idempotencyKey hroute => exact h.authorizeSource hr hstage hroute rfl draws
    next => exact hkept
  next hstage =>
    obtain ⟨e, herror, hout⟩ | ⟨reply, db, hok, hout⟩ := perform_cases (s := s) (r := r) _ _ _
    · obtain ⟨status, detail, hrefused⟩ := refused_error e
      rw [hout, hrefused]
      exact .failed _ _ _ herror
    · obtain ⟨accountId, -, rfl⟩ := Prog.run_map_ok hok
      rw [hout]
      exact .accounted _ rfl (h.unanswered hr (by simp [hstage])) (h.vetted r hr (by rw [hstage]; rfl))
  next accountId hstage =>
    split
    next spec characters idempotencyKey hroute => exact h.submit hr hstage hroute draws
    next => exact hkept
  next => exact hkept
  next => exact hkept

theorem colon_notMem_str (u : UUID) : ':' ∉ u.str.toList := by
  intro hmem
  rw [UUID.str, String.toList_ofList] at hmem
  rcases mem_dashed hmem with hhex | hdash
  · obtain ⟨digit, hdigit⟩ := mem_hexDigits hhex
    revert digit
    decide
  · revert hdash
    decide

/-- Before the colon, the text of a key has its user. -/
theorem userId_of_keyText {u u' : UUID} {key key' : String}
    (h : u.str ++ ":" ++ key = u'.str ++ ":" ++ key') :
    u = u' := by
  have hbefore : ∀ (u : UUID) (key : String), (u.str ++ ":" ++ key).toList.takeWhile (· ≠ ':') =
      u.str.toList := by
    intro u key
    rw [String.toList_append, String.toList_append, List.append_assoc, List.takeWhile_append_of_pos]
    · simp
    · intro c hc
      simpa using fun hcolon : c = ':' => colon_notMem_str u (hcolon ▸ hc)
  have htexts := hbefore u key
  rw [h, hbefore u' key'] at htexts
  exact UUID.str_inj (String.toList_injective htexts.symm)

/-- What an admission of the request leaves: its own job and its own key are all that is new, and it tells of
a job of its own. -/
structure Admitted (dep : ApiDeployment) (s : ApiRun) (r : Request) (jobId : String) (spec : JobSpec)
    (admitted : Job) (db : HostedDb) : Prop where
  jobs : ∀ row ∈ db.jobs.rows, row ∈ s.run.db.jobs.rows ∨
    (row.id = jobId ∧ row.ownerId = some r.identity.userId.str ∧ row.spec = spec ∧ admitted.id = jobId)
  keys : ∀ row ∈ db.idempotency.rows, row ∈ s.run.db.idempotency.rows ∨
    ∃ text, r.keyText = some text ∧ row.key = dep.digest text ∧ ownerId db row.jobId = some r.identity.userId
  told : ownerId db admitted.id = some r.identity.userId

theorem Sound.admitted (h : s.Sound dep) {draws : Draws} {accountId : String} {spec : JobSpec}
    {credits characters : ℤ} {idempotencyKey : Option String} {admitted : Job} {db : HostedDb}
    (hroute : r.route = .create spec characters idempotencyKey)
    (hdistinct : ∀ other ∈ s.requests, ∀ text text', r.keyText = some text → other.keyText = some text' →
      dep.digest text = dep.digest text' → text = text')
    (hok : (admission dep r draws accountId spec credits idempotencyKey).prog.run s.run.db =
      .ok (.job admitted, db)) :
    Admitted dep s r draws.jobId.text spec admitted db := by
  obtain ⟨reply, hadmit, hreply⟩ := Prog.run_map_ok hok
  cases hreply
  have hkeyText : r.keyText = idempotencyKey.map fun key => r.identity.userId.str ++ ":" ++ key := by
    rw [Request.keyText, hroute]
    rfl
  rcases (admit_cases hadmit).cases with ⟨rfl, hashed, row, found, hhashed, hkeyed, hfound, rfl⟩
    | ⟨rfl, hnew, hjobs, hkeys⟩
  · refine ⟨fun row hrow => Or.inl hrow, fun row hrow => Or.inl hrow, ?_⟩
    -- the key is of a request of the same identity
    obtain ⟨key, rfl, rfl⟩ := Option.map_eq_some_iff.mp hhashed
    obtain ⟨hmem, hkey⟩ := (s.run.db.idempotency.get?_eq_some_iff _ row).mp hkeyed
    obtain ⟨other, hother, text, htext, hdigest, howner⟩ := h.keyed row hmem
    have hsame := hdistinct other hother _ _ hkeyText htext (hkey.symm.trans hdigest)
    obtain ⟨key', -, hkey'⟩ := Option.map_eq_some_iff.mp htext
    have huser := userId_of_keyText (hsame.trans hkey'.symm)
    have hid : found.id = row.jobId := ((s.run.db.jobs.get?_eq_some_iff _ found).mp hfound).2
    have hreplied : found.toJob.id = row.jobId := hid
    rw [hreplied, howner, huser]
  · have howner : ownerId db draws.jobId.text = some r.identity.userId := by
      have hrow : db.jobs.get? draws.jobId.text =
          some { draws.job spec with ownerId := some r.identity.userId.str } := by
        rw [hjobs]
        exact Table.get?_put_self s.run.db.jobs _
      rw [ownerId_of_get? hrow, Option.bind_some, UUID.parse_str]
    refine ⟨fun row hrow => ?_, fun row hrow => ?_, howner⟩
    · rw [hjobs] at hrow
      rcases (Table.mem_put _ _ _).mp hrow with rfl | ⟨hold, -⟩
      · exact Or.inr ⟨rfl, rfl, rfl, rfl⟩
      · exact Or.inl hold
    · rw [hkeys] at hrow
      cases idempotencyKey with
      | none => exact Or.inl hrow
      | some key =>
        simp only [Option.map_some, Option.elim_some] at hrow
        rcases (Table.mem_put _ _ _).mp hrow with rfl | ⟨hold, -⟩
        · exact Or.inr ⟨_, hkeyText, rfl, howner⟩
        · exact Or.inl hold

theorem Sound.admit (h : s.Sound dep) (hr : s.requests[i]? = some r) {draws : Draws} {accountId : String}
    {spec : JobSpec} {credits characters : ℤ} {idempotencyKey : Option String} {admitted : Job}
    {db : HostedDb} (hroute : r.route = .create spec characters idempotencyKey)
    (hfresh : r.created = none ∧ r.uploaded = none) (hvetted : Vetted s.sources r)
    (hdistinct : ∀ other ∈ s.requests, ∀ text text', r.keyText = some text → other.keyText = some text' →
      dep.digest text = dep.digest text' → text = text')
    (hok : (admission dep r draws accountId spec credits idempotencyKey).prog.run s.run.db =
      .ok (.job admitted, db))
    {next : Request} (hnext : next = { r.to (.answered (.job 202 (jobResponse admitted none))) with
      created := if admitted.id = draws.jobId.text then some draws.jobId.text else none }) :
    Sound dep
      { s with
        run := s.run.step Call.prog (admission dep r draws accountId spec credits idempotencyKey)
        requests := s.requests.set i next } := by
  have hadmitted := h.admitted hroute hdistinct hok
  have hadmissible : (admission dep r draws accountId spec credits idempotencyKey).Admissible
      (s.run.db :: s.run.past) :=
    rfl
  have hsince := since_of_run hadmissible h.since hok
  have hgoes : Goes r next := by
    subst hnext
    exact ⟨rfl, rfl, rfl, rfl, fun id hid => (by rw [hfresh.1] at hid; cases hid), fun _ h => h⟩
  rw [Serial.step, hok]
  apply h.goes hr hgoes
  · intro d hd
    rcases List.mem_cons.mp hd with rfl | hpast
    · exact .refl _ _ _
    · exact (h.since d hpast).trans hsince
  · exact hsince
  · intro _
    exact ⟨_, congrArg Request.stage hnext⟩
  · intro _
    exact ⟨_, congrArg Request.stage hnext⟩
  · intro _
    exact hvetted
  · intro row hrow
    rcases hadmitted.jobs row hrow with hold | ⟨hid, howner, hspec, hadmitted⟩
    · exact Or.inl hold
    · refine Or.inr ⟨?_, howner, ?_⟩
      · rw [hnext, hid, if_pos hadmitted]
      · rw [hspec]
        exact hvetted spec characters idempotencyKey hroute
  · exact hadmitted.keys
  · intro id hid
    rw [hnext] at hid
    have hreplied : id = admitted.id := List.mem_singleton.mp hid
    rw [hreplied]
    exact hadmitted.told

theorem Vetted.put {sources : Sources} (h : Vetted sources r) {row : SourceRow}
    (hfresh : sources.get? row.id = none) :
    Vetted (sources.put row) r := by
  intro spec characters idempotencyKey hroute
  obtain ⟨source, hsource, howner⟩ := h spec characters idempotencyKey hroute
  have hother : row.id ≠ spec.sourceId := by
    intro hid
    rw [← hid, hfresh] at hsource
    cases hsource
  refine ⟨source, ?_, howner⟩
  rw [Table.get?_put, if_neg hother]
  exact hsource

theorem Sound.upload (h : s.Sound dep) (hr : s.requests[i]? = some r) (huploads : ApiRun.uploads r = true)
    (draws : Draws) : Sound dep (s.upload i r draws) := by
  unfold ApiRun.upload
  split_ifs with htaken
  · apply h.setStage hr
    · exact fun _ => ⟨_, rfl⟩
    · simp [Stage.vetted]
    · simp [Stage.jobIds, internalError, Response.jobIds]
  have hnone : s.sources.get? draws.assetId = none := Option.not_isSome_iff_eq_none.mp fun hsome =>
    htaken (Or.inr hsome)
  have hopened : ∀ response, r.stage ≠ .answered response := by
    intro response hanswered
    unfold ApiRun.uploads at huploads
    split at huploads
    next _ hopened =>
      rw [hopened] at hanswered
      cases hanswered
    next hreplacing =>
      rw [hreplacing] at hanswered
      cases hanswered
    next => cases huploads
  have hfresh := h.unanswered (List.mem_of_getElem? hr) hopened
  have hgoes :
      Goes r { r.to (.answered (.asset 201 draws.assetId)) with uploaded := some draws.assetId } := by
    refine ⟨rfl, rfl, rfl, rfl, fun _ h => h, fun id hid => ?_⟩
    rw [hfresh.2] at hid
    cases hid
  have hset := h.goes hr hgoes h.since (.refl _ _ _) (fun _ => ⟨_, rfl⟩) (fun _ => ⟨_, rfl⟩)
    (fun hstage => by cases hstage)
    (fun _ hrow => Or.inl hrow) (fun _ hrow => Or.inl hrow) fun _ hid => by cases hid
  have hrefl := Since.refl False [] s.run.db
  have hstocked : Since False []
      s.run.db { s.run.db with assets := s.run.db.assets.put ⟨draws.assetId, draws.now, none⟩ } :=
    ⟨hrefl.jobs, hrefl.kept, fun _ _ => ⟨rfl, rfl⟩, fun _ _ => rfl⟩
  have hkept : ∀ {id : String} {source : SourceRow}, s.sources.get? id = some source →
      (s.sources.put ⟨draws.assetId, r.identity.userId.str⟩).get? id = some source := by
    intro id source hsource
    have hother : draws.assetId ≠ id := by
      rintro rfl
      rw [hnone] at hsource
      cases hsource
    rw [Table.get?_put, if_neg hother]
    exact hsource
  refine ⟨?_, hset.known, hset.presents, hset.ended, hset.owned, hset.keyed, hset.shown, ?_,
    hset.silent, ?_, ?_⟩
  · intro d hd
    rcases List.mem_cons.mp hd with rfl | hpast
    · exact .refl _ _ _
    · exact (h.since d hpast).trans hstocked
  · intro row hrow
    rcases (Table.mem_put _ _ _).mp hrow with rfl | ⟨hold, -⟩
    · exact ⟨_, List.mem_set (List.getElem?_eq_some_iff.mp hr).1 _, rfl, rfl⟩
    · exact hset.uploads row hold
  · intro other hother hstage
    exact (hset.vetted other hother hstage).put hnone
  · intro row hrow
    obtain ⟨source, hsource, howner⟩ := h.sourced row hrow
    exact ⟨source, hkept hsource, howner⟩

theorem Sound.proceed (h : s.Sound dep) {draws : Draws} (hallowed : s.Allowed dep (.proceed i draws)) :
    Sound dep (s.proceed dep i draws) := by
  cases hr : s.requests[i]? with
  | none => simpa [ApiRun.proceed, hr] using h
  | some r =>
    have hmem := List.mem_of_getElem? hr
    have hhandled := h.handled hmem draws
    rw [ApiRun.proceed, hr]
    simp only
    split_ifs with huploads
    · exact h.upload hr huploads draws
    revert hhandled
    generalize s.handle dep r draws = out
    intro hhandled
    cases hhandled with
    | stays stage ended vetted shown => exact h.setStage hr ended vetted shown
    | failed call status detail error =>
      have hfailed := (h.failed error).2
      exact hfailed.setStage hr (fun _ => ⟨_, rfl⟩) (by simp [Stage.vetted])
        (by simp [Stage.jobIds, Response.jobIds])
    | accounted call ok fresh vetted =>
      subst ok
      have hsourced : (Call.accountForIdentity draws.accountId draws.lotId r.identity.userId.str
          dep.allowance).Sourced
          (s.run.db :: s.run.past) := ⟨trivial, by simp⟩
      have hcalled := h.call hsourced rfl
      exact hcalled.setStage hr (by simp [fresh]) (fun _ => vetted) (by simp [Stage.jobIds])
    | cancelled own told =>
      rename_i jobId response
      have hsourced : (Call.requestCancellation jobId draws.now).Sourced (s.run.db :: s.run.past) :=
        ⟨trivial, by simp⟩
      have hcalled := h.call hsourced rfl
      refine hcalled.setStage hr (fun _ => ⟨_, rfl⟩) (by simp [Stage.vetted]) fun id hid => ?_
      have hid : id = response.id := List.mem_singleton.mp hid
      rw [hid, told]
      exact hcalled.shown r hmem jobId own
    | admitted route fresh vetted ok =>
      exact h.admit hr route fresh vetted (fun other hother text text' =>
        hallowed r other text text' hr hother) ok rfl

theorem Sound.arrive (h : s.Sound dep) {headers : Headers} {sessions : String → Auth.Session}
    {route : Route} {id : UUID} :
    Sound dep (s.arrive dep headers sessions route id) := by
  unfold ApiRun.arrive
  cases hauth : authenticate dep.config sessions s.identities id { headers with safe := route.safe } with
  | error refusal => exact h
  | ok result =>
    obtain ⟨identity, sealed, identities⟩ := result
    obtain ⟨hidentified, hpresents⟩ := authenticate_ok hauth
    refine ⟨h.since, ?_, ?_, ?_, ?_, ?_, ?_, ?_, ?_, ?_, h.sourced⟩
    · intro r hr
      rcases List.mem_append.mp hr with hold | hnew
      · obtain ⟨row, hrow, hsubject⟩ := h.known r hold
        obtain ⟨row', hrow', hsame⟩ := hidentified.kept _ row hrow
        exact ⟨row', hrow', hsame.trans hsubject⟩
      · cases List.mem_singleton.mp hnew
        exact hidentified.known
    · intro r hr
      rcases List.mem_append.mp hr with hold | hnew
      · exact h.presents r hold
      · cases List.mem_singleton.mp hnew
        exact hpresents
    · intro r hr hcreated
      rcases List.mem_append.mp hr with hold | hnew
      · exact h.ended r hold hcreated
      · cases List.mem_singleton.mp hnew
        cases hcreated
    · intro row hrow
      obtain ⟨r, hr, hof⟩ := h.owned row hrow
      exact ⟨r, List.mem_append_left _ hr, hof⟩
    · intro row hrow
      obtain ⟨r, hr, hof⟩ := h.keyed row hrow
      exact ⟨r, List.mem_append_left _ hr, hof⟩
    · intro r hr id hshown
      rcases List.mem_append.mp hr with hold | hnew
      · exact h.shown r hold id hshown
      · cases List.mem_singleton.mp hnew
        cases hshown
    · intro row hrow
      obtain ⟨r, hr, hof⟩ := h.uploads row hrow
      exact ⟨r, List.mem_append_left _ hr, hof⟩
    · intro r hr hsome
      rcases List.mem_append.mp hr with hold | hnew
      · exact h.silent r hold hsome
      · cases List.mem_singleton.mp hnew
        cases hsome
    · intro r hr hstage
      rcases List.mem_append.mp hr with hold | hnew
      · exact h.vetted r hold hstage
      · cases List.mem_singleton.mp hnew
        cases hstage

theorem sound_of_reach (reach : Reach dep s) : s.Sound dep := by
  induction reach with
  | init =>
    refine ⟨?_, ?_, ?_, ?_, ?_, ?_, ?_, ?_, ?_, ?_, ?_⟩
    · intro d hd
      cases List.mem_singleton.mp hd
      exact .refl _ _ _
    all_goals
      intro x hx
      cases hx
  | step act reach allowed ih =>
    cases act with
    | call call => exact ih.call allowed.1 allowed.2
    | arrive headers sessions route identityId => exact ih.arrive
    | proceed i draws => exact ih.proceed allowed

/-- Where no key is given, none is hashed. -/
theorem allowed_of_keyless {draws : Draws} (h : s.requests[i]?.bind (·.keyText) = none) :
    s.Allowed dep (.proceed i draws) := by
  intro r other text text' hr hother hkey
  rw [hr, Option.bind_some, hkey] at h
  cases h

def sampleDeployment : ApiDeployment where
  config := { webOrigin := "web", redirectOrigin := "server", casefold := id }
  digest := id
  allowance := 5
  collate := fun _ _ => true

def sampleHeaders : Headers := { safe := true, authorization := "Bearer token" }

def sampleSessions (_ : String) : Auth.Session := { authenticated := some ⟨"subject", "mail", true⟩ }

def sampleDraws : Draws where
  accountId := "account"
  lotId := "lot"
  authorizationId := "authorization"
  assetId := "source"
  jobId := ⟨sampleJob.id, sampleJob.named⟩
  dispatchId := "dispatch"
  now := 0

def sampleUser : UUID := ⟨1, by decide⟩

def sampleOther : UUID := ⟨2, by decide⟩

/-- A user has uploaded a source and submitted a job. -/
def sampleSubmitted : ApiRun :=
  [ApiAct.arrive sampleHeaders sampleSessions .upload sampleUser, .proceed 0 sampleDraws,
    .arrive sampleHeaders sampleSessions (.create sampleJob.spec 3 none) sampleOther, .proceed 1 sampleDraws,
    .proceed 1 sampleDraws, .proceed 1 sampleDraws, .proceed 1 sampleDraws].foldl (step sampleDeployment) {}

/-- The user has asked for the job. -/
def sampleAsked : ApiRun :=
  [ApiAct.arrive sampleHeaders sampleSessions (.get "job") sampleOther, .proceed 2 sampleDraws,
    .proceed 2 sampleDraws, .proceed 2 sampleDraws].foldl (step sampleDeployment) sampleSubmitted

theorem reach_sampleSubmitted : Reach sampleDeployment sampleSubmitted := by
  have hnew : Reach sampleDeployment {} := .init
  have harrived := hnew.step (.arrive sampleHeaders sampleSessions .upload sampleUser) trivial
  have huploaded := harrived.step (.proceed 0 sampleDraws) (allowed_of_keyless (by decide +kernel))
  have hsubmitting := huploaded.step (.arrive sampleHeaders sampleSessions (.create sampleJob.spec 3 none)
    sampleOther) trivial
  have hfound := hsubmitting.step (.proceed 1 sampleDraws) (allowed_of_keyless (by decide +kernel))
  have hvetted := hfound.step (.proceed 1 sampleDraws) (allowed_of_keyless (by decide +kernel))
  have hcharged := hvetted.step (.proceed 1 sampleDraws) (allowed_of_keyless (by decide +kernel))
  exact hcharged.step (.proceed 1 sampleDraws) (allowed_of_keyless (by decide +kernel))

theorem reach_sampleAsked : Reach sampleDeployment sampleAsked := by
  have harrived := reach_sampleSubmitted.step (.arrive sampleHeaders sampleSessions (.get "job") sampleOther)
    trivial
  have hfound := harrived.step (.proceed 2 sampleDraws) (allowed_of_keyless (by decide +kernel))
  have hauthorized := hfound.step (.proceed 2 sampleDraws) (allowed_of_keyless (by decide +kernel))
  exact hauthorized.step (.proceed 2 sampleDraws) (allowed_of_keyless (by decide +kernel))

/-- A call leaves a job as it is that is none of those it moves. -/
theorem sameJob_of_step {call : Call} (births : JobRow → Prop) (moves : JobRow → JobRow → Prop)
    (hcall : call.prog.Along (hostedRely False) (exhaustion False) s.run.db
      (Prog.upTo noClash fun _ t => JobEffect s.run.db births moves t) {})
    {id : String} {row : JobRow} (hrow : s.run.db.jobs.get? id = some row)
    (hmoves : ∀ old next, moves old next → old.id ≠ id) :
    SameJob id s.run.db (s.run.step Call.prog call).db := by
  have hspec := Serial.step_spec Call.prog s.run call
  revert hspec
  generalize s.run.step Call.prog call = run'
  intro hspec
  cases hspec with
  | fail error => exact .refl id s.run.db
  | commit ok =>
    obtain ⟨t, heffect, rfl⟩ := effect_of_along hcall ok
    exact sameJob_of_effect heffect hrow hmoves

/-- A request leaves the jobs of others and their events as they are. -/
theorem others_untouched (reach : Reach dep s) (hr : s.requests[i]? = some r) (draws : Draws)
    {id : String} {row : JobRow} (hrow : s.run.db.jobs.get? id = some row)
    (hothers : ∀ r' ∈ s.requests, r'.created = some id →
      r'.identity.providerSubject ≠ r.identity.providerSubject) :
    SameJob id s.run.db (s.step dep (.proceed i draws)).run.db := by
  have hsound := sound_of_reach reach
  have hmem := List.mem_of_getElem? hr
  have hhandled := hsound.handled hmem draws
  rw [step, proceed, hr]
  simp only
  split_ifs with huploads
  · unfold ApiRun.upload
    split_ifs
    · exact .refl id s.run.db
    · exact ⟨rfl, rfl⟩
  revert hhandled
  generalize s.handle dep r draws = out
  intro hhandled
  cases hhandled with
  | stays stage ended vetted shown => exact .refl id s.run.db
  | failed call status detail error =>
    rw [(hsound.failed error).1]
    exact .refl id s.run.db
  | accounted call ok fresh vetted =>
    subst ok
    refine sameJob_of_step (fun _ => False) (fun _ _ => False) ?_ hrow fun _ _ h => h.elim
    have haside : (Hosted.accountForIdentity draws.accountId draws.lotId r.identity.userId.str
        dep.allowance).Emits
        (fun w => w.isAside) noClash :=
      PostgresBillingRepository.accountForIdentity_emits (fun _ => rfl) (fun _ => rfl)
        (fun _ => rfl) (fun _ h => h)
        _ _ _ _
    exact (aside_along (by simp) haside).seq fun _ _ ht => Prog.along_return (.idle ht)
  | cancelled own told =>
    rename_i jobId response
    refine sameJob_of_step (fun _ => False) (fun old _ => old.id = jobId) ?_ hrow ?_
    · exact cancel_along.seq fun _ _ ht => Prog.along_return (ht.imp (fun _ h => h) fun _ _ h => h.1)
    rintro old next hold rfl
    obtain ⟨r', hr', hcreated, hsubject⟩ := hsound.created hmem (hsound.shown r hmem jobId own)
    exact hothers r' hr' (hold ▸ hcreated) hsubject
  | admitted route fresh vetted ok =>
    refine sameJob_of_step (fun _ => True) (fun _ _ => False) ?_ hrow fun _ _ h => h.elim
    refine Prog.Along.seq (admit_along ?_) fun _ _ ht =>
      Prog.along_return (ht.imp (fun _ _ => trivial) fun _ _ h => h)
    rfl

def sampleStrangers (_ : String) : Auth.Session := { authenticated := some ⟨"stranger", "mail", true⟩ }

/-- Another user is about to cancel the job. -/
def sampleIntruded : ApiRun :=
  [ApiAct.arrive sampleHeaders sampleStrangers (.cancel "job") sampleOther, .proceed 2 sampleDraws].foldl
    (step sampleDeployment) sampleSubmitted

theorem reach_sampleIntruded : Reach sampleDeployment sampleIntruded := by
  have harrived := reach_sampleSubmitted.step (.arrive sampleHeaders sampleStrangers (.cancel "job")
    sampleOther) trivial
  exact harrived.step (.proceed 2 sampleDraws) (allowed_of_keyless (by decide +kernel))

theorem others_untouched_refused :
    SameJob "job" sampleIntruded.run.db
      (sampleIntruded.step sampleDeployment (.proceed 2 sampleDraws)).run.db := by
  have hsubject : sampleIntruded.requests[2]?.map (·.identity.providerSubject) =
      some "stranger" := by decide +kernel
  have hsome : (sampleIntruded.run.db.jobs.get? "job").isSome := by decide +kernel
  have hothers : ∀ r' ∈ sampleIntruded.requests, r'.created = some "job" →
      r'.identity.providerSubject ≠ "stranger" := by
    decide +kernel
  obtain ⟨r, hr, hsubject⟩ := Option.map_eq_some_iff.mp hsubject
  obtain ⟨row, hrow⟩ := Option.isSome_iff_exists.mp hsome
  exact others_untouched reach_sampleIntruded hr sampleDraws hrow (hsubject ▸ hothers)

/-- A job is made of a source that its submitter's subject uploaded. -/
theorem source_uploaded (reach : Reach dep s) {row : JobRow} (hrow : row ∈ s.run.db.jobs.rows) :
    ∃ r ∈ s.requests, r.created = some row.id ∧ ∃ r' ∈ s.requests, r'.uploaded = some row.spec.sourceId ∧
      r'.identity.providerSubject = r.identity.providerSubject := by
  have hsound := sound_of_reach reach
  obtain ⟨r, hr, hcreated, howner⟩ := hsound.owned row hrow
  obtain ⟨source, hsource, hof⟩ := hsound.sourced row hrow
  obtain ⟨hmem, hid⟩ := (s.sources.get?_eq_some_iff _ source).mp hsource
  obtain ⟨r', hr', huploaded, hby⟩ := hsound.uploads source hmem
  refine ⟨r, hr, hcreated, r', hr', hid ▸ huploaded, ?_⟩
  have huser : r'.identity.userId = r.identity.userId := by
    apply UUID.str_inj
    rw [← hby]
    exact Option.some.inj (hof.symm.trans howner)
  exact hsound.subject_of_user hr' hr huser

theorem source_uploaded_submitted : ∃ r ∈ sampleSubmitted.requests, r.created = some "job" ∧
    ∃ r' ∈ sampleSubmitted.requests, r'.uploaded = some "source" ∧
      r'.identity.providerSubject = r.identity.providerSubject := by
  have hjob : (sampleSubmitted.run.db.jobs.get? "job").map (·.spec.sourceId) =
      some "source" := by decide +kernel
  obtain ⟨row, hrow, hsource⟩ := Option.map_eq_some_iff.mp hjob
  obtain ⟨hmem, hid⟩ := (sampleSubmitted.run.db.jobs.get?_eq_some_iff "job" row).mp hrow
  have huploaded := source_uploaded reach_sampleSubmitted hmem
  rw [hid, hsource] at huploaded
  exact huploaded

end

end ApiRun

end KenkuiServer.Api
