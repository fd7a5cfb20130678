import KenkuiServer.Auth.Sessions
import KenkuiServer.Billing.Service
import KenkuiServer.Hosted.Sources
import KenkuiServer.Local.Submission
import KenkuiServer.Storage.Artifacts

/-! The job routes of the hosted server: requests of any number of users, each a sequence of transactions of
its own, next to the calls of the other processes. -/
namespace KenkuiServer.Api
open Txn Data Jobs Billing Storage Hosted Auth

structure JobResponse where
  id : String
  status : String
  progress : Progress
  sourceId : String
  sourceCover : Bool
  title : Option String
  author : Option String
  narratorVoiceId : String
  castingMode : String
  failure : Option (String × String)
  deriving DecidableEq

/-- `_response`. -/
def jobResponse (job : Job) (failure : Option (String × String)) : JobResponse where
  id := job.id
  status := job.status.value
  progress := job.progress
  sourceId := job.spec.sourceId
  sourceCover := job.spec.output.sourceCover
  title := job.spec.output.title
  author := job.spec.output.author
  narratorVoiceId := match job.spec.casting with
    | .single voiceId => voiceId
    | .characters casting => casting.narratorVoiceId
  castingMode := if job.spec.casting.isCharacters then "characters" else "single"
  failure := failure

inductive Response
  | job (status : ℕ) (job : JobResponse)
  | jobs (items : List JobResponse)
  | stream (jobId : String)
  | redirect (jobId path : String)
  | asset (status : ℕ) (id : String)
  | error (status : ℕ) (detail : String)
  deriving DecidableEq

def Response.jobIds : Response → List String
  | job _ response => [response.id]
  | jobs items => items.map (·.id)
  | stream jobId | redirect jobId _ => [jobId]
  | asset _ _ | error _ _ => []

/-- `create` comes with what the engine makes of its payload in `_preflight`. -/
inductive Route
  | upload
  /-- A new source with another cover. -/
  | cover (assetId : String)
  | list
  | get (jobId : String)
  | cancel (jobId : String)
  | events (jobId : String)
  | artifact (jobId : String)
  | create (spec : JobSpec) (characters : ℤ) (idempotencyKey : Option String)

def Route.safe : Route → Bool
  | upload | cover _ | cancel _ | create _ _ _ => false
  | _ => true

def Route.idempotencyKey : Route → Option String
  | create _ _ idempotencyKey => idempotencyKey
  | _ => none

inductive Stage
  | opened
  /-- `jobs.get` has found the job. -/
  | found (job : Job)
  /-- `_authorize_job` has passed. -/
  | authorized (job : Job)
  /-- The jobs that are still to be looked at, and the items so far. -/
  | listed (jobs : List Job) (items : List JobResponse)
  /-- `_preflight` has found the source. -/
  | sourced
  /-- `_authorize_asset` has passed. -/
  | preflighted
  /-- It has passed for the source that gets another cover. -/
  | replacing
  /-- The account of the identity, before the admission. -/
  | charged (accountId : String)
  | answered (response : Response)
  deriving DecidableEq

def Stage.jobIds : Stage → List String
  | authorized job => [job.id]
  | listed _ items => items.map (·.id)
  | answered response => response.jobIds
  | _ => []

def Stage.vetted : Stage → Bool
  | preflighted | charged _ => true
  | _ => false

/-- A request that the middleware let through, with what the provider answered for its token. -/
structure Request where
  identity : Auth.Identity
  headers : Headers
  sessions : String → Auth.Session
  route : Route
  stage : Stage := .opened
  uploaded : Option String := none
  created : Option String := none

/-- What the handler hashes to the idempotency key of an admission. -/
def Request.keyText (r : Request) : Option String :=
  r.route.idempotencyKey.map fun key => r.identity.userId.str ++ ":" ++ key

def Request.to (r : Request) (stage : Stage) : Request := { r with stage }

structure ApiDeployment where
  config : BrowserSessionConfig
  /-- `hashlib.sha256(..).hexdigest()`. -/
  digest : String → String
  allowance : ℤ
  /-- `KENKUI_ESTIMATED_COST_CENTS_PER_MILLION`. -/
  cost : ℤ := 126
  /-- The order of the database's collation. -/
  collate : String → String → Bool

structure Draws where
  accountId : String
  lotId : String
  authorizationId : String
  assetId : String
  jobId : Local.Uuid
  dispatchId : String
  now : Time

def Draws.job (draws : Draws) (spec : JobSpec) :
    Job := { id := draws.jobId.text, spec, named := draws.jobId.named }

structure SourceRow where
  id : String
  ownerId : String
  deriving DecidableEq

abbrev Sources := Table SourceRow.id

structure ApiRun where
  run : HostedRun := { db := {} }
  sources : Sources := ∅
  identities : Storage.Identities := ∅
  requests : List Request := []

inductive ApiAct
  /-- A transaction of another process, or one of another route. -/
  | call (call : Call)
  | arrive (headers : Headers) (sessions : String → Auth.Session) (route : Route) (identityId : UUID)
  | proceed (i : ℕ) (draws : Draws)

/-- `credits_for_characters`, `multivoice` included. -/
def creditsFor (cost characters : ℤ) (multivoice : Bool) : Except Error ℤ :=
  if characters < 0 then .error (.value "invalid_character_count")
  else if cost < 1 then .error (.value "invalid_estimated_processing_cost")
  else .ok ((characters * cost * (if multivoice then 3 else 2) + 999999) / 1000000)

def internalError : Response := .error 500 "internal_server_error"

/-- `except ValueError` of `create_job`. -/
def refused : Error → Response
  | .value code =>
    if code ∈ ["empty_speech", "insufficient_credits", "source_expired", "active_job_limit",
      "idempotency_conflict"]
    then .error 409 code else internalError
  | _ => internalError

namespace ApiRun
variable (dep : ApiDeployment) (s : ApiRun)

def ownerId (d : HostedDb) (jobId : String) : Option UUID :=
  (d.jobs.get? jobId).bind fun row => row.ownerId.bind UUID.parse

def lookUp (d : HostedDb) (jobId : String) : Stage :=
  match d.jobs.get? jobId with
  | none => .answered (.error 404 "job not found")
  | some row => .found row.toJob

def authorize (d : HostedDb) (userId : UUID) (job : Job) : Stage :=
  match ownerId d job.id with
  | none => .answered internalError
  | some owner => if userId = owner then .authorized job else .answered
    (.error 403 "resource is not owned by this user")

def findSource (sources : Sources) (sourceId : String) : Stage :=
  if (sources.get? sourceId).isSome then .sourced else .answered (.error 404 "asset inspection not found")

/-- `_authorize_asset`, with the answer to its `KeyError`, and the stage after it. -/
def authorizeAsset (missing : Response) (next : Stage) (sources : Sources) (userId : UUID)
    (sourceId : String) : Stage :=
  match sources.get? sourceId with
  | none => .answered missing
  | some row =>
    match UUID.parse row.ownerId with
    | none => .answered internalError
    | some owner => if userId = owner then next else .answered
      (.error 403 "resource is not owned by this user")

def listNext (d : HostedDb) (userId : UUID) (job : Job) (jobs : List Job)
    (items : List JobResponse) : Stage :=
  match ownerId d job.id with
  | none => .answered internalError
  | some owner => .listed jobs (if userId = owner then items ++ [jobResponse job none] else items)

def artifactOf (d : HostedDb) (job : Job) : Response :=
  if job.status ≠ .succeeded then .error 409 "artifact is not available"
  else match d.artifacts.rows.filter (·.jobId = job.id) with
    | [artifact] => .redirect job.id artifact.path
    | _ => .error 404 "artifact not found"

def perform (call : Call) (r : Request) (answer : Reply → Request) (failed : Error → Response) :
    HostedRun × Request :=
  (s.run.step Call.prog call,
    match call.prog.run s.run.db with
    | .ok (reply, _) => answer reply
    | .error e => r.to (.answered (failed e)))

/-- `HostedDispatcher.submit`, up to the start of its runner. -/
def submit (r : Request) (draws : Draws) (accountId : String) (spec : JobSpec) (characters : ℤ)
    (idempotencyKey : Option String) : HostedRun × Request :=
  match creditsFor dep.cost characters spec.casting.isCharacters with
  | .error e => (s.run, r.to (.answered (refused e)))
  | .ok credits =>
    if credits < 1 then (s.run, r.to (.answered (refused (.value "empty_speech"))))
    else
      let job := draws.job spec
      s.perform (.admitJob draws.authorizationId job ⟨draws.dispatchId, job.id, "pending", 0⟩
        accountId r.identity.userId.str
          credits (idempotencyKey.map fun key => dep.digest (r.identity.userId.str ++ ":" ++ key))) r
        (fun
          | .job admitted =>
            { r.to (.answered (.job 202 (jobResponse admitted none))) with
              created := if admitted.id = job.id then some job.id else none }
          | _ => r)
        refused

def serve (r : Request) (draws : Draws) (job : Job) : HostedRun × Request :=
  match r.route with
  | .get _ =>
    let failure := (s.run.db.failures.get? job.id).map fun row => (row.code, row.message)
    (s.run, r.to (.answered (.job 200 (jobResponse job failure))))
  | .cancel _ => s.perform (.requestCancellation job.id draws.now) r
      (fun
        | .job cancelled => r.to (.answered (.job 200 (jobResponse cancelled none)))
        | _ => r)
      fun _ => internalError
  | .events _ => (s.run, r.to (.answered (.stream job.id)))
  | .artifact _ => (s.run, r.to (.answered (artifactOf s.run.db job)))
  | .upload | .cover _ | .list | .create _ _ _ => (s.run, r)

def handle (r : Request) (draws : Draws) : HostedRun × Request :=
  match r.stage with
  | .opened =>
    match r.route with
    | .list =>
      let rows := s.run.db.jobs.rows.insertionSort fun row row' => dep.collate row.id row'.id
      (s.run, r.to (.listed (rows.map (·.toJob)) []))
    | .get jobId | .cancel jobId | .events jobId | .artifact jobId =>
      (s.run, r.to (lookUp s.run.db jobId))
    | .create spec _ _ => (s.run, r.to (findSource s.sources spec.sourceId))
    | .cover assetId =>
      (s.run, r.to (authorizeAsset internalError .replacing s.sources r.identity.userId assetId))
    | .upload => (s.run, r)
  | .found job => (s.run, r.to (authorize s.run.db r.identity.userId job))
  | .authorized job => s.serve r draws job
  | .listed [] items => (s.run, r.to (.answered (.jobs items)))
  | .listed (job :: jobs) items => (s.run, r.to (listNext s.run.db r.identity.userId job jobs items))
  | .sourced =>
    match r.route with
    | .create spec _ _ =>
      (s.run, r.to (authorizeAsset (.error 404 "asset inspection not found") .preflighted s.sources
        r.identity.userId
        spec.sourceId))
    | _ => (s.run, r)
  | .preflighted =>
    s.perform (.accountForIdentity draws.accountId draws.lotId r.identity.userId.str dep.allowance) r
      (fun
        | .accountId accountId => r.to (.charged accountId)
        | _ => r)
      refused
  | .charged accountId =>
    match r.route with
    | .create spec characters idempotencyKey => s.submit dep r draws accountId spec characters idempotencyKey
    | _ => (s.run, r)
  | .replacing | .answered _ => (s.run, r)

def uploads (r : Request) : Bool :=
  match r.route, r.stage with
  | .upload, .opened | .cover _, .replacing => true
  | _, _ => false

/-- `put_for_owner` of `upload_asset` and `upload_cover`. -/
def upload (i : ℕ) (r : Request) (draws : Draws) : ApiRun :=
  if (s.run.db.assets.get? draws.assetId).isSome ∨ (s.sources.get? draws.assetId).isSome then
    { s with requests := s.requests.set i (r.to (.answered internalError)) }
  else
    { s with
      run.db.assets := s.run.db.assets.put ⟨draws.assetId, draws.now, none⟩
      run.past := s.run.db :: s.run.past
      sources := s.sources.put ⟨draws.assetId, r.identity.userId.str⟩
      requests := s.requests.set i
        { r.to (.answered (.asset 201 draws.assetId)) with uploaded := some draws.assetId } }

def proceed (i : ℕ) (draws : Draws) : ApiRun :=
  match s.requests[i]? with
  | none => s
  | some r =>
    if uploads r then s.upload i r draws
    else { s with run := (s.handle dep r draws).1, requests := s.requests.set i (s.handle dep r draws).2 }

/-- A request that the middleware refuses changes nothing. -/
def arrive (headers : Headers) (sessions : String → Auth.Session) (route : Route)
    (identityId : UUID) : ApiRun :=
  match authenticate dep.config sessions s.identities identityId { headers with safe := route.safe } with
  | .error _ => s
  | .ok (identity, _, identities) =>
    { s with
      identities
      requests :=
        s.requests ++ [{ identity, headers := { headers with safe := route.safe }, sessions, route }] }

def step : ApiAct → ApiRun
  | .call call => { s with run := s.run.step Call.prog call }
  | .arrive headers sessions route identityId => s.arrive dep headers sessions route identityId
  | .proceed i draws => s.proceed dep i draws

/-- Admissions are made by requests only, and no two texts that are hashed to a key have one digest. -/
def Allowed : ApiAct → Prop
  | .call call => call.Sourced (s.run.db :: s.run.past) ∧ call.isAdmission = false
  | .arrive _ _ _ _ => True
  | .proceed i _ => ∀ r other text text', s.requests[i]? = some r → other ∈ s.requests →
    r.keyText = some text →
      other.keyText = some text' → dep.digest text = dep.digest text' → text = text'

inductive Reach : ApiRun → Prop
  | init : Reach {}
  | step {s : ApiRun} (act : ApiAct) (reach : Reach s) (allowed : s.Allowed dep act) : Reach (s.step dep act)

end ApiRun

end KenkuiServer.Api
