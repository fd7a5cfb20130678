import KenkuiServer.Storage.Artifacts

/-! Publishing artifacts, next to the calls of the other hosted processes and to the two transactions of a
retention run that delete uploads. Every statement and every request to the bucket is a step of its own; what
a transaction of retention writes is seen when it commits. -/
namespace KenkuiServer.Hosted
open Txn Jobs Storage PostgresRetention

/-- How a statement or a request ends for its caller. When it raises it may have had its effect. -/
inductive Answer
  | ok
  | raised (landed : Bool)
  deriving DecidableEq

def Answer.lands : Answer → Bool
  | ok => true
  | raised landed => landed

/-- How far a call of `_publish` has come. A worker that died counts as one that raised. -/
inductive PublishStage
  | started
  | recorded
  | uploaded
  | raised
  deriving DecidableEq

/-- What comes of a step of a call that raises, or goes on to `next`. -/
def Answer.stage (answer : Answer) (next : PublishStage) :
    PublishStage := if answer = ok then next else .raised

/-- A call of `_publish`, by the attempt that holds the token. -/
structure Publication where
  jobId : String
  token : String
  /-- The content of the file at `output`. -/
  output : List UInt8
  stage : PublishStage := .started
  deriving DecidableEq

/-- `output.stem`, for the output `{job_id}.{token}.m4b`. -/
def Publication.identifier (pub : Publication) : String := pub.jobId ++ "." ++ pub.token

/-- The row that `_publish` inserts. -/
def Publication.row (pub : Publication) (id : String) (now : Time) : StoredObject where
  id := id
  objectKind := .temporary
  opaqueObjectKey := pub.identifier
  terminalAt := now
  resourceId := pub.identifier

/-- What it uploads. -/
def Publication.object (pub : Publication) : ArtifactObject := ⟨pub.identifier, pub.output⟩

/-- The transactions of a retention run that delete uploads, by what they select. -/
inductive Phase
  | artifacts
  | abandoned
  deriving DecidableEq

/-- One of them, with the rows that it has locked and the resources of these. -/
structure Sweep where
  phase : Phase
  now : Time
  todo : List (String × String)
  done : List (String × String) := []
  going : Bool := true

structure ArtifactRun where
  db : HostedDb := {}
  past : List HostedDb := []
  stored : StoredObjects := ∅
  objects : ArtifactObjects := ∅
  publications : Table Publication.identifier := ∅
  sweeps : List Sweep := []
  clock : Time := 0

inductive ArtifactAct
  | call (call : Call)
  | publish (jobId token : String) (output : List UInt8)
  | record (identifier id : String) (now : Time) (answer : Answer)
  | upload (identifier : String) (answer : Answer)
  | sweep (phase : Phase) (now : Time) (skipped : List String)
  | delete (k : ℕ) (deletion : Deletion)
  | finish (k : ℕ) (commits : Bool)
  | tick (now : Time)

namespace ArtifactRun
variable (s : ArtifactRun)

def setPublication (pub : Publication) : ArtifactRun := { s with publications := s.publications.put pub }

/-- The insert of the row, in a transaction of its own. -/
def record (identifier id : String) (now : Time) (answer : Answer) : ArtifactRun :=
  match s.publications.get? identifier with
  | none => s
  | some pub =>
    if pub.stage ≠ .started then s
    else if !answer.lands then s.setPublication { pub with stage := .raised }
    else match s.stored.insertOnce (pub.row id now) with
      | .error _ => s.setPublication { pub with stage := .raised }
      | .ok stored => { s with stored }.setPublication { pub with stage := answer.stage .recorded }

/-- `upload_artifact_file`. -/
def upload (identifier : String) (answer : Answer) : ArtifactRun :=
  match s.publications.get? identifier with
  | none => s
  | some pub =>
    if pub.stage ≠ .recorded then s
    else if !answer.lands then s.setPublication { pub with stage := .raised }
    else { s with objects := s.objects.put pub.object }.setPublication
      { pub with stage := answer.stage .uploaded }

/-- The rows locked by the transactions under way. -/
def locked (phase : Phase) : List String :=
  s.sweeps.flatMap fun sweep =>
    if sweep.phase = phase ∧ sweep.going then (sweep.todo ++ sweep.done).map (·.1) else []

def select (phase : Phase) (now : Time) (skipped : List String) : List (String × String) :=
  match phase with
  | .artifacts => selectArtifacts s.db now (skipped ++ s.locked .artifacts)
  | .abandoned => selectAbandoned s.db s.stored now (skipped ++ s.locked .abandoned)

def sweep (phase : Phase) (now : Time) (skipped : List String) : ArtifactRun :=
  { s with sweeps := s.sweeps ++ [{ phase, now, todo := s.select phase now skipped }] }

def setSweep (k : ℕ) (sweep : Sweep) : ArtifactRun := { s with sweeps := s.sweeps.set k sweep }

/-- `delete_artifact` of the next row, and the row's own statement. A deletion that raises rolls back. -/
def delete (k : ℕ) (deletion : Deletion) : ArtifactRun :=
  match s.sweeps[k]? with
  | none => s
  | some sweep =>
    match sweep.todo with
    | [] => s
    | item :: todo =>
      if !sweep.going then s
      else match deletion with
        | .deleted => { s with objects := s.objects.restrict (· ≠ item.2) }.setSweep k
            { sweep with todo, done := item :: sweep.done }
        | .raised true => { s with objects := s.objects.restrict (· ≠ item.2) }.setSweep k
          { sweep with going := false }
        | .raised false => s.setSweep k { sweep with going := false }

/-- The writes of a transaction that commits. -/
def apply (sweep : Sweep) : ArtifactRun :=
  match sweep.phase with
  | .artifacts =>
    { s with db := { s.db with artifacts := s.db.artifacts.restrict (· ∉ sweep.done.map (·.1)) } }
  | .abandoned => { s with stored := s.stored.markDeleted (sweep.done.map (·.1)) sweep.now }

/-- The end of a transaction, which commits when it has been through its rows, and rolls back at any time. -/
def finish (k : ℕ) (commits : Bool) : ArtifactRun :=
  match s.sweeps[k]? with
  | none => s
  | some sweep =>
    if !sweep.going then s
    else if !commits then s.setSweep k { sweep with going := false }
    else if sweep.todo ≠ [] then s
    else (s.apply sweep).setSweep k { sweep with going := false }

def step : ArtifactAct → ArtifactRun
  | .call call => { s with db := (call.prog.transaction s.db).2, past := s.db :: s.past }
  | .publish jobId token output => s.setPublication { jobId, token, output }
  | .record identifier id now answer => s.record identifier id now answer
  | .upload identifier answer => s.upload identifier answer
  | .sweep phase now skipped => s.sweep phase now skipped
  | .delete k deletion => s.delete k deletion
  | .finish k commits => s.finish k commits
  | .tick now => { s with clock := now }

/-- The row of the upload is no more than a day old. -/
def InTime (path : String) : Prop :=
  ∀ row ∈ s.stored.rows, row.resourceId = path → s.clock ≤ row.terminalAt + temporaryFor

instance (path : String) : Decidable (s.InTime path) :=
  inferInstanceAs (Decidable (∀ row ∈ s.stored.rows, row.resourceId = path →
    s.clock ≤ row.terminalAt + temporaryFor))

/-- An attempt publishes once, within the day that its worker has at most, and completes its job with what it
has published; the clock of the database does not go back. -/
def Timely : ArtifactAct → Prop
  | .call call => call.Permitted (s.db :: s.past) ∧ ∀ artifact, call.artifact? = some artifact →
      ∃ pub, s.publications.get? artifact.path = some pub ∧ pub.jobId = artifact.jobId ∧
        pub.stage = .uploaded ∧
        s.InTime artifact.path
  | .publish jobId token output =>
    s.publications.get? (Publication.identifier { jobId, token, output }) = none
  | .upload identifier _ => s.InTime identifier
  | .sweep _ now _ => now ≤ s.clock
  | .tick now => s.clock ≤ now
  | .record _ _ _ _ | .delete _ _ | .finish _ _ => True

inductive Reach : ArtifactRun → Prop
  | init : Reach {}
  | step {s : ArtifactRun} (act : ArtifactAct) (reach : Reach s) (allowed : s.Timely act) : Reach (s.step act)

/-- The job of the artifact has been over for 30 days. -/
def Outlived (jobId : String) : Prop :=
  ∃ row t, s.db.jobs.get? jobId = some row ∧ row.status.isTerminal = true ∧ row.terminalAt = some t ∧
    t + artifactFor < s.clock

/-- The row of the upload is more than a day old. -/
def Expired (path : String) : Prop :=
  ∃ row ∈ s.stored.rows, row.resourceId = path ∧ row.terminalAt + temporaryFor < s.clock

/-- What a transaction of retention has found of a row. -/
inductive Due : Phase → String × String → Prop
  | artifact (id path : String) (pub : Publication) (found : s.publications.get? path = some pub)
      (outlived : s.Outlived pub.jobId) : Due .artifacts (id, path)
  | abandoned (row : StoredObject) (found : row ∈ s.stored.rows)
    (late : row.terminalAt + temporaryFor < s.clock)
      (free : ∀ artifact ∈ s.db.artifacts.rows, artifact.path ≠ row.resourceId) :
      Due .abandoned (row.id, row.resourceId)

/-- The artifact is that of a publication of its job, whose output is there until the job has been over for 30
days. -/
def Kept (artifact : Artifact) : Prop :=
  ∃ pub job, s.publications.get? artifact.path = some pub ∧ pub.jobId = artifact.jobId ∧
    s.db.jobs.get? artifact.jobId = some job ∧ job.status = .succeeded ∧
      (s.objects.get? artifact.path = some ⟨artifact.path, pub.output⟩ ∨ s.Outlived artifact.jobId)

structure SweepSound (sweep : Sweep) : Prop where
  due : ∀ item ∈ sweep.todo ++ sweep.done, s.Due sweep.phase item
  gone : sweep.phase = .abandoned → ∀ item ∈ sweep.done, s.objects.get? item.2 = none

structure Sound : Prop where
  coupled : Coupled s.db
  later : ∀ d ∈ s.db :: s.past, Table.Later (fun r : JobRow => r.version) d.jobs s.db.jobs
  kinds : ∀ row ∈ s.stored.rows, row.objectKind = .temporary
  single : ∀ a ∈ s.stored.rows, ∀ b ∈ s.stored.rows, a.resourceId = b.resourceId → a = b
  known : ∀ row ∈ s.stored.rows, ∃ pub, s.publications.get? row.resourceId = some pub ∧ pub.stage ≠ .started
  marked : ∀ row ∈ s.stored.rows, row.deletedAt.isSome → row.terminalAt + temporaryFor < s.clock ∧
    s.objects.get? row.resourceId = none ∧ ∀ artifact ∈ s.db.artifacts.rows, artifact.path ≠ row.resourceId
  recorded : ∀ pub ∈ s.publications.rows, pub.stage = .recorded →
    ∃ row ∈ s.stored.rows, row.resourceId = pub.identifier
  uploaded : ∀ pub ∈ s.publications.rows, pub.stage = .uploaded →
    s.objects.get? pub.identifier = some ⟨pub.identifier, pub.output⟩ ∨ s.Expired pub.identifier ∨
      s.Outlived pub.jobId
  objects : ∀ object ∈ s.objects.rows, ∃ row ∈ s.stored.rows, row.resourceId = object.identifier
  artifacts : ∀ artifact ∈ s.db.artifacts.rows, s.Kept artifact
  sweeps : ∀ sweep ∈ s.sweeps, sweep.going = true → s.SweepSound sweep

/-- What every step keeps. -/
structure Later (s' : ArtifactRun) : Prop where
  clock : s.clock ≤ s'.clock
  publications : ∀ path pub, s.publications.get? path = some pub →
    ∃ pub', s'.publications.get? path = some pub' ∧ pub'.jobId = pub.jobId ∧ pub'.output = pub.output
  stored : ∀ row ∈ s.stored.rows, ∃ row' ∈ s'.stored.rows, row'.id = row.id ∧
    row'.resourceId = row.resourceId ∧
    row'.terminalAt = row.terminalAt
  ended : ∀ jobId row, s.db.jobs.get? jobId = some row → row.status.isTerminal = true →
    s'.db.jobs.get? jobId = some row

section
variable {s : ArtifactRun}

theorem Later.of_same {s' : ArtifactRun} (hclock : s.clock ≤ s'.clock)
    (hpublications : s'.publications = s.publications) (hstored : s'.stored = s.stored)
    (hjobs : s'.db.jobs = s.db.jobs) : s.Later s' := by
  refine ⟨hclock, ?_, ?_, ?_⟩
  · intro path pub hpub
    rw [hpublications]
    exact ⟨pub, hpub, rfl, rfl⟩
  · intro row hrow
    rw [hstored]
    exact ⟨row, hrow, rfl, rfl, rfl⟩
  · intro jobId row hrow _
    rw [hjobs]
    exact hrow

theorem Later.outlived {s' : ArtifactRun} (h : s.Later s') {jobId : String} (ho : s.Outlived jobId) :
    s'.Outlived jobId := by
  obtain ⟨row, t, hrow, hterminal, ht, hlt⟩ := ho
  exact ⟨row, t, h.ended jobId row hrow hterminal, hterminal, ht, hlt.trans_le h.clock⟩

theorem Later.expired {s' : ArtifactRun} (h : s.Later s') {path : String} (he : s.Expired path) :
    s'.Expired path := by
  obtain ⟨row, hrow, hpath, hlt⟩ := he
  obtain ⟨row', hrow', -, hresource, hat⟩ := h.stored row hrow
  refine ⟨row', hrow', hresource.trans hpath, ?_⟩
  rw [hat]
  exact hlt.trans_le h.clock

theorem Due.late {item : String × String} (h : s.Due .abandoned item) :
    ∃ row ∈ s.stored.rows, row.id = item.1 ∧ row.resourceId = item.2 ∧
      row.terminalAt + temporaryFor < s.clock ∧
      ∀ artifact ∈ s.db.artifacts.rows, artifact.path ≠ row.resourceId := by
  cases h with
  | abandoned row found late free => exact ⟨row, found, rfl, rfl, late, free⟩

theorem Later.due {s' : ArtifactRun} (h : s.Later s') {phase : Phase} {item : String × String}
    (hd : s.Due phase item) (hartifacts : ∀ artifact ∈ s'.db.artifacts.rows, artifact ∈ s.db.artifacts.rows ∨
      ¬ s.Expired artifact.path) :
    s'.Due phase item := by
  cases hd with
  | artifact id path pub found outlived =>
    obtain ⟨pub', hpub', hjob, -⟩ := h.publications path pub found
    exact .artifact id path pub' hpub' (hjob ▸ h.outlived outlived)
  | abandoned row found late free =>
    obtain ⟨row', hrow', hid, hresource, hat⟩ := h.stored row found
    rw [← hid, ← hresource]
    refine .abandoned row' hrow' (by rw [hat]; exact late.trans_le h.clock) fun artifact hartifact => ?_
    rw [hresource]
    rcases hartifacts artifact hartifact with hold | hnew
    · exact free artifact hold
    · intro hpath
      exact hnew ⟨row, found, hpath.symm, late⟩

theorem Later.kept {s' : ArtifactRun} (h : s.Later s') {artifact : Artifact} (hk : s.Kept artifact)
    (hobjects : ∀ pub, s.publications.get? artifact.path = some pub → pub.jobId = artifact.jobId →
      s.objects.get? artifact.path = some ⟨artifact.path, pub.output⟩ →
        s'.objects.get? artifact.path = some ⟨artifact.path, pub.output⟩ ∨ s'.Outlived artifact.jobId) :
    s'.Kept artifact := by
  obtain ⟨pub, job, hpub, hof, hjob, hstatus, hthere⟩ := hk
  obtain ⟨pub', hpub', hjob', houtput⟩ := h.publications _ pub hpub
  have hterminal : job.status.isTerminal = true := by rw [hstatus]; rfl
  refine ⟨pub', job, hpub', hjob'.trans hof, h.ended _ job hjob hterminal, hstatus, ?_⟩
  rw [houtput]
  rcases hthere with hthere | hold
  · exact hobjects pub hpub hof hthere
  · exact Or.inr (h.outlived hold)

theorem Later.uploaded {s' : ArtifactRun} (h : s.Later s') {pub : Publication}
    (hu : s.objects.get? pub.identifier = some ⟨pub.identifier, pub.output⟩ ∨ s.Expired pub.identifier ∨
      s.Outlived pub.jobId)
    (hobjects : ∀ object, s.objects.get? pub.identifier = some object →
      s'.objects.get? pub.identifier = some object ∨ s'.Expired pub.identifier ∨ s'.Outlived pub.jobId) :
    s'.objects.get? pub.identifier = some ⟨pub.identifier, pub.output⟩ ∨ s'.Expired pub.identifier ∨
      s'.Outlived pub.jobId := by
  rcases hu with hthere | hexpired | houtlived
  · exact hobjects _ hthere
  · exact Or.inr (Or.inl (h.expired hexpired))
  · exact Or.inr (Or.inr (h.outlived houtlived))

theorem Later.sweepSound {s' : ArtifactRun} (h : s.Later s') {sweep : Sweep} (hs : s.SweepSound sweep)
    (hartifacts : ∀ artifact ∈ s'.db.artifacts.rows, artifact ∈ s.db.artifacts.rows ∨
      ¬ s.Expired artifact.path)
    (hobjects : ∀ path, s.Expired path → s.objects.get? path = none → s'.objects.get? path = none) :
    s'.SweepSound sweep := by
  refine ⟨fun item hitem => h.due (hs.due item hitem) hartifacts, fun hphase item hitem => ?_⟩
  have hdue := hs.due item (List.mem_append_right _ hitem)
  rw [hphase] at hdue
  obtain ⟨row, hrow, -, hpath, hlate, -⟩ := hdue.late
  exact hobjects _ ⟨row, hrow, hpath, hlate⟩ (hs.gone hphase item hitem)

theorem Sound.tick (h : s.Sound) {now : Time} (hnow : s.clock ≤ now) : Sound { s with clock := now } := by
  have hlater : s.Later { s with clock := now } :=
    ⟨hnow, fun _ pub hpub => ⟨pub, hpub, rfl, rfl⟩, fun row hrow => ⟨row, hrow, rfl, rfl, rfl⟩,
      fun _ _ hrow _ => hrow⟩
  refine ⟨h.coupled, h.later, h.kinds, h.single, h.known, ?_, h.recorded, ?_, h.objects, ?_, ?_⟩
  · intro row hrow hmarked
    obtain ⟨hlate, hrest⟩ := h.marked row hrow hmarked
    exact ⟨hlate.trans_le hnow, hrest⟩
  · intro pub hpub hstage
    exact hlater.uploaded (h.uploaded pub hpub hstage) fun _ hobject => Or.inl hobject
  · intro artifact hartifact
    exact hlater.kept (h.artifacts artifact hartifact) fun _ _ _ hobject => Or.inl hobject
  · intro sweep hsweep hgoing
    exact hlater.sweepSound (h.sweeps sweep hsweep hgoing) (fun _ hmem => Or.inl hmem) fun _ _ hnone => hnone

/-- A call of `_publish` begins or goes on. -/
theorem Sound.setPublication (h : s.Sound) {next : Publication}
    (hsame : ∀ pub, s.publications.get? next.identifier = some pub → next.jobId = pub.jobId ∧
      next.output = pub.output)
    (hstarted : next.stage = .started → ∀ row ∈ s.stored.rows, row.resourceId ≠ next.identifier)
    (hrecorded : next.stage = .recorded → ∃ row ∈ s.stored.rows, row.resourceId = next.identifier)
    (huploaded : next.stage = .uploaded →
      s.objects.get? next.identifier = some ⟨next.identifier, next.output⟩ ∨ s.Expired next.identifier ∨
        s.Outlived next.jobId) : (s.setPublication next).Sound := by
  have hlater : s.Later (s.setPublication next) := by
    refine ⟨le_rfl, fun path pub hpub => ?_, fun row hrow => ⟨row, hrow, rfl, rfl, rfl⟩,
      fun _ _ hrow _ => hrow⟩
    show ∃ pub', (s.publications.put next).get? path = some pub' ∧ _
    rw [Table.get?_put]
    split_ifs with hpath
    · subst hpath
      exact ⟨next, rfl, hsame pub hpub⟩
    · exact ⟨pub, hpub, rfl, rfl⟩
  have hmem : ∀ pub ∈ (s.publications.put next).rows, pub = next ∨ pub ∈ s.publications.rows := by
    intro pub hpub
    rcases (Table.mem_put _ _ _).mp hpub with hnew | ⟨hold, -⟩
    · exact Or.inl hnew
    · exact Or.inr hold
  refine ⟨h.coupled, h.later, h.kinds, h.single, ?_, h.marked, ?_, ?_, h.objects, ?_, ?_⟩
  · intro row hrow
    obtain ⟨pub, hpub, hstage⟩ := h.known row hrow
    show ∃ pub', (s.publications.put next).get? row.resourceId = some pub' ∧ _
    rw [Table.get?_put]
    split_ifs with hpath
    · exact ⟨next, rfl, fun hnew => hstarted hnew row hrow hpath.symm⟩
    · exact ⟨pub, hpub, hstage⟩
  · intro pub hpub hstage
    rcases hmem pub hpub with rfl | hold
    · exact hrecorded hstage
    · exact h.recorded pub hold hstage
  · intro pub hpub hstage
    rcases hmem pub hpub with rfl | hold
    · exact huploaded hstage
    · exact h.uploaded pub hold hstage
  · intro artifact hartifact
    exact hlater.kept (h.artifacts artifact hartifact) fun _ _ _ hobject => Or.inl hobject
  · intro sweep hsweep hgoing
    exact hlater.sweepSound (h.sweeps sweep hsweep hgoing) (fun _ hmem => Or.inl hmem) fun _ _ hnone => hnone

theorem Sound.raise (h : s.Sound) {pub : Publication} (hpub : s.publications.get? pub.identifier = some pub) :
    (s.setPublication { pub with stage := .raised }).Sound := by
  refine h.setPublication (fun old hold => ?_) (fun hstage => by cases hstage) (fun hstage => by cases hstage)
    fun hstage => by cases hstage
  have heq : some pub = some old := hpub.symm.trans hold
  cases heq
  exact ⟨rfl, rfl⟩

/-- The first row of a resource. -/
theorem Sound.insert (h : s.Sound) {row : StoredObject} {pub : Publication}
    (hpub : s.publications.get? row.resourceId = some pub) (hstage : pub.stage ≠ .started)
    (hkind : row.objectKind = .temporary) (hlive : row.deletedAt = none) (hid : s.stored.get? row.id = none)
    (hfresh : ∀ old ∈ s.stored.rows, old.resourceId ≠ row.resourceId) :
    Sound { s with stored := s.stored.put row } := by
  have hold : ∀ old ∈ s.stored.rows, old ∈ (s.stored.put row).rows := by
    intro old hmem
    refine (Table.mem_put _ _ _).mpr (Or.inr ⟨hmem, fun hsame => ?_⟩)
    rw [← hsame, Table.get?_of_mem hmem] at hid
    cases hid
  have hmem : ∀ other ∈ (s.stored.put row).rows, other = row ∨ other ∈ s.stored.rows := by
    intro other hother
    rcases (Table.mem_put _ _ _).mp hother with hnew | ⟨hmem, -⟩
    · exact Or.inl hnew
    · exact Or.inr hmem
  have hlater : s.Later { s with stored := s.stored.put row } :=
    ⟨le_rfl, fun _ pub hpub => ⟨pub, hpub, rfl, rfl⟩, fun old hmem => ⟨old, hold old hmem, rfl, rfl, rfl⟩,
      fun _ _ hrow _ => hrow⟩
  refine ⟨h.coupled, h.later, ?_, ?_, ?_, ?_, ?_, ?_, ?_, ?_, ?_⟩
  · intro other hother
    rcases hmem other hother with rfl | hother
    · exact hkind
    · exact h.kinds other hother
  · intro a ha b hb hsame
    rcases hmem a ha with rfl | holda
    · rcases hmem b hb with rfl | holdb
      · rfl
      · exact absurd hsame.symm (hfresh b holdb)
    · rcases hmem b hb with rfl | holdb
      · exact absurd hsame (hfresh a holda)
      · exact h.single a holda b holdb hsame
  · intro other hother
    rcases hmem other hother with rfl | hother
    · exact ⟨pub, hpub, hstage⟩
    · exact h.known other hother
  · intro other hother hmarked
    rcases hmem other hother with rfl | hother
    · rw [hlive] at hmarked
      cases hmarked
    · exact h.marked other hother hmarked
  · intro other hother hrecorded
    obtain ⟨old, hmem, hpath⟩ := h.recorded other hother hrecorded
    exact ⟨old, hold old hmem, hpath⟩
  · intro other hother hstage
    exact hlater.uploaded (h.uploaded other hother hstage) fun _ hobject => Or.inl hobject
  · intro object hobject
    obtain ⟨old, hmem, hpath⟩ := h.objects object hobject
    exact ⟨old, hold old hmem, hpath⟩
  · intro artifact hartifact
    exact hlater.kept (h.artifacts artifact hartifact) fun _ _ _ hobject => Or.inl hobject
  · intro sweep hsweep hgoing
    exact hlater.sweepSound (h.sweeps sweep hsweep hgoing) (fun _ hmem => Or.inl hmem) fun _ _ hnone => hnone

theorem identifier_of_get? {identifier : String} {pub : Publication}
    (h : s.publications.get? identifier = some pub) : pub.identifier = identifier := Table.key_of_get? h

theorem found_setPublication (pub : Publication) :
    (s.setPublication pub).publications.get? pub.identifier = some pub :=
      Table.get?_put_self s.publications pub

theorem Sound.record (h : s.Sound) (identifier id : String) (now : Time) (answer : Answer) :
    (s.record identifier id now answer).Sound := by
  unfold ArtifactRun.record
  cases hpub : s.publications.get? identifier with
  | none => exact h
  | some pub =>
    simp only
    have hident : pub.identifier = identifier := identifier_of_get? hpub
    subst hident
    have hraised := h.raise hpub
    split_ifs with hstage
    · exact h
    · exact hraised
    have hstarted : pub.stage = .started := not_not.mp hstage
    have hfresh : ∀ old ∈ s.stored.rows, old.resourceId ≠ pub.identifier := by
      intro old hold hsame
      obtain ⟨other, hother, hlater⟩ := h.known old hold
      rw [hsame, hpub] at hother
      cases hother
      exact hlater hstarted
    cases hinsert : s.stored.insertOnce (pub.row id now) with
    | error e => exact hraised
    | ok stored =>
      obtain ⟨hid, rfl⟩ := StoredObjects.insertOnce_ok hinsert hfresh
      have hfound : (s.setPublication { pub with stage := .raised }).publications.get? pub.identifier =
          some { pub with stage := .raised } := found_setPublication { pub with stage := .raised }
      -- the row is inserted while the publication counts as raised, which then goes on
      have hinserted := hraised.insert hfound PublishStage.noConfusion rfl rfl hid hfresh
      have hstep : Sound (ArtifactRun.setPublication _ { pub with stage := answer.stage .recorded }) :=
        hinserted.setPublication ?_ ?_ ?_ ?_
      · have hput : (s.publications.put { pub with stage := .raised }).put
            { pub with stage := answer.stage .recorded } =
              s.publications.put { pub with stage := answer.stage .recorded } := Table.put_put _ rfl
        simpa only [ArtifactRun.setPublication, hput] using hstep
      · intro old hold
        have heq : some { pub with stage := .raised } = some old := hfound.symm.trans hold
        cases heq
        exact ⟨rfl, rfl⟩
      · intro hnew
        cases answer <;> cases hnew
      · intro _
        exact ⟨_, Table.mem_put_self _ _, rfl⟩
      · intro hnew
        cases answer <;> cases hnew

theorem objects_put_of_ne {objects : ArtifactObjects} {pub : Publication} {path : String}
    (h : pub.identifier ≠ path) :
    (objects.put pub.object).get? path = objects.get? path :=
  Table.get?_put_of_ne objects (show pub.object.identifier ≠ path from h)

theorem Sound.upload (h : s.Sound) {identifier : String} (hin : s.InTime identifier) (answer : Answer) :
    (s.upload identifier answer).Sound := by
  unfold ArtifactRun.upload
  cases hpub : s.publications.get? identifier with
  | none => exact h
  | some pub =>
    simp only
    have hident : pub.identifier = identifier := identifier_of_get? hpub
    subst hident
    have hmem : pub ∈ s.publications.rows := Table.mem_of_get? hpub
    split_ifs with hstage
    · exact h
    · exact h.raise hpub
    have hrecorded : pub.stage = .recorded := not_not.mp hstage
    have hother : ∀ {path : String}, s.Expired path → pub.identifier ≠ path := by
      rintro path ⟨row, hrow, hpath, hlate⟩ rfl
      exact absurd (hin row hrow hpath) (not_le.mpr hlate)
    have hlater : s.Later { s with objects := s.objects.put pub.object } := .of_same le_rfl rfl rfl rfl
    have hput : Sound { s with objects := s.objects.put pub.object } := by
      refine ⟨h.coupled, h.later, h.kinds, h.single, h.known, ?_, h.recorded, ?_, ?_, ?_, ?_⟩
      · intro row hrow hmarked
        obtain ⟨hlate, hgone, hfree⟩ := h.marked row hrow hmarked
        refine ⟨hlate, ?_, hfree⟩
        show (s.objects.put _).get? row.resourceId = none
        rw [objects_put_of_ne (hother ⟨row, hrow, rfl, hlate⟩)]
        exact hgone
      · intro other hmem' hstage'
        refine hlater.uploaded (h.uploaded other hmem' hstage') fun object hobject => Or.inl ?_
        show (s.objects.put _).get? other.identifier = some object
        have hne : pub.identifier ≠ other.identifier := by
          intro hsame
          have heq : pub = other := Table.eq_of_mem hmem hmem' hsame
          rw [← heq, hrecorded] at hstage'
          cases hstage'
        rw [objects_put_of_ne hne]
        exact hobject
      · intro object hobject
        rcases (Table.mem_put _ _ _).mp hobject with rfl | ⟨hold, -⟩
        · exact h.recorded pub hmem hrecorded
        · exact h.objects object hold
      · intro artifact hartifact
        refine hlater.kept (h.artifacts artifact hartifact) fun other hfound _ hobject => Or.inl ?_
        show (s.objects.put _).get? artifact.path = _
        rw [Table.get?_put]
        split_ifs with hpath
        · have hident : pub.identifier = artifact.path := hpath
          rw [← hident, hpub] at hfound
          cases hfound
          rw [← hident]
          rfl
        · exact hobject
      · intro sweep hsweep hgoing
        refine hlater.sweepSound (h.sweeps sweep hsweep hgoing) (fun _ hmem => Or.inl hmem)
          fun path hexpired hnone => ?_
        show (s.objects.put _).get? path = none
        rw [objects_put_of_ne (hother hexpired)]
        exact hnone
    refine hput.setPublication (fun old hold => ?_) ?_ ?_ ?_
    · have heq : some pub = some old := hpub.symm.trans hold
      cases heq
      exact ⟨rfl, rfl⟩
    · intro hnew
      cases answer <;> cases hnew
    · intro hnew
      cases answer <;> cases hnew
    · intro _
      exact Or.inl (Table.get?_put_self _ _)

theorem Sound.setSweep (h : s.Sound) (k : ℕ) {next : Sweep} (hnext : next.going = true → s.SweepSound next) :
    (s.setSweep k next).Sound := by
  have hlater : s.Later (s.setSweep k next) := .of_same le_rfl rfl rfl rfl
  refine ⟨h.coupled, h.later, h.kinds, h.single, h.known, h.marked, h.recorded, h.uploaded, h.objects,
    h.artifacts, ?_⟩
  intro sweep hsweep hgoing
  refine hlater.sweepSound ?_ (fun _ hmem => Or.inl hmem) fun _ _ hnone => hnone
  rcases List.mem_or_eq_of_mem_set hsweep with hold | rfl
  · exact h.sweeps sweep hold hgoing
  · exact hnext hgoing

/-- What a transaction selects is due. -/
theorem Sound.select_due (h : s.Sound) {phase : Phase} {now : Time} {skipped : List String}
    (hnow : now ≤ s.clock) {item : String × String} (hitem : item ∈ s.select phase now skipped) :
    s.Due phase item := by
  cases phase with
  | artifacts =>
    obtain ⟨artifact, hartifact, rfl, t, ht, hlt⟩ := mem_selectArtifacts hitem
    obtain ⟨pub, job, hpub, hof, hjob, hstatus, -⟩ := h.artifacts artifact hartifact
    refine .artifact _ _ pub hpub ⟨job, t, hof ▸ hjob, by rw [hstatus]; rfl, ?_, ?_⟩
    · rw [endedAt, hjob] at ht
      exact ht
    · linarith
  | abandoned =>
    obtain ⟨row, hrow, rfl, habandoned⟩ := mem_selectAbandoned hitem
    obtain ⟨-, -, hlate, hfree⟩ := of_decide_eq_true habandoned
    exact .abandoned row hrow (by linarith) hfree

theorem Sound.sweep (h : s.Sound) (phase : Phase) {now : Time} (skipped : List String)
    (hnow : now ≤ s.clock) :
    (s.sweep phase now skipped).Sound := by
  have hlater : s.Later (s.sweep phase now skipped) := .of_same le_rfl rfl rfl rfl
  refine ⟨h.coupled, h.later, h.kinds, h.single, h.known, h.marked, h.recorded, h.uploaded, h.objects,
    h.artifacts, ?_⟩
  intro other hother hgoing
  refine hlater.sweepSound ?_ (fun _ hmem => Or.inl hmem) fun _ _ hnone => hnone
  rcases List.mem_append.mp hother with hold | hnew
  · exact h.sweeps other hold hgoing
  · obtain rfl := List.mem_singleton.mp hnew
    constructor
    · intro item hitem
      rw [List.append_nil] at hitem
      exact h.select_due hnow hitem
    · intro _ item hitem
      cases hitem

theorem objects_restrict_self (objects : ArtifactObjects) (path : String) :
    (objects.restrict (· ≠ path)).get? path = none := by
  cases hget : (objects.restrict (· ≠ path)).get? path with
  | none => rfl
  | some object =>
    have hne := (Table.mem_restrict.mp (Table.mem_of_get? hget)).2
    exact absurd (Table.key_of_get? hget) (of_decide_eq_true hne)

theorem identifier_found {pub : Publication} (h : pub ∈ s.publications.rows) :
    s.publications.get? pub.identifier = some pub := Table.get?_of_mem h

/-- The deletion of an object that a transaction found due. -/
theorem Sound.remove (h : s.Sound) {phase : Phase} {item : String × String} (hdue : s.Due phase item) :
    Sound { s with objects := s.objects.restrict (· ≠ item.2) } := by
  have hlater : s.Later { s with objects := s.objects.restrict (· ≠ item.2) } := .of_same le_rfl rfl rfl rfl
  have hkept : ∀ path, path ≠ item.2 → (s.objects.restrict (· ≠ item.2)).get? path = s.objects.get? path := by
    intro path hne
    exact Table.get?_restrict _ (decide_eq_true hne)
  refine ⟨h.coupled, h.later, h.kinds, h.single, h.known, ?_, h.recorded, ?_, ?_, ?_, ?_⟩
  · intro row hrow hmarked
    obtain ⟨hlate, hgone, hfree⟩ := h.marked row hrow hmarked
    exact ⟨hlate, Table.get?_restrict_none _ hgone, hfree⟩
  · intro pub hpub hstage
    refine hlater.uploaded (h.uploaded pub hpub hstage) fun object hobject => ?_
    by_cases hpath : pub.identifier = item.2
    · cases hdue with
      | artifact id path other found outlived =>
        have hident : pub.identifier = path := hpath
        rw [← hident, identifier_found hpub] at found
        cases found
        exact Or.inr (Or.inr outlived)
      | abandoned row found late free => exact Or.inr (Or.inl ⟨row, found, hpath.symm, late⟩)
    · exact Or.inl ((hkept _ hpath).trans hobject)
  · intro object hobject
    exact h.objects object (Table.mem_restrict.mp hobject).1
  · intro artifact hartifact
    refine hlater.kept (h.artifacts artifact hartifact) fun pub hpub hof hobject => ?_
    by_cases hpath : artifact.path = item.2
    · cases hdue with
      | artifact id path other found outlived =>
        have hident : artifact.path = path := hpath
        rw [← hident, hpub] at found
        cases found
        exact Or.inr (hof ▸ outlived)
      | abandoned row found late free => exact absurd hpath (free artifact hartifact)
    · exact Or.inl ((hkept _ hpath).trans hobject)
  · intro sweep hsweep hgoing
    exact hlater.sweepSound (h.sweeps sweep hsweep hgoing) (fun _ hmem => Or.inl hmem) fun _ _ hnone =>
      Table.get?_restrict_none _ hnone

theorem Sound.delete (h : s.Sound) (k : ℕ) (deletion : Deletion) : (s.delete k deletion).Sound := by
  unfold ArtifactRun.delete
  cases hk : s.sweeps[k]? with
  | none => exact h
  | some sweep =>
    simp only
    have hmem : sweep ∈ s.sweeps := List.mem_of_getElem? hk
    cases htodo : sweep.todo with
    | nil => exact h
    | cons item todo =>
      simp only
      by_cases hgoing : sweep.going = true
      · have hsound := h.sweeps sweep hmem hgoing
        have hdue : s.Due sweep.phase item := hsound.due item (by rw [htodo]; simp)
        have hremoved := h.remove hdue
        rw [hgoing, Bool.not_true, if_neg Bool.false_ne_true]
        rcases deletion with _ | gone | gone
        · refine hremoved.setSweep k fun _ => ?_
          have hafter : SweepSound { s with objects := s.objects.restrict (· ≠ item.2) } sweep :=
            hremoved.sweeps sweep hmem hgoing
          constructor
          · intro other hother
            refine hafter.due other ?_
            simp only [htodo, List.mem_append, List.mem_cons] at hother ⊢
            tauto
          · intro hphase other hother
            rcases List.mem_cons.mp hother with rfl | hold
            · exact objects_restrict_self _ _
            · exact hafter.gone hphase other hold
        · exact h.setSweep k Bool.noConfusion
        · exact hremoved.setSweep k Bool.noConfusion
      · rw [Bool.not_eq_true] at hgoing
        rw [hgoing, Bool.not_false, if_pos rfl]
        exact h

theorem Sound.deleteArtifacts (h : s.Sound) (ids : List String) :
    Sound { s with db := { s.db with artifacts := s.db.artifacts.restrict (· ∉ ids) } } := by
  have hlater : s.Later { s with db := { s.db with artifacts := s.db.artifacts.restrict (· ∉ ids) } } :=
    .of_same le_rfl rfl rfl rfl
  have hsub : ∀ artifact ∈ (s.db.artifacts.restrict (· ∉ ids)).rows, artifact ∈ s.db.artifacts.rows :=
    fun artifact hartifact => (Table.mem_restrict.mp hartifact).1
  refine ⟨⟨h.coupled.books, h.coupled.coupled⟩, ?_, h.kinds, h.single, h.known, ?_, h.recorded, ?_,
    h.objects, ?_, ?_⟩
  · intro d hd
    rcases List.mem_cons.mp hd with rfl | hpast
    · exact .refl _
    · exact h.later d (List.mem_cons_of_mem _ hpast)
  · intro row hrow hmarked
    obtain ⟨hlate, hgone, hfree⟩ := h.marked row hrow hmarked
    exact ⟨hlate, hgone, fun artifact hartifact => hfree artifact (hsub artifact hartifact)⟩
  · intro pub hpub hstage
    exact hlater.uploaded (h.uploaded pub hpub hstage) fun _ hobject => Or.inl hobject
  · intro artifact hartifact
    exact hlater.kept (h.artifacts artifact (hsub artifact hartifact)) fun _ _ _ hobject => Or.inl hobject
  · intro sweep hsweep hgoing
    exact hlater.sweepSound (h.sweeps sweep hsweep hgoing) (fun artifact hmem => Or.inl (hsub artifact hmem))
      fun _ _ hnone => hnone

theorem Sound.markDeleted (h : s.Sound) {ids : List String} (now : Time)
    (hids : ∀ id ∈ ids, ∃ path, s.Due .abandoned (id, path) ∧ s.objects.get? path = none) :
    Sound { s with stored := s.stored.markDeleted ids now } := by
  have hold : ∀ row ∈ (s.stored.markDeleted ids now).rows, ∃ old ∈ s.stored.rows, row.id = old.id ∧
      row.objectKind = old.objectKind ∧ row.resourceId = old.resourceId ∧ row.terminalAt = old.terminalAt ∧
        (row = old ∨ old.id ∈ ids) := by
    intro row hrow
    obtain ⟨old, hmem, rfl⟩ := StoredObjects.mem_markDeleted.mp hrow
    refine ⟨old, hmem, ?_⟩
    split_ifs with hid
    · exact ⟨rfl, rfl, rfl, rfl, Or.inr hid⟩
    · exact ⟨rfl, rfl, rfl, rfl, Or.inl rfl⟩
  have hnew : ∀ old ∈ s.stored.rows, ∃ row ∈ (s.stored.markDeleted ids now).rows, row.id = old.id ∧
      row.resourceId = old.resourceId ∧ row.terminalAt = old.terminalAt := by
    intro old hmem
    refine ⟨_, StoredObjects.mem_markDeleted.mpr ⟨old, hmem, rfl⟩, ?_⟩
    split_ifs <;> exact ⟨rfl, rfl, rfl⟩
  have hlater : s.Later { s with stored := s.stored.markDeleted ids now } :=
    ⟨le_rfl, fun _ pub hpub => ⟨pub, hpub, rfl, rfl⟩, hnew, fun _ _ hrow _ => hrow⟩
  refine ⟨h.coupled, h.later, ?_, ?_, ?_, ?_, ?_, ?_, ?_, ?_, ?_⟩
  · intro row hrow
    obtain ⟨old, hmem, -, hkind, -⟩ := hold row hrow
    rw [hkind]
    exact h.kinds old hmem
  · intro a ha b hb hsame
    obtain ⟨olda, hmema, hida, -, hresa, -⟩ := hold a ha
    obtain ⟨oldb, hmemb, hidb, -, hresb, -⟩ := hold b hb
    have hone := h.single olda hmema oldb hmemb (by rw [← hresa, ← hresb, hsame])
    exact Table.eq_of_mem ha hb (by rw [hida, hidb, hone])
  · intro row hrow
    obtain ⟨old, hmem, -, -, hresource, -⟩ := hold row hrow
    rw [hresource]
    exact h.known old hmem
  · intro row hrow hmarked
    obtain ⟨old, hmem, hid, -, hresource, hat, hcases⟩ := hold row hrow
    rcases hcases with rfl | hin
    · exact h.marked row hmem hmarked
    · obtain ⟨path, hdue, hgone⟩ := hids _ hin
      obtain ⟨found, hfound, hkey, hpath, hlate, hfree⟩ := hdue.late
      obtain rfl : found = old := Table.eq_of_mem hfound hmem hkey
      rw [hat, hresource]
      exact ⟨hlate, hpath ▸ hgone, hfree⟩
  · intro pub hpub hstage
    obtain ⟨old, hmem, hpath⟩ := h.recorded pub hpub hstage
    obtain ⟨row, hrow, -, hresource, -⟩ := hnew old hmem
    exact ⟨row, hrow, hresource.trans hpath⟩
  · intro pub hpub hstage
    exact hlater.uploaded (h.uploaded pub hpub hstage) fun _ hobject => Or.inl hobject
  · intro object hobject
    obtain ⟨old, hmem, hpath⟩ := h.objects object hobject
    obtain ⟨row, hrow, -, hresource, -⟩ := hnew old hmem
    exact ⟨row, hrow, hresource.trans hpath⟩
  · intro artifact hartifact
    exact hlater.kept (h.artifacts artifact hartifact) fun _ _ _ hobject => Or.inl hobject
  · intro sweep hsweep hgoing
    exact hlater.sweepSound (h.sweeps sweep hsweep hgoing) (fun _ hmem => Or.inl hmem) fun _ _ hnone => hnone

theorem Sound.finish (h : s.Sound) (k : ℕ) (commits : Bool) : (s.finish k commits).Sound := by
  unfold ArtifactRun.finish
  cases hk : s.sweeps[k]? with
  | none => exact h
  | some sweep =>
    simp only
    split_ifs with hover hrolls htodo
    · exact h
    · exact h.setSweep k Bool.noConfusion
    · exact h
    have hgoing : sweep.going = true := by simpa using hover
    have hsound := h.sweeps sweep (List.mem_of_getElem? hk) hgoing
    have happlied : (s.apply sweep).Sound := by
      unfold ArtifactRun.apply
      cases hphase : sweep.phase with
      | artifacts => exact h.deleteArtifacts _
      | abandoned =>
        refine h.markDeleted _ fun id hid => ?_
        obtain ⟨item, hitem, rfl⟩ := List.mem_map.mp hid
        exact ⟨item.2, hphase ▸ hsound.due item (List.mem_append_right _ hitem),
          hsound.gone hphase item hitem⟩
    exact happlied.setSweep k Bool.noConfusion

theorem InTime.fresh {path : String} (h : s.InTime path) : ¬ s.Expired path := by
  rintro ⟨row, hrow, hpath, hlate⟩
  exact absurd (h row hrow hpath) (not_le.mpr hlate)

/-- The job that a call completes was not over. -/
theorem not_outlived {d' : HostedDb} (hstep : JobStep s.db d') {row next : JobRow}
    (hmoved : JobMoved s.db d' row next) :
    ¬ s.Outlived row.id := by
  rintro ⟨old, t, hold, hterminal, -⟩
  have hsame := ended_row hstep hold hterminal
  have hfound := hmoved.found
  rw [hold] at hfound
  cases hfound
  rw [hmoved.jobs, ← hmoved.id, Table.get?_put_self] at hsame
  cases hsame
  have hversion := hmoved.version
  omega

theorem Sound.call (h : s.Sound) {call : Call} (hcall : s.Timely (.call call)) :
    (s.step (.call call)).Sound := by
  obtain ⟨hpermitted, hpublished⟩ := hcall
  have hkept := Call.conserves call s.db h.coupled.books
  simp only [ArtifactRun.step, Prog.transaction]
  cases hrun : call.prog.run s.db with
  | error e =>
    have hlater : s.Later { s with past := s.db :: s.past } := .of_same le_rfl rfl rfl rfl
    refine ⟨h.coupled, ?_, h.kinds, h.single, h.known, h.marked, h.recorded, h.uploaded, h.objects,
      h.artifacts, ?_⟩
    · intro d hd
      rcases List.mem_cons.mp hd with rfl | hpast
      · exact .refl _
      · exact h.later d hpast
    · intro sweep hsweep hgoing
      exact hlater.sweepSound (h.sweeps sweep hsweep hgoing) (fun _ hmem => Or.inl hmem)
        fun _ _ hnone => hnone
  | ok r =>
    obtain ⟨reply, d'⟩ := r
    rw [hrun] at hkept
    have hstep := call.jobStep hpermitted h.coupled h.later hrun
    have hlater : s.Later { s with db := d', past := s.db :: s.past } :=
      ⟨le_rfl, fun _ pub hpub => ⟨pub, hpub, rfl, rfl⟩, fun row hrow => ⟨row, hrow, rfl, rfl, rfl⟩,
        fun _ _ hrow hterminal => ended_row hstep hrow hterminal⟩
    -- an artifact that was not there before is that of an upload in time, of a job that the call completes
    have hartifacts : ∀ artifact ∈ d'.artifacts.rows, artifact ∈ s.db.artifacts.rows ∨
        (¬ s.Expired artifact.path ∧ Kept { s with db := d', past := s.db :: s.past } artifact) := by
      intro artifact hartifact
      obtain hsame | ⟨new, row, next, hnew, hput, hmoved, hrow, hstatus⟩ :=
        call.artifacts_cases hpermitted h.coupled.books hrun
      · exact Or.inl (hsame ▸ hartifact)
      rw [hput] at hartifact
      rcases (Table.mem_put _ _ _).mp hartifact with rfl | ⟨hold, -⟩
      · obtain ⟨pub, hpub, hof, hstage, hin⟩ := hpublished artifact hnew
        refine Or.inr ⟨hin.fresh, pub, next, hpub, hof, ?_, hstatus, Or.inl ?_⟩
        · show d'.jobs.get? artifact.jobId = some next
          rw [hmoved.jobs, ← hrow, ← hmoved.id]
          exact Table.get?_put_self _ _
        · have hident := identifier_of_get? hpub
          rcases h.uploaded pub (Table.mem_of_get? hpub) hstage with hthere | hexpired | houtlived
          · rwa [hident] at hthere
          · exact absurd (hident ▸ hexpired) hin.fresh
          · rw [hof, ← hrow] at houtlived
            exact absurd houtlived (not_outlived hstep hmoved)
      · exact Or.inl hold
    refine ⟨hstep.coupled h.coupled hkept, ?_, h.kinds, h.single, h.known, ?_, h.recorded, ?_,
      h.objects, ?_, ?_⟩
    · intro d hd
      rcases List.mem_cons.mp hd with rfl | hpast
      · exact .refl _
      · exact (h.later d hpast).trans hstep.later
    · intro row hrow hmarked
      obtain ⟨hlate, hgone, hfree⟩ := h.marked row hrow hmarked
      refine ⟨hlate, hgone, fun artifact hartifact => ?_⟩
      rcases hartifacts artifact hartifact with hold | ⟨hfresh, -⟩
      · exact hfree artifact hold
      · intro hpath
        exact hfresh ⟨row, hrow, hpath.symm, hlate⟩
    · intro pub hpub hstage
      exact hlater.uploaded (h.uploaded pub hpub hstage) fun _ hobject => Or.inl hobject
    · intro artifact hartifact
      rcases hartifacts artifact hartifact with hold | ⟨-, hnew⟩
      · exact hlater.kept (h.artifacts artifact hold) fun _ _ _ hobject => Or.inl hobject
      · exact hnew
    · intro sweep hsweep hgoing
      exact hlater.sweepSound (h.sweeps sweep hsweep hgoing)
        (fun artifact hmem => (hartifacts artifact hmem).imp_right And.left) fun _ _ hnone => hnone

theorem Sound.step (h : s.Sound) {act : ArtifactAct} (hact : s.Timely act) : (s.step act).Sound := by
  cases act with
  | call call => exact h.call hact
  | publish jobId token output =>
    refine h.setPublication (fun pub hpub => ?_) (fun _ row hrow hsame => ?_) (fun hstage => by cases hstage)
      fun hstage => by cases hstage
    · have hnone : s.publications.get? (Publication.identifier { jobId, token, output }) = none := hact
      rw [hnone] at hpub
      cases hpub
    · obtain ⟨pub, hpub, -⟩ := h.known row hrow
      have hnone : s.publications.get? (Publication.identifier { jobId, token, output }) = none := hact
      rw [hsame, hnone] at hpub
      cases hpub
  | record identifier id now answer => exact h.record identifier id now answer
  | upload identifier answer => exact h.upload hact answer
  | sweep phase now skipped => exact h.sweep phase skipped hact
  | delete k deletion => exact h.delete k deletion
  | finish k commits => exact h.finish k commits
  | tick now => exact h.tick hact

theorem sound_of_reach (h : Reach s) : s.Sound := by
  induction h with
  | init =>
    refine ⟨⟨Opening.books ⟨by simp, rfl, rfl, rfl, rfl⟩, by simp⟩, ?_, ?_, ?_, ?_, ?_, ?_, ?_, ?_, ?_, ?_⟩
    · simpa using Table.Later.refl _
    all_goals simp
  | step act reach allowed ih => exact ih.step allowed

end

/-- A job of a funded account; its worker uploads an output and dies before it can complete the job. -/
def sampleCrashed : ArtifactRun :=
  [.call (.accountForIdentity "account" "lot" "identity" 5),
    .call (.admitJob "authorization" sampleJob ⟨"dispatch", "job", "pending", 0⟩ "account" "identity" 3 none),
    .call (.claimExecution "dispatch" 1 30 3 "first" 0 0),
    .call (.update sampleJob .dispatchRequested "running" none (some ("dispatch", "first")) none 1 1),
    .publish "job" "first" [77, 52, 66], .record "job.first" "row" 2 .ok,
      .upload "job.first" (.raised true)].foldl step {}

def sampleSnapshot : Job := { sampleJob with status := .running, version := 1, progress := .running }

def sampleArtifact : Artifact := ⟨"artifact", "job", "job.second", "m4b"⟩

/-- The second attempt publishes, and completes the job with what it has uploaded. -/
def samplePublished : ArtifactRun :=
  [.call (.claimExecution "dispatch" 1 30 3 "second" 40 40), .publish "job" "second" [77, 52, 65],
    .record "job.second" "row2" 41 .ok, .upload "job.second" .ok].foldl step sampleCrashed

def sampleCompleted : ArtifactRun := samplePublished.step
  (.call (.update sampleSnapshot .completed "completed" (some sampleArtifact)
    (some ("dispatch", "second")) none 42 42))

/-- Two days later a retention run finds the abandoned upload, but the storage fails. -/
def sampleFailed : ArtifactRun :=
  [.tick 172842, .sweep .abandoned 172842 [], .delete 0 (.raised false)].foldl step sampleCompleted

/-- The next run deletes it. -/
def sampleSwept : ArtifactRun :=
  [.sweep .abandoned 172842 [], .delete 1 .deleted, .finish 1 true, .sweep .artifacts 172842 []].foldl
    step sampleFailed

theorem reach_sampleCrashed : Reach sampleCrashed := by
  have hfunded : Reach (step {} (.call (.accountForIdentity "account" "lot" "identity" 5))) :=
    Reach.init.step _ ⟨trivial, fun _ h => by cases h⟩
  have hadmitted := hfunded.step
    (.call (.admitJob "authorization" sampleJob ⟨"dispatch", "job", "pending", 0⟩
      "account" "identity" 3 none))
    ⟨rfl, fun _ h => by cases h⟩
  have hclaimed := hadmitted.step (.call (.claimExecution "dispatch" 1 30 3 "first" 0 0))
    ⟨trivial, fun _ h => by cases h⟩
  have hstarted := hclaimed.step
    (.call (.update sampleJob .dispatchRequested "running" none (some ("dispatch", "first")) none 1 1))
    ⟨⟨_, List.mem_cons_self, by decide +kernel⟩, fun _ h => by cases h⟩
  have hpublished := hstarted.step (.publish "job" "first" [77, 52, 66]) rfl
  have hrecorded := hpublished.step (.record "job.first" "row" 2 .ok) trivial
  exact hrecorded.step (.upload "job.first" (.raised true)) (by decide +kernel : InTime _ "job.first")

theorem reach_sampleCompleted : Reach sampleCompleted := by
  have hclaimed := reach_sampleCrashed.step (.call (.claimExecution "dispatch" 1 30 3 "second" 40 40))
    ⟨trivial, fun _ h => by cases h⟩
  have hpublished := hclaimed.step (.publish "job" "second" [77, 52, 65])
    (by decide +kernel : Table.get? _ "job.second" = none)
  have hrecorded := hpublished.step (.record "job.second" "row2" 41 .ok) trivial
  have huploaded := hrecorded.step (.upload "job.second" .ok) (by decide +kernel : InTime _ "job.second")
  refine huploaded.step _ ⟨⟨_, List.mem_cons_self, by decide +kernel⟩, fun artifact hartifact => ?_⟩
  cases hartifact
  exact ⟨⟨"job", "second", [77, 52, 65], .uploaded⟩, by decide +kernel, rfl, rfl, by decide +kernel⟩

theorem reach_sampleFailed : Reach sampleFailed := by
  have hlater := reach_sampleCompleted.step (.tick 172842) (by decide +kernel : (0 : Time) ≤ 172842)
  have hselected := hlater.step (.sweep .abandoned 172842 []) (le_refl (172842 : Time))
  exact hselected.step (.delete 0 (.raised false)) trivial

theorem reach_sampleSwept : Reach sampleSwept := by
  have hselected := reach_sampleFailed.step (.sweep .abandoned 172842 [])
    (by decide +kernel : (172842 : Time) ≤ _)
  have hdeleted := hselected.step (.delete 1 .deleted) trivial
  have hfinished := hdeleted.step (.finish 1 true) trivial
  exact hfinished.step (.sweep .artifacts 172842 []) (by decide +kernel : (172842 : Time) ≤ _)

/-- An artifact's object is the output that was published for its job, until the job has been over for 30
days. -/
theorem artifact_kept {s : ArtifactRun} (h : Reach s) (artifact : Artifact)
    (hartifact : artifact ∈ s.db.artifacts.rows) :
    ∃ pub, s.publications.get? artifact.path = some pub ∧ pub.jobId = artifact.jobId ∧
      (s.objects.get? artifact.path = some ⟨artifact.path, pub.output⟩ ∨ s.Outlived artifact.jobId) := by
  obtain ⟨pub, job, hpub, hof, -, -, hthere⟩ := (sound_of_reach h).artifacts artifact hartifact
  exact ⟨pub, hpub, hof, hthere⟩

theorem artifact_kept_swept :
    sampleSwept.objects.rows = [⟨"job.second", [77, 52, 65]⟩] ∧
      sampleArtifact ∈ sampleSwept.db.artifacts.rows ∧
      ∃ pub, sampleSwept.publications.get? "job.second" = some pub ∧ pub.jobId = "job" ∧
        (sampleSwept.objects.get? "job.second" = some ⟨"job.second", pub.output⟩ ∨
          sampleSwept.Outlived "job") := by
  have hmem : sampleArtifact ∈ sampleSwept.db.artifacts.rows := by decide +kernel
  exact ⟨by decide +kernel, hmem, artifact_kept reach_sampleSwept sampleArtifact hmem⟩

/-- No object is lost sight of: it is an artifact's, or of an upload that retention finds abandoned once it
is a day old. -/
theorem upload_reclaimable {s : ArtifactRun} (h : Reach s) (object : ArtifactObject)
    (hobject : object ∈ s.objects.rows) :
    (∃ artifact ∈ s.db.artifacts.rows, artifact.path = object.identifier) ∨
      ∃ row ∈ s.stored.rows, row.resourceId = object.identifier ∧
        ∀ now, row.terminalAt + temporaryFor < now → row.abandoned s.db now = true := by
  have hsound := sound_of_reach h
  obtain ⟨row, hrow, hpath⟩ := hsound.objects object hobject
  by_cases hused : ∃ artifact ∈ s.db.artifacts.rows, artifact.path = object.identifier
  · exact Or.inl hused
  refine Or.inr ⟨row, hrow, hpath, fun now hnow =>
    decide_eq_true ⟨hsound.kinds row hrow, ?_, by linarith, ?_⟩⟩
  · by_contra hmarked
    obtain ⟨-, hgone, -⟩ := hsound.marked row hrow (Option.isSome_iff_ne_none.mpr hmarked)
    rw [hpath, Table.get?_of_mem hobject] at hgone
    cases hgone
  · intro artifact hartifact hsame
    exact hused ⟨artifact, hartifact, hsame.trans hpath⟩

theorem upload_reclaimable_failed :
    sampleFailed.objects.rows = [⟨"job.first", [77, 52, 66]⟩, ⟨"job.second", [77, 52, 65]⟩] ∧
      ((∃ artifact ∈ sampleFailed.db.artifacts.rows, artifact.path = "job.first") ∨
        ∃ row ∈ sampleFailed.stored.rows, row.resourceId = "job.first" ∧
          ∀ now, row.terminalAt + temporaryFor < now → row.abandoned sampleFailed.db now = true) := by
  have hrows : sampleFailed.objects.rows = [⟨"job.first", [77, 52, 66]⟩, ⟨"job.second", [77, 52, 65]⟩] := by
    decide +kernel
  refine ⟨hrows, upload_reclaimable reach_sampleFailed ⟨"job.first", [77, 52, 66]⟩ ?_⟩
  rw [hrows]
  exact List.mem_cons_self

end ArtifactRun

end KenkuiServer.Hosted
