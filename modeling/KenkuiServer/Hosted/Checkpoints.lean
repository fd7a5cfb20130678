import KenkuiServer.Data.Json
import KenkuiServer.Hosted.Dispatches
import KenkuiServer.Storage.Checkpoints
import KenkuiServer.Storage.PostgresRetention

/-! Saving and restoring checkpoints, next to the calls of the other hosted processes and to retention. The
second transaction of a save keeps the row of its lease locked from its check to its commit, so that its
statements are separate steps; its writes are seen when it commits. -/
namespace KenkuiServer.Hosted
open Txn Data Jobs Storage

/-- What the module takes from the standard library: `hashlib.sha256` and `json`. -/
structure Libraries where
  hash : Hash
  dumps : Json → String
  loads : String → Except Error Json

/-- How far a call of `save` has come. A process that died counts as one that raised. -/
inductive SaveStage
  | started
  /-- The first transaction has committed. -/
  | tracked
  | uploaded
  /-- The second transaction has locked the lease and found the job running. -/
  | checked
  /-- It has updated the rows `ids`, of which nothing is seen before it commits. -/
  | demoted (ids : List String)
  | saved
  | raised (e : Error)
  deriving DecidableEq

namespace SaveStage

def locks : SaveStage → Bool
  | checked | demoted _ => true
  | _ => false

def rows : SaveStage → List String
  | demoted ids => ids
  | _ => []

def ended : SaveStage → Bool
  | saved | raised _ => true
  | _ => false

end SaveStage

/-- A call of `save`, with the identifier that it draws. -/
structure Save where
  store : HostedCheckpointStore
  key : String
  source : Bytes
  metadata : Json
  identifier : String
  stage : SaveStage := .started
  /-- `created_at` of its row. -/
  trackedAt : Option Time := none
  /-- The store that its second transaction checked, and the clock it was checked by. -/
  seen : Option (HostedDb × Time) := none

def Save.row (lib : Libraries) (save : Save) (createdAt : Time) : CheckpointRow where
  id := save.identifier
  jobId := save.store.jobId
  checkpointKey := save.key
  sha256 := (fileDigest lib.hash save.source).2
  sizeBytes := (fileDigest lib.hash save.source).1
  metadataJson := lib.dumps save.metadata
  createdAt := createdAt

/-- How far a call of `restore` has come. A process that died counts as one that raised. -/
inductive RestoreStage
  | started
  | found (row : CheckpointRow)
  | downloaded (row : CheckpointRow) (content : Bytes)
  /-- The file has the size and the hash of the row. -/
  | verified (row : CheckpointRow)
  /-- It has not. -/
  | mismatched
  | returned (metadata : Option Json)
  /-- It has raised `checkpoint_integrity_failed`. -/
  | rejected
  | raised (e : Error)

def RestoreStage.ended : RestoreStage → Bool
  | returned _ | rejected | raised _ => true
  | _ => false

/-- A call of `restore`, with the file that it leaves at its destination. -/
structure Restore where
  store : HostedCheckpointStore
  key : String
  destination : Option Bytes := none
  /-- The file was compared with its row, and is the one that was saved. -/
  verified : Bool := false
  stage : RestoreStage := .started

structure CheckpointRun where
  run : HostedRun
  checkpoints : Checkpoints := ∅
  objects : CheckpointObjects := ∅
  saves : List Save := []
  restores : List Restore := []
  /-- The saves whose second transaction has committed, newest first. -/
  published : List ℕ := []
  /-- The clock of the database. -/
  clock : Time := 0

/-- What a step of a save or restore meets: the reading of its process's clock and of the database's, whether
it fails (with its effect or without), and what a download delivers if not the object. -/
structure Turn where
  now : Time
  at' : Time
  fails : Option (Error × Bool) := none
  corrupt : Option Bytes := none

inductive CheckpointAct
  | call (call : Call)
  | save (store : HostedCheckpointStore) (key : String) (source : Bytes) (metadata : Json)
    (identifier : String)
  | work (i : ℕ) (turn : Turn)
  | restore (store : HostedCheckpointStore) (key : String)
  | read (j : ℕ) (turn : Turn)
  /-- The checkpoint transaction of a retention run. -/
  | retain (now : Time) (skipped : List String) (deletions : String → Deletion) (commits : Bool)

def clash : Error := .integrity "job_checkpoints_ready"

namespace CheckpointRun
variable (lib : Libraries) (s : CheckpointRun)

def locked (dispatchId : String) : Bool :=
  s.saves.any fun save => save.store.lease.1 = dispatchId ∧ save.stage.locks

/-- The next statement or request of save `i`: it waits for the lock of its lease. -/
def advance (i : ℕ) (save : Save) (turn : Turn) : CheckpointRun × Save :=
  match save.stage with
  | .started =>
    if s.locked save.store.lease.1 then (s, save)
    else match (save.store.check turn.now).run s.run.db with
      | .error e => (s, { save with stage := .raised e })
      | .ok _ => match s.checkpoints.insert (save.row lib turn.at') with
        | .error e => (s, { save with stage := .raised e })
        | .ok checkpoints =>
          ({ s with checkpoints }, { save with stage := .tracked, trackedAt := some turn.at' })
  | .tracked => ({ s with objects := s.objects.put ⟨save.identifier, save.source⟩ },
    { save with stage := .uploaded })
  | .uploaded =>
    if s.locked save.store.lease.1 then (s, save)
    else match (save.store.check turn.now).run s.run.db with
      | .error e => (s, { save with stage := .raised e })
      | .ok _ => (s, { save with stage := .checked, seen := some (s.run.db, turn.now) })
  | .checked => (s, { save with stage := .demoted (s.checkpoints.readyIds save.store.jobId save.key) })
  | .demoted ids =>
    match (s.checkpoints.demote ids).promote save.identifier with
    | .error e => (s, { save with stage := .raised e })
    | .ok checkpoints => ({ s with checkpoints, published := i :: s.published },
      { save with stage := .saved })
  | .saved | .raised _ => (s, save)

def setSave (i : ℕ) (save : Save) : CheckpointRun := { s with saves := s.saves.set i save }

def work (i : ℕ) (turn : Turn) : CheckpointRun :=
  match s.saves[i]? with
  | none => s
  | some save =>
    if save.stage.ended then s
    else match turn.fails with
      | none => (s.advance lib i save turn).1.setSave i (s.advance lib i save turn).2
      | some (e, false) => s.setSave i { save with stage := .raised e }
      | some (e, true) =>
        (s.advance lib i save turn).1.setSave i { (s.advance lib i save turn).2 with stage := .raised e }

def proceed (restore : Restore) (turn : Turn) : Restore :=
  match restore.stage with
  | .started =>
    if s.locked restore.store.lease.1 then restore
    else match (restore.store.check turn.now).run s.run.db with
      | .error e => { restore with stage := .raised e }
      | .ok _ => match s.checkpoints.selectReady restore.store.jobId restore.key with
        | none => { restore with stage := .returned none }
        | some row => { restore with stage := .found row }
  | .found row =>
    match turn.corrupt.or ((s.objects.get? row.id).map (·.content)) with
    | none => { restore with stage := .raised (.key row.id) }
    | some content => { restore with destination := some content, stage := .downloaded row content }
  | .downloaded row content =>
    if fileDigest lib.hash content ≠ (row.sizeBytes, row.sha256) then { restore with stage := .mismatched }
    else { restore with verified := true, stage := .verified row }
  | .mismatched => { restore with destination := none, stage := .rejected }
  | .verified row =>
    match lib.loads row.metadataJson with
    | .error e => { restore with stage := .raised e }
    | .ok metadata => { restore with stage := .returned (some metadata) }
  | .returned _ | .rejected | .raised _ => restore

def setRestore (j : ℕ) (restore : Restore) : CheckpointRun := { s with restores := s.restores.set j restore }

/-- The next step of restore `j`. One that fails with its effect has written what it writes: a download that
is cut off leaves the bytes that it delivered. -/
def read (j : ℕ) (turn : Turn) : CheckpointRun :=
  match s.restores[j]? with
  | none => s
  | some restore =>
    if restore.stage.ended then s
    else match turn.fails with
      | none => s.setRestore j (s.proceed lib restore turn)
      | some (e, false) => s.setRestore j { restore with stage := .raised e }
      | some (e, true) => s.setRestore j { s.proceed lib restore turn with stage := .raised e }

def deleteObjects (deletions : String → Deletion) : List String → CheckpointObjects → CheckpointObjects × Bool
  | [], objects => (objects, true)
  | id :: ids, objects =>
    match deletions id with
    | .deleted => deleteObjects deletions ids (objects.restrict (· ≠ id))
    | .raised true => (objects.restrict (· ≠ id), false)
    | .raised false => (objects, false)

/-- It passes over the rows that the saves have updated, and keeps every row unless it commits. -/
def retain (now : Time) (skipped : List String) (deletions : String → Deletion) (commits : Bool) :
    CheckpointRun :=
  let ids := PostgresRetention.selectCheckpoints s.run.db s.checkpoints now
    (skipped ++ s.saves.flatMap (·.stage.rows))
  let outcome := deleteObjects deletions ids s.objects
  { s with
    objects := outcome.1
    checkpoints := if outcome.2 ∧ commits then s.checkpoints.restrict (· ∉ ids) else s.checkpoints
    clock := now }

def call (call : Call) : CheckpointRun :=
  let run := s.run.step Call.prog call
  if s.saves.all fun save => save.stage.locks →
      run.db.leases.get? save.store.lease.1 = s.run.db.leases.get? save.store.lease.1 then { s with run }
  else s

def step : CheckpointAct → CheckpointRun
  | .call call => s.call call
  | .save store key source metadata identifier =>
    { s with saves := s.saves ++ [{ store, key, source, metadata, identifier }] }
  | .work i turn => { s.work lib i turn with clock := turn.at' }
  | .restore store key => { s with restores := s.restores ++ [{ store, key }] }
  | .read j turn => s.read lib j turn
  | .retain now skipped deletions commits => s.retain now skipped deletions commits

/-- Identifiers are drawn once, the clock of the database does not go back, and what fails from outside does
not call itself a clash. -/
def Allowed : CheckpointAct → Prop
  | .call call => Recovers s.run call
  | .save _ _ _ _ identifier => ∀ save ∈ s.saves, save.identifier ≠ identifier
  | .work _ turn => s.clock ≤ turn.at' ∧ ∀ e landed, turn.fails = some (e, landed) → e ≠ clash
  | .retain now _ _ _ => s.clock ≤ now
  | .restore _ _ | .read _ _ => True

/-- A save is over within 24 hours of its first transaction. -/
def Timely : CheckpointAct → Prop
  | .work i turn => s.Allowed (.work i turn) ∧ ∀ save t, s.saves[i]? = some save → save.stage.ended = false →
      save.trackedAt = some t → turn.at' ≤ t + 24 * 60 * 60
  | act => s.Allowed act

inductive Advanced (i : ℕ) (save : Save) (turn : Turn) : CheckpointRun × Save → Prop
  | waits : Advanced i save turn (s, save)
  | refused {e : Error} (calm : e ≠ clash) : Advanced i save turn (s, { save with stage := .raised e })
  | tracked {checkpoints : Checkpoints} (stage : save.stage = .started)
    (live : save.store.Live s.run.db turn.now)
      (inserted : s.checkpoints.insert (save.row lib turn.at') = .ok checkpoints) :
    Advanced i save turn ({ s with checkpoints }, { save with stage := .tracked, trackedAt := some turn.at' })
  | uploaded (stage : save.stage = .tracked) :
    Advanced i save turn
      ({ s with objects := s.objects.put ⟨save.identifier, save.source⟩ }, { save with stage := .uploaded })
  | checked (stage : save.stage = .uploaded) (free : s.locked save.store.lease.1 = false)
      (live : save.store.Live s.run.db turn.now) :
    Advanced i save turn (s, { save with stage := .checked, seen := some (s.run.db, turn.now) })
  | demoted (stage : save.stage = .checked) :
    Advanced i save turn
      (s, { save with stage := .demoted (s.checkpoints.readyIds save.store.jobId save.key) })
  | published {ids : List String} {checkpoints : Checkpoints} (stage : save.stage = .demoted ids)
      (promoted : (s.checkpoints.demote ids).promote save.identifier = .ok checkpoints) :
    Advanced i save turn
      ({ s with checkpoints, published := i :: s.published }, { save with stage := .saved })
  | clashed {ids : List String} {e : Error} (stage : save.stage = .demoted ids)
      (refused : (s.checkpoints.demote ids).promote save.identifier = .error e) :
    Advanced i save turn (s, { save with stage := .raised e })

theorem advance_spec (i : ℕ) (save : Save) (turn : Turn) :
    s.Advanced lib i save turn (s.advance lib i save turn) := by
  unfold advance
  cases hstage : save.stage with
  | started =>
    simp only
    by_cases hlocked : s.locked save.store.lease.1 = true
    · rw [if_pos hlocked]
      exact .waits
    rw [if_neg hlocked]
    cases hcheck : (save.store.check turn.now).run s.run.db with
    | error e => exact .refused (HostedCheckpointStore.check_error hcheck ▸ by decide)
    | ok r =>
      cases hinsert : s.checkpoints.insert (save.row lib turn.at') with
      | error e => exact .refused (Checkpoints.insert_error hinsert)
      | ok checkpoints => exact .tracked hstage (HostedCheckpointStore.check_live hcheck) hinsert
  | tracked => exact .uploaded hstage
  | uploaded =>
    simp only
    by_cases hlocked : s.locked save.store.lease.1 = true
    · rw [if_pos hlocked]
      exact .waits
    rw [if_neg hlocked]
    cases hcheck : (save.store.check turn.now).run s.run.db with
    | error e => exact .refused (HostedCheckpointStore.check_error hcheck ▸ by decide)
    | ok r => exact .checked hstage (by simpa using hlocked) (HostedCheckpointStore.check_live hcheck)
  | checked => exact .demoted hstage
  | demoted ids =>
    simp only
    cases hpromote : (s.checkpoints.demote ids).promote save.identifier with
    | error e => exact .clashed hstage hpromote
    | ok checkpoints => exact .published hstage hpromote
  | saved => exact .waits
  | raised e => exact .waits

inductive Reach (ok : CheckpointRun → CheckpointAct → Prop) : CheckpointRun → Prop
  | init : Reach ok { run := { db := {} } }
  | step {s : CheckpointRun} (act : CheckpointAct) (reach : Reach ok s) (allowed : ok s act) :
    Reach ok (s.step lib act)

end CheckpointRun

end KenkuiServer.Hosted
