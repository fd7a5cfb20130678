import KenkuiServer.Storage.Schema
import Mathlib.Data.List.Sort

/-! Deletion of expired sources: the first transaction of a hosted retention run. -/
namespace KenkuiServer.Storage
open Txn Jobs

/-- How the deletion of one stored object ends. It may raise with the object gone or still there. -/
inductive Deletion
  | deleted
  | raised (gone : Bool)
  deriving DecidableEq

/-- `interval '24 hours'`. -/
def sourceFor : Time := 24 * 60 * 60

/-- No job of the source is still going, or has ended in the last 24 hours. -/
def HostedDb.sourceExpired (d : HostedDb) (now : Time) (assetId : String) : Bool :=
  d.jobs.rows.all fun row => row.spec.sourceId = assetId → row.terminalAt.any (· ≤ now - sourceFor)

namespace PostgresRetention

/-- The rows that the `SELECT` finds on its snapshot, `ORDER BY created_at`. -/
def selectSources (now : Time) : Statement (List String) :=
  .select fun d => ((d.assets.rows.filter fun row =>
    row.deletedAt = none ∧ row.createdAt < now - sourceFor ∧ d.sourceExpired now row.id).insertionSort
      fun row row' => row.createdAt ≤ row'.createdAt).map (·.id)

/-- `LIMIT 100 FOR UPDATE OF a SKIP LOCKED`: the rows that it has found are locked one after the other, but
for those `skipped`. A row that another transaction has changed meanwhile is looked at again; its jobs are
not. -/
def lockSources (found skipped : List String) : Statement (List String) where
  exec d := .ok ((found.filter fun id => id ∉ skipped ∧
    (d.assets.get? id).any (·.deletedAt = none)).take 100, [])
  lock d := ((found.filter fun id => id ∉ skipped ∧
    (d.assets.get? id).any (·.deletedAt = none)).take 100).map .asset

/-- `objects.delete_source`. -/
def deleteObject (assetId : String) : Statement Unit where
  exec _ := .ok ((), [.object assetId])

/-- `UPDATE assets SET deleted_at=now() WHERE id`. -/
def markDeleted (assetId : String) (now : Time) : Statement ℕ :=
  .update fun d =>
    match d.assets.get? assetId with
    | none => .ok none
    | some row => .ok (some (.asset { row with deletedAt := some now }))

def deleteSource (assetId : String) : Deletion → Procedure Unit
  | .deleted => (deleteObject assetId).issue
  | .raised true => do
    (deleteObject assetId).issue
    .raise (.runtime "object_store")
  | .raised false => .raise (.runtime "object_store")

def deleteSources (now : Time) (deletions : String → Deletion) : List String → Procedure ℕ
  | [] => return 0
  | assetId :: sources => do
    deleteSource assetId (deletions assetId)
    let _ ← (markDeleted assetId now).issue
    let deleted ← deleteSources now deletions sources
    return deleted + 1

/-- The source transaction of `run`. -/
def runSources (now : Time) (skipped : List String) (deletions : String → Deletion) : Procedure ℕ := do
  let found ← (selectSources now).issue
  let sources ← (lockSources found skipped).issue
  deleteSources now deletions sources

section
variable {P : Write → Prop} {Q : Error → Prop}

theorem deleteSource_emits (hobject : ∀ id, P (.object id)) (hQ : Q (.runtime "object_store"))
    (assetId : String) (deletion : Deletion) : (deleteSource assetId deletion).Emits P Q := by
  have hdelete : (deleteObject assetId).Emits P Q := by
    intro d
    simpa [deleteObject] using hobject assetId
  cases deletion with
  | deleted => exact ⟨hdelete, fun _ => trivial⟩
  | raised gone =>
    cases gone with
    | true => exact ⟨hdelete, fun _ => hQ⟩
    | false => exact hQ

theorem deleteSources_emits (hasset : ∀ row, P (.asset row)) (hobject : ∀ id, P (.object id))
    (hQ : Q (.runtime "object_store")) (now : Time) (deletions : String → Deletion) (sources : List String) :
    (deleteSources now deletions sources).Emits P Q := by
  induction sources with
  | nil => trivial
  | cons assetId sources ih =>
    refine (deleteSource_emits hobject hQ assetId _).bind fun _ => ?_
    refine ⟨?_, fun _ => ih.bind fun _ => trivial⟩
    refine Stmt.emits_update fun d => ?_
    cases d.assets.get? assetId with
    | none => trivial
    | some row => exact hasset _

theorem runSources_emits (hasset : ∀ row, P (.asset row)) (hobject : ∀ id, P (.object id))
    (hQ : Q (.runtime "object_store")) (now : Time) (skipped : List String) (deletions : String → Deletion) :
    (runSources now skipped deletions).Emits P Q := by
  refine ⟨Stmt.emits_select _, fun found => ⟨fun d => ?_, fun sources => ?_⟩⟩
  · simp [lockSources]
  · exact deleteSources_emits hasset hobject hQ now deletions sources

end

end PostgresRetention

end KenkuiServer.Storage
