import KenkuiServer.Storage.Effects
import Mathlib.Data.List.Sort
import Mathlib.Tactic.Linarith

/-! Lease-fenced checkpoint manifests: the table of a job's checkpoints, with what the statements of
`HostedCheckpointStore` and of the retention of checkpoints do to it. -/
namespace KenkuiServer.Storage
open Txn Jobs

abbrev Bytes := List UInt8

/-- A `hashlib` object, fed block by block. -/
structure Hash where
  State : Type
  new : State
  update : State → Bytes → State
  hexdigest : State → String

/-- Feeding two blocks is feeding their concatenation. -/
structure Hash.Streams (hash : Hash) : Prop where
  nil : ∀ s, hash.update s [] = s
  append : ∀ s a b, hash.update (hash.update s a) b = hash.update s (a ++ b)

/-- `stream.read(1024 * 1024)`. -/
def blockSize : ℕ := 1024 * 1024

/-- `while block := stream.read(..)`, with `left` of the file to read. -/
def digestLoop (hash : Hash) : ℕ → Bytes → ℕ → hash.State → ℕ × hash.State
  | 0, _, size, digest => (size, digest)
  | fuel + 1, left, size, digest =>
    let block := left.take blockSize
    if block = [] then (size, digest)
    else digestLoop hash fuel (left.drop blockSize) (size + block.length) (hash.update digest block)

/-- Every block but the last read holds a byte, so that the file's length bounds them. -/
def fileDigest (hash : Hash) (content : Bytes) : ℕ × String :=
  let (size, digest) := digestLoop hash content.length content 0 hash.new
  (size, hash.hexdigest digest)

section
variable {hash : Hash}

theorem digestLoop_eq (h : hash.Streams) {fuel : ℕ} {left : Bytes} (hfuel : left.length ≤ fuel) (size : ℕ)
    (digest : hash.State) :
    digestLoop hash fuel left size digest = (size + left.length, hash.update digest left) := by
  induction fuel generalizing left size digest with
  | zero =>
    obtain rfl : left = [] := List.length_eq_zero_iff.mp (by omega)
    rw [digestLoop, h.nil]
    rfl
  | succ fuel ih =>
    have hsplit : left.take blockSize ++ left.drop blockSize = left := List.take_append_drop _ left
    have hlength := congrArg List.length hsplit
    rw [List.length_append] at hlength
    simp only [digestLoop]
    split_ifs with hblock
    · have hnil : left = [] := by
        have hzero : (left.take blockSize).length = 0 := List.length_eq_zero_iff.mpr hblock
        rw [List.length_take] at hzero
        have hpositive : 0 < blockSize := by decide
        exact List.length_eq_zero_iff.mp (by omega)
      rw [hnil, h.nil]
      rfl
    · have hpositive : 0 < (left.take blockSize).length := List.length_pos_iff.mpr hblock
      rw [ih (by omega), h.append, hsplit, ← hlength, Nat.add_assoc]

/-- The blocks do not show: what is compared is the size and the hash of the file as a whole. -/
theorem fileDigest_eq (h : hash.Streams) (content : Bytes) :
    fileDigest hash content = (content.length, hash.hexdigest (hash.update hash.new content)) := by
  unfold fileDigest
  rw [digestLoop_eq h le_rfl]
  simp

end

structure CheckpointRow where
  id : String
  jobId : String
  checkpointKey : String
  sha256 : String
  sizeBytes : ℕ
  metadataJson : String
  ready : Bool := false
  createdAt : Time
  deriving DecidableEq, Repr

abbrev Checkpoints := Table CheckpointRow.id

/-- The row that `WHERE job_id AND checkpoint_key AND ready` is about. -/
def CheckpointRow.readyFor (row : CheckpointRow) (jobId key : String) : Bool :=
  row.ready ∧ row.jobId = jobId ∧ row.checkpointKey = key

namespace Checkpoints
variable (c : Checkpoints)

/-- `INSERT INTO job_checkpoints`. -/
def insert (row : CheckpointRow) : Except Error Checkpoints :=
  if row.sizeBytes = 0 then .error (.integrity "job_checkpoints_size_bytes_check")
  else if (c.get? row.id).isSome then .error (.integrity "job_checkpoints_pkey")
  else .ok (c.put row)

def selectReady (jobId key : String) : Option CheckpointRow := c.rows.find? (·.readyFor jobId key)

/-- The rows that `UPDATE job_checkpoints SET ready=FALSE WHERE job_id AND checkpoint_key AND ready`
writes. -/
def readyIds (jobId key : String) : List String := (c.rows.filter (·.readyFor jobId key)).map (·.id)

def demote (ids : List String) : Checkpoints :=
  c.map (fun row => if row.id ∈ ids then { row with ready := false } else row) fun row => by
    split_ifs <;> rfl

/-- `UPDATE job_checkpoints SET ready=TRUE WHERE id`, under the unique index of the ready rows. -/
def promote (identifier : String) : Except Error Checkpoints :=
  match c.get? identifier with
  | none => .ok c
  | some row =>
    if c.rows.any fun other => other.id ≠ identifier ∧ other.readyFor row.jobId row.checkpointKey then
      .error (.integrity "job_checkpoints_ready")
    else .ok (c.put { row with ready := true })

section
variable {c c' : Checkpoints} {row : CheckpointRow}

theorem readyFor_iff {jobId key : String} :
    row.readyFor jobId key = true ↔ row.ready = true ∧ row.jobId = jobId ∧ row.checkpointKey = key := by
  simp [CheckpointRow.readyFor]

theorem insert_ok (h : c.insert row = .ok c') : c.get? row.id = none ∧ c' = c.put row := by
  unfold insert at h
  split_ifs at h with hsize hkey
  cases h
  exact ⟨by simpa using hkey, rfl⟩

theorem insert_error {e : Error} (h : c.insert row = .error e) : e ≠ .integrity "job_checkpoints_ready" := by
  unfold insert at h
  split_ifs at h <;> cases h <;> decide

theorem mem_readyIds {jobId key id : String} :
    id ∈ c.readyIds jobId key ↔ ∃ row ∈ c.rows, row.readyFor jobId key = true ∧ row.id = id := by
  simp only [readyIds, List.mem_map, List.mem_filter, and_assoc]

theorem mem_demote {ids : List String} (h : row ∈ (c.demote ids).rows) :
    ∃ old ∈ c.rows, row = { old with ready := row.ready } ∧
      (row.ready = true → row = old ∧ old.id ∉ ids) := by
  obtain ⟨old, hold, rfl⟩ := List.mem_map.mp h
  refine ⟨old, hold, ?_⟩
  split_ifs with hid
  · exact ⟨rfl, fun hready => by cases hready⟩
  · exact ⟨rfl, fun _ => ⟨rfl, hid⟩⟩

theorem get?_demote (ids : List String) (id : String) :
    (c.demote ids).get? id =
      (c.get? id).map fun row => if row.id ∈ ids then { row with ready := false } else row :=
        Table.get?_map _ _ _ _

theorem promote_ok {identifier : String} (h : c.promote identifier = .ok c') :
    (c.get? identifier = none ∧ c' = c) ∨ ∃ row, c.get? identifier = some row ∧
      c' = c.put { row with ready := true } ∧
      ∀ other ∈ c.rows, other.id ≠ identifier → other.readyFor row.jobId row.checkpointKey = false := by
  unfold promote at h
  cases hget : c.get? identifier with
  | none =>
    rw [hget] at h
    cases h
    exact Or.inl ⟨rfl, rfl⟩
  | some row =>
    simp only [hget] at h
    split_ifs at h with hclash
    cases h
    refine Or.inr ⟨row, rfl, rfl, fun other hother hne => ?_⟩
    by_contra hready
    refine hclash (List.any_eq_true.mpr ⟨other, hother, ?_⟩)
    simpa using ⟨hne, by simpa using hready⟩

theorem get?_promote {identifier : String} (h : c.promote identifier = .ok c') (id : String) :
    c'.get? id = (c.get? id).map fun row => if id = identifier then { row with ready := true } else row := by
  rcases promote_ok h with ⟨hnone, rfl⟩ | ⟨row, hrow, rfl, -⟩
  · split_ifs with hid
    · rw [hid, hnone]
      rfl
    · simp
  · have hkey : row.id = identifier := Table.key_of_get? hrow
    rw [Table.get?_put]
    by_cases hid : id = identifier
    · rw [if_pos (hkey.trans hid.symm), hid, hrow]
      simp
    · have hne : ¬ row.id = id := fun heq => hid (heq.symm.trans hkey)
      rw [if_neg hne]
      simp [hid]

theorem promote_error {identifier : String} {e : Error} (h : c.promote identifier = .error e) :
    ∃ row, c.get? identifier = some row ∧
      ∃ other ∈ c.rows, other.id ≠ identifier ∧ other.readyFor row.jobId row.checkpointKey = true := by
  unfold promote at h
  cases hget : c.get? identifier with
  | none =>
    rw [hget] at h
    cases h
  | some row =>
    simp only [hget] at h
    split_ifs at h with hclash
    obtain ⟨other, hother, hdiffers⟩ := List.any_eq_true.mp hclash
    exact ⟨row, rfl, other, hother, of_decide_eq_true hdiffers⟩

theorem selectReady_some {jobId key : String} (h : c.selectReady jobId key = some row) :
    row ∈ c.rows ∧ row.readyFor jobId key = true :=
      ⟨List.mem_of_find?_eq_some h, by simpa using List.find?_some h⟩

end

end Checkpoints

/-- A checkpoint's object in the private bucket. -/
structure CheckpointObject where
  identifier : String
  content : Bytes

abbrev CheckpointObjects := Table CheckpointObject.identifier

/-- A single job's checkpoints. -/
structure HostedCheckpointStore where
  jobId : String
  lease : Lease

namespace HostedCheckpointStore
open PostgresExecution
variable (store : HostedCheckpointStore)

/-- `SELECT j.status FROM jobs j JOIN dispatches d ON d.job_id=j.id WHERE d.id AND j.id`. -/
def selectStatus : Statement (Option JobStatus) :=
  .select fun d => ((d.dispatchJob store.lease.1).filter (·.id = store.jobId)).map (·.status)

/-- `_check`, at the start of a transaction. -/
def check (now : Time) : Procedure Unit := do
  checkLease (some store.lease) now
  let status ← store.selectStatus.issue
  .raiseIf (status ≠ some .running) .staleWrite

/-- What a check that passes has seen. -/
structure Live (d : HostedDb) (now : Time) : Prop where
  lease : ∃ row, d.leases.get? store.lease.1 = some row ∧ row.token = store.lease.2 ∧ now < row.expiresAt
  running : ∃ dispatch job, d.dispatches.get? store.lease.1 = some dispatch ∧ dispatch.jobId = store.jobId ∧
    d.jobs.get? store.jobId = some job ∧ job.status = .running

variable {store} {d d' : HostedDb} {now : Time}

theorem check_live {u : Unit} (h : (store.check now).run d = .ok (u, d')) : store.Live d now := by
  unfold check checkLease at h
  simp only [issue_bind, selectLeaseForUpdate, Prog.step_bind, Prog.run_selectForUpdate] at h
  cases hlease : d.leases.get? store.lease.1 with
  | none =>
    rw [hlease] at h
    cases h
  | some row =>
    simp only [hlease] at h
    split_ifs at h with hstale
    · cases h
    simp only [Prog.pure_def, Prog.ret_bind, selectStatus, Prog.run_select] at h
    have hfound : ((d.dispatchJob store.lease.1).filter (·.id = store.jobId)).map (·.status) =
        some .running := by
      by_contra hstatus
      rw [Prog.raiseIf, if_pos hstatus] at h
      cases h
    obtain ⟨job, hjob, hrunning⟩ := Option.map_eq_some_iff.mp hfound
    obtain ⟨hdispatchJob, hid⟩ := Option.filter_eq_some_iff.mp hjob
    have hid : job.id = store.jobId := of_decide_eq_true hid
    simp only [HostedDb.dispatchJob, Option.bind_eq_bind, Option.bind_eq_some_iff] at hdispatchJob
    obtain ⟨dispatch, hdispatch, hget⟩ := hdispatchJob
    have hkey : job.id = dispatch.jobId := ((d.jobs.get?_eq_some_iff _ job).mp hget).2
    have hown : dispatch.jobId = store.jobId := hkey.symm.trans hid
    constructor
    · refine ⟨row, hlease, ?_, ?_⟩
      · by_contra hne
        exact hstale (Or.inl hne)
      · by_contra hle
        exact hstale (Or.inr (Rat.not_lt.mp hle))
    · exact ⟨dispatch, job, hdispatch, hown, hown ▸ hget, hrunning⟩

theorem check_run (h : store.Live d now) : (store.check now).run d = .ok ((), d) := by
  obtain ⟨row, hrow, htoken, hlive⟩ := h.lease
  obtain ⟨dispatch, job, hdispatch, hof, hjob, hrunning⟩ := h.running
  have hid : job.id = store.jobId := ((d.jobs.get?_eq_some_iff _ job).mp hjob).2
  have hstatus : ((d.dispatchJob store.lease.1).filter (·.id = store.jobId)).map (·.status) =
      some .running := by
    simp [HostedDb.dispatchJob, hdispatch, hof, hjob, hid, hrunning]
  have hfresh : ¬ (row.token ≠ store.lease.2 ∨ row.expiresAt ≤ now) := by
    rintro (hne | hle)
    · exact hne htoken
    · exact absurd hlive (Rat.not_lt.mpr hle)
  unfold check checkLease
  simp only [issue_bind, selectLeaseForUpdate, Prog.step_bind, Prog.run_selectForUpdate, hrow, if_neg hfresh,
    Prog.pure_def, Prog.ret_bind, selectStatus, Prog.run_select, hstatus]
  rfl

theorem check_error {e : Error} (h : (store.check now).run d = .error e) : e = .staleWrite := by
  have hemits : (store.check now).Emits (fun _ : Write => True) (· = .staleWrite) :=
    (checkLease_emits (Q := (· = .staleWrite)) rfl).bind fun _ =>
      ⟨Stmt.emits_select _, fun _ => (Prog.emits_raiseIf _ _).mpr fun _ => rfl⟩
  have hkept := hemits.keeps (I := fun _ => True) (fun _ _ _ _ => trivial) d trivial
  simpa [h] using hkept

end HostedCheckpointStore

/-- `interval '7 days'`. -/
def checkpointFor : Time := 7 * 24 * 60 * 60

/-- What the retention query finds a checkpoint of a job by. -/
def CheckpointRow.expired (row : CheckpointRow) (job : JobRow) (now : Time) : Bool :=
  (!row.ready ∧ row.createdAt < now - 24 * 60 * 60) ∨
    (job.status = .succeeded ∧ job.terminalAt.any (· < now - 24 * 60 * 60)) ∨
    ((job.status = .failed ∨ job.status = .cancelled) ∧ job.terminalAt.any (· < now - checkpointFor))

namespace PostgresRetention

/-- The last transaction of `run`, `ORDER BY c.created_at LIMIT 100 FOR UPDATE OF c SKIP LOCKED`. -/
def selectCheckpoints (d : HostedDb) (c : Checkpoints) (now : Time) (skipped : List String) : List String :=
  ((((c.rows.filter fun row => (d.jobs.get? row.jobId).any fun job => row.expired job now).insertionSort
    fun row row' => row.createdAt ≤ row'.createdAt).map (·.id)).filter fun id => id ∉ skipped).take 100

theorem mem_selectCheckpoints {d : HostedDb} {c : Checkpoints} {now : Time}
    {skipped : List String} {id : String} (h : id ∈ selectCheckpoints d c now skipped) :
    id ∉ skipped ∧ ∃ row ∈ c.rows, row.id = id ∧ ∃ job, d.jobs.get? row.jobId = some job ∧
      row.expired job now = true := by
  have hfound := List.mem_of_mem_take h
  obtain ⟨hfound, hskipped⟩ := List.mem_filter.mp hfound
  obtain ⟨row, hrow, rfl⟩ := List.mem_map.mp hfound
  obtain ⟨hrow, hexpired⟩ := List.mem_filter.mp ((List.mem_insertionSort _).mp hrow)
  obtain ⟨job, hjob, hexpired⟩ := (Option.any_eq_true _ _).mp hexpired
  exact ⟨of_decide_eq_true hskipped, row, hrow, rfl, job, hjob, hexpired⟩

/-- A checkpoint is kept for a day while its save is going on, and as long as its job when it is ready. -/
theorem expired_cases {row : CheckpointRow} {job : JobRow} {now : Time} (h : row.expired job now = true) :
    (row.ready = false ∧ row.createdAt + 24 * 60 * 60 < now) ∨ job.status.isTerminal = true := by
  have h := of_decide_eq_true h
  rcases h with ⟨hready, hage⟩ | ⟨hstatus, -⟩ | ⟨hstatus, -⟩
  · refine Or.inl ⟨by simpa using hready, ?_⟩
    linarith
  · exact Or.inr (by rw [hstatus]; rfl)
  · rcases hstatus with hstatus | hstatus <;> exact Or.inr (by rw [hstatus]; rfl)

end PostgresRetention

end KenkuiServer.Storage
