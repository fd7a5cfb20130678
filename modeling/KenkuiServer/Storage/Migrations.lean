import KenkuiServer.Errors
import Mathlib.Tactic

/-! `Database.migrate` of any number of server starts on one database file, one SQL statement at a time.
`executescript` commits the open transaction and runs its statements on their own; an `INSERT` outside of
a transaction begins one. Any statement that writes waits for the write lock; a killed process gives it up
with what it has not committed. -/
namespace KenkuiServer.Storage.Migrations

/-- The schema: whether there is a `schema_migrations`, the other tables, and the rows of
`schema_migrations`. -/
structure Schema where
  migrations : Bool := false
  tables : List String := []
  versions : List ℕ := []
  deriving DecidableEq, Repr

inductive Statement
  | beginImmediate
  | commit
  /-- `CREATE TABLE IF NOT EXISTS schema_migrations`. -/
  | createMigrations
  | selectVersions
  | create (table : String)
  | insertVersion (version : ℕ)
  deriving DecidableEq, Repr

def Statement.isChange : Statement → Bool
  | create _ => true
  | insertVersion _ => true
  | _ => false

def Statement.isInsert : Statement → Bool
  | insertVersion _ => true
  | _ => false

def Statement.exec : Statement → Schema → Except Error Schema
  | createMigrations, d => .ok { d with migrations := true }
  | create table, d =>
    if table ∈ d.tables then .error (.operational ("table " ++ table ++ " already exists"))
    else .ok { d with tables := d.tables ++ [table] }
  | insertVersion version, d =>
    if d.migrations = false then .error (.operational "no such table: schema_migrations")
    else if version ∈ d.versions then .error (.integrity "schema_migrations.version")
    else .ok { d with versions := d.versions ++ [version] }
  | _, d => .ok d

/-- `executescript`: the open transaction is committed first. -/
def executescript (script : List Statement) : List Statement := .commit :: script

def initialUpgrade : List Statement :=
  executescript [.create "assets", .create "inspections", .create "jobs", .create "job_events",
    .create "dispatches", .create "artifacts"]

def idempotencyUpgrade : List Statement := [.create "job_idempotency"]

def executionUpgrade : List Statement := [.create "execution_leases", .create "job_failures"]

def migrations : List (ℕ × List Statement) :=
    [(1, initialUpgrade), (2, idempotencyUpgrade), (3, executionUpgrade)]

def upgrades (applied : List ℕ) : List Statement :=
  migrations.flatMap fun (version, upgrade) =>
    if version ∈ applied then [] else upgrade ++ [.insertVersion version]

/-- `migrate`: the loop comes with the answer of `selectVersions`. -/
def migrate : List Statement := [.beginImmediate, .createMigrations, .selectVersions, .commit]

/-- A server start, with what is left of its `migrate`. -/
inductive Start
  | running (rest : List Statement)
  /-- `except Exception`: about to roll back. -/
  | unwinding (error : Error)
  | failed (error : Error)
  | killed
  deriving DecidableEq, Repr

def Start.completed : Start := .running []

/-- The file, the start that holds the write lock with what it has not committed, and all starts so far. -/
structure System where
  file : Schema := {}
  writer : Option (ℕ × Schema) := none
  starts : List Start := []

inductive Act
  | start
  | run (i : ℕ)
  | kill (i : ℕ)

namespace System
variable (s : System) (i : ℕ)

def holds : Bool := s.writer.any (·.1 = i)

def sees : Schema :=
  match s.writer with
  | some (j, d) => if j = i then d else s.file
  | none => s.file

def goOn (start : Start) : System := { s with starts := s.starts.set i start }

/-- The statements of the start `i` no longer hold the write lock. -/
def release : System := if s.holds i then { s with writer := none } else s

def change (statement : Statement) (rest : List Statement) : System :=
  match s.writer with
  | some (j, d) =>
    if j = i then
      match statement.exec d with
      | .ok d => { s with writer := some (i, d) }.goOn i (.running rest)
      | .error e => s.goOn i (.unwinding e)
    else s
  | none =>
    match statement.exec s.file with
    | .ok d =>
      if statement.isInsert then { s with writer := some (i, d) }.goOn i (.running rest)
      else { s with file := d }.goOn i (.running rest)
    | .error e =>
      if statement.isInsert then { s with writer := some (i, s.file) }.goOn i (.unwinding e)
      else s.goOn i (.unwinding e)

/-- The next statement of the start `i`; a system that does not change is one that waits. -/
def execute (statement : Statement) (rest : List Statement) : System :=
  match statement with
  | .beginImmediate =>
    match s.writer with
    | some _ => s
    | none => { s with writer := some (i, s.file) }.goOn i (.running rest)
  | .commit => { s.release i with file := s.sees i }.goOn i (.running rest)
  | .selectVersions => s.goOn i (.running (upgrades (s.sees i).versions ++ rest))
  | statement => s.change i statement rest

def step : Act → System
  | .start => { s with starts := s.starts ++ [.running migrate] }
  | .run i =>
    match s.starts[i]? with
    | some (.running (statement :: rest)) => s.execute i statement rest
    | some (.unwinding e) => (s.release i).goOn i (.failed e)
    | _ => s
  | .kill i => (s.release i).goOn i .killed

end System

/-- The schema of a release with the first `n` migrations. -/
def release (n : ℕ) : Schema where
  migrations := n ≠ 0
  tables := (migrations.take n).flatMap fun (_, upgrade) => upgrade.filterMap fun
    | .create table => some table
    | _ => none
  versions := (migrations.take n).map (·.1)

/-- Every object of the schema is there, and each version recorded once. -/
def Schema.Complete (d : Schema) : Prop :=
  d.migrations ∧ ∀ m ∈ Migrations.migrations, d.versions.count m.1 = 1 ∧
    ∀ statement ∈ m.2, ∀ table, statement = .create table → table ∈ d.tables

/-- The statements a start has still to run, at most. -/
def Start.work : Start → ℕ
  | running rest => (rest.map fun statement => if statement = .selectVersions then 40 else 2).sum
  | unwinding _ => 1
  | _ => 0

namespace System
variable (s : System)

def work : ℕ := (s.starts.map Start.work).sum

/-- What a migration of the file has to keep: no start that runs on raises, the schema is complete once one is
done, and the starts come to an end as they take steps. -/
structure Sound : Prop where
  raises : ∀ start ∈ s.starts, start = .killed ∨ ∃ rest, start = .running rest
  complete : .completed ∈ s.starts → s.file.Complete
  proceeds : ∀ i, s.step (.run i) = s ∨ (s.step (.run i)).work < s.work
  ends : (∀ i, s.step (.run i) = s) → ∀ start ∈ s.starts, start = .killed ∨ start = .completed

/-- The start `i` is between the commit of `executescript` and the `INSERT` that begins the next
transaction. -/
def Unguarded (i : ℕ) : Prop :=
  ∃ statement rest, s.starts[i]? = some (.running (statement :: rest)) ∧ statement.isChange ∧ ¬ s.holds i

/-- Tables of the initial script are committed and their version is not. -/
def Halfway : Prop := s.file.tables ≠ [] ∧ 1 ∉ s.file.versions

def Upgrading (i : ℕ) : Prop := ∃ rest, s.starts[i]? = some (.running rest) ∧ rest ≠ [] ∧ rest ≠ migrate

/-- No start begins its block while another is outside of its transaction, and none is killed that leaves a
part of the initial script behind. -/
def Allowed : Act → Prop
  | .start => True
  | .run i => s.starts[i]? = some (.running migrate) → ∀ j, ¬ s.Unguarded j
  | .kill i => s.Halfway → ¬ s.Upgrading i

end System

/-- The systems that starts on the file `d` reach by acts that are allowed. -/
inductive Reach (allowed : System → Act → Prop) (d : Schema) : System → Prop
  | init : Reach allowed d { file := d }
  | step {s : System} {act : Act} (reach : Reach allowed d s) (ok : allowed s act) :
    Reach allowed d (s.step act)

def execAll : List Statement → Schema → Except Error Schema
  | [], d => .ok d
  | statement :: rest, d =>
    match statement.exec d with
    | .ok d => execAll rest d
    | .error e => .error e

structure Leads (body : List Statement) (d : Schema) : Prop where
  changes : ∀ statement ∈ body, statement.isChange
  exec : execAll body d = .ok (release 3)

/-- The file holds the first `n` migrations and nothing else. -/
structure Schema.Settled (d : Schema) (n : ℕ) : Prop where
  le : n ≤ 3
  tables : d.tables = (release n).tables
  versions : d.versions = (release n).versions
  migrations : n ≠ 0 → d.migrations

namespace Leads

theorem head {statement : Statement} {body : List Statement} {d : Schema} (h : Leads (statement :: body) d) :
    statement.isChange ∧ ∃ d', statement.exec d = .ok d' ∧ Leads body d' := by
  refine ⟨h.changes _ List.mem_cons_self, ?_⟩
  have hexec := h.exec
  unfold execAll at hexec
  cases hd : statement.exec d with
  | error e => simp [hd] at hexec
  | ok d' =>
    refine ⟨d', rfl, fun st hst => h.changes st (List.mem_cons_of_mem _ hst), ?_⟩
    simpa [hd] using hexec

theorem nil {d : Schema} (h : Leads [] d) : d = release 3 := by
  have hexec := h.exec
  simpa [execAll] using hexec

end Leads

namespace Schema

theorem Settled.eq_release {d : Schema} {n : ℕ} (h : d.Settled n) (hn : n ≠ 0) : d = release n := by
  obtain ⟨migrations, tables, versions⟩ := d
  have htables := h.tables
  have hversions := h.versions
  have hmigrations := h.migrations hn
  simp only at htables hversions hmigrations
  simp [release, htables, hversions, hmigrations, hn]

theorem settled_release {n : ℕ} (hn : n ≤ 3) : (release n).Settled n :=
  ⟨hn, rfl, rfl, fun h => by simpa [release] using h⟩

theorem Settled.complete {d : Schema} (h : d.Settled 3) : d.Complete := by
  rw [h.eq_release (by omega)]
  unfold Complete
  refine ⟨by decide, ?_⟩
  intro m hm
  simp only [Migrations.migrations, List.mem_cons, List.not_mem_nil, or_false] at hm
  rcases hm with rfl | rfl | rfl
  all_goals
    refine ⟨by decide, ?_⟩
    rintro _ hstatement table rfl
    simp only [initialUpgrade, executescript, idempotencyUpgrade, executionUpgrade, List.mem_cons,
      Statement.create.injEq, List.not_mem_nil, or_false, reduceCtorEq, false_or] at hstatement
    revert hstatement
    simp only [release, Migrations.migrations, initialUpgrade, executescript, idempotencyUpgrade,
      executionUpgrade]
    simp
    grind

theorem Settled.upgrades {d : Schema} {n : ℕ} (h : d.Settled n) :
    (n = 0 ∧ ∃ body, Migrations.upgrades d.versions = .commit :: body ∧
      Leads body { d with migrations := true }) ∨
      Leads (Migrations.upgrades d.versions) { d with migrations := true } := by
  have hle := h.le
  have hd : { d with migrations := true } =
      { migrations := true, tables := (release n).tables, versions := (release n).versions } := by
    rw [← h.tables, ← h.versions]
  rw [hd, h.versions]
  interval_cases n
  · left
    refine ⟨rfl, (Migrations.upgrades []).tail, rfl, ?_, ?_⟩
    · decide
    · decide
  all_goals
    right
    constructor
    · decide
    · decide

end Schema

/-- Where the one start that has begun its block stands: `file` is committed, `writer` holds the lock, and
`rest` is left. -/
inductive Midst (file : Schema) (i : ℕ) : Option (ℕ × Schema) → List Statement → Prop
  | begun {n : ℕ} (settled : file.Settled n) :
    Midst file i (some (i, file)) [.createMigrations, .selectVersions, .commit]
  | created {n : ℕ} (settled : file.Settled n) :
    Midst file i (some (i, { file with migrations := true })) [.selectVersions, .commit]
  | scripting {body : List Statement} (settled : file.Settled 0)
    (leads : Leads body { file with migrations := true }) :
    Midst file i (some (i, { file with migrations := true })) (.commit :: (body ++ [.commit]))
  /-- The script runs outside of a transaction. -/
  | bare {body : List Statement} (leads : Leads body file) (versions : file.versions = []) :
    Midst file i none (body ++ [.commit])
  | held {body : List Statement} {d : Schema} (leads : Leads body d)
    (settled : (∃ n, file.Settled n) ∨ file.tables ≠ [] ∧ file.versions = []) :
    Midst file i (some (i, d)) (body ++ [.commit])

inductive Start.Apart : Start → Prop
  | waiting : Apart (.running migrate)
  | completed : Apart .completed
  | killed : Apart .killed

/-- At most one start has begun its block and is not done. -/
structure Single (s : System) (active : Option ℕ) : Prop where
  apart : ∀ i start, s.starts[i]? = some start → some i ≠ active → start.Apart
  idle : active = none → s.writer = none ∧ ∃ n, s.file.Settled n
  midst : ∀ i, active = some i → ∃ rest, s.starts[i]? = some (.running rest) ∧ Midst s.file i s.writer rest
  done : .completed ∈ s.starts → s.file.Settled 3

namespace Midst
variable {file : Schema} {i : ℕ} {writer : Option (ℕ × Schema)} {rest : List Statement}

theorem ne_nil (h : Midst file i writer rest) : rest ≠ [] := by
  cases h <;> simp

theorem ne_migrate (h : Midst file i writer rest) : rest ≠ migrate := by
  have hhead : ∀ {body : List Statement} {d : Schema}, Leads body d → body ++ [.commit] ≠ migrate := by
    intro body d hleads heq
    cases body with
    | nil => simp [migrate] at heq
    | cons statement body =>
      have hchange := hleads.head.1
      obtain ⟨rfl, -⟩ : statement = .beginImmediate ∧ _ := by simpa [migrate] using heq
      simp [Statement.isChange] at hchange
  cases h with
  | begun settled => simp [migrate]
  | created settled => simp [migrate]
  | scripting settled leads => simp [migrate]
  | bare leads versions => exact hhead leads
  | held leads settled => exact hhead leads

theorem writer_eq (h : Midst file i writer rest) : writer = none ∨ ∃ d, writer = some (i, d) := by
  cases h <;> simp

/-- A start that is killed where it leaves no part of the script behind leaves a settled file. -/
theorem settled (h : Midst file i writer rest) (hhalf : ¬ (file.tables ≠ [] ∧ 1 ∉ file.versions)) :
    ∃ n, file.Settled n := by
  cases h with
  | begun settled => exact ⟨_, settled⟩
  | created settled => exact ⟨_, settled⟩
  | scripting settled leads => exact ⟨_, settled⟩
  | bare leads versions =>
    have htables : file.tables = [] := by
      by_contra htables
      exact hhalf ⟨htables, by simp [versions]⟩
    exact ⟨0, by omega, by rw [htables]; rfl, by rw [versions]; rfl, by simp⟩
  | held leads settled =>
    rcases settled with settled | ⟨htables, hversions⟩
    · exact settled
    · exact absurd ⟨htables, by simp [hversions]⟩ hhalf

end Midst

namespace System
variable {s : System} {i : ℕ}

theorem change_held {statement : Statement} {rest : List Statement} {d d' : Schema}
    (hwriter : s.writer = some (i, d)) (hexec : statement.exec d = .ok d') :
    s.change i statement rest = { s with writer := some (i, d') }.goOn i (.running rest) := by
  simp [change, hwriter, hexec]

theorem change_bare {statement : Statement} {rest : List Statement} {d' : Schema}
    (hwriter : s.writer = none) (hexec : statement.exec s.file = .ok d') :
    s.change i statement rest =
      if statement.isInsert then { s with writer := some (i, d') }.goOn i (.running rest)
      else { s with file := d' }.goOn i (.running rest) := by
  simp [change, hwriter, hexec]

theorem execute_change {statement : Statement} {rest : List Statement} (h : statement.isChange) :
    s.execute i statement rest = s.change i statement rest := by
  cases statement <;> simp_all [execute, Statement.isChange]

theorem step_running {statement : Statement} {rest : List Statement}
    (hi : s.starts[i]? = some (.running (statement :: rest))) :
    s.step (.run i) = s.execute i statement rest := by
  simp [step, hi]

theorem step_kill :
    s.step (.kill i) = { s with
      writer := if s.holds i then none else s.writer
      starts := s.starts.set i .killed } := by
  simp only [step, goOn, release]
  split_ifs <;> rfl

end System

/-- What a step of the one active start leads to: it is further on, or done. -/
inductive Advanced (s : System) (i : ℕ) (rest : List Statement) : System → Prop
  | on {file : Schema} {writer : Option (ℕ × Schema)} {rest' : List Statement}
    (midst : Midst file i writer rest') (done : s.file.Settled 3 → file.Settled 3)
    (work : (Start.running rest').work < (Start.running rest).work) :
    Advanced s i rest { file, writer, starts := s.starts.set i (.running rest') }
  | finished : Advanced s i rest { file := release 3, writer := none, starts := s.starts.set i .completed }

theorem not_settled_of_versions {d : Schema} {n : ℕ} (hn : n ≠ 0) (hversions : d.versions = []) :
    ¬ d.Settled n := by
  intro h
  have hle := h.le
  have := h.versions.symm.trans hversions
  interval_cases n
  · exact hn rfl
  all_goals simp [release, migrations] at this

theorem exec_create {table : String} {d d' : Schema} (h : (Statement.create table).exec d = .ok d') :
    d'.versions = d.versions := by
  simp only [Statement.exec] at h
  split_ifs at h
  cases h
  rfl

theorem advance_held {s : System} {i : ℕ} {body : List Statement} {d : Schema}
    (hwriter : s.writer = some (i, d)) (hi : s.starts[i]? = some (.running (body ++ [.commit])))
    (leads : Leads body d) (settled : (∃ n, s.file.Settled n) ∨ s.file.tables ≠ [] ∧ s.file.versions = []) :
    Advanced s i (body ++ [.commit]) (s.step (.run i)) := by
  cases body with
  | nil =>
    obtain rfl : d = release 3 := leads.nil
    rw [System.step_running hi]
    have hstep : s.execute i .commit [] =
        { file := release 3, writer := none, starts := s.starts.set i .completed } := by
      simp [System.execute, System.sees, System.release, System.holds, System.goOn, hwriter, Start.completed]
    rw [hstep]
    exact .finished
  | cons statement body =>
    obtain ⟨hchange, d', hexec, hleads⟩ := leads.head
    rw [System.step_running hi, System.execute_change hchange, System.change_held hwriter hexec]
    refine .on (.held hleads settled) id ?_
    simp [Start.work]
    split_ifs <;> omega

theorem advance_bare {s : System} {i : ℕ} {body : List Statement} (hwriter : s.writer = none)
    (hi : s.starts[i]? = some (.running (body ++ [.commit]))) (leads : Leads body s.file)
    (versions : s.file.versions = []) : Advanced s i (body ++ [.commit]) (s.step (.run i)) := by
  cases body with
  | nil =>
    have hfile := leads.nil
    rw [hfile] at versions
    simp [release, migrations] at versions
  | cons statement body =>
    obtain ⟨hchange, d', hexec, hleads⟩ := leads.head
    rw [System.step_running hi, System.execute_change hchange, System.change_bare hwriter hexec]
    have hdone : ∀ {d : Schema}, s.file.Settled 3 → d.Settled 3 :=
      fun h => absurd h (not_settled_of_versions (by omega) versions)
    cases statement with
    | create table =>
      have hmidst : Midst d' i s.writer (body ++ [.commit]) := by
        rw [hwriter]
        exact .bare hleads ((exec_create hexec).trans versions)
      refine .on hmidst hdone ?_
      simp [Start.work]
    | insertVersion version =>
      have hsettled : (∃ n, s.file.Settled n) ∨ s.file.tables ≠ [] ∧ s.file.versions = [] := by
        by_cases htables : s.file.tables = []
        · exact .inl ⟨0, by omega, by rw [htables]; rfl, by rw [versions]; rfl, by simp⟩
        · exact .inr ⟨htables, versions⟩
      refine .on (.held hleads hsettled) id ?_
      simp [Start.work]
    | _ => simp [Statement.isChange] at hchange

theorem advance {s : System} {i : ℕ} {rest : List Statement} (hi : s.starts[i]? = some (.running rest))
    (h : Midst s.file i s.writer rest) : Advanced s i rest (s.step (.run i)) := by
  generalize hwriter : s.writer = writer at h
  cases h with
  | begun settled =>
    rw [System.step_running hi]
    have hstep : s.execute i .createMigrations [.selectVersions, .commit] =
        { s with writer := some (i, { s.file with migrations := true }) }.goOn i
          (.running [.selectVersions, .commit]) := by
      simp [System.execute, System.change, hwriter, Statement.exec]
    rw [hstep]
    exact .on (.created settled) id (by decide)
  | created settled =>
    rename_i n
    rw [System.step_running hi]
    have hsees : (s.sees i).versions = s.file.versions := by simp [System.sees, hwriter]
    have hwork : (Start.running (upgrades s.file.versions ++ [.commit])).work <
        (Start.running [.selectVersions, .commit]).work := by
      have hle := settled.le
      rw [settled.versions]
      interval_cases n
      all_goals decide
    have hstep : s.execute i .selectVersions [.commit] =
        s.goOn i (.running (upgrades s.file.versions ++ [.commit])) := by
      simp [System.execute, hsees]
    rw [hstep]
    rcases settled.upgrades with ⟨rfl, body, hbody, hleads⟩ | hleads
    · rw [hbody] at hwork ⊢
      have hmidst : Midst s.file i s.writer (.commit :: (body ++ [.commit])) := by
        rw [hwriter]
        exact .scripting settled hleads
      exact .on hmidst id hwork
    · have hmidst : Midst s.file i s.writer (upgrades s.file.versions ++ [.commit]) := by
        rw [hwriter]
        exact .held hleads (.inl ⟨_, settled⟩)
      exact .on hmidst id hwork
  | scripting settled leads =>
    rename_i body
    rw [System.step_running hi]
    have hstep : s.execute i .commit (body ++ [.commit]) =
        { file := { s.file with migrations := true }, writer := none,
          starts := s.starts.set i (.running (body ++ [.commit])) } := by
      simp [System.execute, System.sees, System.release, System.holds, System.goOn, hwriter]
    rw [hstep]
    have hversions : s.file.versions = [] := settled.versions
    refine .on (.bare leads hversions) (fun h => absurd h (not_settled_of_versions (by omega) hversions)) ?_
    simp [Start.work]
  | bare leads versions => exact advance_bare hwriter hi leads versions
  | held leads settled => exact advance_held hwriter hi leads settled

theorem step_apart {s : System} {i : ℕ} {start : Start} (hi : s.starts[i]? = some start) (h : start.Apart) :
    s.step (.run i) = s ∨ start = .running migrate ∧ s.writer = none ∧
      s.step (.run i) = { s with writer := some (i, s.file) }.goOn i
        (.running [.createMigrations, .selectVersions, .commit]) := by
  cases h with
  | waiting =>
    rw [System.step_running hi]
    cases hwriter : s.writer with
    | none => exact .inr ⟨rfl, rfl, by simp [System.execute, hwriter]⟩
    | some w => exact .inl (by simp [System.execute, hwriter])
  | completed => exact .inl (by simp [System.step, hi, Start.completed])
  | killed => exact .inl (by simp [System.step, hi])

namespace Single
variable {s : System} {active : Option ℕ}

theorem not_unguarded (h : Single s active) (hidle : active = none) (j : ℕ) : ¬ s.Unguarded j := by
  rintro ⟨statement, rest, hj, hchange, -⟩
  have hapart := h.apart j _ hj (by simp [hidle])
  generalize hstart : Start.running (statement :: rest) = start at hapart
  cases hapart with
  | waiting =>
    obtain ⟨rfl, -⟩ : statement = .beginImmediate ∧ _ := by simpa [migrate] using hstart
    simp [Statement.isChange] at hchange
  | completed => simp [Start.completed] at hstart
  | killed => cases hstart

theorem start (h : Single s active) : Single (s.step .start) active := by
  have hlt : ∀ i, active = some i → i < s.starts.length := by
    intro i hi
    obtain ⟨rest, hrest, -⟩ := h.midst i hi
    exact (List.getElem?_eq_some_iff.mp hrest).1
  constructor
  · intro i start hi hne
    simp only [System.step, List.getElem?_append] at hi
    split_ifs at hi with hlen
    · exact h.apart i start hi hne
    · obtain rfl : Start.running migrate = start := by
        have := List.mem_of_getElem? hi
        simpa [eq_comm] using this
      exact .waiting
  · exact h.idle
  · intro i hi
    obtain ⟨rest, hrest, hmidst⟩ := h.midst i hi
    exact ⟨rest, by simpa [System.step, List.getElem?_append_left (hlt i hi)] using hrest, hmidst⟩
  · intro hdone
    refine h.done ?_
    simpa [System.step, Start.completed, migrate] using hdone

theorem apart_set (h : Single s active) {i : ℕ} {start : Start} {active' : Option ℕ}
    (hactive : ∀ j, some j ≠ active' → j ≠ i → some j ≠ active)
    (hi : some i ≠ active' → start.Apart) :
    ∀ j start', (s.starts.set i start)[j]? = some start' → some j ≠ active' → start'.Apart := by
  intro j start' hj hne
  rw [List.getElem?_set] at hj
  split_ifs at hj with hij hlen
  · subst hij
    cases hj
    exact hi hne
  · exact h.apart j start' hj (hactive j hne (Ne.symm hij))

theorem done_set (h : Single s active) {i : ℕ} {start : Start} (hne : start ≠ .completed)
    (hdone : .completed ∈ s.starts.set i start) : s.file.Settled 3 := by
  rcases List.mem_or_eq_of_mem_set hdone with hdone | hdone
  · exact h.done hdone
  · exact absurd hdone.symm hne

theorem begun (h : Single s none) {i : ℕ} (hi : i < s.starts.length) :
    Single ({ s with writer := some (i, s.file) }.goOn i
      (.running [.createMigrations, .selectVersions, .commit]))
      (some i) := by
  obtain ⟨-, n, hsettled⟩ := h.idle rfl
  constructor
  · refine h.apart_set ?_ ?_
    · simp
    · simp
  · simp
  · rintro j ⟨⟩
    exact ⟨_, by simp [System.goOn, hi], .begun hsettled⟩
  · exact h.done_set (by simp [Start.completed])

theorem advanced (h : Single s active) {i : ℕ} {rest : List Statement} (hactive : active = some i)
    (hi : s.starts[i]? = some (.running rest)) {s' : System} (hs' : Advanced s i rest s') :
    ∃ active', Single s' active' := by
  have hlen : i < s.starts.length := (List.getElem?_eq_some_iff.mp hi).1
  cases hs' with
  | on midst done work =>
    refine ⟨some i, ?_, ?_, ?_, ?_⟩
    · refine h.apart_set ?_ ?_
      · simp [hactive]
      · simp
    · simp
    · rintro j ⟨⟩
      exact ⟨_, by simp [hlen], midst⟩
    · intro hdone
      exact done (h.done_set (by simpa [Start.completed] using midst.ne_nil) hdone)
  | finished =>
    refine ⟨none, ?_, ?_, ?_, ?_⟩
    · refine h.apart_set ?_ ?_
      · intro j _ hne
        simpa [hactive] using hne
      · exact fun _ => .completed
    · intro _
      exact ⟨rfl, 3, Schema.settled_release (by omega)⟩
    · simp
    · exact fun _ => Schema.settled_release (by omega)

theorem run (h : Single s active) {i : ℕ} (hok : s.Allowed (.run i)) :
    ∃ active', Single (s.step (.run i)) active' := by
  cases hi : s.starts[i]? with
  | none => exact ⟨active, by simpa [System.step, hi] using h⟩
  | some start =>
    by_cases hactive : some i = active
    · obtain ⟨rest, hrest, hmidst⟩ := h.midst i hactive.symm
      exact h.advanced hactive.symm hrest (advance hrest hmidst)
    · rcases step_apart hi (h.apart i start hi hactive) with hstep | ⟨rfl, hwriter, hstep⟩
      · exact ⟨active, by rwa [hstep]⟩
      · rw [hstep]
        -- Only a start outside of its transaction could be active without the lock.
        cases active with
        | none => exact ⟨some i, h.begun (List.getElem?_eq_some_iff.mp hi).1⟩
        | some j =>
          obtain ⟨rest, hrest, hmidst⟩ := h.midst j rfl
          rw [hwriter] at hmidst
          generalize hnone : (none : Option (ℕ × Schema)) = writer at hmidst
          cases hmidst with
          | bare leads versions =>
            rename_i body
            cases body with
            | nil =>
              rw [leads.nil] at versions
              simp [release, migrations] at versions
            | cons statement body =>
              refine absurd ?_ (hok hi j)
              have hholds : ¬ s.holds j := by simp [System.holds, hwriter]
              exact ⟨statement, body ++ [.commit], by simpa using hrest, leads.head.1, hholds⟩
          | _ => cases hnone

theorem kill (h : Single s active) {i : ℕ} (hok : s.Allowed (.kill i)) :
    ∃ active', Single (s.step (.kill i)) active' := by
  by_cases hactive : some i = active
  · obtain ⟨rest, hrest, hmidst⟩ := h.midst i hactive.symm
    have hsettled : ∃ n, s.file.Settled n := by
      refine hmidst.settled fun hhalf => hok hhalf ?_
      exact ⟨rest, hrest, hmidst.ne_nil, hmidst.ne_migrate⟩
    have hwriter : (if s.holds i then none else s.writer) = none := by
      rcases hmidst.writer_eq with hnone | ⟨d, hsome⟩
      · simp [hnone]
      · simp [System.holds, hsome]
    rw [System.step_kill, hwriter]
    refine ⟨none, ?_, fun _ => ⟨rfl, hsettled⟩, ?_, ?_⟩
    · refine h.apart_set ?_ ?_
      · intro j _ hne
        rw [← hactive]
        simpa using hne
      · exact fun _ => .killed
    · simp
    · exact h.done_set (by simp [Start.completed])
  · have hholds : s.holds i = false := by
      cases active with
      | none => simp [System.holds, (h.idle rfl).1]
      | some j =>
        obtain ⟨rest, hrest, hmidst⟩ := h.midst j rfl
        rcases hmidst.writer_eq with hnone | ⟨d, hsome⟩
        · simp [System.holds, hnone]
        · simpa [System.holds, hsome, eq_comm] using hactive
    have hstep : s.step (.kill i) = s.goOn i .killed := by simp [System.step_kill, hholds, System.goOn]
    rw [hstep]
    refine ⟨active, ?_, h.idle, ?_, ?_⟩
    · refine h.apart_set (fun j hne _ => hne) ?_
      exact fun _ => .killed
    · intro j hj
      obtain ⟨rest, hrest, hmidst⟩ := h.midst j hj
      have hij : i ≠ j := by
        rintro rfl
        exact hactive hj.symm
      exact ⟨rest, by simpa [System.goOn, List.getElem?_set_ne hij] using hrest, hmidst⟩
    · exact h.done_set (by simp [Start.completed])

end Single

/-- In a run whose acts are all allowed, the starts upgrade the file one after the other. -/
theorem Reach.single {d : Schema} {s : System} (h : Reach System.Allowed d s) (hd : ∃ n, d.Settled n) :
    ∃ active, Single s active := by
  induction h with
  | init =>
    refine ⟨none, ?_, fun _ => ⟨rfl, hd⟩, ?_, ?_⟩
    · simp
    · simp
    · simp
  | step reach ok ih =>
    rename_i act
    obtain ⟨active, hsingle⟩ := ih
    cases act with
    | start => exact ⟨active, hsingle.start⟩
    | run i => exact hsingle.run ok
    | kill i => exact hsingle.kill ok

theorem work_set {s : System} {i : ℕ} {old start : Start} (hi : s.starts[i]? = some old)
    (hlt : start.work < old.work) : ((s.starts.set i start).map Start.work).sum < s.work := by
  unfold System.work
  generalize s.starts = starts at hi
  induction starts generalizing i with
  | nil => simp at hi
  | cons head starts ih =>
    cases i with
    | zero =>
      obtain rfl : head = old := by simpa using hi
      simp only [List.set_cons_zero, List.map_cons, List.sum_cons]
      omega
    | succ i =>
      have hstarts := ih (i := i) (by simpa using hi)
      simp only [List.set_cons_succ, List.map_cons, List.sum_cons]
      omega

theorem advance_work {s : System} {i : ℕ} {rest : List Statement} (hi : s.starts[i]? = some (.running rest))
    (h : Midst s.file i s.writer rest) : (s.step (.run i)).work < s.work := by
  have hadvanced := advance hi h
  revert hadvanced
  generalize s.step (.run i) = s'
  intro hadvanced
  cases hadvanced with
  | on midst done work => exact work_set hi work
  | finished =>
    refine work_set hi ?_
    cases rest with
    | nil => exact absurd rfl h.ne_nil
    | cons statement rest =>
      simp only [Start.completed, Start.work, List.map_nil, List.sum_nil, List.map_cons, List.sum_cons]
      split_ifs <;> omega

namespace Single
variable {s : System} {active : Option ℕ}

theorem proceeds (h : Single s active) (i : ℕ) : s.step (.run i) = s ∨ (s.step (.run i)).work < s.work := by
  cases hi : s.starts[i]? with
  | none => exact .inl (by simp [System.step, hi])
  | some start =>
    by_cases hactive : some i = active
    · obtain ⟨rest, hrest, hmidst⟩ := h.midst i hactive.symm
      exact .inr (advance_work hrest hmidst)
    · rcases step_apart hi (h.apart i start hi hactive) with hstep | ⟨rfl, -, hstep⟩
      · exact .inl hstep
      · right
        rw [hstep]
        exact work_set hi (by decide)

theorem ends (h : Single s active) (hstuck : ∀ i, s.Allowed (.run i) → s.step (.run i) = s) :
    ∀ start ∈ s.starts, start = .killed ∨ start = .completed := by
  have hidle : active = none := by
    cases active with
    | none => rfl
    | some i =>
      obtain ⟨rest, hrest, hmidst⟩ := h.midst i rfl
      have hok : s.Allowed (.run i) := by
        intro hmigrate
        rw [hrest] at hmigrate
        cases hmigrate
        exact absurd rfl hmidst.ne_migrate
      have hwork := advance_work hrest hmidst
      rw [hstuck i hok] at hwork
      omega
  intro start hstart
  obtain ⟨i, hi⟩ := List.mem_iff_getElem?.mp hstart
  cases h.apart i start hi (by simp [hidle]) with
  | killed => exact .inl rfl
  | completed => exact .inr rfl
  | waiting =>
    have hsame := hstuck i fun _ => h.not_unguarded hidle
    rw [System.step_running hi] at hsame
    simp only [System.execute, (h.idle hidle).1, System.goOn] at hsame
    have hwriter := congrArg System.writer hsame
    simp [(h.idle hidle).1] at hwriter

theorem sound (h : Single s active) : s.Sound := by
  constructor
  · intro start hstart
    obtain ⟨i, hi⟩ := List.mem_iff_getElem?.mp hstart
    by_cases hactive : some i = active
    · obtain ⟨rest, hrest, -⟩ := h.midst i hactive.symm
      obtain rfl : start = .running rest := by simpa [hi] using hrest
      exact .inr ⟨rest, rfl⟩
    · cases h.apart i start hi hactive with
      | waiting => exact .inr ⟨_, rfl⟩
      | completed => exact .inr ⟨_, rfl⟩
      | killed => exact .inl rfl
  · intro hdone
    exact (h.done hdone).complete
  · exact h.proceeds
  · exact fun hstuck => h.ends fun i _ => hstuck i

end Single

/-- From the file of any release, or a new one, every allowed run keeps the migration sound; and where no
allowed step changes anything more, every start was killed or is done. -/
theorem reach_sound {n : ℕ} (hn : n ≤ 3) {s : System} (h : Reach System.Allowed (release n) s) :
    s.Sound ∧ ((∀ i, s.Allowed (.run i) → s.step (.run i) = s) →
      ∀ start ∈ s.starts, start = .killed ∨ start = .completed) := by
  obtain ⟨active, hsingle⟩ := h.single ⟨n, Schema.settled_release hn⟩
  exact ⟨hsingle.sound, hsingle.ends⟩

def System.after (s : System) (acts : List Act) : System := acts.foldl step s

def Start.changes : Start → Bool
  | running (statement :: _) => statement.isChange
  | _ => false

def System.allows : System → List Act → Bool
  | _, [] => true
  | s, .start :: acts => (s.step .start).allows acts
  | s, .run i :: acts =>
    (s.starts[i]? ≠ some (.running migrate) ∨ s.starts.all (!·.changes)) && (s.step (.run i)).allows acts
  | s, .kill i :: acts => (s.file.tables = [] ∨ 1 ∈ s.file.versions) && (s.step (.kill i)).allows acts

theorem System.not_unguarded_of_all {s : System} (h : s.starts.all (!·.changes)) (i : ℕ) :
    ¬ s.Unguarded i := by
  rintro ⟨statement, rest, hi, hchange, -⟩
  have hstart := List.all_eq_true.mp h _ (List.mem_of_getElem? hi)
  simp [Start.changes, hchange] at hstart

theorem Reach.after {d : Schema} {s : System} {acts : List Act} (h : Reach System.Allowed d s)
    (hacts : s.allows acts) :
    Reach System.Allowed d (s.after acts) := by
  induction acts generalizing s with
  | nil => exact h
  | cons act acts ih =>
    cases act with
    | start =>
      have hstep : Reach System.Allowed d (s.step .start) := h.step trivial
      exact ih hstep hacts
    | run i =>
      simp only [System.allows, Bool.and_eq_true, decide_eq_true_eq] at hacts
      obtain ⟨hallowed, hacts⟩ := hacts
      have hok : System.Allowed s (.run i) := by
        intro hmigrate
        rcases hallowed with hother | hall
        · exact absurd hmigrate hother
        · exact System.not_unguarded_of_all hall
      exact ih (h.step hok) hacts
    | kill i =>
      simp only [System.allows, Bool.and_eq_true, decide_eq_true_eq] at hacts
      obtain ⟨hallowed, hacts⟩ := hacts
      have hok : System.Allowed s (.kill i) := by
        intro hhalfway
        rcases hallowed with hempty | happlied
        · exact absurd hempty hhalfway.1
        · exact absurd happlied hhalfway.2
      exact ih (h.step hok) hacts

/-- Two starts on a new file: the second one waits for the first, which is killed when it is about to run the
script, and then upgrades the file. -/
def takenOver : List Act :=
  [.start, .start, .run 0, .run 1, .run 0, .run 0, .run 1, .kill 0] ++ List.replicate 17 (.run 1)

theorem reach_sound_takenOver :
    (System.after { file := release 0 } takenOver).starts = [.killed, .completed] ∧
    (System.after { file := release 0 } takenOver).Sound :=
  have hreach : Reach System.Allowed (release 0) (System.after { file := release 0 } takenOver) :=
    Reach.init.after (by decide +kernel)
  ⟨by decide +kernel, (reach_sound (n := 0) (by omega) hreach).1⟩

theorem reach_after {d : Schema} {s : System} (h : Reach (fun _ _ => True) d s) (acts : List Act) :
    Reach (fun _ _ => True) d (s.after acts) := by
  induction acts generalizing s with
  | nil => exact h
  | cons act acts ih => exact ih (h.step trivial)

/-- A start that is killed after the first table of the script, and the next one. -/
def killedStart : List Act :=
  [.start, .run 0, .run 0, .run 0, .run 0, .run 0, .kill 0, .start, .run 1, .run 1, .run 1, .run 1, .run 1]

/-- After a start that was killed inside of the initial script the next one raises. -/
theorem killed_start_unsound : ¬ ∀ s, Reach (fun _ _ => True) {} s → s.Sound := by
  intro h
  have hsound := h _ (reach_after .init killedStart)
  have hstarts : (System.after { file := {} } killedStart).starts =
      [.killed, .unwinding (.operational "table assets already exists")] := by decide
  have hraises := hsound.raises (.unwinding (.operational "table assets already exists")) (by simp [hstarts])
  simp at hraises

end KenkuiServer.Storage.Migrations
