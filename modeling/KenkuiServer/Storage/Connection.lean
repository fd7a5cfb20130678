import KenkuiServer.Data.Script
import KenkuiServer.Errors
import KenkuiServer.Txn.Program

/-! The one SQLite connection of a `Database`: its `with database.transaction()` blocks and its queries.
The body of a block is a script of statements, which can catch what they raise, commit on their own as
`executescript` does, and enter further blocks. -/
namespace KenkuiServer.Storage
open Data Txn

/-- What is committed, and what the open transaction has made of it. -/
structure Connection (D : Type) where
  committed : D
  opened : Option D := none

inductive SQL (D : Type)
  | beginImmediate
  | select
  /-- An `INSERT`, `UPDATE` or `DELETE`, before which `sqlite3` begins a transaction unless one is open. -/
  | execute (change : D → Except Error D)
  /-- A statement that has no transaction begun for it, such as a `CREATE TABLE`. -/
  | define (change : D → Except Error D)
  | commit
  | rollback

def SQL.Answer {D : Type} : SQL D → Type
  | beginImmediate => Except Error Unit
  | select => D
  | execute _ => Except Error Unit
  | define _ => Except Error Unit
  | commit => Unit
  | rollback => Unit

abbrev Body (D α : Type) := Script (SQL D) SQL.Answer Raised α

namespace Body
variable {D α : Type}

/-- The statements of a script, up to the first that raises. -/
def defineAll : List (D → Except Error D) → Body D Unit
  | [] => .ret ()
  | change :: script => .ask (SQL.define change) fun
    | .error e => .raise (.exception e)
    | .ok () => defineAll script

/-- `executescript`: the open transaction is committed first. -/
def executescript (script : List (D → Except Error D)) : Body D Unit := .ask SQL.commit fun _ =>
    defineAll script

/-- `with database.transaction()`. -/
def block (body : Body D α) : Body D α :=
  .ask SQL.beginImmediate fun
    | .error e => .raise (.exception e)
    | .ok () => do
      let a ← body.handle fun r => if r.isException then .ask SQL.rollback fun _ => .raise r else .raise r
      .ask SQL.commit fun _ => .ret a

end Body

namespace Connection
variable {D α β : Type}

/-- What a query on the connection sees. -/
def sees (c : Connection D) : D := c.opened.getD c.committed

/-- `BEGIN IMMEDIATE`. -/
def start (c : Connection D) : Except Error (Connection D) :=
  match c.opened with
  | none => .ok { c with opened := some c.committed }
  | some _ => .error (.operational "cannot start a transaction within a transaction")

def commit (c : Connection D) : Connection D := { committed := c.sees }

def rollback (c : Connection D) : Connection D := { committed := c.committed }

/-- A statement outside of a transaction is committed as it is. -/
def write (d : D) (c : Connection D) : Connection D :=
  match c.opened with
  | none => { c with committed := d }
  | some _ => { c with opened := some d }

/-- One statement of a body. -/
def answer (c : Connection D) : (q : SQL D) → q.Answer × Connection D
  | .beginImmediate =>
    match c.start with
    | .ok c => (.ok (), c)
    | .error e => (.error e, c)
  | .select => (c.sees, c)
  | .execute change =>
    match change c.sees with
    | .ok d => (.ok (), { c with opened := some d })
    | .error e => (.error e, { c with opened := some c.sees })
  | .define change =>
    match change c.sees with
    | .ok d => (.ok (), c.write d)
    | .error e => (.error e, c)
  | .commit => ((), c.commit)
  | .rollback => ((), c.rollback)

def exec (c : Connection D) : Body D α → Except Raised α × Connection D
  | .ret a => (.ok a, c)
  | .raise r => (.error r, c)
  | .ask q k => (c.answer q).2.exec (k (c.answer q).1)

def transaction (c : Connection D) (body : Body D α) : Except Raised α × Connection D := c.exec body.block

end Connection

/-- What is done with a `Database`, and what another process does to its file in between. -/
inductive Operation (D : Type)
  | query
  | transaction (body : Body D Unit)
  /-- A commit of another process, which has to wait while a transaction is open here. -/
  | elsewhere (change : D → D)

/-- An exception that leaves the body of a block: what was committed before the block, and the connection
where it leaves. -/
structure Escape (D : Type) where
  before : D
  raised : Raised
  connection : Connection D

/-- What the body has committed is what was committed before, and it is rolled back or no transaction is
open. -/
def Escape.Clean {D : Type} (escape : Escape D) : Prop :=
  escape.connection.committed = escape.before ∧ (escape.raised.isException ∨ escape.connection.opened = none)

namespace Connection
variable {D α β : Type} (c : Connection D)

def step : Operation D → Connection D
  | .query => c
  | .transaction body => (c.transaction body).2
  | .elsewhere change => if c.opened.isNone then { c with committed := change c.committed } else c

def after (ops : List (Operation D)) : Connection D := ops.foldl step c

/-- The exception that the body of a block lets out, if it does. -/
def escape (body : Body D α) : Option (Escape D) :=
  match c.start with
  | .error _ => none
  | .ok opened =>
    match opened.exec body with
    | (.ok _, _) => none
    | (.error r, connection) => some ⟨c.committed, r, connection⟩

/-- The exceptions that the bodies of a run let out. -/
def escapes : Connection D → List (Operation D) → List (Escape D)
  | _, [] => []
  | c, .transaction body :: ops => (c.escape body).toList ++ (c.transaction body).2.escapes ops
  | c, op :: ops => (c.step op).escapes ops

end Connection

/-- A procedure of the repositories as the body of a block. -/
def body {D W K α : Type} [Store D W K] : Prog D W K Error α → Body D α
  | .ret a => .ret a
  | .raise e => .raise (.exception e)
  | .step s k => .ask SQL.select fun d =>
    match s.exec d with
    | .error e => .raise (.exception e)
    | .ok (b, ws) => .ask (SQL.execute fun d => .ok (applyAll ws d)) fun _ => body (k b)

namespace Connection
variable {D α β : Type} {c : Connection D}

@[simp] theorem sees_mk (d : D) : (⟨d, none⟩ : Connection D).sees = d := rfl

@[simp] theorem sees_opened (d d' : D) : (⟨d, some d'⟩ : Connection D).sees = d' := rfl

theorem exec_bind (c : Connection D) (p : Body D α) (f : α → Body D β) :
    c.exec (p >>= f) =
      match c.exec p with
      | (.ok a, c) => c.exec (f a)
      | (.error r, c) => (.error r, c) := by
  induction p generalizing c with
  | ret a => rfl
  | raise r => rfl
  | ask q k ih => exact ih _ _

theorem exec_handle (c : Connection D) (p : Body D α) (handler : Raised → Body D α) :
    c.exec (p.handle handler) =
      match c.exec p with
      | (.ok a, c) => (.ok a, c)
      | (.error r, c) => c.exec (handler r) := by
  induction p generalizing c with
  | ret a => rfl
  | raise r => rfl
  | ask q k ih => exact ih _ _

theorem transaction_ok {body : Body D α} {opened ended : Connection D} {a : α} (hstart : c.start = .ok opened)
    (hexec : opened.exec body = (.ok a, ended)) : c.transaction body = (.ok a, ended.commit) := by
  unfold transaction Body.block
  simp only [exec, answer, hstart, exec_bind, exec_handle, hexec]

/-- A block whose body raises is rolled back for an `Exception` only. -/
theorem transaction_error {body : Body D α} {opened ended : Connection D} {r : Raised}
    (hstart : c.start = .ok opened) (hexec : opened.exec body = (.error r, ended)) :
    c.transaction body = (.error r, if r.isException then ended.rollback else ended) := by
  unfold transaction Body.block
  simp only [exec, answer, hstart, exec_bind, exec_handle, hexec]
  cases hr : r.isException <;> rfl

theorem start_closed (hc : c.opened = none) : c.start = .ok { c with opened := some c.committed } := by
  simp only [start, hc]

theorem transaction_closed (body : Body D α) (hc : c.opened = none) :
    (c.escape body = none ∧ ∃ a d, c.transaction body = (.ok a, ⟨d, none⟩)) ∨
      ∃ escape, c.escape body = some escape ∧ escape.before = c.committed ∧
        c.transaction body = (.error escape.raised,
          if escape.raised.isException then escape.connection.rollback else escape.connection) := by
  have hstart := start_closed hc
  cases hexec : exec { c with opened := some c.committed } body with
  | mk result ended =>
    cases result with
    | ok a =>
      refine .inl ⟨?_, a, ended.sees, transaction_ok hstart hexec⟩
      simp only [escape, hstart, hexec]
    | error r =>
      refine .inr ⟨⟨c.committed, r, ended⟩, ?_, rfl, transaction_error hstart hexec⟩
      simp only [escape, hstart, hexec]

section
variable {W K : Type} [Store D W K] {d d' d'' : D} {a : α} {e : Error}

theorem exec_body_ok {p : Prog D W K Error α} (hrun : p.run d' = .ok (a, d'')) :
    exec ⟨d, some d'⟩ (body p) = (.ok a, ⟨d, some d''⟩) := by
  induction p generalizing d' with
  | ret a =>
    cases hrun
    rfl
  | raise e => cases hrun
  | step s k ih =>
    rw [Prog.run_step] at hrun
    unfold body
    simp only [exec, answer, sees_opened]
    cases hexec : s.exec d' with
    | error e => simp [hexec] at hrun
    | ok r => exact ih r.1 (by simpa [hexec] using hrun)

theorem exec_body_error {p : Prog D W K Error α} (hrun : p.run d' = .error e) :
    ∃ d'', exec ⟨d, some d'⟩ (body p) = (.error (.exception e), ⟨d, some d''⟩) := by
  induction p generalizing d' with
  | ret a => cases hrun
  | raise e =>
    cases hrun
    exact ⟨d', rfl⟩
  | step s k ih =>
    rw [Prog.run_step] at hrun
    unfold body
    simp only [exec, answer, sees_opened]
    cases hexec : s.exec d' with
    | error e' =>
      obtain rfl : e' = e := by simpa [hexec] using hrun
      exact ⟨d', rfl⟩
    | ok r => exact ih r.1 (by simpa [hexec] using hrun)

/-- On a connection with no transaction open a procedure of the repositories is one transaction of the
committed store. -/
theorem transaction_body (p : Prog D W K Error α) (d : D) :
    transaction ⟨d, none⟩ (body p) =
      ((p.transaction d).1.mapError .exception, ⟨(p.transaction d).2, none⟩) := by
  have hstart : start ⟨d, none⟩ = .ok ⟨d, some d⟩ := rfl
  cases hrun : p.run d with
  | ok r =>
    rw [transaction_ok hstart (exec_body_ok hrun), Prog.transaction_of_ok hrun]
    rfl
  | error e =>
    obtain ⟨d', hexec⟩ := exec_body_error (d := d) hrun
    rw [transaction_error hstart hexec, Prog.transaction_of_error hrun]
    rfl

end

end Connection

end KenkuiServer.Storage
