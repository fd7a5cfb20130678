import KenkuiServer.Data.Trace
import KenkuiServer.Local.Calls

/-! The supervisor of the local worker processes. An exception carries the children at the time, for the
clauses that stop them or let them go. The loops have fuel: a run that uses it up ends in the middle, as the
thread may. -/
namespace KenkuiServer.Local.Supervision
open Data Jobs Storage

/-- A worker process, identified by the lease that it was started with. -/
structure Child where
  dispatchId : String
  token : String
  deriving DecidableEq

/-- How `Popen` fails. -/
inductive StartError
  | osError
  | other

inductive Query
  /-- `self._stop.is_set()`. -/
  | stopping
  | poll (child : Child)
  | closeStdin (child : Child)
  | releaseExecution (child : Child)
  | listIncomplete
  | claimExecution (dispatchId : String)
  | popen (child : Child)
  /-- `self._stop.wait(0.1)`. -/
  | pause
  | getDispatch (dispatchId : String)
  | requestCancellation (jobId : String)
  | monotonic
  | sleep
  | wait (child : Child) (timeout : Time)
  /-- `Thread(target=child.wait).start()`. -/
  | detach (child : Child)

def Query.Answer : Query → Type
  | .stopping => Bool
  | .poll _ => Bool
  | .closeStdin _ => Except Unit Unit
  | .releaseExecution _ => Except Unit Unit
  | .listIncomplete => Except Unit (List Dispatch)
  | .claimExecution _ => Except Unit (Option String)
  | .popen _ => Except StartError Unit
  | .pause => Unit
  | .getDispatch _ => Except Unit Dispatch
  | .requestCancellation _ => Except Unit Unit
  | .monotonic => Time
  | .sleep => Unit
  | .wait _ _ => Except Unit Unit
  | .detach _ => Unit

abbrev Supervisor (α : Type) := Script Query Query.Answer (List Child) α

/-- An answer, or an exception. -/
def orRaise {α : Type} (children : List Child) : Except Unit α → Supervisor α
  | .ok a => .ret a
  | .error _ => .raise children

namespace Supervisor
open Script

def stopping : Supervisor Bool := request Query.stopping

def poll (child : Child) : Supervisor Bool := request (Query.poll child)

def pause : Supervisor Unit := request Query.pause

def monotonic : Supervisor Time := request Query.monotonic

def sleep : Supervisor Unit := request Query.sleep

def detach (child : Child) : Supervisor Unit := request (Query.detach child)

def popen (child : Child) : Supervisor (Except StartError Unit) := request (Query.popen child)

def releaseExecution (children : List Child) (child : Child) : Supervisor Unit :=
  .ask (Query.releaseExecution child) (orRaise children)

def listIncomplete (children : List Child) : Supervisor (List Dispatch) := .ask Query.listIncomplete
    (orRaise children)

def claimExecution (children : List Child) (dispatchId : String) : Supervisor (Option String) :=
  .ask (Query.claimExecution dispatchId) (orRaise children)

def getDispatch (dispatchId : String) :
    Supervisor Dispatch := .ask (Query.getDispatch dispatchId) (orRaise [])

def requestCancellation (jobId : String) :
    Supervisor Unit := .ask (Query.requestCancellation jobId) (orRaise [])

def wait (child : Child) (timeout : Time) : Supervisor Unit := .ask (Query.wait child timeout) (orRaise [])

end Supervisor

structure LocalProcessRunner where
  stopWorkersOnClose : Bool := false

namespace LocalProcessRunner
open Supervisor

/-- `child.stdin` is a pipe only for workers that are stopped on close. -/
def closeStdin (runner : LocalProcessRunner) (children : List Child) (child : Child) : Supervisor Unit :=
  if runner.stopWorkersOnClose then .ask (Query.closeStdin child) (orRaise children) else .ret ()

/-- The children that have exited: their pipes are closed, and their leases released. -/
def reap (runner : LocalProcessRunner) : List Child → List Child → Supervisor (List Child)
  | [], children => return children
  | child :: todo, children => do
    if ← poll child then
      runner.closeStdin children child
      releaseExecution children child
      runner.reap todo (children.erase child)
    else runner.reap todo children

/-- The incomplete dispatches, each claimed and given to a new process. -/
def launch : List Dispatch → List Child → Supervisor (List Child)
  | [], children => return children
  | dispatch :: rest, children => do
    if ← stopping then return children
    else
      match ← claimExecution children dispatch.id with
      | none => launch rest children
      | some token =>
        match ← popen ⟨dispatch.id, token⟩ with
        | .ok _ => launch rest (children ++ [⟨dispatch.id, token⟩])
        | .error .osError => do
          releaseExecution children ⟨dispatch.id, token⟩
          launch rest children
        | .error .other => .raise children

def scan (runner : LocalProcessRunner) (children : List Child) : Supervisor (List Child) := do
  let children ← runner.reap children children
  let dispatches ← listIncomplete children
  let children ← launch dispatches children
  pause
  return children

def loop (runner : LocalProcessRunner) : ℕ → List Child → Supervisor (Option (List Child))
  | 0, _ => return none
  | n + 1, children => do
    if ← stopping then return some children
    else
      let children ← runner.scan children
      runner.loop n children

def cancelAll : List Child → Supervisor Unit
  | [] => return
  | child :: rest => do
    let dispatch ← getDispatch child.dispatchId
    requestCancellation dispatch.jobId
    cancelAll rest

/-- `any(child.poll() is None for child in children)`. -/
def anyRunning : List Child → Supervisor Bool
  | [] => return false
  | child :: rest => do
    if ← poll child then anyRunning rest else return true

/-- The workers are given time to stop on their own. -/
def drain (deadline : Time) (children : List Child) : ℕ → Supervisor (Option Unit)
  | 0 => return none
  | n + 1 => do
    if ← anyRunning children then
      let now ← monotonic
      if deadline ≤ now then return some ()
      else
        sleep
        drain deadline children n
    else return some ()

def closeAll (runner : LocalProcessRunner) : List Child → Supervisor Unit
  | [] => return
  | child :: rest => do
    runner.closeStdin [] child
    runner.closeAll rest

def waitAll (deadline : Time) : List Child → Supervisor Unit
  | [] => return
  | child :: rest => do
    let now ← monotonic
    wait child (max 0 (deadline - now))
    releaseExecution [] child
    waitAll deadline rest

/-- The `try` block of `_stop_children`. -/
def askToStop (n : ℕ) (children : List Child) : Supervisor (Option Unit) := do
  cancelAll children
  let now ← monotonic
  drain (now + 3) children n

/-- Its `finally` clause. -/
def stopNow (runner : LocalProcessRunner) (children : List Child) : Supervisor Unit := do
  runner.closeAll children
  let now ← monotonic
  waitAll (now + 5) children

/-- What a script ends with, its exception caught. -/
def attempted {α : Type} (p : Supervisor α) : Supervisor (Except (List Child) α) :=
  (p >>= fun a => .ret (.ok a)).handle fun e => .ret (.error e)

def stopChildren (runner : LocalProcessRunner) (n : ℕ) (children : List Child) :
    Supervisor (Option Unit) := do
  match ← attempted (askToStop n children) with
  | .ok none => return none
  | .ok (some _) => do
    runner.stopNow children
    return some ()
  | .error e => do
    runner.stopNow children
    .raise e

def detachAll : List Child → Supervisor Unit
  | [] => return
  | child :: rest => do
    detach child
    detachAll rest

/-- `_supervise`; what it raises in the end is the shutdown error. -/
def supervise (runner : LocalProcessRunner) (n m : ℕ) : Supervisor (Option Unit) := do
  match ← (runner.loop n []).handle fun children => .ret (some children) with
  | none => return none
  | some children =>
    if runner.stopWorkersOnClose then runner.stopChildren m children
    else do
      detachAll children
      return some ()

end LocalProcessRunner

/-- What has been asked and heard, the newest first. -/
abbrev Past := List (Sigma Query.Answer)

def Started (past : Past) (child : Child) : Prop := ⟨.popen child, .ok ()⟩ ∈ past

def Closed (past : Past) (child : Child) : Prop := ⟨.closeStdin child, .ok ()⟩ ∈ past

def Released (past : Past) (child : Child) : Prop := ⟨.releaseExecution child, .ok ()⟩ ∈ past

/-- The worker is known to have exited. -/
inductive Exited (past : Past) (child : Child) : Prop
  | polled (polled : ⟨.poll child, true⟩ ∈ past)
  | waited (timeout : Time) (waited : ⟨.wait child timeout, .ok ()⟩ ∈ past)

/-- A worker that is over, its lease released. -/
structure Over (past : Past) (child : Child) : Prop where
  exited : Exited past child
  released : Released past child

/-- The queries on which nothing depends. -/
inductive Query.Free : Query → Prop
  | stopping : Free .stopping
  | poll (child : Child) : Free (.poll child)
  | listIncomplete : Free .listIncomplete
  | pause : Free .pause
  | getDispatch (dispatchId : String) : Free (.getDispatch dispatchId)
  | requestCancellation (jobId : String) : Free (.requestCancellation jobId)
  | monotonic : Free .monotonic
  | sleep : Free .sleep
  | detach (child : Child) : Free (.detach child)

/-- What the supervisor may do next: it claims only when it has just seen that it is not to stop, starts a
process only with the token that it has just claimed, releases a lease only once its worker has exited or
could not be started, and waits for a worker only when every worker has been told to stop. -/
inductive Allowed (past : Past) : Query → Prop
  | free (q : Query) (free : q.Free) : Allowed past q
  | closeStdin (child : Child) (started : Started past child) : Allowed past (.closeStdin child)
  | exited (child : Child) (started : Started past child) (exited : Exited past child) :
    Allowed past (.releaseExecution child)
  | unstarted (child : Child) (failed : ⟨.popen child, .error .osError⟩ ∈ past) :
    Allowed past (.releaseExecution child)
  | claimExecution (dispatchId : String) (rest : Past) (going : past = ⟨.stopping, false⟩ :: rest) :
    Allowed past (.claimExecution dispatchId)
  | popen (child : Child) (rest : Past)
      (claimed : past = ⟨.claimExecution child.dispatchId, .ok (some child.token)⟩ :: rest) :
      Allowed past (.popen child)
  | wait (child : Child) (timeout : Time) (told : ∀ other, Started past other → Closed past other ∨
    Over past other) :
    Allowed past (.wait child timeout)

/-- The children are workers that were started, and every other one is over. -/
structure Held (past : Past) (children : List Child) : Prop where
  started : ∀ child ∈ children, Started past child
  covered : ∀ child, Started past child → child ∈ children ∨ Over past child

/-- The children that a script leaves. -/
def left : Except (List Child) (List Child) → List Child
  | .ok children => children
  | .error children => children

section
variable {past past' : Past} {children : List Child} {child : Child} {exchange : Sigma Query.Answer}

theorem Exited.mono (h : Exited past child) (hsubset : ∀ e ∈ past, e ∈ past') : Exited past' child := by
  cases h with
  | polled polled => exact .polled (hsubset _ polled)
  | waited timeout waited => exact .waited timeout (hsubset _ waited)

theorem Over.mono (h : Over past child) (hsubset : ∀ e ∈ past, e ∈ past') : Over past' child :=
  ⟨h.exited.mono hsubset, hsubset _ h.released⟩

/-- Only a process that starts is a new child. -/
theorem Held.cons (h : Held past children) (hexchange : ∀ child, exchange ≠ ⟨.popen child, .ok ()⟩) :
    Held (exchange :: past) children := by
  have hsubset : ∀ e ∈ past, e ∈ exchange :: past := fun e he => List.mem_cons_of_mem _ he
  constructor
  · exact fun child hchild => hsubset _ (h.started child hchild)
  · intro child hstarted
    rcases List.mem_cons.mp hstarted with heq | hstarted
    · exact absurd heq.symm (hexchange child)
    · rcases h.covered child hstarted with hmem | hover
      · exact Or.inl hmem
      · exact Or.inr (hover.mono hsubset)

theorem Held.other (h : Held past children) {q : Query} {answer : q.Answer} (hq : ∀ child, q ≠ .popen child) :
    Held (⟨q, answer⟩ :: past) children := by
  apply h.cons
  intro child heq
  exact hq child (congrArg Sigma.fst heq)

/-- A process has been started. -/
theorem Held.start (h : Held past children) :
    Held (⟨.popen child, .ok ()⟩ :: past) (children ++ [child]) := by
  have hsubset : ∀ e ∈ past, e ∈ (⟨.popen child, .ok ()⟩ : Sigma Query.Answer) :: past :=
    fun e he => List.mem_cons_of_mem _ he
  constructor
  · intro other hother
    rcases List.mem_append.mp hother with hmem | hmem
    · exact hsubset _ (h.started other hmem)
    · rw [List.mem_singleton.mp hmem]
      exact List.mem_cons_self
  · intro other hstarted
    rcases List.mem_cons.mp hstarted with heq | hstarted
    · cases heq
      exact Or.inl (List.mem_append_right _ (List.mem_singleton_self _))
    · rcases h.covered other hstarted with hmem | hover
      · exact Or.inl (List.mem_append_left _ hmem)
      · exact Or.inr (hover.mono hsubset)

/-- A child that is over is no longer held. -/
theorem Held.erase (h : Held past children) (hover : Over past child) : Held past (children.erase child) := by
  constructor
  · exact fun other hother => h.started other (List.mem_of_mem_erase hother)
  · intro other hstarted
    by_cases hsame : other = child
    · rw [hsame]
      exact Or.inr hover
    · rcases h.covered other hstarted with hmem | hover'
      · exact Or.inl ((List.mem_erase_of_ne hsame).mpr hmem)
      · exact Or.inr hover'

variable {α β : Type} {R : Past → Except (List Child) β → Prop}

theorem follows_orRaise {answer : Except Unit α} {f : α → Supervisor β}
    (hok : ∀ a, answer = .ok a → (f a).Follows Allowed R past) (herror : ∀ e, answer = .error e →
      R past (.error children)) :
    (orRaise children answer >>= f).Follows Allowed R past := by
  cases answer with
  | ok a => exact hok a rfl
  | error e => exact herror e rfl

/-- A script of free queries keeps the children. -/
theorem free_follows {p : Supervisor α} (hfree : p.Within Query.Free fun _ => True) (h : Held past children) :
    p.Follows Allowed (fun past' _ => Held past' children) past := by
  induction p generalizing past with
  | ret a => exact h
  | raise e => exact h
  | ask q k ih =>
    refine ⟨.free q hfree.1, fun answer => ih answer (hfree.2 answer) (h.cons ?_)⟩
    intro child heq
    have hpopen : q = .popen child := congrArg Sigma.fst heq
    have hq := hfree.1
    rw [hpopen] at hq
    cases hq

namespace LocalProcessRunner
variable {runner : LocalProcessRunner}

theorem reap_follows (todo : List Child) : ∀ {past : Past} {children : List Child}, Held past children →
    (∀ child ∈ todo, Started past child) →
    (runner.reap todo children).Follows Allowed (fun past' result => Held past' (left result)) past := by
  induction todo with
  | nil => exact fun h _ => h
  | cons child todo ih =>
    intro past children h hstarted
    have hchild := hstarted child List.mem_cons_self
    refine ⟨.free _ (.poll child), fun (exited : Bool) => ?_⟩
    have hpolled : Held (⟨.poll child, exited⟩ :: past) children := h.other (by simp)
    have htodo : ∀ {past' : Past}, (∀ e ∈ past, e ∈ past') → ∀ other ∈ todo, Started past' other :=
      fun hsubset other hother => hsubset _ (hstarted other (List.mem_cons_of_mem _ hother))
    cases exited with
    | false => exact ih hpolled (htodo fun e he => List.mem_cons_of_mem _ he)
    | true =>
      -- the lease is released after the pipe has been closed
      have hrelease : ∀ {past' : Past},
          (∀ e ∈ (⟨.poll child, true⟩ : Sigma Query.Answer) :: past, e ∈ past') →
          Held past' children → (Supervisor.releaseExecution children child >>= fun _ =>
            runner.reap todo (children.erase child)).Follows Allowed (fun past' result =>
              Held past' (left result)) past' := by
        intro past' hsubset h'
        have hexited : Exited past' child := .polled (hsubset _ List.mem_cons_self)
        refine ⟨.exited child (hsubset _ (List.mem_cons_of_mem _ hchild)) hexited, fun answer => ?_⟩
        have hheld : Held (⟨.releaseExecution child, answer⟩ :: past') children := h'.other (by simp)
        refine follows_orRaise (fun _ hok => ?_) fun _ _ => hheld
        have hmono : ∀ e ∈ past', e ∈ (⟨.releaseExecution child, answer⟩ : Sigma Query.Answer) :: past' :=
          fun e he => List.mem_cons_of_mem _ he
        refine ih (hheld.erase ⟨hexited.mono hmono, ?_⟩)
          (htodo fun e he => hmono e (hsubset e (List.mem_cons_of_mem _ he)))
        rw [hok]
        exact List.mem_cons_self
      change ((runner.closeStdin children child) >>= fun _ => _).Follows Allowed _ _
      unfold closeStdin
      split_ifs
      · refine ⟨.closeStdin child (List.mem_cons_of_mem _ hchild), fun answer => ?_⟩
        have hheld : Held (⟨.closeStdin child, answer⟩ :: ⟨.poll child, true⟩ :: past) children :=
          hpolled.other (by simp)
        exact follows_orRaise (fun _ _ => hrelease (fun e he => List.mem_cons_of_mem _ he) hheld)
          fun _ _ => hheld
      · exact hrelease (fun e he => he) hpolled

theorem launch_follows (dispatches : List Dispatch) :
    ∀ {past : Past} {children : List Child}, Held past children →
    (launch dispatches children).Follows Allowed (fun past' result => Held past' (left result)) past := by
  induction dispatches with
  | nil => exact fun h => h
  | cons dispatch rest ih =>
    intro past children h
    refine ⟨.free _ .stopping, fun (stopping : Bool) => ?_⟩
    have hasked : Held (⟨.stopping, stopping⟩ :: past) children := h.other (by simp)
    cases stopping with
    | true => exact hasked
    | false =>
      refine ⟨.claimExecution dispatch.id past rfl, fun answer => ?_⟩
      have hclaimed : Held (⟨.claimExecution dispatch.id, answer⟩ :: ⟨.stopping, false⟩ :: past) children :=
        hasked.other (by simp)
      refine follows_orRaise (fun token hok => ?_) fun _ _ => hclaimed
      cases token with
      | none => exact ih hclaimed
      | some token =>
        refine ⟨.popen ⟨dispatch.id, token⟩ (⟨.stopping, false⟩ :: past) ?_,
          fun (started : Except StartError Unit) => ?_⟩
        · rw [hok]
        cases started with
        | ok _ => exact ih hclaimed.start
        | error e =>
          have hfailed :
              Held (⟨.popen ⟨dispatch.id, token⟩, .error e⟩ :: ⟨.claimExecution dispatch.id, answer⟩ ::
              ⟨.stopping, false⟩ :: past) children := by
            apply hclaimed.cons
            intro child heq
            cases heq
          cases e with
          | other => exact hfailed
          | osError =>
            refine ⟨.unstarted _ List.mem_cons_self, fun answer => ?_⟩
            exact follows_orRaise (fun _ _ => ih (hfailed.other (by simp))) fun _ _ => hfailed.other (by simp)

theorem scan_follows (h : Held past children) :
    (runner.scan children).Follows Allowed (fun past' result => Held past' (left result)) past := by
  refine (reap_follows children h h.started).bind (fun past' children' h' => ?_) fun _ _ h' => h'
  refine ⟨.free _ .listIncomplete, fun answer => ?_⟩
  have hlisted : Held (⟨.listIncomplete, answer⟩ :: past') children' := Held.other h' (by simp)
  refine follows_orRaise (fun dispatches _ => ?_) fun _ _ => hlisted
  refine (launch_follows dispatches hlisted).bind (fun past'' children'' h'' => ?_) fun _ _ h'' => h''
  exact ⟨.free _ .pause, fun _ => Held.other h'' (by simp)⟩

/-- What the loop leaves to the clauses that stop the children. -/
def Leaves (past : Past) (result : Except (List Child) (Option (List Child))) : Prop :=
  (∀ children, result = .ok (some children) → Held past children) ∧ ∀ children, result = .error children →
    Held past children

theorem loop_follows (n : ℕ) : ∀ {past : Past} {children : List Child}, Held past children →
    (runner.loop n children).Follows Allowed Leaves past := by
  induction n with
  | zero =>
    intro past children h
    exact ⟨by simp, by simp⟩
  | succ n ih =>
    intro past children h
    refine ⟨.free _ .stopping, fun (stopping : Bool) => ?_⟩
    have hasked : Held (⟨.stopping, stopping⟩ :: past) children := h.other (by simp)
    cases stopping with
    | true =>
      constructor
      · intro children' hsame
        cases hsame
        exact hasked
      · simp
    | false =>
      refine (scan_follows hasked).bind (fun past' children' h' => ih h') fun past' e h' => ?_
      constructor
      · simp
      · intro children' hsame
        cases hsame
        exact h'

theorem closeAll_follows (hstop : runner.stopWorkersOnClose = true) (todo : List Child) : ∀ {past : Past},
    Held past children → (∀ child ∈ todo, Started past child) → (runner.closeAll todo).Follows Allowed
      (fun past' result => Held past' children ∧ (∀ e ∈ past, e ∈ past') ∧
        (result = .ok () → ∀ child ∈ todo, Closed past' child)) past := by
  induction todo with
  | nil => exact fun h _ => ⟨h, fun _ he => he, fun _ _ hchild => absurd hchild List.not_mem_nil⟩
  | cons child todo ih =>
    intro past h hstarted
    have hchild := hstarted child List.mem_cons_self
    unfold closeAll closeStdin
    rw [if_pos hstop]
    refine ⟨.closeStdin child hchild, fun answer => ?_⟩
    have hmono : ∀ e ∈ past, e ∈ (⟨.closeStdin child, answer⟩ : Sigma Query.Answer) :: past :=
      fun e he => List.mem_cons_of_mem _ he
    have hheld : Held (⟨.closeStdin child, answer⟩ :: past) children := h.other (by simp)
    refine follows_orRaise (fun _ hok => ?_) fun _ _ => ⟨hheld, hmono, by simp⟩
    have hrest := ih hheld fun other hother => hmono _ (hstarted other (List.mem_cons_of_mem _ hother))
    refine hrest.imp fun past' result hresult => ?_
    obtain ⟨hheld', hmono', hclosed⟩ := hresult
    refine ⟨hheld', fun e he => hmono' e (hmono e he), fun hdone other hother => ?_⟩
    rcases List.mem_cons.mp hother with rfl | hother
    · apply hmono'
      rw [hok]
      exact List.mem_cons_self
    · exact hclosed hdone other hother

/-- Every worker is waited for once all have been told to stop. -/
theorem waitAll_follows (deadline : Time) (todo : List Child) : ∀ {past : Past}, Held past children →
    (∀ child ∈ children, Closed past child) → (∀ child ∈ todo, Started past child) →
      (waitAll deadline todo).Follows Allowed (fun past' result => Held past' children ∧
        (∀ e ∈ past, e ∈ past') ∧
        (result = .ok () → ∀ child ∈ todo, Over past' child)) past := by
  induction todo with
  | nil => exact fun h _ _ => ⟨h, fun _ he => he, fun _ _ hchild => absurd hchild List.not_mem_nil⟩
  | cons child todo ih =>
    intro past h hclosed hstarted
    refine ⟨.free _ .monotonic, fun (now : Time) => ?_⟩
    have hread : Held (⟨.monotonic, now⟩ :: past) children := h.other (by simp)
    have htold : ∀ other, Started (⟨.monotonic, now⟩ :: past) other →
        Closed (⟨.monotonic, now⟩ :: past) other ∨ Over (⟨.monotonic, now⟩ :: past) other := by
      intro other hother
      rcases hread.covered other hother with hmem | hover
      · exact Or.inl (List.mem_cons_of_mem _ (hclosed other hmem))
      · exact Or.inr hover
    refine ⟨.wait child _ htold, fun answer => ?_⟩
    have hwaited : Held (⟨.wait child (max 0 (deadline - now)), answer⟩ :: ⟨.monotonic, now⟩ :: past)
        children :=
      hread.other (by simp)
    have hmono : ∀ e ∈ past, e ∈ (⟨.wait child (max 0 (deadline - now)), answer⟩ : Sigma Query.Answer) ::
        ⟨.monotonic, now⟩ :: past := fun e he => List.mem_cons_of_mem _ (List.mem_cons_of_mem _ he)
    refine follows_orRaise (fun _ hok => ?_) fun _ _ => ⟨hwaited, hmono, by simp⟩
    have hexited : Exited (⟨.wait child (max 0 (deadline - now)), answer⟩ :: ⟨.monotonic, now⟩ :: past)
        child := by
      rw [hok]
      exact .waited _ List.mem_cons_self
    refine ⟨.exited child (hmono _ (hstarted child List.mem_cons_self)) hexited, fun reply => ?_⟩
    have hmono' : ∀ e ∈ past, e ∈ (⟨.releaseExecution child, reply⟩ : Sigma Query.Answer) ::
        ⟨.wait child (max 0 (deadline - now)), answer⟩ :: ⟨.monotonic, now⟩ :: past :=
      fun e he => List.mem_cons_of_mem _ (hmono e he)
    have hreleased :
        Held (⟨.releaseExecution child, reply⟩ :: ⟨.wait child (max 0 (deadline - now)), answer⟩ ::
        ⟨.monotonic, now⟩ :: past) children := hwaited.other (by simp)
    refine follows_orRaise (fun _ hdone => ?_) fun _ _ => ⟨hreleased, hmono', by simp⟩
    have hrest := ih hreleased (fun other hother => hmono' _ (hclosed other hother))
      fun other hother => hmono' _ (hstarted other (List.mem_cons_of_mem _ hother))
    refine hrest.imp fun past' result hresult => ?_
    obtain ⟨hheld', hon, hover⟩ := hresult
    refine ⟨hheld', fun e he => hon e (hmono' e he), fun hfinished other hother => ?_⟩
    rcases List.mem_cons.mp hother with rfl | hother
    · refine ⟨hexited.mono fun e he => hon e (List.mem_cons_of_mem _ he), hon _ ?_⟩
      rw [hdone]
      exact List.mem_cons_self
    · exact hover hfinished other hother

/-- Every worker that was started is over. -/
def AllOver (past : Past) : Prop := ∀ child, Started past child → Over past child

theorem stopNow_follows (hstop : runner.stopWorkersOnClose = true) (h : Held past children) :
    (runner.stopNow children).Follows Allowed (fun past' result => result = .ok () → AllOver past') past := by
  refine (closeAll_follows hstop children h h.started).bind (fun past' _ hclosed => ?_) fun _ _ _ => by simp
  obtain ⟨hheld, -, hclosed⟩ := hclosed
  refine ⟨.free _ .monotonic, fun (now : Time) => ?_⟩
  have hread : Held (⟨.monotonic, now⟩ :: past') children := Held.other hheld (by simp)
  have hwaits := waitAll_follows (now + 5) children hread
    (fun child hchild => List.mem_cons_of_mem _ (hclosed rfl child hchild)) hread.started
  refine hwaits.imp fun past'' result hresult => ?_
  obtain ⟨hheld', -, hover⟩ := hresult
  intro hdone child hstarted
  rcases hheld'.covered child hstarted with hmem | hover'
  · exact hover hdone child hmem
  · exact hover'

theorem cancelAll_free (children : List Child) : (cancelAll children).Within Query.Free fun _ => True := by
  induction children with
  | nil => trivial
  | cons child rest ih =>
    refine ⟨.getDispatch child.dispatchId, fun (answer : Except Unit Dispatch) => ?_⟩
    cases answer with
    | error e => trivial
    | ok dispatch =>
      refine ⟨.requestCancellation dispatch.jobId, fun (answer : Except Unit Unit) => ?_⟩
      cases answer with
      | error e => trivial
      | ok _ => exact ih

theorem anyRunning_free (children : List Child) : (anyRunning children).Within Query.Free fun _ => True := by
  induction children with
  | nil => trivial
  | cons child rest ih =>
    refine ⟨.poll child, fun (exited : Bool) => ?_⟩
    cases exited with
    | false => trivial
    | true => exact ih

theorem drain_free (deadline : Time) (n : ℕ) : (drain deadline children n).Within Query.Free
    fun _ => True := by
  induction n with
  | zero => trivial
  | succ n ih =>
    refine (anyRunning_free children).bind fun running _ => ?_
    split_ifs
    · refine ⟨.monotonic, fun (now : Time) => ?_⟩
      change Script.Within _ _ (if deadline ≤ now then _ else _)
      split_ifs
      · trivial
      · exact ⟨.sleep, fun _ => ih⟩
    · trivial

theorem askToStop_free (n : ℕ) : (askToStop n children).Within Query.Free fun _ => True :=
  (cancelAll_free children).bind fun _ _ => ⟨.monotonic, fun (now : Time) => drain_free (now + 3) n⟩

theorem detachAll_free (children : List Child) : (detachAll children).Within Query.Free fun _ => True := by
  induction children with
  | nil => trivial
  | cons child rest ih => exact ⟨.detach child, fun _ => ih⟩

theorem stopChildren_follows (hstop : runner.stopWorkersOnClose = true) (n : ℕ) (h : Held past children) :
    (runner.stopChildren n children).Follows Allowed (fun past' result => result = .ok (some ()) →
      AllOver past') past := by
  have hasked : (attempted (askToStop n children)).Follows Allowed (fun past' _ =>
    Held past' children) past := by
    have hcaught : (askToStop n children >>= fun a => Script.ret (Except.ok a)).Follows Allowed
        (fun past' (_ : Except (List Child) (Except (List Child) (Option Unit))) =>
          Held past' children) past :=
      (free_follows (askToStop_free n) h).bind (fun _ _ h' => h') fun _ _ h' => h'
    exact hcaught.handle (fun _ _ h' => h') fun _ _ h' => h'
  refine hasked.bind (fun past' asked h' => ?_) fun _ _ _ => by simp
  cases asked with
  | error e => exact (stopNow_follows hstop h').bind (fun _ _ _ => by simp) fun _ _ _ => by simp
  | ok ended =>
    cases ended with
    | none => simp
    | some _ => exact (stopNow_follows hstop h').bind (fun _ _ hover _ => hover rfl) fun _ _ _ => by simp

end LocalProcessRunner

end

/-- The supervisor, whatever it is told: it does only what is allowed, and when it is to stop its workers and
ends without a shutdown error, every worker that it has started has exited and its lease is released.
Children are identified by their leases: each claim has a token of its own. -/
theorem supervise_follows (runner : LocalProcessRunner) (n m : ℕ) :
    (runner.supervise n m).Follows Allowed (fun past result =>
      result = .ok (some ()) → runner.stopWorkersOnClose = true → LocalProcessRunner.AllOver past) [] := by
  have hempty : Held [] [] := by
    constructor
    · exact fun child hchild => absurd hchild List.not_mem_nil
    · exact fun child hstarted => absurd hstarted List.not_mem_nil
  have hloop : ((runner.loop n []).handle fun children => .ret (some children)).Follows Allowed
      (fun past result => ∀ children, result = .ok (some children) → Held past children) [] := by
    refine (LocalProcessRunner.loop_follows n hempty).handle (fun past a h => h.1) fun past children h => ?_
    intro children' hsame
    cases hsame
    exact h.2 children rfl
  refine hloop.bind (fun past ended h => ?_) fun _ _ _ => by simp
  cases ended with
  | none => simp
  | some children =>
    have hheld := h children rfl
    simp only
    split_ifs with hstop
    · exact (LocalProcessRunner.stopChildren_follows hstop m hheld).imp fun _ _ hover hdone _ => hover hdone
    · refine (free_follows (LocalProcessRunner.detachAll_free children) hheld).bind (fun _ _ _ => ?_)
        fun _ _ _ => by simp
      exact fun _ htrue => absurd htrue hstop

end KenkuiServer.Local.Supervision
