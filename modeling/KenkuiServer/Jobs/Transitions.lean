import KenkuiServer.Jobs.Models

/-! Transitions over immutable job snapshots. -/
namespace KenkuiServer.Jobs

inductive JobTransitionEvent
  | dispatchRequested
  | cancelRequested
  | cancelled
  | completed
  | failed
  | progressReported (stage : String) (completed total : ℤ)
  deriving DecidableEq, Repr

def eventName : JobTransitionEvent → String
  | .cancelRequested => "cancel_requested"
  | .cancelled => "cancelled"
  | .completed => "completed"
  | .failed => "failed"
  | .dispatchRequested => "dispatch_requested"
  | .progressReported _ _ _ => "progress_reported"

/-- The `ValueError` that `InvalidTransition` is. -/
def invalidTransition (job : Job) (event : JobTransitionEvent) : Error :=
  .value ("invalid_transition." ++ job.status.value ++ "." ++ eventName event)

def transition (job : Job) (event : JobTransitionEvent) : Except Error Job :=
  match event, job.status with
  | .cancelRequested, .queued => .ok { job with status := .cancelled, version := job.version + 1 }
  | .cancelRequested, .running => .ok { job with status := .cancelRequested, version := job.version + 1 }
  | .cancelled, .cancelRequested => .ok { job with status := .cancelled, version := job.version + 1 }
  | .dispatchRequested, .queued =>
    .ok { job with status := .running, progress := .running, version := job.version + 1 }
  | .completed, .running => .ok { job with status := .succeeded, version := job.version + 1 }
  | .failed, .running => .ok { job with status := .failed, version := job.version + 1 }
  | .progressReported stage completed total, .running => do
    let progress ← Progress.init stage completed total
    return { job with progress, version := job.version + 1 }
  | event, _ => .error (invalidTransition job event)

/-- The moves that `transition` can make. -/
inductive Moves : JobStatus → JobStatus → Prop
  | cancelQueued : Moves .queued .cancelled
  | start : Moves .queued .running
  | progress : Moves .running .running
  | requestCancel : Moves .running .cancelRequested
  | complete : Moves .running .succeeded
  | fail : Moves .running .failed
  | acknowledgeCancel : Moves .cancelRequested .cancelled

/-- What a transition keeps, and where it may go. -/
structure Advances (job next : Job) : Prop where
  id : next.id = job.id
  spec : next.spec = job.spec
  version : next.version = job.version + 1
  moves : Moves job.status next.status

theorem transition_advances {job next : Job} {event : JobTransitionEvent}
    (h : transition job event = .ok next) : Advances job next := by
  unfold transition at h
  split at h
  case h_7 stage completed total hs =>
    cases hp : Progress.init stage completed total with
    | error e => simp [hp, Bind.bind, Except.bind] at h
    | ok progress =>
      simp only [hp, Bind.bind, Except.bind, Pure.pure, Except.pure, Except.ok.injEq] at h
      subst h
      exact ⟨rfl, rfl, rfl, hs ▸ .progress⟩
  case h_8 => cases h
  all_goals
    rename_i hs
    cases h
    refine ⟨rfl, rfl, rfl, ?_⟩
    rw [hs]
    constructor

theorem transition_error {job : Job} {event : JobTransitionEvent} {e : Error}
    (h : transition job event = .error e) :
    e = invalidTransition job event ∨
      e ∈ [Error.value "invalid_progress_stage", .value "invalid_progress"] := by
  unfold transition at h
  split at h
  case h_7 stage completed total hs =>
    cases hp : Progress.init stage completed total with
    | error e' =>
      simp only [hp, Bind.bind, Except.bind, Except.error.injEq] at h
      exact Or.inr (h ▸ Progress.init_error hp)
    | ok progress => simp [hp, Bind.bind, Except.bind, Pure.pure, Except.pure] at h
  case h_8 => cases h; exact Or.inl rfl
  all_goals cases h

theorem transition_error_value {job : Job} {event : JobTransitionEvent} {e : Error}
    (h : transition job event = .error e) : ∃ code, e = .value code := by
  rcases transition_error h with rfl | hmem
  · exact ⟨_, rfl⟩
  · simp only [List.mem_cons, List.not_mem_nil, or_false] at hmem
    rcases hmem with rfl | rfl <;> exact ⟨_, rfl⟩

/-- A finished job has no transition. -/
theorem Moves.not_terminal {s t : JobStatus} (h : Moves s t) : s.isTerminal = false := by
  cases h <;> rfl

end KenkuiServer.Jobs
