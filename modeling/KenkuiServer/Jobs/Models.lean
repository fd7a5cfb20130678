import KenkuiServer.Errors
import Mathlib.Data.List.DropRight

/-! Domain values for audiobook jobs. A value whose constructor normalizes or checks it carries what
was checked, so that an invalid one cannot be built. -/
namespace KenkuiServer.Jobs

/-- The characters that `str.strip` removes. -/
def isSpace (c : Char) : Bool :=
  c.val ∈ [9, 10, 11, 12, 13, 28, 29, 30, 31, 32, 133, 160, 5760, 8232, 8233, 8239, 8287, 12288] ∨
    (8192 ≤ c.val ∧ c.val ≤ 8202)

def strip (value : String) : String :=
  .ofList ((value.toList.dropWhile isSpace).rdropWhile isSpace)

theorem rdropWhile_dropWhile_idem {α : Type} (p : α → Bool) (l : List α) :
    (((l.dropWhile p).rdropWhile p).dropWhile p).rdropWhile p = (l.dropWhile p).rdropWhile p := by
  have hhead : ((l.dropWhile p).rdropWhile p).dropWhile p = (l.dropWhile p).rdropWhile p := by
    cases hd : (l.dropWhile p).rdropWhile p with
    | nil => rfl
    | cons x xs =>
      obtain ⟨t, ht⟩ := List.rdropWhile_prefix p (l := l.dropWhile p)
      rw [hd] at ht
      have hx : p x = false := by
        have := List.dropWhile_idempotent (p := p) l
        rw [← ht] at this
        by_contra hp
        rw [Bool.not_eq_false] at hp
        have hlen := congrArg List.length this
        simp only [List.cons_append, List.dropWhile_cons, hp, if_true] at hlen
        have := List.length_dropWhile_le p (xs ++ t)
        simp only [List.length_cons] at hlen
        omega
      simp [hx]
  rw [hhead, List.rdropWhile_idempotent]

@[simp] theorem strip_strip (value : String) : strip (strip value) = strip value := by
  simp only [strip, String.toList_ofList, rdropWhile_dropWhile_idem]

def required (value code : String) : Except Error String :=
  if strip value = "" then .error (.value code) else .ok (strip value)

theorem required_ok {value code normalized : String} (h : required value code = .ok normalized) :
    strip normalized = normalized ∧ normalized ≠ "" := by
  unfold required at h
  split_ifs at h with hs
  cases h
  exact ⟨strip_strip value, hs⟩

structure CharacterCasting where
  narratorVoiceId : String
  unknownVoiceId : String
  cast : List (String × String)
  method : String
  modelId : String
  deriving DecidableEq, Repr

inductive Casting
  | single (voiceId : String)
  | characters (casting : CharacterCasting)
  deriving DecidableEq, Repr

/-- `isinstance(casting, CharacterCasting)`. -/
def Casting.isCharacters : Casting → Bool
  | .single _ => false
  | .characters _ => true

structure TtsSettings where
  normalizeText : Bool := true
  chapterPauses : Bool := false
  prepareNumbers : Bool := false
  pronunciationCorrections : Bool := false
  stutterHandling : Bool := false
  chapterPauseMs : Option ℤ := none
  headingBeforePauseMs : ℤ := 0
  headingAfterPauseMs : ℤ := 0
  paragraphPauseMs : ℤ := 0
  linePauseMs : ℤ := 0
  scenePauseMs : ℤ := 0
  speakChapterTitles : Bool := false
  chapterTitlePauseMs : ℤ := 750
  chapterTitleOverrides : List (String × Option String) := []
  deriving DecidableEq, Repr

structure OutputSpec where
  path : String
  title : Option String := none
  author : Option String := none
  sourceCover : Bool := true
  deriving DecidableEq, Repr

structure JobSpec where
  sourceId : String
  chapters : List String
  casting : Casting
  tts : TtsSettings
  output : OutputSpec
  sourceNamed : strip sourceId = sourceId ∧ sourceId ≠ ""
  chaptersNamed : ∀ c ∈ chapters, strip c = c ∧ c ≠ ""
  chaptersNonempty : chapters ≠ []
  chaptersNodup : chapters.Nodup
  deriving DecidableEq, Repr

inductive JobStatus
  | queued | running | cancelRequested | succeeded | failed | cancelled
  deriving DecidableEq, Repr

namespace JobStatus

def value : JobStatus → String
  | queued => "queued"
  | running => "running"
  | cancelRequested => "cancel_requested"
  | succeeded => "succeeded"
  | failed => "failed"
  | cancelled => "cancelled"

def isTerminal : JobStatus → Bool
  | succeeded | failed | cancelled => true
  | _ => false

end JobStatus

structure Progress where
  stage : String
  completed : ℕ
  total : ℕ
  bounded : completed ≤ total
  named : strip stage = stage ∧ stage ≠ ""
  deriving DecidableEq, Repr

/-- `Progress(stage, completed, total)` with its checks. -/
def Progress.init (stage : String) (completed total : ℤ) : Except Error Progress :=
  match h : required stage "invalid_progress_stage" with
  | .error e => .error e
  | .ok stage =>
    if hb : completed < 0 ∨ total < 0 ∨ completed > total then .error (.value "invalid_progress")
    else .ok ⟨stage, completed.toNat, total.toNat, by omega, required_ok h⟩

def Progress.queued : Progress := ⟨"queued", 0, 0, le_rfl, by decide⟩

def Progress.running : Progress := ⟨"running", 0, 0, le_rfl, by decide⟩

structure Job where
  id : String
  spec : JobSpec
  status : JobStatus := .queued
  version : ℕ := 0
  progress : Progress := .queued
  named : strip id = id ∧ id ≠ ""
  deriving DecidableEq, Repr

/-- `SET status, version, progress_json`. -/
def Job.set (job : Job) (status : JobStatus) (version : ℕ) (progress : Progress) : Job :=
  { job with status, version, progress }

structure JobEvent where
  jobId : String
  sequence : ℕ
  eventType : String
  progress : Progress
  deriving DecidableEq, Repr

/-- `JobEvent(job_id, sequence, event_type, progress)` with its checks. -/
def JobEvent.init (jobId : String) (sequence : ℕ) (eventType : String) (progress : Progress) :
    Except Error JobEvent := do
  let jobId ← required jobId "invalid_job_id"
  let eventType ← required eventType "invalid_event_type"
  if sequence < 1 then throw (.value "invalid_event_sequence")
  return ⟨jobId, sequence, eventType, progress⟩

theorem required_eq {value code : String} (h : strip value = value ∧ value ≠ "") :
    required value code = .ok value := by
  simp [required, h.1, h.2]

theorem required_error {value code : String} {e : Error} (h : required value code = .error e) :
    e = .value code := by
  unfold required at h
  split_ifs at h
  cases h
  rfl

theorem Progress.init_error {stage : String} {completed total : ℤ} {e : Error}
    (h : Progress.init stage completed total = .error e) :
    e ∈ [Error.value "invalid_progress_stage", .value "invalid_progress"] := by
  unfold Progress.init at h
  split at h
  case h_1 e' hs => cases h; simp [required_error hs]
  case h_2 hs =>
    split_ifs at h
    cases h
    simp

/-- An event of a job that exists is of that job. -/
theorem JobEvent.init_ok {jobId eventType : String} {sequence : ℕ} {progress : Progress}
    {event : JobEvent} (hid : strip jobId = jobId ∧ jobId ≠ "")
    (h : JobEvent.init jobId sequence eventType progress = .ok event) :
    event.jobId = jobId ∧ event.sequence = sequence ∧ event.progress = progress := by
  simp only [JobEvent.init, required_eq hid, Bind.bind, Except.bind, Pure.pure, Except.pure, throw,
    throwThe, MonadExceptOf.throw] at h
  cases ht : required eventType "invalid_event_type" with
  | error e => simp [ht] at h
  | ok name =>
    simp only [ht] at h
    split_ifs at h
    cases h
    exact ⟨rfl, rfl, rfl⟩

theorem JobEvent.init_sequence {jobId eventType : String} {sequence : ℕ} {progress : Progress}
    {event : JobEvent} (h : JobEvent.init jobId sequence eventType progress = .ok event) :
    event.sequence = sequence := by
  simp only [JobEvent.init, Bind.bind, Except.bind, Pure.pure, Except.pure, throw, throwThe,
    MonadExceptOf.throw] at h
  cases hj : required jobId "invalid_job_id" with
  | error e => simp [hj] at h
  | ok id =>
    cases ht : required eventType "invalid_event_type" with
    | error e => simp [hj, ht] at h
    | ok type =>
      simp only [hj, ht] at h
      split_ifs at h
      cases h
      rfl

theorem JobEvent.init_error {jobId eventType : String} {sequence : ℕ} {progress : Progress} {e : Error}
    (h : JobEvent.init jobId sequence eventType progress = .error e) :
    e ∈ [Error.value "invalid_job_id", .value "invalid_event_type", .value "invalid_event_sequence"] := by
  simp only [JobEvent.init, Bind.bind, Except.bind, Pure.pure, Except.pure, throw, throwThe,
    MonadExceptOf.throw] at h
  cases hj : required jobId "invalid_job_id" with
  | error e' => simp only [hj, Except.error.injEq] at h; simp [← h, required_error hj]
  | ok name =>
    cases ht : required eventType "invalid_event_type" with
    | error e' => simp only [hj, ht, Except.error.injEq] at h; simp [← h, required_error ht]
    | ok type =>
      simp only [hj, ht] at h
      split_ifs at h
      cases h
      simp

structure Dispatch where
  id : String
  jobId : String
  status : String
  version : ℕ := 0
  deriving DecidableEq, Repr

structure Asset where
  id : String
  path : String
  sha256 : String
  format : String
  deriving DecidableEq, Repr

structure Artifact where
  id : String
  jobId : String
  path : String
  format : String
  deriving DecidableEq, Repr

end KenkuiServer.Jobs
