import KenkuiServer.Data.Feed
import KenkuiServer.Hosted.Calls
import KenkuiServer.Local.Leases

/-! The event stream of a job over the local store. The generator lists the events, sends the new ones, reads
the snapshot and returns when the job is over; the store moves on between any two of its steps. -/
namespace KenkuiServer.Api
open Txn Jobs Data Storage Local

inductive StreamPhase
  /-- About to call `list_for_job`. -/
  | listing
  /-- Iterating over what `list_for_job` returned, with the events still to come. -/
  | emitting (listed rest : List JobEvent)
  | returned
  | raised (e : Error)
  deriving DecidableEq

/-- The generator of `stream_events`: `seen` with the events sent so far, and where it stands. -/
structure EventStream where
  reader : Reader JobEvent
  phase : StreamPhase := .listing

/-- One step of the generator: a query, or the next turn of the loop over the events. -/
def EventStream.step (jobId : String) (d : LocalDb) (g : EventStream) : EventStream :=
  match g.phase with
  | .listing =>
    let listed := Repositories.listForJob d jobId
    { g with phase := .emitting listed listed }
  | .emitting listed (event :: rest) =>
    { reader := g.reader.deliver JobEvent.sequence event, phase := .emitting listed rest }
  | .emitting _ [] =>
    match d.jobs.get? jobId with
    | none => { g with phase := .raised (.key jobId) }
    | some snapshot =>
      if snapshot.status.isTerminal then { g with phase := .returned } else { g with phase := .listing }
  | .returned => g
  | .raised _ => g

section
variable {d d' : LocalDb} {jobId : String}

/-- The events of a job. -/
def eventsOf (d : LocalDb) (jobId : String) : List JobEvent := d.events.rows.filter (·.jobId = jobId)

theorem numbered_eventsOf (h : (d.record jobId).Sequenced) :
    Numbered JobEvent.sequence (eventsOf d jobId) := by
  have hentries : (d.record jobId).entries = (eventsOf d jobId).map fun e => (e.sequence, e.progress) := rfl
  unfold Numbered
  cases hsnapshot : (d.record jobId).snapshot with
  | none =>
    have hnil : eventsOf d jobId = [] := by simpa [hentries] using h.absent hsnapshot
    rw [hnil]
    rfl
  | some job =>
    have hnumbers := h.numbers job.1 job.2 hsnapshot
    rw [hentries, List.map_map] at hnumbers
    have hlength := congrArg List.length hnumbers
    rw [List.length_map, List.length_range'] at hlength
    rw [hlength, ← hnumbers]
    rfl

theorem listForJob_eq (h : (d.record jobId).Sequenced) :
    Repositories.listForJob d jobId = eventsOf d jobId := by
  have hnumbered := numbered_eventsOf h
  refine List.Pairwise.insertionSort_eq ?_
  have hsorted : ((eventsOf d jobId).map JobEvent.sequence).Pairwise (· ≤ ·) := by
    rw [hnumbered]
    exact List.pairwise_le_range'
  exact List.pairwise_map.mp hsorted

theorem eventsOf_effect (h : LocalEffect StatusMove d d') (jobId : String) :
    eventsOf d jobId <+: eventsOf d' jobId ∧
      ∀ job, d.jobs.get? jobId = some job → job.status.isTerminal = true →
        eventsOf d' jobId = eventsOf d jobId := by
  unfold eventsOf
  cases h with
  | idle jobs events =>
    rw [events]
    exact ⟨List.prefix_rfl, fun _ _ _ => rfl⟩
  | created row fresh version jobs events =>
    rw [events]
    exact ⟨List.prefix_rfl, fun _ _ _ => rfl⟩
  | moved row next e move found version appended jobs events =>
    have hfree : d.events.get? (e.jobId, e.sequence) = none := by
      rw [appended.jobId, appended.sequence, d.nextSequence_eq]
      exact EventTable.get?_nextNumber _ _
    rw [events]
    by_cases hjob : e.jobId = jobId
    · have hput := Table.filter_put_of_none (p := (·.jobId = jobId)) hfree (by simpa using hjob)
      constructor
      · rw [hput]
        exact List.prefix_append _ _
      · intro job hget hover
        have hrow : row = job := by
          rw [appended.jobId] at hjob
          rw [hjob, hget] at found
          exact (Option.some.inj found).symm
        rw [← hrow, move.going] at hover
        cases hover
    · have hput := Table.filter_put_of_not (t := d.events) (p := (·.jobId = jobId)) (r := e)
        (by simpa using hjob)
        fun r hr => by rw [hfree] at hr; cases hr
      rw [hput]
      exact ⟨List.prefix_rfl, fun _ _ _ => rfl⟩

end

section
variable (jobId : String) (k : ℕ)

/-- A generator that follows `jobId` from event `k` on, in a run of the store: it is opened on an existing
job, and between its steps the store's calls commit. -/
inductive Streaming (ok : LocalDb → EventStream → Prop) (d₀ : LocalDb) : LocalRun → EventStream → Prop
  | opened {s : LocalRun} (reach : Serial.Reach Call.prog Starts d₀ s)
    (found : (s.db.jobs.get? jobId).isSome) :
    Streaming ok d₀ s { reader := { seen := k } }
  | commit {s : LocalRun} {g : EventStream} (call : Call) (streaming : Streaming ok d₀ s g)
      (allowed : Starts s call) : Streaming ok d₀ (s.step Call.prog call) g
  | read {s : LocalRun} {g : EventStream} (streaming : Streaming ok d₀ s g) (allowed : ok s.db g) :
    Streaming ok d₀ s (g.step jobId s.db)

/-- When the generator reads a terminal snapshot, it has listed every event after `k`. -/
def Calm (d : LocalDb) (g : EventStream) : Prop :=
  ∀ listed, g.phase = .emitting listed [] → ∀ job, d.jobs.get? jobId = some job →
    job.status.isTerminal = true →
    ∀ e ∈ d.events.rows, e.jobId = jobId → k < e.sequence → e ∈ listed

end

section
variable {ok : LocalDb → EventStream → Prop} {d₀ d d' : LocalDb} {s : LocalRun} {g : EventStream}
    {jobId : String}
  {k : ℕ}

/-- What the generator has sent are the events after `k` of a prefix of the log, and the list that it
iterates over is a prefix of the log at least as long. -/
def Follows (jobId : String) (k : ℕ) (d : LocalDb) (g : EventStream) : Prop :=
  ∃ items, Caught JobEvent.sequence k items g.reader ∧ items <+: eventsOf d jobId ∧
    ∀ listed rest, g.phase = .emitting listed rest →
      ∃ done, listed = done ++ rest ∧ done <+: items ∧ items <+: listed ∧ listed <+: eventsOf d jobId

theorem Follows.later (h : Follows jobId k d g) (hlog : eventsOf d jobId <+: eventsOf d' jobId) :
    Follows jobId k d' g := by
  obtain ⟨items, hcaught, hitems, hreading⟩ := h
  refine ⟨items, hcaught, hitems.trans hlog, fun listed rest hphase => ?_⟩
  obtain ⟨done, hsplit, hdone, hle, hlisted⟩ := hreading listed rest hphase
  exact ⟨done, hsplit, hdone, hle, hlisted.trans hlog⟩

theorem Follows.step (h : Follows jobId k d g) (hsequenced : (d.record jobId).Sequenced) :
    Follows jobId k d (g.step jobId d) := by
  obtain ⟨items, hcaught, hitems, hreading⟩ := h
  unfold EventStream.step
  cases hphase : g.phase with
  | listing =>
    refine ⟨items, hcaught, hitems, fun listed rest hnext => ?_⟩
    simp only [listForJob_eq hsequenced, StreamPhase.emitting.injEq] at hnext
    obtain ⟨rfl, rfl⟩ := hnext
    exact ⟨[], rfl, List.nil_prefix, hitems, List.prefix_rfl⟩
  | emitting listed rest =>
    obtain ⟨done, rfl, hdone, hle, hlisted⟩ := hreading listed rest hphase
    cases rest with
    | nil =>
      cases hget : d.jobs.get? jobId with
      | none => exact ⟨items, hcaught, hitems, fun listed rest hnext => by simp at hnext⟩
      | some snapshot =>
        by_cases hover : snapshot.status.isTerminal = true
        · simp only [hover, if_true]
          exact ⟨items, hcaught, hitems, fun listed rest hnext => by simp at hnext⟩
        · simp only [hover]
          exact ⟨items, hcaught, hitems, fun listed rest hnext => by simp at hnext⟩
    | cons e rest =>
      have hnumbered : Numbered JobEvent.sequence (done ++ e :: rest) := by
        obtain ⟨later, hlater⟩ := hlisted
        have hall := numbered_eventsOf hsequenced
        rw [← hlater] at hall
        exact (numbered_append hall).1
      obtain ⟨items', hcaught', -, hdone', hle'⟩ := hcaught.deliver_next hdone hle hnumbered
      refine ⟨items', hcaught', hle'.trans hlisted, fun listed' rest' hnext => ?_⟩
      simp only [StreamPhase.emitting.injEq] at hnext
      obtain ⟨rfl, rfl⟩ := hnext
      exact ⟨done ++ [e], by simp, hdone', hle', hlisted⟩
  | returned => exact ⟨items, hcaught, hitems, fun listed rest hnext => by simp [hphase] at hnext⟩
  | raised e => exact ⟨items, hcaught, hitems, fun listed rest hnext => by simp [hphase] at hnext⟩

theorem Streaming.reach (h : Streaming jobId k ok d₀ s g) : Serial.Reach Call.prog Starts d₀ s := by
  induction h with
  | opened reach => exact reach
  | commit call streaming allowed ih => exact .step call ih allowed
  | read streaming allowed ih => exact ih

theorem eventsOf_step (hreach : Serial.Reach Call.prog Starts d₀ s) {call : Call} (hcall : Starts s call)
    (jobId : String) :
    eventsOf s.db jobId <+: eventsOf (s.step Call.prog call).db jobId ∧
      ∀ job, s.db.jobs.get? jobId = some job → job.status.isTerminal = true →
        (s.step Call.prog call).db.jobs.get? jobId = some job ∧
          eventsOf (s.step Call.prog call).db jobId = eventsOf s.db jobId := by
  have heffect := reach_effect (fun _ _ => id) hreach hcall
  have hspec := Serial.step_spec Call.prog s call
  revert hspec
  generalize s.step Call.prog call = s'
  intro hspec
  cases hspec with
  | commit ok =>
    have heffect := heffect.of_ok ok
    have hevents := eventsOf_effect heffect jobId
    refine ⟨hevents.1, fun job hget hover => ⟨?_, hevents.2 job hget hover⟩⟩
    obtain ⟨job', hget', hsame⟩ := jobs_onward heffect jobId job hget
    rw [hget', hsame hover]
  | fail error => exact ⟨List.prefix_rfl, fun job hget _ => ⟨hget, rfl⟩⟩

theorem Streaming.sequenced (h : Streaming jobId k ok d₀ s g) (hjobs : d₀.jobs = ∅)
    (hevents : d₀.events = ∅) :
    (s.db.record jobId).Sequenced := by
  refine reach_sequenced (fun _ _ => id) (fun id => ?_) h.reach s.db List.mem_cons_self jobId
  unfold LocalDb.record
  rw [hjobs, hevents]
  exact Record.sequenced_empty

theorem Streaming.follows (h : Streaming jobId k ok d₀ s g) (hjobs : d₀.jobs = ∅) (hevents : d₀.events = ∅) :
    Follows jobId k s.db g := by
  induction h with
  | opened reach found =>
    exact ⟨[], caught_nil k, List.nil_prefix, fun listed rest hphase => by simp at hphase⟩
  | commit call streaming allowed ih => exact ih.later (eventsOf_step streaming.reach allowed jobId).1
  | read streaming allowed ih => exact ih.step (streaming.sequenced hjobs hevents)

/-- A generator that has returned found the job over, and has sent every event after `k`. -/
def Finished (jobId : String) (k : ℕ) (d : LocalDb) (g : EventStream) : Prop :=
  g.phase = .returned → (∃ job, d.jobs.get? jobId = some job ∧ job.status.isTerminal = true) ∧
    ∀ e ∈ eventsOf d jobId, k < e.sequence → e ∈ g.reader.emitted

theorem Finished.step (h : Finished jobId k d g) (hfollows : Follows jobId k d g) (hcalm : Calm jobId k d g) :
    Finished jobId k d (g.step jobId d) := by
  unfold EventStream.step
  cases hphase : g.phase with
  | listing => exact fun hreturned => by simp at hreturned
  | emitting listed rest =>
    cases rest with
    | cons e rest => exact fun hreturned => by simp at hreturned
    | nil =>
      cases hget : d.jobs.get? jobId with
      | none => exact fun hreturned => by simp at hreturned
      | some snapshot =>
        by_cases hover : snapshot.status.isTerminal = true
        · simp only [hover, if_true]
          refine fun _ => ⟨⟨snapshot, hget, hover⟩, fun e he hk => ?_⟩
          obtain ⟨items, hcaught, -, hreading⟩ := hfollows
          obtain ⟨done, hsplit, hdone, hle, -⟩ := hreading listed [] hphase
          rw [List.append_nil] at hsplit
          subst hsplit
          have hitems : items = listed := hle.eq_of_length_le hdone.length_le
          obtain ⟨hmem, hjob⟩ := List.mem_filter.mp he
          have hlisted := hcalm listed hphase snapshot hget hover e hmem (by simpa using hjob) hk
          show e ∈ g.reader.emitted
          rw [hcaught.emitted, hitems]
          exact List.mem_filter.mpr ⟨hlisted, by simpa using hk⟩
        · simp only [hover]
          exact fun hreturned => by simp at hreturned
  | returned => exact h
  | raised e => exact h

theorem Streaming.ids (h : Streaming jobId k ok d₀ s g) (hjobs : d₀.jobs = ∅) (hevents : d₀.events = ∅) :
    g.reader.emitted.map JobEvent.sequence = List.range' (k + 1) g.reader.emitted.length := by
  obtain ⟨items, hcaught, ⟨later, hlater⟩, -⟩ := h.follows hjobs hevents
  have hall := numbered_eventsOf (h.sequenced hjobs hevents)
  rw [← hlater] at hall
  exact hcaught.numbers (numbered_append hall).1

theorem Streaming.finished (h : Streaming jobId k (Calm jobId k) d₀ s g) (hjobs : d₀.jobs = ∅)
    (hevents : d₀.events = ∅) : Finished jobId k s.db g := by
  induction h with
  | opened reach found => exact fun hreturned => by simp at hreturned
  | commit call streaming allowed ih =>
    intro hreturned
    obtain ⟨⟨job, hget, hover⟩, hsent⟩ := ih hreturned
    obtain ⟨hget', hlog⟩ := (eventsOf_step streaming.reach allowed jobId).2 job hget hover
    refine ⟨⟨job, hget', hover⟩, ?_⟩
    rw [hlog]
    exact hsent
  | read streaming allowed ih => exact ih.step (streaming.follows hjobs hevents) allowed

/-- In every run of the store with generators that follow a job from event `k` on, the ids sent count up from
`k + 1`; and when every read of a terminal snapshot finds no event after `k` that was committed since the
listing, a generator that has returned has sent every event after `k`. -/
theorem stream_complete {d₀ : LocalDb} {s : LocalRun} {g : EventStream} {jobId : String} {k : ℕ}
    (hjobs : d₀.jobs = ∅) (hevents : d₀.events = ∅) :
    (∀ ok, Streaming jobId k ok d₀ s g →
      g.reader.emitted.map JobEvent.sequence = List.range' (k + 1) g.reader.emitted.length) ∧
    (Streaming jobId k (Calm jobId k) d₀ s g → g.phase = .returned →
      ∀ e ∈ s.db.events.rows, e.jobId = jobId → k < e.sequence → e ∈ g.reader.emitted) := by
  constructor
  · exact fun ok h => h.ids hjobs hevents
  · intro h hreturned e he hjob hk
    exact (h.finished hjobs hevents hreturned).2 e (List.mem_filter.mpr ⟨he, by simpa using hjob⟩) hk

end

def calmNow (jobId : String) (k : ℕ) (d : LocalDb) (g : EventStream) : Bool :=
  match g.phase with
  | .emitting listed [] => d.events.rows.all fun e => e.jobId ≠ jobId ∨ e.sequence ≤ k ∨ e ∈ listed
  | _ => true

theorem calm_of_calmNow {jobId : String} {k : ℕ} {d : LocalDb} {g : EventStream} (h : calmNow jobId k d g) :
    Calm jobId k d g := by
  intro listed hphase job _ _ e he hjob hk
  simp only [calmNow, hphase, List.all_eq_true] at h
  have hlisted := of_decide_eq_true (h e he)
  rcases hlisted with hother | hle | hlisted
  · exact absurd hjob hother
  · omega
  · exact hlisted

/-- A running job with one event. -/
def running : LocalRun :=
  (({ db := {} } : LocalRun).step Call.prog
    (.createJobAndDispatch Hosted.sampleJob ⟨"dispatch", "job", "pending", 0⟩ none)).step Call.prog
      (.update Hosted.sampleJob .dispatchRequested "running" none none none 0)

/-- The worker completes it. -/
def completion : Call :=
  .update (Hosted.sampleJob.set .running 1 .running) .completed "succeeded"
    none none none 0

theorem reach_running : Serial.Reach Call.prog Starts {} running := by
  have hcreated : Serial.Reach Call.prog Starts {} (({ db := {} } : LocalRun).step Call.prog
      (.createJobAndDispatch Hosted.sampleJob ⟨"dispatch", "job", "pending", 0⟩ none)) := .step _ .init rfl
  exact .step _ hcreated ⟨_, List.mem_cons_self, by decide +kernel⟩

theorem completion_starts : Starts running completion := ⟨running.db, List.mem_cons_self, by decide +kernel⟩

/-- The completion commits between two rounds of a stream: the second round sends the event that ends the
job. -/
theorem stream_complete_over :
    let s := running.step Call.prog completion
    let g₁ := (EventStream.step "job" running.db)^[3] { reader := { seen := 0 } }
    let g := (EventStream.step "job" s.db)^[4] g₁
    g₁.reader.emitted.map JobEvent.sequence = [1] ∧ g.phase = .returned ∧
      g.reader.emitted.map JobEvent.sequence = [1, 2] ∧
      ∀ e ∈ s.db.events.rows, e.jobId = "job" → 0 < e.sequence → e ∈ g.reader.emitted := by
  have hopened : Streaming "job" 0 (Calm "job" 0) {} running { reader := { seen := 0 } } :=
    .opened reach_running (by decide +kernel)
  have hfirst := ((hopened.read (calm_of_calmNow (by decide +kernel))).read
    (calm_of_calmNow (by decide +kernel))).read (calm_of_calmNow (by decide +kernel))
  have hcommitted := hfirst.commit completion completion_starts
  have hread := (((hcommitted.read (calm_of_calmNow (by decide +kernel))).read
    (calm_of_calmNow (by decide +kernel))).read (calm_of_calmNow (by decide +kernel))).read
      (calm_of_calmNow (by decide +kernel))
  exact ⟨by decide +kernel, by decide +kernel, by decide +kernel,
    (stream_complete rfl rfl).2 hread (by decide +kernel)⟩

/-- The completion commits after the events were listed and before the snapshot is read: the stream ends
without the terminal event. -/
theorem stream_incomplete :
    ∃ (s : LocalRun) (g : EventStream), Streaming "job" 0 (fun _ _ => True) {} s g ∧ g.phase = .returned ∧
      ∃ e ∈ s.db.events.rows, e.jobId = "job" ∧ 0 < e.sequence ∧ e ∉ g.reader.emitted := by
  have hopened : Streaming "job" 0 (fun _ _ => True) {} running { reader := { seen := 0 } } :=
    .opened reach_running (by decide +kernel)
  have hsent := (hopened.read trivial).read trivial
  have hread := (hsent.commit completion completion_starts).read trivial
  exact ⟨_, _, hread, by decide +kernel⟩

end KenkuiServer.Api
