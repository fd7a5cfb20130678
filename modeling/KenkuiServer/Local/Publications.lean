import KenkuiServer.Local.Dispatches
import KenkuiServer.Local.Worker

/-! The artifacts of the jobs that succeeded, and the files that the attempts put their outputs at. -/
namespace KenkuiServer.Storage
open Txn Jobs

def LocalDb.Succeeded (d : LocalDb) (jobId : String) : Prop :=
  ∃ job, d.jobs.get? jobId = some job ∧ job.status = .succeeded

/-- A job has an artifact exactly if it succeeded, and never two. -/
structure LocalDb.ArtifactsMatch (d : LocalDb) : Prop where
  single : ∀ a ∈ d.artifacts.rows, ∀ b ∈ d.artifacts.rows, a.jobId = b.jobId → a = b
  succeeded : ∀ jobId, (∃ a ∈ d.artifacts.rows, a.jobId = jobId) ↔ d.Succeeded jobId

section
variable {d d' : LocalDb}

theorem succeeded_put_of_not {next : Job} (hjobs : d'.jobs = d.jobs.put next)
    (hnext : next.status ≠ .succeeded) (hbefore : ¬ d.Succeeded next.id) (jobId : String) :
    d'.Succeeded jobId ↔ d.Succeeded jobId := by
  unfold LocalDb.Succeeded
  rw [hjobs, Table.get?_put]
  split_ifs with hid
  · constructor
    · rintro ⟨job, hjob, hdone⟩
      rw [← Option.some.inj hjob] at hdone
      exact absurd hdone hnext
    · intro hdone
      rw [← hid] at hdone
      exact absurd hdone hbefore
  · rfl

theorem not_succeeded {jobId : String} {row : Job} (hrow : d.jobs.get? jobId = some row)
    (hgoing : row.status.isTerminal = false) : ¬ d.Succeeded jobId := by
  rintro ⟨job, hjob, hdone⟩
  rw [hrow] at hjob
  rw [Option.some.inj hjob, hdone] at hgoing
  cases hgoing

theorem LocalDb.ArtifactsMatch.same (h : d.ArtifactsMatch) (hartifacts : d'.artifacts = d.artifacts)
    (hjobs : ∀ jobId, d'.Succeeded jobId ↔ d.Succeeded jobId) : d'.ArtifactsMatch := by
  constructor
  · rw [hartifacts]
    exact h.single
  · intro jobId
    rw [hartifacts, hjobs]
    exact h.succeeded jobId

theorem LocalDb.ArtifactsMatch.publish (h : d.ArtifactsMatch) {next : Job} {artifact : Artifact}
    (hbefore : ¬ d.Succeeded next.id) (hdone : next.status = .succeeded) (hown : artifact.jobId = next.id)
    (hfresh : d.artifacts.get? artifact.id = none) (hjobs : d'.jobs = d.jobs.put next)
    (hartifacts : d'.artifacts = d.artifacts.put artifact) : d'.ArtifactsMatch := by
  have hmem : ∀ a, a ∈ d'.artifacts.rows ↔ a = artifact ∨ a ∈ d.artifacts.rows := by
    intro a
    rw [hartifacts, Table.rows_put_of_none hfresh, List.mem_append, List.mem_singleton, or_comm]
  have hother : ∀ a ∈ d.artifacts.rows, a.jobId ≠ next.id := by
    intro a ha hsame
    exact hbefore ((h.succeeded next.id).mp ⟨a, ha, hsame⟩)
  constructor
  · intro a ha b hb hsame
    rcases (hmem a).mp ha with hnew | hold <;> rcases (hmem b).mp hb with hnew' | hold'
    · rw [hnew, hnew']
    · rw [hnew, hown] at hsame
      exact absurd hsame.symm (hother b hold')
    · rw [hnew', hown] at hsame
      exact absurd hsame (hother a hold)
    · exact h.single a hold b hold' hsame
  · intro jobId
    by_cases hid : next.id = jobId
    · refine iff_of_true ⟨artifact, (hmem artifact).mpr (Or.inl rfl), by rw [hown, hid]⟩ ⟨next, ?_, hdone⟩
      rw [hjobs, ← hid]
      exact Table.get?_put_self _ _
    · have hjob : d'.Succeeded jobId ↔ d.Succeeded jobId := by
        unfold LocalDb.Succeeded
        rw [hjobs, Table.get?_put_of_ne _ hid]
      rw [hjob, ← h.succeeded jobId]
      constructor
      · rintro ⟨a, ha, hjobId⟩
        rcases (hmem a).mp ha with hnew | hold
        · rw [hnew, hown] at hjobId
          exact absurd hjobId hid
        · exact ⟨a, hold, hjobId⟩
      · rintro ⟨a, ha, hjobId⟩
        exact ⟨a, (hmem a).mpr (Or.inr ha), hjobId⟩

end

end KenkuiServer.Storage

namespace KenkuiServer.Local
open Txn Jobs Storage Repositories

/-- An update carries an artifact exactly if it completes its job. -/
def Call.Completes : Call → Prop
  | .update _ event _ artifact _ _ _ => artifact.isSome ↔ event = .completed
  | _ => True

theorem transition_succeeded {job next : Job} {event : JobTransitionEvent}
    (h : transition job event = .ok next) :
    next.status = .succeeded ↔ event = .completed := by
  unfold transition at h
  split at h
  case h_7 stage completed total hs =>
    cases hp : Progress.init stage completed total with
    | error e => simp [hp, Bind.bind, Except.bind] at h
    | ok progress =>
      simp only [hp, Bind.bind, Except.bind, Pure.pure, Except.pure, Except.ok.injEq] at h
      subst h
      simp [hs]
  case h_8 => cases h
  all_goals
    cases h
    simp

/-- What a committed call does to the jobs and to the artifacts. -/
inductive Publication (call : Call) (d d' : LocalDb) : Prop
  | same (jobs : d'.jobs = d.jobs) (artifacts : d'.artifacts = d.artifacts)
  | created (job : Job) (dispatch : Dispatch) (key : Option String)
      (asked : call = .createJobAndDispatch job dispatch key) (fresh : d.jobs.get? job.id = none)
      (jobs : d'.jobs = d.jobs.put job) (artifacts : d'.artifacts = d.artifacts)
  | moved (row next : Job) (found : d.jobs.get? next.id = some row) (going : row.status.isTerminal = false)
      (unfinished : next.status ≠ .succeeded) (jobs : d'.jobs = d.jobs.put next)
      (artifacts : d'.artifacts = d.artifacts)
  | published (snapshot : Job) (event : JobTransitionEvent) (eventType : String) (artifact : Artifact)
      (lease : Option Lease) (failure : Option (String × String)) (now : Time)
      (asked : call = .update snapshot event eventType (some artifact) lease failure now)
      (next : Job) (found : d.jobs.get? next.id = some snapshot) (going : snapshot.status.isTerminal = false)
      (done : next.status = .succeeded) (own : artifact.jobId = next.id)
      (fresh : d.artifacts.get? artifact.id = none) (jobs : d'.jobs = d.jobs.put next)
      (artifacts : d'.artifacts = d.artifacts.put artifact)

section
variable {past : List LocalDb} {d d' : LocalDb} {reply : Reply}

theorem Call.publication (call : Call) (hadm : call.Admissible past) (hcompletes : call.Completes)
    (hpast : ∀ old ∈ past, Table.Later (fun job : Job => job.version) old.jobs d.jobs)
    (h : call.prog.run d = .ok (reply, d')) : Publication call d d' := by
  cases call with
  | createJobAndDispatch job dispatch idempotencyKey =>
    obtain ⟨job', hrun, -⟩ := Prog.run_map_ok h
    cases create_outcome.of_ok hrun with
    | replayed => exact .same rfl rfl
    | inserted fresh freshDispatch => exact .created job dispatch idempotencyKey rfl fresh rfl rfl
  | update snapshot event eventType artifact lease failure now =>
    simp only [Call.prog] at h
    cases ht : transition snapshot event with
    | error e => simp [ht] at h
    | ok job =>
      simp only [ht] at h
      obtain ⟨e, hrun, -⟩ := Prog.run_map_ok h
      have hupdated := update_outcome.of_ok hrun
      have hresult := hupdated.result
      have hadvances := transition_advances ht
      have hgoing := hadvances.moves.not_terminal
      have hcurrent : d.jobs.get? job.id = some snapshot := by
        rw [hadvances.id]
        exact update_replaces hadm hpast ht hupdated
      cases artifact with
      | none =>
        refine .moved snapshot job hcurrent hgoing ?_ (congrArg LocalDb.jobs hresult) (by rw [hresult]; rfl)
        intro hdone
        have hevent := (transition_succeeded ht).mp hdone
        simpa using hcompletes.mpr hevent
      | some artifact =>
        have hpublishable := hupdated.publishable artifact rfl
        exact .published snapshot event eventType artifact lease failure now rfl job hcurrent
          hgoing hpublishable.1
          hpublishable.2.1 hpublishable.2.2 (congrArg LocalDb.jobs hresult) (by rw [hresult]; rfl)
  | requestCancellation jobId =>
    obtain ⟨job, hrun, -⟩ := Prog.run_map_ok h
    cases cancel_outcome.of_ok hrun with
    | already found settled result =>
      rw [result]
      exact .same rfl rfl
    | moved row e found going cancelled appended result =>
      have hid : row.id = jobId := Table.key_of_get? found
      have hjob : job.id = row.id := by rw [cancelled]; rfl
      refine .moved row job (by rw [hjob, hid, found]) going ?_ (congrArg LocalDb.jobs result)
        (by rw [result])
      rw [cancelled]
      rcases cancellation_status row.status ((d.dispatchOfJob jobId).map (·.status)) with hstatus | hstatus
      all_goals
        simp only [Job.set, hstatus]
        simp
  | finishDispatch dispatch lease now =>
    obtain ⟨finished, hrun, -⟩ := Prog.run_map_ok h
    cases finish_outcome.of_ok hrun <;> exact .same rfl rfl
  | updateDispatch dispatch status =>
    obtain ⟨u, hrun, -⟩ := Prog.run_map_ok (f := fun _ => Reply.none) h
    obtain ⟨stored, -, -, rfl⟩ := updateDispatch_outcome.of_ok hrun
    exact .same rfl rfl
  | claimExecution dispatchId limit ttl maxAttempts token now =>
    obtain ⟨issued, hrun, -⟩ := Prog.run_map_ok h
    cases claim_outcome.of_ok hrun with
    | idle => exact .same rfl rfl
    | issued => exact .same rfl rfl
    | lost row dispatch lease e found going =>
      refine .moved row (row.set (lostStatus row.status) (row.version + 1) row.progress)
        found going ?_ rfl rfl
      simp only [Job.set, lostStatus]
      split_ifs <;> simp
  | renewExecution dispatchId token ttl now now' =>
    obtain ⟨renewed, hrun, -⟩ := Prog.run_map_ok h
    rcases renew_outcome.of_ok hrun with ⟨-, rfl⟩ | ⟨lease, -, -, -, -, rfl⟩ <;> exact .same rfl rfl
  | releaseExecution dispatchId token =>
    obtain ⟨u, hrun, -⟩ := Prog.run_map_ok (f := fun _ => Reply.none) h
    rcases release_outcome.of_ok hrun with rfl | ⟨lease, -, -, rfl⟩ <;> exact .same rfl rfl

variable {call : Call}

theorem Publication.artifactsMatch (h : Publication call d d') (hmatch : d.ArtifactsMatch)
    (hnew : ∀ job dispatch key, call = .createJobAndDispatch job dispatch key → job.status = .queued) :
    d'.ArtifactsMatch := by
  cases h with
  | same jobs artifacts =>
    refine hmatch.same artifacts fun jobId => ?_
    unfold LocalDb.Succeeded
    rw [jobs]
  | created job dispatch key asked fresh jobs artifacts =>
    refine hmatch.same artifacts (succeeded_put_of_not jobs ?_ ?_)
    · rw [hnew job dispatch key asked]
      decide
    · rintro ⟨job', hjob', -⟩
      rw [fresh] at hjob'
      cases hjob'
  | moved row next found going unfinished jobs artifacts =>
    exact hmatch.same artifacts (succeeded_put_of_not jobs unfinished (not_succeeded found going))
  | published snapshot event eventType artifact lease failure now asked next found going done own fresh
    jobs artifacts =>
    exact hmatch.publish (not_succeeded found going) done own fresh jobs artifacts

theorem Publication.ids {P : String → Prop} (h : Publication call d d')
    (hnew : ∀ job dispatch key, call = .createJobAndDispatch job dispatch key → P job.id)
    (hids : ∀ job ∈ d.jobs.rows, P job.id) : ∀ job ∈ d'.jobs.rows, P job.id := by
  have hput : ∀ next : Job, P next.id → d'.jobs = d.jobs.put next → ∀ job ∈ d'.jobs.rows, P job.id := by
    intro next hnext hjobs job hjob
    rw [hjobs, Table.mem_put] at hjob
    rcases hjob with rfl | ⟨hjob, -⟩
    · exact hnext
    · exact hids job hjob
  have hfound : ∀ (next row : Job), d.jobs.get? next.id = some row → P next.id := by
    intro next row hrow
    have hid : row.id = next.id := Table.key_of_get? hrow
    rw [← hid]
    exact hids row (Table.mem_of_get? hrow)
  cases h with
  | same jobs => rwa [jobs]
  | created job dispatch key asked fresh jobs => exact hput job (hnew job dispatch key asked) jobs
  | moved row next found going unfinished jobs => exact hput next (hfound next row found) jobs
  | published snapshot event eventType artifact lease failure now asked next found going done
    own fresh jobs =>
    exact hput next (hfound next snapshot found) jobs

end

/-! The files. -/

theorem append_separator_inj {α : Type} {sep : α} {xs ys us vs : List α} (hus : sep ∉ us) (hvs : sep ∉ vs)
    (h : xs ++ sep :: us = ys ++ sep :: vs) : xs = ys ∧ us = vs := by
  rcases List.append_eq_append_iff.mp h with ⟨zs, hys, hzs⟩ | ⟨zs, hxs, hzs⟩
  · cases zs with
    | nil => exact ⟨by simpa using hys.symm, by simpa using hzs⟩
    | cons z zs =>
      have htail : us = zs ++ sep :: vs := (List.cons.inj hzs).2
      rw [htail] at hus
      simp at hus
  · cases zs with
    | nil => exact ⟨by simpa using hxs, by simpa using hzs.symm⟩
    | cons z zs =>
      have htail : vs = zs ++ sep :: us := (List.cons.inj hzs).2
      rw [htail] at hvs
      simp at hvs

namespace LocalJobRunner
variable {runner runner' : LocalJobRunner} {jobId jobId' dispatchId token : String}

theorem artifactPath_inj {name name' : String} (hroot : runner.artifacts = runner'.artifacts)
    (h : runner.artifactPath name = runner'.artifactPath name') : name = name' := by
  unfold artifactPath at h
  rw [hroot] at h
  apply String.toList_inj.mp
  have hlist := congrArg String.toList h
  simp only [String.toList_append, List.append_assoc] at hlist
  have hroot_cancelled := List.append_cancel_left hlist
  have hslash_cancelled := List.append_cancel_left hroot_cancelled
  exact List.append_cancel_right hslash_cancelled

theorem output_leased (h : runner.lease = some (dispatchId, token)) :
    runner.output jobId = runner.artifactPath (jobId ++ "." ++ token) := by
  simp only [output, h]

theorem output_free (h : runner.lease = none) : runner.output jobId = runner.artifactPath jobId := by
  simp only [output, h]

/-- The output of an attempt with a lease is that of no other attempt, and of one job only. -/
theorem output_inj (hroot : runner.artifacts = runner'.artifacts)
    (hlease : runner.lease = some (dispatchId, token)) (htoken : '.' ∉ token.toList)
    (htoken' : ∀ lease, runner'.lease = some lease → '.' ∉ lease.2.toList) (hjob : '.' ∉ jobId'.toList)
    (h : runner.output jobId = runner'.output jobId') :
    jobId = jobId' ∧ ∃ lease, runner'.lease = some lease ∧ lease.2 = token := by
  have hdot : ".".toList = ['.'] := rfl
  rw [output_leased hlease] at h
  cases hother : runner'.lease with
  | none =>
    rw [output_free hother] at h
    have hname := artifactPath_inj hroot h
    rw [← hname] at hjob
    simp [String.toList_append, hdot] at hjob
  | some lease =>
    obtain ⟨dispatchId', token'⟩ := lease
    rw [output_leased hother] at h
    have hname := congrArg String.toList (artifactPath_inj hroot h)
    simp only [String.toList_append, hdot, List.append_assoc, List.singleton_append] at hname
    obtain ⟨hid, htokens⟩ := append_separator_inj htoken (htoken' _ hother) hname
    exact ⟨String.toList_inj.mp hid, (dispatchId', token'), rfl, (String.toList_inj.mp htokens).symm⟩

end LocalJobRunner

end KenkuiServer.Local
