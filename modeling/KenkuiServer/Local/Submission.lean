import KenkuiServer.Local.Leases

/-! The submission of a job to the local server, and what later calls leave of it. -/
namespace KenkuiServer.Local
open Txn Jobs Storage Repositories

/-- What `str(uuid4())` gives. -/
structure Uuid where
  text : String
  named : strip text = text ∧ text ≠ ""

/-- What a submission comes to: the job or the exception, the store, and the dispatch that was started. -/
structure Submission where
  result : Except Error Job
  db : LocalDb
  started : Option String

/-- `Dispatcher.submit`. -/
def submit (spec : JobSpec) (idempotencyKey : Option String) (jobId dispatchId : Uuid)
    (d : LocalDb) : Submission :=
  let job : Job := { id := jobId.text, spec, named := jobId.named }
  let dispatch : Dispatch := ⟨dispatchId.text, job.id, "pending", 0⟩
  match (createJobAndDispatch job dispatch idempotencyKey).transaction d with
  | (.error e, d') => ⟨.error e, d', none⟩
  | (.ok admitted, d') => ⟨.ok admitted, d', if admitted.id = job.id then some dispatch.id else none⟩

/-- The store after calls that come one after the other. -/
def after (d : LocalDb) (calls : List Call) :
    LocalDb := calls.foldl (fun d call => (call.prog.transaction d).2) d

/-- What stays: the jobs with their specifications, and the keys with their jobs. -/
structure Retained (d d' : LocalDb) : Prop where
  jobs : ∀ id row, d.jobs.get? id = some row → ∃ row', d'.jobs.get? id = some row' ∧ row'.spec = row.spec
  keys : ∀ key row, d.idempotency.get? key = some row → d'.idempotency.get? key = some row

section
variable {d d' : LocalDb} {reply : Reply} {job : Job} {dispatch : Dispatch} {key : String}

theorem create_taken {existing : JobIdempotency} (h : d.idempotency.get? key = some existing) :
    (createJobAndDispatch job dispatch (some key)).run d =
      match d.jobs.get? existing.jobId with
      | none => .error (.runtime "orphaned_idempotency_key")
      | some found => if found.spec ≠ job.spec then .error (.value "idempotency_conflict") else .ok
        (found, d) := by
  have hreplay : (replay job.spec (some key)).run d =
      match d.jobs.get? existing.jobId with
      | none => .error (.runtime "orphaned_idempotency_key")
      | some found =>
        if found.spec ≠ job.spec then .error (.value "idempotency_conflict") else .ok (some found, d) := by
    unfold replay
    simp only [issue_bind, selectIdempotency, selectJob]
    rw [Prog.run_select]
    simp only [h]
    rw [Prog.run_select]
    cases hfound : d.jobs.get? existing.jobId with
    | none => rfl
    | some found =>
      simp only [Prog.raiseIf_bind]
      split_ifs
      · rfl
      · rfl
  unfold createJobAndDispatch
  rw [Prog.run_bind, hreplay]
  cases d.jobs.get? existing.jobId with
  | none => rfl
  | some found =>
    simp only
    split_ifs
    · rfl
    · rfl

theorem specs_same (h : d'.jobs = d.jobs) (id : String) (row : Job) (hrow : d.jobs.get? id = some row) :
    ∃ row', d'.jobs.get? id = some row' ∧ row'.spec = row.spec := by
  exact ⟨row, by rw [h, hrow], rfl⟩

theorem specs_put {next : Job} (h : d'.jobs = d.jobs.put next)
    (hnext : ∀ stored, d.jobs.get? next.id = some stored → next.spec = stored.spec) (id : String) (row : Job)
    (hrow : d.jobs.get? id = some row) : ∃ row', d'.jobs.get? id = some row' ∧ row'.spec = row.spec := by
  rw [h, Table.get?_put]
  split_ifs with hid
  · exact ⟨next, rfl, hnext row (hid ▸ hrow)⟩
  · exact ⟨row, hrow, rfl⟩

theorem set_spec {row : Job} {status : JobStatus} {version : ℕ} {progress : Progress} {id : String}
    (hrow : d.jobs.get? id = some row) (stored : Job)
    (hstored : d.jobs.get? (row.set status version progress).id = some stored) :
    (row.set status version progress).spec = stored.spec := by
  have hid : row.id = id := Table.key_of_get? hrow
  have hget : d.jobs.get? row.id = some stored := hstored
  rw [hid, hrow] at hget
  cases hget
  rfl

theorem create_retained {idempotencyKey : Option String} {created : Job}
    (h : (createJobAndDispatch job dispatch idempotencyKey).run d = .ok (created, d')) : Retained d d' := by
  have houtcome := create_outcome.of_ok h
  constructor
  · cases houtcome with
    | replayed => exact specs_same rfl
    | inserted fresh freshDispatch =>
      refine specs_put rfl fun stored hstored => ?_
      rw [fresh] at hstored
      cases hstored
  · intro key row hkey
    cases houtcome with
    | replayed => exact hkey
    | inserted fresh freshDispatch =>
      cases idempotencyKey with
      | none => exact hkey
      | some own =>
        have hne : own ≠ key := by
          rintro rfl
          -- The key was taken, so that nothing was inserted.
          rw [create_taken hkey] at h
          split at h
          · cases h
          · split_ifs at h
            have hsame := congrArg (fun r => r.2.jobs.get? job.id) (Except.ok.inj h)
            simp only [Table.get?_put_self, fresh] at hsame
            cases hsame
        exact (Table.get?_put_of_ne _ hne).trans hkey

theorem Call.retained (call : Call) (h : call.prog.run d = .ok (reply, d')) : Retained d d' := by
  cases call with
  | createJobAndDispatch job dispatch idempotencyKey =>
    obtain ⟨created, hrun, -⟩ := Prog.run_map_ok h
    exact create_retained hrun
  | update snapshot event eventType artifact lease failure now =>
    simp only [Call.prog] at h
    cases ht : transition snapshot event with
    | error e => simp [ht] at h
    | ok job =>
      simp only [ht] at h
      obtain ⟨e, hrun, -⟩ := Prog.run_map_ok h
      have hupdated := update_outcome.of_ok hrun
      obtain ⟨row, hrow, -, hspec⟩ := hupdated.found
      rw [hupdated.result]
      refine ⟨specs_put rfl fun stored hstored => ?_, fun _ _ => id⟩
      rw [hrow] at hstored
      cases hstored
      exact hspec.symm
  | requestCancellation jobId =>
    obtain ⟨job, hrun, -⟩ := Prog.run_map_ok h
    cases cancel_outcome.of_ok hrun with
    | already found settled result =>
      rw [result]
      exact ⟨specs_same rfl, fun _ _ => id⟩
    | moved row e found going cancelled appended result =>
      rw [result]
      exact ⟨specs_put rfl (cancelled ▸ set_spec found), fun _ _ => id⟩
  | finishDispatch dispatch lease now =>
    obtain ⟨finished, hrun, -⟩ := Prog.run_map_ok h
    cases finish_outcome.of_ok hrun <;> exact ⟨specs_same rfl, fun _ _ => id⟩
  | updateDispatch dispatch status =>
    obtain ⟨u, hrun, -⟩ := Prog.run_map_ok (f := fun _ => Reply.none) h
    obtain ⟨stored, -, -, rfl⟩ := updateDispatch_outcome.of_ok hrun
    exact ⟨specs_same rfl, fun _ _ => id⟩
  | claimExecution dispatchId limit ttl maxAttempts token now =>
    obtain ⟨issued, hrun, -⟩ := Prog.run_map_ok h
    cases claim_outcome.of_ok hrun with
    | idle => exact ⟨specs_same rfl, fun _ _ => id⟩
    | lost row dispatch lease e found => exact ⟨specs_put rfl (set_spec found), fun _ _ => id⟩
    | issued => exact ⟨specs_same rfl, fun _ _ => id⟩
  | renewExecution dispatchId token ttl now now' =>
    obtain ⟨renewed, hrun, -⟩ := Prog.run_map_ok h
    rcases renew_outcome.of_ok hrun with ⟨-, rfl⟩ | ⟨row, -, -, -, -, rfl⟩
    · exact ⟨specs_same rfl, fun _ _ => id⟩
    · exact ⟨specs_same rfl, fun _ _ => id⟩
  | releaseExecution dispatchId token =>
    obtain ⟨u, hrun, -⟩ := Prog.run_map_ok (f := fun _ => Reply.none) h
    rcases release_outcome.of_ok hrun with rfl | ⟨row, -, -, rfl⟩
    · exact ⟨specs_same rfl, fun _ _ => id⟩
    · exact ⟨specs_same rfl, fun _ _ => id⟩

theorem Retained.refl (d : LocalDb) : Retained d d := ⟨specs_same rfl, fun _ _ => id⟩

theorem Retained.trans {d'' : LocalDb} (h : Retained d d') (h' : Retained d' d'') : Retained d d'' := by
  constructor
  · intro id row hrow
    obtain ⟨row', hrow', hspec⟩ := h.jobs id row hrow
    obtain ⟨row'', hrow'', hspec'⟩ := h'.jobs id row' hrow'
    exact ⟨row'', hrow'', hspec'.trans hspec⟩
  · intro key row hrow
    exact h'.keys key row (h.keys key row hrow)

theorem after_retained (d : LocalDb) (calls : List Call) : Retained d (after d calls) := by
  induction calls generalizing d with
  | nil => exact .refl d
  | cons call calls ih =>
    have hcall : Retained d (call.prog.transaction d).2 := by
      cases hrun : call.prog.run d with
      | error e =>
        rw [Prog.transaction_of_error hrun]
        exact .refl d
      | ok r =>
        rw [Prog.transaction_of_ok hrun]
        exact call.retained hrun
    exact hcall.trans (ih _)

/-- The store knows the key, and under it a job of this specification. -/
structure Keyed (d : LocalDb) (key jobId : String) (spec : JobSpec) : Prop where
  recorded : d.idempotency.get? key = some ⟨key, jobId⟩
  job : ∃ row, d.jobs.get? jobId = some row ∧ row.spec = spec

theorem Keyed.retained {jobId : String} {spec : JobSpec} (h : Keyed d key jobId spec)
    (hretained : Retained d d') :
    Keyed d' key jobId spec := by
  constructor
  · exact hretained.keys key _ h.recorded
  · obtain ⟨row, hrow, hspec⟩ := h.job
    obtain ⟨row', hrow', hspec'⟩ := hretained.jobs jobId row hrow
    exact ⟨row', hrow', hspec'.trans hspec⟩

end

section
variable {d d' : LocalDb} {spec : JobSpec} {key : String} {jobId dispatchId : Uuid} {job : Job}
    {dispatch : Dispatch}

theorem create_free (h : d.idempotency.get? key = none) :
    (createJobAndDispatch job dispatch (some key)).Outcome (fun _ => True)
      (fun created d' => created = job ∧ d'.jobs = d.jobs.put job ∧
        d'.idempotency = d.idempotency.put ⟨key, job.id⟩) d := by
  have hreplay : (replay job.spec (some key)).Outcome (fun _ => True) (fun found d' => found = none ∧
      d' = d) d := by
    unfold replay
    simp only [issue_bind]
    refine Prog.outcome_select ?_
    rw [h]
    exact ⟨rfl, rfl⟩
  unfold createJobAndDispatch
  refine hreplay.bind fun found d' hfound => ?_
  obtain ⟨rfl, rfl⟩ := hfound
  simp only [issue_bind]
  refine Prog.outcome_insert (fun _ => ?_) fun _ _ => trivial
  refine Prog.outcome_insert (fun _ => ?_) fun _ _ => trivial
  refine Prog.outcome_insert (fun _ => ?_) fun _ _ => trivial
  exact ⟨rfl, rfl, rfl⟩

theorem create_keyed {created : Job}
    (h : (createJobAndDispatch job dispatch (some key)).run d = .ok (created, d')) :
    Keyed d' key created.id job.spec := by
  cases hkey : d.idempotency.get? key with
  | none =>
    obtain ⟨rfl, hjobs, hkeys⟩ := (create_free hkey).of_ok h
    constructor
    · rw [hkeys]
      exact Table.get?_put_self _ _
    · refine ⟨created, ?_, rfl⟩
      rw [hjobs]
      exact Table.get?_put_self _ _
  | some existing =>
    have hname : existing.key = key := Table.key_of_get? hkey
    rw [create_taken hkey] at h
    cases hfound : d.jobs.get? existing.jobId with
    | none => simp [hfound] at h
    | some found =>
      simp only [hfound] at h
      split_ifs at h with hspec
      cases h
      have hid : created.id = existing.jobId := Table.key_of_get? hfound
      rw [hid]
      refine ⟨?_, created, hfound, not_not.mp hspec⟩
      rw [hkey, ← hname]

/-- After a submission under a key that returned a job, the store knows the key with that job. -/
theorem submit_keyed (h : (submit spec (some key) jobId dispatchId d).result = .ok job) :
    Keyed (submit spec (some key) jobId dispatchId d).db key job.id spec := by
  unfold submit at h ⊢
  cases hrun : (createJobAndDispatch { id := jobId.text, spec, named := jobId.named }
      ⟨dispatchId.text, jobId.text, "pending", 0⟩ (some key)).run d with
  | error e =>
    simp only [Prog.transaction_of_error hrun] at h
    cases h
  | ok r =>
    obtain ⟨created, d'⟩ := r
    simp only [Prog.transaction_of_ok hrun] at h ⊢
    cases h
    exact create_keyed hrun

/-- What a submission under a key that is taken comes to: it adds nothing and starts nothing. -/
theorem submit_taken {firstId : String} (h : Keyed d key firstId spec) (spec' : JobSpec) (dispatchId : Uuid)
    (hfresh : jobId.text ≠ firstId) :
    ∃ first, d.jobs.get? firstId = some first ∧ first.spec = spec ∧
      submit spec' (some key) jobId dispatchId d =
        ⟨if spec' = spec then .ok first else .error (.value "idempotency_conflict"), d, none⟩ := by
  obtain ⟨first, hfirst, rfl⟩ := h.job
  have hid : first.id = firstId := Table.key_of_get? hfirst
  refine ⟨first, hfirst, rfl, ?_⟩
  have hrun : (createJobAndDispatch { id := jobId.text, spec := spec', named := jobId.named }
      ⟨dispatchId.text, jobId.text, "pending", 0⟩ (some key)).run d = _ := create_taken h.recorded
  simp only [hfirst] at hrun
  unfold submit
  split_ifs at hrun with hspec
  · simp only [Prog.transaction_of_error hrun, if_neg (Ne.symm hspec)]
  · rw [not_not] at hspec
    have hne : first.id ≠ jobId.text := by
      rw [hid]
      exact hfresh.symm
    simp only [Prog.transaction_of_ok hrun, if_pos hspec.symm, if_neg hne]

end

end KenkuiServer.Local
