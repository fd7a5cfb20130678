import KenkuiServer.Hosted.CheckpointRuns

/-! What a restore hands over, and which checkpoint it finds. -/
namespace KenkuiServer.Hosted
open Txn Data Jobs Storage

/-- The row that the restore works on. -/
def RestoreStage.row? : RestoreStage → Option CheckpointRow
  | found row | downloaded row _ | verified row => some row
  | _ => none

namespace CheckpointRun

section
variable {lib : Libraries} {s s' : CheckpointRun} {i : ℕ} {save next : Save}

/-- What a step leaves of the saves and of the order of their publications. -/
structure Since (s s' : CheckpointRun) : Prop where
  saves : ∀ (j : ℕ) (old : Save), s.saves[j]? = some old → ∃ new, s'.saves[j]? = some new ∧ old.Later new
  published : ∀ j ∈ s.published, j ∈ s'.published

theorem Since.refl (s : CheckpointRun) :
    s.Since s := ⟨fun _ old hold => ⟨old, hold, .refl old⟩, fun _ hj => hj⟩

theorem advance_later (htracked : save.Tracked) (turn : Turn) : save.Later (s.advance lib i save turn).2 := by
  have hspec := advance_spec lib s i save turn
  revert hspec
  generalize s.advance lib i save turn = result
  intro hspec
  cases hspec with
  | waits => exact .refl save
  | tracked stage live inserted =>
    refine ⟨rfl, rfl, rfl, rfl, rfl, fun t ht => ?_, fun _ hseen => hseen⟩
    rw [htracked.fresh stage] at ht
    cases ht
  | checked stage free live =>
    refine ⟨rfl, rfl, rfl, rfl, rfl, fun _ ht => ht, fun x hx => ?_⟩
    rw [htracked.unseen (by rw [stage]; rfl)] at hx
    cases hx
  | _ => exact .goOn save _

theorem since_setSave (hsaves : s'.saves = s.saves) (hpublished : ∀ j ∈ s.published, j ∈ s'.published)
    (hsave : s.saves[i]? = some save) (hlater : save.Later next) : s.Since (s'.setSave i next) := by
  constructor
  · intro j old hold
    rw [← hsaves] at hsave hold
    exact later_setSave hsave hlater hold
  · exact hpublished

theorem published_advance (lib : Libraries) (s : CheckpointRun) (i : ℕ) (save : Save) (turn : Turn) :
    (s.advance lib i save turn).1.published = s.published ∨ (∃ ids, save.stage = .demoted ids) ∧
      (s.advance lib i save turn).1.published = i :: s.published := by
  have hspec := advance_spec lib s i save turn
  revert hspec
  generalize s.advance lib i save turn = result
  intro hspec
  cases hspec with
  | published stage promoted => exact Or.inr ⟨⟨_, stage⟩, rfl⟩
  | _ => exact Or.inl rfl

theorem Sound.since_work (h : Sound lib s) (i : ℕ) (turn : Turn) : s.Since (s.work lib i turn) := by
  have hspec := work_spec lib s i turn
  revert hspec
  generalize s.work lib i turn = s'
  intro hspec
  have hpublished : ∀ {save : Save}, ∀ j ∈ s.published, j ∈ (s.advance lib i save turn).1.published := by
    intro save j hj
    rcases published_advance lib s i save turn with heq | ⟨-, heq⟩
    · rwa [heq]
    · rw [heq]
      exact List.mem_cons_of_mem _ hj
  have hadvance : ∀ {save : Save}, s.saves[i]? = some save → save.Later (s.advance lib i save turn).2 :=
    fun hsave => advance_later (h.tracked _ (List.mem_of_getElem? hsave)) turn
  cases hspec with
  | idle => exact .refl s
  | failed found going fails =>
    exact since_setSave rfl (fun _ hj => hj) found (.goOn _ _)
  | advanced found going => exact since_setSave (saves_advance s i _ turn) hpublished found (hadvance found)
  | landed found going fails =>
    have hlater := hadvance found
    exact since_setSave (saves_advance s i _ turn) hpublished found
      ⟨hlater.store, hlater.key, hlater.source, hlater.metadata, hlater.identifier,
        hlater.trackedAt, hlater.seen⟩

theorem Sound.since (h : Sound lib s) (act : CheckpointAct) : s.Since (s.step lib act) := by
  cases act with
  | call call =>
    simp only [CheckpointRun.step, CheckpointRun.call]
    split_ifs
    · exact ⟨(Since.refl s).saves, fun _ hj => hj⟩
    · exact .refl s
  | save store key source metadata identifier =>
    refine ⟨fun j old hold => ⟨old, ?_, .refl old⟩, fun _ hj => hj⟩
    have hlt := (List.getElem?_eq_some_iff.mp hold).1
    simp only [CheckpointRun.step]
    rw [List.getElem?_append_left hlt, hold]
  | work i turn => exact ⟨(h.since_work i turn).saves, (h.since_work i turn).published⟩
  | restore store key => exact ⟨(Since.refl s).saves, fun _ hj => hj⟩
  | read j turn =>
    rcases read_spec lib s j turn with hsame | ⟨restore, next, -, hset, -⟩
    · rw [CheckpointRun.step, hsame]
      exact .refl s
    · rw [CheckpointRun.step, hset]
      exact ⟨(Since.refl s).saves, fun _ hj => hj⟩
  | retain now skipped deletions commits => exact ⟨(Since.refl s).saves, fun _ hj => hj⟩

/-- What the restore has found comes from a published save of its job and key, and so does its file once that
was compared. -/
structure Genuine (lib : Libraries) (s : CheckpointRun) (restore : Restore) : Prop where
  row : ∀ row, restore.stage.row? = some row → row.jobId = restore.store.jobId ∧
    row.checkpointKey = restore.key ∧
    ∃ j ∈ s.published, RowOf lib s j row
  content : ∀ row content, restore.stage = .downloaded row content → restore.destination = some content
  file : restore.verified = true → ∃ content, restore.destination = some content ∧ ∃ j ∈ s.published, ∃ save,
    s.saves[j]? = some save ∧ save.store.jobId = restore.store.jobId ∧ save.key = restore.key ∧
    fileDigest lib.hash content = fileDigest lib.hash save.source ∧
    (∀ row, restore.stage = .verified row → row.metadataJson = lib.dumps save.metadata) ∧
    ∀ metadata, restore.stage = .returned (some metadata) → lib.loads (lib.dumps save.metadata) = .ok metadata
  verified : restore.verified = true → (∃ row, restore.stage = .verified row) ∨ restore.stage.ended = true
  kept : ∀ row, restore.stage = .verified row → restore.verified = true
  returned : ∀ metadata, restore.stage = .returned (some metadata) → restore.verified = true
  rejected : restore.stage = .rejected → restore.destination = none ∧ restore.verified = false

theorem Genuine.since {restore : Restore} (h : Genuine lib s restore) (hsince : s.Since s') :
    Genuine lib s' restore := by
  constructor
  · intro row hstage
    obtain ⟨hjob, hkey, j, hj, hof⟩ := h.row row hstage
    exact ⟨hjob, hkey, j, hsince.published j hj, hof.later (hsince.saves j)⟩
  · exact h.content
  · intro hverified
    obtain ⟨content, hcontent, j, hj, save, hsave, hjob, hkey, hdigest, hrow, hmetadata⟩ := h.file hverified
    obtain ⟨new, hnew, hlater⟩ := hsince.saves j save hsave
    refine ⟨content, hcontent, j, hsince.published j hj, new, hnew, ?_, ?_, ?_, ?_, ?_⟩
    · rw [hlater.store, hjob]
    · rw [hlater.key, hkey]
    · rw [hlater.source, hdigest]
    · rw [hlater.metadata]
      exact hrow
    · rw [hlater.metadata]
      exact hmetadata
  · exact h.verified
  · exact h.kept
  · exact h.returned
  · exact h.rejected

/-- A restore that raises keeps the file it has, and returns nothing. -/
theorem Genuine.raised {restore : Restore} (h : Genuine lib s restore) (e : Error) :
    Genuine lib s { restore with stage := .raised e } := by
  constructor
  · intro row hstage
    cases hstage
  · intro row content hstage
    cases hstage
  · intro hverified
    obtain ⟨content, hcontent, j, hj, save, hsave, hjob, hkey, hdigest, -⟩ := h.file hverified
    refine ⟨content, hcontent, j, hj, save, hsave, hjob, hkey, hdigest, fun row hstage =>
      ?_, fun metadata hstage => ?_⟩
    · cases hstage
    · cases hstage
  · exact fun _ => Or.inr rfl
  · intro row hstage
    cases hstage
  · intro metadata hstage
    cases hstage
  · intro hstage
    cases hstage

/-- A restore without a verified file goes on to a stage at which it has none. -/
theorem Genuine.goOn (restore : Restore) (hverified : restore.verified = false) {stage : RestoreStage}
    (hrow : ∀ row, stage.row? = some row → row.jobId = restore.store.jobId ∧ row.checkpointKey = restore.key ∧
      ∃ j ∈ s.published, RowOf lib s j row)
    (hcontent : ∀ row content, stage = .downloaded row content → restore.destination = some content)
    (hkept : ∀ row, stage ≠ .verified row) (hreturned : ∀ metadata, stage ≠ .returned (some metadata))
    (hrejected : stage = .rejected → restore.destination = none) : Genuine lib s { restore with stage } := by
  have hnot : ¬ restore.verified = true := by simp [hverified]
  constructor
  · exact hrow
  · exact hcontent
  · exact fun h => absurd h hnot
  · exact fun h => absurd h hnot
  · exact fun row hstage => absurd hstage (hkept row)
  · exact fun metadata hstage => absurd hstage (hreturned metadata)
  · exact fun hstage => ⟨hrejected hstage, hverified⟩

theorem Genuine.unverified {restore : Restore} (h : Genuine lib s restore)
    (hstage : restore.stage.ended = false) (hrow : ∀ row, restore.stage ≠ .verified row) :
    restore.verified = false := by
  by_contra hverified
  rcases h.verified (by simpa using hverified) with ⟨row, heq⟩ | hended
  · exact hrow row heq
  · rw [hstage] at hended
    cases hended

/-- The file of a restore has the size and the hash of its row: it is the one that was saved. -/
theorem Genuine.compared {restore : Restore} (h : Genuine lib s restore) {row : CheckpointRow}
    {content : Bytes} (hstage : restore.stage = .downloaded row content)
    (hdigest : fileDigest lib.hash content = (row.sizeBytes, row.sha256)) :
    Genuine lib s { restore with verified := true, stage := .verified row } := by
  obtain ⟨hjob, hkey, j, hj, save, t, hsave, ht, hof⟩ := h.row row (by rw [hstage]; rfl)
  have hsame : fileDigest lib.hash content = fileDigest lib.hash save.source := by
    rw [hdigest, hof]
    rfl
  have hown : save.store.jobId = restore.store.jobId ∧ save.key = restore.key := by
    rw [hof] at hjob hkey
    exact ⟨hjob, hkey⟩
  constructor
  · intro other heq
    cases heq
    exact ⟨hjob, hkey, j, hj, save, t, hsave, ht, hof⟩
  · intro other found heq
    cases heq
  · intro _
    refine ⟨content, h.content row content hstage, j, hj, save, hsave, hown.1, hown.2, hsame, ?_, ?_⟩
    · intro other heq
      cases heq
      rw [hof]
      rfl
    · intro metadata heq
      cases heq
  · exact fun _ => Or.inl ⟨row, rfl⟩
  · exact fun _ _ => rfl
  · intro metadata heq
    cases heq
  · intro heq
    cases heq

theorem Genuine.loaded {restore : Restore} (h : Genuine lib s restore) {row : CheckpointRow} {metadata : Json}
    (hstage : restore.stage = .verified row) (hloads : lib.loads row.metadataJson = .ok metadata) :
    Genuine lib s { restore with stage := .returned (some metadata) } := by
  have hverified := h.kept row hstage
  obtain ⟨content, hcontent, j, hj, save, hsave, hjob, hkey, hdigest, hjson, -⟩ := h.file hverified
  constructor
  · intro other heq
    cases heq
  · intro other found heq
    cases heq
  · intro _
    refine ⟨content, hcontent, j, hj, save, hsave, hjob, hkey, hdigest, ?_, ?_⟩
    · intro other heq
      cases heq
    · intro found heq
      cases heq
      rw [← hjson row hstage, hloads]
  · exact fun _ => Or.inr rfl
  · intro other heq
    cases heq
  · exact fun _ _ => hverified
  · intro heq
    cases heq

theorem Genuine.proceed (hsound : Sound lib s) {restore : Restore} (h : Genuine lib s restore) (turn : Turn) :
    Genuine lib s (s.proceed lib restore turn) := by
  unfold CheckpointRun.proceed
  cases hstage : restore.stage with
  | started =>
    have hverified := h.unverified (by rw [hstage]; rfl) (by simp [hstage])
    simp only
    split_ifs with hlocked
    · exact h
    cases hcheck : (restore.store.check turn.now).run s.run.db with
    | error e => exact h.raised e
    | ok r =>
      simp only
      cases hselect : s.checkpoints.selectReady restore.store.jobId restore.key with
      | none => apply Genuine.goOn _ hverified <;> simp [RestoreStage.row?]
      | some row =>
        obtain ⟨hrow, hready⟩ := Checkpoints.selectReady_some hselect
        obtain ⟨hflag, hjob, hkey⟩ := Checkpoints.readyFor_iff.mp hready
        apply Genuine.goOn _ hverified
        · intro other heq
          cases heq
          exact ⟨hjob, hkey, hsound.ready row hrow hflag⟩
        · simp
        · simp
        · simp
        · simp
  | found row =>
    have hverified := h.unverified (by rw [hstage]; rfl) (by simp [hstage])
    simp only
    cases turn.corrupt.or ((s.objects.get? row.id).map (·.content)) with
    | none => exact h.raised _
    | some content =>
      have hrow := h.row row (by rw [hstage]; rfl)
      apply Genuine.goOn { restore with destination := some content } hverified
      · intro other heq
        cases heq
        exact hrow
      · intro other found heq
        cases heq
        rfl
      · simp
      · simp
      · simp
  | downloaded row content =>
    have hverified := h.unverified (by rw [hstage]; rfl) (by simp [hstage])
    simp only
    split_ifs with hdigest
    · apply Genuine.goOn _ hverified <;> simp [RestoreStage.row?]
    · exact h.compared hstage (not_not.mp hdigest)
  | mismatched =>
    have hverified := h.unverified (by rw [hstage]; rfl) (by simp [hstage])
    apply Genuine.goOn { restore with destination := none } hverified <;> simp [RestoreStage.row?]
  | verified row =>
    simp only
    cases hloads : lib.loads row.metadataJson with
    | error e => exact h.raised e
    | ok metadata => exact h.loaded hstage hloads
  | returned metadata => exact h
  | rejected => exact h
  | raised e => exact h

theorem restores_work (lib : Libraries) (s : CheckpointRun) (i : ℕ) (turn : Turn) :
    (s.work lib i turn).restores = s.restores := by
  have hadvance : ∀ save, (s.advance lib i save turn).1.restores = s.restores := by
    intro save
    have hspec := advance_spec lib s i save turn
    revert hspec
    generalize s.advance lib i save turn = result
    intro hspec
    cases hspec <;> rfl
  have hspec := work_spec lib s i turn
  revert hspec
  generalize s.work lib i turn = s'
  intro hspec
  cases hspec with
  | idle => rfl
  | failed found going fails => rfl
  | advanced found going => exact hadvance _
  | landed found going fails => exact hadvance _

theorem genuine_step (hsound : Sound lib s) (h : ∀ restore ∈ s.restores, Genuine lib s restore)
    (act : CheckpointAct) :
    ∀ restore ∈ (s.step lib act).restores, Genuine lib (s.step lib act) restore := by
  have hsince := hsound.since act
  have hkept : (s.step lib act).restores = s.restores →
      ∀ restore ∈ (s.step lib act).restores, Genuine lib (s.step lib act) restore := by
    intro hsame restore hrestore
    rw [hsame] at hrestore
    exact (h restore hrestore).since hsince
  cases act with
  | call call =>
    refine hkept ?_
    simp only [CheckpointRun.step, CheckpointRun.call]
    split_ifs <;> rfl
  | save store key source metadata identifier => exact hkept rfl
  | work i turn =>
    exact hkept (restores_work lib s i turn)
  | restore store key =>
    intro restore hrestore
    rcases List.mem_append.mp hrestore with hold | hlast
    · exact (h restore hold).since hsince
    · rcases List.mem_singleton.mp hlast with rfl
      constructor
      · intro row hstage
        cases hstage
      · intro row content hstage
        cases hstage
      · intro hverified
        cases hverified
      · intro hverified
        cases hverified
      · intro row hstage
        cases hstage
      · intro metadata hstage
        cases hstage
      · intro hstage
        cases hstage
  | read j turn =>
    rcases read_spec lib s j turn with hsame | ⟨restore, next, hrestore, hset, hcases⟩
    · rw [CheckpointRun.step, hsame]
      exact h
    rw [CheckpointRun.step, hset]
    have hold := h restore (List.mem_of_getElem? hrestore)
    have hnext : Genuine lib s next := by
      rcases hcases with ⟨-, rfl⟩ | ⟨e, rfl | rfl⟩
      · exact hold.proceed hsound turn
      · exact hold.raised e
      · exact (hold.proceed hsound turn).raised e
    intro other hother
    have hother : Genuine lib s other := by
      rcases List.mem_or_eq_of_mem_set hother with hmem | rfl
      · exact h other hmem
      · exact hnext
    exact hother.since ⟨(Since.refl s).saves, fun _ hj => hj⟩
  | retain now skipped deletions commits => exact hkept rfl

theorem reach_genuine (h : Reach lib Allowed s) : ∀ restore ∈ s.restores, Genuine lib s restore := by
  induction h with
  | init => simp
  | step act reach allowed ih => exact genuine_step (sound_of_reach (fun _ _ hact => hact) reach) ih act

end

/-- A restore that returns metadata has compared its file, one that raises `checkpoint_integrity_failed`
leaves none, and a file that was compared has the size and the hash of what a published save of its job and
key was given; the metadata are that save's. -/
theorem restored_genuine (lib : Libraries) (hstreams : lib.hash.Streams) {s : CheckpointRun}
    (h : Reach lib Allowed s) (restore : Restore) (hrestore : restore ∈ s.restores) :
    (∀ metadata, restore.stage = .returned (some metadata) → restore.verified = true) ∧
    (restore.stage = .rejected → restore.destination = none) ∧
    (restore.verified = true → ∃ content, restore.destination = some content ∧ ∃ j ∈ s.published, ∃ save,
      s.saves[j]? = some save ∧ save.store.jobId = restore.store.jobId ∧ save.key = restore.key ∧
      content.length = save.source.length ∧
      lib.hash.hexdigest (lib.hash.update lib.hash.new content) =
        lib.hash.hexdigest (lib.hash.update lib.hash.new save.source) ∧
      ∀ metadata, restore.stage = .returned (some metadata) →
        lib.loads (lib.dumps save.metadata) = .ok metadata) := by
  have hgenuine := reach_genuine h restore hrestore
  refine ⟨hgenuine.returned, fun hstage => (hgenuine.rejected hstage).1, fun hverified => ?_⟩
  obtain ⟨content, hcontent, j, hj, save, hsave, hjob, hkey, hdigest, -, hmetadata⟩ := hgenuine.file hverified
  rw [fileDigest_eq hstreams, fileDigest_eq hstreams, Prod.mk.injEq] at hdigest
  exact ⟨content, hcontent, j, hj, save, hsave, hjob, hkey, hdigest.1, hdigest.2, hmetadata⟩

theorem sampleLibraries_streams : sampleLibraries.hash.Streams :=
  ⟨fun digest => List.append_nil digest, fun digest a b => List.append_assoc digest a b⟩

/-- The attempt restores its chapter twice: the first download is cut off, the second is not. -/
def sampleRestored : CheckpointRun :=
  (.restore sampleStore "chapter" :: .read 0 { now := 3, at' := 3 } ::
    .read 0
      { now := 3, at' := 3, fails := some (.operational "connection reset", true), corrupt := some [99] } ::
    .restore sampleStore "chapter" :: List.replicate 4 (.read 1 { now := 4, at' := 4 })).foldl
      (step sampleLibraries) sampleSaved

/-- What is left of the first download is not compared; the second restore returns what was saved. -/
theorem restored_genuine_saved : (sampleRestored.restores.any fun restore =>
      restore.destination = some [99] ∧ restore.verified = false) = true ∧
    ∃ restore ∈ sampleRestored.restores, ∃ content, restore.destination = some content ∧
      ∃ j ∈ sampleRestored.published, ∃ save, sampleRestored.saves[j]? = some save ∧
        save.store.jobId = restore.store.jobId ∧ save.key = restore.key ∧
        content.length = save.source.length ∧
        sampleLibraries.hash.hexdigest (sampleLibraries.hash.update sampleLibraries.hash.new content) =
          sampleLibraries.hash.hexdigest (sampleLibraries.hash.update sampleLibraries.hash.new save.source) ∧
        ∀ metadata, restore.stage = .returned (some metadata) →
          sampleLibraries.loads (sampleLibraries.dumps save.metadata) = .ok metadata := by
  have hreach : Reach sampleLibraries Timely sampleRestored := reach_sampleSaved.acts (by decide +kernel)
  have hsome : (sampleRestored.restores.any fun restore => restore.verified) = true := by decide +kernel
  obtain ⟨restore, hrestore, hverified⟩ := List.any_eq_true.mp hsome
  refine ⟨by decide +kernel, restore, hrestore, ?_⟩
  exact (restored_genuine sampleLibraries sampleLibraries_streams (hreach.imp timely_allowed)
    restore hrestore).2.2
    hverified

end CheckpointRun

end KenkuiServer.Hosted
