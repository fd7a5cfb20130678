import KenkuiServer.Hosted.Checkpoints

/-! What every run of saves, restores, retention and the other hosted calls keeps of the checkpoints. -/
namespace KenkuiServer.Hosted
open Txn Data Jobs Storage

/-- What a save knows while its transaction holds its lease. -/
structure Held (run : HostedRun) (save : Save) : Prop where
  token : run.db.tokenOf save.store.lease.1 = some save.store.lease.2
  dispatch : ∃ dispatch, run.db.dispatches.get? save.store.lease.1 = some dispatch ∧
    dispatch.jobId = save.store.jobId
  seen : ∃ d now, save.seen = some (d, now) ∧ d ∈ run.db :: run.past ∧ save.store.Live d now

theorem Held.of_live {run : HostedRun} {save : Save} {now : Time} (hseen : save.seen = some (run.db, now))
    (h : save.store.Live run.db now) : Held run save := by
  obtain ⟨row, hrow, htoken, -⟩ := h.lease
  obtain ⟨dispatch, job, hdispatch, hof, -, -⟩ := h.running
  refine ⟨?_, ⟨dispatch, hdispatch, hof⟩, run.db, now, hseen, List.mem_cons_self, h⟩
  rw [HostedDb.tokenOf, hrow, Option.map_some, htoken]

theorem Held.call {run : HostedRun} {save : Save} (h : Held run save) {call : Call}
    (honward : Onward run.db (run.step Call.prog call).db)
    (hlease : (run.step Call.prog call).db.leases.get? save.store.lease.1 = run.db.leases.get?
      save.store.lease.1) :
    Held (run.step Call.prog call) save := by
  obtain ⟨dispatch, hdispatch, hof⟩ := h.dispatch
  obtain ⟨dispatch', hdispatch', hof'⟩ := honward.dispatches _ dispatch hdispatch
  obtain ⟨d, now, hseen, hd, hlive⟩ := h.seen
  refine ⟨?_, ⟨dispatch', hdispatch', hof'.trans hof⟩, d, now, hseen, ?_, hlive⟩
  · rw [HostedDb.tokenOf, hlease]
    exact h.token
  · rw [Serial.step_past]
    exact List.mem_cons_of_mem _ hd

/-- What becomes of a save keeps what it is about. -/
structure Save.Later (old new : Save) : Prop where
  store : new.store = old.store
  key : new.key = old.key
  source : new.source = old.source
  metadata : new.metadata = old.metadata
  identifier : new.identifier = old.identifier
  trackedAt : ∀ t, old.trackedAt = some t → new.trackedAt = some t
  seen : ∀ x, old.seen = some x → new.seen = some x

theorem Save.Later.refl (save : Save) :
    save.Later save := ⟨rfl, rfl, rfl, rfl, rfl, fun _ h => h, fun _ h => h⟩

theorem Save.Later.goOn (save : Save) (stage : SaveStage) : save.Later { save with stage } :=
  ⟨rfl, rfl, rfl, rfl, rfl, fun _ h => h, fun _ h => h⟩

theorem Held.later {run : HostedRun} {old new : Save} (h : Held run old) (hlater : old.Later new) :
    Held run new := by
  obtain ⟨d, now, hseen, hd, hlive⟩ := h.seen
  constructor
  · rw [hlater.store]
    exact h.token
  · rw [hlater.store]
    exact h.dispatch
  · refine ⟨d, now, hlater.seen _ hseen, hd, ?_⟩
    rw [hlater.store]
    exact hlive

theorem Save.Later.row {old new : Save} (h : old.Later new) (lib : Libraries) (t : Time) :
    new.row lib t = old.row lib t := by
  simp only [Save.row, h.store, h.key, h.source, h.metadata, h.identifier]

/-- Its second transaction has checked nothing yet. -/
def SaveStage.early : SaveStage → Bool
  | started | tracked | uploaded => true
  | _ => false

/-- A row has a time exactly while its save is under way, and may have had one when it ended. -/
structure Save.Tracked (save : Save) : Prop where
  fresh : save.stage = .started → save.trackedAt = none
  going : save.stage ≠ .started → save.stage.ended = false → save.trackedAt.isSome
  unseen : save.stage.early = true → save.seen = none

namespace CheckpointRun
variable (lib : Libraries)

/-- The row is that of save `i`, up to its flag. -/
def RowOf (s : CheckpointRun) (i : ℕ) (row : CheckpointRow) : Prop :=
  ∃ save t, s.saves[i]? = some save ∧ save.trackedAt = some t ∧
    row = { save.row lib t with ready := row.ready }

structure Sound (s : CheckpointRun) : Prop where
  hosted : Serial.Reach Call.prog Recovers {} s.run
  identifiers : ∀ (i j : ℕ) (a b : Save), s.saves[i]? = some a → s.saves[j]? = some b →
    a.identifier = b.identifier → i = j
  tracked : ∀ save ∈ s.saves, save.Tracked
  rows : ∀ row ∈ s.checkpoints.rows, ∃ i, RowOf lib s i row
  ready : ∀ row ∈ s.checkpoints.rows, row.ready = true → ∃ i ∈ s.published, RowOf lib s i row
  held : ∀ save ∈ s.saves, save.stage.locks = true → Held s.run save
  alone : ∀ (i j : ℕ) (a b : Save), s.saves[i]? = some a → s.saves[j]? = some b → a.stage.locks = true →
    b.stage.locks = true → a.store.lease.1 = b.store.lease.1 → i = j
  demoted : ∀ save ∈ s.saves, ∀ ids, save.stage = .demoted ids → ∀ row ∈ s.checkpoints.rows,
    row.readyFor save.store.jobId save.key = true → row.id ∈ ids
  single : ∀ a ∈ s.checkpoints.rows, ∀ b ∈ s.checkpoints.rows, ∀ jobId key, a.readyFor jobId key = true →
    b.readyFor jobId key = true → a = b
  calm : ∀ save ∈ s.saves, save.stage ≠ .raised clash

section
variable {lib : Libraries} {s : CheckpointRun} {i : ℕ} {save next : Save}

theorem locked_iff {dispatchId : String} :
    s.locked dispatchId = true ↔ ∃ save ∈ s.saves, save.store.lease.1 = dispatchId ∧
      save.stage.locks = true := by
  simp [locked, List.any_eq_true]

theorem getElem?_setSave (hsave : s.saves[i]? = some save) (j : ℕ) :
    (s.setSave i next).saves[j]? = if i = j then some next else s.saves[j]? := by
  have hlt := (List.getElem?_eq_some_iff.mp hsave).1
  simp [setSave, List.getElem?_set, hlt]

theorem later_setSave (hsave : s.saves[i]? = some save) (hlater : save.Later next) {j : ℕ} {old : Save}
    (hold : s.saves[j]? = some old) : ∃ new, (s.setSave i next).saves[j]? = some new ∧ old.Later new := by
  rw [getElem?_setSave hsave]
  split_ifs with hij
  · subst hij
    obtain rfl : save = old := Option.some.inj (hsave.symm.trans hold)
    exact ⟨next, rfl, hlater⟩
  · exact ⟨old, hold, .refl old⟩

theorem of_setSave (hsave : s.saves[i]? = some save) {j : ℕ} {new : Save}
    (hnew : (s.setSave i next).saves[j]? = some new) : (j = i ∧ new = next) ∨
    (j ≠ i ∧ s.saves[j]? = some new) := by
  rw [getElem?_setSave hsave] at hnew
  split_ifs at hnew with hij
  · exact Or.inl ⟨hij.symm, (Option.some.inj hnew).symm⟩
  · exact Or.inr ⟨fun h => hij h.symm, hnew⟩

theorem RowOf.later {s s' : CheckpointRun} {row : CheckpointRow} (h : RowOf lib s i row)
    (hlater : ∀ old, s.saves[i]? = some old → ∃ new, s'.saves[i]? = some new ∧ old.Later new) :
    RowOf lib s' i row := by
  obtain ⟨old, t, hold, ht, hrow⟩ := h
  obtain ⟨new, hnew, hkept⟩ := hlater old hold
  exact ⟨new, t, hnew, hkept.trackedAt t ht, by rw [hkept.row]; exact hrow⟩

theorem Sound.setSave (h : Sound lib s) (hsave : s.saves[i]? = some save) (hlater : save.Later next)
    (htracked : next.Tracked) (hcalm : next.stage ≠ .raised clash)
    (hlocks : next.stage.locks = true → save.stage.locks = true ∨
      (Held s.run next ∧ s.locked save.store.lease.1 = false))
    (hdemoted : ∀ ids, next.stage = .demoted ids → save.stage = .demoted ids ∨
      ids = s.checkpoints.readyIds save.store.jobId save.key) : Sound lib (s.setSave i next) := by
  have hmem := List.mem_of_getElem? hsave
  have hin : ∀ other ∈ (s.setSave i next).saves, other = next ∨ other ∈ s.saves := by
    intro other hother
    rcases List.mem_or_eq_of_mem_set hother with hold | rfl
    · exact Or.inr hold
    · exact Or.inl rfl
  -- a save that has just taken the lock found it free
  have hnew : ∀ (j : ℕ) (b : Save), s.saves[j]? = some b → b.stage.locks = true → next.stage.locks = true →
      next.store.lease.1 = b.store.lease.1 → i = j := by
    intro j b hb hlocksb hlocksn hlease
    rw [hlater.store] at hlease
    rcases hlocks hlocksn with hlocked | ⟨-, hfree⟩
    · exact h.alone i j save b hsave hb hlocked hlocksb hlease
    · have htaken := locked_iff.mpr ⟨b, List.mem_of_getElem? hb, hlease.symm, hlocksb⟩
      rw [hfree] at htaken
      cases htaken
  constructor
  · exact h.hosted
  · intro j k a b ha hb hsame
    rcases of_setSave hsave ha with ⟨rfl, rfl⟩ | ⟨-, holda⟩
    · rcases of_setSave hsave hb with ⟨rfl, -⟩ | ⟨-, holdb⟩
      · rfl
      · exact h.identifiers _ _ _ _ hsave holdb (hlater.identifier ▸ hsame)
    · rcases of_setSave hsave hb with ⟨rfl, rfl⟩ | ⟨-, holdb⟩
      · exact h.identifiers _ _ _ _ holda hsave (hlater.identifier ▸ hsame)
      · exact h.identifiers _ _ _ _ holda holdb hsame
  · intro other hother
    rcases hin other hother with rfl | hold
    · exact htracked
    · exact h.tracked other hold
  · intro row hrow
    obtain ⟨j, hof⟩ := h.rows row hrow
    exact ⟨j, hof.later fun old hold => later_setSave hsave hlater hold⟩
  · intro row hrow hready
    obtain ⟨j, hj, hof⟩ := h.ready row hrow hready
    exact ⟨j, hj, hof.later fun old hold => later_setSave hsave hlater hold⟩
  · intro other hother hlocksother
    rcases hin other hother with rfl | hold
    · rcases hlocks hlocksother with hlocked | ⟨hheld, -⟩
      · exact (h.held save hmem hlocked).later hlater
      · exact hheld
    · exact h.held other hold hlocksother
  · intro j k a b ha hb hlocksa hlocksb hlease
    rcases of_setSave hsave ha with ⟨rfl, rfl⟩ | ⟨-, holda⟩
    · rcases of_setSave hsave hb with ⟨rfl, -⟩ | ⟨-, holdb⟩
      · rfl
      · exact hnew k b holdb hlocksb hlocksa hlease
    · rcases of_setSave hsave hb with ⟨rfl, rfl⟩ | ⟨-, holdb⟩
      · exact (hnew j a holda hlocksa hlocksb hlease.symm).symm
      · exact h.alone _ _ _ _ holda holdb hlocksa hlocksb hlease
  · intro other hother ids hstage row hrow hready
    rcases hin other hother with rfl | hold
    · rw [hlater.store, hlater.key] at hready
      rcases hdemoted ids hstage with hbefore | rfl
      · exact h.demoted save hmem ids hbefore row hrow hready
      · exact Checkpoints.mem_readyIds.mpr ⟨row, hrow, hready, rfl⟩
    · exact h.demoted other hold ids hstage row hrow hready
  · exact h.single
  · intro other hother
    rcases hin other hother with rfl | hold
    · exact hcalm
    · exact h.calm other hold

theorem Sound.abort (h : Sound lib s) (hsave : s.saves[i]? = some save) {e : Error} (hcalm : e ≠ clash) :
    Sound lib (s.setSave i { save with stage := .raised e }) := by
  refine h.setSave hsave (.goOn save _) ⟨?_, ?_, ?_⟩ ?_ ?_ ?_
  · intro hstage
    cases hstage
  · intro _ hgoing
    cases hgoing
  · intro hearly
    cases hearly
  · intro hstage
    cases hstage
    exact hcalm rfl
  · intro hlocks
    cases hlocks
  · intro ids hstage
    cases hstage

theorem Sound.objects (h : Sound lib s) (objects : CheckpointObjects) : Sound lib { s with objects } :=
  ⟨h.hosted, h.identifiers, h.tracked, h.rows, h.ready, h.held, h.alone, h.demoted, h.single, h.calm⟩

theorem Sound.clock (h : Sound lib s) (clock : Time) : Sound lib { s with clock } :=
  ⟨h.hosted, h.identifiers, h.tracked, h.rows, h.ready, h.held, h.alone, h.demoted, h.single, h.calm⟩

theorem Sound.restores (h : Sound lib s) (restores : List Restore) : Sound lib { s with restores } :=
  ⟨h.hosted, h.identifiers, h.tracked, h.rows, h.ready, h.held, h.alone, h.demoted, h.single, h.calm⟩

theorem Sound.track (h : Sound lib s) (hsave : s.saves[i]? = some save) {t : Time}
    (ht : save.trackedAt = some t) :
    Sound lib { s with checkpoints := s.checkpoints.put (save.row lib t) } := by
  have hquiet : ∀ jobId key, (save.row lib t).readyFor jobId key = false := fun jobId key => by
    simp [CheckpointRow.readyFor, Save.row]
  have hmem : ∀ row ∈ (s.checkpoints.put (save.row lib t)).rows, row = save.row lib t ∨
      row ∈ s.checkpoints.rows := by
    intro row hrow
    rcases (Table.mem_put _ _ _).mp hrow with rfl | ⟨hold, -⟩
    · exact Or.inl rfl
    · exact Or.inr hold
  constructor
  · exact h.hosted
  · exact h.identifiers
  · exact h.tracked
  · intro row hrow
    rcases hmem row hrow with rfl | hold
    · exact ⟨i, save, t, hsave, ht, rfl⟩
    · exact h.rows row hold
  · intro row hrow hready
    rcases hmem row hrow with rfl | hold
    · cases hready
    · exact h.ready row hold hready
  · exact h.held
  · exact h.alone
  · intro other hother ids hstage row hrow hready
    rcases hmem row hrow with rfl | hold
    · rw [hquiet] at hready
      cases hready
    · exact h.demoted other hother ids hstage row hold hready
  · intro a ha b hb jobId key hreadya hreadyb
    rcases hmem a ha with rfl | holda
    · rw [hquiet] at hreadya
      cases hreadya
    rcases hmem b hb with rfl | holdb
    · rw [hquiet] at hreadyb
      cases hreadyb
    · exact h.single a holda b holdb jobId key hreadya hreadyb
  · exact h.calm

theorem Sound.row_of (h : Sound lib s) (hsave : s.saves[i]? = some save) {row : CheckpointRow}
    (hrow : row ∈ s.checkpoints.rows) (hid : row.id = save.identifier) :
    ∃ t, save.trackedAt = some t ∧ row = { save.row lib t with ready := row.ready } := by
  obtain ⟨j, other, t, hother, ht, hof⟩ := h.rows row hrow
  have hother' : other.identifier = save.identifier := by rw [← hid, hof]; rfl
  obtain rfl : j = i := h.identifiers j i other save hother hsave hother'
  obtain rfl : other = save := Option.some.inj (hother.symm.trans hsave)
  exact ⟨t, ht, hof⟩

theorem Held.lease_eq {run : HostedRun} {a b : Save} (hrun : Dispatched run.db) (ha : Held run a)
    (hb : Held run b) (hsame : a.store.jobId = b.store.jobId) : a.store.lease.1 = b.store.lease.1 := by
  obtain ⟨first, hfirst, hof⟩ := ha.dispatch
  obtain ⟨second, hsecond, hof'⟩ := hb.dispatch
  have hone := hrun.single first (Table.mem_of_get? hfirst) second (Table.mem_of_get? hsecond)
    (hof.trans (hsame.trans hof'.symm))
  have hkey : first.id = a.store.lease.1 := Table.key_of_get? hfirst
  have hkey' : second.id = b.store.lease.1 := Table.key_of_get? hsecond
  rw [← hkey, ← hkey', hone]

theorem published_rows {s : CheckpointRun} {ids : List String} {identifier : String} {c : Checkpoints}
    (h : (s.checkpoints.demote ids).promote identifier = .ok c) {row : CheckpointRow} (hrow : row ∈ c.rows) :
    ∃ old ∈ s.checkpoints.rows, row = { old with ready := row.ready } ∧
      (row.ready = true → row.id = identifier ∨ (row = old ∧ old.id ∉ ids)) := by
  rcases Checkpoints.promote_ok h with ⟨-, rfl⟩ | ⟨own, hown, rfl, -⟩
  · obtain ⟨old, hold, hsame, hready⟩ := Checkpoints.mem_demote hrow
    exact ⟨old, hold, hsame, fun h => Or.inr (hready h)⟩
  · rcases (Table.mem_put _ _ _).mp hrow with rfl | ⟨hmem, -⟩
    · obtain ⟨old, hold, hsame, -⟩ := Checkpoints.mem_demote (Table.mem_of_get? hown)
      have hid : own.id = identifier := Table.key_of_get? hown
      exact ⟨old, hold, by rw [hsame], fun _ => Or.inl hid⟩
    · obtain ⟨old, hold, hsame, hready⟩ := Checkpoints.mem_demote hmem
      exact ⟨old, hold, hsame, fun h => Or.inr (hready h)⟩

theorem RowOf.flag {row old : CheckpointRow} (h : RowOf lib s i old)
    (hsame : row = { old with ready := row.ready }) :
    RowOf lib s i row := by
  obtain ⟨save, t, hsave, ht, hrow⟩ := h
  refine ⟨save, t, hsave, ht, ?_⟩
  rw [hsame, hrow]

theorem Sound.publish (h : Sound lib s) (hsave : s.saves[i]? = some save) {ids : List String}
    (hstage : save.stage = .demoted ids) {c : Checkpoints}
    (hpromote : (s.checkpoints.demote ids).promote save.identifier = .ok c) :
    Sound lib (({ s with checkpoints := c, published := i :: s.published } : CheckpointRun).setSave i
      { save with stage := .saved }) := by
  have hmem := List.mem_of_getElem? hsave
  have hlocks : save.stage.locks = true := by rw [hstage]; rfl
  have hlater : save.Later { save with stage := .saved } := .goOn save _
  have hset : Sound lib (s.setSave i { save with stage := .saved }) := by
    refine h.setSave hsave hlater ⟨?_, ?_, ?_⟩ ?_ ?_ ?_
    · intro hstage
      cases hstage
    · intro _ hgoing
      cases hgoing
    · intro hearly
      cases hearly
    · intro hstage
      cases hstage
    · intro hlocks
      cases hlocks
    · intro ids hstage
      cases hstage
  -- the promoted row is the save's own
  have hown : ∀ row ∈ c.rows, row.id = save.identifier →
      RowOf lib s i row ∧ row.jobId = save.store.jobId ∧ row.checkpointKey = save.key := by
    intro row hrow hid
    obtain ⟨old, hold, hsame, -⟩ := published_rows hpromote hrow
    have hid' : old.id = save.identifier := by rw [← hid, hsame]
    obtain ⟨t, ht, hof⟩ := h.row_of hsave hold hid'
    have hrowOf : RowOf lib s i old := ⟨save, t, hsave, ht, hof⟩
    refine ⟨hrowOf.flag hsame, ?_, ?_⟩
    · rw [hsame, hof]
      rfl
    · rw [hsame, hof]
      rfl
  have hmoved : ∀ {j : ℕ} {row : CheckpointRow}, RowOf lib s j row →
      RowOf lib (({ s with checkpoints := c, published := i :: s.published } : CheckpointRun).setSave i
        { save with stage := .saved }) j row := fun hof => hof.later fun old hold =>
          later_setSave hsave hlater hold
  constructor
  · exact h.hosted
  · exact hset.identifiers
  · exact hset.tracked
  · intro row hrow
    obtain ⟨old, hold, hsame, -⟩ := published_rows hpromote hrow
    obtain ⟨j, hof⟩ := h.rows old hold
    exact ⟨j, hmoved (hof.flag hsame)⟩
  · intro row hrow hready
    obtain ⟨old, hold, hsame, hcases⟩ := published_rows hpromote hrow
    rcases hcases hready with hid | ⟨rfl, -⟩
    · exact ⟨i, List.mem_cons_self, hmoved (hown row hrow hid).1⟩
    · obtain ⟨j, hj, hof⟩ := h.ready row hold hready
      exact ⟨j, List.mem_cons_of_mem _ hj, hmoved hof⟩
  · exact hset.held
  · exact hset.alone
  · intro other hother ids' hstage' row hrow hready
    obtain ⟨j, hj⟩ := List.mem_iff_getElem?.mp hother
    rcases of_setSave (s := s) hsave hj with ⟨-, rfl⟩ | ⟨hne, hold⟩
    · cases hstage'
    obtain ⟨old, hmemold, hsame, hcases⟩ := published_rows hpromote hrow
    obtain ⟨hflag, hjob, hkey⟩ := Checkpoints.readyFor_iff.mp hready
    rcases hcases hflag with hid | ⟨rfl, -⟩
    · -- two saves of one job would hold the one lease of its dispatch
      obtain ⟨-, hjob', -⟩ := hown row hrow hid
      have hotherlocks : other.stage.locks = true := by rw [hstage']; rfl
      have hlease := Held.lease_eq (reach_dispatched h.hosted) (h.held save hmem hlocks)
        (h.held other (List.mem_of_getElem? hold) hotherlocks) (hjob'.symm.trans hjob)
      exact absurd (h.alone i j save other hsave hold hlocks hotherlocks hlease).symm hne
    · exact h.demoted other (List.mem_of_getElem? hold) ids' hstage' row hmemold hready
  · intro a ha b hb jobId key hreadya hreadyb
    obtain ⟨hflaga, hjoba, hkeya⟩ := Checkpoints.readyFor_iff.mp hreadya
    obtain ⟨hflagb, hjobb, hkeyb⟩ := Checkpoints.readyFor_iff.mp hreadyb
    have hapart : ∀ row ∈ c.rows, row.id = save.identifier → row.jobId = jobId → row.checkpointKey = key →
        ∀ old ∈ s.checkpoints.rows, old.readyFor jobId key = true → old.id ∈ ids := by
      intro row hrow hid hjob hkey old hold hready
      obtain ⟨-, hjob', hkey'⟩ := hown row hrow hid
      refine h.demoted save hmem ids hstage old hold ?_
      rwa [← hjob', ← hkey', hjob, hkey]
    obtain ⟨olda, holda, -, hcasesa⟩ := published_rows hpromote ha
    obtain ⟨oldb, holdb, -, hcasesb⟩ := published_rows hpromote hb
    rcases hcasesa hflaga with hida | ⟨rfl, houta⟩
    · rcases hcasesb hflagb with hidb | ⟨rfl, houtb⟩
      · exact Table.eq_of_mem ha hb (hida.trans hidb.symm)
      · exact absurd (hapart a ha hida hjoba hkeya b holdb hreadyb) houtb
    · rcases hcasesb hflagb with hidb | ⟨rfl, houtb⟩
      · exact absurd (hapart b hb hidb hjobb hkeyb a holda hreadya) houta
      · exact h.single a holda b holdb jobId key hreadya hreadyb
  · exact hset.calm

/-- The unique index of the ready rows is never violated. -/
theorem Sound.promotes (h : Sound lib s) (hsave : s.saves[i]? = some save) {ids : List String}
    (hstage : save.stage = .demoted ids) (e : Error) :
    (s.checkpoints.demote ids).promote save.identifier ≠ .error e := by
  intro hrefused
  obtain ⟨row, hrow, other, hother, hne, hready⟩ := Checkpoints.promote_error hrefused
  obtain ⟨old, hold, hsame, -⟩ := Checkpoints.mem_demote (Table.mem_of_get? hrow)
  have hid : row.id = save.identifier := Table.key_of_get? hrow
  have hid' : old.id = save.identifier := by rw [← hid, hsame]
  obtain ⟨t, ht, hof⟩ := h.row_of hsave hold hid'
  obtain ⟨before, hbefore, -, hkept⟩ := Checkpoints.mem_demote hother
  obtain ⟨rfl, hout⟩ := hkept (Checkpoints.readyFor_iff.mp hready).1
  refine hout (h.demoted save (List.mem_of_getElem? hsave) ids hstage other hbefore ?_)
  rw [hsame, hof] at hready
  exact hready

theorem Sound.goOn (h : Sound lib s) (hsave : s.saves[i]? = some save) {stage : SaveStage}
    (hfrom : save.stage ≠ .started) (hgoing : save.stage.ended = false) (hto : stage ≠ .started)
    (hcalm : stage ≠ .raised clash) (hearly : stage.early = true → save.stage.early = true)
    (hlocks : stage.locks = true → save.stage.locks = true) (hdemoted : ∀ ids, stage = .demoted ids →
      ids = s.checkpoints.readyIds save.store.jobId save.key) :
    Sound lib (s.setSave i { save with stage }) := by
  have htracked := h.tracked save (List.mem_of_getElem? hsave)
  apply h.setSave hsave (.goOn save stage)
  · constructor
    · intro hstage
      exact absurd hstage hto
    · intro _ _
      exact htracked.going hfrom hgoing
    · intro hbefore
      exact htracked.unseen (hearly hbefore)
  · exact hcalm
  · exact fun hstage => Or.inl (hlocks hstage)
  · intro ids hstage
    exact Or.inr (hdemoted ids hstage)

theorem Sound.advance (h : Sound lib s) (hsave : s.saves[i]? = some save) (turn : Turn) :
    Sound lib ((s.advance lib i save turn).1.setSave i (s.advance lib i save turn).2) := by
  have htracked := h.tracked save (List.mem_of_getElem? hsave)
  have hspec := advance_spec lib s i save turn
  revert hspec
  generalize s.advance lib i save turn = result
  intro hspec
  cases hspec with
  | waits =>
    refine h.setSave hsave (.refl save) htracked (h.calm save (List.mem_of_getElem? hsave)) ?_ ?_
    · exact fun hlocks => Or.inl hlocks
    · exact fun ids hstage => Or.inl hstage
  | refused calm => exact h.abort hsave calm
  | tracked stage live inserted =>
    obtain ⟨-, rfl⟩ := Checkpoints.insert_ok inserted
    have hlater : save.Later { save with stage := .tracked, trackedAt := some turn.at' } := by
      refine ⟨rfl, rfl, rfl, rfl, rfl, fun t ht => ?_, fun _ hseen => hseen⟩
      rw [htracked.fresh stage] at ht
      cases ht
    have hset : Sound lib (s.setSave i { save with stage := .tracked, trackedAt := some turn.at' }) := by
      refine h.setSave hsave hlater ⟨?_, fun _ _ => rfl, ?_⟩ ?_ ?_ ?_
      · intro hstage
        cases hstage
      · intro _
        exact htracked.unseen (by rw [stage]; rfl)
      · intro hstage
        cases hstage
      · intro hlocks
        cases hlocks
      · intro ids hstage
        cases hstage
    have hnext : (s.setSave i { save with stage := .tracked, trackedAt := some turn.at' }).saves[i]? =
        some { save with stage := .tracked, trackedAt := some turn.at' } := by
      rw [getElem?_setSave hsave, if_pos rfl]
    exact hset.track hnext rfl
  | uploaded stage =>
    refine Sound.objects (s := s.setSave i { save with stage := .uploaded }) ?_ _
    apply h.goOn hsave <;> simp [stage, SaveStage.ended, SaveStage.early, SaveStage.locks]
  | checked stage free live =>
    have hlater : save.Later { save with stage := .checked, seen := some (s.run.db, turn.now) } := by
      refine ⟨rfl, rfl, rfl, rfl, rfl, fun _ ht => ht, fun x hx => ?_⟩
      rw [htracked.unseen (by rw [stage]; rfl)] at hx
      cases hx
    refine h.setSave hsave hlater ⟨?_, ?_, ?_⟩ ?_ ?_ ?_
    · intro hstage
      cases hstage
    · intro _ _
      exact htracked.going (by simp [stage]) (by rw [stage]; rfl)
    · intro hearly
      cases hearly
    · intro hstage
      cases hstage
    · intro _
      exact Or.inr ⟨.of_live rfl live, free⟩
    · intro ids hstage
      cases hstage
  | demoted stage =>
    apply h.goOn hsave (by simp [stage]) (by simp [stage, SaveStage.ended]) (by simp) (by simp)
    · intro hearly
      cases hearly
    · intro _
      rw [stage]
      rfl
    · intro ids hstage
      cases hstage
      rfl
  | published stage promoted => exact h.publish hsave stage promoted
  | clashed stage refused => exact absurd refused (h.promotes hsave stage _)

theorem setSave_setSave (s : CheckpointRun) (i : ℕ) (a b : Save) :
    (s.setSave i a).setSave i b = s.setSave i b := by
  simp [CheckpointRun.setSave]

theorem saves_advance (s : CheckpointRun) (i : ℕ) (save : Save) (turn : Turn) :
    (s.advance lib i save turn).1.saves = s.saves := by
  have hspec := advance_spec lib s i save turn
  revert hspec
  generalize s.advance lib i save turn = result
  intro hspec
  cases hspec <;> rfl

/-- A step of save `i`: it ends in a failure, goes on, or fails with its effect. -/
inductive Worked (lib : Libraries) (s : CheckpointRun) (i : ℕ) (turn : Turn) : CheckpointRun → Prop
  | idle : Worked lib s i turn s
  | failed {save : Save} {e : Error} (found : s.saves[i]? = some save) (going : save.stage.ended = false)
      (fails : turn.fails = some (e, false)) :
      Worked lib s i turn (s.setSave i { save with stage := .raised e })
  | advanced {save : Save} (found : s.saves[i]? = some save) (going : save.stage.ended = false) :
    Worked lib s i turn ((s.advance lib i save turn).1.setSave i (s.advance lib i save turn).2)
  | landed {save : Save} {e : Error} (found : s.saves[i]? = some save) (going : save.stage.ended = false)
      (fails : turn.fails = some (e, true)) :
    Worked lib s i turn ((s.advance lib i save turn).1.setSave i
      { (s.advance lib i save turn).2 with stage := .raised e })

theorem work_spec (lib : Libraries) (s : CheckpointRun) (i : ℕ) (turn : Turn) :
    Worked lib s i turn (s.work lib i turn) := by
  unfold CheckpointRun.work
  cases hsave : s.saves[i]? with
  | none => exact .idle
  | some save =>
    simp only
    split_ifs with hended
    · exact .idle
    have hgoing : save.stage.ended = false := by simpa using hended
    rcases hfails : turn.fails with _ | ⟨e, landed⟩
    · exact .advanced hsave hgoing
    · cases landed with
      | false => exact .failed hsave hgoing hfails
      | true => exact .landed hsave hgoing hfails

theorem read_spec (lib : Libraries) (s : CheckpointRun) (j : ℕ) (turn : Turn) :
    s.read lib j turn = s ∨ ∃ restore next, s.restores[j]? = some restore ∧
      s.read lib j turn = s.setRestore j next ∧
      ((turn.fails = none ∧ next = s.proceed lib restore turn) ∨
        ∃ e, next = { restore with stage := .raised e } ∨
          next = { s.proceed lib restore turn with stage := .raised e }) := by
  unfold CheckpointRun.read
  cases hrestore : s.restores[j]? with
  | none => exact Or.inl rfl
  | some restore =>
    simp only
    split_ifs with hended
    · exact Or.inl rfl
    · rcases hfails : turn.fails with _ | ⟨e, landed⟩
      · exact Or.inr ⟨restore, _, rfl, rfl, Or.inl ⟨rfl, rfl⟩⟩
      · cases landed with
        | false => exact Or.inr ⟨restore, _, rfl, rfl, Or.inr ⟨e, Or.inl rfl⟩⟩
        | true => exact Or.inr ⟨restore, _, rfl, rfl, Or.inr ⟨e, Or.inr rfl⟩⟩

theorem Sound.work (h : Sound lib s) (i : ℕ) {turn : Turn}
    (hcalm : ∀ e landed, turn.fails = some (e, landed) → e ≠ clash) : Sound lib (s.work lib i turn) := by
  have hspec := work_spec lib s i turn
  revert hspec
  generalize s.work lib i turn = s'
  intro hspec
  cases hspec with
  | idle => exact h
  | failed found going fails => exact h.abort found (hcalm _ false fails)
  | advanced found going => exact h.advance found turn
  | landed found going fails =>
    have hnext : ∀ {save : Save}, s.saves[i]? = some save →
        ((s.advance lib i save turn).1.setSave i (s.advance lib i save turn).2).saves[i]? =
          some (s.advance lib i save turn).2 := by
      intro save hsave
      rw [getElem?_setSave (by rw [saves_advance]; exact hsave), if_pos rfl]
    have haborted := (h.advance found turn).abort (hnext found) (hcalm _ true fails)
    rwa [setSave_setSave] at haborted

theorem Sound.call (h : Sound lib s) {call : Call} (hcall : Recovers s.run call) :
    Sound lib (s.call call) := by
  unfold CheckpointRun.call
  simp only
  split_ifs with hfree
  · have honward := onward_step h.hosted hcall
    constructor
    · exact .step call h.hosted hcall
    · exact h.identifiers
    · exact h.tracked
    · exact h.rows
    · exact h.ready
    · intro save hsave hlocks
      exact (h.held save hsave hlocks).call honward
        (of_decide_eq_true (List.all_eq_true.mp hfree save hsave) hlocks)
    · exact h.alone
    · exact h.demoted
    · exact h.single
    · exact h.calm
  · exact h

theorem Sound.delete (h : Sound lib s) {checkpoints : Checkpoints}
    (hmem : ∀ row ∈ checkpoints.rows, row ∈ s.checkpoints.rows) (objects : CheckpointObjects) (clock : Time) :
    Sound lib { s with checkpoints, objects, clock } := by
  constructor
  · exact h.hosted
  · exact h.identifiers
  · exact h.tracked
  · exact fun row hrow => h.rows row (hmem row hrow)
  · exact fun row hrow => h.ready row (hmem row hrow)
  · exact h.held
  · exact h.alone
  · exact fun save hsave ids hstage row hrow => h.demoted save hsave ids hstage row (hmem row hrow)
  · exact fun a ha b hb => h.single a (hmem a ha) b (hmem b hb)
  · exact h.calm

theorem Sound.retain (h : Sound lib s) (now : Time) (skipped : List String) (deletions : String → Deletion)
    (commits : Bool) : Sound lib (s.retain now skipped deletions commits) := by
  refine h.delete (fun row hrow => ?_) _ now
  split_ifs at hrow
  · exact (Table.mem_restrict.mp hrow).1
  · exact hrow

theorem Sound.start (h : Sound lib s) {new : Save} (hnew : new.stage = .started) (hat : new.trackedAt = none)
    (hseen : new.seen = none) (hfresh : ∀ save ∈ s.saves, save.identifier ≠ new.identifier) :
    Sound lib { s with saves := s.saves ++ [new] } := by
  have hcases : ∀ {j : ℕ} {save : Save}, (s.saves ++ [new])[j]? = some save →
      s.saves[j]? = some save ∨ (j = s.saves.length ∧ save = new) := by
    intro j save hj
    rw [List.getElem?_append] at hj
    split_ifs at hj with hlt
    · exact Or.inl hj
    · rcases List.mem_singleton.mp (List.mem_of_getElem? hj) with rfl
      have hbound := (List.getElem?_eq_some_iff.mp hj).1
      simp only [List.length_singleton] at hbound
      exact Or.inr ⟨by omega, rfl⟩
  have hmem : ∀ save ∈ s.saves ++ [new], save ∈ s.saves ∨ save = new := by
    intro save hsave
    rcases List.mem_append.mp hsave with hold | hlast
    · exact Or.inl hold
    · exact Or.inr (List.mem_singleton.mp hlast)
  have hkept : ∀ (j : ℕ) (old : Save), s.saves[j]? = some old →
      ∃ save, (s.saves ++ [new])[j]? = some save ∧ old.Later save := by
    intro j old hj
    refine ⟨old, ?_, .refl old⟩
    rw [List.getElem?_append_left (List.getElem?_eq_some_iff.mp hj).1, hj]
  constructor
  · exact h.hosted
  · intro j k a b ha hb hsame
    rcases hcases ha with holda | ⟨rfl, rfl⟩
    · rcases hcases hb with holdb | ⟨-, rfl⟩
      · exact h.identifiers j k a b holda holdb hsame
      · exact absurd hsame (hfresh a (List.mem_of_getElem? holda))
    · rcases hcases hb with holdb | ⟨rfl, -⟩
      · exact absurd hsame.symm (hfresh b (List.mem_of_getElem? holdb))
      · rfl
  · intro save hsave
    rcases hmem save hsave with hold | rfl
    · exact h.tracked save hold
    · exact ⟨fun _ => hat, fun hstage => absurd hnew hstage, fun _ => hseen⟩
  · intro row hrow
    obtain ⟨j, hof⟩ := h.rows row hrow
    exact ⟨j, hof.later (hkept j)⟩
  · intro row hrow hready
    obtain ⟨j, hj, hof⟩ := h.ready row hrow hready
    exact ⟨j, hj, hof.later (hkept j)⟩
  · intro save hsave hlocks
    rcases hmem save hsave with hold | rfl
    · exact h.held save hold hlocks
    · rw [hnew] at hlocks
      cases hlocks
  · intro j k a b ha hb hlocksa hlocksb hlease
    rcases hcases ha with holda | ⟨rfl, rfl⟩
    · rcases hcases hb with holdb | ⟨-, rfl⟩
      · exact h.alone j k a b holda holdb hlocksa hlocksb hlease
      · rw [hnew] at hlocksb
        cases hlocksb
    · rw [hnew] at hlocksa
      cases hlocksa
  · intro save hsave ids hstage row hrow hready
    rcases hmem save hsave with hold | rfl
    · exact h.demoted save hold ids hstage row hrow hready
    · rw [hnew] at hstage
      cases hstage
  · exact h.single
  · intro save hsave
    rcases hmem save hsave with hold | rfl
    · exact h.calm save hold
    · rw [hnew]
      intro hstage
      cases hstage

theorem Sound.step (h : Sound lib s) {act : CheckpointAct} (hact : s.Allowed act) :
    Sound lib (s.step lib act) := by
  cases act with
  | call call => exact h.call hact
  | save store key source metadata identifier => exact h.start rfl rfl rfl hact
  | work i turn => exact (h.work i hact.2).clock turn.at'
  | restore store key => exact h.restores _
  | read j turn =>
    rcases read_spec lib s j turn with hsame | ⟨restore, next, -, hset, -⟩
    · rw [CheckpointRun.step, hsame]
      exact h
    · rw [CheckpointRun.step, hset]
      exact h.restores _
  | retain now skipped deletions commits => exact h.retain now skipped deletions commits

theorem sound_of_reach {ok : CheckpointRun → CheckpointAct → Prop} (hok : ∀ s act, ok s act → s.Allowed act)
    (h : Reach lib ok s) : Sound lib s := by
  induction h with
  | init =>
    constructor
    · exact .init
    all_goals simp
  | step act reach allowed ih => exact ih.step (hok _ act allowed)

/-- The last token issued for a dispatch is that of its lease. -/
theorem reach_token {run : HostedRun} (h : Serial.Reach Call.prog Recovers {} run) (dispatchId : String) :
    run.db.tokenOf dispatchId = (tokensOf dispatchId run.log).head? := by
  induction h with
  | init => rfl
  | step call reach allowed ih =>
    rename_i run
    have hspec := Serial.step_spec Call.prog run call
    revert hspec
    generalize run.step Call.prog call = run'
    intro hspec
    cases hspec with
    | fail error => exact ih
    | commit ok =>
      have hprog : call.prog.Along leaseRely (fun _ _ _ => True) run.db _ {} := call.token_along
      have halong := hprog.run (by simp) fun _ _ => trivial
      simp only [applyAll_nil, ok] at halong
      obtain ⟨t, ⟨-, heffect⟩, rfl⟩ := halong
      rw [heffect dispatchId]
      unfold tokensOf
      rw [List.filterMap_cons]
      rename_i reply
      cases hissued : (issuedBy (call, reply)).filter (·.1 = dispatchId) with
      | none => exact ih
      | some lease => rfl

/-- The save holds the lease of its job's dispatch, under the token issued last, and in the store and by the
clock that its second transaction checked, the lease was live and the job was running. -/
structure Fenced (s : CheckpointRun) (save : Save) : Prop where
  current : (tokensOf save.store.lease.1 s.run.log).head? = some save.store.lease.2
  dispatch : ∃ dispatch, s.run.db.dispatches.get? save.store.lease.1 = some dispatch ∧
    dispatch.jobId = save.store.jobId
  seen : ∃ d now, save.seen = some (d, now) ∧ d ∈ s.run.db :: s.run.past ∧ save.store.Live d now

theorem Sound.fenced (h : Sound lib s) (hsave : save ∈ s.saves) (hlocks : save.stage.locks = true) :
    s.Fenced save := by
  have hheld := h.held save hsave hlocks
  refine ⟨?_, hheld.dispatch, hheld.seen⟩
  rw [← reach_token h.hosted]
  exact hheld.token

theorem ready_advance {turn : Turn} {row : CheckpointRow}
    (hrow : row ∈ (s.advance lib i save turn).1.checkpoints.rows) (hready : row.ready = true) :
    row ∈ s.checkpoints.rows ∨ (save.identifier = row.id ∧ save.stage.locks = true) := by
  have hspec := advance_spec lib s i save turn
  revert hspec hrow
  generalize s.advance lib i save turn = result
  intro hrow hspec
  cases hspec with
  | tracked stage live inserted =>
    obtain ⟨-, rfl⟩ := Checkpoints.insert_ok inserted
    rcases (Table.mem_put _ _ _).mp hrow with rfl | ⟨hold, -⟩
    · cases hready
    · exact Or.inl hold
  | published stage promoted =>
    obtain ⟨old, hold, hsame, hcases⟩ := published_rows promoted hrow
    rcases hcases hready with hid | ⟨rfl, -⟩
    · exact Or.inr ⟨hid.symm, by rw [stage]; rfl⟩
    · exact Or.inl hold
  | _ => exact Or.inl hrow

theorem timely_allowed (s : CheckpointRun) (act : CheckpointAct) (h : s.Timely act) : s.Allowed act := by
  cases act with
  | work i turn => exact h.1
  | _ => exact h

theorem Reach.imp {ok ok' : CheckpointRun → CheckpointAct → Prop} (hok : ∀ s act, ok s act → ok' s act)
    (h : Reach lib ok s) : Reach lib ok' s := by
  induction h with
  | init => exact .init
  | step act reach allowed ih => exact .step act ih (hok _ act allowed)

/-- A step other than a call that nothing makes fail, and that is in time. -/
def admits (s : CheckpointRun) : CheckpointAct → Bool
  | .call _ => false
  | .save _ _ _ _ identifier => s.saves.all (·.identifier ≠ identifier)
  | .work i turn => s.clock ≤ turn.at' ∧ turn.fails = none ∧
      (s.saves[i]?).all fun save => save.trackedAt.all fun t => turn.at' ≤ t + 24 * 60 * 60
  | .retain now _ _ _ => s.clock ≤ now
  | .restore _ _ | .read _ _ => true

theorem timely_of_admits {act : CheckpointAct} (h : s.admits act = true) : s.Timely act := by
  cases act with
  | call call => cases h
  | save store key source metadata identifier =>
    intro save hsave
    have hne := List.all_eq_true.mp h save hsave
    exact of_decide_eq_true hne
  | work i turn =>
    obtain ⟨hclock, hfails, hall⟩ := of_decide_eq_true h
    refine ⟨⟨hclock, fun e landed heq => ?_⟩, fun save t hsave _ ht => ?_⟩
    · rw [hfails] at heq
      cases heq
    · rw [hsave, Option.all_some, ht, Option.all_some] at hall
      exact of_decide_eq_true hall
  | retain now skipped deletions commits =>
    have hclock : s.clock ≤ now := of_decide_eq_true h
    exact hclock
  | restore store key => trivial
  | read j turn => trivial

def admitsAll (lib : Libraries) : List CheckpointAct → CheckpointRun → Bool
  | [], _ => true
  | act :: acts, s => s.admits act && admitsAll lib acts (s.step lib act)

theorem Reach.acts (h : Reach lib Timely s) {acts : List CheckpointAct}
    (hacts : admitsAll lib acts s = true) :
    Reach lib Timely (acts.foldl (CheckpointRun.step lib) s) := by
  induction acts generalizing s with
  | nil => exact h
  | cons act acts ih =>
    simp only [admitsAll, Bool.and_eq_true] at hacts
    exact ih (.step act h (timely_of_admits hacts.1)) hacts.2

end

/-- The eleven bytes of a chapter. -/
def chapterPcm : Bytes := [99, 104, 97, 112, 116, 101, 114, 32, 80, 67, 77]

/-- The libraries, on that file and the metadata of no field. -/
def sampleLibraries : Libraries where
  hash :=
    { State := Bytes
      new := []
      update := fun digest block => digest ++ block
      hexdigest := fun digest =>
        if digest = chapterPcm then "c965ea98694f2241d76dd77393d04889851f826e8016d39ffd2a67f770ba3a2d"
        else "" }
  dumps _ := "\x7b\x7d"
  loads _ := .ok (.dict [])

def sampleStore : HostedCheckpointStore := ⟨"job", ("dispatch", "first")⟩

def sampleStart : Call :=
  .update sampleJob .dispatchRequested "dispatch_requested" none (some ("dispatch", "first")) none 1 1

/-- A job that an attempt is running. -/
def sampleAttempt : CheckpointRun :=
  [.call (.accountForIdentity "account" "lot" "identity" 5),
    .call (.admitJob "authorization" sampleJob ⟨"dispatch", "job", "pending", 0⟩ "account" "identity" 3 none),
    .call (.claimExecution "dispatch" 1 30 3 "first" 0 0), .call sampleStart].foldl (step sampleLibraries)
      { run := { db := {} } }

theorem reach_sampleAttempt : Reach sampleLibraries Timely sampleAttempt := by
  have hfunded : Recovers { db := {} } (.accountForIdentity "account" "lot" "identity" 5) := by
    refine ⟨trivial, trivial, fun reference hreference => ?_⟩
    cases hreference
    exact PostgresBillingRepository.offLedger_allowance "identity"
  have hinit : Reach sampleLibraries Timely { run := { db := {} } } := .init
  have hadmitted := (hinit.step (.call (.accountForIdentity "account" "lot" "identity" 5)) hfunded).step
    (.call (.admitJob "authorization" sampleJob ⟨"dispatch", "job", "pending", 0⟩
      "account" "identity" 3 none))
    ⟨rfl, rfl, fun _ h => by cases h⟩
  have hclaimed := hadmitted.step (.call (.claimExecution "dispatch" 1 30 3 "first" 0 0))
    ⟨trivial, rfl, fun _ h => by cases h⟩
  refine hclaimed.step (.call sampleStart) ⟨?_, trivial, fun _ h => by cases h⟩
  exact ⟨_, List.mem_cons_self, by decide +kernel⟩

/-- It saves the chapter, and its next restore finds it. -/
def sampleSaved : CheckpointRun :=
  (.save sampleStore "chapter" chapterPcm (.dict []) "object" ::
    List.replicate 5 (.work 0 { now := 2, at' := 2 })).foldl (step sampleLibraries) sampleAttempt

theorem reach_sampleSaved : Reach sampleLibraries Timely sampleSaved := reach_sampleAttempt.acts
    (by decide +kernel)

/-- A checkpoint becomes ready only under the lease of its job. -/
theorem readied_fenced (lib : Libraries) {s : CheckpointRun} (h : Reach lib Allowed s) (act : CheckpointAct)
    (row : CheckpointRow) (hrow : row ∈ (s.step lib act).checkpoints.rows) (hready : row.ready = true) :
    row ∈ s.checkpoints.rows ∨ ∃ save ∈ s.saves, save.identifier = row.id ∧ s.Fenced save := by
  have hsound := sound_of_reach (fun _ _ hact => hact) h
  cases act with
  | call call =>
    simp only [CheckpointRun.step, CheckpointRun.call] at hrow
    split_ifs at hrow
    · exact Or.inl hrow
    · exact Or.inl hrow
  | save store key source metadata identifier => exact Or.inl hrow
  | work i turn =>
    have hspec := work_spec lib s i turn
    simp only [CheckpointRun.step] at hrow
    revert hspec hrow
    generalize s.work lib i turn = s'
    intro hrow hspec
    have hcases : ∀ {save : Save}, s.saves[i]? = some save →
        row ∈ (s.advance lib i save turn).1.checkpoints.rows →
          row ∈ s.checkpoints.rows ∨ ∃ save ∈ s.saves, save.identifier = row.id ∧ s.Fenced save := by
      intro save hsave hmem
      rcases ready_advance hmem hready with hold | ⟨hid, hlocks⟩
      · exact Or.inl hold
      · exact Or.inr ⟨save, List.mem_of_getElem? hsave, hid,
          hsound.fenced (List.mem_of_getElem? hsave) hlocks⟩
    cases hspec with
    | idle => exact Or.inl hrow
    | failed found going fails => exact Or.inl hrow
    | advanced found going => exact hcases found hrow
    | landed found going fails => exact hcases found hrow
  | restore store key => exact Or.inl hrow
  | read j turn =>
    rcases read_spec lib s j turn with hsame | ⟨restore, next, -, hset, -⟩
    · rw [CheckpointRun.step, hsame] at hrow
      exact Or.inl hrow
    · rw [CheckpointRun.step, hset] at hrow
      exact Or.inl hrow
  | retain now skipped deletions commits =>
    simp only [CheckpointRun.step, CheckpointRun.retain] at hrow
    split_ifs at hrow
    · exact Or.inl (Table.mem_restrict.mp hrow).1
    · exact Or.inl hrow

/-- The chapter's row, once it is ready. -/
def sampleRow : CheckpointRow :=
  ⟨"object", "job", "chapter", "c965ea98694f2241d76dd77393d04889851f826e8016d39ffd2a67f770ba3a2d", 11,
    "\x7b\x7d", true, 2⟩

/-- The save, before its last statement. -/
def sampleSaving : CheckpointRun :=
  (.save sampleStore "chapter" chapterPcm (.dict []) "object" ::
    List.replicate 4 (.work 0 { now := 2, at' := 2 })).foldl (step sampleLibraries) sampleAttempt

theorem readied_fenced_saved :
    sampleRow ∈ (sampleSaving.step sampleLibraries (.work 0 { now := 2, at' := 2 })).checkpoints.rows ∧
      (sampleRow ∈ sampleSaving.checkpoints.rows ∨
        ∃ save ∈ sampleSaving.saves, save.identifier = sampleRow.id ∧ sampleSaving.Fenced save) := by
  have hreach : Reach sampleLibraries Timely sampleSaving := reach_sampleAttempt.acts (by decide +kernel)
  have hrow : sampleRow ∈ (sampleSaving.step sampleLibraries
      (.work 0 { now := 2, at' := 2 })).checkpoints.rows := by
    decide +kernel
  exact ⟨hrow, readied_fenced sampleLibraries (hreach.imp timely_allowed) _ sampleRow hrow rfl⟩

/-- A job has at most one ready checkpoint under a key, and no save runs into the index that says so. -/
theorem checkpoint_single (lib : Libraries) {s : CheckpointRun} (h : Reach lib Allowed s) :
    (∀ a ∈ s.checkpoints.rows, ∀ b ∈ s.checkpoints.rows, a.ready = true → b.ready = true → a.jobId = b.jobId →
      a.checkpointKey = b.checkpointKey → a = b) ∧ ∀ save ∈ s.saves, save.stage ≠ .raised clash := by
  have hsound := sound_of_reach (fun _ _ hact => hact) h
  refine ⟨fun a ha b hb hreadya hreadyb hjob hkey => ?_, hsound.calm⟩
  exact hsound.single a ha b hb b.jobId b.checkpointKey (Checkpoints.readyFor_iff.mpr ⟨hreadya, hjob, hkey⟩)
    (Checkpoints.readyFor_iff.mpr ⟨hreadyb, rfl, rfl⟩)

/-- Another save under the key, which takes the flag from the first. -/
def sampleResaved : CheckpointRun :=
  (.save sampleStore "chapter" chapterPcm (.dict []) "other" ::
    List.replicate 5 (.work 1 { now := 3, at' := 3 })).foldl (step sampleLibraries) sampleSaved

theorem checkpoint_single_saved :
    sampleResaved.checkpoints.rows =
      [{ sampleRow with ready := false }, { sampleRow with id := "other", createdAt := 3 }] ∧
    (∀ a ∈ sampleResaved.checkpoints.rows, ∀ b ∈ sampleResaved.checkpoints.rows, a.ready = true →
      b.ready = true →
      a.jobId = b.jobId → a.checkpointKey = b.checkpointKey → a = b) ∧
        ∀ save ∈ sampleResaved.saves, save.stage ≠ .raised clash := by
  have hreach : Reach sampleLibraries Timely sampleResaved := reach_sampleSaved.acts (by decide +kernel)
  exact ⟨by decide +kernel, checkpoint_single sampleLibraries (hreach.imp timely_allowed)⟩

end CheckpointRun

end KenkuiServer.Hosted
