import KenkuiServer.Hosted.Restores

/-! While a job is going on, a restore finds the checkpoint that was published last. -/
namespace KenkuiServer.Hosted
open Txn Data Jobs Storage

/-- The save is about the job and the key. -/
def Save.about (save : Save) (jobId key : String) : Bool := save.store.jobId = jobId ∧ save.key = key

theorem Save.about_iff {save : Save} {jobId key : String} :
    save.about jobId key = true ↔ save.store.jobId = jobId ∧ save.key = key := by
  simp [Save.about]

theorem Save.Later.about {old new : Save} (h : old.Later new) (jobId key : String) :
    new.about jobId key = old.about jobId key := by
  simp only [Save.about, h.store, h.key]

def CheckpointAct.reads (k : ℕ) : CheckpointAct → Bool
  | .read j _ => j = k
  | _ => false

namespace CheckpointRun

/-- The save of the job and the key that has been published last. -/
def newest (s : CheckpointRun) (jobId key : String) : Option ℕ :=
  s.published.find? fun j => (s.saves[j]?).any (·.about jobId key)

/-- A day. -/
abbrev day : Time := 24 * 60 * 60

/-- What every run in which the saves are over in time keeps, of the jobs that are not over. -/
structure Current (s : CheckpointRun) : Prop where
  known : ∀ j ∈ s.published, ∃ save, s.saves[j]? = some save ∧ save.stage.ended = true
  /-- A save has updated rows of its own job and key only. -/
  demoted : ∀ save ∈ s.saves, ∀ ids, save.stage = .demoted ids → ∀ id ∈ ids, ∃ (k : ℕ) (other : Save),
    s.saves[k]? = some other ∧ other.identifier = id ∧ other.about save.store.jobId save.key = true
  going : ∀ (i : ℕ) (save : Save) (t : Time), s.saves[i]? = some save → save.trackedAt = some t →
    save.stage.ended = false → ¬ Over s.run.db save.store.jobId → s.clock ≤ t + day →
      (s.checkpoints.get? save.identifier).isSome ∧
      (save.stage ≠ .tracked → s.objects.get? save.identifier = some ⟨save.identifier, save.source⟩)
  newest : ∀ (jobId key : String) (j : ℕ) (save : Save), s.newest jobId key = some j →
    s.saves[j]? = some save →
    ¬ Over s.run.db jobId →
      (s.checkpoints.get? save.identifier).any (·.ready) = true ∧
      s.objects.get? save.identifier = some ⟨save.identifier, save.source⟩

section
variable {lib : Libraries} {s s' : CheckpointRun} {i : ℕ} {save next : Save} {jobId key : String}

theorem newest_since (jobId key : String) (hsince : s.Since s') (hpublished : s'.published = s.published)
    (hknown : ∀ j ∈ s.published, ∃ save, s.saves[j]? = some save ∧ save.stage.ended = true) :
    s'.newest jobId key = s.newest jobId key := by
  have hsame : ∀ j ∈ s.published, (s'.saves[j]?).any (·.about jobId key) = (s.saves[j]?).any
      (·.about jobId key) := by
    intro j hj
    obtain ⟨old, hold, -⟩ := hknown j hj
    obtain ⟨new, hnew, hlater⟩ := hsince.saves j old hold
    simp only [hold, hnew, Option.any_some, hlater.about]
  unfold newest
  rw [hpublished]
  revert hsame
  generalize s.published = js
  intro hsame
  induction js with
  | nil => rfl
  | cons j js ih =>
    simp only [List.find?_cons]
    rw [hsame j List.mem_cons_self, ih fun k hk => hsame k (List.mem_cons_of_mem _ hk)]

theorem newest_about {j : ℕ} (h : s.newest jobId key = some j) (hsave : s.saves[j]? = some save) :
    save.about jobId key = true := by
  have hfound := List.find?_some h
  simpa [hsave] using hfound

theorem Current.tables (h : Current s) (hsaves : s'.saves = s.saves) (hpublished : s'.published = s.published)
    (hover : ∀ jobId, Over s.run.db jobId → Over s'.run.db jobId) (hclock : s.clock ≤ s'.clock)
    (hrows : ∀ (j : ℕ) (save : Save) (row : CheckpointRow), s.saves[j]? = some save →
      ¬ Over s.run.db save.store.jobId → s.checkpoints.get? save.identifier = some row →
      (row.ready = true ∨ ∀ t, save.trackedAt = some t → s'.clock ≤ t + day) →
        s'.checkpoints.get? save.identifier = some row ∧
        s'.objects.get? save.identifier = s.objects.get? save.identifier) : Current s' := by
  constructor
  · rw [hsaves, hpublished]
    exact h.known
  · rw [hsaves]
    exact h.demoted
  · intro i save t hsave ht hgoing hnot htime
    rw [hsaves] at hsave
    have hnot' : ¬ Over s.run.db save.store.jobId := fun hjob => hnot (hover _ hjob)
    obtain ⟨hsome, hobject⟩ := h.going i save t hsave ht hgoing hnot' (hclock.trans htime)
    obtain ⟨row, hrow⟩ := Option.isSome_iff_exists.mp hsome
    obtain ⟨hrow', hobject'⟩ := hrows i save row hsave hnot' hrow (Or.inr fun t' ht' => by
      rw [ht] at ht'
      cases ht'
      exact htime)
    rw [hrow', hobject']
    exact ⟨rfl, hobject⟩
  · intro jobId key j save hnewest hsave hnot
    have hsame : s'.newest jobId key = s.newest jobId key := by
      unfold CheckpointRun.newest
      rw [hsaves, hpublished]
    rw [hsame] at hnewest
    rw [hsaves] at hsave
    have hnot' : ¬ Over s.run.db jobId := fun hjob => hnot (hover _ hjob)
    obtain ⟨hready, hobject⟩ := h.newest jobId key j save hnewest hsave hnot'
    obtain ⟨row, hrow, hflag⟩ := (Option.any_eq_true _ _).mp hready
    obtain ⟨hjob, -⟩ := Save.about_iff.mp (newest_about hnewest hsave)
    obtain ⟨hrow', hobject'⟩ := hrows j save row hsave (hjob ▸ hnot') hrow (Or.inl hflag)
    rw [hrow', hobject']
    exact ⟨hflag, hobject⟩

theorem Current.start (h : Current s) {new : Save} (hnew : new.stage = .started) (hat : new.trackedAt = none)
    (hsince : s.Since { s with saves := s.saves ++ [new] }) :
    Current { s with saves := s.saves ++ [new] } := by
  have hcases : ∀ {j : ℕ} {save : Save}, (s.saves ++ [new])[j]? = some save → s.saves[j]? = some save ∨
      save = new := by
    intro j save hj
    rw [List.getElem?_append] at hj
    split_ifs at hj with hlt
    · exact Or.inl hj
    · exact Or.inr (List.mem_singleton.mp (List.mem_of_getElem? hj))
  have hsame : ∀ {j : ℕ} {save : Save}, s.saves[j]? = some save → (s.saves ++ [new])[j]? = some save := by
    intro j save hj
    rw [List.getElem?_append_left (List.getElem?_eq_some_iff.mp hj).1, hj]
  constructor
  · intro j hj
    obtain ⟨save, hsave, hended⟩ := h.known j hj
    exact ⟨save, hsame hsave, hended⟩
  · intro save hsave ids hstage id hid
    rcases List.mem_append.mp hsave with hold | hlast
    · obtain ⟨k, other, hother, hfacts⟩ := h.demoted save hold ids hstage id hid
      exact ⟨k, other, hsame hother, hfacts⟩
    · rcases List.mem_singleton.mp hlast with rfl
      rw [hnew] at hstage
      cases hstage
  · intro i save t hsave ht hgoing
    rcases hcases hsave with hold | rfl
    · exact h.going i save t hold ht hgoing
    · rw [hat] at ht
      cases ht
  · intro jobId key j save hnewest hsave hnot
    rw [newest_since jobId key hsince rfl h.known] at hnewest
    obtain ⟨old, hold, -⟩ := h.known j (List.mem_of_find?_eq_some hnewest)
    obtain rfl : save = old := Option.some.inj (hsave.symm.trans (hsame hold))
    exact h.newest jobId key j save hnewest hold hnot

theorem Current.setSave (h : Current s) (hsound : Sound lib s) (hsave : s.saves[i]? = some save)
    (hlater : save.Later next) (hended : save.stage.ended = true → next.stage.ended = true)
    (hgoing : next.stage.ended = false → next.trackedAt = save.trackedAt ∧ save.stage.ended = false ∧
      (save.stage = .tracked → next.stage = .tracked))
    (hdemoted : ∀ ids, next.stage = .demoted ids → save.stage = .demoted ids ∨
      ids = s.checkpoints.readyIds save.store.jobId save.key) : Current (s.setSave i next) := by
  have hsince : s.Since (s.setSave i next) := since_setSave rfl (fun _ hj => hj) hsave hlater
  have hmoved : ∀ {jobId key : String} {ids : List String},
      (∀ id ∈ ids, ∃ (k : ℕ) (other : Save), s.saves[k]? = some other ∧ other.identifier = id ∧
        other.about jobId key = true) →
      ∀ id ∈ ids, ∃ (k : ℕ) (other : Save), (s.setSave i next).saves[k]? = some other ∧
        other.identifier = id ∧
        other.about jobId key = true := by
    intro jobId key ids hids id hid
    obtain ⟨k, other, hother, hidentifier, habout⟩ := hids id hid
    obtain ⟨new, hnew, hkept⟩ := hsince.saves k other hother
    exact ⟨k, new, hnew, hkept.identifier.trans hidentifier, by rw [hkept.about, habout]⟩
  have hmem := List.mem_of_getElem? hsave
  constructor
  · intro j hj
    obtain ⟨old, hold, holdended⟩ := h.known j hj
    rw [getElem?_setSave hsave]
    split_ifs with hij
    · subst hij
      obtain rfl : save = old := Option.some.inj (hsave.symm.trans hold)
      exact ⟨next, rfl, hended holdended⟩
    · exact ⟨old, hold, holdended⟩
  · intro other hother ids hstage
    rcases List.mem_or_eq_of_mem_set hother with hold | rfl
    · exact hmoved (h.demoted other hold ids hstage)
    · rw [hlater.store, hlater.key]
      refine hmoved ?_
      rcases hdemoted ids hstage with hbefore | rfl
      · exact h.demoted save hmem ids hbefore
      · intro id hid
        obtain ⟨row, hrow, hready, rfl⟩ := Checkpoints.mem_readyIds.mp hid
        obtain ⟨-, hjob, hkey⟩ := Checkpoints.readyFor_iff.mp hready
        obtain ⟨k, owner, t, howner, -, hof⟩ := hsound.rows row hrow
        refine ⟨k, owner, howner, ?_, Save.about_iff.mpr ⟨?_, ?_⟩⟩
        · rw [hof]
          rfl
        · rw [← hjob, hof]
          rfl
        · rw [← hkey, hof]
          rfl
  · intro j other t hother ht hothergoing hnot htime
    rcases of_setSave hsave hother with ⟨rfl, rfl⟩ | ⟨-, hold⟩
    · obtain ⟨hat, hbefore, htracked⟩ := hgoing hothergoing
      rw [hlater.store] at hnot
      rw [hlater.identifier, hlater.source]
      obtain ⟨hrow, hobject⟩ := h.going j save t hsave (hat ▸ ht) hbefore hnot htime
      exact ⟨hrow, fun hstage => hobject fun heq => hstage (htracked heq)⟩
    · exact h.going j other t hold ht hothergoing hnot htime
  · intro jobId key j other hnewest hother hnot
    rw [newest_since jobId key hsince rfl h.known] at hnewest
    rcases of_setSave hsave hother with ⟨rfl, rfl⟩ | ⟨-, hold⟩
    · rw [hlater.identifier, hlater.source]
      exact h.newest jobId key j save hnewest hsave hnot
    · exact h.newest jobId key j other hnewest hold hnot

theorem Current.abort (h : Current s) (hsound : Sound lib s) (hsave : s.saves[i]? = some save) (e : Error) :
    Current (s.setSave i { save with stage := .raised e }) := by
  refine h.setSave hsound hsave (.goOn save _) (fun _ => rfl) ?_ ?_
  · intro hgoing
    cases hgoing
  · intro ids hstage
    cases hstage

theorem get?_deleteObjects (deletions : String → Deletion) {ids : List String} {id : String} (hid : id ∉ ids)
    (objects : CheckpointObjects) : (deleteObjects deletions ids objects).1.get? id = objects.get? id := by
  induction ids generalizing objects with
  | nil => rfl
  | cons first ids ih =>
    simp only [List.mem_cons, not_or] at hid
    have herased : (objects.restrict (· ≠ first)).get? id = objects.get? id :=
      Table.get?_restrict objects (by simpa using hid.1)
    unfold deleteObjects
    cases deletions first with
    | deleted => exact (ih hid.2 _).trans herased
    | raised gone =>
      cases gone with
      | true => exact herased
      | false => rfl

theorem Current.retain (h : Current s) (hsound : Sound lib s) {now : Time} (hnow : s.clock ≤ now)
    (skipped : List String) (deletions : String → Deletion) (commits : Bool) :
    Current (s.retain now skipped deletions commits) := by
  refine h.tables rfl rfl (fun _ hover => hover) hnow fun j save row hsave hnot hrow hkept => ?_
  have hmem := Table.mem_of_get? hrow
  have hid : row.id = save.identifier := Table.key_of_get? hrow
  obtain ⟨t, ht, hof⟩ := hsound.row_of hsave hmem hid
  have hout : save.identifier ∉ PostgresRetention.selectCheckpoints s.run.db s.checkpoints now
      (skipped ++ s.saves.flatMap (·.stage.rows)) := by
    intro hselected
    obtain ⟨-, row', hrow', hid', job, hjob, hexpired⟩ := PostgresRetention.mem_selectCheckpoints hselected
    obtain rfl : row' = row := Table.eq_of_mem hrow' hmem (hid'.trans hid.symm)
    rcases PostgresRetention.expired_cases hexpired with ⟨hflag, hage⟩ | hterminal
    · rcases hkept with hready | htime
      · rw [hflag] at hready
        cases hready
      · have hcreated : row'.createdAt = t := by
          rw [hof]
          rfl
        rw [hcreated] at hage
        exact absurd hage (not_lt.mpr (htime t ht))
    · have hjobId : row'.jobId = save.store.jobId := by
        rw [hof]
        rfl
      exact hnot ⟨job, hjobId ▸ hjob, hterminal⟩
  refine ⟨?_, get?_deleteObjects deletions hout s.objects⟩
  simp only [CheckpointRun.retain]
  split_ifs
  · rw [Table.get?_restrict _ (by simpa using hout), hrow]
  · exact hrow

theorem Current.track (h : Current s) (hsound : Sound lib s) (hsave : s.saves[i]? = some save)
    (hstage : save.stage = .started) {t : Time} (hfree : s.checkpoints.get? save.identifier = none) :
    Current (({ s with checkpoints := s.checkpoints.put (save.row lib t) } : CheckpointRun).setSave i
      { save with stage := .tracked, trackedAt := some t }) := by
  have htracked := hsound.tracked save (List.mem_of_getElem? hsave)
  set next : Save := { save with stage := .tracked, trackedAt := some t }
  have hlater : save.Later next := by
    refine ⟨rfl, rfl, rfl, rfl, rfl, fun t' ht' => ?_, fun _ hseen => hseen⟩
    rw [htracked.fresh hstage] at ht'
    cases ht'
  have hsince : s.Since (s.setSave i next) := since_setSave rfl (fun _ hj => hj) hsave hlater
  have hget : ∀ {identifier : String} {row : CheckpointRow}, s.checkpoints.get? identifier = some row →
      (s.checkpoints.put (save.row lib t)).get? identifier = some row := by
    intro identifier row hrow
    rw [Table.get?_put]
    split_ifs with hid
    · rw [← hid] at hrow
      rw [show (save.row lib t).id = save.identifier from rfl, hfree] at hrow
      cases hrow
    · exact hrow
  constructor
  · intro j hj
    obtain ⟨old, hold, hended⟩ := h.known j hj
    obtain hij : i ≠ j := by
      rintro rfl
      obtain rfl : save = old := Option.some.inj (hsave.symm.trans hold)
      rw [hstage] at hended
      cases hended
    refine ⟨old, ?_, hended⟩
    show (s.setSave i next).saves[j]? = some old
    rw [getElem?_setSave hsave, if_neg hij, hold]
  · intro other hother ids hids id hid
    rcases List.mem_or_eq_of_mem_set hother with hold | rfl
    · obtain ⟨k, owner, howner, hidentifier, habout⟩ := h.demoted other hold ids hids id hid
      obtain ⟨new, hnew, hkept⟩ := hsince.saves k owner howner
      exact ⟨k, new, hnew, hkept.identifier.trans hidentifier, by rw [hkept.about, habout]⟩
    · cases hids
  · intro j other t' hother ht' hgoing hnot htime
    rcases of_setSave (s := s) hsave hother with ⟨rfl, rfl⟩ | ⟨-, hold⟩
    · refine ⟨?_, fun hne => absurd rfl hne⟩
      show ((s.checkpoints.put (save.row lib t)).get? (save.row lib t).id).isSome = true
      rw [Table.get?_put_self]
      rfl
    · obtain ⟨hsome, hobject⟩ := h.going j other t' hold ht' hgoing hnot htime
      obtain ⟨row, hrow⟩ := Option.isSome_iff_exists.mp hsome
      exact ⟨Option.isSome_iff_exists.mpr ⟨row, hget hrow⟩, hobject⟩
  · intro jobId key j other hnewest hother hnot
    have hnewest : s.newest jobId key = some j :=
      (newest_since jobId key hsince rfl h.known).symm.trans hnewest
    obtain ⟨old, hold, -⟩ := h.known j (List.mem_of_find?_eq_some hnewest)
    obtain ⟨new, hnew, hkept⟩ := hsince.saves j old hold
    obtain rfl : new = other := Option.some.inj (hnew.symm.trans hother)
    obtain ⟨hready, hobject⟩ := h.newest jobId key j old hnewest hold hnot
    obtain ⟨row, hrow, hflag⟩ := (Option.any_eq_true _ _).mp hready
    rw [hkept.identifier, hkept.source]
    refine ⟨?_, hobject⟩
    show ((s.checkpoints.put (save.row lib t)).get? old.identifier).any (·.ready) = true
    rw [hget hrow]
    exact hflag

theorem Current.upload (h : Current s) (hsound : Sound lib s) (hsave : s.saves[i]? = some save)
    (hstage : save.stage = .tracked) :
    Current (({ s with objects := s.objects.put ⟨save.identifier, save.source⟩ } : CheckpointRun).setSave i
      { save with stage := .uploaded }) := by
  have hlater : save.Later { save with stage := .uploaded } := .goOn save _
  have hsince : s.Since (s.setSave i { save with stage := .uploaded }) :=
    since_setSave rfl (fun _ hj => hj) hsave hlater
  -- an object under the identifier is the save's own
  have hget : ∀ {j : ℕ} {other : Save}, s.saves[j]? = some other →
      s.objects.get? other.identifier = some ⟨other.identifier, other.source⟩ →
      (s.objects.put ⟨save.identifier, save.source⟩).get? other.identifier =
        some ⟨other.identifier, other.source⟩ := by
    intro j other hother hobject
    rw [Table.get?_put]
    split_ifs with hid
    · obtain rfl : i = j := hsound.identifiers i j save other hsave hother hid
      obtain rfl : save = other := Option.some.inj (hsave.symm.trans hother)
      rfl
    · exact hobject
  constructor
  · intro j hj
    obtain ⟨old, hold, hended⟩ := h.known j hj
    have hij : i ≠ j := by
      rintro rfl
      obtain rfl : save = old := Option.some.inj (hsave.symm.trans hold)
      rw [hstage] at hended
      cases hended
    refine ⟨old, ?_, hended⟩
    show (s.setSave i { save with stage := .uploaded }).saves[j]? = some old
    rw [getElem?_setSave hsave, if_neg hij, hold]
  · intro other hother ids hids id hid
    rcases List.mem_or_eq_of_mem_set hother with hold | rfl
    · obtain ⟨k, owner, howner, hidentifier, habout⟩ := h.demoted other hold ids hids id hid
      obtain ⟨new, hnew, hkept⟩ := hsince.saves k owner howner
      exact ⟨k, new, hnew, hkept.identifier.trans hidentifier, by rw [hkept.about, habout]⟩
    · cases hids
  · intro j other t hother ht hgoing hnot htime
    rcases of_setSave (s := s) hsave hother with ⟨rfl, rfl⟩ | ⟨-, hold⟩
    · have hbefore : save.stage.ended = false := by rw [hstage]; rfl
      refine ⟨(h.going j save t hsave ht hbefore hnot htime).1, fun _ => ?_⟩
      exact Table.get?_put_self s.objects ⟨save.identifier, save.source⟩
    · obtain ⟨hsome, hobject⟩ := h.going j other t hold ht hgoing hnot htime
      exact ⟨hsome, fun hne => hget hold (hobject hne)⟩
  · intro jobId key j other hnewest hother hnot
    have hnewest : s.newest jobId key = some j :=
      (newest_since jobId key hsince rfl h.known).symm.trans hnewest
    obtain ⟨old, hold, -⟩ := h.known j (List.mem_of_find?_eq_some hnewest)
    obtain ⟨new, hnew, hkept⟩ := hsince.saves j old hold
    obtain rfl : new = other := Option.some.inj (hnew.symm.trans hother)
    obtain ⟨hready, hobject⟩ := h.newest jobId key j old hnewest hold hnot
    rw [hkept.identifier, hkept.source]
    exact ⟨hready, hget hold hobject⟩

/-- A publication is the newest under its own key, and leaves the newest under the others. -/
theorem Current.newest_publish (h : Current s) (hsave : s.saves[i]? = some save) (c : Checkpoints)
    (jobId key : String) :
    (({ s with checkpoints := c, published := i :: s.published } : CheckpointRun).setSave i
      { save with stage := .saved }).newest jobId key =
      if save.about jobId key then some i else s.newest jobId key := by
  have hsince : s.Since (s.setSave i { save with stage := .saved }) :=
    since_setSave rfl (fun _ hj => hj) hsave (.goOn save _)
  rw [← newest_since jobId key hsince rfl h.known]
  unfold CheckpointRun.newest
  simp only [CheckpointRun.setSave, List.find?_cons]
  rw [List.getElem?_set_self (List.getElem?_eq_some_iff.mp hsave).1]
  simp only [Option.any_some]
  have habout : ({ save with stage := .saved } : Save).about jobId key = save.about jobId key := rfl
  rw [habout]
  cases save.about jobId key <;> rfl

/-- The rows that a publication demotes are of its own job and key. -/
theorem Current.not_demoted (h : Current s) (hsound : Sound lib s) (hsave : s.saves[i]? = some save)
    {ids : List String} (hstage : save.stage = .demoted ids) {jobId key : String} {j : ℕ} {old : Save}
    (hnewest : s.newest jobId key = some j) (hold : s.saves[j]? = some old)
    (hother : ¬ save.about jobId key = true) : old.identifier ∉ ids := by
  intro hin
  obtain ⟨k, owner, howner, hidentifier, hown⟩ :=
    h.demoted save (List.mem_of_getElem? hsave) ids hstage old.identifier hin
  obtain rfl : k = j := hsound.identifiers k j owner old howner hold hidentifier
  obtain rfl : owner = old := Option.some.inj (howner.symm.trans hold)
  obtain ⟨hjob, hkey⟩ := Save.about_iff.mp hown
  obtain ⟨hjob', hkey'⟩ := Save.about_iff.mp (newest_about hnewest hold)
  exact hother (Save.about_iff.mpr ⟨hjob.symm.trans hjob', hkey.symm.trans hkey'⟩)

theorem Current.publish (h : Current s) (hsound : Sound lib s) (hsave : s.saves[i]? = some save)
    {ids : List String} (hstage : save.stage = .demoted ids) {c : Checkpoints}
    (hpromote : (s.checkpoints.demote ids).promote save.identifier = .ok c)
    (htime : ∀ t, save.trackedAt = some t → s.clock ≤ t + day) :
    Current (({ s with checkpoints := c, published := i :: s.published } : CheckpointRun).setSave i
      { save with stage := .saved }) := by
  have hmem := List.mem_of_getElem? hsave
  have hbefore : save.stage.ended = false := by rw [hstage]; rfl
  have hlater : save.Later { save with stage := .saved } := .goOn save _
  have hsince : s.Since (s.setSave i { save with stage := .saved }) :=
    since_setSave rfl (fun _ hj => hj) hsave hlater
  have hset : (s.setSave i { save with stage := .saved }).saves[i]? = some { save with stage := .saved } := by
    rw [getElem?_setSave hsave, if_pos rfl]
  have hget : ∀ id, c.get? id = (s.checkpoints.get? id).map fun row =>
      if id = save.identifier then
        { (if row.id ∈ ids then { row with ready := false } else row) with ready := true }
      else if row.id ∈ ids then { row with ready := false } else row := by
    intro id
    rw [Checkpoints.get?_promote hpromote, Checkpoints.get?_demote, Option.map_map]
    rfl
  constructor
  · intro j hj
    rcases List.mem_cons.mp hj with rfl | hj
    · exact ⟨{ save with stage := .saved }, hset, rfl⟩
    · obtain ⟨old, hold, hended⟩ := h.known j hj
      have hij : i ≠ j := by
        rintro rfl
        obtain rfl : save = old := Option.some.inj (hsave.symm.trans hold)
        rw [hbefore] at hended
        cases hended
      refine ⟨old, ?_, hended⟩
      show (s.setSave i { save with stage := .saved }).saves[j]? = some old
      rw [getElem?_setSave hsave, if_neg hij, hold]
  · intro other hother ids' hids id hid
    rcases List.mem_or_eq_of_mem_set hother with hold | rfl
    · obtain ⟨k, owner, howner, hidentifier, habout⟩ := h.demoted other hold ids' hids id hid
      obtain ⟨new, hnew, hkept⟩ := hsince.saves k owner howner
      exact ⟨k, new, hnew, hkept.identifier.trans hidentifier, by rw [hkept.about, habout]⟩
    · cases hids
  · intro j other t hother ht hgoing hnot htime'
    rcases of_setSave (s := s) hsave hother with ⟨rfl, rfl⟩ | ⟨-, hold⟩
    · cases hgoing
    · obtain ⟨hsome, hobject⟩ := h.going j other t hold ht hgoing hnot htime'
      refine ⟨?_, hobject⟩
      show (c.get? other.identifier).isSome = true
      rw [hget, Option.isSome_map]
      exact hsome
  · intro jobId key j other hnewest hother hnot
    show (c.get? other.identifier).any (·.ready) = true ∧
      s.objects.get? other.identifier = some ⟨other.identifier, other.source⟩
    rw [h.newest_publish hsave] at hnewest
    by_cases habout : save.about jobId key = true
    · rw [if_pos habout] at hnewest
      obtain rfl := Option.some.inj hnewest
      rcases of_setSave (s := s) hsave hother with ⟨-, rfl⟩ | ⟨hne, -⟩
      · obtain ⟨t, ht⟩ := Option.isSome_iff_exists.mp
          ((hsound.tracked save hmem).going (by rw [hstage]; simp) hbefore)
        have hjob := (Save.about_iff.mp habout).1
        obtain ⟨hsome, hobject⟩ := h.going i save t hsave ht hbefore (hjob ▸ hnot) (htime t ht)
        obtain ⟨row, hrow⟩ := Option.isSome_iff_exists.mp hsome
        refine ⟨?_, hobject (by rw [hstage]; simp)⟩
        show (c.get? save.identifier).any (·.ready) = true
        rw [hget, hrow]
        simp
      · exact absurd rfl hne
    · rw [if_neg habout] at hnewest
      obtain ⟨old, hold, -⟩ := h.known j (List.mem_of_find?_eq_some hnewest)
      obtain ⟨new, hnew, hkept⟩ := hsince.saves j old hold
      obtain rfl : new = other := Option.some.inj (hnew.symm.trans hother)
      obtain ⟨hready, hobject⟩ := h.newest jobId key j old hnewest hold hnot
      obtain ⟨row, hrow, hflag⟩ := (Option.any_eq_true _ _).mp hready
      rw [hkept.identifier, hkept.source, hget, hrow]
      refine ⟨?_, hobject⟩
      have hid : row.id = old.identifier := Table.key_of_get? hrow
      have hout : row.id ∉ ids := hid ▸ h.not_demoted hsound hsave hstage hnewest hold habout
      simp only [Option.map_some, Option.any_some]
      rw [if_neg hout]
      split_ifs
      · rfl
      · exact hflag

theorem Current.advance (h : Current s) (hsound : Sound lib s) (hsave : s.saves[i]? = some save)
    (hgoing : save.stage.ended = false) (htime : ∀ t, save.trackedAt = some t → s.clock ≤ t + day)
    (turn : Turn) :
    Current ((s.advance lib i save turn).1.setSave i (s.advance lib i save turn).2) := by
  have hspec := advance_spec lib s i save turn
  revert hspec
  generalize s.advance lib i save turn = result
  intro hspec
  cases hspec with
  | waits =>
    exact h.setSave hsound hsave (.refl save) id (fun _ => ⟨rfl, hgoing, id⟩) fun _ hstage => Or.inl hstage
  | refused calm => exact h.abort hsound hsave _
  | tracked stage live inserted =>
    obtain ⟨hfree, rfl⟩ := Checkpoints.insert_ok inserted
    exact h.track hsound hsave stage hfree
  | uploaded stage => exact h.upload hsound hsave stage
  | checked stage free live =>
    have hlater : save.Later { save with stage := .checked, seen := some (s.run.db, turn.now) } := by
      refine ⟨rfl, rfl, rfl, rfl, rfl, fun _ ht => ht, fun x hx => ?_⟩
      rw [(hsound.tracked save (List.mem_of_getElem? hsave)).unseen (by rw [stage]; rfl)] at hx
      cases hx
    refine h.setSave hsound hsave hlater ?_ (fun _ => ⟨rfl, hgoing, ?_⟩) ?_
    · intro hended
      rw [hgoing] at hended
      cases hended
    · intro htracked
      rw [stage] at htracked
      cases htracked
    · intro ids hstage
      cases hstage
  | demoted stage =>
    refine h.setSave hsound hsave (.goOn save _) ?_ (fun _ => ⟨rfl, hgoing, ?_⟩) ?_
    · intro hended
      rw [hgoing] at hended
      cases hended
    · intro htracked
      rw [stage] at htracked
      cases htracked
    · intro ids hstage
      cases hstage
      exact Or.inr rfl
  | published stage promoted => exact h.publish hsound hsave stage promoted htime
  | clashed stage refused => exact h.abort hsound hsave _

theorem Current.work (h : Current s) (hsound : Sound lib s) {turn : Turn} (hact : s.Timely (.work i turn)) :
    Current (s.work lib i turn) := by
  obtain ⟨⟨hclock, hcalm⟩, htime⟩ := hact
  have hday : ∀ {save : Save}, s.saves[i]? = some save → save.stage.ended = false →
      ∀ t, save.trackedAt = some t → s.clock ≤ t + day :=
    fun hsave hgoing t ht => hclock.trans (htime _ t hsave hgoing ht)
  have hspec := work_spec lib s i turn
  revert hspec
  generalize s.work lib i turn = s'
  intro hspec
  cases hspec with
  | idle => exact h
  | failed found going fails => exact h.abort hsound found _
  | advanced found going => exact h.advance hsound found going (hday found going) turn
  | landed found going fails =>
    rename_i save e
    have hnext : ((s.advance lib i save turn).1.setSave i (s.advance lib i save turn).2).saves[i]? =
        some (s.advance lib i save turn).2 := by
      rw [getElem?_setSave (by rw [saves_advance]; exact found), if_pos rfl]
    have haborted := (h.advance hsound found going (hday found going) turn).abort
      (hsound.advance found turn) hnext e
    rwa [setSave_setSave] at haborted

theorem Current.step (h : Current s) (hsound : Sound lib s) {act : CheckpointAct} (hact : s.Timely act) :
    Current (s.step lib act) := by
  cases act with
  | call call =>
    simp only [CheckpointRun.step, CheckpointRun.call]
    split_ifs
    · have honward := onward_step hsound.hosted hact
      exact h.tables rfl rfl honward.ended le_rfl fun _ _ _ _ _ hrow _ => ⟨hrow, rfl⟩
    · exact h
  | save store key source metadata identifier =>
    exact h.start rfl rfl (hsound.since (.save store key source metadata identifier))
  | work i turn =>
    have hclock : (s.work lib i turn).clock ≤ turn.at' := by
      have hspec := work_spec lib s i turn
      have hadvance : ∀ save, (s.advance lib i save turn).1.clock = s.clock := by
        intro save
        have hspec := advance_spec lib s i save turn
        revert hspec
        generalize s.advance lib i save turn = result
        intro hspec
        cases hspec <;> rfl
      revert hspec
      generalize s.work lib i turn = s'
      intro hspec
      cases hspec with
      | idle => exact hact.1.1
      | failed found going fails => exact hact.1.1
      | advanced found going => exact (hadvance _).trans_le hact.1.1
      | landed found going fails => exact (hadvance _).trans_le hact.1.1
    exact (h.work hsound hact).tables rfl rfl (fun _ hover => hover) hclock fun _ _ _ _ _ hrow _ =>
      ⟨hrow, rfl⟩
  | restore store key =>
    exact h.tables rfl rfl (fun _ hover => hover) le_rfl fun _ _ _ _ _ hrow _ => ⟨hrow, rfl⟩
  | read j turn =>
    rcases read_spec lib s j turn with hsame | ⟨restore, next, -, hset, -⟩
    · rw [CheckpointRun.step, hsame]
      exact h
    · rw [CheckpointRun.step, hset]
      exact h.tables rfl rfl (fun _ hover => hover) le_rfl fun _ _ _ _ _ hrow _ => ⟨hrow, rfl⟩
  | retain now skipped deletions commits => exact h.retain hsound hact skipped deletions commits

theorem reach_current (h : Reach lib Timely s) : Current s := by
  induction h with
  | init =>
    constructor
    · simp
    · simp
    · simp
    · intro jobId key j save hnewest
      cases hnewest
  | step act reach allowed ih => exact ih.step (sound_of_reach timely_allowed reach) allowed

theorem restores_step (s : CheckpointRun) {act : CheckpointAct} {k : ℕ} {restore : Restore}
    (hrestore : s.restores[k]? = some restore) (hact : ∀ turn, act ≠ .read k turn) :
    (s.step lib act).restores[k]? = some restore := by
  have hlt := (List.getElem?_eq_some_iff.mp hrestore).1
  cases act with
  | call call =>
    simp only [CheckpointRun.step, CheckpointRun.call]
    split_ifs <;> exact hrestore
  | save store key source metadata identifier => exact hrestore
  | work i turn =>
    have hsame := restores_work lib s i turn
    show (s.work lib i turn).restores[k]? = some restore
    rw [hsame, hrestore]
  | restore store key =>
    show (s.restores ++ [({ store, key } : Restore)])[k]? = some restore
    rw [List.getElem?_append_left hlt, hrestore]
  | read j turn =>
    have hjk : j ≠ k := fun heq => hact turn (by rw [heq])
    rcases read_spec lib s j turn with hsame | ⟨old, next, -, hset, -⟩
    · rw [CheckpointRun.step, hsame, hrestore]
    · rw [CheckpointRun.step, hset]
      show (s.restores.set j next)[k]? = some restore
      rw [List.getElem?_set_ne hjk, hrestore]
  | retain now skipped deletions commits => exact hrestore

theorem restores_read (s : CheckpointRun) {k : ℕ} {restore : Restore} {turn : Turn}
    (hrestore : s.restores[k]? = some restore) (hfails : turn.fails = none) :
    (s.step lib (.read k turn)).restores[k]? = some (s.proceed lib restore turn) := by
  have hlt := (List.getElem?_eq_some_iff.mp hrestore).1
  simp only [CheckpointRun.step, CheckpointRun.read, hrestore, hfails]
  split_ifs with hended
  · have hsame : s.proceed lib restore turn = restore := by
      unfold CheckpointRun.proceed
      cases hstage : restore.stage with
      | returned metadata => rfl
      | rejected => rfl
      | raised e => rfl
      | _ => simp [hstage, RestoreStage.ended] at hended
    rw [hsame, hrestore]
  · show (s.restores.set k _)[k]? = _
    rw [List.getElem?_set_self hlt]

/-- The row of the save that was published last is the one that is ready under its key. -/
theorem Current.selectReady (h : Current s) (hsound : Sound lib s) {j : ℕ}
    (hnewest : s.newest jobId key = some j) (hsave : s.saves[j]? = some save) (hnot : ¬ Over s.run.db jobId) :
    ∃ t, s.checkpoints.selectReady jobId key = some { save.row lib t with ready := true } := by
  obtain ⟨hready, -⟩ := h.newest jobId key j save hnewest hsave hnot
  obtain ⟨row, hrow, hflag⟩ := (Option.any_eq_true _ _).mp hready
  have hmem := Table.mem_of_get? hrow
  have hid : row.id = save.identifier := Table.key_of_get? hrow
  obtain ⟨t, -, hof⟩ := hsound.row_of hsave hmem hid
  obtain ⟨hjob, hkey⟩ := Save.about_iff.mp (newest_about hnewest hsave)
  have hown : row.readyFor jobId key = true := by
    refine Checkpoints.readyFor_iff.mpr ⟨hflag, ?_, ?_⟩
    · rw [hof]
      exact hjob
    · rw [hof]
      exact hkey
  refine ⟨t, ?_⟩
  rw [← hflag, ← hof]
  cases hfound : s.checkpoints.selectReady jobId key with
  | none => exact absurd hown (by simpa using List.find?_eq_none.mp hfound row hmem)
  | some other =>
    obtain ⟨hother, hready'⟩ := Checkpoints.selectReady_some hfound
    rw [hsound.single other hother row hmem jobId key hready' hown]

end

/-- The acts can be made one after the other. -/
def Along (lib : Libraries) (ok : CheckpointRun → CheckpointAct → Prop) : CheckpointRun →
    List CheckpointAct → Prop
  | _, [] => True
  | s, act :: acts => ok s act ∧ Along lib ok (s.step lib act) acts

/-- While restore `k` is going on, save `j` stays the newest, its job is not over, and no step of the restore
fails or delivers other bytes. -/
def Undisturbed (k j : ℕ) (jobId key : String) (s : CheckpointRun) (act : CheckpointAct) : Prop :=
  s.Timely act ∧ s.newest jobId key = some j ∧ ¬ Over s.run.db jobId ∧
    ∀ turn, act = .read k turn → turn.fails = none ∧ turn.corrupt = none

/-- The restore of a save that was found, after so many further steps. -/
def restoring (lib : Libraries) (store : HostedCheckpointStore) (key : String) (save : Save) (t : Time)
    (metadata : Json) : ℕ → Restore
  | 0 => { store, key, stage := .found { save.row lib t with ready := true } }
  | 1 => { store, key, destination := some save.source,
           stage := .downloaded { save.row lib t with ready := true } save.source }
  | 2 => { store, key, destination := some save.source, verified := true,
           stage := .verified { save.row lib t with ready := true } }
  | _ => { store, key, destination := some save.source, verified := true, stage := .returned (some metadata) }

section
variable {lib : Libraries} {s : CheckpointRun} {save : Save} {store : HostedCheckpointStore}
    {key : String} {t : Time}
  {metadata : Json} {k j n : ℕ}

theorem proceed_restoring (h : Current s) (hnewest : s.newest store.jobId key = some j)
    (hsave : s.saves[j]? = some save) (hnot : ¬ Over s.run.db store.jobId) {turn : Turn}
    (hcorrupt : turn.corrupt = none) (hloads : lib.loads (lib.dumps save.metadata) = .ok metadata) :
    s.proceed lib (restoring lib store key save t metadata n) turn = restoring lib store key save t
      metadata (n + 1) := by
  obtain ⟨-, hobject⟩ := h.newest store.jobId key j save hnewest hsave hnot
  match n with
  | 0 =>
    have hget : s.objects.get? (save.row lib t).id = some ⟨save.identifier, save.source⟩ := hobject
    simp only [restoring, CheckpointRun.proceed, hcorrupt, Option.none_or, hget, Option.map_some]
  | 1 =>
    have hdigest : fileDigest lib.hash save.source = ((save.row lib t).sizeBytes, (save.row lib t).sha256) :=
      rfl
    simp only [restoring, CheckpointRun.proceed, hdigest, ne_eq, not_true_eq_false, if_false]
  | 2 =>
    have hjson : lib.loads (save.row lib t).metadataJson = .ok metadata := hloads
    simp only [restoring, CheckpointRun.proceed, hjson]
  | n + 3 => rfl

/-- Every step of the restore brings it on, and no other act in between changes it. -/
theorem restoring_along (h : Reach lib Timely s) (hsave : s.saves[j]? = some save)
    (hloads : lib.loads (lib.dumps save.metadata) = .ok metadata) {acts : List CheckpointAct}
    (hacts : Along lib (Undisturbed k j store.jobId key) s acts)
    (hrestore : s.restores[k]? = some (restoring lib store key save t metadata n)) :
    (acts.foldl (step lib) s).restores[k]? =
      some (restoring lib store key save t metadata (n + acts.countP (CheckpointAct.reads k))) := by
  induction acts generalizing s save n with
  | nil => exact hrestore
  | cons act acts ih =>
    obtain ⟨⟨htimely, hnewest, hnot, hreads⟩, hacts⟩ := hacts
    have hsound := sound_of_reach timely_allowed h
    obtain ⟨later, hlater, hkept⟩ := (hsound.since act).saves j save hsave
    have hsame : ∀ m, restoring lib store key save t metadata m = restoring lib store key later t
        metadata m := by
      intro m
      unfold restoring
      rw [hkept.row, hkept.source]
    have hloads' : lib.loads (lib.dumps later.metadata) = .ok metadata := by
      rw [hkept.metadata]
      exact hloads
    have hnext : (s.step lib act).restores[k]? =
        some (restoring lib store key later t metadata (n + if act.reads k then 1 else 0)) := by
      rw [← hsame]
      by_cases hact : ∃ turn, act = .read k turn
      · obtain ⟨turn, rfl⟩ := hact
        obtain ⟨hfails, hcorrupt⟩ := hreads turn rfl
        have hread : CheckpointAct.reads k (.read k turn) = true := by simp [CheckpointAct.reads]
        rw [if_pos hread, restores_read s hrestore hfails,
          proceed_restoring (reach_current h) hnewest hsave hnot hcorrupt hloads]
      · have hread : ¬ act.reads k = true := by
          intro hread
          cases act with
          | read i turn =>
            obtain rfl : i = k := of_decide_eq_true hread
            exact hact ⟨turn, rfl⟩
          | _ => cases hread
        rw [if_neg hread]
        exact restores_step s hrestore fun turn heq => hact ⟨turn, heq⟩
    have hrun := ih (h.step _ htimely) hlater hloads' hacts hnext
    rw [List.foldl_cons, hrun, ← hsame, List.countP_cons]
    congr 2
    omega

end

/-- While the saves are over in time, a restore by the attempt that runs a job returns nothing if nothing has
been published under its key. Otherwise, whatever happens between its steps, it leaves the file and returns
the metadata of the save that was published last. -/
theorem restore_newest (lib : Libraries) {s : CheckpointRun} (h : Reach lib Timely s)
    (store : HostedCheckpointStore) (key : String) {k : ℕ} (hrestore : s.restores[k]? = some { store, key })
    (turn : Turn) (hfails : turn.fails = none) (hlive : store.Live s.run.db turn.now)
    (hfree : s.locked store.lease.1 = false) :
    (s.newest store.jobId key = none →
      (s.step lib (.read k turn)).restores[k]? = some { store, key, stage := .returned none }) ∧
    ∀ j save metadata, s.newest store.jobId key = some j → s.saves[j]? = some save →
      lib.loads (lib.dumps save.metadata) = .ok metadata →
        ∀ acts, Along lib (Undisturbed k j store.jobId key) (s.step lib (.read k turn)) acts →
          3 ≤ acts.countP (CheckpointAct.reads k) →
            (acts.foldl (step lib) (s.step lib (.read k turn))).restores[k]? =
              some { store, key, destination := some save.source, verified := true,
                     stage := .returned (some metadata) } := by
  have hsound := sound_of_reach timely_allowed h
  have hgoing : ¬ Over s.run.db store.jobId := by
    rintro ⟨row, hrow, hterminal⟩
    obtain ⟨-, job, -, -, hjob, hrunning⟩ := hlive.running
    rw [hrow] at hjob
    cases hjob
    rw [hrunning] at hterminal
    cases hterminal
  have hcheck := HostedCheckpointStore.check_run hlive
  have hfirst : ∀ selected, s.checkpoints.selectReady store.jobId key = selected →
      (s.step lib (.read k turn)).restores[k]? =
        some { store, key, stage := selected.elim (.returned none) .found } := by
    intro selected hselect
    rw [restores_read s hrestore hfails]
    cases selected <;> simp [CheckpointRun.proceed, hfree, hcheck, hselect]
  constructor
  · intro hnone
    cases hselect : s.checkpoints.selectReady store.jobId key with
    | none => exact hfirst none hselect
    | some row =>
      obtain ⟨hrow, hready⟩ := Checkpoints.selectReady_some hselect
      obtain ⟨hflag, hjob, hkey⟩ := Checkpoints.readyFor_iff.mp hready
      obtain ⟨j, hj, save, t, hsave, -, hof⟩ := hsound.ready row hrow hflag
      have habout : save.about store.jobId key = true := by
        rw [hof] at hjob hkey
        exact Save.about_iff.mpr ⟨hjob, hkey⟩
      have hmissed := List.find?_eq_none.mp hnone j hj
      rw [hsave] at hmissed
      exact absurd habout hmissed
  · intro j save metadata hnewest hsave hloads acts hacts hreads
    obtain ⟨t, hselect⟩ := (reach_current h).selectReady hsound hnewest hsave hgoing
    have hfound : (s.step lib (.read k turn)).restores[k]? =
        some (restoring lib store key save t metadata 0) :=
      hfirst _ hselect
    have hreach := h.step (.read k turn) trivial
    have hsaves : (s.step lib (.read k turn)).saves[j]? = some save := by
      rcases read_spec lib s k turn with hsame | ⟨restore, next, -, hset, -⟩
      · rw [CheckpointRun.step, hsame, hsave]
      · rw [CheckpointRun.step, hset]
        exact hsave
    rw [restoring_along hreach hsaves hloads hacts hfound, Nat.zero_add]
    obtain ⟨m, hm⟩ := Nat.exists_eq_add_of_le' hreads
    rw [hm]
    rfl

/-- A test that acts of which none is a call can be made while the restore is not disturbed. -/
def steady (lib : Libraries) (k j : ℕ) (jobId key : String) : CheckpointRun → List CheckpointAct → Bool
  | _, [] => true
  | s, act :: acts =>
    s.admits act && decide (s.newest jobId key = some j) && (s.run.db.jobs.get? jobId).all
      (!·.status.isTerminal) &&
      (match act with
        | .read _ turn => turn.fails.isNone && turn.corrupt.isNone
        | _ => true) && steady lib k j jobId key (s.step lib act) acts

theorem along_of_steady {lib : Libraries} {k j : ℕ} {jobId key : String} {s : CheckpointRun}
    {acts : List CheckpointAct} (h : steady lib k j jobId key s acts = true) :
    Along lib (Undisturbed k j jobId key) s acts := by
  induction acts generalizing s with
  | nil => trivial
  | cons act acts ih =>
    simp only [steady, Bool.and_eq_true, decide_eq_true_eq] at h
    obtain ⟨⟨⟨⟨hadmits, hnewest⟩, hgoing⟩, hreads⟩, hacts⟩ := h
    refine ⟨⟨timely_of_admits hadmits, hnewest, ?_, ?_⟩, ih hacts⟩
    · rintro ⟨row, hrow, hterminal⟩
      rw [hrow, Option.all_some, hterminal] at hgoing
      cases hgoing
    · rintro turn rfl
      simpa using hreads

/-- Its attempt starts to restore the chapter; retention runs ten days later, before the download. -/
def sampleRestoring : CheckpointRun := sampleSaved.step sampleLibraries (.restore sampleStore "chapter")

def sampleDelayed : List CheckpointAct :=
  .retain (10 * day) [] (fun _ => .deleted) true :: List.replicate 3
    (.read 0 { now := 10 * day, at' := 10 * day })

theorem restore_newest_saved :
    (sampleDelayed.foldl (step sampleLibraries) (sampleRestoring.step sampleLibraries
      (.read 0 { now := 2, at' := 2 }))).restores[0]? =
        some { store := sampleStore, key := "chapter", destination := some chapterPcm, verified := true,
               stage := .returned (some (.dict [])) } := by
  have hreach : Reach sampleLibraries Timely sampleRestoring := reach_sampleSaved.step _ trivial
  have hnone : sampleSaved.restores = [] := List.length_eq_zero_iff.mp (by decide +kernel)
  have hrestore : sampleRestoring.restores[0]? = some { store := sampleStore, key := "chapter" } := by
    show (sampleSaved.restores ++ [({ store := sampleStore, key := "chapter" } : Restore)])[0]? = _
    rw [hnone]
    rfl
  have hlive : sampleStore.Live sampleRestoring.run.db 2 := by
    have hpasses : ((sampleStore.check 2).run sampleRestoring.run.db).isOk = true := by decide +kernel
    cases hcheck : (sampleStore.check 2).run sampleRestoring.run.db with
    | error e => simp [hcheck, Except.isOk, Except.toBool] at hpasses
    | ok r => exact HostedCheckpointStore.check_live hcheck
  have hsaves : ((sampleRestoring.saves[0]?).any fun save => save.source = chapterPcm) =
      true := by decide +kernel
  obtain ⟨save, hsave, hsource⟩ := (Option.any_eq_true _ _).mp hsaves
  have hfound := (restore_newest sampleLibraries hreach sampleStore "chapter" hrestore
    { now := 2, at' := 2 } rfl
    hlive (by decide +kernel)).2 0 save (.dict []) (by decide +kernel) hsave rfl sampleDelayed
      (along_of_steady (by decide +kernel)) (by decide)
  rwa [of_decide_eq_true hsource] at hfound

end CheckpointRun

end KenkuiServer.Hosted
