import KenkuiServer.Hosted.Sources

/-! Retention of sources. A retention run deletes stored objects before it commits: a deleted object stays
deleted when the run is rolled back, and the rows that it locks are those that had expired on the snapshot of
its query. -/
namespace KenkuiServer.Hosted
open Txn Jobs Billing Storage

def deletes (assetId : String) : Write → Bool
  | .object id => id = assetId
  | _ => false

/-- The stored object has been deleted, by a session that is running or has ended in any way. -/
def gone (s : HostedSys) (assetId : String) : Bool :=
  s.sessions.any fun session => session.trace.writes.any (deletes assetId)

theorem any_deletes {ws : List Write} {assetId : String} :
    ws.any (deletes assetId) = true ↔ Write.object assetId ∈ ws := by
  rw [List.any_eq_true]
  constructor
  · rintro ⟨w, hw, hdeletes⟩
    cases w with
    | object id =>
      obtain rfl : id = assetId := by simpa [deletes] using hdeletes
      exact hw
    | _ => cases hdeletes
  · intro hw
    exact ⟨_, hw, by simp [deletes]⟩

/-- The next step of a program raises. -/
def Raises {α : Type} (d : HostedDb) : Procedure α → Prop
  | .ret _ => False
  | .raise _ => True
  | .step st _ => ∃ e, st.exec d = .error e

/-- A retention run that has deleted an object neither raises nor dies, and the sources that it locks are
still expired when it locks them. -/
def Retained (s : HostedSys) : Label Call → Prop
  | .start call => call.Sourced (s.db :: s.past)
  | .run i => ∀ call t rest, s.sessions[i]? = some (.running call t rest) →
    (Raises (applyAll t.writes s.db) rest → ∀ id, Write.object id ∉ t.writes) ∧
      ∀ now skipped deletions, call = .retainSources now skipped deletions →
        ∀ (β : Type) (st : Statement β) (k : β → Procedure Reply), rest = .step st k →
          s.free i (st.locks (applyAll t.writes s.db)) = true →
            ∀ id, Key.asset id ∈ st.locks (applyAll t.writes s.db) → Key.asset id ∉ t.locks →
              s.db.sourceExpired now id = true
  | .crash i => ∀ call t rest, s.sessions[i]? = some (.running call t rest) → ∀ id, Write.object id ∉ t.writes

/-- Every job of the source has, by some committed store, ended 24 hours before. -/
def Spent (s : HostedSys) (now : Time) (id : String) : Prop :=
  ∀ row ∈ s.db.jobs.rows, row.spec.sourceId = id → ∃ d ∈ s.db :: s.past, ∃ row',
    d.jobs.get? row.id = some row' ∧ ∃ t, row'.terminalAt = some t ∧ t ≤ now - sourceFor

/-- In no committed store had the job ended 24 hours before `at'`. -/
def RecentlyEnded (s : HostedSys) (at' : Time) (row : JobRow) : Prop :=
  ∀ d ∈ s.db :: s.past, ∀ row', d.jobs.get? row.id = some row' → ∀ t, row'.terminalAt = some t →
    at' - sourceFor < t

section
variable {d₀ : HostedDb} {s s' : HostedSys} {now : Time} {id : String}

theorem spent_of_expired (h : s.db.sourceExpired now id = true) : Spent s now id := by
  intro row hrow hsource
  unfold HostedDb.sourceExpired at h
  have hend := of_decide_eq_true (List.all_eq_true.mp h row hrow) hsource
  rw [Option.any_eq_true] at hend
  obtain ⟨t, ht, hle⟩ := hend
  exact ⟨s.db, List.mem_cons_self, row, Table.get?_of_mem hrow, t, ht, of_decide_eq_true hle⟩

theorem Spent.later (h : Spent s now id) (hpast : ∀ d ∈ s.db :: s.past, d ∈ s'.db :: s'.past)
    (hjobs : ∀ row ∈ s'.db.jobs.rows, row.spec.sourceId = id →
      ∃ old, s.db.jobs.get? row.id = some old ∧ old.spec.sourceId = id) : Spent s' now id := by
  intro row hrow hsource
  obtain ⟨old, hold, hsource'⟩ := hjobs row hrow hsource
  have hid : old.id = row.id := ((s.db.jobs.get?_eq_some_iff _ old).mp hold).2
  obtain ⟨d, hd, row', hrow', hend⟩ := h old (Table.mem_of_get? hold) hsource'
  exact ⟨d, hpast d hd, row', hid ▸ hrow', hend⟩

theorem retained_guarantee : Guarantee sourceRely (exhaustion False) Call.Sourced Call.prog Retained :=
  source_guarantee fun _ _ h => h

/-- Only retention runs write to assets, and each holds the rows that it writes to. -/
theorem reach_wrote (h : Sys.Reach Call.prog Retained d₀ s) :
    ∀ session ∈ s.sessions, session.Wrote fun call w => w.isSource = true → call.retains = true := by
  refine h.wrote fun call => ?_
  by_cases hretains : call.retains = false
  · refine (call.sourceless hretains).imp (fun w hw hsource => ?_) fun _ h => h
    rw [hw] at hsource
    cases hsource
  · have hruns : call.retains = true := by simpa using hretains
    cases call with
    | retainSources now skipped deletions =>
      exact (PostgresRetention.runSources_emits (fun _ _ => rfl) (fun _ _ => rfl)
        trivial now skipped deletions).bind
        fun _ => trivial
    | _ => cases hruns

/-- What holds of the assets in every state of a run from `d₀`. -/
structure Kept (d₀ : HostedDb) (s : HostedSys) : Prop where
  ended : ∀ d ∈ s.db :: s.past, Ended d
  known : AssetsLater d₀ s.db
  holding : ∀ (i : ℕ) now skipped deletions (t : Locked) rest,
    s.sessions[i]? = some (.running (.retainSources now skipped deletions) t rest) →
      ∀ id, Key.asset id ∈ t.locks → (d₀.assets.get? id).isSome = true → Spent s now id
  done : ∀ (i : ℕ) call (t : Locked) result, s.sessions[i]? = some (.ended call t result) →
    ∀ id, Write.object id ∈ t.writes → (d₀.assets.get? id).isSome = true → s.db.deletedAsset id = true
  deleted : ∀ id, (d₀.assets.get? id).isSome = true → s.db.deletedAsset id = true →
    d₀.deletedAsset id = true ∨
      ∃ now skipped deletions, Call.retainSources now skipped deletions ∈ s.calls ∧ Spent s now id

theorem Kept.init (h : Ended d₀) : Kept d₀ { db := d₀ } := by
  refine ⟨?_, .of_eq rfl, ?_, ?_, fun _ _ hdeleted => Or.inl hdeleted⟩ <;> simp [h]

theorem Kept.start (h : Kept d₀ s) (call : Call) :
    Kept d₀ { s with sessions := s.sessions ++ [.running call {} call.prog] } where
  ended := h.ended
  known := h.known
  holding i now skipped deletions t rest hrunning id hid := by
    rcases Sys.getElem?_append_cases hrunning with hold | ⟨-, hsession⟩
    · exact h.holding i now skipped deletions t rest hold id hid
    · cases hsession
      cases hid
  done i call t result hended := by
    rcases Sys.getElem?_append_cases hended with hold | ⟨-, hsession⟩
    · exact h.done i call t result hold
    · cases hsession
  deleted id hid hdeleted := by
    refine (h.deleted id hid hdeleted).imp_right fun hrun => ?_
    obtain ⟨now, skipped, deletions, hcall, hspent⟩ := hrun
    refine ⟨now, skipped, deletions, ?_, hspent⟩
    rw [Sys.calls, List.map_append]
    exact List.mem_append_left _ hcall

theorem Kept.set (h : Kept d₀ s) {i : ℕ} {call : Call} {t : Locked} {rest : Procedure Reply}
    (running : s.sessions[i]? = some (.running call t rest))
    {new : Session HostedDb Write Key Error Call Reply} (hcall : new.call = call)
    (hholding : ∀ now skipped deletions t' rest',
      new = .running (.retainSources now skipped deletions) t' rest' →
      ∀ id, Key.asset id ∈ t'.locks → (d₀.assets.get? id).isSome = true → Spent s now id)
    (hdone : ∀ t' result, new = .ended call t' result → ∀ id, Write.object id ∉ t'.writes) :
    Kept d₀ (s.set i new) where
  ended := h.ended
  known := h.known
  holding j now skipped deletions t' rest' hrunning := by
    rcases Sys.getElem?_set_cases hrunning with ⟨-, hsession⟩ | ⟨-, hold⟩
    · exact hholding now skipped deletions t' rest' hsession.symm
    · exact h.holding j now skipped deletions t' rest' hold
  done j call' t' result hended := by
    rcases Sys.getElem?_set_cases hended with ⟨-, hsession⟩ | ⟨-, hold⟩
    · subst hsession
      obtain rfl : call' = call := hcall
      exact fun id hid => absurd hid (hdone t' result rfl id)
    · exact h.done j call' t' result hold
  deleted id hid hdeleted := by
    refine (h.deleted id hid hdeleted).imp_right fun hrun => ?_
    obtain ⟨now, skipped, deletions, hmem, hspent⟩ := hrun
    refine ⟨now, skipped, deletions, ?_, hspent⟩
    unfold Sys.calls Sys.set
    rw [Sys.calls_set running hcall]
    exact hmem

theorem Spent.commit {call : Call} {t : Locked} (h : Spent s now id) (heffect : SourceEffect call s.db t)
    (hpast : s'.db :: s'.past = applyAll t.writes s.db :: s.db :: s.past)
    (hold : ∀ row ∈ (applyAll t.writes s.db).jobs.rows, row.spec.sourceId = id →
      s.db.jobs.get? row.id ≠ none) : Spent s' now id := by
  have hdb : s'.db = applyAll t.writes s.db := (List.cons.inj hpast).1
  refine h.later (fun d hd => ?_) fun row hrow hsource => ?_
  · rw [hpast]
    exact List.mem_cons_of_mem _ hd
  · rw [hdb] at hrow
    obtain ⟨old, hfound⟩ := Option.ne_none_iff_exists'.mp (hold row hrow hsource)
    have hkept := heffect.effect.kept (fun _ _ hm => hm.going) row.id old row hfound (Table.get?_of_mem hrow)
    exact ⟨old, hfound, by rw [← hkept.1, hsource]⟩

theorem Kept.commit (h : Kept d₀ s) (hreach : Sys.Reach Call.prog Retained d₀ s) {i : ℕ} {call : Call}
    {t : Locked} {r : Reply} (running : s.sessions[i]? = some (.running call t (.ret r))) :
    Kept d₀ { db := applyAll t.writes s.db, past := s.db :: s.past, log := (call, r) :: s.log
              sessions := s.sessions.set i (.ended call t (some (.ok r))) } := by
  have hgood := hreach.good retained_guarantee
  obtain ⟨seen, hsourced, hseen⟩ := hgood.admitted running
  have heffect : SourceEffect call s.db t :=
    hgood.along running (sourceRely.refl _ _) (call.source_along hsourced hseen)
  have hwrote := (reach_wrote hreach _ (List.mem_of_getElem? running)).1
  have hsome : ∀ id, (d₀.assets.get? id).isSome = true → (s.db.assets.get? id).isSome = true :=
    fun id hid => h.known.isSome hid
  -- an admission holds the source of its job, and found it not deleted
  have hheld : ∀ id, (d₀.assets.get? id).isSome = true →
      (∀ asset, s.db.assets.get? id = some asset → asset.deletedAt = none → Key.asset id ∉ t.locks) →
      ∀ row ∈ (applyAll t.writes s.db).jobs.rows, row.spec.sourceId = id → s.db.jobs.get? row.id ≠ none := by
    intro id hid hfree row hrow hsource hnew
    obtain ⟨asset, hasset⟩ := Option.isSome_iff_exists.mp (hsome id hid)
    obtain ⟨hlock, hgoing⟩ := heffect.created row hrow hnew asset (by rw [hsource, hasset])
    rw [hsource] at hlock
    exact hfree asset hasset hgoing hlock
  refine ⟨fun d hd => ?_, h.known.trans heffect.assets,
    fun j now skipped deletions t' rest' hrunning id hid hknown =>
      ?_, fun j call' t' result hended id hid hknown => ?_, fun id hknown hdeleted => ?_⟩
  · rcases List.mem_cons.mp hd with rfl | hd
    · exact heffect.effect.ended (h.ended _ List.mem_cons_self)
    · exact h.ended d hd
  · rcases Sys.getElem?_set_cases hrunning with ⟨-, hsession⟩ | ⟨hne, hold⟩
    · cases hsession
    · have hspent := h.holding j now skipped deletions t' rest' hold id hid hknown
      refine hspent.commit heffect rfl (hheld id hknown fun _ _ _ hlock => ?_)
      exact hgood.disjoint hne hold running _ hid hlock
  · rcases Sys.getElem?_set_cases hended with ⟨-, hsession⟩ | ⟨-, hold⟩
    · cases hsession
      exact heffect.deleted id hid (hsome id hknown)
    · exact heffect.assets.deletedAsset (h.done j call' t' result hold id hid hknown)
  · have hcalls : ∀ other ∈ s.calls, other ∈ (s.sessions.set i (.ended call t (some (.ok r)))).map
        Session.call := by
      intro other hother
      have hcalls : (s.sessions.set i (.ended call t (some (.ok r)))).map Session.call = s.calls :=
        Sys.calls_set running rfl
      rwa [hcalls]
    rcases heffect.marked id hdeleted with hdeleted | hobject
    · refine (h.deleted id hknown hdeleted).imp_right fun hrun => ?_
      obtain ⟨now, skipped, deletions, hmem, hspent⟩ := hrun
      refine ⟨now, skipped, deletions, hcalls _ hmem, ?_⟩
      refine hspent.commit heffect rfl (hheld id hknown fun asset hasset hgoing => ?_)
      simp [HostedDb.deletedAsset, hasset, hgoing] at hdeleted
    · obtain ⟨hretains, hlock⟩ := hwrote _ hobject
      cases call with
      | retainSources now skipped deletions =>
        have hspent := h.holding i now skipped deletions t _ running id hlock hknown
        refine Or.inr ⟨now, skipped, deletions,
          hcalls _ <| List.mem_map.mpr ⟨_, List.mem_of_getElem? running, rfl⟩, ?_⟩
        refine hspent.commit heffect rfl fun row hrow _ hnew => ?_
        exact (heffect.effect.birth hrow hnew).elim
      | _ => cases hretains rfl

theorem Kept.step (h : Kept d₀ s) (hreach : Sys.Reach Call.prog Retained d₀ s) {l : Label Call}
    (hok : Retained s l) : Kept d₀ (s.step Call.prog l) := by
  have hspec := Sys.step_spec Call.prog s l
  revert hspec
  generalize s.step Call.prog l = s'
  intro hspec
  cases hspec with
  | stay => exact h
  | start call => exact h.start call
  | crash running =>
    refine h.set running rfl (fun _ _ _ _ _ hnew => by cases hnew) fun t' result hnew id => ?_
    cases hnew
    exact hok _ _ _ running id
  | exec running free hexec =>
    refine h.set running rfl (fun now skipped deletions t' rest' hnew id hid hknown => ?_)
      fun t' result hnew => by
      cases hnew
    cases hnew
    rename_i t _ _ _ _ _
    by_cases hheld : Key.asset id ∈ t.locks
    · exact h.holding _ now skipped deletions t _ running id hheld hknown
    · have hlock := (List.mem_append.mp hid).resolve_left hheld
      exact spent_of_expired ((hok _ _ _ running).2 now skipped deletions rfl _ _ _ rfl free id hlock hheld)
  | fail running free error =>
    refine h.set running rfl (fun _ _ _ _ _ hnew => by cases hnew) fun t' result hnew id hid => ?_
    cases hnew
    rw [Trace.next_writes, List.append_nil] at hid
    exact (hok _ _ _ running).1 ⟨_, error⟩ id hid
  | raise running =>
    refine h.set running rfl (fun _ _ _ _ _ hnew => by cases hnew) fun t' result hnew id => ?_
    cases hnew
    exact (hok _ _ _ running).1 trivial id
  | commit running => exact h.commit hreach running

theorem reach_kept (hended : Ended d₀) (h : Sys.Reach Call.prog Retained d₀ s) : Kept d₀ s := by
  induction h with
  | init => exact .init hended
  | step l reach allowed ih => exact ih.step reach allowed

theorem Spent.finished (h : Spent s now id)
    (hgood : s.Good sourceRely (exhaustion False) Call.Sourced Call.prog)
    (hended : ∀ d ∈ s.db :: s.past, Ended d) {row : JobRow} (hrow : row ∈ s.db.jobs.rows)
    (hsource : row.spec.sourceId = id) {last : Time} (hlast : now ≤ last) :
    row.status.isTerminal = true ∧ ¬ RecentlyEnded s last row := by
  obtain ⟨d, hd, row', hrow', t, ht, hle⟩ := h row hrow hsource
  have hover : row'.status.isTerminal = true := by
    refine hended d hd row' (Table.mem_of_get? hrow') ?_
    rw [ht]
    rfl
  constructor
  · rcases List.mem_cons.mp hd with rfl | hpast
    · rw [Table.get?_of_mem hrow] at hrow'
      cases hrow'
      exact hover
    · exact (hgood.past d hpast).finished row.id row' row hrow' (Table.get?_of_mem hrow) hover
  · intro hrecent
    have hafter : last - sourceFor < t := hrecent d hd row' hrow' t ht
    grind

end

section
variable {d₀ : HostedDb} {s : HostedSys}

/-- When every retention run that has deleted an object commits, and every source that it locks is expired by
then, no source is taken from a job that is not over or ended in the last 24 hours. -/
theorem sources_retained (hended : Ended d₀) (h : Sys.Reach Call.prog Retained d₀ s) {last : Time}
    (hlast : ∀ now skipped deletions, Call.retainSources now skipped deletions ∈ s.calls → now ≤ last)
    {asset : AssetRow} (hasset : asset ∈ d₀.assets.rows) (hgoing : asset.deletedAt = none) :
    ∀ row ∈ s.db.jobs.rows, row.spec.sourceId = asset.id →
      row.status.isTerminal = false ∨ RecentlyEnded s last row →
        s.db.deletedAsset asset.id = false ∧ gone s asset.id = false := by
  intro row hrow hsource hneeded
  have hkept := reach_kept hended h
  have hgood := h.good retained_guarantee
  have hfound : d₀.assets.get? asset.id = some asset := Table.get?_of_mem hasset
  have hknown : (d₀.assets.get? asset.id).isSome = true := by rw [hfound]; rfl
  have hspent : ∀ now skipped deletions, Call.retainSources now skipped deletions ∈ s.calls →
      ¬ Spent s now asset.id := by
    intro now skipped deletions hcall hspent
    have hover := hspent.finished hgood hkept.ended hrow hsource (hlast now skipped deletions hcall)
    rcases hneeded with hrunning | hrecent
    · rw [hover.1] at hrunning
      cases hrunning
    · exact hover.2 hrecent
  have hdeleted : s.db.deletedAsset asset.id ≠ true := by
    intro hdeleted
    rcases hkept.deleted _ hknown hdeleted with hbefore | ⟨now, skipped, deletions, hcall, h⟩
    · simp [HostedDb.deletedAsset, hfound, hgoing] at hbefore
    · exact hspent now skipped deletions hcall h
  refine ⟨by simpa using hdeleted, ?_⟩
  rw [← Bool.not_eq_true]
  intro hgone
  obtain ⟨session, hsession, hdeletes⟩ := List.any_eq_true.mp hgone
  have hobject := any_deletes.mp hdeletes
  obtain ⟨i, hi⟩ := List.mem_iff_getElem?.mp hsession
  cases session with
  | running call t rest =>
    obtain ⟨hretains, hlock⟩ := (reach_wrote h _ hsession).1 _ hobject
    cases call with
    | retainSources now skipped deletions =>
      exact hspent now skipped deletions (List.mem_map.mpr ⟨_, hsession, rfl⟩)
        (hkept.holding i now skipped deletions t rest hi _ hlock hknown)
    | _ => cases hretains rfl
  | ended call t result => exact hdeleted (hkept.done i call t result hi _ hobject hknown)

end

/-- A funded account and two sources, uploaded at the epoch. -/
def stocked : HostedDb :=
  Call.runAll [.accountForIdentity "account" "lot" "identity" 5]
    { assets := (∅ : Table AssetRow.id).put { id := "source" } |>.put { id := "unused" } }

def sampleAdmission : Call :=
  .admitJob "authorization" sampleJob ⟨"dispatch", "job", "pending", 0⟩ "account" "identity" 3 none

/-- A retention run two days after the epoch. -/
def sampleRetention : Call := .retainSources (2 * sourceFor) [] fun _ => .deleted

/-- The step of a retention run neither raises nor locks a source that is not expired. -/
def expiring (s : HostedSys) (i : ℕ) : Bool :=
  match s.sessions[i]? with
  | some (.running (.retainSources now _ _) t (.step st _)) =>
    (st.exec (applyAll t.writes s.db)).isOk && (st.locks (applyAll t.writes s.db)).all fun
      | .asset id => s.db.sourceExpired now id
      | _ => true
  | some (.running _ _ (.ret _)) => true
  | _ => false

theorem retained_of_expiring {s : HostedSys} {i : ℕ} (h : expiring s i = true) : Retained s (.run i) := by
  intro call t rest hrunning
  unfold expiring at h
  rw [hrunning] at h
  cases rest with
  | ret r => exact ⟨fun hraises => hraises.elim, fun _ _ _ _ _ _ _ hrest => by cases hrest⟩
  | raise e => cases call <;> cases h
  | step st k =>
    cases call with
    | retainSources now skipped deletions =>
      simp only [Bool.and_eq_true, List.all_eq_true] at h
      refine ⟨fun ⟨e, he⟩ => ?_, fun now' skipped' deletions' hcall β st' k' hrest _ id hid _ => ?_⟩
      · rw [he] at h
        cases h.1
      · cases hcall
        cases hrest
        exact h.2 _ hid
    | _ => cases h

def expiringTurns : List ℕ → HostedSys → Bool
  | [], _ => true
  | i :: turns, s => expiring s i && expiringTurns turns (s.step Call.prog (.run i))

theorem reach_expiring {d₀ : HostedDb} {s : HostedSys} (h : Sys.Reach Call.prog Retained d₀ s)
    {turns : List ℕ} (hexpiring : expiringTurns turns s = true) :
    Sys.Reach Call.prog Retained d₀ (s.schedule Call.prog turns) := by
  induction turns generalizing s with
  | nil => exact h
  | cons i turns ih =>
    simp only [expiringTurns, Bool.and_eq_true] at hexpiring
    exact ih (.step (.run i) h (retained_of_expiring hexpiring.1)) hexpiring.2

/-- A run of retention to its end, after the admission of a job: only the unused source is deleted. -/
theorem sources_retained_unused :
    let d₀ := Call.runAll [sampleAdmission] stocked
    let s := (Sys.step Call.prog { db := d₀ } (.start sampleRetention)).schedule Call.prog
      (List.replicate 5 0)
    s.db.deletedAsset "unused" = true ∧ gone s "unused" = true ∧
      ∀ row ∈ s.db.jobs.rows, row.spec.sourceId = "source" →
        row.status.isTerminal = false ∨ RecentlyEnded s (2 * sourceFor) row →
          s.db.deletedAsset "source" = false ∧ gone s "source" = false := by
  intro d₀ s
  have hended : Ended d₀ := by unfold Ended; decide +kernel
  have hstarted : Sys.Reach Call.prog Retained d₀
      (Sys.step Call.prog { db := d₀ } (.start sampleRetention)) :=
    .step _ .init ⟨trivial, fun _ _ _ h => by cases h⟩
  have hreach : Sys.Reach Call.prog Retained d₀ s := reach_expiring hstarted (by decide +kernel)
  refine ⟨by decide +kernel, by decide +kernel, ?_⟩
  have hsource : ({ id := "source" } : AssetRow) ∈ d₀.assets.rows := by decide +kernel
  refine sources_retained hended hreach (fun now skipped deletions hcall => ?_) hsource rfl
  have hcalls : s.calls = [sampleRetention] := Sys.calls_schedule _ _ _
  rw [hcalls] at hcall
  cases List.mem_singleton.mp hcall
  exact Rat.le_refl

/-- Jobs are created by admissions; nothing else is assumed. -/
def Sourcing (s : HostedSys) : Label Call → Prop
  | .start call => call.Sourced (s.db :: s.past)
  | _ => True

/-- A retention run dies after it has deleted the stored object; its mark is rolled back, and an admission
accepts a job for the source. -/
theorem source_lost :
    Ended stocked ∧ ∃ s : HostedSys, Sys.Reach Call.prog Sourcing stocked s ∧
      ∃ asset ∈ stocked.assets.rows, asset.deletedAt = none ∧ ∃ row ∈ s.db.jobs.rows,
        row.spec.sourceId = asset.id ∧ row.status.isTerminal = false ∧ gone s asset.id = true := by
  refine ⟨by unfold Ended; decide +kernel, ?_⟩
  have hretention : Sourcing { db := stocked } (.start sampleRetention) :=
    ⟨trivial, fun _ _ _ h => by cases h⟩
  have hstart : Sys.Reach Call.prog Sourcing stocked { db := stocked } := .init
  have hstarted := hstart.step _ hretention
  have hdeleted := hstarted.schedule (fun _ _ => trivial) [0, 0, 0]
  have hdied := hdeleted.step (.crash 0) trivial
  have hadmission := hdied.step (.start sampleAdmission) ⟨rfl, fun _ _ _ h => by cases h⟩
  have hadmitted := hadmission.schedule (fun _ _ => trivial) (List.replicate 25 1)
  exact ⟨_, hadmitted, { id := "source" }, by decide +kernel, rfl, by decide +kernel⟩

end KenkuiServer.Hosted
