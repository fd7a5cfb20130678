import KenkuiServer.Hosted.Concurrency
import KenkuiServer.Hosted.Fencing

/-! What the calls do to the assets, and to the jobs that need them, whatever other transactions do
meanwhile: an admission and a retention run both lock the row of the asset. -/
namespace KenkuiServer.Storage
open Txn Jobs Billing PostgresExecution PostgresRepositories

/-- Only jobs that are over have an end. -/
def Ended (d : HostedDb) : Prop :=
  ∀ row ∈ d.jobs.rows, row.terminalAt.isSome = true → row.status.isTerminal = true

/-- The stored objects of the deleted assets. -/
def HostedDb.deletedAsset (d : HostedDb) (id : String) : Bool := (d.assets.get? id).any (·.deletedAt.isSome)

/-- The assets went from `d` to `d'`: none is new or gone, and a deleted one stays so. -/
structure AssetsLater (d d' : HostedDb) : Prop where
  kept : ∀ id asset, d.assets.get? id = some asset →
    ∃ asset', d'.assets.get? id = some asset' ∧
      (asset.deletedAt.isSome = true → asset'.deletedAt.isSome = true)
  unknown : ∀ id, d.assets.get? id = none → d'.assets.get? id = none

namespace AssetsLater
variable {d d' d'' : HostedDb}

theorem of_eq (h : d'.assets = d.assets) : AssetsLater d d' := by
  constructor
  · intro id asset hasset
    exact ⟨asset, by rw [h, hasset], fun hdeleted => hdeleted⟩
  · intro id hid
    rw [h, hid]

theorem trans (h : AssetsLater d d') (h' : AssetsLater d' d'') : AssetsLater d d'' := by
  constructor
  · intro id asset hasset
    obtain ⟨asset', hasset', hdeleted⟩ := h.kept id asset hasset
    obtain ⟨asset'', hasset'', hdeleted'⟩ := h'.kept id asset' hasset'
    exact ⟨asset'', hasset'', fun hd => hdeleted' (hdeleted hd)⟩
  · intro id hid
    exact h'.unknown id (h.unknown id hid)

theorem marked {row : AssetRow} {deletedAt : Time} (hrow : d.assets.get? row.id = some row)
    (h : d'.assets = d.assets.put ({ row with deletedAt := some deletedAt })) : AssetsLater d d' := by
  constructor
  · intro id asset hasset
    rw [h, Table.get?_put]
    split_ifs with hid
    · exact ⟨_, rfl, fun _ => rfl⟩
    · exact ⟨asset, hasset, fun hdeleted => hdeleted⟩
  · intro id hid
    have hne : row.id ≠ id := by
      rintro rfl
      rw [hid] at hrow
      cases hrow
    rw [h, Table.get?_put, if_neg hne, hid]

theorem deletedAsset (h : AssetsLater d d') {id : String} (hdeleted : d.deletedAsset id = true) :
    d'.deletedAsset id = true := by
  unfold HostedDb.deletedAsset at hdeleted ⊢
  cases hasset : d.assets.get? id with
  | none => simp [hasset] at hdeleted
  | some asset =>
    obtain ⟨asset', hasset', hd⟩ := h.kept id asset hasset
    rw [hasset']
    exact hd (by simpa [hasset] using hdeleted)

theorem isSome (h : AssetsLater d d') {id : String} (hid : (d.assets.get? id).isSome = true) :
    (d'.assets.get? id).isSome = true := by
  obtain ⟨asset, hasset⟩ := Option.isSome_iff_exists.mp hid
  obtain ⟨asset', hasset', -⟩ := h.kept id asset hasset
  rw [hasset']
  rfl

end AssetsLater

/-- The store went from `d` to `d'` while a transaction held `ks`: a job that is over stays over, and an asset
whose row is locked gets no new job. -/
structure SourceSince (ks : List Key) (d d' : HostedDb) : Prop where
  since : Since False ks d d'
  ended : Ended d → Ended d'
  finished : ∀ id row row', d.jobs.get? id = some row → d'.jobs.get? id = some row' →
    row.status.isTerminal = true → row'.status.isTerminal = true
  assets : AssetsLater d d'
  locked : ∀ id, Key.asset id ∈ ks → d'.assets.get? id = d.assets.get? id
  jobs : ∀ id, Key.asset id ∈ ks → (d.assets.get? id).isSome = true → ∀ row ∈ d'.jobs.rows,
    row.spec.sourceId = id → (d.jobs.get? row.id).isSome = true

theorem SourceSince.refl (ks : List Key) (d : HostedDb) : SourceSince ks d d := by
  refine ⟨.refl False ks d, fun h => h, fun id row row' hrow hrow' hover => ?_, .of_eq rfl, fun _ _ => rfl,
    fun id _ _ row hrow _ => ?_⟩
  · rw [hrow] at hrow'
    cases hrow'
    exact hover
  · rw [Table.get?_of_mem hrow]
    rfl

theorem SourceSince.trans {ks : List Key} {d d' d'' : HostedDb} (h : SourceSince ks d d')
    (h' : SourceSince ks d' d'') : SourceSince ks d d'' := by
  refine ⟨h.since.trans h'.since, fun hd => h'.ended (h.ended hd), fun id row row'' hrow hrow'' hover => ?_,
    h.assets.trans h'.assets, fun id hid => (h'.locked id hid).trans (h.locked id hid),
    fun id hid hsome row hrow hsource => ?_⟩
  · obtain ⟨row', hrow', -⟩ := h.since.jobs id row hrow
    exact h'.finished id row' row'' hrow' hrow'' (h.finished id row row' hrow hrow' hover)
  · have hknown := h'.jobs id hid (h.assets.isSome hsome) row hrow hsource
    obtain ⟨row', hrow'⟩ := Option.isSome_iff_exists.mp hknown
    have hid' : row'.id = row.id := ((d'.jobs.get?_eq_some_iff _ row').mp hrow').2
    have hspec := (h'.since.kept row.id row' row hrow' (Table.get?_of_mem hrow)).1
    rw [← hid']
    exact h.jobs id hid hsome row' (Table.mem_of_get? hrow') (by rw [← hspec, hsource])

theorem SourceSince.anti {ks ks' : List Key} {d d' : HostedDb} (hsub : ks ⊆ ks') (h : SourceSince ks' d d') :
    SourceSince ks d d' :=
  ⟨h.since.anti hsub, h.ended, h.finished, h.assets, fun id hid => h.locked id (hsub hid),
    fun id hid => h.jobs id (hsub hid)⟩

/-- The hosted processes as the transactions on assets see each other. -/
def sourceRely : Rely HostedDb Key where
  rel := SourceSince
  refl := SourceSince.refl
  trans := SourceSince.trans
  anti := SourceSince.anti

section
variable {now : HostedDb} {t : Locked} {births : JobRow → Prop}

theorem assets_keeps {ws : List Write} (hws : ∀ w ∈ ws, w.isSource = false) (d : HostedDb) :
    (applyAll ws d).assets = d.assets := by
  refine applyAll_keeps (P := fun w : Write => w.isSource = false)
    (I := fun x : HostedDb => x.assets = d.assets) (fun w hw x hx => ?_) hws rfl
  cases w with
  | asset r => cases hw
  | _ => exact hx

theorem JobEffect.ended (h : JobEffect now births (Hosted.Going False) t) (hnow : Ended now) :
    Ended (applyAll t.writes now) := by
  intro row hrow hend
  cases h with
  | idle writes =>
    rw [(aside_keeps writes now).1] at hrow
    exact hnow row hrow hend
  | moved old next event move version wrote appended =>
    rw [wrote.jobs] at hrow
    rcases (Table.mem_put _ _ _).mp hrow with rfl | ⟨hrow, -⟩
    · rcases move.ends with hsame | hover
      · exact move.finished (hnow old (Table.mem_of_get? wrote.found) (hsame ▸ hend))
      · exact hover
    · exact hnow row hrow hend
  | created new birth version going created =>
    rw [created.jobs] at hrow
    rcases (Table.mem_put _ _ _).mp hrow with rfl | ⟨hrow, -⟩
    · rw [going] at hend
      cases hend
    · exact hnow row hrow hend

theorem JobEffect.finished (h : JobEffect now births (Hosted.Going False) t) (id : String) (row row' : JobRow)
    (hrow : now.jobs.get? id = some row) (hrow' : (applyAll t.writes now).jobs.get? id = some row')
    (hover : row.status.isTerminal = true) : row'.status.isTerminal = true := by
  have hsame : now.jobs.get? id = some row' → row'.status.isTerminal = true := by
    intro hkept
    rw [hrow] at hkept
    cases hkept
    exact hover
  cases h with
  | idle writes =>
    rw [(aside_keeps writes now).1] at hrow'
    exact hsame hrow'
  | moved old next event move version wrote appended =>
    rw [wrote.jobs, Table.get?_put] at hrow'
    split_ifs at hrow' with hid
    · cases hrow'
      have hold : old = row := by
        rw [← hid, wrote.id, wrote.found] at hrow
        exact Option.some.inj hrow
      exact move.finished (hold ▸ hover)
    · exact hsame hrow'
  | created new birth version going created =>
    rw [created.jobs, Table.get?_put] at hrow'
    split_ifs at hrow' with hid
    · rw [← hid, created.fresh] at hrow
      cases hrow
    · exact hsame hrow'

theorem JobEffect.sourceSince (h : JobEffect now births (Hosted.Going False) t)
    (hlocked : ∀ w ∈ t.writes, w.key ∈ t.locks) (hassets : AssetsLater now (applyAll t.writes now))
    (hcreated : ∀ row ∈ (applyAll t.writes now).jobs.rows, now.jobs.get? row.id = none →
      (now.assets.get? row.spec.sourceId).isSome = true → Key.asset row.spec.sourceId ∈ t.locks)
    {ks : List Key} (hks : ∀ k ∈ t.locks, k ∉ ks) : SourceSince ks now (applyAll t.writes now) := by
  refine ⟨h.since (fun _ _ hm => hm.going) hlocked hks, h.ended, h.finished, hassets, fun id hid => ?_,
    fun id hid hsome row hrow hsource => ?_⟩
  · refine applyAll_keeps (P := fun w : Write => w.key ≠ .asset id)
      (I := fun x : HostedDb => x.assets.get? id = now.assets.get? id) (fun w hw x hx => ?_)
      (fun w hw hkey => hks _ (hlocked w hw) (hkey ▸ hid)) rfl
    cases w with
    | asset r =>
      rw [assets_apply, Table.get?_put_of_ne _ fun hid => hw (congrArg Key.asset hid)]
      exact hx
    | _ => exact hx
  · rw [← Option.ne_none_iff_isSome]
    intro hnew
    subst hsource
    exact hks _ (hcreated row hrow hnew hsome) hid

theorem asset_applyAll {d d' : HostedDb} {id : String} (h : d'.assets.get? id = d.assets.get? id)
    (ws : List Write) : (applyAll ws d').assets.get? id = (applyAll ws d).assets.get? id := by
  induction ws generalizing d d' with
  | nil => exact h
  | cons w ws ih =>
    refine ih ?_
    cases w with
    | asset r =>
      simp only [assets_apply, Table.get?_put]
      split_ifs
      · rfl
      · exact h
    | _ => exact h

/-- What a retention run has done so far: every asset whose object it has deleted is marked. -/
structure Deleting (now : HostedDb) (t : Locked) : Prop where
  writes : ∀ w ∈ t.writes, w.isSource = true
  assets : AssetsLater now (applyAll t.writes now)
  deleted : ∀ id, Write.object id ∈ t.writes → (now.assets.get? id).isSome = true →
    (applyAll t.writes now).deletedAsset id = true
  marked : ∀ id, (applyAll t.writes now).deletedAsset id = true →
    now.deletedAsset id = true ∨ Write.object id ∈ t.writes

theorem Deleting.read (h : Deleting now t) (d : HostedDb) (ks : List Key) :
    Deleting now (t.next d [] ks) := by
  obtain ⟨hwrites, hassets, hdeleted, hmarked⟩ := h
  constructor <;> simpa only [Trace.next_writes, List.append_nil]

theorem Deleting.delete (h : Deleting now t) {id : String} {row : Option AssetRow} (clock : Time)
    (hrow : (applyAll t.writes now).assets.get? id = row) {t' : Locked}
    (ht' : t'.writes = t.writes ++ [.object id] ++
      (row.elim [] fun row => [.asset { row with deletedAt := some clock }])) : Deleting now t' := by
  have hobject : (applyAll (t.writes ++ [Write.object id]) now) = applyAll t.writes now := by
    rw [applyAll_append]
    rfl
  cases row with
  | none =>
    simp only [Option.elim_none, List.append_nil] at ht'
    refine ⟨fun w hw => ?_, ?_, fun other hother hknown => ?_, fun other hother => ?_⟩
    · rw [ht'] at hw
      rcases List.mem_append.mp hw with hw | hw
      · exact h.writes w hw
      · rw [List.mem_singleton.mp hw]
        rfl
    · rw [ht', hobject]
      exact h.assets
    · rw [ht'] at hother ⊢
      rw [hobject]
      rcases List.mem_append.mp hother with hother | hother
      · exact h.deleted other hother hknown
      · cases List.mem_singleton.mp hother
        have hsome := h.assets.isSome hknown
        rw [hrow] at hsome
        cases hsome
    · rw [ht', hobject] at hother
      rw [ht']
      exact (h.marked other hother).imp_right (List.mem_append_left _)
  | some row =>
    simp only [Option.elim_some] at ht'
    have hid : row.id = id := Table.key_of_get? hrow
    have hafter : (applyAll t'.writes now).assets =
        (applyAll t.writes now).assets.put ({ row with deletedAt := some clock }) := by
      rw [ht', applyAll_append, hobject]
      rfl
    have hput : ∀ other, (applyAll t'.writes now).deletedAsset other =
        if other = id then true else (applyAll t.writes now).deletedAsset other := by
      intro other
      simp only [HostedDb.deletedAsset, hafter, Table.get?_put, hid, eq_comm (a := id)]
      split_ifs <;> rfl
    refine ⟨fun w hw => ?_, h.assets.trans (.marked (hid ▸ hrow) hafter), fun other hother hknown => ?_,
      fun other hother => ?_⟩
    · rw [ht'] at hw
      simp only [List.mem_append, List.mem_singleton] at hw
      rcases hw with (hw | rfl) | rfl
      · exact h.writes w hw
      · rfl
      · rfl
    · rw [hput]
      split_ifs with hsame
      · rfl
      · rw [ht'] at hother
        simp only [List.mem_append, List.mem_singleton, Write.object.injEq, reduceCtorEq, or_false] at hother
        exact h.deleted other (hother.resolve_right hsame) hknown
    · rw [hput] at hother
      rw [ht']
      simp only [List.mem_append, List.mem_singleton, Write.object.injEq, reduceCtorEq, or_false]
      split_ifs at hother with hsame
      · exact Or.inr (Or.inr hsame)
      · exact (h.marked other hother).imp_right Or.inl

open PostgresRetention in
theorem deleteSources_along {allow : Allow HostedDb Write Key Error} {clock : Time}
    {deletions : String → Deletion} {sources : List String} (h : Deleting now t)
    (hlocks : ∀ id ∈ sources, Key.asset id ∈ t.locks) :
    (deleteSources clock deletions sources).Along sourceRely allow now
      (Prog.upTo (fun _ => True) fun _ t' => Deleting now t') t := by
  induction sources generalizing t with
  | nil => exact Prog.along_return h
  | cons id sources ih =>
    unfold deleteSources
    cases deletions id with
    | raised gone =>
      cases gone with
      | true => exact fun d _ _ => trivial
      | false => trivial
    | deleted =>
      intro d _ _
      have hid : Key.asset id ∈ t.locks := hlocks id List.mem_cons_self
      -- the row that the update sees is the one that the transaction has locked
      have hsame : ∀ d' ks, Key.asset id ∈ ks → SourceSince ks d' now →
          (applyAll (t.writes ++ [Write.object id]) d').assets.get? id =
            (applyAll t.writes now).assets.get? id := by
        intro d' ks hks hd'
        rw [applyAll_append]
        exact (asset_applyAll (hd'.locked id hks) t.writes).symm
      have hgrown : ∀ {t' : Locked} {ks : List Key}, t'.locks = t.locks ++ ks →
          ∀ other ∈ sources, Key.asset other ∈ t'.locks := by
        intro t' ks ht' other hother
        rw [ht']
        exact List.mem_append_left _ (hlocks other (List.mem_cons_of_mem _ hother))
      refine Prog.along_update (fun d' w _ hw hd' => ?_) (fun d' hnone hd' => ?_) fun d' e he hd' => ?_
      · rw [Trace.next_writes, hsame d' _ (by simp [hid]) hd'.held] at hw
        cases hrow : (applyAll t.writes now).assets.get? id with
        | none => simp [hrow] at hw
        | some row =>
          simp only [hrow, Except.ok.injEq, Option.some.injEq] at hw
          subst hw
          refine (ih (h.delete clock hrow rfl) (hgrown (List.append_assoc _ _ _))).seq fun _ _ h =>
            Prog.along_return h
      · rw [Trace.next_writes, hsame d' _ (by simp [hid]) hd'.held] at hnone
        cases hrow : (applyAll t.writes now).assets.get? id with
        | some row => simp [hrow] at hnone
        | none =>
          refine (ih (h.delete clock hrow ?_) (hgrown (List.append_assoc _ _ _))).seq fun _ _ h =>
            Prog.along_return h
          rfl
      · split at he <;> cases he

open PostgresRetention in
/-- A committed retention run deleted stored objects, and marked their assets. -/
theorem runSources_along {allow : Allow HostedDb Write Key Error} {clock : Time} {skipped : List String}
    {deletions : String → Deletion} :
    (runSources clock skipped deletions).Along sourceRely allow now
      (Prog.upTo (fun _ => True) fun _ t' => Deleting now t') {} := by
  have hstart : Deleting now {} := by
    refine ⟨by simp, .of_eq rfl, by simp, fun id hid => Or.inl hid⟩
  refine Prog.along_select fun d _ => ?_
  intro d' _ _
  refine deleteSources_along ((hstart.read d []).read d' _) fun id hid => ?_
  refine List.mem_append_right _ (List.mem_append_left _ ?_)
  exact List.mem_map_of_mem hid

/-- The asset, if there is one, is locked and not deleted. -/
def SourceHeld (now : HostedDb) (id : String) (t : Locked) : Prop :=
  ∀ asset, now.assets.get? id = some asset → Key.asset id ∈ t.locks ∧ asset.deletedAt = none

theorem SourceHeld.along {α : Type} {id : String} {allow : Allow HostedDb Write Key Error} {p : Procedure α}
    (h : SourceHeld now id t) (hp : Records p) :
    p.Along sourceRely allow now (Prog.upTo (fun _ => True) fun _ t' => SourceHeld now id t') t := by
  refine hp.along (fun _ ws ks ds _ asset hasset => ?_) fun _ _ _ _ _ => trivial
  obtain ⟨hlock, hgoing⟩ := h asset hasset
  exact ⟨List.mem_append_left _ hlock, hgoing⟩

theorem written_nothing {α : Type} {Q : Error → Prop} {allow : Allow HostedDb Write Key Error}
    {p : Procedure α} (ht : t.writes = []) (hp : p.Emits (fun _ => False) Q) :
    p.Along sourceRely allow now (Prog.upTo (fun _ => True) fun _ t' => t'.writes = []) t := by
  refine hp.along (fun _ ws _ _ hws => ?_) fun _ _ _ _ _ => trivial
  have hnil : ws = [] := List.eq_nil_iff_forall_not_mem.mpr hws
  rw [ht, hnil]
  rfl

open PostgresHostedRepository PostgresBillingRepository in
/-- An admission that created a job has locked the job's source, which is not deleted. -/
theorem admit_source_along {allow : Allow HostedDb Write Key Error}
    {authorizationId accountId ownerId : String} {job : Job} {dispatch : Dispatch} {credits : ℤ}
    {idempotencyKey : Option String} :
    (admitJob authorizationId job dispatch accountId ownerId credits idempotencyKey).Along
      sourceRely allow now
      (Prog.upTo (fun _ => True) fun _ t' => t'.writes = [] ∨ SourceHeld now job.spec.sourceId t') {} := by
  unfold admitJob
  refine Prog.along_raiseIf (fun _ => trivial) fun _ => ?_
  have haccount : (selectAccountForUpdate accountId).issue.Emits (fun _ => False) fun _ => True :=
    emits_issue (Stmt.emits_selectForUpdate _ _)
  refine (written_nothing rfl haccount).seq fun _ t₁ h₁ => ?_
  refine (written_nothing h₁ (replay_silent job.spec idempotencyKey)).seq fun existing t₂ h₂ => ?_
  cases existing with
  | some existing => exact Prog.along_return (Or.inl h₂)
  | none =>
    unfold admitNew
    have hcount : (countActiveJobs ownerId).issue.Emits (fun _ => False) fun _ => True :=
      emits_issue (Stmt.emits_select _)
    refine (written_nothing h₂ hcount).seq fun active t₃ h₃ => ?_
    refine Prog.along_raiseIf (fun _ => trivial) fun _ => ?_
    -- what follows the lock of the source
    have hrest : ∀ t₄, SourceHeld now job.spec.sourceId t₄ →
        (do
          let _ ← reserveNew authorizationId job.id accountId credits
          (insertJob { job with ownerId := some ownerId }).issue
          (insertDispatch dispatch).issue
          recordKey idempotencyKey job.id
          return job : Procedure Job).Along sourceRely allow now
            (Prog.upTo (fun _ => True) fun _ t' => t'.writes = [] ∨
              SourceHeld now job.spec.sourceId t') t₄ := by
      intro t₄ h₄
      have hreserve : Records (reserveNew authorizationId job.id accountId credits) :=
        reserveNew_emits (fun _ => rfl) (fun _ _ => trivial) _ _ _ _
      have hinsert := hreserve.bind fun _ => insertNew_records { job with ownerId := some ownerId } dispatch
        idempotencyKey job
      exact (h₄.along hinsert).imp fun r t' hr => by
        cases r with
        | ok job => exact Or.inr hr
        | error e => trivial
    refine Prog.along_selectForUpdate (fun d hnone hd => ?_) fun d asset hasset hd => ?_
    · rw [h₃] at hnone
      refine Prog.along_raiseIf (fun _ => trivial) fun _ => hrest _ fun asset hasset => ?_
      rw [hd.held.assets.unknown _ hnone] at hasset
      cases hasset
    · rw [h₃] at hasset
      refine Prog.along_raiseIf (fun _ => trivial) fun hgoing => hrest _ fun other hother => ?_
      have hlock : Key.asset job.spec.sourceId ∈ t₃.locks ++ [Key.asset job.spec.sourceId] := by simp
      have hfound : d.assets.get? job.spec.sourceId = some asset := hasset
      rw [hd.held.locked _ hlock, hfound] at hother
      cases hother
      exact ⟨hlock, by simpa using hgoing⟩

theorem JobEffect.birth {moves : JobRow → JobRow → Prop} (h : JobEffect now births moves t) {row : JobRow}
    (hrow : row ∈ (applyAll t.writes now).jobs.rows) (hnew : now.jobs.get? row.id = none) : births row := by
  have hold : row ∉ now.jobs.rows := by
    intro hrow
    rw [Table.get?_of_mem hrow] at hnew
    cases hnew
  cases h with
  | idle writes =>
    rw [(aside_keeps writes now).1] at hrow
    exact absurd hrow hold
  | moved old next event move version wrote appended =>
    rw [wrote.jobs] at hrow
    rcases (Table.mem_put _ _ _).mp hrow with rfl | ⟨hrow, -⟩
    · rw [wrote.id, wrote.found] at hnew
      cases hnew
    · exact absurd hrow hold
  | created new birth version going created =>
    rw [created.jobs] at hrow
    rcases (Table.mem_put _ _ _).mp hrow with rfl | ⟨hrow, -⟩
    · exact birth
    · exact absurd hrow hold

end

end KenkuiServer.Storage

namespace KenkuiServer.Hosted
open Txn Jobs Billing Storage PostgresExecution PostgresRepositories

/-- The calls that retain sources. -/
def Call.retains : Call → Bool
  | .retainSources _ _ _ => true
  | _ => false

/-- Jobs are created by admissions only. -/
def Call.Sourced (past : List HostedDb) (call : Call) : Prop :=
  call.Admissible past ∧ ∀ job dispatch idempotencyKey,
    call ≠ .createJobAndDispatch job dispatch idempotencyKey

/-- A procedure that writes to no asset. -/
abbrev Sourceless {α : Type} (p : Procedure α) : Prop := p.Emits (fun w => w.isSource = false) fun _ => True

theorem sourceless_records {α : Type} {p : Procedure α} (h : Records p) : Sourceless p :=
  h.imp (fun _ hw => (Write.isRecord_aside hw).2) fun _ h => h

theorem sourceless_claim (dispatchId : String) (limit : ℤ) (ttl : Time) (maxAttempts : ℤ) (token : String)
    (clock at' : Time) :
    Sourceless (claimExecution PostgresHostedRepository.billing dispatchId limit ttl maxAttempts token
      clock at') := by
  have hlose : ∀ jobId seen, Sourceless
      (loseWorker PostgresHostedRepository.billing dispatchId jobId seen at') :=
    fun _ _ => sourceless_records (loseWorker_records _ _ _ _)
  simp only [claimExecution, issue_bind]
  refine ⟨advisoryLock_emits _, fun _ => ⟨Stmt.emits_select _, fun found => ?_⟩⟩
  rcases found with _ | ⟨jobId, status⟩
  · trivial
  simp only
  split_ifs
  · trivial
  refine ⟨Stmt.emits_selectForUpdate _ _, fun previous => ?_⟩
  simp only
  split
  · trivial
  refine ⟨Stmt.emits_select _, fun active => ?_⟩
  simp only
  split_ifs
  · trivial
  · exact (hlose _ _).bind fun _ => trivial
  · exact ⟨upsertLease_emits fun _ => rfl, fun _ => ⟨setDispatchStatus_emits fun _ => rfl, fun _ => trivial⟩⟩

theorem Call.sourceless (call : Call) (hcall : call.retains = false) : Sourceless call.prog := by
  have hreturns : ∀ {α : Type} {p : Procedure α} {f : α → Reply}, Sourceless p →
      Sourceless (p >>= fun a => pure (f a)) := fun hp => hp.bind fun _ => trivial
  cases call with
  | accountForIdentity id lotId identityId allowance =>
    exact hreturns (PostgresBillingRepository.accountForIdentity_emits (fun _ => rfl) (fun _ => rfl)
      (fun _ => rfl) (fun _ _ => trivial) _ _ _ _)
  | grant lotId accountId credits reference =>
    exact hreturns (PostgresBillingRepository.grant_emits (fun _ => rfl) (fun _ => rfl) (fun _ => rfl)
      (fun _ _ => trivial) _ _ _ _)
  | processPaymentEvent lotId provider providerEventId accountId credits =>
    exact hreturns (PostgresBillingRepository.processPaymentEvent_emits (fun _ => rfl) (fun _ => rfl)
      (fun _ => rfl) (fun _ _ => trivial) (fun _ => rfl) _ _ _ _ _)
  | reserve authorizationId jobId accountId credits =>
    exact hreturns (PostgresBillingRepository.reserve_emits (fun _ => rfl) (fun _ _ => trivial) _ _ _ _)
  | finalize jobId status =>
    exact hreturns (PostgresBillingRepository.finalize_emits (fun _ => rfl) (fun _ _ => trivial) _ _)
  | createJobAndDispatch job dispatch idempotencyKey =>
    exact hreturns (sourceless_records (create_records _ _ _))
  | admitJob authorizationId job dispatch accountId ownerId credits idempotencyKey =>
    exact hreturns (sourceless_records (admit_records _ _ _ _ _ _ _))
  | claimExecution dispatchId limit ttl maxAttempts token clock at' =>
    exact hreturns (sourceless_claim _ _ _ _ _ _ _)
  | update snapshot event eventType artifact lease failure clock at' =>
    simp only [Call.prog]
    cases transition snapshot event with
    | error e => trivial
    | ok job =>
      exact hreturns (sourceless_records
        ((update_work _ _ _ _ _ _ _ _).imp (fun _ hw => Write.isWork_record hw)
        fun _ h => h))
  | requestCancellation jobId at' =>
    exact hreturns (sourceless_records ((cancel_work _ _).imp (fun _ hw => Write.isWork_record hw)
      fun _ h => h))
  | finishDispatch dispatch lease clock =>
    exact hreturns (finishDispatchIfNotCancellationRequested_emits (fun _ => rfl) (fun _ _ => trivial) _ _ _)
  | updateDispatch dispatch status =>
    exact hreturns (f := fun _ => Reply.none) (updateDispatch_emits (fun _ => rfl) (fun _ _ => trivial) _ _)
  | renewExecution dispatchId token ttl clock clock' =>
    have hrenew : Sourceless (PostgresExecution.renewExecution dispatchId token ttl clock clock') :=
      ⟨renewLease_emits fun _ => rfl, fun _ => trivial⟩
    exact hreturns hrenew
  | releaseExecution dispatchId token =>
    have hrelease : Sourceless (PostgresExecution.releaseExecution dispatchId token) :=
      ⟨expireLease_emits fun _ => rfl, fun _ => trivial⟩
    exact hreturns (f := fun _ => Reply.none) hrelease
  | retainSources clock skipped deletions => cases hcall

/-- What a committed call did to the jobs and the assets. -/
structure SourceEffect (call : Call) (now : HostedDb) (t : Locked) : Prop where
  effect : JobEffect now call.Creates (Going False) t
  assets : AssetsLater now (applyAll t.writes now)
  created : ∀ row ∈ (applyAll t.writes now).jobs.rows, now.jobs.get? row.id = none →
    SourceHeld now row.spec.sourceId t
  deleted : ∀ id, Write.object id ∈ t.writes → (now.assets.get? id).isSome = true →
    (applyAll t.writes now).deletedAsset id = true
  marked : ∀ id, (applyAll t.writes now).deletedAsset id = true →
    now.deletedAsset id = true ∨ Write.object id ∈ t.writes

theorem SourceEffect.sourceSince {call : Call} {now : HostedDb} {t : Locked} (h : SourceEffect call now t)
    (hlocked : ∀ w ∈ t.writes, w.key ∈ t.locks) {ks : List Key} (hks : ∀ k ∈ t.locks, k ∉ ks) :
    SourceSince ks now (applyAll t.writes now) := by
  refine h.effect.sourceSince hlocked h.assets (fun row hrow hnew hknown => ?_) hks
  obtain ⟨asset, hasset⟩ := Option.isSome_iff_exists.mp hknown
  exact (h.created row hrow hnew asset hasset).1

theorem Call.source_along {past : List HostedDb} {now : HostedDb} (call : Call) (hsourced : call.Sourced past)
    (hpast : ∀ d ∈ past, SourceSince [] d now) :
    call.prog.Along sourceRely (exhaustion False) now
      (Prog.upTo (fun _ => True) fun _ t => SourceEffect call now t) {} := by
  have heffect : call.prog.Along sourceRely (exhaustion False) now
      (Prog.upTo noClash fun _ t => JobEffect now call.Creates (Going False) t) {} :=
    (call.effect_along hsourced.1 fun d hd => (hpast d hd).since).mono (fun _ _ _ h => h.since)
      (fun _ _ _ h => h) fun _ _ h => h
  by_cases hretains : call.retains = false
  · have hwrites : call.prog.Along sourceRely (exhaustion False) now
        (Prog.upTo (fun _ => True) fun _ t => ∀ w ∈ t.writes, w.isSource = false) {} := by
      refine (call.sourceless hretains).along (fun _ ws _ _ hws => ?_) fun _ _ _ _ _ => trivial
      simpa using hws
    have hheld : call.prog.Along sourceRely (exhaustion False) now
        (Prog.upTo (fun _ => True) fun _ t => t.writes = [] ∨ ∀ row, call.Creates row →
          SourceHeld now row.spec.sourceId t) {} := by
      cases call with
      | createJobAndDispatch job dispatch idempotencyKey =>
        exact absurd rfl (hsourced.2 job dispatch idempotencyKey)
      | admitJob authorizationId job dispatch accountId ownerId credits idempotencyKey =>
        refine admit_source_along.seq fun reply t ht =>
          Prog.along_return (ht.imp_right fun hheld row hrow => ?_)
        rw [show row.spec = job.spec from hrow]
        exact hheld
      | _ =>
        refine Prog.along_of_forall _ fun r t => ?_
        cases r with
        | ok reply => exact Or.inr fun row hrow => hrow.elim
        | error e => trivial
    refine ((heffect.and hwrites).and hheld).imp fun r t h => ?_
    cases r with
    | error e => trivial
    | ok reply =>
      obtain ⟨⟨heffect, hwrites⟩, hheld⟩ := h
      have hassets := assets_keeps hwrites now
      have hdeleted : ∀ id, (applyAll t.writes now).deletedAsset id = now.deletedAsset id := by
        intro id
        simp only [HostedDb.deletedAsset, hassets]
      refine ⟨heffect, .of_eq hassets, fun row hrow hnew => ?_, fun id hid => ?_,
        fun id hid => Or.inl (hdeleted id ▸ hid)⟩
      · rcases hheld with hnil | hheld
        · rw [hnil] at hrow
          have hsame : now.jobs.get? row.id = some row := Table.get?_of_mem hrow
          rw [hsame] at hnew
          cases hnew
        · exact hheld row (heffect.birth hrow hnew)
      · cases hwrites _ hid
  · cases call with
    | retainSources clock skipped deletions =>
      have hrun : (Call.retainSources clock skipped deletions).prog.Along sourceRely (exhaustion False) now
          (Prog.upTo (fun _ => True) fun _ t => Deleting now t) {} :=
        runSources_along.seq fun _ _ h => Prog.along_return h
      refine (heffect.and hrun).imp fun r t h => ?_
      cases r with
      | error e => trivial
      | ok reply =>
        obtain ⟨heffect, hdeleting⟩ := h
        exact ⟨heffect, hdeleting.assets, fun row hrow hnew => (heffect.birth hrow hnew).elim,
          hdeleting.deleted, hdeleting.marked⟩
    | _ => exact absurd rfl hretains

/-- The hosted calls that create jobs by admission, as the transactions on assets rely on them. -/
theorem source_guarantee {ok : HostedSys → Label Call → Prop}
    (hstart : ∀ s call, ok s (.start call) → call.Sourced (s.db :: s.past)) :
    Guarantee sourceRely (exhaustion False) Call.Sourced Call.prog ok where
  allows _ _ _ ha := ha.elim
  admits hok := hstart _ _ hok
  keeps {seen call now} hsourced hseen := by
    have heffect : call.prog.Along sourceRely (exhaustion False) now
        (Prog.upTo (fun _ => True) fun _ t => SourceEffect call now t) {} := call.source_along hsourced hseen
    refine (heffect.and (Prog.along_locked _ (by simp))).imp fun r t h => ?_
    cases r with
    | ok reply => exact fun ks hks => h.1.sourceSince h.2 hks
    | error e => trivial

end KenkuiServer.Hosted
