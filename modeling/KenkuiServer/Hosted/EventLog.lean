import KenkuiServer.Hosted.Concurrency

/-! The event log of the hosted store. Every transaction that touches a job updates its row first, and
so selects the next sequence under the row's lock. -/
namespace KenkuiServer.Storage
open Txn Jobs

theorem JobEffect.record {now : HostedDb} {births : JobRow → Prop}
    {moves : JobRow → JobRow → Prop} {t : Locked} (h : JobEffect now births moves t) (id : String) :
    Record.Step (now.record id) ((applyAll t.writes now).record id) := by
  unfold HostedDb.record
  cases h with
  | idle writes =>
    obtain ⟨hjobs, hevents⟩ := aside_keeps writes now
    rw [hjobs, hevents]
    exact .same rfl
  | moved row next e move version wrote appended =>
    rw [wrote.jobs, wrote.events]
    refine EventTable.record_moved (wrote.id ▸ wrote.found) version ?_ ?_ appended.progress id
    · rw [appended.jobId, wrote.id]
    · rw [appended.sequence, wrote.id]
      exact now.nextSequence_eq row.id
  | created row birth version going created =>
    rw [created.jobs, created.events]
    exact EventTable.record_created created.fresh version id

end KenkuiServer.Storage

namespace KenkuiServer.Hosted
open Txn Jobs Storage

section
variable {ok : HostedSys → Label Call → Prop} {d₀ : HostedDb} {s : HostedSys} {l : Label Call}

/-- What one step does to the committed store. -/
theorem step_effect (hok : ∀ s l, ok s l → Starts s l) (h : Sys.Reach Call.prog ok d₀ s) (l : Label Call) :
    (s.step Call.prog l).db = s.db ∨
      ∃ births t, JobEffect s.db births (Going False) t ∧
        (s.step Call.prog l).db = applyAll t.writes s.db := by
  rcases s.committed_of_step Call.prog l with ⟨hdb, -⟩ | ⟨i, call, t, r, -, hrunning, hdb, -⟩
  · exact Or.inl hdb
  · have hgood := h.good (starts_guarantee hok)
    obtain ⟨seen, hadm, hseen⟩ := hgood.admitted hrunning
    exact Or.inr ⟨call.Creates, t, hgood.along hrunning (Since.refl False _ _)
      (call.effect_along hadm hseen), hdb⟩

theorem step_bumps (hok : ∀ s l, ok s l → Starts s l) (h : Sys.Reach Call.prog ok d₀ s) (l : Label Call) :
    Table.Bumps (fun r : JobRow => r.version) s.db.jobs (s.step Call.prog l).db.jobs := by
  rcases step_effect hok h l with hdb | ⟨births, t, heffect, hdb⟩
  · exact .same (congrArg HostedDb.jobs hdb)
  · rw [hdb]
    exact heffect.bumps

theorem reach_sequenced (hok : ∀ s l, ok s l → Starts s l) (h₀ : ∀ id, (d₀.record id).Sequenced)
    (h : Sys.Reach Call.prog ok d₀ s) : ∀ d ∈ s.db :: s.past, ∀ id, (d.record id).Sequenced := by
  induction h with
  | init => simpa using h₀
  | step l reach allowed ih =>
    rename_i s
    have hdb : ∀ id, ((s.step Call.prog l).db.record id).Sequenced := by
      intro id
      rcases step_effect hok reach l with hdb | ⟨births, t, heffect, hdb⟩
      · rw [hdb]
        exact ih s.db List.mem_cons_self id
      · rw [hdb]
        exact (heffect.record id).sequenced (ih s.db List.mem_cons_self id)
    intro d hd
    rcases List.mem_cons.mp hd with rfl | hd
    · exact hdb
    · rcases s.committed_of_step Call.prog l with ⟨-, hpast, -⟩ | ⟨_, _, _, _, -, -, -, hpast, -⟩
      · rw [hpast] at hd
        exact ih d (List.mem_cons_of_mem _ hd)
      · rw [hpast] at hd
        exact ih d hd

/-- No session ever fails on the key of the events. -/
theorem ended_noClash (hok : ∀ s l, ok s l → Starts s l) (h : Sys.Reach Call.prog ok d₀ s) {i : ℕ}
    {call : Call} {t : Locked} {e : Error}
    (hended : s.sessions[i]? = some (.ended call t (some (.error e)))) : noClash e := by
  refine h.ended (Φ := fun _ r t => Prog.upTo noClash (fun _ _ => True) r t) (starts_guarantee hok)
    (fun hadm hseen => ?_) hended
  refine (Call.effect_along _ hadm hseen).imp fun r t hr => ?_
  cases r with
  | ok reply => trivial
  | error e => exact hr
end

end KenkuiServer.Hosted
