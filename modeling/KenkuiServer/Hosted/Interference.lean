import KenkuiServer.Hosted.Calls
import KenkuiServer.Storage.Effects
import KenkuiServer.Txn.Rely
import KenkuiServer.Txn.Versioned

/-! What the other transactions can have done to the jobs, their events and the leases while a
transaction held its locks. -/
namespace KenkuiServer.Storage
open Txn Jobs Billing

def HostedDb.eventsOf (d : HostedDb) (jobId : String) : List JobEvent :=
  d.events.rows.filter (·.jobId = jobId)

/-- One job and its events stand alike in both stores. -/
structure SameJob (id : String) (d d' : HostedDb) : Prop where
  row : d'.jobs.get? id = d.jobs.get? id
  events : d'.eventsOf id = d.eventsOf id

namespace SameJob
variable {id : String} {d d' d'' : HostedDb}

theorem refl (id : String) (d : HostedDb) : SameJob id d d := ⟨rfl, rfl⟩

theorem trans (h : SameJob id d d') (h' : SameJob id d' d'') : SameJob id d d'' :=
  ⟨h'.row.trans h.row, h'.events.trans h.events⟩

theorem nextSequence (h : SameJob id d d') : d'.nextSequence id = d.nextSequence id := by
  have he : d'.events.rows.filter (·.jobId = id) = d.events.rows.filter (·.jobId = id) := h.events
  simp only [HostedDb.nextSequence, he]

theorem eventsOf_put (d : HostedDb) (e : JobEvent) (id : String) :
    (apply (Write.event e) d).eventsOf id =
      if e.jobId = id then Table.putRows (fun r : JobEvent => (r.jobId, r.sequence)) e (d.eventsOf id)
      else d.eventsOf id := by
  have h := Table.filter_put_of_key (q := fun k : String × ℕ => k.1 = id) d.events e
  simpa [HostedDb.eventsOf] using h

/-- The same write on both sides keeps them alike. -/
theorem apply (h : SameJob id d d') (w : Write) : SameJob id (Txn.apply w d) (Txn.apply w d') := by
  cases w with
  | job r =>
    refine ⟨?_, h.events⟩
    simp only [jobs_apply, Table.get?_put, h.row]
  | event e =>
    refine ⟨h.row, ?_⟩
    rw [eventsOf_put, eventsOf_put, h.events]
  | _ => exact ⟨h.row, h.events⟩

theorem applyAll (h : SameJob id d d') (ws : List Write) :
    SameJob id (Txn.applyAll ws d) (Txn.applyAll ws d') := by
  induction ws generalizing d d' with
  | nil => exact h
  | cons w ws ih => exact ih (h.apply w)

/-- A write that is about neither the job's row nor its events. -/
theorem of_write (w : Write) (d : HostedDb) (hjob : w.key ≠ .job id)
    (hevent : ∀ e, w = .event e → e.jobId ≠ id) : SameJob id d (Txn.apply w d) := by
  cases w with
  | job r =>
    refine ⟨?_, rfl⟩
    simp only [jobs_apply]
    exact Table.get?_put_of_ne _ fun h => hjob (congrArg Key.job h)
  | event e =>
    refine ⟨rfl, ?_⟩
    rw [eventsOf_put, if_neg (hevent e rfl)]
  | _ => exact ⟨rfl, rfl⟩

end SameJob

/-- The store went from `d` to `d'` while a transaction held `ks`. With `absorb`, no job left a
terminal status. -/
structure Since (absorb : Prop) (ks : List Key) (d d' : HostedDb) : Prop where
  jobs : Table.Later (fun r : JobRow => r.version) d.jobs d'.jobs
  kept : ∀ id row row', d.jobs.get? id = some row → d'.jobs.get? id = some row' →
    row'.spec = row.spec ∧ row'.ownerId = row.ownerId ∧
      (absorb → row.status.isTerminal = true → row'.status = row.status)
  locked : ∀ id, Key.job id ∈ ks → SameJob id d d'
  leases : ∀ id, Key.lease id ∈ ks → d'.leases.get? id = d.leases.get? id

theorem Since.refl (absorb : Prop) (ks : List Key) (d : HostedDb) : Since absorb ks d d := by
  refine ⟨.refl _, fun id row row' h h' => ?_, fun id _ => .refl id d, fun _ _ => rfl⟩
  cases h.symm.trans h'
  exact ⟨rfl, rfl, fun _ _ => rfl⟩

theorem Since.trans {absorb : Prop} {ks : List Key} {d d' d'' : HostedDb} (h : Since absorb ks d d')
    (h' : Since absorb ks d' d'') : Since absorb ks d d'' := by
  refine ⟨h.jobs.trans h'.jobs, fun id row row'' hrow hrow'' => ?_,
    fun id hid => (h.locked id hid).trans (h'.locked id hid),
    fun id hid => (h'.leases id hid).trans (h.leases id hid)⟩
  obtain ⟨row', hrow', -⟩ := h.jobs id row hrow
  obtain ⟨hspec, howner, hterminal⟩ := h.kept id row row' hrow hrow'
  obtain ⟨hspec', howner', hterminal'⟩ := h'.kept id row' row'' hrow' hrow''
  refine ⟨hspec'.trans hspec, howner'.trans howner, fun ha ht => ?_⟩
  have hsame := hterminal ha ht
  exact (hterminal' ha (hsame ▸ ht)).trans hsame

theorem Since.anti {absorb : Prop} {ks ks' : List Key} {d d' : HostedDb} (hsub : ks ⊆ ks')
    (h : Since absorb ks' d d') : Since absorb ks d d' :=
  ⟨h.jobs, h.kept, fun id hid => h.locked id (hsub hid), fun id hid => h.leases id (hsub hid)⟩

theorem Since.drop {absorb : Prop} {ks ks' : List Key} {d d' : HostedDb}
    (h : Since absorb (ks ++ ks') d d') : Since absorb ks d d' :=
  h.anti (List.subset_append_left ks ks')

/-- What every process can rely on about the leases, whatever the others do: those it has locked stay. -/
def leaseRely : Rely HostedDb Key where
  rel ks d d' := ∀ id, Key.lease id ∈ ks → d'.leases.get? id = d.leases.get? id
  refl _ _ _ _ := rfl
  trans h h' id hid := (h' id hid).trans (h id hid)
  anti hsub h id hid := h id (hsub hid)

/-- A transaction that writes only what it has locked changes no lease that another one has locked. -/
theorem leases_since {t : Trace HostedDb Write Key} (hlocked : ∀ w ∈ t.writes, w.key ∈ t.locks)
    {ks : List Key} (hks : ∀ k ∈ t.locks, k ∉ ks) (d : HostedDb) :
    leaseRely.rel ks d (applyAll t.writes d) := by
  intro id hid
  refine applyAll_keeps (P := fun w : Write => w.key ≠ .lease id)
    (I := fun x : HostedDb => x.leases.get? id = d.leases.get? id) (fun w hw x hx => ?_)
    (fun w hw hkey => hks _ (hlocked w hw) (hkey ▸ hid)) rfl
  cases w with
  | lease r =>
    rw [leases_apply, Table.get?_put_of_ne _ fun hid => hw (congrArg Key.lease hid)]
    exact hx
  | _ => exact hx

/-- The hosted processes as each of them sees the others. -/
def hostedRely (absorb : Prop) : Rely HostedDb Key where
  rel := Since absorb
  refl := Since.refl absorb
  trans := Since.trans
  anti := Since.anti

end KenkuiServer.Storage
