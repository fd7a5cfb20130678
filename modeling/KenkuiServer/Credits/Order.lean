import KenkuiServer.Credits.Settlement

/-! Lists of `finalize` calls: those of one job count in their order, those of different jobs commute. -/
namespace KenkuiServer.Storage
open Txn Billing Data BillingDb PostgresBillingRepository

/-- One `finalize` call with a status that ends a reservation. -/
structure Finalization where
  jobId : String
  status : AuthorizationStatus
  final : status ≠ .reserved

def Finalization.release (jobId : String) : Finalization := ⟨jobId, .released, by decide⟩

/-- The store after a call, which is one transaction. -/
def Finalization.apply (d : HostedDb) (f : Finalization) : HostedDb :=
  ((finalize f.jobId f.status).transaction d).2

def finalizeAll (fs : List Finalization) (d : HostedDb) : HostedDb := fs.foldl Finalization.apply d

/-- The reservation of a job, while it is open. -/
def openReservation (b : BillingDb) (jobId : String) : Option CreditAuthorization :=
  (authorizationOfJob jobId b).filter (·.status = .reserved)

/-- The same rows in every table, up to the order of the ledger. -/
structure Alike (b b' : BillingDb) : Prop where
  accounts : b.accounts = b'.accounts
  lots : b.lots = b'.lots
  allocations : b.allocations = b'.allocations
  authorizations : b.authorizations = b'.authorizations
  ledger : b.ledger.rows.Perm b'.ledger.rows

theorem alike_equivalence : Equivalence Alike where
  refl _ := ⟨rfl, rfl, rfl, rfl, .refl _⟩
  symm h := ⟨h.accounts.symm, h.lots.symm, h.allocations.symm, h.authorizations.symm, h.ledger.symm⟩
  trans h h' := ⟨h.accounts.trans h'.accounts, h.lots.trans h'.lots, h.allocations.trans h'.allocations,
    h.authorizations.trans h'.authorizations, h.ledger.trans h'.ledger⟩

section
variable {d : HostedDb} {b b' : BillingDb} {auth auth' : CreditAuthorization}
    {status status' : AuthorizationStatus}
  {jobId : String}

theorem openReservation_eq_some (h : openReservation b jobId = some auth) :
    authorizationOfJob jobId b = some auth ∧ auth.status = .reserved := by
  obtain ⟨hauth, hstatus⟩ := Option.filter_eq_some_iff.mp h
  exact ⟨hauth, of_decide_eq_true hstatus⟩

theorem Finalization.apply_eq (hbooks : d.billing.Books) (hapart : d.billing.Apart) (f : Finalization) :
    f.apply d = (openReservation d.billing f.jobId).elim d fun auth =>
      { d with billing := d.billing.closed auth f.status } := by
  unfold Finalization.apply openReservation
  cases hauth : authorizationOfJob f.jobId d.billing with
  | none =>
    rw [Prog.transaction_of_error (finalize_run_none f.final hauth)]
    rfl
  | some auth =>
    by_cases hreserved : auth.status = .reserved
    · rw [Prog.transaction_of_ok (finalize_run hbooks hapart f.final hauth hreserved)]
      rw [Option.filter_some, if_pos (decide_eq_true hreserved)]
      rfl
    · rw [Prog.transaction_of_ok (finalize_run_final f.final hauth hreserved)]
      rw [Option.filter_some, if_neg (by simpa using hreserved)]
      rfl

theorem Finalization.apply_keeps (f : Finalization) (h : d.billing.Books ∧ d.billing.Apart) :
    (f.apply d).billing.Books ∧ (f.apply d).billing.Apart := by
  have hkept := kept_apart.finalize f.jobId f.status d h
  unfold Finalization.apply Prog.transaction
  cases hrun : (finalize f.jobId f.status).run d with
  | error e => exact h
  | ok r =>
    rw [hrun] at hkept
    exact hkept

theorem authorizationOfJob_closed :
    authorizationOfJob jobId (b.closed auth status) = (authorizationOfJob jobId b).map
      (endedRow auth status) := by
  have hjob : ∀ a, (endedRow auth status a).jobId = a.jobId := by
    intro a
    unfold endedRow
    split_ifs <;> rfl
  simp only [authorizationOfJob, closed, Table.rows_map, List.find?_map, Function.comp_def, hjob]

theorem openReservation_closed_of_ne (hauth : authorizationOfJob auth.jobId b = some auth)
    (hne : jobId ≠ auth.jobId) :
    openReservation (b.closed auth status) jobId = openReservation b jobId := by
  unfold openReservation
  rw [authorizationOfJob_closed]
  cases hjob : authorizationOfJob jobId b with
  | none => rfl
  | some a =>
    have hid : a.id ≠ auth.id := by
      intro hid
      obtain ⟨hget, rfl⟩ := authorizationOfJob_get? hjob
      obtain ⟨hget', -⟩ := authorizationOfJob_get? hauth
      rw [hid, hget'] at hget
      cases hget
      exact hne rfl
    rw [Option.map_some, endedRow, if_neg hid]

theorem openReservation_closed_self (hfinal : status ≠ .reserved)
    (hauth : authorizationOfJob auth.jobId b = some auth) :
    openReservation (b.closed auth status) auth.jobId = none := by
  unfold openReservation
  rw [authorizationOfJob_closed, hauth, Option.map_some, endedRow, if_pos rfl]
  rw [Option.filter_some, if_neg (by simpa using hfinal)]

theorem rows_ledger_closed (hbooks : b.Books) (hapart : b.Apart) (h : openReservation b jobId = some auth)
    (status : AuthorizationStatus) :
    (b.closed auth status).ledger.rows = b.ledger.rows ++ [endEntry auth status] := by
  obtain ⟨hauth, hreserved⟩ := openReservation_eq_some h
  obtain ⟨hget, -⟩ := authorizationOfJob_get? hauth
  exact Table.rows_put_of_none (ledger_open hbooks hapart hget hreserved status).1

theorem Alike.closed (h : Alike b b') (hbooks : b.Books) (hapart : b.Apart) (hbooks' : b'.Books)
    (hapart' : b'.Apart) (hopen : openReservation b jobId = some auth)
    (hopen' : openReservation b' jobId = some auth) :
    Alike (b.closed auth status) (b'.closed auth status) := by
  constructor
  · simp only [BillingDb.closed, h.accounts]
  · simp only [BillingDb.closed, h.lots, allocationRows, h.allocations]
  · exact h.allocations
  · simp only [BillingDb.closed, h.authorizations]
  · rw [rows_ledger_closed hbooks hapart hopen, rows_ledger_closed hbooks' hapart' hopen']
    exact h.ledger.append_right _

/-- The ends of the reservations of two jobs commute. -/
theorem closed_comm (hne : auth.id ≠ auth'.id)
    (hledger : ((b.closed auth status).closed auth' status').ledger.rows =
      b.ledger.rows ++ [endEntry auth status] ++ [endEntry auth' status'])
    (hledger' : ((b.closed auth' status').closed auth status).ledger.rows =
      b.ledger.rows ++ [endEntry auth' status'] ++ [endEntry auth status]) :
    Alike ((b.closed auth status).closed auth' status') ((b.closed auth' status').closed auth status) := by
  constructor
  · refine Table.ext ?_
    simp only [BillingDb.closed, Table.rows_map, List.map_map]
    refine List.map_congr_left fun row _ => ?_
    simp only [Function.comp_def, refundedRow]
    split_ifs <;> simp_all [add_right_comm]
  · refine Table.ext ?_
    simp only [BillingDb.closed, Table.rows_map, List.map_map, allocationRows]
    refine List.map_congr_left fun lot _ => ?_
    simp only [Function.comp_def, PostgresCreditLots.finalizedLot]
    congr 1
    · exact sub_right_comm _ _ _
    · exact add_right_comm _ _ _
  · rfl
  · refine Table.ext ?_
    simp only [BillingDb.closed, Table.rows_map, List.map_map]
    refine List.map_congr_left fun a _ => ?_
    simp only [Function.comp_def, endedRow]
    split_ifs <;> simp_all
  · rw [hledger, hledger', List.append_assoc, List.append_assoc]
    exact (List.Perm.swap _ _ _).append_left _

theorem openReservation_jobId (h : openReservation b jobId = some auth) : auth.jobId = jobId :=
  (authorizationOfJob_get? (openReservation_eq_some h).1).2

theorem openReservation_apply_of_ne (h : d.billing.Books ∧ d.billing.Apart) {f : Finalization}
    (hne : jobId ≠ f.jobId) :
    openReservation (f.apply d).billing jobId = openReservation d.billing jobId := by
  rw [f.apply_eq h.1 h.2]
  cases hopen : openReservation d.billing f.jobId with
  | none => rfl
  | some auth =>
    have hjob := openReservation_jobId hopen
    have hauth := (openReservation_eq_some hopen).1
    exact openReservation_closed_of_ne (hjob.symm ▸ hauth) (hjob.symm ▸ hne)

theorem openReservation_apply_self (h : d.billing.Books ∧ d.billing.Apart) (f : Finalization) :
    openReservation (f.apply d).billing f.jobId = none := by
  rw [f.apply_eq h.1 h.2]
  cases hopen : openReservation d.billing f.jobId with
  | none => exact hopen
  | some auth =>
    have hjob := openReservation_jobId hopen
    have hauth := (openReservation_eq_some hopen).1
    have hclosed := openReservation_closed_self f.final (hjob.symm ▸ hauth)
    rw [hjob] at hclosed
    exact hclosed

/-- Calls for different jobs commute. -/
theorem apply_comm (h : d.billing.Books ∧ d.billing.Apart) {f g : Finalization} (hne : f.jobId ≠ g.jobId) :
    Alike (g.apply (f.apply d)).billing (f.apply (g.apply d)).billing := by
  have hf := f.apply_keeps h
  have hg := g.apply_keeps h
  rw [g.apply_eq hf.1 hf.2, f.apply_eq hg.1 hg.2, openReservation_apply_of_ne h hne.symm,
    openReservation_apply_of_ne h hne]
  have hfd := f.apply_eq h.1 h.2
  have hgd := g.apply_eq h.1 h.2
  cases hopenf : openReservation d.billing f.jobId with
  | none =>
    rw [hopenf] at hfd
    cases hopeng : openReservation d.billing g.jobId with
    | none =>
      rw [hopeng] at hgd
      simp only [Option.elim_none] at hfd hgd ⊢
      rw [hfd, hgd]
      exact alike_equivalence.refl _
    | some auth' =>
      rw [hopeng] at hgd
      simp only [Option.elim_none, Option.elim_some] at hfd hgd ⊢
      rw [hfd, hgd]
      exact alike_equivalence.refl _
  | some auth =>
    rw [hopenf] at hfd
    cases hopeng : openReservation d.billing g.jobId with
    | none =>
      rw [hopeng] at hgd
      simp only [Option.elim_none, Option.elim_some] at hfd hgd ⊢
      rw [hfd, hgd]
      exact alike_equivalence.refl _
    | some auth' =>
      rw [hopeng] at hgd
      simp only [Option.elim_some] at hfd hgd ⊢
      rw [hfd] at hf ⊢
      rw [hgd] at hg ⊢
      have hjob := openReservation_jobId hopenf
      have hjob' := openReservation_jobId hopeng
      have hauth := (openReservation_eq_some hopenf).1
      have hauth' := (openReservation_eq_some hopeng).1
      have hopeng' : openReservation (d.billing.closed auth f.status) g.jobId = some auth' := by
        rw [openReservation_closed_of_ne (hjob.symm ▸ hauth) (hjob.symm ▸ hne.symm), hopeng]
      have hopenf' : openReservation (d.billing.closed auth' g.status) f.jobId = some auth := by
        rw [openReservation_closed_of_ne (hjob'.symm ▸ hauth') (hjob'.symm ▸ hne), hopenf]
      refine closed_comm ?_ ?_ ?_
      · intro hid
        obtain ⟨hget, -⟩ := authorizationOfJob_get? hauth
        obtain ⟨hget', -⟩ := authorizationOfJob_get? hauth'
        rw [hid, hget'] at hget
        cases hget
        exact hne (hjob.symm.trans hjob')
      · rw [rows_ledger_closed hf.1 hf.2 hopeng', rows_ledger_closed h.1 h.2 hopenf]
      · rw [rows_ledger_closed hg.1 hg.2 hopenf', rows_ledger_closed h.1 h.2 hopeng]

theorem apply_alike {d' : HostedDb} (h : d.billing.Books ∧ d.billing.Apart)
    (h' : d'.billing.Books ∧ d'.billing.Apart) (halike : Alike d.billing d'.billing) (f : Finalization) :
    Alike (f.apply d).billing (f.apply d').billing := by
  have hsame : openReservation d'.billing f.jobId = openReservation d.billing f.jobId := by
    unfold openReservation authorizationOfJob
    rw [halike.authorizations]
  rw [f.apply_eq h.1 h.2, f.apply_eq h'.1 h'.2, hsame]
  cases hopen : openReservation d.billing f.jobId with
  | none => exact halike
  | some auth => exact halike.closed h.1 h.2 h'.1 h'.2 hopen (hsame.trans hopen)

theorem finalizations_commute : Commuting Finalization.jobId Finalization.apply
    (fun d => d.billing.Books ∧ d.billing.Apart) fun d d' => Alike d.billing d'.billing where
  equivalence := alike_equivalence.comap HostedDb.billing
  keeps _ f h := f.apply_keeps h
  respects _ _ f h h' halike := apply_alike h h' halike f
  commutes _ _ _ h hne := apply_comm h hne

theorem finalizeAll_keeps (h : d.billing.Books ∧ d.billing.Apart) (fs : List Finalization) :
    (finalizeAll fs d).billing.Books ∧ (finalizeAll fs d).billing.Apart :=
  finalizations_commute.foldl_keeps fs h

theorem openReservation_finalizeAll (h : d.billing.Books ∧ d.billing.Apart) {fs : List Finalization}
    {f : Finalization} (hf : f ∈ fs) : openReservation (finalizeAll fs d).billing f.jobId = none := by
  have hstays : ∀ (gs : List Finalization) {d : HostedDb}, d.billing.Books ∧ d.billing.Apart →
      openReservation d.billing f.jobId = none →
        openReservation (finalizeAll gs d).billing f.jobId = none := by
    intro gs
    induction gs with
    | nil => exact fun _ hnone => hnone
    | cons g gs ih =>
      intro d hd hnone
      refine ih (g.apply_keeps hd) ?_
      by_cases hjob : f.jobId = g.jobId
      · rw [hjob]
        exact openReservation_apply_self hd g
      · rw [openReservation_apply_of_ne hd hjob, hnone]
  induction fs generalizing d with
  | nil => cases hf
  | cons g gs ih =>
    rcases List.mem_cons.mp hf with rfl | hf
    · exact hstays gs (f.apply_keeps h) (openReservation_apply_self h f)
    · exact ih (g.apply_keeps h) hf

theorem apply_again (h : d.billing.Books ∧ d.billing.Apart) {fs : List Finalization} {f : Finalization}
    (hf : ∃ g ∈ fs, g.jobId = f.jobId) : f.apply (finalizeAll fs d) = finalizeAll fs d := by
  obtain ⟨g, hg, hjob⟩ := hf
  have hkept := finalizeAll_keeps h fs
  have hnone := openReservation_finalizeAll h hg
  rw [hjob] at hnone
  rw [f.apply_eq hkept.1 hkept.2, hnone]
  rfl

theorem consumed_releases (h : d.billing.Books ∧ d.billing.Apart) (jobs : List String) (id : String) :
    ((finalizeAll (jobs.map Finalization.release) d).billing.lots.get? id).map CreditLot.consumed =
      (d.billing.lots.get? id).map CreditLot.consumed := by
  induction jobs generalizing d with
  | nil => rfl
  | cons job jobs ih =>
    have hfirst : (((Finalization.release job).apply d).billing.lots.get? id).map CreditLot.consumed =
        (d.billing.lots.get? id).map CreditLot.consumed := by
      rw [Finalization.apply_eq h.1 h.2]
      cases openReservation d.billing (Finalization.release job).jobId with
      | none => rfl
      | some auth =>
        have hget := Table.get?_map d.billing.lots
          (PostgresCreditLots.finalizedLot .released (d.billing.allocationRows auth.id auth.accountId))
            (fun _ => rfl) id
        rw [Option.elim_some]
        refine (congrArg (Option.map CreditLot.consumed) hget).trans ?_
        rw [Option.map_map]
        congr 1
        funext lot
        simp [PostgresCreditLots.finalizedLot]
    exact (ih ((Finalization.release job).apply_keeps h)).trans hfirst

theorem authorizationOfJob_of_mem (hbooks : b.Books) (ha : auth ∈ b.authorizations.rows) :
    authorizationOfJob auth.jobId b = some auth := by
  cases hjob : authorizationOfJob auth.jobId b with
  | none =>
    have hnone := List.find?_eq_none.mp hjob auth ha
    simp at hnone
  | some a =>
    obtain ⟨hget, hsame⟩ := authorizationOfJob_get? hjob
    rw [hbooks.recorded.jobs a (Table.mem_of_get? hget) auth ha hsame]

theorem openReservation_before (h : d.billing.Books ∧ d.billing.Apart) (fs : List Finalization)
    (hopen : openReservation (finalizeAll fs d).billing jobId = some auth) :
    openReservation d.billing jobId = some auth := by
  induction fs generalizing d with
  | nil => exact hopen
  | cons f fs ih =>
    have hfirst := ih (f.apply_keeps h) hopen
    by_cases hjob : jobId = f.jobId
    · rw [hjob, openReservation_apply_self h f] at hfirst
      cases hfirst
    · rwa [openReservation_apply_of_ne h hjob] at hfirst

/-- With every open reservation of an account released, nothing of its lots is reserved. -/
theorem reserved_releases (h : d.billing.Books ∧ d.billing.Apart) {accountId : String} {jobs : List String}
    (hjobs : ∀ a ∈ d.billing.authorizations.rows, a.accountId = accountId → a.status = .reserved →
      a.jobId ∈ jobs)
    {lot : CreditLot} (hlot : lot ∈ (finalizeAll (jobs.map Finalization.release) d).billing.lots.rows)
    (hacc : lot.accountId = accountId) : lot.reserved = 0 := by
  have hend := finalizeAll_keeps h (jobs.map Finalization.release)
  rw [hend.1.balanced.reserved lot hlot]
  refine Table.sumWhere_eq_zero fun r hr => decide_eq_false ?_
  rintro ⟨hlotId, hstatus⟩
  obtain ⟨-, ⟨a, ha, haacc⟩, l, hl, hlacc⟩ := hend.1.balanced.owned r hr
  obtain ⟨a', ha', hreserved⟩ := (hasStatus_iff _ _ _).mp hstatus
  cases ha.symm.trans ha'
  have hsame : l = lot := by
    rw [hlotId, Table.get?_of_mem hlot] at hl
    exact (Option.some.inj hl).symm
  have hjob := authorizationOfJob_of_mem hend.1 (Table.mem_of_get? ha)
  have hopen : openReservation (finalizeAll (jobs.map Finalization.release) d).billing a.jobId = some a := by
    unfold openReservation
    rw [hjob, Option.filter_some, if_pos (decide_eq_true hreserved)]
  have hbefore := openReservation_before h _ hopen
  obtain ⟨hget, -⟩ := authorizationOfJob_get? (openReservation_eq_some hbefore).1
  have hmem : a.jobId ∈ jobs :=
    hjobs a (Table.mem_of_get? hget) (haacc.trans (hlacc.symm.trans (hsame ▸ hacc))) hreserved
  have hnone := openReservation_finalizeAll h (List.mem_map_of_mem (f := Finalization.release) hmem)
  exact absurd (hnone.symm.trans hopen) (by simp)

end

end KenkuiServer.Storage

namespace KenkuiServer.Hosted
open Txn Billing Storage Data

/-- In every store that calls reach whose grants keep off the ledger's own references, lists of `finalize`
calls with the same order for each job end alike, a call after another one for its job has no effect, and
releasing an account's open reservations gives its lots back. -/
theorem finalize_order_independent {d₀ : HostedDb} (h : Opening d₀.billing) (calls : List Call)
    (hcalls : ∀ call ∈ calls, ∀ reference, call.reference = some reference →
      PostgresBillingRepository.OffLedger reference) :
    let d := Call.runAll calls d₀
    (∀ fs fs' : List Finalization, Reordered Finalization.jobId fs fs' →
      Alike (finalizeAll fs d).billing (finalizeAll fs' d).billing) ∧
    (∀ (fs : List Finalization) (f : Finalization), (∃ g ∈ fs, g.jobId = f.jobId) →
      f.apply (finalizeAll fs d) = finalizeAll fs d) ∧
    ∀ (accountId : String) (jobs : List String),
      (∀ a ∈ d.billing.authorizations.rows, a.accountId = accountId → a.status = .reserved → a.jobId ∈ jobs) →
        ∀ lot ∈ (finalizeAll (jobs.map Finalization.release) d).billing.lots.rows, lot.accountId = accountId →
          lot.reserved = 0 ∧ (d.billing.lots.get? lot.id).map CreditLot.consumed = some lot.consumed := by
  intro d
  have hd : d.billing.Books ∧ d.billing.Apart := by
    have h₀ : d₀.billing.Books ∧ d₀.billing.Apart := by
      refine ⟨h.books, ⟨?_, ?_⟩⟩
      · simp [h.authorizations]
      · simp [h.ledger]
    refine Call.runAll_keeps (I := fun d => d.billing.Books ∧ d.billing.Apart) (fun call hmem d hd => ?_) h₀
    have hkept := Call.keeping PostgresBillingRepository.kept_apart call (hcalls call hmem) d hd
    unfold Prog.transaction
    cases hr : call.prog.run d with
    | error e => exact hd
    | ok r =>
      rw [hr] at hkept
      exact hkept
  refine ⟨fun fs fs' hfs => finalizations_commute.foldl_reordered hfs hd, fun fs f hf => apply_again hd hf,
    fun accountId jobs hjobs lot hlot hacc => ⟨reserved_releases hd hjobs hlot hacc, ?_⟩⟩
  rw [← consumed_releases hd jobs lot.id, Table.get?_of_mem hlot]
  rfl

def sampleJob2 : Jobs.Job := { sampleJob with id := "job2", named := by decide }

/-- Two jobs hold three and two credits of one lot; the release of one commutes with the settlement of the
other. -/
theorem finalize_order_independent_two :
    let d₀ : HostedDb := { billing := { accounts := (∅ : Table _).put ⟨⟨"account", 0⟩, "identity"⟩ } }
    let d := Call.runAll [.grant "lot" "account" 5 "welcome",
      .admitJob "authorization" sampleJob ⟨"dispatch", "job", "pending", 0⟩ "account" "identity" 3 none,
      .admitJob "authorization2" sampleJob2 ⟨"dispatch2", "job2", "pending", 0⟩ "account" "identity"
        2 none] d₀
    let settle : Finalization := ⟨"job2", .settled, by decide⟩
    (d.billing.allocations.rows.map fun a => (a.authorizationId, a.lotId, a.credits)) =
        [("authorization", "lot", 3), ("authorization2", "lot", 2)] ∧
      Alike (finalizeAll [.release "job", settle] d).billing
        (finalizeAll [settle, .release "job"] d).billing := by
  intro d₀ d settle
  have hopening : Opening d₀.billing := ⟨by decide, rfl, rfl, rfl, rfl⟩
  have hreordered : Reordered Finalization.jobId [.release "job", settle] [settle, .release "job"] := by
    intro k
    by_cases hjob : "job" = k
    · subst hjob
      rfl
    · simp [Finalization.release, settle, hjob, List.filter_cons]
  have hcalls : ∀ call ∈ [Call.grant "lot" "account" 5 "welcome",
      .admitJob "authorization" sampleJob ⟨"dispatch", "job", "pending", 0⟩ "account" "identity" 3 none,
      .admitJob "authorization2" sampleJob2 ⟨"dispatch2", "job2", "pending", 0⟩ "account" "identity"
        2 none], ∀ reference, call.reference = some reference →
          PostgresBillingRepository.OffLedger reference := by
    intro call hcall reference href
    simp only [List.mem_cons, List.not_mem_nil, or_false] at hcall
    rcases hcall with rfl | rfl | rfl
    · cases href
      intro status jobId
      have hapart : ∀ p : String, 1 ≤ p.length → "welcome".toList.take 1 ≠ p.toList.take 1 →
          "welcome" ≠ p ++ jobId := by
        intro p hp hne
        simpa using prefix_ne 1 (by decide) hp hne "" jobId
      unfold endReference
      split_ifs
      · exact hapart _ (by decide) (by decide)
      · exact hapart _ (by decide) (by decide)
    · cases href
    · cases href
  exact ⟨by decide +kernel, (finalize_order_independent hopening _ hcalls).1 _ _ hreordered⟩

end KenkuiServer.Hosted
