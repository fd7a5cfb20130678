import KenkuiServer.Credits.Reservation

/-! The update loop of `finalize`. Taken together its turns rewrite the lots row by row, each lot
moving what the authorization holds on it; with the new status of the authorization and the refund
of a release every balance is kept. -/
namespace KenkuiServer.Storage
open Txn Billing

namespace BillingDb

variable {b : BillingDb} {auth : CreditAuthorization}

/-- What one authorization holds on one lot. -/
def allocatedOn (b : BillingDb) (authorizationId lotId : String) : ℤ :=
  b.allocations.sumWhere (fun r => r.lotId = lotId ∧ r.authorizationId = authorizationId)
    CreditAllocation.credits

/-- What the other authorizations of one status hold on a lot. -/
def heldByOthers (b : BillingDb) (authorizationId lotId : String) (status : AuthorizationStatus) : ℤ :=
  b.allocations.sumWhere (fun r => (r.lotId = lotId ∧ b.hasStatus r.authorizationId status) ∧
    r.authorizationId ≠ authorizationId) CreditAllocation.credits

theorem held_eq (auth : CreditAuthorization) (hauth : b.authorizations.get? auth.id = some auth)
    (lotId : String) (s : AuthorizationStatus) :
    b.held lotId s =
      b.heldByOthers auth.id lotId s + if auth.status = s then b.allocatedOn auth.id lotId else 0 := by
  have hstatus : b.hasStatus auth.id s = decide (auth.status = s) := by simp [hasStatus, hauth]
  unfold held heldByOthers allocatedOn
  rw [Table.sumWhere_split _ _ fun r => decide (r.authorizationId = auth.id)]
  congr 1
  · exact Table.sumWhere_congr fun r _ => by simp
  · split_ifs with hs
    · refine Table.sumWhere_congr fun r _ => ?_
      by_cases hr : r.authorizationId = auth.id <;> simp [hr, hstatus, hs]
    · refine Table.sumWhere_eq_zero fun r _ => ?_
      by_cases hr : r.authorizationId = auth.id <;> simp [hr, hstatus, hs]

theorem heldByOthers_putAuthorization (status : AuthorizationStatus) (lotId : String)
    (s : AuthorizationStatus) :
    ((BillingWrite.authorization { auth with status }).apply b).heldByOthers auth.id lotId s =
      b.heldByOthers auth.id lotId s := by
  refine Table.sumWhere_congr fun r _ => ?_
  by_cases hr : r.authorizationId = auth.id
  · simp [hr]
  · simp [hr, hasStatus, Table.get?_put, Ne.symm hr]

theorem held_putAuthorization (hauth : b.authorizations.get? auth.id = some auth)
    (status : AuthorizationStatus) (lotId : String) (s : AuthorizationStatus) :
    ((BillingWrite.authorization { auth with status }).apply b).held lotId s =
      b.held lotId s - (if auth.status = s then b.allocatedOn auth.id lotId else 0) +
        if status = s then b.allocatedOn auth.id lotId else 0 := by
  have hput : ((BillingWrite.authorization { auth with status }).apply b).authorizations.get? auth.id =
      some { auth with status } := by
    simp
  rw [held_eq { auth with status } hput, heldByOthers_putAuthorization, held_eq auth hauth,
    add_sub_cancel_right]
  rfl

/-- The allocations that `finalize` reads. -/
def allocationRows (b : BillingDb) (authorizationId accountId : String) : List (String × ℤ) :=
  (b.allocations.rows.filter fun row =>
    row.authorizationId = authorizationId ∧ row.accountId = accountId).map fun row =>
      (row.lotId, row.credits)

theorem allocationRows_eq (hauth : b.authorizations.get? auth.id = some auth)
    (howned : ∀ r ∈ b.allocations.rows, b.Owned r) :
    b.allocationRows auth.id auth.accountId =
      (b.allocations.rows.filter fun row => row.authorizationId = auth.id).map fun row =>
        (row.lotId, row.credits) := by
  unfold allocationRows
  congr 1
  refine List.filter_congr fun r hr => ?_
  by_cases hid : r.authorizationId = auth.id
  · obtain ⟨a, ha, hacc⟩ := (howned r hr).authorization
    rw [hid, hauth] at ha
    cases ha
    simp [hid, hacc]
  · simp [hid]

theorem sum_allocationRows (hauth : b.authorizations.get? auth.id = some auth)
    (howned : ∀ r ∈ b.allocations.rows, b.Owned r) :
    ((b.allocationRows auth.id auth.accountId).map (·.2)).sum = b.allocated auth.id := by
  simp [allocationRows_eq hauth howned, allocated, Table.sumWhere, Function.comp_def]

theorem sum_allocationRows_filter (hauth : b.authorizations.get? auth.id = some auth)
    (howned : ∀ r ∈ b.allocations.rows, b.Owned r) (lotId : String) :
    (((b.allocationRows auth.id auth.accountId).filter (·.1 = lotId)).map (·.2)).sum =
      b.allocatedOn auth.id lotId := by
  simp [allocationRows_eq hauth howned, allocatedOn, Table.sumWhere, List.filter_map,
    Function.comp_def, List.filter_filter]

theorem nodup_allocationRows (b : BillingDb) (authorizationId accountId : String) :
    ((b.allocationRows authorizationId accountId).map (·.1)).Nodup := by
  have hsub := (List.filter_sublist (l := b.allocations.rows) (p := fun row =>
    row.authorizationId = authorizationId ∧ row.accountId = accountId)).map
      fun r => (r.authorizationId, r.lotId)
  have hnodup := hsub.nodup b.allocations.nodup
  simp only [allocationRows, List.map_map, Function.comp_def]
  refine List.Nodup.of_map (fun lotId => (authorizationId, lotId)) ?_
  rw [List.map_map]
  convert hnodup using 1
  refine List.map_congr_left fun r hr => ?_
  simp only [List.mem_filter, decide_eq_true_eq] at hr
  simp [hr.2.1]

end BillingDb

namespace PostgresCreditLots
open BillingDb

/-- A lot after the loop over `rows`. -/
def finalizedLot (status : AuthorizationStatus) (rows : List (String × ℤ)) (lot : CreditLot) : CreditLot :=
  let amount := ((rows.filter (·.1 = lot.id)).map (·.2)).sum
  { lot with
    reserved := lot.reserved - amount
    consumed := lot.consumed + if status = .settled then amount else 0 }

theorem finalizeRows_spec (rows : List (String × ℤ)) (status : AuthorizationStatus) {d : HostedDb}
    {accountId : String} (hchecks : ∀ lot ∈ d.billing.lots.rows, lotChecks lot)
    (hrows : ∀ row ∈ rows, 0 < row.2 ∧ ∃ lot, d.billing.lots.get? row.1 = some lot ∧
      lot.accountId = accountId ∧ row.2 ≤ lot.reserved)
    (hnodup : (rows.map (·.1)).Nodup) :
    ∃ lots, (finalizeRows accountId status rows).run d =
        .ok ((), { d with billing := { d.billing with lots } }) ∧
      lots.rows = d.billing.lots.rows.map (finalizedLot status rows) ∧
      ∀ a, { d.billing with lots }.lotBalance a =
        d.billing.lotBalance a + if accountId = a ∧ status ≠ .settled then (rows.map (·.2)).sum else 0 := by
  induction rows generalizing d with
  | nil =>
    have : finalizedLot status [] = id := by funext lot; simp [finalizedLot]
    exact ⟨d.billing.lots, rfl, by simp [this], by simp⟩
  | cons row rows ih =>
    obtain ⟨lotId, amount⟩ := row
    obtain ⟨hpos, lot, hlot, hlacc, hle⟩ := hrows _ List.mem_cons_self
    simp only at hpos hlot hle
    obtain rfl : lot.id = lotId := Table.key_of_get? hlot
    subst hlacc
    simp only [List.map_cons, List.nodup_cons] at hnodup
    set lot' : CreditLot :=
      { lot with
        reserved := lot.reserved - amount
        consumed := lot.consumed + if status = .settled then amount else 0 } with hlot'
    have hchecks' : lotChecks lot' := by
      have := (lotChecks_iff lot).mp (hchecks lot (Table.mem_of_get? hlot))
      rw [lotChecks_iff]
      simp only [hlot']
      split_ifs <;> omega
    have hlots₁ : ∀ l ∈ (d.billing.lots.put lot').rows, lotChecks l := by
      intro l hl
      rcases (Table.mem_put _ _ _).mp hl with rfl | ⟨hl, -⟩
      · exact hchecks'
      · exact hchecks l hl
    have hrows₁ : ∀ r ∈ rows, 0 < r.2 ∧ ∃ l, (d.billing.lots.put lot').get? r.1 = some l ∧
        l.accountId = lot.accountId ∧ r.2 ≤ l.reserved := by
      intro r hr
      obtain ⟨hrpos, l, hl, hrest⟩ := hrows r (List.mem_cons_of_mem _ hr)
      have hne : lot'.id ≠ r.1 := fun he => hnodup.1 (he ▸ List.mem_map_of_mem hr)
      exact ⟨hrpos, l, by rw [Table.get?_put_of_ne _ hne, hl], hrest⟩
    obtain ⟨lots, hrun, hlots, hbalance⟩ := ih (d := apply (Write.billing (.lot lot')) d)
      hlots₁ hrows₁ hnodup.2
    refine ⟨lots, ?_, ?_, fun a => ?_⟩
    · simp only [finalizeRows, issue_bind, finalizeLot, Prog.run_update, hlot, ge_iff_le, hle,
        and_self, if_true, ← hlot', hchecks', ne_eq, not_true_eq_false, Prog.raiseIf_bind, if_false]
      exact hrun
    · have hput : (d.billing.lots.put lot').rows =
          d.billing.lots.rows.map fun x => if x.id = lot.id then lot' else x :=
        Table.rows_put_of_some (r := lot') hlot
      have hnone : rows.filter (·.1 = lot.id) = [] :=
        List.filter_eq_nil_iff.mpr fun r hr => by
          simpa using fun he : r.1 = lot.id => hnodup.1 (he ▸ List.mem_map_of_mem hr)
      rw [hlots]
      simp only [billing_apply, BillingWrite.lots_apply, hput, List.map_map]
      refine List.map_congr_left fun x hx => ?_
      by_cases hid : x.id = lot.id
      · obtain rfl := Table.eq_of_mem hx (Table.mem_of_get? hlot) hid
        simp [finalizedLot, hlot', hnone]
      · simp [finalizedLot, hid, Ne.symm hid]
    · have hturn := lotBalance_putLot lot' hlot rfl a
      have havailable : lot'.available - lot.available = if ¬status = .settled then amount else 0 := by
        simp only [hlot', CreditLot.available, ite_not]
        split_ifs <;> ring
      refine (hbalance a).trans ?_
      rw [billing_apply, hturn, havailable]
      by_cases ha : lot.accountId = a <;> by_cases hs : status = .settled <;>
        simp [hlot', ha, hs, add_assoc]

theorem selectAllocations_eq (authorizationId accountId : String) :
    selectAllocations authorizationId accountId =
      .select fun d => d.billing.allocationRows authorizationId accountId := rfl

theorem finalize_spec {d : HostedDb} {auth : CreditAuthorization} (status : AuthorizationStatus)
    {accountId authorizationId : String} (h : d.billing.Balanced accountId authorizationId 0)
    (hauth : d.billing.authorizations.get? auth.id = some auth) (hreserved : auth.status = .reserved) :
    ∃ lots, (finalize auth.id auth.accountId auth.credits status).run d =
        .ok ((), { d with billing := { d.billing with lots } }) ∧
      lots.rows = d.billing.lots.rows.map
        (finalizedLot status (d.billing.allocationRows auth.id auth.accountId)) ∧
      ∀ a, { d.billing with lots }.lotBalance a = d.billing.lotBalance a +
        if auth.accountId = a ∧ status ≠ .settled then auth.credits else 0 := by
  have hsum : ((d.billing.allocationRows auth.id auth.accountId).map (·.2)).sum = auth.credits := by
    rw [sum_allocationRows hauth h.owned]
    simpa using h.allocated auth (Table.mem_of_get? hauth)
  have hrows : ∀ row ∈ d.billing.allocationRows auth.id auth.accountId, 0 < row.2 ∧
      ∃ lot, d.billing.lots.get? row.1 = some lot ∧ lot.accountId = auth.accountId ∧
        row.2 ≤ lot.reserved := by
    intro row hrow
    obtain ⟨r, hr, rfl⟩ := List.mem_map.mp hrow
    simp only [List.mem_filter, decide_eq_true_eq] at hr
    obtain ⟨hr, hid, hacc⟩ := hr
    obtain ⟨hpos, -, lot, hlot, hlacc⟩ := h.owned r hr
    refine ⟨hpos, lot, hlot, hlacc.trans hacc, ?_⟩
    rw [h.reserved lot (Table.mem_of_get? hlot)]
    refine le_allocated_of_mem (fun r hr => (h.owned r hr).pos) hr ?_
    simp [hid, hasStatus, hauth, hreserved, Table.key_of_get? hlot]
  obtain ⟨lots, hrun, hlots, hbalance⟩ :=
    finalizeRows_spec _ status h.lotBounds hrows (nodup_allocationRows _ _ _)
  refine ⟨lots, ?_, hlots, by simpa [hsum] using hbalance⟩
  simpa only [finalize, issue_bind, selectAllocations_eq, Prog.run_select, hsum, ne_eq,
    not_true_eq_false, Prog.raiseIf_bind, if_false] using hrun

end PostgresCreditLots

end KenkuiServer.Storage
