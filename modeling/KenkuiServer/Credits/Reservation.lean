import KenkuiServer.Credits.Balance

/-! The split loop of a reservation. Each turn allocates on one lot what it can; the loop ends with
nothing owed whenever the lots together cover the amount. -/
namespace KenkuiServer.Storage
open Txn Billing

namespace BillingDb

variable {b : BillingDb} {accountId authorizationId : String} {owed : ℤ}

/-- One turn of the loop: reserve `amount` on a lot and record the allocation. -/
def allocate (b : BillingDb) (authorizationId accountId : String) (lot : CreditLot) (amount : ℤ) :
    BillingDb :=
  (BillingWrite.allocation ⟨authorizationId, lot.id, accountId, amount⟩).apply
    ((BillingWrite.lot { lot with reserved := lot.reserved + amount }).apply b)

section
variable {lot : CreditLot} {amount : ℤ}

@[simp] theorem accounts_allocate :
    (b.allocate authorizationId accountId lot amount).accounts = b.accounts := by simp [allocate]

@[simp] theorem authorizations_allocate :
    (b.allocate authorizationId accountId lot amount).authorizations = b.authorizations := by
  simp [allocate]

@[simp] theorem lots_allocate :
    (b.allocate authorizationId accountId lot amount).lots =
      b.lots.put { lot with reserved := lot.reserved + amount } := by simp [allocate]

@[simp] theorem allocations_allocate :
    (b.allocate authorizationId accountId lot amount).allocations =
      b.allocations.put ⟨authorizationId, lot.id, accountId, amount⟩ := by simp [allocate]

theorem lotBalance_allocate (hlot : b.lots.get? lot.id = some lot) (a : String) :
    (b.allocate authorizationId accountId lot amount).lotBalance a =
      b.lotBalance a - if lot.accountId = a then amount else 0 := by
  have h := lotBalance_putLot { lot with reserved := lot.reserved + amount } hlot rfl a
  refine h.trans ?_
  simp only [CreditLot.available]
  split_ifs <;> ring

theorem allocated_allocate (hfresh : b.allocations.get? (authorizationId, lot.id) = none) (id : String) :
    (b.allocate authorizationId accountId lot amount).allocated id =
      b.allocated id + if authorizationId = id then amount else 0 :=
  allocated_putAllocation (b := (BillingWrite.lot _).apply b) (r := ⟨_, _, _, _⟩) hfresh id

theorem held_allocate (hfresh : b.allocations.get? (authorizationId, lot.id) = none) (lotId : String)
    (s : AuthorizationStatus) :
    (b.allocate authorizationId accountId lot amount).held lotId s =
      b.held lotId s + if lot.id = lotId ∧ b.hasStatus authorizationId s then amount else 0 :=
  held_putAllocation (b := (BillingWrite.lot _).apply b) (r := ⟨_, _, _, _⟩) hfresh lotId s

/-- One turn pays `amount` of the debt. -/
theorem Balanced.allocate (h : b.Balanced accountId authorizationId owed)
    {auth : CreditAuthorization} (hauth : b.authorizations.get? authorizationId = some auth)
    (hacc : auth.accountId = accountId) (hstatus : auth.status = .reserved)
    (hlot : b.lots.get? lot.id = some lot) (hlacc : lot.accountId = accountId) (hpos : 0 < amount)
    (hle : amount ≤ lot.available) (hfresh : b.allocations.get? (authorizationId, lot.id) = none) :
    (b.allocate authorizationId accountId lot amount).Balanced accountId authorizationId
      (owed - amount) := by
  have hbounds := (lotChecks_iff lot).mp (h.lotBounds lot (Table.mem_of_get? hlot))
  have hreserved : b.hasStatus authorizationId .reserved := by simp [hasStatus, hauth, hstatus]
  have hsettled : b.hasStatus authorizationId .settled = false := by simp [hasStatus, hauth, hstatus]
  constructor
  case balance =>
    intro row hrow
    rw [accounts_allocate] at hrow
    have := h.balance row hrow
    rw [lotBalance_allocate hlot, hlacc]
    by_cases hr : row.id = accountId
    · simp only [hr, if_true] at this ⊢
      linarith
    · simp only [hr, Ne.symm hr, if_false] at this ⊢
      linarith
  case lotAccount =>
    intro l hl
    rw [lots_allocate, Table.mem_put] at hl
    rw [accounts_allocate]
    rcases hl with rfl | ⟨hl, -⟩
    · exact h.lotAccount lot (Table.mem_of_get? hlot)
    · exact h.lotAccount l hl
  case lotBounds =>
    intro l hl
    rw [lots_allocate, Table.mem_put] at hl
    rcases hl with rfl | ⟨hl, -⟩
    · rw [lotChecks_iff]
      simp only [CreditLot.available] at hle ⊢
      omega
    · exact h.lotBounds l hl
  case reserved =>
    intro l hl
    rw [lots_allocate, Table.mem_put] at hl
    rw [held_allocate hfresh]
    rcases hl with rfl | ⟨hl, hne⟩
    · simpa [hreserved] using h.reserved lot (Table.mem_of_get? hlot)
    · simpa [Ne.symm hne] using h.reserved l hl
  case consumed =>
    intro l hl
    rw [lots_allocate, Table.mem_put] at hl
    rw [held_allocate hfresh]
    rcases hl with rfl | ⟨hl, -⟩
    · simpa [hsettled] using h.consumed lot (Table.mem_of_get? hlot)
    · simpa [hsettled] using h.consumed l hl
  case allocated =>
    intro a ha
    rw [authorizations_allocate] at ha
    have := h.allocated a ha
    rw [allocated_allocate hfresh]
    by_cases hid : a.id = authorizationId
    · simp only [hid, if_true] at this ⊢
      linarith
    · simp only [hid, Ne.symm hid, if_false] at this ⊢
      linarith
  case owned =>
    have hkeep : ∀ id old, b.lots.get? id = some old → ∃ l,
        (b.allocate authorizationId accountId lot amount).lots.get? id = some l ∧
          l.accountId = old.accountId := by
      intro id old hold
      rw [lots_allocate, Table.get?_put]
      split_ifs with hid
      · subst hid
        cases hlot.symm.trans hold
        exact ⟨_, rfl, rfl⟩
      · exact ⟨old, hold, rfl⟩
    intro r hr
    rw [allocations_allocate, Table.mem_put] at hr
    rcases hr with rfl | ⟨hr, -⟩
    · obtain ⟨l, hl, hla⟩ := hkeep _ _ hlot
      exact ⟨hpos, ⟨auth, by simpa using hauth, hacc⟩, l, hl, hla.trans hlacc⟩
    · exact (h.owned r hr).mono (fun _ a ha => ⟨a, by simpa using ha, rfl⟩) hkeep

end

end BillingDb

namespace PostgresCreditLots
open BillingDb

/-- Every row the loop still has in hand is a lot of the account as it was read, with credits to
spend and nothing allocated to this authorization. -/
def Rows (b : BillingDb) (authorizationId accountId : String) (rows : List (String × ℤ)) : Prop :=
  ∀ row ∈ rows, 0 < row.2 ∧ b.allocations.get? (authorizationId, row.1) = none ∧
    ∃ lot, b.lots.get? row.1 = some lot ∧ lot.accountId = accountId ∧ lot.available = row.2

/-- One turn of the loop: it allocates what it can on the first lot, and ends if nothing is left to place. -/
theorem reserveRows_turn {d : HostedDb} {accountId authorizationId : String} {remaining available : ℤ}
    {auth : CreditAuthorization} {lot : CreditLot} (rows : List (String × ℤ))
    (hauth : d.billing.authorizations.get? authorizationId = some auth) (hacc : auth.accountId = accountId)
    (hlot : d.billing.lots.get? lot.id = some lot) (hlacc : lot.accountId = accountId)
    (hfresh : d.billing.allocations.get? (authorizationId, lot.id) = none)
    (hpos : 0 < min remaining available)
    (hchecks : lotChecks { lot with reserved := lot.reserved + min remaining available }) :
    (reserveRows authorizationId accountId ((lot.id, available) :: rows) remaining).run d =
      if remaining - min remaining available = 0 then
        .ok ((),
          { d with billing := d.billing.allocate authorizationId accountId lot (min remaining available) })
      else (reserveRows authorizationId accountId rows (remaining - min remaining available)).run
        { d with billing := d.billing.allocate authorizationId accountId lot (min remaining available) } := by
  set amount := min remaining available with hamount
  set d₁ := apply (Write.billing (.lot { lot with reserved := lot.reserved + amount })) d with hd₁
  have hlot₁ : d₁.billing.lots.get? lot.id = some { lot with reserved := lot.reserved + amount } := by
    have hput := Table.get?_put_self d.billing.lots { lot with reserved := lot.reserved + amount }
    exact hput
  have hinsert := insertAllocation_run ⟨authorizationId, lot.id, accountId, amount⟩ (d := d₁) hpos hfresh
    hauth hacc hlot₁ hlacc fun _ => if remaining - amount = 0 then .ret () else
      reserveRows authorizationId accountId rows (remaining - amount)
  have hturn : (reserveRows authorizationId accountId ((lot.id, available) :: rows) remaining).run d =
      (Prog.step (insertAllocation ⟨authorizationId, lot.id, accountId, amount⟩) fun _ =>
        if remaining - amount = 0 then .ret () else
          reserveRows authorizationId accountId rows (remaining - amount)).run d₁ := by
    simp only [reserveRows, issue_bind, reserveLot, Prog.run_update, hlot, ← hamount, hchecks, if_true]
    rfl
  rw [hturn, hinsert]
  split_ifs <;> rfl

theorem reserveRows_spec (rows : List (String × ℤ)) {d : HostedDb} {accountId authorizationId : String}
    {remaining : ℤ} {auth : CreditAuthorization}
    (h : d.billing.Balanced accountId authorizationId remaining)
    (hauth : d.billing.authorizations.get? authorizationId = some auth)
    (hacc : auth.accountId = accountId) (hstatus : auth.status = .reserved)
    (hrows : Rows d.billing authorizationId accountId rows) (hnodup : (rows.map (·.1)).Nodup)
    (hpos : 0 < remaining) (hcover : remaining ≤ (rows.map (·.2)).sum) :
    ∃ lots allocations, (reserveRows authorizationId accountId rows remaining).run d =
        .ok ((), { d with billing := { d.billing with lots, allocations } }) ∧
      { d.billing with lots, allocations }.Balanced accountId authorizationId 0 := by
  induction rows generalizing d remaining with
  | nil => simp at hcover; omega
  | cons row rows ih =>
    obtain ⟨lotId, available⟩ := row
    obtain ⟨hav, hfresh, lot, hlot, hlacc, hlav⟩ := hrows _ List.mem_cons_self
    simp only at hav hfresh hlot hlav
    obtain rfl : lot.id = lotId := Table.key_of_get? hlot
    set amount := min remaining available with hamount
    have hapos : 0 < amount := lt_min hpos hav
    have hale : amount ≤ lot.available := hlav ▸ min_le_right _ _
    have hb := h.allocate hauth hacc hstatus hlot hlacc hapos hale hfresh
    have hchecks : lotChecks { lot with reserved := lot.reserved + amount } :=
      hb.lotBounds _ (by rw [lots_allocate]; exact Table.mem_put_self _ _)
    rw [reserveRows_turn rows hauth hacc hlot hlacc hfresh hapos hchecks]
    split_ifs with hdone
    · exact ⟨_, _, rfl, hdone ▸ hb⟩
    · have hall : amount = available := by omega
      simp only [List.map_cons, List.nodup_cons, List.sum_cons] at hnodup hcover
      refine ih (d := { d with billing := d.billing.allocate _ _ _ _ }) hb (by simpa using hauth) ?_
        hnodup.2 (by omega) (by omega)
      intro r hr
      obtain ⟨hrav, hrfresh, l, hl, hrest⟩ := hrows r (List.mem_cons_of_mem _ hr)
      have hne : lot.id ≠ r.1 := fun he => hnodup.1 (he ▸ List.mem_map_of_mem hr)
      refine ⟨hrav, ?_, l, ?_, hrest⟩
      · simp [Table.get?_put, hne, hrfresh]
      · simp [Table.get?_put, hne, hl]

theorem spendable_perm (accountId : String) (b : BillingDb) :
    (spendable accountId b).Perm (b.lots.rows.filter fun lot =>
      lot.accountId = accountId ∧ lot.credited > lot.reserved + lot.consumed) := by
  have h := List.filter_append_perm (fun lot : CreditLot => decide (lot.kind ≠ .purchase))
    (b.lots.rows.filter fun lot =>
      lot.accountId = accountId ∧ lot.credited > lot.reserved + lot.consumed)
  simpa [spendable] using h

theorem mem_spendable {accountId : String} {b : BillingDb} {lot : CreditLot}
    (h : lot ∈ spendable accountId b) :
    b.lots.get? lot.id = some lot ∧ lot.accountId = accountId ∧ 0 < lot.available := by
  have hmem := (spendable_perm accountId b).mem_iff.mp h
  simp only [List.mem_filter, decide_eq_true_eq] at hmem
  obtain ⟨hrow, hacc, hgt⟩ := hmem
  exact ⟨Table.get?_of_mem hrow, hacc, by simp only [CreditLot.available]; omega⟩

theorem nodup_spendable (accountId : String) (b : BillingDb) :
    ((spendable accountId b).map CreditLot.id).Nodup := by
  rw [((spendable_perm accountId b).map _).nodup_iff]
  exact (List.filter_sublist.map _).nodup b.lots.nodup

/-- A lot that is not spendable has nothing available, so the spendable ones make up the balance. -/
theorem sum_spendable {b : BillingDb} (h : ∀ lot ∈ b.lots.rows, lotChecks lot) (accountId : String) :
    ((spendable accountId b).map CreditLot.available).sum = b.lotBalance accountId := by
  rw [((spendable_perm accountId b).map _).sum_eq]
  refine Table.sumWhere_congr (t := b.lots) fun lot hlot => ?_
  have hbounds := (lotChecks_iff lot).mp (h lot hlot)
  by_cases hacc : lot.accountId = accountId
  · simp only [hacc, true_and, decide_eq_true_eq, decide_true, if_true, CreditLot.available]
    split_ifs <;> omega
  · simp [hacc]

theorem reserve_spec {d : HostedDb} {accountId authorizationId : String} {credits : ℤ}
    {auth : CreditAuthorization} (h : d.billing.Balanced accountId authorizationId credits)
    (hauth : d.billing.authorizations.get? authorizationId = some auth)
    (hacc : auth.accountId = accountId) (hstatus : auth.status = .reserved)
    (hnone : ∀ lotId, d.billing.allocations.get? (authorizationId, lotId) = none)
    (hpos : 0 < credits) (hcover : credits ≤ d.billing.lotBalance accountId) :
    ∃ lots allocations, (reserve authorizationId accountId credits).run d =
        .ok ((), { d with billing := { d.billing with lots, allocations } }) ∧
      { d.billing with lots, allocations }.Balanced accountId authorizationId 0 := by
  simp only [reserve, issue_bind, selectSpendable, Prog.run_step, applyAll_nil]
  refine reserveRows_spec _ h hauth hacc hstatus ?_ ?_ hpos ?_
  · intro row hrow
    obtain ⟨lot, hlot, rfl⟩ := List.mem_map.mp hrow
    obtain ⟨hget, hlacc, hav⟩ := mem_spendable hlot
    exact ⟨hav, hnone lot.id, lot, hget, hlacc, rfl⟩
  · simpa [Function.comp_def] using nodup_spendable accountId d.billing
  · simpa [Function.comp_def, sum_spendable h.lotBounds] using hcover

end PostgresCreditLots

end KenkuiServer.Storage
