import KenkuiServer.Credits.Reservation
import KenkuiServer.Data.Split

/-! Which lots a reservation draws on. -/
namespace KenkuiServer.Storage
open Txn Billing Data

/-- A lot after the parts of a reservation. -/
def reservedLot (parts : List (String × ℤ)) (lot : CreditLot) : CreditLot :=
  { lot with reserved := lot.reserved + ((parts.filter (·.1 = lot.id)).map (·.2)).sum }

theorem reservedLot_nil : reservedLot [] = id := by
  funext lot
  simp [reservedLot]

theorem reservedLot_cons {lot : CreditLot} {amount : ℤ} {parts : List (String × ℤ)}
    (hlot : lot.id ∉ parts.map (·.1)) (l : CreditLot) (hl : l.id = lot.id → l = lot) :
    reservedLot parts (if l.id = lot.id then { lot with reserved := lot.reserved + amount } else l) =
      reservedLot ((lot.id, amount) :: parts) l := by
  have hnone : parts.filter (·.1 = lot.id) = [] := by
    refine List.filter_eq_nil_iff.mpr fun part hpart => ?_
    intro hid
    rw [decide_eq_true_eq] at hid
    exact hlot (hid ▸ List.mem_map_of_mem hpart)
  by_cases hid : l.id = lot.id
  · rw [hl hid]
    simp [reservedLot, hnone]
  · simp [reservedLot, hid, Ne.symm hid]

namespace PostgresCreditLots
open BillingDb

section
variable {authorizationId accountId : String} {rows : List (String × ℤ)} {remaining : ℤ} {d : HostedDb}
  {auth : CreditAuthorization}

/-- The loop places the parts of a greedy split, or raises where there is none. -/
theorem reserveRows_run (hpos : 0 < remaining) (hrows : Rows d.billing authorizationId accountId rows)
    (hnodup : (rows.map (·.1)).Nodup) (hlots : ∀ lot ∈ d.billing.lots.rows, lotChecks lot)
    (hauth : d.billing.authorizations.get? authorizationId = some auth) (hacc : auth.accountId = accountId) :
    (split rows remaining = none →
      (reserveRows authorizationId accountId rows remaining).run d =
        .error (.value "credit_lot_balance_mismatch")) ∧
    ∀ parts, split rows remaining = some parts → ∃ lots allocations,
      (reserveRows authorizationId accountId rows remaining).run d =
          .ok ((), { d with billing := { d.billing with lots, allocations } }) ∧
        lots.rows = d.billing.lots.rows.map (reservedLot parts) ∧
        allocations.rows = d.billing.allocations.rows ++
          parts.map fun part => ⟨authorizationId, part.1, accountId, part.2⟩ := by
  induction rows generalizing d remaining with
  | nil => exact ⟨fun _ => rfl, fun parts h => by cases h⟩
  | cons row rows ih =>
    obtain ⟨lotId, available⟩ := row
    obtain ⟨hav, hfresh, lot, hlot, hlacc, hlav⟩ := hrows _ List.mem_cons_self
    simp only at hav hfresh hlot hlav
    obtain rfl : lot.id = lotId := Table.key_of_get? hlot
    simp only [List.map_cons, List.nodup_cons] at hnodup
    set amount := min remaining available with hamount
    have hapos : 0 < amount := lt_min hpos hav
    have hale : amount ≤ lot.available := hlav ▸ min_le_right _ _
    have hbounds := (lotChecks_iff lot).mp (hlots lot (Table.mem_of_get? hlot))
    have hchecks : lotChecks { lot with reserved := lot.reserved + amount } := by
      rw [lotChecks_iff]
      simp only [CreditLot.available] at hale ⊢
      omega
    set b₁ := d.billing.allocate authorizationId accountId lot amount with hb₁
    have hturn : (reserveRows authorizationId accountId ((lot.id, available) :: rows) remaining).run d =
        if remaining - amount = 0 then .ok ((), { d with billing := b₁ })
        else (reserveRows authorizationId accountId rows (remaining - amount)).run { d with billing := b₁ } :=
      reserveRows_turn rows hauth hacc hlot hlacc hfresh hapos hchecks
    have hlots₁ : b₁.lots.rows =
        d.billing.lots.rows.map fun l =>
          if l.id = lot.id then { lot with reserved := lot.reserved + amount } else l := by
      rw [hb₁, lots_allocate]
      exact Table.rows_put_of_some (r := { lot with reserved := lot.reserved + amount }) hlot
    have hallocations₁ : b₁.allocations.rows =
        d.billing.allocations.rows ++ [(⟨authorizationId, lot.id, accountId,
          amount⟩ : CreditAllocation)] := by
      rw [hb₁, allocations_allocate]
      have hnew := Table.rows_put_of_none (t := d.billing.allocations)
        (r := (⟨authorizationId, lot.id, accountId, amount⟩ : CreditAllocation)) hfresh
      exact hnew
    have hsame : ∀ l ∈ d.billing.lots.rows, l.id = lot.id → l = lot := fun l hl hid =>
      Table.eq_of_mem hl (Table.mem_of_get? hlot) hid
    rw [hturn]
    by_cases hle : remaining ≤ available
    · have hall : amount = remaining := by omega
      simp only [split, if_pos hle, hall, sub_self, if_true, reduceCtorEq, false_implies, true_and]
      intro parts hparts
      cases hparts
      refine ⟨b₁.lots, b₁.allocations, rfl, ?_, ?_⟩
      · rw [hlots₁, hall]
        refine List.map_congr_left fun l hl => ?_
        have hnone : lot.id ∉ ([] : List (String × ℤ)).map (·.1) := by simp
        have hlast := @reservedLot_cons lot remaining [] hnone l (hsame l hl)
        rw [reservedLot_nil] at hlast
        exact hlast
      · rw [hallocations₁, hall]
        rfl
    · have hall : amount = available := by omega
      have hmore : 0 < remaining - amount := by omega
      have hrows₁ : Rows b₁ authorizationId accountId rows := by
        intro r hr
        obtain ⟨hrav, hrfresh, l, hl, hrest⟩ := hrows r (List.mem_cons_of_mem _ hr)
        have hne : lot.id ≠ r.1 := fun he => hnodup.1 (he ▸ List.mem_map_of_mem hr)
        refine ⟨hrav, ?_, l, ?_, hrest⟩
        · simp [hb₁, Table.get?_put, hne, hrfresh]
        · simp [hb₁, Table.get?_put, hne, hl]
      have hchecks₁ : ∀ l ∈ b₁.lots.rows, lotChecks l := by
        intro l hl
        rw [hlots₁] at hl
        obtain ⟨old, hold, rfl⟩ := List.mem_map.mp hl
        split_ifs
        · exact hchecks
        · exact hlots old hold
      have hauth₁ : b₁.authorizations.get? authorizationId = some auth := by simpa [hb₁] using hauth
      obtain ⟨hnone, hsome⟩ := ih (d := { d with billing := b₁ }) hmore hrows₁ hnodup.2 hchecks₁ hauth₁
      rw [if_neg (by omega)]
      simp only [split, if_neg hle, Option.map_eq_none_iff]
      rw [hall] at hnone hsome ⊢
      refine ⟨hnone, fun parts hparts => ?_⟩
      obtain ⟨parts', hsplit, rfl⟩ := Option.map_eq_some_iff.mp hparts
      obtain ⟨lots, allocations, hrun, hlots', hallocations'⟩ := hsome parts' hsplit
      refine ⟨lots, allocations, hrun, ?_, ?_⟩
      · rw [hlots', hlots₁, List.map_map, hall]
        refine List.map_congr_left fun l hl => reservedLot_cons ?_ l (hsame l hl)
        have hsub := split_sublist (by omega) hsplit
        exact fun hmem => hnodup.1 (hsub.subset hmem)
      · rw [hallocations', hallocations₁, hall, List.append_assoc]
        rfl

end

/-- The lots of an account in the order in which reservations draw on them: no purchase is touched while
another lot has credits. -/
def lotOrder (accountId : String) (b : BillingDb) : List CreditLot :=
  let rows := b.lots.rows.filter fun lot => lot.accountId = accountId
  rows.filter (·.kind ≠ .purchase) ++ rows.filter (·.kind = .purchase)

theorem spendable_eq_filter (accountId : String) (b : BillingDb) :
    spendable accountId b = (lotOrder accountId b).filter fun lot =>
      lot.credited > lot.reserved + lot.consumed := by
  simp only [spendable, lotOrder, List.filter_append, List.filter_filter]
  congr 1
  · refine List.filter_congr fun lot _ => ?_
    rw [Bool.decide_and]
    ac_rfl
  · refine List.filter_congr fun lot _ => ?_
    rw [Bool.decide_and]
    ac_rfl

theorem mem_lotOrder {accountId : String} {b : BillingDb} {lot : CreditLot} :
    lot ∈ lotOrder accountId b ↔ lot ∈ b.lots.rows ∧ lot.accountId = accountId := by
  simp only [lotOrder, List.mem_append, List.mem_filter, decide_eq_true_eq]
  by_cases hkind : lot.kind = .purchase <;> simp [hkind]

/-- The parts of `credits` that a reservation took, and the store that they leave. -/
structure GreedySplit (b b' : BillingDb) (authorizationId accountId : String) (credits : ℤ)
    (parts : List (String × ℤ)) : Prop where
  lots : b'.lots.rows = b.lots.rows.map (reservedLot parts)
  allocations : b'.allocations.rows = b.allocations.rows ++
    parts.map fun part => ⟨authorizationId, part.1, accountId, part.2⟩
  total : (parts.map (·.2)).sum = credits
  once : (parts.map (·.1)).Nodup
  bounded : ∀ part ∈ parts, ∃ lot ∈ b.lots.rows, lot.id = part.1 ∧ lot.accountId = accountId ∧
    0 < part.2 ∧ part.2 ≤ lot.available
  drained : ∀ earlier lot later, lotOrder accountId b = earlier ++ lot :: later → lot.id ∈ parts.map (·.1) →
    ∀ l ∈ earlier, (reservedLot parts l).available = 0
  lastOpen : ∀ lot ∈ b.lots.rows, ∀ lot' ∈ b.lots.rows, lot.id ∈ parts.map (·.1) → lot'.id ∈ parts.map (·.1) →
    0 < (reservedLot parts lot).available → 0 < (reservedLot parts lot').available → lot = lot'
  purchases : ∀ lot ∈ b.lots.rows, lot.kind = .purchase → lot.id ∈ parts.map (·.1) →
    ∀ other ∈ b.lots.rows, other.accountId = accountId → other.kind ≠ .purchase →
      (reservedLot parts other).available = 0

theorem available_reservedLot {parts : List (String × ℤ)} {lot : CreditLot} (hnodup : (parts.map (·.1)).Nodup)
    (hpart : (lot.id, lot.available) ∈ parts) : (reservedLot parts lot).available = 0 := by
  have hsum : ((parts.filter (·.1 = lot.id)).map (·.2)).sum = lot.available := sum_filter_of_mem hnodup hpart
  simp only [reservedLot, hsum, CreditLot.available]
  ring

theorem greedy_of_split {b b' : BillingDb} {authorizationId accountId : String} {credits : ℤ}
    {parts : List (String × ℤ)} (hpos : 0 < credits) (hchecks : ∀ lot ∈ b.lots.rows, lotChecks lot)
    (h : split ((spendable accountId b).map fun lot => (lot.id, lot.available)) credits = some parts)
    (hlots : b'.lots.rows = b.lots.rows.map (reservedLot parts))
    (hallocations : b'.allocations.rows = b.allocations.rows ++
      parts.map fun part => ⟨authorizationId, part.1, accountId, part.2⟩) :
    GreedySplit b b' authorizationId accountId credits parts := by
  set capacities := (spendable accountId b).map fun lot => (lot.id, lot.available) with hcapacities
  have hids : capacities.map (·.1) = (spendable accountId b).map CreditLot.id := by
    simp [hcapacities, Function.comp_def]
  have hnodup : (capacities.map (·.1)).Nodup := hids ▸ nodup_spendable accountId b
  have honce : (parts.map (·.1)).Nodup := (split_sublist hpos h).nodup hnodup
  have hpositive : ∀ c ∈ capacities, 0 < c.2 := by
    intro c hc
    obtain ⟨lot, hlot, rfl⟩ := List.mem_map.mp hc
    exact (mem_spendable hlot).2.2
  have hspendable : ∀ lot ∈ b.lots.rows, lot.id ∈ parts.map (·.1) → lot ∈ spendable accountId b := by
    intro lot hlot hid
    have hmem := (split_sublist hpos h).subset hid
    rw [hids] at hmem
    obtain ⟨l, hl, hlid⟩ := List.mem_map.mp hmem
    have hrow : l ∈ b.lots.rows := Table.mem_of_get? (mem_spendable hl).1
    exact Table.eq_of_mem hrow hlot hlid ▸ hl
  have hdrained : ∀ earlier lot later, lotOrder accountId b = earlier ++ lot :: later →
      lot.id ∈ parts.map (·.1) → ∀ l ∈ earlier, (reservedLot parts l).available = 0 := by
    intro earlier lot later horder hid l hl
    have hlot : lot ∈ b.lots.rows := (mem_lotOrder.mp (horder ▸ List.mem_append_right _ List.mem_cons_self)).1
    have hlrow : l ∈ b.lots.rows := (mem_lotOrder.mp (horder ▸ List.mem_append_left _ hl)).1
    by_cases hopen : l.credited > l.reserved + l.consumed
    · refine available_reservedLot honce ?_
      have hlotOpen : lot ∈ spendable accountId b := hspendable lot hlot hid
      rw [spendable_eq_filter] at hlotOpen
      have hlotOpen :
          (lot.credited > lot.reserved + lot.consumed) := by simpa using (List.mem_filter.mp hlotOpen).2
      have hsplit : capacities =
          (earlier.filter fun lot => lot.credited > lot.reserved + lot.consumed).map
            (fun lot => (lot.id, lot.available)) ++
            (lot.id, lot.available) ::
              (later.filter fun lot => lot.credited > lot.reserved + lot.consumed).map fun lot =>
                (lot.id, lot.available) := by
        rw [hcapacities, spendable_eq_filter, horder]
        simp [hlotOpen]
      refine split_drained hpos hnodup h hsplit hid _ ?_
      exact List.mem_map_of_mem (List.mem_filter.mpr ⟨hl, decide_eq_true hopen⟩)
    · have hbounds := (lotChecks_iff l).mp (hchecks l hlrow)
      have hnot : l.id ∉ parts.map (·.1) := by
        intro hmem
        have hav := (mem_spendable (hspendable l hlrow hmem)).2.2
        simp only [CreditLot.available] at hav
        omega
      have hsum : ((parts.filter (·.1 = l.id)).map (·.2)).sum = 0 := sum_filter_of_notMem hnot
      simp only [reservedLot, hsum, CreditLot.available]
      omega
  refine ⟨hlots, hallocations, sum_split hpos h, honce, fun part hpart => ?_, hdrained, ?_, ?_⟩
  · obtain ⟨hpart, capacity, hmem, hle⟩ := mem_split hpos hpositive h hpart
    obtain ⟨lot, hlot, heq⟩ := List.mem_map.mp hmem
    obtain ⟨hid, rfl⟩ := Prod.mk.inj heq
    obtain ⟨hget, hacc, -⟩ := mem_spendable hlot
    exact ⟨lot, Table.mem_of_get? hget, hid, hacc, hpart, hle⟩
  · obtain ⟨last, hlast⟩ := split_last hpos h
    have hopenLast : ∀ lot ∈ b.lots.rows, lot.id ∈ parts.map (·.1) → 0 < (reservedLot parts lot).available →
        lot.id = last.1 := by
      intro lot hlot hid hopen
      obtain ⟨part, hpart, hpid⟩ := List.mem_map.mp hid
      rcases hlast part hpart with hcapacity | rfl
      · obtain ⟨l, hl, rfl⟩ := List.mem_map.mp hcapacity
        have hsame : l = lot := Table.eq_of_mem (Table.mem_of_get? (mem_spendable hl).1) hlot hpid
        have hzero := available_reservedLot honce (hsame ▸ hpart)
        omega
      · exact hpid.symm
    intro lot hlot lot' hlot' hid hid' hopen hopen'
    exact Table.eq_of_mem hlot hlot'
      ((hopenLast lot hlot hid hopen).trans (hopenLast lot' hlot' hid' hopen').symm)
  · intro lot hlot hkind hid other hother hacc hokind
    have hmem : lot ∈ (b.lots.rows.filter fun lot => lot.accountId = accountId).filter
        (·.kind = .purchase) := by
      have hlacc := (mem_spendable (hspendable lot hlot hid)).2.1
      simp [hlot, hkind, hlacc]
    obtain ⟨before, later, hsplit⟩ := List.append_of_mem hmem
    have horder : lotOrder accountId b =
        ((b.lots.rows.filter fun lot => lot.accountId = accountId).filter (·.kind ≠ .purchase) ++ before) ++
          lot :: later := by
      simp only [lotOrder, hsplit, List.append_assoc]
    refine hdrained _ lot later horder hid other (List.mem_append_left _ ?_)
    simp [hother, hacc, hokind]

/-- Where the lots have the credits, a reservation splits them greedily. -/
theorem reserve_run {d : HostedDb} {authorizationId accountId : String} {credits : ℤ}
    {auth : CreditAuthorization} (hpos : 0 < credits) (hlots : ∀ lot ∈ d.billing.lots.rows, lotChecks lot)
    (hauth : d.billing.authorizations.get? authorizationId = some auth) (hacc : auth.accountId = accountId)
    (hnew : ∀ lotId, d.billing.allocations.get? (authorizationId, lotId) = none)
    (hcover : credits ≤ d.billing.lotBalance accountId) :
    ∃ parts lots allocations,
      split ((spendable accountId d.billing).map fun lot => (lot.id, lot.available)) credits = some parts ∧
      (reserve authorizationId accountId credits).run d =
        .ok ((), { d with billing := { d.billing with lots, allocations } }) ∧
      lots.rows = d.billing.lots.rows.map (reservedLot parts) ∧
      allocations.rows = d.billing.allocations.rows ++
        parts.map fun part => ⟨authorizationId, part.1, accountId, part.2⟩ := by
  set capacities := (spendable accountId d.billing).map fun lot => (lot.id, lot.available) with hcapacities
  have hrun : (reserve authorizationId accountId credits).run d =
      (reserveRows authorizationId accountId capacities credits).run d := by
    simp only [reserve, issue_bind, selectSpendable, Prog.run_mk, applyAll_nil, hcapacities]
  have hrows : Rows d.billing authorizationId accountId capacities := by
    intro row hrow
    obtain ⟨lot, hlot, rfl⟩ := List.mem_map.mp hrow
    obtain ⟨hget, hlacc, hav⟩ := mem_spendable hlot
    exact ⟨hav, hnew lot.id, lot, hget, hlacc, rfl⟩
  have hnodup : (capacities.map (·.1)).Nodup := by
    have := nodup_spendable accountId d.billing
    simpa [hcapacities, Function.comp_def] using this
  have hsum : (capacities.map (·.2)).sum = d.billing.lotBalance accountId := by
    have := sum_spendable hlots accountId
    simpa [hcapacities, Function.comp_def] using this
  have hsplit : (split capacities credits).isSome := by
    rw [split_isSome_iff hpos fun c hc => (hrows c hc).1.le, hsum]
    exact hcover
  obtain ⟨parts, hparts⟩ := Option.isSome_iff_exists.mp hsplit
  obtain ⟨lots, allocations, hok, hlots', hallocations⟩ :=
    (reserveRows_run hpos hrows hnodup hlots hauth hacc).2 parts hparts
  exact ⟨parts, lots, allocations, hparts, hrun.trans hok, hlots', hallocations⟩

/-- A reservation succeeds exactly when the lots of the account have the credits, splits them greedily, and
otherwise raises, so that the transaction around it leaves nothing behind. -/
theorem reserve_greedy (d : HostedDb) (authorizationId accountId : String) (credits : ℤ) (hpos : 1 ≤ credits)
    (hlots : ∀ lot ∈ d.billing.lots.rows, lotChecks lot) {auth : CreditAuthorization}
    (hauth : d.billing.authorizations.get? authorizationId = some auth) (hacc : auth.accountId = accountId)
    (hnew : ∀ lotId, d.billing.allocations.get? (authorizationId, lotId) = none) :
    ((∃ d', (reserve authorizationId accountId credits).run d = .ok ((), d')) ↔
      credits ≤ d.billing.lotBalance accountId) ∧
    (∀ d', (reserve authorizationId accountId credits).run d = .ok ((), d') →
      d' = { d with billing := { d.billing with
        lots := d'.billing.lots, allocations := d'.billing.allocations } } ∧
      ∃ parts, GreedySplit d.billing d'.billing authorizationId accountId credits parts) ∧
    (d.billing.lotBalance accountId < credits →
      ∀ {α β : Type} (before : Procedure α) (after : α → Procedure β) (d₀ : HostedDb) (a : α),
        before.run d₀ = .ok (a, d) →
        (do
          let a ← before
          reserve authorizationId accountId credits
          after a : Procedure β).transaction d₀ = (.error (.value "credit_lot_balance_mismatch"), d₀)) := by
  have hpos' : 0 < credits := by omega
  set capacities := (spendable accountId d.billing).map fun lot => (lot.id, lot.available) with hcapacities
  have hrun : (reserve authorizationId accountId credits).run d =
      (reserveRows authorizationId accountId capacities credits).run d := by
    simp only [reserve, issue_bind, selectSpendable, Prog.run_mk, applyAll_nil, hcapacities]
  have hrows : Rows d.billing authorizationId accountId capacities := by
    intro row hrow
    obtain ⟨lot, hlot, rfl⟩ := List.mem_map.mp hrow
    obtain ⟨hget, hlacc, hav⟩ := mem_spendable hlot
    exact ⟨hav, hnew lot.id, lot, hget, hlacc, rfl⟩
  have hnodup : (capacities.map (·.1)).Nodup := by
    have := nodup_spendable accountId d.billing
    simpa [hcapacities, Function.comp_def] using this
  have hsum : (capacities.map (·.2)).sum = d.billing.lotBalance accountId := by
    have := sum_spendable hlots accountId
    simpa [hcapacities, Function.comp_def] using this
  have hcover : (split capacities credits).isSome ↔ credits ≤ d.billing.lotBalance accountId := by
    rw [← hsum]
    exact split_isSome_iff hpos' fun c hc => (hrows c hc).1.le
  obtain ⟨hnone, hsome⟩ := reserveRows_run hpos' hrows hnodup hlots hauth hacc
  rw [hrun]
  refine ⟨⟨?_, ?_⟩, ?_, ?_⟩
  · rintro ⟨d', hok⟩
    rw [← hcover]
    by_contra hfail
    rw [Option.not_isSome_iff_eq_none] at hfail
    rw [hnone hfail] at hok
    cases hok
  · intro hle
    obtain ⟨parts, hparts⟩ := Option.isSome_iff_exists.mp (hcover.mpr hle)
    obtain ⟨lots, allocations, hok, -⟩ := hsome parts hparts
    exact ⟨_, hok⟩
  · intro d' hok
    cases hparts : split capacities credits with
    | none =>
      rw [hnone hparts] at hok
      cases hok
    | some parts =>
      obtain ⟨lots, allocations, hok', hlots', hallocations'⟩ := hsome parts hparts
      cases hok.symm.trans hok'
      exact ⟨rfl, parts, greedy_of_split hpos' hlots hparts hlots' hallocations'⟩
  · intro hlt α β before after d₀ a hbefore
    have hfail : split capacities credits = none := by
      rw [← Option.not_isSome_iff_eq_none, hcover]
      omega
    refine Prog.transaction_of_error ?_
    rw [Prog.run_bind, hbefore]
    simp only
    rw [Prog.run_bind, hrun, hnone hfail]

/-- A purchase is drawn on only for what two complimentary credits do not cover. -/
theorem reserve_greedy_purchase :
    let lots : Table CreditLot.id :=
      ((∅ : Table _).put ⟨"pack", "account", .purchase, "stripe:1", 5, 0, 0⟩).put
      ⟨"welcome", "account", .grant, "beta-allowance:1", 2, 0, 0⟩
    let authorizations : Table CreditAuthorization.id :=
      (∅ : Table _).put ⟨"authorization", "job", "account", 3, .reserved⟩
    let d : HostedDb := { billing := { lots, authorizations } }
    ((∃ d', (reserve "authorization" "account" 3).run d = .ok ((), d')) ↔
      3 ≤ d.billing.lotBalance "account") ∧
      3 ≤ d.billing.lotBalance "account" :=
  ⟨(reserve_greedy _ "authorization" "account" 3 (by decide) (by decide) rfl rfl fun _ => rfl).1, by decide⟩

end PostgresCreditLots

end KenkuiServer.Storage
