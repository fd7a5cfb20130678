import KenkuiServer.Credits.Legacy
import KenkuiServer.Storage.LegacyLots

/-! Migration 0004 and what follows it: the lots it makes cover every balance and every open
reservation, and the runs of the hosted calls that come after find them so. -/
namespace KenkuiServer.Storage
open Txn Jobs Billing

namespace CreditLotMigration
open BillingDb

/-- A credit store without lots, as the constraints of its columns leave it. -/
structure BeforeLots (b : BillingDb) : Prop where
  lots : b.lots = ∅
  allocations : b.allocations = ∅
  available : ∀ row ∈ b.accounts.rows, 0 ≤ row.availableCredits
  credits : ∀ a ∈ b.authorizations.rows, 0 < a.credits
  account : ∀ a ∈ b.authorizations.rows, (b.accounts.get? a.accountId).isSome

/-- The available and the reserved credits of every account together fit a lot's columns. -/
def Fits (b : BillingDb) : Prop :=
  ∀ row ∈ b.accounts.rows, fitsBigint (row.availableCredits + b.reservedCredits row.id)

/-- The authorizations that a migration of the store allocates, and those made afterwards. -/
def liveAt (b : BillingDb) (id : String) : Bool := !(b.authorizations.get? id).any (·.status ≠ .reserved)

section
variable {b : BillingDb}

theorem liveAt_of_mem {a : CreditAuthorization} (ha : a ∈ b.authorizations.rows) :
    liveAt b a.id = true ↔ a.status = .reserved := by
  simp [liveAt, Table.get?_of_mem ha]

theorem reservedCredits_nonneg (h : BeforeLots b) (accountId : String) : 0 ≤ b.reservedCredits accountId := by
  refine List.sum_nonneg fun x hx => ?_
  obtain ⟨a, ha, rfl⟩ := List.mem_map.mp hx
  exact (h.credits a (List.mem_filter.mp ha).1).le

theorem legacyLot_checks (h : BeforeLots b) {row : AccountRow} (hrow : row ∈ b.accounts.rows) :
    lotChecks (legacyLot b row) := by
  have havailable := h.available row hrow
  have hreserved := reservedCredits_nonneg h row.id
  rw [lotChecks_iff]
  simp only [legacyLot]
  omega

theorem fitsBigint_iff (n : ℤ) :
    fitsBigint n ↔ -9223372036854775808 ≤ n ∧ n ≤ 9223372036854775807 := by
  simp [fitsBigint]

theorem legacyLot_fits (h : BeforeLots b) (hfits : Fits b) {row : AccountRow}
    (hrow : row ∈ b.accounts.rows) :
    fitsBigint (legacyLot b row).credited ∧ fitsBigint (legacyLot b row).reserved := by
  have hsum := hfits row hrow
  have havailable := h.available row hrow
  have hreserved := reservedCredits_nonneg h row.id
  refine ⟨hsum, ?_⟩
  rw [fitsBigint_iff] at hsum ⊢
  simp only [legacyLot]
  omega

/-- The rows that the migration leaves. -/
structure Inserted (b : BillingDb) (lots : Table CreditLot.id)
    (allocations : Table fun r : CreditAllocation => (r.authorizationId, r.lotId)) : Prop where
  lots : lots.rows = b.accounts.rows.map (legacyLot b)
  allocations : allocations.rows = (reservedRows b).map legacyAllocation

theorem migrate_run {d : HostedDb} (h : BeforeLots d.billing) (hfits : Fits d.billing) :
    ∃ lots allocations, migrate.run d = .ok ((), { d with billing := { d.billing with lots, allocations } }) ∧
      Inserted d.billing lots allocations := by
  obtain ⟨lots, hlots, hlotRows⟩ := insertLots_run d.billing d.billing.accounts.rows d
    d.billing.accounts.nodup (by simp [h.lots]) (fun row hrow => legacyLot_fits h hfits hrow)
    (fun row hrow => legacyLot_checks h hrow)
  have hfound : ∀ c ∈ d.billing.authorizations.rows, ∃ lot, lots.get? (legacyId c.accountId) = some lot ∧
      lot.accountId = c.accountId := by
    intro c hc
    obtain ⟨row, hrow⟩ := Option.isSome_iff_exists.mp (h.account c hc)
    have hid : row.id = c.accountId := account_id hrow
    have hmem : legacyLot d.billing row ∈ lots.rows := by
      rw [hlotRows]
      exact List.mem_append_right _ (List.mem_map_of_mem (Table.mem_of_get? hrow))
    have hget := Table.get?_of_mem hmem
    exact ⟨legacyLot d.billing row, by rw [← hid]; exact hget, hid⟩
  have hsublist := (List.filter_sublist (p := fun a : CreditAuthorization => a.status = .reserved)
    (l := d.billing.authorizations.rows)).map CreditAuthorization.id
  obtain ⟨allocations, hallocations, hrows⟩ := insertAllocations_run (reservedRows d.billing)
    { d with billing := { d.billing with lots } } (hsublist.nodup d.billing.authorizations.nodup)
    (by simp [h.allocations]) (fun c hc => h.credits c (List.mem_filter.mp hc).1)
    (fun c hc => Table.get?_of_mem (List.mem_filter.mp hc).1)
    (fun c hc => hfound c (List.mem_filter.mp hc).1)
  refine ⟨lots, allocations, ?_, ?_, ?_⟩
  · simp only [migrate, issue_bind, selectStore, Prog.run_select, Prog.run_bind, hlots, hallocations]
  · simpa [h.lots] using hlotRows
  · simpa [h.allocations] using hrows

section
variable {lots : Table CreditLot.id}
  {allocations : Table fun r : CreditAllocation => (r.authorizationId, r.lotId)}

theorem Inserted.sum_lots (h : Inserted b lots allocations) (p : CreditLot → Bool) (f : CreditLot → ℤ) :
    lots.sumWhere p f =
      b.accounts.sumWhere (fun row => p (legacyLot b row)) fun row => f (legacyLot b row) := by
  simp only [Table.sumWhere, h.lots, List.filter_map, List.map_map, Function.comp_def]

theorem Inserted.sum_allocations (h : Inserted b lots allocations) (p : CreditAllocation → Bool) :
    allocations.sumWhere p CreditAllocation.credits =
      b.authorizations.sumWhere (fun c => p (legacyAllocation c) && decide (c.status = .reserved))
        CreditAuthorization.credits := by
  simp only [Table.sumWhere, h.allocations, reservedRows, List.filter_map, List.map_map,
    List.filter_filter, Function.comp_def]
  rfl

theorem Inserted.mem_allocation (h : Inserted b lots allocations) {r : CreditAllocation}
    (hr : r ∈ allocations.rows) :
    ∃ c ∈ b.authorizations.rows, c.status = .reserved ∧ r = legacyAllocation c ∧
      (b.authorizations.restrict (liveAt b)).get? c.id = some c := by
  rw [h.allocations] at hr
  obtain ⟨c, hc, rfl⟩ := List.mem_map.mp hr
  obtain ⟨hmem, hstatus⟩ := List.mem_filter.mp hc
  have hreserved : c.status = .reserved := by simpa using hstatus
  have hlive := (liveAt_of_mem hmem).mpr hreserved
  exact ⟨c, hmem, hreserved, rfl, (Table.get?_restrict _ hlive).trans (Table.get?_of_mem hmem)⟩

theorem Inserted.mem_lot (h : Inserted b lots allocations) {lot : CreditLot} (hlot : lot ∈ lots.rows) :
    ∃ row ∈ b.accounts.rows, lot = legacyLot b row := by
  rw [h.lots] at hlot
  obtain ⟨row, hrow, rfl⟩ := List.mem_map.mp hlot
  exact ⟨row, hrow, rfl⟩

/-- The lots and allocations of the migration cover every balance and every open reservation. -/
theorem Inserted.balanced (h : Inserted b lots allocations) (hb : BeforeLots b) :
    ({ b with lots, allocations }.since (liveAt b)).Balanced "" "" 0 := by
  set b' := { b with lots, allocations }.since (liveAt b) with hb'
  have hstatus : ∀ c, (b.authorizations.restrict (liveAt b)).get? c.id = some c → c.status = .reserved →
      ∀ s, b'.hasStatus c.id s = decide (s = .reserved) := by
    intro c hget hreserved s
    have hlook : b'.authorizations.get? c.id = some c := hget
    simp only [hasStatus, hlook, Option.any_some, hreserved]
    exact decide_eq_decide.mpr eq_comm
  constructor
  case balance =>
    intro row hrow
    simp only [ite_self, add_zero]
    refine Eq.trans ?_ (h.sum_lots _ _).symm
    have hget : b.accounts.get? row.id = some row := Table.get?_of_mem hrow
    have hsum := Table.sumWhere_key (fun r => (legacyLot b r).available) hget
    refine Eq.trans ?_ hsum.symm
    simp [legacyLot, CreditLot.available]
  case lotAccount =>
    intro lot hlot
    obtain ⟨row, hrow, rfl⟩ := h.mem_lot hlot
    have hget : b.accounts.get? row.id = some row := Table.get?_of_mem hrow
    exact Option.isSome_of_eq_some hget
  case lotBounds =>
    intro lot hlot
    obtain ⟨row, hrow, rfl⟩ := h.mem_lot hlot
    exact legacyLot_checks hb hrow
  case reserved =>
    intro lot hlot
    obtain ⟨row, hrow, rfl⟩ := h.mem_lot hlot
    refine Eq.trans ?_ (h.sum_allocations _).symm
    refine Table.sumWhere_congr fun c hc => ?_
    by_cases hreserved : c.status = .reserved
    · have hlive := (liveAt_of_mem hc).mpr hreserved
      have hget := (Table.get?_restrict b.authorizations hlive).trans (Table.get?_of_mem hc)
      have hown := hstatus c hget hreserved .reserved
      simp [legacyAllocation, legacyLot, legacyId_inj, hreserved, hown]
    · simp [hreserved]
  case consumed =>
    intro lot hlot
    obtain ⟨row, hrow, rfl⟩ := h.mem_lot hlot
    refine Eq.symm (Table.sumWhere_eq_zero fun r hr => ?_)
    obtain ⟨c, -, hreserved, rfl, hget⟩ := h.mem_allocation hr
    have hown := hstatus c hget hreserved .settled
    simp [legacyAllocation, hown]
  case allocated =>
    intro a ha
    obtain ⟨hmem, hlive⟩ := Table.mem_restrict.mp ha
    have hreserved := (liveAt_of_mem hmem).mp hlive
    simp only [ite_self, add_zero]
    refine (h.sum_allocations _).trans ?_
    refine Eq.trans ?_ (Table.sumWhere_key CreditAuthorization.credits (Table.get?_of_mem hmem))
    refine Table.sumWhere_congr fun c hc => ?_
    by_cases hid : c.id = a.id
    · obtain rfl := Table.eq_of_mem hc hmem hid
      simp [legacyAllocation, hreserved]
    · simp [legacyAllocation, hid]
  case owned =>
    intro r hr
    obtain ⟨c, hc, hreserved, rfl, hget⟩ := h.mem_allocation hr
    obtain ⟨row, hrow⟩ := Option.isSome_iff_exists.mp (hb.account c hc)
    have hid : row.id = c.accountId := account_id hrow
    have hlot : lots.get? (legacyId c.accountId) = some (legacyLot b row) := by
      rw [Table.get?_eq_some_iff, h.lots]
      exact ⟨List.mem_map_of_mem (Table.mem_of_get? hrow), congrArg legacyId hid⟩
    exact ⟨hb.credits c hc, ⟨c, hget, rfl⟩, legacyLot b row, hlot, hid⟩

theorem Inserted.migrated (h : Inserted b lots allocations) (hb : BeforeLots b) :
    Migrated (liveAt b) b.ledger { b with lots, allocations } := by
  refine ⟨fun id hdead => ?_, h.balanced hb, fun _ _ he => he⟩
  simp only [liveAt, Bool.not_eq_eq_eq_not, Bool.not_false, Option.any_eq_true, decide_eq_true_eq] at hdead
  exact hdead

end

end

/-- Every balance is covered by lots, every lot's reserved credits by the allocations of open
reservations, and every open reservation is allocated in full. -/
structure Covered (b : BillingDb) : Prop where
  balance : ∀ row ∈ b.accounts.rows, row.availableCredits = b.lots.sumWhere (·.accountId = row.id)
    fun lot => lot.credited - lot.reserved - lot.consumed
  reserved : ∀ lot ∈ b.lots.rows, lot.reserved = b.allocations.sumWhere
    (fun r => r.lotId = lot.id ∧ b.hasStatus r.authorizationId .reserved) CreditAllocation.credits
  allocated : ∀ a ∈ b.authorizations.rows, a.status = .reserved →
    b.allocations.sumWhere (·.authorizationId = a.id) CreditAllocation.credits = a.credits

theorem covered_of_migrated {live : String → Bool} {known : Table LedgerEntry.reference} {b : BillingDb}
    (h : Migrated live known b) : Covered b := by
  have hbalance := h.balanced.balance
  have hallocated := h.balanced.allocated
  simp only [ite_self, add_zero] at hbalance hallocated
  refine ⟨hbalance, fun lot hlot => ?_, fun a ha hreserved => ?_⟩
  · refine (h.balanced.reserved lot hlot).trans (Table.sumWhere_congr (t := b.allocations) fun r hr => ?_)
    obtain ⟨-, ⟨a, ha, -⟩, -⟩ := h.balanced.owned r hr
    have hget : b.authorizations.get? r.authorizationId = some a := by
      have hmem := Table.mem_of_get? ha
      have hkey := Table.key_of_get? ha
      exact (Table.get?_eq_some_iff _ _ _).mpr ⟨(Table.mem_restrict.mp hmem).1, hkey⟩
    have hsame : (b.since live).hasStatus r.authorizationId .reserved =
        b.hasStatus r.authorizationId .reserved :=
      congrArg (Option.any _) (ha.trans hget.symm)
    simp only [hsame]
  · have hlive := h.live_of_reserved (Table.get?_of_mem ha) hreserved
    exact hallocated a (Table.mem_restrict.mpr ⟨ha, hlive⟩)

end CreditLotMigration

end KenkuiServer.Storage

namespace KenkuiServer.Hosted
open Txn Jobs Billing Storage BillingDb CreditLotMigration PostgresBillingRepository

/-- The calls that credit an account, reserve its credits or end a reservation. -/
def Call.movesCredits : Call → Bool
  | .grant .. => true
  | .processPaymentEvent .. => true
  | .reserve .. => true
  | .admitJob .. => true
  | .finalize .. => true
  | _ => false

section
variable {live : String → Bool} {known : Table LedgerEntry.reference} {d : HostedDb}

theorem Call.orderly {call : Call} (h : call.movesCredits = true) :
    Steady live known call.prog := by
  cases call with
  | grant lotId accountId credits reference =>
    exact (grant_orderly lotId accountId credits reference).bind fun _ => Prog.keeps_ret _
  | processPaymentEvent lotId provider providerEventId accountId credits =>
    exact (processPaymentEvent_orderly lotId provider providerEventId accountId credits).bind fun _ =>
      Prog.keeps_ret _
  | reserve authorizationId jobId accountId credits =>
    exact (reserve_orderly authorizationId jobId accountId credits).bind fun _ => Prog.keeps_ret _
  | admitJob authorizationId job dispatch accountId ownerId credits idempotencyKey =>
    exact (admitJob_orderly _ job dispatch accountId ownerId credits idempotencyKey).bind fun _ =>
      Prog.keeps_ret _
  | finalize jobId status => exact (finalize_migrated jobId status).bind fun _ => Prog.keeps_ret _
  | _ => cases h

theorem transaction_ne {I : HostedDb → Prop} {Q : Error → Prop} {α : Type} {p : Procedure α}
    (h : p.Keeps I Q) (hd : I d) {e : Error} (he : ¬ Q e) : (p.transaction d).1 ≠ .error e := by
  have hends := h d hd
  unfold Prog.transaction
  cases hr : p.run d with
  | error e' =>
    rw [hr] at hends
    rintro ⟨⟩
    exact he hends
  | ok r => simp

theorem runAll_migrated (h : Migrated live known d.billing) (calls : List Call) :
    Migrated live known (Call.runAll calls d).billing := by
  refine Call.runAll_keeps (I := fun d => Migrated live known d.billing) (fun call _ d hd => ?_) h
  have hkept := Call.keeping kept_migrated call (fun _ _ => trivial) d hd
  unfold Prog.transaction
  cases hr : call.prog.run d with
  | error e => exact hd
  | ok r =>
    rw [hr] at hkept
    exact hkept

/-- Nothing but payment events was recorded since `d`. -/
def PaymentsOnly (d d' : HostedDb) : Prop :=
  ∃ paymentEvents, d' = { d with billing := { d.billing with paymentEvents } }

theorem processPaymentEvent_known (lotId provider providerEventId accountId : String) (credits : ℤ)
    (hknown : (d.billing.ledger.get? (provider ++ ":" ++ providerEventId)).isSome) :
    PaymentsOnly d ((Call.processPaymentEvent lotId provider providerEventId accountId
      credits).prog.transaction d).2 := by
  have hgrant : (grantLot lotId accountId credits (provider ++ ":" ++ providerEventId) .purchase).Keeps
      (PaymentsOnly d) fun _ => True := by
    rintro d' ⟨paymentEvents, rfl⟩
    exact grantLot_replay ⟨paymentEvents, rfl⟩ hknown trivial trivial
  have hrecord : (insertPaymentEvent provider providerEventId).issue.Keeps (PaymentsOnly d)
    fun _ => True := by
    rintro d' ⟨paymentEvents, rfl⟩
    simp only [run_issue, insertPaymentEvent]
    split_ifs
    · exact ⟨paymentEvents, rfl⟩
    · exact ⟨_, rfl⟩
  have hcall : (Call.processPaymentEvent lotId provider providerEventId accountId credits).prog.Keeps
      (PaymentsOnly d) fun _ => True :=
    Prog.Keeps.bind ((Prog.keeps_raiseIf trivial).bind fun _ => hrecord.bind fun _ => hgrant) fun _ =>
      Prog.keeps_ret _
  have hends := hcall d ⟨d.billing.paymentEvents, rfl⟩
  unfold Prog.transaction
  revert hends
  cases (Call.processPaymentEvent lotId provider providerEventId accountId credits).prog.run d with
  | error e => exact fun _ => ⟨d.billing.paymentEvents, rfl⟩
  | ok r => exact id

end

/-- What every store reached after a migration satisfies, when `known` was the ledger before it. -/
structure Sound (known : Table LedgerEntry.reference) (d : HostedDb) : Prop where
  covered : Covered d.billing
  noMismatch : ∀ call : Call, (call.prog.transaction d).1 ≠ .error balanceMismatch
  noLotCheck : ∀ call : Call, call.movesCredits = true →
    (call.prog.transaction d).1 ≠ .error (.integrity "credit_lots_check")
  creditedOnce : ∀ lotId provider providerEventId accountId credits,
    (known.get? (provider ++ ":" ++ providerEventId)).isSome →
    PaymentsOnly d ((Call.processPaymentEvent lotId provider providerEventId accountId
      credits).prog.transaction d).2

theorem sound_of_migrated {live : String → Bool} {known : Table LedgerEntry.reference} {d : HostedDb}
    (h : Migrated live known d.billing) : Sound known d where
  covered := covered_of_migrated h
  noMismatch call := transaction_ne (Call.keeping kept_migrated call fun _ _ => trivial) h (by simp)
  noLotCheck call hmoves := transaction_ne (Call.orderly hmoves) h fun horderly => horderly.2 rfl
  creditedOnce lotId provider providerEventId accountId credits hknown := by
    obtain ⟨e, he⟩ := Option.isSome_iff_exists.mp hknown
    exact processPaymentEvent_known lotId provider providerEventId accountId credits
      (Option.isSome_of_eq_some (h.entries _ e he))

/-- The migration succeeds and changes neither balances nor authorizations nor the ledger; the lots it
makes cover them, and every later call finds the lots in order. -/
theorem migration_sound {d : HostedDb} (h : BeforeLots d.billing) (hfits : Fits d.billing) :
    ∃ lots allocations,
      let d' : HostedDb := { d with billing := { d.billing with lots, allocations } }
      migrate.run d = .ok ((), d') ∧ Covered d'.billing ∧
        ∀ calls, Sound d.billing.ledger (Call.runAll calls d') := by
  obtain ⟨lots, allocations, hrun, hinserted⟩ := migrate_run h hfits
  have hmigrated := hinserted.migrated h
  refine ⟨lots, allocations, hrun, covered_of_migrated hmigrated, fun calls => ?_⟩
  exact sound_of_migrated (runAll_migrated hmigrated calls)

/-- Eighty credits, a payment of a hundred, and an open reservation of twenty. -/
def oldStore : HostedDb where
  billing :=
    { accounts := (∅ : Table _).put ⟨⟨"account", 80⟩, "identity"⟩
      authorizations := (∅ : Table CreditAuthorization.id).put
        ⟨"authorization", "job", "account", 20, .reserved⟩
      ledger := (∅ : Table LedgerEntry.reference).put ⟨"account", none, .purchase, 100, "stripe:historical"⟩ }

theorem migration_sound_oldStore :
    ∃ lots allocations,
      let d' : HostedDb := { oldStore with billing := { oldStore.billing with lots, allocations } }
      migrate.run oldStore = .ok ((), d') ∧ Covered d'.billing ∧
        ∀ calls, Sound oldStore.billing.ledger (Call.runAll calls d') :=
  migration_sound ⟨rfl, rfl, by decide, by decide, by decide⟩ (by unfold Fits; decide)

/-- As many credits as a balance can hold, and an open reservation of one more. -/
def fullStore : HostedDb where
  billing :=
    { accounts := (∅ : Table _).put ⟨⟨"full", 9223372036854775807⟩, "owner"⟩
      authorizations := (∅ : Table CreditAuthorization.id).put ⟨"open", "work", "full", 1, .reserved⟩ }

/-- Their sum does not fit the column of the lot. -/
theorem migration_overflows :
    BeforeLots fullStore.billing ∧ ¬ ∃ d', migrate.run fullStore = .ok ((), d') := by
  refine ⟨⟨rfl, rfl, by decide, by decide, by decide⟩, ?_⟩
  have hrun : migrate.run fullStore = .error .outOfRange := rfl
  rintro ⟨d', hd'⟩
  rw [hrun] at hd'
  cases hd'

end KenkuiServer.Hosted
