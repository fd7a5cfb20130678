import KenkuiServer.Credits.Finalization

/-! The books of the credit store, and the four changes of rows that keep them: a new account, a
grant, a debit whose lots are allocated afterwards, and the end of a reservation. -/
namespace KenkuiServer.Storage
open Txn Billing

namespace BillingDb

/-- What the ledger and the authorizations say about one another: a job has one authorization, an
entry that ends one agrees with its status, and a release is entered exactly once. -/
structure Recorded (authorizations : Table CreditAuthorization.id)
    (ledger : Table LedgerEntry.reference) : Prop where
  jobs : ∀ a ∈ authorizations.rows, ∀ a' ∈ authorizations.rows, a.jobId = a'.jobId → a = a'
  entries : ∀ e ∈ ledger.rows, ∀ id, e.authorizationId = some id →
    ∃ a, authorizations.get? id = some a ∧ (e.kind = .release → a.status = .released) ∧
      (e.kind = .settlement → a.status = .settled)
  releases : ∀ a ∈ authorizations.rows,
    ledger.sumWhere (fun e => e.authorizationId = some a.id ∧ e.kind = .release) (fun _ => 1) =
      if a.status = .released then 1 else 0

section
variable {authorizations : Table CreditAuthorization.id} {ledger : Table LedgerEntry.reference}
  {entry : LedgerEntry} {auth : CreditAuthorization}

theorem Recorded.grant (h : Recorded authorizations ledger)
    (hentry : ledger.get? entry.reference = none) (hnone : entry.authorizationId = none) :
    Recorded authorizations (ledger.put entry) := by
  refine ⟨h.jobs, fun e he id hid => ?_, fun a ha => ?_⟩
  · rcases (Table.mem_put _ _ _).mp he with rfl | ⟨he, -⟩
    · rw [hnone] at hid
      cases hid
    · exact h.entries e he id hid
  · rw [Table.sumWhere_put_of_none _ _ hentry, h.releases a ha]
    simp [hnone]

theorem Recorded.reserve (h : Recorded authorizations ledger)
    (hentry : ledger.get? entry.reference = none) (hid : authorizations.get? auth.id = none)
    (hjob : ∀ a ∈ authorizations.rows, a.jobId ≠ auth.jobId) (hstatus : auth.status = .reserved)
    (hauth : entry.authorizationId = some auth.id) (hkind : entry.kind = .reservation) :
    Recorded (authorizations.put auth) (ledger.put entry) := by
  refine ⟨fun a ha a' ha' hsame => ?_, fun e he id hid' => ?_, fun a ha => ?_⟩
  · rcases (Table.mem_put _ _ _).mp ha with rfl | ⟨hold, -⟩ <;>
      rcases (Table.mem_put _ _ _).mp ha' with rfl | ⟨hold', -⟩
    · rfl
    · exact absurd hsame.symm (hjob a' hold')
    · exact absurd hsame (hjob a hold)
    · exact h.jobs a hold a' hold' hsame
  · rcases (Table.mem_put _ _ _).mp he with rfl | ⟨he, -⟩
    · rw [hauth] at hid'
      cases hid'
      exact ⟨auth, Table.get?_put_self _ _, by simp [hkind], by simp [hkind]⟩
    · obtain ⟨a, ha, hrest⟩ := h.entries e he id hid'
      have hne : auth.id ≠ id := by rintro rfl; simp [hid] at ha
      exact ⟨a, (Table.get?_put_of_ne _ hne).trans ha, hrest⟩
  · rw [Table.sumWhere_put_of_none _ _ hentry]
    rcases (Table.mem_put _ _ _).mp ha with rfl | ⟨ha, -⟩
    · rw [Table.sumWhere_eq_zero fun e he => ?_]
      · simp [hkind, hstatus]
      · refine decide_eq_false fun hp => ?_
        obtain ⟨a', ha', -⟩ := h.entries e he a.id hp.1
        simp [hid] at ha'
    · rw [h.releases a ha]
      simp [hkind]

theorem Recorded.finalize (h : Recorded authorizations ledger)
    (hentry : ledger.get? entry.reference = none) (hget : authorizations.get? auth.id = some auth)
    (hreserved : auth.status = .reserved) {status : AuthorizationStatus} (hstatus : status ≠ .reserved)
    (hauth : entry.authorizationId = some auth.id)
    (hkind : entry.kind = if status = .released then .release else .settlement) :
    Recorded (authorizations.put { auth with status }) (ledger.put entry) := by
  have hmem := Table.mem_of_get? hget
  refine ⟨fun a ha a' ha' hsame => ?_, fun e he id hid => ?_, fun a ha => ?_⟩
  · rcases (Table.mem_put _ _ _).mp ha with rfl | ⟨hold, hne⟩ <;>
      rcases (Table.mem_put _ _ _).mp ha' with rfl | ⟨hold', hne'⟩
    · rfl
    · exact absurd (congrArg CreditAuthorization.id (h.jobs auth hmem a' hold' hsame)).symm hne'
    · exact absurd (congrArg CreditAuthorization.id (h.jobs a hold auth hmem hsame)) hne
    · exact h.jobs a hold a' hold' hsame
  · rcases (Table.mem_put _ _ _).mp he with rfl | ⟨he, -⟩
    · rw [hauth] at hid
      cases hid
      refine ⟨_, Table.get?_put_self _ { auth with status }, ?_⟩
      cases status <;> simp_all
    · obtain ⟨a, ha, hrel, hset⟩ := h.entries e he id hid
      by_cases hsame : auth.id = id
      · subst hsame
        cases hget.symm.trans ha
        refine ⟨_, Table.get?_put_self _ { auth with status }, fun hk => ?_, fun hk => ?_⟩
        · simp [hreserved] at hrel
          exact absurd hk hrel
        · simp [hreserved] at hset
          exact absurd hk hset
      · exact ⟨a, by rw [Table.get?_put, if_neg hsame, ha], hrel, hset⟩
  · rw [Table.sumWhere_put_of_none _ _ hentry]
    rcases (Table.mem_put _ _ _).mp ha with rfl | ⟨ha, hne⟩
    · have hold := h.releases auth hmem
      simp only [hreserved, reduceCtorEq, if_false] at hold
      simp only [hold, hauth]
      cases status <;> simp_all
    · rw [h.releases a ha]
      simp [hauth, Ne.symm (show a.id ≠ auth.id from hne)]

end

/-- The books: every balance is covered by lots and explained by the ledger. -/
structure Books (b : BillingDb) : Prop where
  balanced : b.Balanced "" "" 0
  ledger : ∀ row ∈ b.accounts.rows, row.availableCredits = b.ledgerBalance row.id
  entryAccount : ∀ e ∈ b.ledger.rows, (b.accounts.get? e.accountId).isSome
  recorded : Recorded b.authorizations b.ledger

variable {b : BillingDb}

theorem ledgerBalance_putEntry {entry : LedgerEntry} (h : b.ledger.get? entry.reference = none)
    (a : String) :
    ((BillingWrite.ledger entry).apply b).ledgerBalance a =
      b.ledgerBalance a + if entry.accountId = a then entry.credits else 0 := by
  simp only [ledgerBalance, BillingWrite.ledger_apply, Table.sumWhere_put_of_none _ _ h,
    decide_eq_true_eq]

theorem lotBalance_putNewLot {lot : CreditLot} (h : b.lots.get? lot.id = none) (a : String) :
    ((BillingWrite.lot lot).apply b).lotBalance a =
      b.lotBalance a + if lot.accountId = a then lot.available else 0 := by
  simp only [lotBalance, BillingWrite.lots_apply, Table.sumWhere_put_of_none _ _ h, decide_eq_true_eq]

theorem get?_accounts_put_isSome {row : AccountRow} {id : String} (h : (b.accounts.get? id).isSome) :
    ((b.accounts.put row).get? id).isSome := by
  rw [Table.get?_put]
  split_ifs
  · rfl
  · exact h

theorem Balanced.openAccount (h : b.Balanced "" "" 0) {id : String} (identityId : String)
    (hnew : b.accounts.get? id = none) :
    ((BillingWrite.account { id, availableCredits := 0, identityId }).apply b).Balanced "" "" 0 := by
  have hlots : b.lotBalance id = 0 := Table.sumWhere_eq_zero fun lot hlot => by
    have hsome := h.lotAccount lot hlot
    refine decide_eq_false fun hid => ?_
    simp [hid, hnew] at hsome
  have hb := h.balance
  simp only [ite_self, add_zero] at hb
  refine ⟨?_, fun lot hlot => get?_accounts_put_isSome (h.lotAccount lot hlot), h.lotBounds, h.reserved,
    h.consumed, h.allocated,
    fun r hr => (h.owned r hr).mono (fun _ a ha => ⟨a, ha, rfl⟩) fun _ l hl => ⟨l, hl, rfl⟩⟩
  intro row hrow
  simp only [BillingWrite.accounts_apply, Table.mem_put] at hrow
  simp only [ite_self, add_zero]
  rcases hrow with rfl | ⟨hrow, -⟩
  · exact hlots.symm
  · exact hb row hrow

theorem Books.openAccount (h : b.Books) {id identityId : String} (hnew : b.accounts.get? id = none) :
    ((BillingWrite.account { id, availableCredits := 0, identityId }).apply b).Books := by
  have hledger : b.ledgerBalance id = 0 := Table.sumWhere_eq_zero fun e he => by
    have hsome := h.entryAccount e he
    refine decide_eq_false fun hid => ?_
    simp [hid, hnew] at hsome
  refine ⟨h.balanced.openAccount identityId hnew, ?_,
    fun e he => get?_accounts_put_isSome (h.entryAccount e he), h.recorded⟩
  intro row hrow
  simp only [BillingWrite.accounts_apply, Table.mem_put] at hrow
  rcases hrow with rfl | ⟨hrow, -⟩
  · exact hledger.symm
  · exact h.ledger row hrow

/-- The ledger and the payment events do not matter to the balance. -/
theorem Balanced.aside {accountId authorizationId : String} {owed : ℤ}
    (h : b.Balanced accountId authorizationId owed) (ledger : Table LedgerEntry.reference)
    (paymentEvents : Table fun r : PaymentEventRow => (r.provider, r.providerEventId)) :
    { b with ledger, paymentEvents }.Balanced accountId authorizationId owed :=
  ⟨h.balance, h.lotAccount, h.lotBounds, h.reserved, h.consumed, h.allocated,
    fun r hr => (h.owned r hr).mono (fun _ a ha => ⟨a, ha, rfl⟩) fun _ l hl => ⟨l, hl, rfl⟩⟩

theorem putAccount_self {row : AccountRow} (h : b.accounts.get? row.id = some row) :
    (BillingWrite.account row).apply b = b := by
  have hput : b.accounts.put row = b.accounts := Table.put_get? h
  simp only [BillingWrite.apply, hput]

theorem Books.recordPayment (h : b.Books) (row : PaymentEventRow) :
    ((BillingWrite.paymentEvent row).apply b).Books :=
  ⟨h.balanced.aside _ _, h.ledger, h.entryAccount, h.recorded⟩

theorem held_eq_zero (h : b.Balanced "" "" 0) {lotId : String} (hnew : b.lots.get? lotId = none)
    (s : AuthorizationStatus) : b.held lotId s = 0 :=
  Table.sumWhere_eq_zero fun r hr => by
    obtain ⟨lot, hlot, -⟩ := (h.owned r hr).lot
    refine decide_eq_false fun hp => ?_
    simp [hp.1, hnew] at hlot

/-- A ledger entry closes the books on a change of one account's balance. -/
theorem Balanced.books {accountId authorizationId : String} {row : AccountRow} {b₀ : BillingDb}
    (entry : LedgerEntry) (h : b.Balanced accountId authorizationId 0) (h₀ : b₀.Books)
    (hrow : b₀.accounts.get? row.id = some row)
    (haccounts : b.accounts =
      b₀.accounts.put { row with availableCredits := row.availableCredits + entry.credits })
    (hledger : b.ledger = b₀.ledger) (hentry : b.ledger.get? entry.reference = none)
    (hacc : entry.accountId = row.id) (hrecorded : Recorded b.authorizations (b₀.ledger.put entry)) :
    ((BillingWrite.ledger entry).apply b).Books := by
  refine ⟨(h.of_zero "" "").aside _ _, fun r hr => ?_, fun e he => ?_, by simpa [hledger] using hrecorded⟩
  · rw [ledgerBalance_putEntry hentry, hacc]
    have hsame : b.ledgerBalance r.id = b₀.ledgerBalance r.id := by simp only [ledgerBalance, hledger]
    rw [BillingWrite.accounts_apply] at hr
    simp only [haccounts, Table.mem_put] at hr
    rw [hsame]
    rcases hr with rfl | ⟨hr, hne⟩
    · simpa using h₀.ledger row (Table.mem_of_get? hrow)
    · simpa [Ne.symm hne] using h₀.ledger r hr
  · simp only [BillingWrite.ledger_apply, Table.mem_put, hledger] at he
    simp only [BillingWrite.accounts_apply, haccounts]
    rcases he with rfl | ⟨he, -⟩
    · exact get?_accounts_put_isSome (by simp [hacc, hrow])
    · exact get?_accounts_put_isSome (h₀.entryAccount e he)

/-- A new lot, and the account's balance raised by its credits. -/
def granted (b : BillingDb) (row : AccountRow) (lot : CreditLot) : BillingDb :=
  (BillingWrite.account { row with availableCredits := row.availableCredits + lot.credited }).apply
    ((BillingWrite.lot lot).apply b)

theorem Balanced.grant (h : b.Balanced "" "" 0) {row : AccountRow} (lot : CreditLot)
    (hrow : b.accounts.get? row.id = some row) (hlot : b.lots.get? lot.id = none)
    (hlacc : lot.accountId = row.id) (hunused : lot.reserved = 0 ∧ lot.consumed = 0)
    (hchecks : lotChecks lot) : (b.granted row lot).Balanced "" "" 0 := by
  have hlots : ∀ a, (b.granted row lot).lotBalance a =
      b.lotBalance a + if row.id = a then lot.credited else 0 := by
    intro a
    refine (lotBalance_putNewLot hlot a).trans ?_
    simp only [hlacc, CreditLot.available, hunused.1, hunused.2, sub_zero]
  have hb := h.balance
  simp only [ite_self, add_zero] at hb
  refine ⟨fun r hr => ?_, fun l hl => ?_, fun l hl => ?_, fun l hl => ?_, fun l hl => ?_, h.allocated,
    fun r hr => ?_⟩
  · simp only [ite_self, add_zero]
    rw [hlots]
    rcases (Table.mem_put _ _ _).mp hr with rfl | ⟨hr, hne⟩
    · simp [hb row (Table.mem_of_get? hrow)]
    · simp [Ne.symm (show r.id ≠ row.id from hne), hb r hr]
  · rcases (Table.mem_put _ _ _).mp hl with rfl | ⟨hl, -⟩
    · exact get?_accounts_put_isSome (by simp [hlacc, hrow])
    · exact get?_accounts_put_isSome (h.lotAccount l hl)
  · rcases (Table.mem_put _ _ _).mp hl with rfl | ⟨hl, -⟩
    · exact hchecks
    · exact h.lotBounds l hl
  · rcases (Table.mem_put _ _ _).mp hl with rfl | ⟨hl, -⟩
    · exact hunused.1.trans (held_eq_zero h hlot .reserved).symm
    · exact h.reserved l hl
  · rcases (Table.mem_put _ _ _).mp hl with rfl | ⟨hl, -⟩
    · exact hunused.2.trans (held_eq_zero h hlot .settled).symm
    · exact h.consumed l hl
  · refine (h.owned r hr).mono (fun _ a ha => ⟨a, ha, rfl⟩) fun id l hl => ⟨l, ?_, rfl⟩
    have hne : lot.id ≠ id := by rintro rfl; simp [hlot] at hl
    exact (Table.get?_put_of_ne _ hne).trans hl

/-- The account debited and the authorization inserted, with nothing allocated yet. -/
def debited (b : BillingDb) (row : AccountRow) (auth : CreditAuthorization) : BillingDb :=
  (BillingWrite.authorization auth).apply
    ((BillingWrite.account { row with availableCredits := row.availableCredits - auth.credits }).apply b)

theorem allocation_eq_none (h : b.Balanced "" "" 0) {id : String}
    (hnew : b.authorizations.get? id = none) : ∀ r ∈ b.allocations.rows, r.authorizationId ≠ id := by
  intro r hr hid
  obtain ⟨a, ha, -⟩ := (h.owned r hr).authorization
  simp [hid, hnew] at ha

theorem Balanced.debit (h : b.Balanced "" "" 0) {row : AccountRow} (auth : CreditAuthorization)
    (hrow : b.accounts.get? row.id = some row) (hnew : b.authorizations.get? auth.id = none) :
    (b.debited row auth).Balanced row.id auth.id auth.credits := by
  have hb := h.balance
  have ha := h.allocated
  simp only [ite_self, add_zero] at hb ha
  have hnone := allocation_eq_none h hnew
  have hstatus : ∀ r ∈ b.allocations.rows, ∀ s,
      (b.debited row auth).hasStatus r.authorizationId s = b.hasStatus r.authorizationId s := by
    intro r hr s
    exact congrArg (Option.any _) (Table.get?_put_of_ne b.authorizations (Ne.symm (hnone r hr)))
  have hheld : ∀ lotId s, (b.debited row auth).held lotId s = b.held lotId s := fun lotId s =>
    Table.sumWhere_congr (t := b.allocations) fun r hr => by simp [hstatus r hr s]
  refine ⟨?_, fun l hl => get?_accounts_put_isSome (h.lotAccount l hl), h.lotBounds, fun l hl => ?_,
    fun l hl => ?_, ?_, ?_⟩
  · intro r hr
    have hsame : (b.debited row auth).lotBalance r.id = b.lotBalance r.id := rfl
    rw [hsame]
    rcases (Table.mem_put _ _ _).mp hr with rfl | ⟨hr, hne⟩
    · simpa using hb row (Table.mem_of_get? hrow)
    · simpa [show r.id ≠ row.id from hne] using hb r hr
  · exact (h.reserved l hl).trans (hheld l.id .reserved).symm
  · exact (h.consumed l hl).trans (hheld l.id .settled).symm
  · intro a hmem
    rcases (Table.mem_put _ _ _).mp hmem with rfl | ⟨hmem, hne⟩
    · have hzero : (b.debited row a).allocated a.id = 0 :=
        Table.sumWhere_eq_zero (t := b.allocations) fun r hr => by simpa using hnone r hr
      simp [hzero]
    · have hsame : (b.debited row auth).allocated a.id = b.allocated a.id := rfl
      simp [hsame, show a.id ≠ auth.id from hne, ha a hmem]
  · intro r hr
    refine (h.owned r hr).mono (fun id a haid => ⟨a, ?_, rfl⟩) fun _ l hl => ⟨l, hl, rfl⟩
    have hne : auth.id ≠ id := by rintro rfl; simp [hnew] at haid
    exact (Table.get?_put_of_ne _ hne).trans haid

/-- A reservation ended: the lots rewritten, the authorization's new status, and the refund. -/
def finalized (b : BillingDb) (lots : Table CreditLot.id) (auth : CreditAuthorization)
    (status : AuthorizationStatus) (row : AccountRow) (refund : ℤ) : BillingDb :=
  (BillingWrite.account { row with availableCredits := row.availableCredits + refund }).apply
    ((BillingWrite.authorization { auth with status }).apply { b with lots })

section
open PostgresCreditLots
variable {auth : CreditAuthorization} {status : AuthorizationStatus} {lots : Table CreditLot.id}
  {row : AccountRow} {refund : ℤ}

theorem refund_zero (hrow : b.accounts.get? row.id = some row) :
    b.accounts.put { row with availableCredits := row.availableCredits + 0 } = b.accounts := by
  rw [add_zero]
  exact Table.put_get? hrow

theorem finalized_zero (hrow : b.accounts.get? row.id = some row) :
    b.finalized lots auth status row 0 =
      (BillingWrite.authorization { auth with status }).apply { b with lots } := by
  simp only [finalized, BillingWrite.apply, refund_zero hrow]

theorem held_finalized (hauth : b.authorizations.get? auth.id = some auth)
    (hreserved : auth.status = .reserved) (hstatus : status ≠ .reserved) (lotId : String) :
    (b.finalized lots auth status row refund).held lotId .reserved =
        b.held lotId .reserved - b.allocatedOn auth.id lotId ∧
      (b.finalized lots auth status row refund).held lotId .settled =
        b.held lotId .settled + if status = .settled then b.allocatedOn auth.id lotId else 0 := by
  have h := held_putAuthorization (b := { b with lots }) hauth status lotId
  constructor
  · refine (h .reserved).trans ?_
    simp only [hreserved, hstatus, if_true, if_false, add_zero]
    rfl
  · refine (h .settled).trans ?_
    simp only [hreserved, reduceCtorEq, if_false, sub_zero]
    rfl

theorem Balanced.finalize (h : b.Balanced "" "" 0) (refund : ℤ)
    (hauth : b.authorizations.get? auth.id = some auth) (hreserved : auth.status = .reserved)
    (hstatus : status ≠ .reserved) (hlots : lots.rows = b.lots.rows.map
      (finalizedLot status (b.allocationRows auth.id auth.accountId)))
    (hbalance : ∀ a, { b with lots }.lotBalance a = b.lotBalance a + if row.id = a then refund else 0)
    (hrow : b.accounts.get? row.id = some row) :
    (b.finalized lots auth status row refund).Balanced "" "" 0 := by
  have hb := h.balance
  have ha := h.allocated
  simp only [ite_self, add_zero] at hb ha
  have hpos : ∀ r ∈ b.allocations.rows, 0 < r.credits := fun r hr => (h.owned r hr).pos
  have hamount := sum_allocationRows_filter hauth h.owned
  have hlot : ∀ l ∈ lots.rows, ∃ old ∈ b.lots.rows, l = { old with
      reserved := old.reserved - b.allocatedOn auth.id old.id
      consumed := old.consumed + if status = .settled then b.allocatedOn auth.id old.id else 0 } := by
    intro l hl
    rw [hlots] at hl
    obtain ⟨old, hold, rfl⟩ := List.mem_map.mp hl
    exact ⟨old, hold, by simp only [finalizedLot, hamount]⟩
  refine ⟨fun r hr => ?_, fun l hl => ?_, fun l hl => ?_, fun l hl => ?_, fun l hl => ?_,
    fun a hmem => ?_, fun r hr => ?_⟩
  · simp only [ite_self, add_zero]
    refine Eq.trans ?_ (hbalance r.id).symm
    rcases (Table.mem_put _ _ _).mp hr with rfl | ⟨hr, hne⟩
    · simpa using hb row (Table.mem_of_get? hrow)
    · simpa [Ne.symm (show r.id ≠ row.id from hne)] using hb r hr
  · obtain ⟨old, hold, rfl⟩ := hlot l hl
    exact get?_accounts_put_isSome (h.lotAccount old hold)
  · obtain ⟨old, hold, rfl⟩ := hlot l hl
    have hbounds := (lotChecks_iff old).mp (h.lotBounds old hold)
    have hon : 0 ≤ b.allocatedOn auth.id old.id := sumWhere_allocations_nonneg hpos _
    have hothers : 0 ≤ b.heldByOthers auth.id old.id .reserved := sumWhere_allocations_nonneg hpos _
    have hheld := held_eq auth hauth old.id .reserved
    rw [if_pos hreserved, ← h.reserved old hold] at hheld
    rw [lotChecks_iff]
    simp only
    split_ifs <;> omega
  · obtain ⟨old, hold, rfl⟩ := hlot l hl
    simp only [(held_finalized hauth hreserved hstatus old.id).1, h.reserved old hold]
  · obtain ⟨old, hold, rfl⟩ := hlot l hl
    simp only [(held_finalized hauth hreserved hstatus old.id).2, h.consumed old hold]
  · simp only [ite_self, add_zero]
    rcases (Table.mem_put _ _ _).mp hmem with rfl | ⟨hmem, -⟩
    · exact ha auth (Table.mem_of_get? hauth)
    · exact ha a hmem
  · refine (h.owned r hr).mono (fun id a hid => ?_) fun id l hl => ?_
    · by_cases hne : auth.id = id
      · subst hne
        cases hauth.symm.trans hid
        exact ⟨_, Table.get?_put_self _ _, rfl⟩
      · exact ⟨a, by simp [finalized, Table.get?_put, hne, hid], rfl⟩
    · have hmem : finalizedLot status (b.allocationRows auth.id auth.accountId) l ∈ lots.rows :=
        hlots ▸ List.mem_map_of_mem (Table.mem_of_get? hl)
      have hid : l.id = id := Table.key_of_get? hl
      exact ⟨_, (lots.get?_eq_some_iff id _).mpr ⟨hmem, hid⟩, rfl⟩

end

end BillingDb

end KenkuiServer.Storage
