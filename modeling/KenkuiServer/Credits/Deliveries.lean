import KenkuiServer.Billing.Fulfilment
import KenkuiServer.Credits.InMemory

/-! The webhook over its deliveries, on either credit repository: a session is credited once, for exactly
what was bought, and a later delivery of it changes nothing. -/
namespace KenkuiServer.Storage.PostgresBillingRepository
open Txn Billing

section
variable {d d' : HostedDb} {lotId accountId : String} {credits : ℤ} {a : CreditAccount}

/-- The store in which a payment is recorded is otherwise the same. -/
structure PaymentRecorded (key : String × String) (d d' : HostedDb) : Prop where
  accounts : d'.billing.accounts = d.billing.accounts
  ledger : d'.billing.ledger = d.billing.ledger
  lots : d'.billing.lots = d.billing.lots
  event : (d'.billing.paymentEvents.get? key).isSome
  events : ∀ key, (d.billing.paymentEvents.get? key).isSome → (d'.billing.paymentEvents.get? key).isSome
  known : (d.billing.paymentEvents.get? key).isSome → d' = d

theorem processPaymentEvent_run (d : HostedDb) (lotId provider providerEventId accountId : String)
    (hpos : ¬ credits < 1) :
    ∃ d₁, PaymentRecorded (provider, providerEventId) d d₁ ∧
      (processPaymentEvent lotId provider providerEventId accountId credits).run d =
        (grantLot lotId accountId credits (provider ++ ":" ++ providerEventId) .purchase).run d₁ := by
  cases hevent : d.billing.paymentEvents.get? (provider, providerEventId) with
  | some event =>
    refine ⟨d, ⟨rfl, rfl, rfl, by rw [hevent]; rfl, fun _ h => h, fun _ => rfl⟩, ?_⟩
    simp [processPaymentEvent, hpos, insertPaymentEvent, hevent]
  | none =>
    refine ⟨apply (Write.billing (.paymentEvent ⟨provider, providerEventId⟩)) d,
      ⟨rfl, rfl, rfl, ?_, ?_, ?_⟩, ?_⟩
    · have hput := d.billing.paymentEvents.get?_put_self ⟨provider, providerEventId⟩
      exact Option.isSome_iff_exists.mpr ⟨_, hput⟩
    · intro key hkey
      change ((d.billing.paymentEvents.put ⟨provider, providerEventId⟩).get? key).isSome
      rw [Table.get?_put]
      split_ifs
      · rfl
      · exact hkey
    · rw [hevent]
      intro hfalse
      cases hfalse
    · simp [processPaymentEvent, hpos, insertPaymentEvent, hevent]

theorem processPaymentEvent_positive {provider providerEventId : String}
    (h : (processPaymentEvent lotId provider providerEventId accountId credits).run d = .ok (a, d')) :
    ¬ credits < 1 := (Prog.run_raiseIf_ok h).1

end

end KenkuiServer.Storage.PostgresBillingRepository

namespace KenkuiServer.Billing
open Data Txn Storage

/-- The repository behind the billing service. -/
inductive Repository
  | postgres (d : HostedDb)
  | inMemory (m : InMemoryBillingRepository)

namespace Repository

/-- `process_payment_event`, with the identifier that a new lot gets. -/
def processPaymentEvent (lotId provider providerEventId accountId : String) (credits : ℤ) :
    Repository → Except Error CreditAccount × Repository
  | postgres d =>
    ((PostgresBillingRepository.processPaymentEvent lotId provider providerEventId accountId
      credits).transaction d).map
      id postgres
  | inMemory m =>
    (InMemoryBillingRepository.processPaymentEvent lotId provider providerEventId accountId
      credits m).map id inMemory

/-- The balance of an account. -/
def availableCredits (accountId : String) : Repository → ℤ
  | postgres d => ((d.billing.accounts.get? accountId).map (·.availableCredits)).getD 0
  | inMemory m => (m.account accountId).availableCredits

/-- A session is recorded with the account and the credits it bought. -/
def Granted (sessionId accountId : String) (credits : ℤ) : Repository → Prop
  | postgres d =>
    (d.billing.accounts.get? accountId).isSome ∧ (d.billing.paymentEvents.get? ("stripe", sessionId)).isSome ∧
      ∃ entry, d.billing.ledger.get? ("stripe:" ++ sessionId) = some entry ∧
        (entry.accountId, entry.credits) = (accountId, credits)
  | inMemory m =>
    "stripe:" ++ sessionId ∈ m.references ∧ ("stripe", sessionId) ∈ m.processedPaymentEvents ∧
      ∃ lot, m.lots.rows.find? (·.reference = "stripe:" ++ sessionId) = some lot ∧
        (lot.accountId, lot.credited, lot.kind) = (accountId, credits, .purchase)

/-- No lot has the identifier. -/
def Unused (lotId : String) : Repository → Prop
  | postgres d => d.billing.lots.get? lotId = none
  | inMemory m => m.lots.get? lotId = none

/-- The fake knows the references of its lots. -/
def Sound : Repository → Prop
  | postgres _ => True
  | inMemory m => ∀ lot ∈ m.lots.rows, lot.reference ∈ m.references

/-- The same repository; the processed events of the fake are a set. -/
inductive Same : Repository → Repository → Prop
  | postgres (d : HostedDb) : Same (postgres d) (postgres d)
  | inMemory (m : InMemoryBillingRepository) (events : List (String × String))
      (same : ∀ event, event ∈ events ↔ event ∈ m.processedPaymentEvents) :
      Same (inMemory m) (inMemory { m with processedPaymentEvents := events })

/-- Nothing has the reference of a session yet; the account is one of the store, which has no negative
balance. -/
def Unpaid (sessionId accountId : String) : Repository → Prop
  | postgres d =>
    (∃ row, d.billing.accounts.get? accountId = some row ∧ 0 ≤ row.availableCredits) ∧
      d.billing.ledger.get? ("stripe:" ++ sessionId) = none ∧
      ∀ lot ∈ d.billing.lots.rows, lot.reference ≠ "stripe:" ++ sessionId
  | inMemory m => "stripe:" ++ sessionId ∉ m.references

/-- The balances differ by what one account was credited. -/
def Credited (r r' : Repository) (accountId : String) (credits : ℤ) : Prop :=
  ∀ a, r'.availableCredits a = r.availableCredits a + if a = accountId then credits else 0

/-- The balances are as before. -/
def Unmoved (r r' : Repository) : Prop := ∀ a, r'.availableCredits a = r.availableCredits a

/-- What a call leaves, when it returned: the session is recorded, and was recorded or is credited. -/
structure Processed (sessionId accountId : String) (credits : ℤ) (r r' : Repository) : Prop where
  granted : r'.Granted sessionId accountId credits
  balances : (¬ r.Unpaid sessionId accountId ∧ r.Unmoved r') ∨
    (∀ a c, ¬ r.Granted sessionId a c) ∧ r.Credited r' accountId credits

/-- What no call undoes. -/
structure Onward (lotId : String) (r r' : Repository) : Prop where
  sound : r.Sound → r'.Sound
  unused : ∀ id, id ≠ lotId → r.Unused id → r'.Unused id
  granted : ∀ sessionId a c, r.Granted sessionId a c → r'.Granted sessionId a c

variable {r r' : Repository} {lotId sessionId accountId : String} {credits : ℤ}

theorem Onward.refl (r : Repository) (lotId : String) : Onward lotId r r :=
  ⟨fun h => h, fun _ _ h => h, fun _ _ _ h => h⟩

theorem stripe_reference (sessionId : String) : "stripe" ++ ":" ++ sessionId = "stripe:" ++ sessionId := rfl

section
variable {d d' : HostedDb} {a : CreditAccount}

theorem processed_postgres
    (h : (PostgresBillingRepository.processPaymentEvent lotId "stripe" sessionId accountId credits).run d =
      .ok (a, d')) :
    Processed sessionId accountId credits (postgres d) (postgres d') ∧
      Onward lotId (postgres d) (postgres d') := by
  have hpos := PostgresBillingRepository.processPaymentEvent_positive h
  obtain ⟨d₁, hrecorded, hrun⟩ := PostgresBillingRepository.processPaymentEvent_run d lotId "stripe"
    sessionId accountId hpos
  rw [hrun, stripe_reference] at h
  obtain ⟨row, hrow, hfound | hnew⟩ := PostgresBillingRepository.grantLot_run_ok h
  · obtain ⟨entry, hentry, hsame, rfl⟩ := hfound
    rw [hrecorded.accounts] at hrow
    have hunmoved : (postgres d).Unmoved (postgres d') := by
      intro account
      simp only [availableCredits, hrecorded.accounts]
    have haccount : (d'.billing.accounts.get? accountId).isSome := by
      rw [hrecorded.accounts, hrow]
      rfl
    have hpaid : ¬ (postgres d).Unpaid sessionId accountId := by
      rintro ⟨-, hnone, -⟩
      rw [← hrecorded.ledger, hentry] at hnone
      cases hnone
    refine ⟨⟨⟨haccount, hrecorded.event, entry, hentry, hsame⟩, Or.inl ⟨hpaid, hunmoved⟩⟩, fun _ =>
      trivial, ?_, ?_⟩
    · intro id _ hunused
      simp only [Unused, hrecorded.lots]
      exact hunused
    · rintro session account amount ⟨hknown, hevent, hledger⟩
      simp only [Granted, hrecorded.accounts, hrecorded.ledger]
      exact ⟨hknown, hrecorded.events _ hevent, hledger⟩
  · obtain ⟨hfresh, hafter⟩ := hnew
    have hid : row.id = accountId := BillingDb.account_id hrow
    have haccounts : d'.billing.accounts =
        d.billing.accounts.put { row with availableCredits := row.availableCredits + credits } := by
      rw [hafter, ← hrecorded.accounts]
    have hledger : d'.billing.ledger =
        d.billing.ledger.put ⟨accountId, none, .purchase, credits, "stripe:" ++ sessionId⟩ := by
      rw [hafter, ← hrecorded.ledger]
    have hlots : d'.billing.lots =
        d.billing.lots.put ⟨lotId, accountId, .purchase, "stripe:" ++ sessionId, credits, 0, 0⟩ := by
      rw [hafter, ← hrecorded.lots]
    have hevents : d'.billing.paymentEvents = d₁.billing.paymentEvents := by
      rw [hafter]
    rw [hrecorded.accounts] at hrow
    rw [hrecorded.ledger] at hfresh
    have hgranted : (postgres d').Granted sessionId accountId credits := by
      refine ⟨?_, hevents ▸ hrecorded.event,
        ⟨accountId, none, .purchase, credits, "stripe:" ++ sessionId⟩, ?_, rfl⟩
      · rw [haccounts]
        exact BillingDb.get?_accounts_put_isSome (by rw [hrow]; rfl)
      · rw [hledger]
        exact Table.get?_put_self _ _
    have hnone : ∀ account amount, ¬ (postgres d).Granted sessionId account amount := by
      rintro account amount ⟨-, -, entry, hentry, -⟩
      rw [hfresh] at hentry
      cases hentry
    have hcredited : (postgres d).Credited (postgres d') accountId credits := by
      intro account
      simp only [availableCredits, haccounts, Table.get?_put, hid]
      by_cases haccount : accountId = account
      · rw [if_pos haccount, if_pos haccount.symm, ← haccount, hrow]
        rfl
      · rw [if_neg haccount, if_neg (Ne.symm haccount), add_zero]
    refine ⟨⟨hgranted, Or.inr ⟨hnone, hcredited⟩⟩, fun _ => trivial, ?_, ?_⟩
    · intro id hne hunused
      simp only [Unused, hlots]
      rw [Table.get?_put_of_ne _ (Ne.symm hne)]
      exact hunused
    · rintro session account amount ⟨hknown, hevent, entry, hentry, hsame⟩
      refine ⟨?_, hevents ▸ hrecorded.events _ hevent, entry, ?_, hsame⟩
      · rw [haccounts]
        exact BillingDb.get?_accounts_put_isSome hknown
      · have hne : "stripe:" ++ sessionId ≠ "stripe:" ++ session := by
          intro heq
          rw [← heq, hfresh] at hentry
          cases hentry
        have hother := Table.get?_put_of_ne d.billing.ledger
          (show LedgerEntry.reference ⟨accountId, none, .purchase, credits,
            "stripe:" ++ sessionId⟩ ≠ _ from hne)
        rw [hledger, hother]
        exact hentry

theorem replayed_postgres (lotId : String) (h : (postgres d).Granted sessionId accountId credits)
    (hpos : 1 ≤ credits) :
    ∃ a, (PostgresBillingRepository.processPaymentEvent lotId "stripe" sessionId accountId credits).run d =
      .ok (a, d) := by
  obtain ⟨haccount, hevent, entry, hentry, hsame⟩ := h
  obtain ⟨row, hrow⟩ := Option.isSome_iff_exists.mp haccount
  obtain ⟨d₁, hrecorded, hrun⟩ :=
    PostgresBillingRepository.processPaymentEvent_run d lotId "stripe" sessionId accountId (not_lt.mpr hpos)
  obtain rfl := hrecorded.known hevent
  rw [stripe_reference, grantLot_run_replay hrow hentry, if_neg (not_not.mpr hsame)] at hrun
  exact ⟨_, hrun⟩

end

section
variable {m m' : InMemoryBillingRepository} {a : CreditAccount}

theorem grantLot_inMemory {kind : LotKind} {reference : String}
    (h : InMemoryBillingRepository.grantLot lotId accountId credits reference kind m = (.ok a, m')) :
    (reference ∈ m.references ∧ m' = m ∧ ∃ lot, m.lots.rows.find? (·.reference = reference) = some lot ∧
        (lot.accountId, lot.credited, lot.kind) = (accountId, credits, kind)) ∨
      (reference ∉ m.references ∧
        m' = { m with
          accounts := m.accounts.put ⟨accountId, (m.account accountId).availableCredits + credits⟩
          references := reference :: m.references
          lots := m.lots.put { id := lotId, accountId, kind, reference, credited := credits }
          entries := m.entries ++ [⟨accountId, none, .purchase, credits, reference⟩] }) := by
  unfold InMemoryBillingRepository.grantLot at h
  split_ifs at h with hpos hknown
  · cases h
  · left
    cases hlot : m.lots.rows.find? (·.reference = reference) with
    | none =>
      rw [hlot] at h
      cases h
    | some lot =>
      simp only [hlot] at h
      split_ifs at h with hother
      · cases h
      · cases h
        exact ⟨hknown, rfl, lot, rfl, not_not.mp hother⟩
  · cases h
    exact Or.inr ⟨hknown, rfl⟩

theorem processed_inMemory (hsound : (inMemory m).Sound) (hunused : (inMemory m).Unused lotId)
    (h : InMemoryBillingRepository.processPaymentEvent lotId "stripe" sessionId accountId credits
      m = (.ok a, m')) :
    Processed sessionId accountId credits (inMemory m) (inMemory m') ∧
      Onward lotId (inMemory m) (inMemory m') := by
  obtain ⟨m₁, hgrant, rfl⟩ : ∃ m₁, InMemoryBillingRepository.grantLot lotId accountId credits
      ("stripe:" ++ sessionId)
      .purchase m = (.ok a, m₁) ∧
      { m₁ with processedPaymentEvents := ("stripe", sessionId) :: m₁.processedPaymentEvents } = m' := by
    unfold InMemoryBillingRepository.processPaymentEvent at h
    rw [stripe_reference] at h
    split at h
    · cases h
    · rename_i hgrant
      cases h
      exact ⟨_, hgrant, rfl⟩
  rcases grantLot_inMemory hgrant with ⟨hknown, rfl, lot, hlot, hsame⟩ | ⟨hnew, rfl⟩
  · have hpaid : ¬ (inMemory m₁).Unpaid sessionId accountId := fun hnew => hnew hknown
    refine ⟨⟨⟨hknown, List.mem_cons_self, lot, hlot, hsame⟩, Or.inl ⟨hpaid, fun _ => rfl⟩⟩, fun hs => hs,
      fun _ _ hu => hu, ?_⟩
    rintro session account amount ⟨href, hevent, hfound⟩
    exact ⟨href, List.mem_cons_of_mem _ hevent, hfound⟩
  · set lot : CreditLot :=
      { id := lotId, accountId, kind := .purchase, reference := "stripe:" ++ sessionId, credited := credits }
      with hlot
    have hrows : (m.lots.put lot).rows = m.lots.rows ++ [lot] := Table.rows_put_of_none hunused
    have hnone : m.lots.rows.find? (·.reference = "stripe:" ++ sessionId) = none := by
      refine List.find?_eq_none.mpr fun old hold href => hnew ?_
      rw [← of_decide_eq_true href]
      exact hsound old hold
    have hfound : (m.lots.put lot).rows.find? (·.reference = "stripe:" ++ sessionId) = some lot := by
      rw [hrows, List.find?_append, hnone, Option.none_or]
      exact List.find?_cons_of_pos (by simp [hlot])
    have hcredited : (inMemory m).Credited (inMemory { m with
        accounts := m.accounts.put ⟨accountId, (m.account accountId).availableCredits + credits⟩
        references := ("stripe:" ++ sessionId) :: m.references
        lots := m.lots.put lot
        entries := m.entries ++ [⟨accountId, none, .purchase, credits, "stripe:" ++ sessionId⟩]
        processedPaymentEvents := ("stripe", sessionId) :: m.processedPaymentEvents }) accountId credits := by
      intro account
      simp only [availableCredits, InMemoryBillingRepository.account, Table.get?_put]
      by_cases haccount : accountId = account
      · rw [if_pos haccount, if_pos haccount.symm, ← haccount]
        rfl
      · rw [if_neg haccount, if_neg (Ne.symm haccount), add_zero]
    refine ⟨⟨⟨List.mem_cons_self, List.mem_cons_self, lot, hfound, rfl⟩, Or.inr ⟨?_, hcredited⟩⟩, ?_, ?_, ?_⟩
    · rintro account amount ⟨href, -⟩
      exact hnew href
    · intro _ old hold
      rcases (Table.mem_put _ _ _).mp hold with rfl | ⟨hold, -⟩
      · exact List.mem_cons_self
      · exact List.mem_cons_of_mem _ (hsound old hold)
    · intro id hne hid
      simp only [Unused]
      rw [Table.get?_put_of_ne _ (Ne.symm hne)]
      exact hid
    · rintro session account amount ⟨href, hevent, old, hold, hsame⟩
      refine ⟨List.mem_cons_of_mem _ href, List.mem_cons_of_mem _ hevent, old, ?_, hsame⟩
      simp only
      rw [hrows, List.find?_append, hold, Option.some_or]

theorem replayed_inMemory (lotId : String) (h : (inMemory m).Granted sessionId accountId credits)
    (hpos : 1 ≤ credits) :
    ∃ a m', InMemoryBillingRepository.processPaymentEvent lotId "stripe" sessionId accountId credits
      m = (.ok a, m') ∧
      (inMemory m).Same (inMemory m') := by
  obtain ⟨href, hevent, lot, hlot, hsame⟩ := h
  have hgrant : InMemoryBillingRepository.grantLot lotId accountId credits
      ("stripe:" ++ sessionId) .purchase m =
      (.ok (m.account accountId), m) := by
    unfold InMemoryBillingRepository.grantLot
    rw [if_neg (not_lt.mpr hpos), if_pos href]
    simp only [hlot]
    rw [if_neg (not_not.mpr hsame)]
  have hprocess : InMemoryBillingRepository.processPaymentEvent lotId "stripe" sessionId accountId credits m =
      (.ok (m.account accountId),
        { m with processedPaymentEvents := ("stripe", sessionId) :: m.processedPaymentEvents }) := by
    unfold InMemoryBillingRepository.processPaymentEvent
    rw [stripe_reference, hgrant]
  refine ⟨_, _, hprocess, .inMemory m _ fun event => ?_⟩
  constructor
  · intro hmem
    rcases List.mem_cons.mp hmem with rfl | hmem
    · exact hevent
    · exact hmem
  · exact List.mem_cons_of_mem _

theorem refused_inMemory {e : Error}
    (h : InMemoryBillingRepository.processPaymentEvent lotId "stripe" sessionId accountId credits m =
      (.error e, m')) :
    m' = m := by
  have hgrant : ∀ reference kind, InMemoryBillingRepository.grantLot lotId accountId credits
      reference kind m =
      (.error e, m') → m' = m := by
    intro reference kind hgrant
    unfold InMemoryBillingRepository.grantLot at hgrant
    split_ifs at hgrant
    · cases hgrant
      rfl
    · split at hgrant
      · cases hgrant
        rfl
      · split_ifs at hgrant
        · cases hgrant
          rfl
        · cases hgrant
    · cases hgrant
  unfold InMemoryBillingRepository.processPaymentEvent at h
  split at h
  · rename_i hrefused
    cases h
    exact hgrant _ _ hrefused
  · cases h

end

theorem process_ok {a : CreditAccount} (hsound : r.Sound) (hunused : r.Unused lotId)
    (h : r.processPaymentEvent lotId "stripe" sessionId accountId credits = (.ok a, r')) :
    Processed sessionId accountId credits r r' ∧ Onward lotId r r' := by
  cases r with
  | postgres d =>
    simp only [processPaymentEvent] at h
    cases hrun : (PostgresBillingRepository.processPaymentEvent lotId "stripe" sessionId accountId
      credits).run d with
    | error e =>
      rw [Prog.transaction_of_error hrun] at h
      cases h
    | ok result =>
      obtain ⟨a', d'⟩ := result
      rw [Prog.transaction_of_ok hrun] at h
      cases h
      exact processed_postgres hrun
  | inMemory m =>
    simp only [processPaymentEvent] at h
    cases hcall : InMemoryBillingRepository.processPaymentEvent lotId "stripe" sessionId
      accountId credits m with
    | mk answer m' =>
      rw [hcall] at h
      cases h
      exact processed_inMemory hsound hunused hcall

theorem process_error {e : Error}
    (h : r.processPaymentEvent lotId "stripe" sessionId accountId credits = (.error e, r')) : r' = r := by
  cases r with
  | postgres d =>
    simp only [processPaymentEvent] at h
    cases hrun : (PostgresBillingRepository.processPaymentEvent lotId "stripe" sessionId accountId
      credits).run d with
    | error e =>
      rw [Prog.transaction_of_error hrun] at h
      cases h
      rfl
    | ok result =>
      rw [Prog.transaction_of_ok hrun] at h
      cases h
  | inMemory m =>
    simp only [processPaymentEvent] at h
    cases hcall : InMemoryBillingRepository.processPaymentEvent lotId "stripe" sessionId
      accountId credits m with
    | mk answer m' =>
      rw [hcall] at h
      cases h
      rw [refused_inMemory hcall]

/-- A call for what is recorded already returns, and leaves the repository as it is. -/
theorem process_again (lotId : String) (h : r.Granted sessionId accountId credits) (hpos : 1 ≤ credits) :
    ∃ a r', r.processPaymentEvent lotId "stripe" sessionId accountId credits = (.ok a, r') ∧ r.Same r' := by
  cases r with
  | postgres d =>
    obtain ⟨a, hrun⟩ := replayed_postgres lotId h hpos
    refine ⟨a, postgres d, ?_, .postgres d⟩
    simp only [processPaymentEvent]
    rw [Prog.transaction_of_ok hrun]
    rfl
  | inMemory m =>
    obtain ⟨a, m', hcall, hsame⟩ := replayed_inMemory lotId h hpos
    refine ⟨a, inMemory m', ?_, hsame⟩
    simp only [processPaymentEvent]
    rw [hcall]
    rfl

theorem process_first (hunused : r.Unused lotId) (hunpaid : r.Unpaid sessionId accountId)
    (hcredits : 1 ≤ credits ∧ credits ≤ 2400) :
    ∃ a, (r.processPaymentEvent lotId "stripe" sessionId accountId credits).1 = .ok a := by
  obtain ⟨hpos, hbound⟩ := hcredits
  cases r with
  | postgres d =>
    obtain ⟨⟨row, hrow, hnonneg⟩, hledger, hlots⟩ := hunpaid
    have hfits : fitsInteger credits = true := by
      simp only [fitsInteger, decide_eq_true_eq]
      omega
    obtain ⟨d₁, hrecorded, hrun⟩ :=
      PostgresBillingRepository.processPaymentEvent_run d lotId "stripe" sessionId accountId (not_lt.mpr hpos)
    rw [← hrecorded.accounts] at hrow
    rw [← hrecorded.ledger] at hledger
    rw [← hrecorded.lots] at hlots
    have hlot : d₁.billing.lots.get? lotId = none := by
      rw [hrecorded.lots]
      exact hunused
    rw [stripe_reference, grantLot_run_new hrow hpos hfits hledger hlot hlots hnonneg] at hrun
    refine ⟨⟨row.id, row.availableCredits + credits⟩, ?_⟩
    simp only [processPaymentEvent]
    rw [Prog.transaction_of_ok hrun]
    rfl
  | inMemory m =>
    have hunknown : "stripe:" ++ sessionId ∉ m.references := hunpaid
    refine ⟨⟨accountId, (m.account accountId).availableCredits + credits⟩, ?_⟩
    simp only [processPaymentEvent, InMemoryBillingRepository.processPaymentEvent,
      InMemoryBillingRepository.grantLot, stripe_reference]
    rw [if_neg (not_lt.mpr hpos), if_neg hunknown]
    rfl

end Repository

/-- The libraries at a later time. -/
def Libraries.during (lib : Libraries) (time : ℚ) : Libraries := { lib with time }

/-- A request to the webhook, its time, and the identifier that a lot of it gets. -/
structure Delivery where
  payload : List UInt8
  signature : String
  time : ℚ
  lotId : String

section
variable (lib : Libraries) (secret : List UInt8)

def Delivery.handled (delivery : Delivery) (processPaymentEvent : String → String → String → ℤ →
    Except Error Unit) :
    Except Error (Option PaymentEvent) :=
  StripeWebhookHandler.handle (lib.during delivery.time) processPaymentEvent secret delivery.payload
    delivery.signature

/-- What a delivery is answered, and the repository after it. The handler calls the repository last, and only
for the purchase that it returns if the call returns. -/
def Delivery.deliver (delivery : Delivery) (r : Repository) :
    Except Error (Option PaymentEvent) × Repository :=
  let processPaymentEvent := fun provider id accountId credits =>
    r.processPaymentEvent delivery.lotId provider id accountId credits
  (delivery.handled lib secret fun provider id accountId credits =>
      (processPaymentEvent provider id accountId credits).1.map fun _ => (),
    match delivery.handled lib secret fun _ _ _ _ => .ok () with
    | .ok (some payment) => (processPaymentEvent "stripe" payment.id payment.accountId payment.credits).2
    | _ => r)

/-- The repository after deliveries, one after the other. -/
def Repository.after (deliveries : List Delivery) (r : Repository) : Repository :=
  deliveries.foldl (fun r delivery => (delivery.deliver lib secret r).2) r

/-- A delivery pays for a purchase. -/
def Delivery.Pays (delivery : Delivery) (payment : PaymentEvent) : Prop :=
  StripeWebhookHandler.Genuine (lib.during delivery.time) secret delivery.payload delivery.signature payment

/-- What is delivered to a repository: the clock is one, and every identifier is new. -/
structure Delivered (deliveries : List Delivery) (r : Repository) : Prop where
  sound : r.Sound
  times : ∀ delivery ∈ deliveries, Clock delivery.time
  distinct : (deliveries.map (·.lotId)).Nodup
  unused : ∀ delivery ∈ deliveries, r.Unused delivery.lotId

end

section
variable {lib : Libraries} {secret : List UInt8} {delivery : Delivery} {payment payment' : PaymentEvent}
    {r : Repository}
  {deliveries : List Delivery}

theorem Delivery.handled_pays (hround : Rounds lib.round) (hclock : Clock delivery.time)
    (h : delivery.Pays lib secret payment)
    (processPaymentEvent : String → String → String → ℤ → Except Error Unit) :
    delivery.handled lib secret processPaymentEvent =
      (processPaymentEvent "stripe" payment.id payment.accountId payment.credits).map fun _ =>
        some payment := by
  have hround' : Rounds (lib.during delivery.time).round := hround
  have hclock' : Clock (lib.during delivery.time).time := hclock
  exact StripeWebhookHandler.handle_genuine hround' hclock' h

theorem Delivery.pays_of_handled (hround : Rounds lib.round) (hclock : Clock delivery.time)
    {processPaymentEvent : String → String → String → ℤ → Except Error Unit}
    (h : delivery.handled lib secret processPaymentEvent = .ok (some payment)) :
    delivery.Pays lib secret payment := by
  have hround' : Rounds (lib.during delivery.time).round := hround
  have hclock' : Clock (lib.during delivery.time).time := hclock
  exact StripeWebhookHandler.genuine_of_handle hround' hclock' h

theorem Delivery.deliver_pays (hround : Rounds lib.round) (hclock : Clock delivery.time)
    (h : delivery.Pays lib secret payment) :
    delivery.deliver lib secret r =
      ((r.processPaymentEvent delivery.lotId "stripe" payment.id payment.accountId payment.credits).1.map
          fun _ => some payment,
        (r.processPaymentEvent delivery.lotId "stripe" payment.id payment.accountId payment.credits).2) := by
  have hasked : delivery.handled lib secret (fun _ _ _ _ => .ok ()) = .ok (some payment) :=
    handled_pays hround hclock h _
  simp only [deliver, hasked]
  rw [handled_pays hround hclock h]
  cases (r.processPaymentEvent delivery.lotId "stripe" payment.id payment.accountId payment.credits).1 <;> rfl

theorem Delivery.deliver_other (hround : Rounds lib.round) (hclock : Clock delivery.time)
    (h : ∀ payment, ¬ delivery.Pays lib secret payment) : (delivery.deliver lib secret r).2 = r := by
  have hasked : ∀ payment, delivery.handled lib secret (fun _ _ _ _ => .ok ()) ≠ .ok (some payment) := by
    intro payment hhandled
    exact h payment (pays_of_handled hround hclock hhandled)
  unfold deliver
  generalize delivery.handled lib secret (fun _ _ _ _ => .ok ()) = asked at hasked ⊢
  rcases asked with e | _ | payment
  · rfl
  · rfl
  · exact absurd rfl (hasked payment)

theorem Delivery.pays_of_answer (hround : Rounds lib.round) (hclock : Clock delivery.time)
    (h : (delivery.deliver lib secret r).1 = .ok (some payment)) : delivery.Pays lib secret payment := by
  simp only [deliver] at h
  exact pays_of_handled hround hclock h

theorem Delivery.Pays.unique (hround : Rounds lib.round) (hclock : Clock delivery.time)
    (h : delivery.Pays lib secret payment) (h' : delivery.Pays lib secret payment') : payment = payment' := by
  have hanswer := handled_pays hround hclock h fun _ _ _ _ => .ok ()
  have hanswer' := handled_pays hround hclock h' fun _ _ _ _ => .ok ()
  rw [hanswer] at hanswer'
  cases hanswer'
  rfl

/-- The repository is left as it is, or the delivery pays for a purchase that is now recorded. -/
theorem Delivered.outcome (lib : Libraries) (secret : List UInt8) {rest : List Delivery}
    (hround : Rounds lib.round) (h : Delivered (delivery :: rest) r) :
    (delivery.deliver lib secret r).2 = r ∨ ∃ payment, delivery.Pays lib secret payment ∧
      (delivery.deliver lib secret r).1 = .ok (some payment) ∧
      Repository.Processed payment.id payment.accountId payment.credits r (delivery.deliver lib secret r).2 ∧
      Repository.Onward delivery.lotId r (delivery.deliver lib secret r).2 := by
  have hclock := h.times delivery List.mem_cons_self
  have hunused := h.unused delivery List.mem_cons_self
  by_cases hpays : ∃ payment, delivery.Pays lib secret payment
  · obtain ⟨payment, hpays⟩ := hpays
    rw [Delivery.deliver_pays hround hclock hpays]
    cases hcall : r.processPaymentEvent delivery.lotId "stripe" payment.id payment.accountId
      payment.credits with
    | mk answer r' =>
      cases answer with
      | error e => exact Or.inl (Repository.process_error hcall)
      | ok a =>
        obtain ⟨hprocessed, honward⟩ := Repository.process_ok h.sound hunused hcall
        exact Or.inr ⟨payment, hpays, rfl, hprocessed, honward⟩
  · exact Or.inl (Delivery.deliver_other hround hclock (not_exists.mp hpays))

theorem Delivered.onward (lib : Libraries) (secret : List UInt8) {rest : List Delivery}
    (hround : Rounds lib.round) (h : Delivered (delivery :: rest) r) :
    Repository.Onward delivery.lotId r (delivery.deliver lib secret r).2 := by
  rcases h.outcome lib secret hround with hsame | ⟨payment, -, -, -, honward⟩
  · rw [hsame]
    exact Repository.Onward.refl r _
  · exact honward

theorem Delivered.tail (lib : Libraries) (secret : List UInt8) {rest : List Delivery}
    (hround : Rounds lib.round) (h : Delivered (delivery :: rest) r) :
    Delivered rest (delivery.deliver lib secret r).2 := by
  have honward : Repository.Onward delivery.lotId r (delivery.deliver lib secret r).2 :=
    h.onward lib secret hround
  have hdistinct := h.distinct
  rw [List.map_cons, List.nodup_cons] at hdistinct
  obtain ⟨hnew, hrest⟩ := hdistinct
  constructor
  · exact honward.sound h.sound
  · exact fun later hlater => h.times later (List.mem_cons_of_mem _ hlater)
  · exact hrest
  · intro later hlater
    have hne : later.lotId ≠ delivery.lotId := by
      intro heq
      exact hnew (heq ▸ List.mem_map_of_mem hlater)
    exact honward.unused _ hne (h.unused later (List.mem_cons_of_mem _ hlater))

theorem Delivered.after (lib : Libraries) (secret : List UInt8) {before rest : List Delivery}
    (hround : Rounds lib.round) (h : Delivered (before ++ rest) r) :
    Delivered rest (r.after lib secret before) ∧ ∀ sessionId a c, r.Granted sessionId a c →
      (r.after lib secret before).Granted sessionId a c := by
  induction before generalizing r with
  | nil => exact ⟨h, fun _ _ _ hgranted => hgranted⟩
  | cons delivery before ih =>
    have honward : Repository.Onward delivery.lotId r (delivery.deliver lib secret r).2 :=
      h.onward lib secret hround
    obtain ⟨hrest, hgranted⟩ := ih (h.tail lib secret hround)
    exact ⟨hrest, fun sessionId a c hold => hgranted sessionId a c (honward.granted sessionId a c hold)⟩

theorem Delivered.granted (lib : Libraries) (secret : List UInt8) {rest : List Delivery}
    (hround : Rounds lib.round) (h : Delivered (delivery :: rest) r)
    (hanswer : (delivery.deliver lib secret r).1 = .ok (some payment)) :
    (delivery.deliver lib secret r).2.Granted payment.id payment.accountId payment.credits := by
  have hclock := h.times delivery List.mem_cons_self
  have hunused := h.unused delivery List.mem_cons_self
  have hpays := Delivery.pays_of_answer hround hclock hanswer
  rw [Delivery.deliver_pays hround hclock hpays] at hanswer ⊢
  cases hcall : r.processPaymentEvent delivery.lotId "stripe" payment.id payment.accountId
    payment.credits with
  | mk answer r' =>
    rw [hcall] at hanswer
    cases answer with
    | error e => cases hanswer
    | ok a => exact (Repository.process_ok h.sound hunused hcall).1.granted

/-- The first delivery of a session that was not paid yet is fulfilled. -/
theorem Delivered.first (lib : Libraries) (secret : List UInt8) {rest : List Delivery}
    (hround : Rounds lib.round) (h : Delivered (delivery :: rest) r)
    (hpays : delivery.Pays lib secret payment) (hunpaid : r.Unpaid payment.id payment.accountId) :
    (delivery.deliver lib secret r).1 = .ok (some payment) ∧
      r.Credited (delivery.deliver lib secret r).2 payment.accountId payment.credits := by
  have hclock := h.times delivery List.mem_cons_self
  have hunused := h.unused delivery List.mem_cons_self
  rw [Delivery.deliver_pays hround hclock hpays]
  obtain ⟨a, hanswer⟩ := Repository.process_first hunused hunpaid hpays.bounds
  cases hcall : r.processPaymentEvent delivery.lotId "stripe" payment.id payment.accountId
    payment.credits with
  | mk answer r' =>
    rw [hcall] at hanswer
    cases hanswer
    obtain ⟨hprocessed, -⟩ := Repository.process_ok h.sound hunused hcall
    rcases hprocessed.balances with ⟨hpaid, -⟩ | ⟨-, hcredited⟩
    · exact absurd hunpaid hpaid
    · exact ⟨rfl, hcredited⟩

/-- What is recorded of a session is not credited again, and the same purchase changes nothing. -/
theorem Delivered.again (lib : Libraries) (secret : List UInt8) {rest : List Delivery}
    (hround : Rounds lib.round) (h : Delivered (delivery :: rest) r)
    (hpays : delivery.Pays lib secret payment) {a : String} {c : ℤ} (hgranted : r.Granted payment.id a c) :
    r.Unmoved (delivery.deliver lib secret r).2 ∧ (payment.accountId = a → payment.credits = c →
      (delivery.deliver lib secret r).1 = .ok (some payment) ∧ r.Same (delivery.deliver lib secret r).2) := by
  have hclock := h.times delivery List.mem_cons_self
  constructor
  · rcases h.outcome lib secret hround with hsame | ⟨found, hfound, -, hprocessed, -⟩
    · rw [hsame]
      exact fun _ => rfl
    · obtain rfl := hpays.unique hround hclock hfound
      rcases hprocessed.balances with ⟨-, hunmoved⟩ | ⟨hnone, -⟩
      · exact hunmoved
      · exact absurd hgranted (hnone a c)
  · rintro rfl rfl
    obtain ⟨account, r', hcall, hsame⟩ := Repository.process_again delivery.lotId hgranted hpays.bounds.1
    rw [Delivery.deliver_pays hround hclock hpays, hcall]
    exact ⟨rfl, hsame⟩

theorem Repository.after_concat (r : Repository) (before : List Delivery) (delivery : Delivery) :
    r.after lib secret (before ++ [delivery]) =
      (delivery.deliver lib secret (r.after lib secret before)).2 := by
  rw [after, List.foldl_append]
  rfl

theorem Repository.after_append (r : Repository) (before rest : List Delivery) :
    r.after lib secret (before ++ rest) = (r.after lib secret before).after lib secret rest :=
  List.foldl_append

/-- A delivery moves balances only for a genuine purchase, by exactly its credits, and the first one of a
session does. Once a purchase was returned, a later delivery of its session moves none, and of the same
purchase is answered alike and changes nothing. -/
theorem fulfilled_once (lib : Libraries) (secret : List UInt8) {before rest : List Delivery}
    (hround : Rounds lib.round) (h : Delivered (before ++ delivery :: rest) r) :
    ((r.after lib secret before).Unmoved (r.after lib secret (before ++ [delivery])) ∨
      ∃ payment, delivery.Pays lib secret payment ∧
        (delivery.deliver lib secret (r.after lib secret before)).1 = .ok (some payment) ∧
        (r.after lib secret before).Credited (r.after lib secret (before ++ [delivery])) payment.accountId
          payment.credits) ∧
    (∀ payment, delivery.Pays lib secret payment →
      (r.after lib secret before).Unpaid payment.id payment.accountId →
      (delivery.deliver lib secret (r.after lib secret before)).1 = .ok (some payment) ∧
        (r.after lib secret before).Credited (r.after lib secret (before ++ [delivery])) payment.accountId
          payment.credits) ∧
    ∀ payment, (delivery.deliver lib secret (r.after lib secret before)).1 = .ok (some payment) →
      ∀ between later last payment', rest = between ++ later :: last → later.Pays lib secret payment' →
        payment'.id = payment.id →
        (r.after lib secret (before ++ delivery :: between)).Unmoved
            (r.after lib secret (before ++ delivery :: between ++ [later])) ∧
          (payment'.accountId = payment.accountId → payment'.credits = payment.credits →
            (later.deliver lib secret (r.after lib secret (before ++ delivery :: between))).1 = .ok
            (some payment') ∧
            (r.after lib secret (before ++ delivery :: between)).Same
              (r.after lib secret (before ++ delivery :: between ++ [later]))) := by
  obtain ⟨hhere, -⟩ := h.after lib secret hround
  refine ⟨?_, ?_, ?_⟩
  · rw [Repository.after_concat]
    rcases hhere.outcome lib secret hround with hsame | ⟨payment, hpays, hanswer, hprocessed, -⟩
    · rw [hsame]
      exact Or.inl fun _ => rfl
    · rcases hprocessed.balances with ⟨-, hunmoved⟩ | ⟨-, hcredited⟩
      · exact Or.inl hunmoved
      · exact Or.inr ⟨payment, hpays, hanswer, hcredited⟩
  · intro payment hpays hunpaid
    rw [Repository.after_concat]
    exact hhere.first lib secret hround hpays hunpaid
  · intro payment hanswer between later last payment' hrest hpays hid
    subst hrest
    have hgranted := hhere.granted lib secret hround hanswer
    obtain ⟨hlater, hkept⟩ := (hhere.tail lib secret hround).after lib secret hround
    have hstill := hkept _ _ _ hgranted
    have hreached : r.after lib secret (before ++ delivery :: between) =
        ((delivery.deliver lib secret (r.after lib secret before)).2).after lib secret between := by
      rw [Repository.after_append]
      rfl
    rw [Repository.after_concat, hreached]
    rw [← hid] at hstill
    exact hlater.again lib secret hround hpays hstill

end

namespace Sample

def payment : PaymentEvent := ⟨"cs_test_1", accountId, 1100⟩

/-- The same event twice, 12 seconds after it was signed. -/
def first : Delivery := ⟨payload, signature, 1700000012, "lot-1"⟩

def second : Delivery := ⟨payload, signature, 1700000012, "lot-2"⟩

theorem rounds : Rounds libraries.round where
  mono := fun _ _ hle => hle
  exact := fun _ _ _ _ => rfl

theorem clock : Clock 1700000012 where
  nonneg := by norm_num
  bounded := by norm_num
  grid := ⟨1700000012 * 2 ^ 44, by norm_num⟩

theorem loads_payload : (libraries.during 1700000012).loads payload = .ok event := by
  simp only [Libraries.during, libraries, if_true]

theorem genuine : StripeWebhookHandler.Genuine
    (libraries.during 1700000012) secret payload signature payment := by
  have hsigned : StripeWebhookHandler.Signed (libraries.during 1700000012) secret payload signature := by
    refine ⟨"1700000000", 1700000000, timestamps_signature, int_timestamp, ?_, ?_⟩
    · have hdifference : (libraries.during 1700000012).time - (1700000000 : ℤ) =
          12 := by norm_num [Libraries.during]
      rw [hdifference]
      norm_num
    · rw [digests_signature]
      exact List.mem_cons_self
  refine ⟨hsigned, event, loads_payload, ?_⟩
  refine ⟨_, _, session, _, _, _, rfl, by decide, rfl, rfl, rfl, rfl, rfl, ?_⟩
  constructor
  · rfl
  · rfl
  · exact ⟨.str "1100", rfl, by decide +kernel⟩
  · rfl
  · exact ⟨by decide, by decide, rfl⟩
  · refine ⟨_, 1000, 80, rfl, rfl, rfl, rfl, rfl, ⟨_, rfl, rfl⟩, by decide, ⟨_, rfl, rfl⟩,
      ⟨_, rfl, rfl⟩, ⟨_, rfl, rfl⟩⟩

end Sample

open Sample Repository in
/-- The session is credited when it is delivered first, and not again. -/
theorem fulfilled_once_sample :
    (inMemory {}).Credited ((inMemory {}).after libraries secret [first]) accountId 1100 ∧
      ((inMemory {}).after libraries secret [first]).Same
      ((inMemory {}).after libraries secret [first, second]) := by
  have hpays : first.Pays libraries secret payment := genuine
  have hpays' : second.Pays libraries secret payment := genuine
  have hdelivered : Delivered ([] ++ first :: [second]) (inMemory {}) := by
    constructor
    · intro lot hlot
      cases hlot
    · intro delivery hdelivery
      rcases List.mem_pair.mp hdelivery with rfl | rfl
      · exact clock
      · exact clock
    · decide
    · intro delivery _
      rfl
  have hunpaid : (inMemory {}).Unpaid payment.id payment.accountId := List.not_mem_nil
  obtain ⟨-, hfirst, hlater⟩ := fulfilled_once libraries secret rounds hdelivered
  obtain ⟨hanswer, hcredited⟩ := hfirst payment hpays hunpaid
  obtain ⟨-, hsame⟩ := hlater payment hanswer [] second [] payment rfl hpays' rfl
  have hlast := (hsame rfl rfl).2
  simp only [List.nil_append, List.cons_append] at hlast hcredited
  exact ⟨hcredited, hlast⟩

end KenkuiServer.Billing
