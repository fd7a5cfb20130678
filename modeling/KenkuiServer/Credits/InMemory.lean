import KenkuiServer.Billing.InMemory
import KenkuiServer.Credits.Conservation
import KenkuiServer.Credits.Greedy
import KenkuiServer.Credits.Order

/-! The in-memory credit repository and the durable one, call by call. -/
namespace KenkuiServer.Billing.InMemoryBillingRepository
open Txn Data Storage

section
variable {lots : List CreditLot} {remaining : ℤ} {parts : List (String × ℤ)}

/-- The loop of the fake takes a greedy split of what the lots have. -/
theorem takeLots_split (hpos : 0 < remaining) (hlots : ∀ lot ∈ lots, 0 ≤ lot.available)
    (h : split ((lots.filter fun lot => lot.credited > lot.reserved + lot.consumed).map fun lot =>
      (lot.id, lot.available)) remaining = some parts) : takeLots lots remaining = (parts, 0) := by
  induction lots generalizing remaining parts with
  | nil => cases h
  | cons lot lots ih =>
    have hnonneg := hlots lot List.mem_cons_self
    have hrest : ∀ l ∈ lots, 0 ≤ l.available := fun l hl => hlots l (List.mem_cons_of_mem _ hl)
    by_cases hav : lot.credited > lot.reserved + lot.consumed
    · have hopen : 0 < lot.available := by
        unfold CreditLot.available
        omega
      rw [List.filter_cons_of_pos (by simpa using hav), List.map_cons] at h
      unfold split at h
      unfold takeLots
      split_ifs at h with hle
      · cases h
        have hmin : min remaining lot.available = remaining := min_eq_left hle
        simp [hmin, hpos.ne']
      · have hmin : min remaining lot.available = lot.available := min_eq_right (le_of_not_ge hle)
        have hmore : 0 < remaining - lot.available := by omega
        obtain ⟨parts', hparts, rfl⟩ := Option.map_eq_some_iff.mp h
        simp only [hmin, ih hmore hrest hparts, hmore.ne', hopen.ne', ne_eq, not_false_eq_true,
          if_true, if_false, List.singleton_append]
    · have hclosed : lot.available = 0 := by
        unfold CreditLot.available at hnonneg ⊢
        omega
      have hmin : min remaining lot.available = 0 := by
        rw [hclosed]
        exact min_eq_right hpos.le
      rw [List.filter_cons_of_neg (by simpa using hav)] at h
      unfold takeLots
      simp only [hmin, sub_zero, hpos.ne', ih hpos hrest h, ne_eq, not_true_eq_false, if_false,
        List.nil_append]

end

section
variable {f : ℤ → CreditLot → CreditLot} {g : List (String × ℤ) → CreditLot → CreditLot}

/-- Lots replaced one after the other, each at most once. -/
theorem replaceLots_rows (hf : ∀ amount lot, (f amount lot).id = lot.id) (hnil : ∀ lot, g [] lot = lot)
    (hcons : ∀ lotId amount parts, lotId ∉ parts.map (·.1) → ∀ lot : CreditLot,
      g parts (if lot.id = lotId then f amount lot else lot) = g ((lotId, amount) :: parts) lot)
    {parts : List (String × ℤ)} (hnodup : (parts.map (·.1)).Nodup) {lots : Table CreditLot.id}
    (hfound : ∀ part ∈ parts, (lots.get? part.1).isSome = true) :
    (replaceLots f lots parts).rows = lots.rows.map (g parts) := by
  induction parts generalizing lots with
  | nil =>
    have hid : g [] = id := funext hnil
    rw [hid, List.map_id]
    rfl
  | cons part parts ih =>
    obtain ⟨lotId, amount⟩ := part
    simp only [List.map_cons, List.nodup_cons] at hnodup
    obtain ⟨lot, hlot⟩ := Option.isSome_iff_exists.mp (hfound _ List.mem_cons_self)
    have hid : lot.id = lotId := Table.key_of_get? hlot
    have hput : (f amount lot).id = lotId := (hf amount lot).trans hid
    have hturn : replaceLots f lots ((lotId, amount) :: parts) =
        replaceLots f (lots.put (f amount lot)) parts := by
      unfold replaceLots
      rw [List.foldl_cons, hlot]
      rfl
    have hrest : ∀ part ∈ parts, ((lots.put (f amount lot)).get? part.1).isSome = true := by
      intro part hpart
      have hne : (f amount lot).id ≠ part.1 := by
        rw [hput]
        rintro rfl
        exact hnodup.1 (List.mem_map_of_mem hpart)
      rw [Table.get?_put_of_ne _ hne]
      exact hfound part (List.mem_cons_of_mem _ hpart)
    have hrows : (lots.put (f amount lot)).rows = lots.rows.map fun l =>
      if l.id = lotId then f amount lot else l := by
      have hsome : lots.get? (f amount lot).id = some lot := by rw [hput, hlot]
      rw [Table.rows_put_of_some hsome, hput]
    rw [hturn, ih hnodup.2 hrest, hrows, List.map_map]
    refine List.map_congr_left fun l hl => ?_
    rw [← hcons lotId amount parts hnodup.1 l]
    by_cases hl' : l.id = lotId
    · rw [Table.eq_of_mem hl (Table.mem_of_get? hlot) (hl'.trans hid.symm)]
      simp [hid]
    · simp [hl']

/-- The parts of other lots make no difference. -/
theorem sum_parts_of_not_mem {lotId : String} {parts : List (String × ℤ)} (h : lotId ∉ parts.map (·.1)) :
    ((parts.filter (·.1 = lotId)).map (·.2)).sum = 0 := by
  have hnone : parts.filter (·.1 = lotId) = [] := by
    refine List.filter_eq_nil_iff.mpr fun part hpart hid => ?_
    rw [decide_eq_true_eq] at hid
    exact h (hid ▸ List.mem_map_of_mem hpart)
  rw [hnone]
  rfl

theorem reserveLots_rows {parts : List (String × ℤ)} (hnodup : (parts.map (·.1)).Nodup)
    {lots : Table CreditLot.id} (hfound : ∀ part ∈ parts, (lots.get? part.1).isSome = true) :
    (replaceLots (fun amount lot => { lot with reserved := lot.reserved + amount }) lots parts).rows =
      lots.rows.map (reservedLot parts) := by
  refine replaceLots_rows (f := fun amount lot => { lot with reserved := lot.reserved + amount })
    (g := reservedLot)
    (fun _ _ => rfl) (fun lot => by simp [reservedLot]) (fun lotId amount parts hnew lot => ?_) hnodup hfound
  by_cases hid : lot.id = lotId
  · subst hid
    simp [reservedLot, sum_parts_of_not_mem hnew]
  · simp [reservedLot, hid, Ne.symm hid]

theorem finalizeLots_rows (status : AuthorizationStatus) {parts : List (String × ℤ)}
    (hnodup : (parts.map (·.1)).Nodup) {lots : Table CreditLot.id}
    (hfound : ∀ part ∈ parts, (lots.get? part.1).isSome = true) :
    (replaceLots (fun amount lot =>
      { lot with
        reserved := lot.reserved - amount
        consumed := lot.consumed + if status = .settled then amount else 0 }) lots parts).rows =
      lots.rows.map (PostgresCreditLots.finalizedLot status parts) := by
  refine replaceLots_rows
    (f := fun amount lot =>
      { lot with
        reserved := lot.reserved - amount
        consumed := lot.consumed + if status = .settled then amount else 0 })
    (g := PostgresCreditLots.finalizedLot status)
    (fun _ _ => rfl) (fun lot => by simp [PostgresCreditLots.finalizedLot])
      (fun lotId amount parts hnew lot => ?_)
    hnodup hfound
  by_cases hid : lot.id = lotId
  · subst hid
    simp [PostgresCreditLots.finalizedLot, sum_parts_of_not_mem hnew]
  · simp [PostgresCreditLots.finalizedLot, hid, Ne.symm hid]

end

end KenkuiServer.Billing.InMemoryBillingRepository

namespace KenkuiServer.Billing
open Txn Data Storage BillingDb PostgresBillingRepository

/-- The references under which the ledger enters what became of a reservation. -/
def OwnReference (reference : String) : Prop :=
  (∃ jobId, reference = "reservation:" ++ jobId) ∨ ∃ status jobId, reference = endReference status jobId

/-- The fake holds what the durable repository does, whose ledger explains its lots. -/
structure Mirrors (m : InMemoryBillingRepository) (d : HostedDb) : Prop where
  books : d.billing.Books
  apart : d.billing.Apart
  accounts : ∀ row ∈ d.billing.accounts.rows, m.account row.id = row.toCreditAccount
  lots : m.lots = d.billing.lots
  authorizations : m.authorizations = d.billing.authorizations
  byJob : ∀ jobId, (m.authorizationByJob.get? jobId).map (·.2) =
    (authorizationOfJob jobId d.billing).map (·.id)
  allocations : ∀ auth ∈ d.billing.authorizations.rows,
    m.allocations.get? auth.id = some (auth.id, d.billing.allocationRows auth.id auth.accountId)
  references : ∀ reference, reference ∈ m.references ↔ ∃ lot ∈ d.billing.lots.rows, lot.reference = reference
  granted : ∀ lot ∈ d.billing.lots.rows, ¬ OwnReference lot.reference ∧ ∃ entry,
    d.billing.ledger.get? lot.reference = some entry ∧ entry.accountId = lot.accountId ∧
      entry.credits = lot.credited
  entries : ∀ entry ∈ d.billing.ledger.rows,
    (∃ lot ∈ d.billing.lots.rows, lot.reference = entry.reference) ∨ OwnReference entry.reference
  reservations : ∀ entry ∈ d.billing.ledger.rows, ∀ jobId, entry.reference = "reservation:" ++ jobId →
    (authorizationOfJob jobId d.billing).isSome = true

/-- The durable procedure and the method of the fake return the same and mirror one another afterwards, or
raise the same and leave everything as it was. -/
def Follows {α : Type} (p : Procedure α) (f : InMemoryBillingRepository.Method α)
    (m : InMemoryBillingRepository) (d : HostedDb) : Prop :=
  (∃ e, p.run d = .error e ∧ f m = (.error e, m)) ∨
    ∃ a m' d', p.run d = .ok (a, d') ∧ f m = (.ok a, m') ∧ Mirrors m' d'

theorem Mirrors.init {d : HostedDb} (h : Hosted.Opening d.billing) : Mirrors {} d := by
  have hbooks := h.books
  obtain ⟨haccounts, hlots, hallocations, hauthorizations, hledger⟩ := h
  refine ⟨hbooks, ⟨by simp [hauthorizations], by simp [hledger]⟩, fun row hrow =>
    ?_, hlots.symm, hauthorizations.symm, fun jobId =>
      ?_, by simp [hauthorizations], by simp [hlots], by simp [hlots], by simp [hledger], by simp [hledger]⟩
  · show (⟨row.id, 0⟩ : CreditAccount) = row.toCreditAccount
    rw [← haccounts row hrow]
  · unfold authorizationOfJob
    rw [hauthorizations]
    rfl

section
variable {m : InMemoryBillingRepository} {d : HostedDb} {accountId reference : String} {credits : ℤ}

theorem Mirrors.account (h : Mirrors m d) {row : AccountRow}
    (hrow : d.billing.accounts.get? accountId = some row) :
    m.account accountId = row.toCreditAccount := by
  have hid : row.id = accountId := account_id hrow
  rw [← hid]
  exact h.accounts row (Table.mem_of_get? hrow)

/-- A reference that no reservation uses is in the ledger when a lot was granted under it. -/
theorem Mirrors.ledger_none (h : Mirrors m d) (hoff : ¬ OwnReference reference)
    (hnew : reference ∉ m.references) :
    d.billing.ledger.get? reference = none := by
  refine (Table.get?_eq_none_iff _ _).mpr fun entry hentry href => ?_
  rcases h.entries entry hentry with hlot | hown
  · exact hnew ((h.references reference).mpr (href ▸ hlot))
  · exact hoff (href ▸ hown)

/-- The kind of an earlier grant under the reference is the same, if all else is. -/
def SameKind (d : HostedDb) (accountId : String) (credits : ℤ) (reference : String) (kind : LotKind) : Prop :=
  ∀ lot ∈ d.billing.lots.rows, lot.reference = reference → lot.accountId = accountId →
    lot.credited = credits →
    lot.kind = kind

/-- The store after a grant. -/
def grantedDb (d : HostedDb) (row : AccountRow) (lot : CreditLot) : HostedDb :=
  { d with
    billing :=
      { d.billing with
        ledger := d.billing.ledger.put ⟨lot.accountId, none, .purchase, lot.credited, lot.reference⟩
        lots := d.billing.lots.put lot
        accounts := d.billing.accounts.put
          { row with availableCredits := row.availableCredits + lot.credited } } }

theorem grantLot_run_new {lotId : String} {kind : LotKind} {row : AccountRow}
    (hrow : d.billing.accounts.get? accountId = some row) (hpos : 1 ≤ credits)
    (hfits : fitsInteger credits = true) (hledger : d.billing.ledger.get? reference = none)
    (hlot : d.billing.lots.get? lotId = none)
    (hreference : ∀ lot ∈ d.billing.lots.rows, lot.reference ≠ reference)
      (hnonneg : 0 ≤ row.availableCredits) :
    (grantLot lotId accountId credits reference kind).run d =
      .ok (⟨row.id, row.availableCredits + credits⟩,
        grantedDb d row { id := lotId, accountId, kind, reference, credited := credits }) := by
  have hlotChecks : lotChecks { id := lotId, accountId, kind, reference, credited := credits } = true := by
    rw [lotChecks_iff]
    simp only
    omega
  have hnone : d.billing.lots.rows.any (·.reference = reference) = false := by
    rw [List.any_eq_false]
    intro lot hmem
    simpa using hreference lot hmem
  have hcredit : ¬ row.availableCredits + credits < 0 := by omega
  unfold grantLot
  simp only [selectAccountForUpdate, Prog.run_selectForUpdate, insertLedgerOnce, Prog.run_mk, hledger,
    ledgerChecks, hfits, hrow, Option.isSome_none, Option.isNone_some, Bool.not_true,
    Bool.false_eq_true, if_false, false_and, if_true, PostgresCreditLots.grant, PostgresCreditLots.insertLot,
    Stmt.issue, Prog.step_bind, Prog.run_insert, applyAll_cons, applyAll_nil, billing_apply,
    BillingWrite.lots_apply, hlotChecks, hlot, hnone, Prog.ret_bind, creditAccount,
      BillingWrite.accounts_apply, hcredit]
  rfl

theorem grantLot_run_replay {lotId : String} {kind : LotKind} {row : AccountRow} {entry : LedgerEntry}
    (hrow : d.billing.accounts.get? accountId = some row)
    (hledger : d.billing.ledger.get? reference = some entry) :
    (grantLot lotId accountId credits reference kind).run d =
      if (entry.accountId, entry.credits) ≠ (accountId, credits) then .error
        (.value "payment_reference_conflict")
      else .ok (row.toCreditAccount, d) := by
  unfold grantLot
  simp only [issue_bind, selectAccountForUpdate, Prog.run_selectForUpdate, insertLedgerOnce,
    Prog.run_mk, hledger, Option.isSome_some, if_true, Bool.false_eq_true, if_false, applyAll_nil,
    selectLedger, Prog.run_select, Prog.raiseIf_bind]
  split_ifs
  · rfl
  · simp [PostgresBillingRepository.account, selectAccount, hrow]

theorem allocationRows_of_eq {b b' : BillingDb} (h : b'.allocations = b.allocations)
    (authorizationId accountId : String) :
    b'.allocationRows authorizationId accountId = b.allocationRows authorizationId accountId := by
  unfold allocationRows
  rw [h]

theorem authorizationOfJob_of_eq {b b' : BillingDb} (h : b'.authorizations = b.authorizations)
    (jobId : String) :
    authorizationOfJob jobId b' = authorizationOfJob jobId b := by
  unfold authorizationOfJob
  rw [h]

theorem Mirrors.grant (h : Mirrors m d) {row : AccountRow} {lot : CreditLot}
    (hrow : d.billing.accounts.get? lot.accountId = some row) (hoff : ¬ OwnReference lot.reference)
    (hledger : d.billing.ledger.get? lot.reference = none) (hlot : d.billing.lots.get? lot.id = none)
    (hsound : (grantedDb d row lot).billing.Books ∧ (grantedDb d row lot).billing.Apart)
    {m' : InMemoryBillingRepository}
    (haccounts : m'.accounts = m.accounts.put ⟨lot.accountId, row.availableCredits + lot.credited⟩)
    (hlots : m'.lots = m.lots.put lot) (hreferences : m'.references = lot.reference :: m.references)
    (hauthorizations : m'.authorizations = m.authorizations)
    (hbyJob : m'.authorizationByJob = m.authorizationByJob) (hallocations : m'.allocations = m.allocations) :
    Mirrors m' (grantedDb d row lot) := by
  have hid : row.id = lot.accountId := account_id hrow
  have hjobs : ∀ jobId, authorizationOfJob jobId (grantedDb d row lot).billing = authorizationOfJob
      jobId d.billing :=
    fun jobId => authorizationOfJob_of_eq rfl jobId
  have hrows : ∀ l, l ∈ (d.billing.lots.put lot).rows ↔ l = lot ∨ l ∈ d.billing.lots.rows := by
    intro l
    rw [Table.rows_put_of_none hlot, List.mem_append, List.mem_singleton, or_comm]
  have hentries : ∀ e, e ∈ (grantedDb d row lot).billing.ledger.rows ↔
      e = ⟨lot.accountId, none, .purchase, lot.credited, lot.reference⟩ ∨ e ∈ d.billing.ledger.rows := by
    intro e
    have hnone : d.billing.ledger.get? (LedgerEntry.reference ⟨lot.accountId, none, .purchase, lot.credited,
        lot.reference⟩) = none := hledger
    show e ∈ (d.billing.ledger.put _).rows ↔ _
    rw [Table.rows_put_of_none hnone, List.mem_append, List.mem_singleton, or_comm]
  refine ⟨hsound.1, hsound.2, fun r hr => ?_, ?_, hauthorizations.trans h.authorizations, fun jobId => ?_,
    fun auth hauth => ?_, fun reference => ?_, fun l hl => ?_, fun e he => ?_, fun e he jobId href => ?_⟩
  · unfold InMemoryBillingRepository.account
    rw [haccounts, Table.get?_put]
    rcases (Table.mem_put _ _ _).mp hr with rfl | ⟨hr, hne⟩
    · simp [hid]
    · have hother : lot.accountId ≠ r.id := fun heq => hne (heq.symm.trans hid.symm)
      rw [if_neg hother]
      exact h.accounts r hr
  · rw [hlots, h.lots]
    rfl
  · rw [hbyJob, hjobs]
    exact h.byJob jobId
  · have hsame : (grantedDb d row lot).billing.allocationRows auth.id auth.accountId =
        d.billing.allocationRows auth.id auth.accountId := allocationRows_of_eq rfl _ _
    rw [hallocations, hsame]
    exact h.allocations auth hauth
  · rw [hreferences, List.mem_cons, h.references]
    constructor
    · rintro (rfl | ⟨l, hl, rfl⟩)
      · exact ⟨lot, (hrows lot).mpr (Or.inl rfl), rfl⟩
      · exact ⟨l, (hrows l).mpr (Or.inr hl), rfl⟩
    · rintro ⟨l, hl, rfl⟩
      rcases (hrows l).mp hl with rfl | hl
      · exact Or.inl rfl
      · exact Or.inr ⟨l, hl, rfl⟩
  · rcases (hrows l).mp hl with rfl | hl
    · refine ⟨hoff, _, Table.get?_put_self d.billing.ledger
        ⟨l.accountId, none, .purchase, l.credited, l.reference⟩, rfl, rfl⟩
    · obtain ⟨hoffl, entry, hentry, hsame⟩ := h.granted l hl
      refine ⟨hoffl, entry, ?_, hsame⟩
      have hne : LedgerEntry.reference ⟨lot.accountId, none, .purchase, lot.credited,
          lot.reference⟩ ≠ l.reference := by
        show lot.reference ≠ l.reference
        intro heq
        rw [heq, hentry] at hledger
        cases hledger
      exact (Table.get?_put_of_ne _ hne).trans hentry
  · rcases (hentries e).mp he with rfl | he
    · exact Or.inl ⟨lot, (hrows lot).mpr (Or.inl rfl), rfl⟩
    · refine (h.entries e he).imp_left ?_
      rintro ⟨l, hl, href⟩
      exact ⟨l, (hrows l).mpr (Or.inr hl), href⟩
  · rw [hjobs]
    rcases (hentries e).mp he with rfl | he
    · exact absurd (Or.inl ⟨jobId, href⟩) hoff
    · exact h.reservations e he jobId href

theorem offLedger_of_not_own (hoff : ¬ OwnReference reference) : OffLedger reference :=
  fun status jobId href => hoff (Or.inr ⟨status, jobId, href⟩)

theorem sound_of_run {α : Type} {p : Procedure α} (hp : Keeping (fun b => b.Books ∧ b.Apart) p)
    (h : Mirrors m d) {a : α} {d' : HostedDb} (hrun : p.run d = .ok (a, d')) : d'.billing.Books ∧
      d'.billing.Apart := by
  have hkept := hp d ⟨h.books, h.apart⟩
  rw [hrun] at hkept
  exact hkept

/-- A grant, new or replayed. -/
theorem grantLot_follows (h : Mirrors m d) {lotId : String} {kind : LotKind} {row : AccountRow}
    (hrow : d.billing.accounts.get? accountId = some row) (hoff : ¬ OwnReference reference)
    (hlot : d.billing.lots.get? lotId = none) (hpos : 1 ≤ credits) (hfits : fitsInteger credits = true)
    (hkind : SameKind d accountId credits reference kind) :
    Follows (grantLot lotId accountId credits reference kind)
      (InMemoryBillingRepository.grantLot lotId accountId credits reference kind) m d := by
  have haccount := h.account hrow
  have hcredits : ¬ credits < 1 := by omega
  by_cases hnew : reference ∈ m.references
  · obtain ⟨lot, hlotRow, rfl⟩ := (h.references reference).mp hnew
    cases hfind : m.lots.rows.find? (·.reference = lot.reference) with
    | none =>
      rw [h.lots] at hfind
      simpa using List.find?_eq_none.mp hfind lot hlotRow
    | some lot' =>
      have hlot' : lot' ∈ d.billing.lots.rows := by
        rw [← h.lots]
        exact List.mem_of_find?_eq_some hfind
      have hreference : lot'.reference = lot.reference := by simpa using List.find?_some hfind
      obtain ⟨-, entry, hentry, hentryAccount, hentryCredits⟩ := h.granted lot' hlot'
      rw [hreference] at hentry
      have hrun : (grantLot lotId accountId credits lot.reference kind).run d = _ :=
        grantLot_run_replay hrow hentry
      have hmethod : InMemoryBillingRepository.grantLot lotId accountId credits lot.reference kind m =
          if (lot'.accountId, lot'.credited, lot'.kind) ≠ (accountId, credits, kind) then
            (.error (.value "payment_reference_conflict"), m)
          else (.ok (m.account accountId), m) := by
        unfold InMemoryBillingRepository.grantLot
        rw [if_neg hcredits, if_pos hnew, hfind]
      rw [hentryAccount, hentryCredits] at hrun
      by_cases hsame : (lot'.accountId, lot'.credited) = (accountId, credits)
      · obtain ⟨hsameAccount, hsameCredits⟩ := Prod.mk.inj hsame
        have hsameKind := hkind lot' hlot' hreference hsameAccount hsameCredits
        rw [if_neg (not_not.mpr hsame)] at hrun
        rw [if_neg (by simp [hsameAccount, hsameCredits, hsameKind]), haccount] at hmethod
        exact Or.inr ⟨_, m, d, hrun, hmethod, h⟩
      · rw [if_pos hsame] at hrun
        rw [if_pos (fun hall => hsame (by simp_all))] at hmethod
        exact Or.inl ⟨_, hrun, hmethod⟩
  · have hledger := h.ledger_none hoff hnew
    have hreference : ∀ lot ∈ d.billing.lots.rows, lot.reference ≠ reference := by
      intro lot hmem href
      exact hnew ((h.references reference).mpr ⟨lot, hmem, href⟩)
    have hnonneg := availableCredits_nonneg h.books (Table.mem_of_get? hrow)
    have hid : row.id = accountId := account_id hrow
    have hrun : (grantLot lotId accountId credits reference kind).run d = _ :=
      grantLot_run_new hrow hpos hfits hledger hlot hreference hnonneg
    have hsound := sound_of_run (kept_apart.grantLot lotId accountId credits reference kind
      (offLedger_of_not_own hoff))
      h hrun
    have hmethod : InMemoryBillingRepository.grantLot lotId accountId credits reference kind m =
        (.ok ⟨row.id, row.availableCredits + credits⟩,
          { m with
            accounts := m.accounts.put ⟨accountId, row.availableCredits + credits⟩
            references := reference :: m.references
            lots := m.lots.put { id := lotId, accountId, kind, reference, credited := credits }
            entries := m.entries ++ [⟨accountId, none, .purchase, credits, reference⟩] }) := by
      unfold InMemoryBillingRepository.grantLot
      rw [if_neg hcredits, if_neg hnew, haccount, hid]
    exact Or.inr ⟨_, _, _, hrun, hmethod, h.grant hrow hoff hledger hlot hsound rfl rfl rfl rfl rfl rfl⟩

theorem Mirrors.recordPayment (h : Mirrors m d) (row : PaymentEventRow) :
    Mirrors m (apply (Write.billing (.paymentEvent row)) d) :=
  ⟨h.books.recordPayment row, ⟨h.apart.credits, h.apart.ends⟩, h.accounts, h.lots, h.authorizations, h.byJob,
    h.allocations, h.references, h.granted, h.entries, h.reservations⟩

theorem Mirrors.processed (h : Mirrors m d) (events : List (String × String)) :
    Mirrors { m with processedPaymentEvents := events } d :=
  ⟨h.books, h.apart, h.accounts, h.lots, h.authorizations, h.byJob, h.allocations, h.references,
    h.granted, h.entries, h.reservations⟩

theorem processPaymentEvent_follows (h : Mirrors m d) {lotId provider providerEventId : String}
    {row : AccountRow} (hrow : d.billing.accounts.get? accountId = some row)
    (hoff : ¬ OwnReference (provider ++ ":" ++ providerEventId)) (hlot : d.billing.lots.get? lotId = none)
    (hmatch : 1 ≤ credits → fitsInteger credits = true ∧
      SameKind d accountId credits (provider ++ ":" ++ providerEventId) .purchase) :
    Follows (processPaymentEvent lotId provider providerEventId accountId credits)
      (InMemoryBillingRepository.processPaymentEvent lotId provider providerEventId accountId credits)
        m d := by
  by_cases hpos : credits < 1
  · refine Or.inl ⟨.value "invalid_credit_amount", ?_, ?_⟩
    · simp [processPaymentEvent, hpos]
    · simp [InMemoryBillingRepository.processPaymentEvent, InMemoryBillingRepository.grantLot, hpos]
  obtain ⟨hfits, hkind⟩ := hmatch (by omega)
  have hone : 1 ≤ credits := by omega
  have hrecorded : ∃ d₁, Mirrors m d₁ ∧
      (processPaymentEvent lotId provider providerEventId accountId credits).run d =
        (grantLot lotId accountId credits (provider ++ ":" ++ providerEventId) .purchase).run d₁ ∧
      d₁.billing.accounts = d.billing.accounts ∧ d₁.billing.lots = d.billing.lots := by
    cases hevent : d.billing.paymentEvents.get? (provider, providerEventId) with
    | some event =>
      refine ⟨d, h, ?_, rfl, rfl⟩
      simp [processPaymentEvent, hpos, insertPaymentEvent, hevent]
    | none =>
      refine ⟨_, h.recordPayment ⟨provider, providerEventId⟩, ?_, rfl, rfl⟩
      simp [processPaymentEvent, hpos, insertPaymentEvent, hevent]
  obtain ⟨d₁, h₁, hrun, haccounts, hlots⟩ := hrecorded
  have hkind₁ : SameKind d₁ accountId credits (provider ++ ":" ++ providerEventId) .purchase := by
    intro lot hmem
    exact hkind lot (hlots ▸ hmem)
  rcases grantLot_follows h₁ (haccounts ▸ hrow) hoff (hlots ▸ hlot) hone hfits hkind₁ with
    ⟨e, hgrant, hmethod⟩ | ⟨a, m', d', hgrant, hmethod, h'⟩
  · refine Or.inl ⟨e, hrun.trans hgrant, ?_⟩
    unfold InMemoryBillingRepository.processPaymentEvent
    rw [hmethod]
  · refine Or.inr ⟨a, _, d', hrun.trans hgrant, ?_,
      h'.processed ((provider, providerEventId) :: m'.processedPaymentEvents)⟩
    unfold InMemoryBillingRepository.processPaymentEvent
    rw [hmethod]

theorem grant_follows (h : Mirrors m d) {lotId : String} {row : AccountRow}
    (hrow : d.billing.accounts.get? accountId = some row) (hoff : ¬ OwnReference reference)
    (hlot : d.billing.lots.get? lotId = none)
    (hmatch : 1 ≤ credits → fitsInteger credits = true ∧ SameKind d accountId credits reference .grant) :
    Follows (PostgresBillingRepository.grant lotId accountId credits reference)
      (InMemoryBillingRepository.grant lotId accountId credits reference) m d := by
  by_cases hpos : credits < 1
  · refine Or.inl ⟨.value "invalid_credit_amount", ?_, ?_⟩
    · simp [PostgresBillingRepository.grant, hpos]
    · simp [InMemoryBillingRepository.grant, InMemoryBillingRepository.grantLot, hpos]
  · obtain ⟨hfits, hkind⟩ := hmatch (by omega)
    have hrun : (PostgresBillingRepository.grant lotId accountId credits reference).run d =
        (grantLot lotId accountId credits reference .grant).run d := by
      simp [PostgresBillingRepository.grant, hpos]
    have hfollows := grantLot_follows h hrow hoff hlot (by omega) hfits hkind
    unfold Follows at hfollows ⊢
    rw [hrun]
    exact hfollows

/-- The store after a reservation, with the lots and allocations that it leaves. -/
def reservedDb (d : HostedDb) (row : AccountRow) (auth : CreditAuthorization) (lots : Table CreditLot.id)
    (allocations : Table fun r : CreditAllocation => (r.authorizationId, r.lotId)) : HostedDb :=
  { d with
    billing :=
      { d.billing with
        accounts := d.billing.accounts.put
          { row with availableCredits := row.availableCredits - auth.credits }
        authorizations := d.billing.authorizations.put auth
        lots
        allocations
        ledger := d.billing.ledger.put
          ⟨auth.accountId, some auth.id, .reservation, -auth.credits, "reservation:" ++ auth.jobId⟩ } }

/-- The reference of a reservation is free while the job has none. -/
theorem Mirrors.reservation_none (h : Mirrors m d) {jobId : String}
    (hnone : authorizationOfJob jobId d.billing = none) :
    d.billing.ledger.get? ("reservation:" ++ jobId) = none := by
  refine (Table.get?_eq_none_iff _ _).mpr fun entry hentry href => ?_
  have hsome := h.reservations entry hentry jobId href
  rw [hnone] at hsome
  cases hsome

/-- The foreign key of an authorization holds when its job has a row. -/
theorem checkJobKey_run {α : Type} {d : HostedDb} {jobId : String}
    (h : (d.jobs.get? jobId).isSome = true) (a : α) :
    (Prog.step (checkJobKey jobId) fun _ => .ret a).run d = .ok (a, d) := by
  simp only [checkJobKey, Prog.run_mk, h, if_true]
  rfl

theorem reserve_run_new (h : Mirrors m d) (auth : CreditAuthorization) {row : AccountRow}
    (hrow : d.billing.accounts.get? auth.accountId = some row) (hjob : (d.jobs.get? auth.jobId).isSome = true)
    (hnone : authorizationOfJob auth.jobId d.billing = none)
    (hfresh : d.billing.authorizations.get? auth.id = none) (hpos : 1 ≤ auth.credits)
    (hfits : fitsInteger auth.credits = true) (hstatus : auth.status = .reserved)
    (hcover : auth.credits ≤ row.availableCredits) :
    ∃ parts lots allocations,
      split ((PostgresCreditLots.spendable auth.accountId d.billing).map fun lot => (lot.id, lot.available))
        auth.credits = some parts ∧
      (reserve auth.id auth.jobId auth.accountId auth.credits).run d =
        .ok (auth, reservedDb d row auth lots allocations) ∧
      lots.rows = d.billing.lots.rows.map (reservedLot parts) ∧
      allocations.rows = d.billing.allocations.rows ++
        parts.map fun part => ⟨auth.id, part.1, auth.accountId, part.2⟩ := by
  obtain ⟨authorizationId, jobId, accountId, credits, status⟩ := auth
  simp only at hrow hjob hnone hfresh hpos hfits hstatus hcover ⊢
  subst hstatus
  have hid : row.id = accountId := account_id hrow
  have hbooks := h.books
  set auth : CreditAuthorization := ⟨authorizationId, jobId, accountId, credits, .reserved⟩ with hauth
  set d₁ := apply (Write.billing (.authorization auth)) (apply (Write.billing (.account
    { row with availableCredits := row.availableCredits - credits })) d) with hd₁
  have hbalance : credits ≤ d₁.billing.lotBalance accountId := by
    have hrowBalance := hbooks.balanced.balance row (Table.mem_of_get? hrow)
    simp only [ite_self, add_zero, hid] at hrowBalance
    exact hcover.trans_eq hrowBalance
  have hnew : ∀ lotId, d₁.billing.allocations.get? (authorizationId, lotId) = none := fun lotId =>
    (Table.get?_eq_none_iff _ _).mpr fun r hr hk =>
      allocation_eq_none hbooks.balanced hfresh r hr (congrArg Prod.fst hk)
  obtain ⟨parts, lots, allocations, hparts, hrun, hlots, hallocations⟩ :=
    PostgresCreditLots.reserve_run (d := d₁) (by omega) hbooks.balanced.lotBounds
      (Table.get?_put_self d.billing.authorizations auth) rfl hnew hbalance
  refine ⟨parts, lots, allocations, hparts, ?_, hlots, hallocations⟩
  have hledger := h.reservation_none hnone
  have hcredits : ¬ credits < 1 := by omega
  have hnotpos : ¬ credits ≤ 0 := by omega
  have hfitsNeg : fitsInteger (-credits) = true := by
    simp only [fitsInteger, decide_eq_true_eq] at hfits ⊢
    omega
  have hclash : d.billing.ledger.rows.any (fun e =>
      e.authorizationId = some authorizationId ∧ e.kind = .reservation) = false := by
    rw [List.any_eq_false]
    intro e he hsame
    obtain ⟨a, ha, -⟩ := hbooks.recorded.entries e he authorizationId (of_decide_eq_true hsame).1
    rw [hfresh] at ha
    cases ha
  have haccount :
      (d.billing.accounts.put { row with availableCredits := row.availableCredits - credits }).get? accountId =
      some { row with availableCredits := row.availableCredits - credits } := by
    rw [← hid]
    exact Table.get?_put_self d.billing.accounts
      { row with availableCredits := row.availableCredits - credits }
  have hjobNone : (authorizationOfJob jobId (apply (Write.billing (.account
      { row with availableCredits := row.availableCredits - credits })) d).billing).isSome = false := by
    show (authorizationOfJob jobId d.billing).isSome = false
    rw [hnone]
    rfl
  have hfreshNone : ((apply (Write.billing (.account
      { row with availableCredits := row.availableCredits - credits })) d).billing.authorizations.get?
        authorizationId).isSome = false := by
    show (d.billing.authorizations.get? authorizationId).isSome = false
    rw [hfresh]
    rfl
  simp only [PostgresBillingRepository.reserve, hcredits, Prog.raiseIf_bind, if_false, issue_bind,
    selectAccountForUpdate, Prog.run_selectForUpdate, selectAuthorizationForJob, Prog.run_select,
    hnone, reserveNew, debitAccount, Prog.step_bind, Prog.run_update, hrow, hcover, ge_iff_le,
    if_true, one_ne_zero, insertAuthorization, Prog.run_insert, hfits, Bool.not_true, Bool.false_eq_true,
      hnotpos, hfreshNone, hjobNone]
  rw [Prog.run_bind, Prog.run_bind, hrun]
  have hledger₁ : (d₁.billing.ledger.get? ("reservation:" ++ jobId)).isSome = false := by
    show (d.billing.ledger.get? ("reservation:" ++ jobId)).isSome = false
    rw [hledger]
    rfl
  have hchecks : ledgerChecks ⟨accountId, some authorizationId, .reservation, -credits,
      "reservation:" ++ jobId⟩
      { d₁.billing with lots, allocations } = .ok () := by
    unfold ledgerChecks
    simp only [hfitsNeg, Bool.not_true, Bool.false_eq_true, if_false]
    have haccount₁ : (d₁.billing.accounts.get? accountId).isNone = false := by
      show ((d.billing.accounts.put _).get? accountId).isNone = false
      rw [haccount]
      rfl
    rw [if_neg (by simp [haccount₁])]
    exact if_neg fun hdup => Bool.eq_false_iff.mp hclash hdup.2
  simp only [insertLedger, Prog.run_insert, hledger₁, Bool.false_eq_true, if_false, hchecks]
  have hjob₁ : ((reservedDb d row auth lots allocations).jobs.get? jobId).isSome = true := hjob
  exact checkJobKey_run hjob₁ auth

theorem authorizationOfJob_put {b b' : BillingDb} {auth : CreditAuthorization}
    (h : b'.authorizations = b.authorizations.put auth) (hfresh : b.authorizations.get? auth.id = none)
    (hnone : authorizationOfJob auth.jobId b = none) (jobId : String) :
    authorizationOfJob jobId b' = if auth.jobId = jobId then some auth else authorizationOfJob jobId b := by
  unfold authorizationOfJob at hnone ⊢
  rw [h, Table.rows_put_of_none hfresh, List.find?_append]
  by_cases hjob : auth.jobId = jobId
  · subst hjob
    simp [hnone]
  · simp [hjob]

/-- What an authorization reads of the allocations after a reservation. -/
theorem allocationRows_append {b b' : BillingDb} {auth : CreditAuthorization} {parts : List (String × ℤ)}
    (hallocations : b'.allocations.rows = b.allocations.rows ++
      parts.map fun part => ⟨auth.id, part.1, auth.accountId, part.2⟩)
    (hnew : ∀ r ∈ b.allocations.rows, r.authorizationId ≠ auth.id) (a : CreditAuthorization) :
    b'.allocationRows a.id a.accountId = if a.id = auth.id then
      if a.accountId = auth.accountId then parts else [] else b.allocationRows a.id a.accountId := by
  unfold allocationRows
  rw [hallocations, List.filter_append, List.map_append, List.filter_map, List.map_map]
  by_cases hid : a.id = auth.id
  · have hold : (b.allocations.rows.filter fun r => r.authorizationId = a.id ∧
        r.accountId = a.accountId) = [] := by
      refine List.filter_eq_nil_iff.mpr fun r hr hsame => ?_
      exact hnew r hr ((of_decide_eq_true hsame).1.trans hid)
    rw [hold, if_pos hid]
    by_cases hacc : a.accountId = auth.accountId
    · simp [hid, hacc, Function.comp_def]
    · simp [hacc, Ne.symm hacc, Function.comp_def]
  · simp [hid, Ne.symm hid, Function.comp_def]

theorem Mirrors.reserve (h : Mirrors m d) {auth : CreditAuthorization} {row : AccountRow}
    {parts : List (String × ℤ)} {lots : Table CreditLot.id}
    {allocations : Table fun r : CreditAllocation => (r.authorizationId, r.lotId)}
    (hrow : d.billing.accounts.get? auth.accountId = some row)
    (hnone : authorizationOfJob auth.jobId d.billing = none)
    (hfresh : d.billing.authorizations.get? auth.id = none) (honce : (parts.map (·.1)).Nodup)
    (hfound : ∀ part ∈ parts, (d.billing.lots.get? part.1).isSome = true)
    (hlots : lots.rows = d.billing.lots.rows.map (reservedLot parts))
    (hallocations : allocations.rows = d.billing.allocations.rows ++
      parts.map fun part => ⟨auth.id, part.1, auth.accountId, part.2⟩)
    (hsound : (reservedDb d row auth lots allocations).billing.Books ∧
      (reservedDb d row auth lots allocations).billing.Apart) (entries : List LedgerEntry) :
    Mirrors
      { m with
        lots := InMemoryBillingRepository.replaceLots
          (fun amount lot => { lot with reserved := lot.reserved + amount }) m.lots parts
        allocations := m.allocations.put (auth.id, parts)
        accounts := m.accounts.put ⟨auth.accountId, row.availableCredits - auth.credits⟩
        authorizations := m.authorizations.put auth
        authorizationByJob := m.authorizationByJob.put (auth.jobId, auth.id)
        entries }
      (reservedDb d row auth lots allocations) := by
  have hid : row.id = auth.accountId := account_id hrow
  have hjobs : ∀ jobId, authorizationOfJob jobId (reservedDb d row auth lots allocations).billing =
      if auth.jobId = jobId then some auth else authorizationOfJob jobId d.billing :=
    authorizationOfJob_put rfl hfresh hnone
  have hmem : ∀ l ∈ (reservedDb d row auth lots allocations).billing.lots.rows, ∃ lot ∈ d.billing.lots.rows,
      reservedLot parts lot = l := by
    intro l hl
    exact List.mem_map.mp (hlots ▸ hl)
  have hreservation : OwnReference ("reservation:" ++ auth.jobId) := Or.inl ⟨auth.jobId, rfl⟩
  have hentries : ∀ e, e ∈ (reservedDb d row auth lots allocations).billing.ledger.rows ↔
      e = ⟨auth.accountId, some auth.id, .reservation, -auth.credits, "reservation:" ++ auth.jobId⟩ ∨
        e ∈ d.billing.ledger.rows := by
    intro e
    have hledger : d.billing.ledger.get? (LedgerEntry.reference ⟨auth.accountId, some auth.id, .reservation,
        -auth.credits, "reservation:" ++ auth.jobId⟩) = none := h.reservation_none hnone
    show e ∈ (d.billing.ledger.put _).rows ↔ _
    rw [Table.rows_put_of_none hledger, List.mem_append, List.mem_singleton, or_comm]
  refine ⟨hsound.1, hsound.2, fun r hr => ?_, ?_, ?_, fun jobId => ?_, fun a ha => ?_, fun reference => ?_,
    fun l hl => ?_, fun e he => ?_, fun e he jobId href => ?_⟩
  · unfold InMemoryBillingRepository.account
    rw [Table.get?_put]
    rcases (Table.mem_put _ _ _).mp hr with rfl | ⟨hr, hne⟩
    · simp [hid]
    · have hother : auth.accountId ≠ r.id := fun heq => hne (heq.symm.trans hid.symm)
      rw [if_neg hother]
      exact h.accounts r hr
  · refine Table.ext ?_
    have hsame : m.lots = d.billing.lots := h.lots
    show (InMemoryBillingRepository.replaceLots _ m.lots parts).rows = lots.rows
    rw [hlots, hsame]
    exact InMemoryBillingRepository.reserveLots_rows honce hfound
  · show m.authorizations.put auth = d.billing.authorizations.put auth
    rw [h.authorizations]
  · rw [hjobs, Table.get?_put]
    by_cases hjob : auth.jobId = jobId
    · simp [hjob]
    · simp only [hjob, if_false]
      exact h.byJob jobId
  · have hrows : (reservedDb d row auth lots allocations).billing.allocationRows a.id a.accountId = _ :=
      allocationRows_append hallocations (allocation_eq_none h.books.balanced hfresh) a
    rw [hrows, Table.get?_put]
    rcases (Table.mem_put _ _ _).mp ha with rfl | ⟨ha, hne⟩
    · simp
    · rw [if_neg (Ne.symm hne), if_neg hne]
      exact h.allocations a ha
  · rw [h.references]
    constructor
    · rintro ⟨l, hl, rfl⟩
      refine ⟨reservedLot parts l, ?_, rfl⟩
      show reservedLot parts l ∈ lots.rows
      rw [hlots]
      exact List.mem_map_of_mem hl
    · rintro ⟨l, hl, rfl⟩
      obtain ⟨lot, hlot, rfl⟩ := hmem l hl
      exact ⟨lot, hlot, rfl⟩
  · obtain ⟨lot, hlot, rfl⟩ := hmem l hl
    obtain ⟨hoffl, entry, hentry, hsame⟩ := h.granted lot hlot
    refine ⟨hoffl, entry, ?_, hsame⟩
    have hne : LedgerEntry.reference ⟨auth.accountId, some auth.id, .reservation, -auth.credits,
        "reservation:" ++ auth.jobId⟩ ≠ lot.reference := by
      show "reservation:" ++ auth.jobId ≠ lot.reference
      intro heq
      exact hoffl (heq ▸ hreservation)
    exact (Table.get?_put_of_ne _ hne).trans hentry
  · rcases (hentries e).mp he with rfl | he
    · exact Or.inr hreservation
    · refine (h.entries e he).imp_left ?_
      rintro ⟨l, hl, href⟩
      refine ⟨reservedLot parts l, ?_, href⟩
      show reservedLot parts l ∈ lots.rows
      rw [hlots]
      exact List.mem_map_of_mem hl
  · rw [hjobs]
    rcases (hentries e).mp he with rfl | he
    · rw [if_pos (prefix_inj href)]
      rfl
    · split_ifs
      · rfl
      · exact h.reservations e he jobId href

theorem Mirrors.job_none (h : Mirrors m d) {jobId : String}
    (hnone : authorizationOfJob jobId d.billing = none) :
    m.authorizationByJob.get? jobId = none := by
  have hbyJob := h.byJob jobId
  rw [hnone, Option.map_none, Option.map_eq_none_iff] at hbyJob
  exact hbyJob

theorem Mirrors.job_some (h : Mirrors m d) {jobId : String} {auth : CreditAuthorization}
    (hauth : authorizationOfJob jobId d.billing = some auth) :
    ∃ entry, m.authorizationByJob.get? jobId = some entry ∧ m.authorizations.get? entry.2 = some auth := by
  have hbyJob := h.byJob jobId
  rw [hauth, Option.map_some, Option.map_eq_some_iff] at hbyJob
  obtain ⟨entry, hentry, hid⟩ := hbyJob
  refine ⟨entry, hentry, ?_⟩
  rw [hid, h.authorizations]
  exact (authorizationOfJob_get? hauth).1

theorem reserve_follows (h : Mirrors m d) {authorizationId jobId : String} {row : AccountRow}
    (hrow : d.billing.accounts.get? accountId = some row) (hjob : (d.jobs.get? jobId).isSome = true)
    (hfresh : d.billing.authorizations.get? authorizationId = none)
    (hmatch : if 1 ≤ credits then authorizationOfJob jobId d.billing = none → credits ≤ row.availableCredits →
      fitsInteger credits = true else authorizationOfJob jobId d.billing = none) :
    Follows (PostgresBillingRepository.reserve authorizationId jobId accountId credits)
      (InMemoryBillingRepository.reserve authorizationId jobId accountId credits) m d := by
  have haccount := h.account hrow
  by_cases hpos : credits < 1
  · rw [if_neg (by omega)] at hmatch
    have hnone := h.job_none hmatch
    refine Or.inl ⟨.value "invalid_credit_amount", ?_, ?_⟩
    · simp [PostgresBillingRepository.reserve, hpos]
    · simp [InMemoryBillingRepository.reserve, hnone, hpos]
  rw [if_pos (by omega)] at hmatch
  cases hauth : authorizationOfJob jobId d.billing with
  | some auth =>
    obtain ⟨entry, hentry, hget⟩ := h.job_some hauth
    have hrun : (PostgresBillingRepository.reserve authorizationId jobId accountId credits).run d =
        if (auth.accountId, auth.credits) ≠ (accountId, credits) then .error (.value "authorization_conflict")
        else .ok (auth, d) := by
      simp only [PostgresBillingRepository.reserve, hpos, Prog.raiseIf_bind, if_false, issue_bind,
        selectAccountForUpdate, Prog.run_selectForUpdate, selectAuthorizationForJob, Prog.run_select, hauth]
      split_ifs <;> rfl
    have hmethod : InMemoryBillingRepository.reserve authorizationId jobId accountId credits m =
        if (auth.accountId, auth.credits) ≠ (accountId,
          credits) then (.error (.value "authorization_conflict"), m)
        else (.ok auth, m) := by
      simp only [InMemoryBillingRepository.reserve, hentry, hget]
    by_cases hsame : (auth.accountId, auth.credits) ≠ (accountId, credits)
    · rw [if_pos hsame] at hrun hmethod
      exact Or.inl ⟨_, hrun, hmethod⟩
    · rw [if_neg hsame] at hrun hmethod
      exact Or.inr ⟨_, m, d, hrun, hmethod, h⟩
  | none =>
    have hnone := h.job_none hauth
    by_cases hcover : credits ≤ row.availableCredits
    swap
    · refine Or.inl ⟨.value "insufficient_credits", ?_, ?_⟩
      · simp [PostgresBillingRepository.reserve, hpos, selectAccountForUpdate,
          selectAuthorizationForJob, hauth, reserveNew, debitAccount, hrow, hcover]
      · have hless : row.availableCredits < credits := not_le.mp hcover
        simp [InMemoryBillingRepository.reserve, hnone, hpos, haccount, hless]
    have hless : ¬ row.availableCredits < credits := not_lt.mpr hcover
    have hone : 1 ≤ credits := by omega
    have hfits := hmatch hauth hcover
    obtain ⟨parts, lots, allocations, hparts, hrun, hlots, hallocations⟩ :=
      reserve_run_new h ⟨authorizationId, jobId, accountId, credits, .reserved⟩ hrow hjob hauth hfresh hone
        hfits rfl hcover
    have hsound := sound_of_run (reserve_keeping kept_apart authorizationId jobId accountId credits) h hrun
    have hgt : 0 < credits := by omega
    have hsplit : PostgresCreditLots.GreedySplit d.billing { d.billing with lots, allocations }
        authorizationId
        accountId credits parts := PostgresCreditLots.greedy_of_split hgt h.books.balanced.lotBounds hparts
          hlots hallocations
    have hfound : ∀ part ∈ parts, (d.billing.lots.get? part.1).isSome = true := by
      intro part hpart
      obtain ⟨lot, hlot, hid, -⟩ := hsplit.bounded part hpart
      rw [← hid, Table.get?_of_mem hlot]
      rfl
    have htake : InMemoryBillingRepository.takeLots
        (PostgresCreditLots.lotOrder accountId d.billing) credits =
        (parts, 0) := by
      refine InMemoryBillingRepository.takeLots_split hgt (fun lot hlot => ?_) ?_
      · have hbounds := (lotChecks_iff lot).mp
          (h.books.balanced.lotBounds lot (PostgresCreditLots.mem_lotOrder.mp hlot).1)
        unfold CreditLot.available
        omega
      · rw [← PostgresCreditLots.spendable_eq_filter]
        exact hparts
    have hsorted : (m.creditLots accountId).filter (·.kind ≠ .purchase) ++
        (m.creditLots accountId).filter (·.kind = .purchase) = PostgresCreditLots.lotOrder accountId
          d.billing := by
      unfold InMemoryBillingRepository.creditLots PostgresCreditLots.lotOrder
      rw [h.lots]
    have hmethod : InMemoryBillingRepository.reserve authorizationId jobId accountId credits m =
        (.ok ⟨authorizationId, jobId, accountId, credits, .reserved⟩,
          { m with
            lots := InMemoryBillingRepository.replaceLots
              (fun amount lot => { lot with reserved := lot.reserved + amount }) m.lots parts
            allocations := m.allocations.put (authorizationId, parts)
            accounts := m.accounts.put ⟨accountId, row.availableCredits - credits⟩
            authorizations := m.authorizations.put ⟨authorizationId, jobId, accountId, credits, .reserved⟩
            authorizationByJob := m.authorizationByJob.put (jobId, authorizationId)
            entries :=
              m.entries ++ [⟨accountId, some authorizationId, .reservation, -credits, jobId⟩] }) := by
      unfold InMemoryBillingRepository.reserve
      rw [hnone]
      simp only [hpos, if_false, haccount, hless, hsorted, htake, ne_eq, not_true_eq_false]
    exact Or.inr ⟨_, _, _, hrun, hmethod, h.reserve hrow hauth hfresh hsplit.once hfound hlots
      hallocations hsound _⟩

theorem endedRow_id (auth : CreditAuthorization) (status : AuthorizationStatus) (a : CreditAuthorization) :
    (endedRow auth status a).id = a.id ∧ (endedRow auth status a).accountId = a.accountId := by
  unfold endedRow
  split_ifs
  · exact ⟨rfl, rfl⟩
  · exact ⟨rfl, rfl⟩

theorem Mirrors.finalize (h : Mirrors m d) {auth : CreditAuthorization} {status : AuthorizationStatus}
    {row : AccountRow} (hrow : d.billing.accounts.get? auth.accountId = some row)
    (hget : d.billing.authorizations.get? auth.id = some auth)
    (hledger : d.billing.ledger.get? (endEntry auth status).reference = none)
    (hsound : (d.billing.closed auth status).Books ∧ (d.billing.closed auth status).Apart)
    (hstatus : status ≠ .reserved) (entries : List LedgerEntry) :
    Mirrors
      { m with
        authorizations := m.authorizations.put { auth with status }
        lots := InMemoryBillingRepository.replaceLots (fun amount lot =>
          { lot with
            reserved := lot.reserved - amount
            consumed := lot.consumed + if status = .settled then amount else 0 }) m.lots
          (d.billing.allocationRows auth.id auth.accountId)
        accounts :=
          if status = .settled then m.accounts
          else m.accounts.put ⟨auth.accountId, row.availableCredits + auth.credits⟩
        entries }
      { d with billing := d.billing.closed auth status } := by
  have hid : row.id = auth.accountId := account_id hrow
  have hend : OwnReference (endEntry auth status).reference := by
    rw [reference_endEntry]
    exact Or.inr ⟨status, auth.jobId, rfl⟩
  have hentries : ∀ e, e ∈ (d.billing.closed auth status).ledger.rows ↔
      e = endEntry auth status ∨ e ∈ d.billing.ledger.rows := by
    intro e
    show e ∈ (d.billing.ledger.put _).rows ↔ _
    rw [Table.rows_put_of_none hledger, List.mem_append, List.mem_singleton, or_comm]
  have hfound : ∀ part ∈ d.billing.allocationRows auth.id auth.accountId,
      (d.billing.lots.get? part.1).isSome = true := by
    intro part hpart
    obtain ⟨r, hr, rfl⟩ := List.mem_map.mp hpart
    obtain ⟨lot, hlot, -⟩ := (h.books.balanced.owned r (List.mem_filter.mp hr).1).lot
    exact Option.isSome_iff_exists.mpr ⟨lot, hlot⟩
  refine ⟨hsound.1, hsound.2, fun r hr => ?_, ?_, ?_, fun jobId => ?_, fun a ha => ?_, fun reference => ?_,
    fun l hl => ?_, fun e he => ?_, fun e he jobId href => ?_⟩
  · obtain ⟨old, hold, rfl⟩ := List.mem_map.mp hr
    unfold InMemoryBillingRepository.account refundedRow
    cases status with
    | reserved => exact absurd rfl hstatus
    | settled =>
      have hsame := h.accounts old hold
      unfold InMemoryBillingRepository.account at hsame
      simp [hsame]
    | released =>
      by_cases hacc : old.id = auth.accountId
      · have hsame : old = row := Table.eq_of_mem hold (Table.mem_of_get? hrow) (hacc.trans hid.symm)
        simp [hsame, hid]
      · have hother := h.accounts old hold
        unfold InMemoryBillingRepository.account at hother
        simp [hacc, Table.get?_put, Ne.symm hacc, hother]
  · refine Table.ext ?_
    have hsame : m.lots = d.billing.lots := h.lots
    show (InMemoryBillingRepository.replaceLots _ m.lots _).rows = _
    rw [hsame]
    exact InMemoryBillingRepository.finalizeLots_rows status (nodup_allocationRows _ _ _) hfound
  · show m.authorizations.put { auth with status } = _
    rw [h.authorizations]
    refine (Table.put_eq_map (r := { auth with status }) hget).trans (Table.ext ?_)
    refine List.map_congr_left fun a ha => ?_
    unfold endedRow
    split_ifs with hid
    · rw [Table.eq_of_mem ha (Table.mem_of_get? hget) hid]
    · rfl
  · rw [authorizationOfJob_closed, Option.map_map]
    have hsame : CreditAuthorization.id ∘ endedRow auth status = CreditAuthorization.id :=
      funext fun a => (endedRow_id auth status a).1
    rw [hsame]
    exact h.byJob jobId
  · obtain ⟨old, hold, rfl⟩ := List.mem_map.mp ha
    obtain ⟨haid, hacc⟩ := endedRow_id auth status old
    rw [haid, hacc]
    exact h.allocations old hold
  · rw [h.references]
    constructor
    · rintro ⟨l, hl, rfl⟩
      exact ⟨_, List.mem_map_of_mem hl, rfl⟩
    · rintro ⟨l, hl, rfl⟩
      obtain ⟨lot, hlot, rfl⟩ := List.mem_map.mp hl
      exact ⟨lot, hlot, rfl⟩
  · obtain ⟨lot, hlot, rfl⟩ := List.mem_map.mp hl
    obtain ⟨hoffl, entry, hentry, hsame⟩ := h.granted lot hlot
    refine ⟨hoffl, entry, ?_, hsame⟩
    have hne : (endEntry auth status).reference ≠ lot.reference := by
      intro heq
      exact hoffl (heq ▸ hend)
    exact (Table.get?_put_of_ne _ hne).trans hentry
  · rcases (hentries e).mp he with rfl | he
    · exact Or.inr hend
    · refine (h.entries e he).imp_left ?_
      rintro ⟨l, hl, href⟩
      exact ⟨_, List.mem_map_of_mem hl, href⟩
  · rw [authorizationOfJob_closed, Option.isSome_map]
    rcases (hentries e).mp he with rfl | he
    · rw [reference_endEntry] at href
      exact absurd href (endReference_ne_reservation status auth.jobId jobId)
    · exact h.reservations e he jobId href

theorem finalize_follows (h : Mirrors m d) (jobId : String) (status : AuthorizationStatus) :
    Follows (PostgresBillingRepository.finalize jobId status)
      (InMemoryBillingRepository.finalize jobId status) m d := by
  by_cases hstatus : status = .reserved
  · refine Or.inl ⟨.value "invalid_final_authorization_status", ?_, ?_⟩
    · simp [PostgresBillingRepository.finalize, hstatus]
    · simp [InMemoryBillingRepository.finalize, hstatus]
  cases hauth : authorizationOfJob jobId d.billing with
  | none =>
    refine Or.inl ⟨.key jobId, finalize_run_none hstatus hauth, ?_⟩
    simp [InMemoryBillingRepository.finalize, hstatus, InMemoryBillingRepository.authorizationForJob,
      h.job_none hauth]
  | some auth =>
    obtain ⟨entry, hentry, hget⟩ := h.job_some hauth
    have hjob : m.authorizationForJob jobId = .ok auth := by
      unfold InMemoryBillingRepository.authorizationForJob
      rw [hentry]
      simp only [hget]
    by_cases hreserved : auth.status = .reserved
    swap
    · refine Or.inr ⟨auth, m, d, finalize_run_final hstatus hauth hreserved, ?_, h⟩
      simp [InMemoryBillingRepository.finalize, hstatus, hjob, hreserved]
    obtain ⟨hget, hjobId⟩ := authorizationOfJob_get? hauth
    obtain ⟨row, hrow⟩ := account_of_reserved h.books h.apart hget
    obtain ⟨hledger, -⟩ := ledger_open h.books h.apart hget hreserved status
    have hrun := finalize_run h.books h.apart hstatus hauth hreserved
    have hsound := sound_of_run (kept_apart.finalize jobId status) h hrun
    have hmirrors := h.finalize hrow hget hledger hsound hstatus (m.entries ++ [
      if status = .settled then ⟨auth.accountId, some auth.id, .settlement, 0, jobId⟩
      else ⟨auth.accountId, some auth.id, .release, auth.credits, jobId⟩])
    have hallocations := h.allocations auth (Table.mem_of_get? hget)
    have haccount : InMemoryBillingRepository.account auth.accountId
        { m with authorizations := m.authorizations.put { auth with status } } = row.toCreditAccount :=
          h.account hrow
    refine Or.inr ⟨_, _, _, hrun, ?_, hmirrors⟩
    unfold InMemoryBillingRepository.finalize
    rw [if_neg hstatus, hjob]
    simp only [hreserved, ne_eq, not_true_eq_false, if_false, hallocations]
    rw [haccount]

end

end KenkuiServer.Billing
