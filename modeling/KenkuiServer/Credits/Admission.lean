import KenkuiServer.Billing.Service
import KenkuiServer.Credits.InMemory

/-! Admission over the in-memory and over the durable repository. -/
namespace KenkuiServer.Billing
open Txn Data Storage BillingDb

namespace InMemoryBillingRepository

def service : BillingRepository InMemoryBillingRepository where
  reserve := reserve
  finalize := finalize
  authorization jobId r := (r.authorizationForJob jobId).toOption
  balance accountId r := (r.account accountId).availableCredits
  lots r := r.lots.rows

/-- The tables of the repository belong together, as they do in every state that its methods reach. -/
structure Consistent (r : InMemoryBillingRepository) : Prop where
  byJob : ∀ jobId p, r.authorizationByJob.get? jobId = some p →
    ∃ a, r.authorizations.get? p.2 = some a ∧ a.jobId = jobId
  allocations : ∀ id a, r.authorizations.get? id = some a → ∃ parts, r.allocations.get? id = some parts

theorem consistent_empty : ({} : InMemoryBillingRepository).Consistent :=
  ⟨fun _ _ h => by simp at h, fun _ _ h => by simp at h⟩

section
variable {r : InMemoryBillingRepository} {jobId : String} {auth : CreditAuthorization}

theorem authorization_eq_some (h : service.authorization jobId r = some auth) :
    ∃ p, r.authorizationByJob.get? jobId = some p ∧ r.authorizations.get? p.2 = some auth := by
  simp only [service, authorizationForJob] at h
  cases hp : r.authorizationByJob.get? jobId with
  | none => simp [hp, Except.toOption] at h
  | some p =>
    cases ha : r.authorizations.get? p.2 with
    | none => simp [hp, ha, Except.toOption] at h
    | some a =>
      simp only [hp, ha, Except.toOption, Option.some.injEq] at h
      exact ⟨p, rfl, h ▸ ha⟩

theorem authorization_of_get? {p : String × String} (hp : r.authorizationByJob.get? jobId = some p)
    (ha : r.authorizations.get? p.2 = some auth) : service.authorization jobId r = some auth := by
  simp [service, authorizationForJob, hp, ha, Except.toOption]

theorem byJob_eq_none (hr : r.Consistent) (h : service.authorization jobId r = none) :
    r.authorizationByJob.get? jobId = none := by
  cases hp : r.authorizationByJob.get? jobId with
  | none => rfl
  | some p =>
    obtain ⟨a, ha, -⟩ := hr.byJob jobId p hp
    rw [authorization_of_get? hp ha] at h
    cases h

theorem reserve_keeps_error {id accountId : String} {credits : ℤ} {r' : InMemoryBillingRepository} {e : Error}
    (h : reserve id jobId accountId credits r = (.error e, r')) : r' = r := by
  unfold reserve at h
  split at h
  · split at h
    · exact (Prod.mk.inj h).2.symm
    · split_ifs at h
      · exact (Prod.mk.inj h).2.symm
      · cases (Prod.mk.inj h).1
  · simp only at h
    split_ifs at h
    · exact (Prod.mk.inj h).2.symm
    · exact (Prod.mk.inj h).2.symm
    · exact (Prod.mk.inj h).2.symm
    · cases (Prod.mk.inj h).1

theorem reserve_existing {id accountId : String} {credits : ℤ}
    (h : service.authorization jobId r = some auth) :
    reserve id jobId accountId credits r =
      (if (auth.accountId, auth.credits) ≠ (accountId, credits) then .error (.value "authorization_conflict")
        else .ok auth, r) := by
  obtain ⟨p, hp, ha⟩ := authorization_eq_some h
  unfold reserve
  simp only [hp, ha]
  split_ifs <;> rfl

theorem takeLots_sublist (lots : List CreditLot) (remaining : ℤ) :
    ((takeLots lots remaining).1.map (·.1)).Sublist (lots.map (·.id)) := by
  induction lots generalizing remaining with
  | nil => exact List.Sublist.slnil
  | cons lot lots ih =>
    unfold takeLots
    simp only
    split_ifs with hdone hnone hnone
    · simp
    · simp
    · exact (ih _).cons_cons lot.id
    · exact (ih _).cons lot.id

theorem finalizedLot_reservedLot (parts : List (String × ℤ)) (lot : CreditLot) :
    PostgresCreditLots.finalizedLot .released parts (reservedLot parts lot) = lot := by
  obtain ⟨id, accountId, kind, reference, credited, reserved, consumed⟩ := lot
  simp only [PostgresCreditLots.finalizedLot, reservedLot, reduceCtorEq, if_false, add_zero,
    CreditLot.mk.injEq, true_and, and_true]
  exact add_sub_cancel_right reserved _

/-- The repository after a new reservation. -/
def reservedWith (r : InMemoryBillingRepository) (auth : CreditAuthorization) (parts : List (String × ℤ)) :
    InMemoryBillingRepository :=
  { r with
    lots := replaceLots (fun amount lot => { lot with reserved := lot.reserved + amount }) r.lots parts
    allocations := r.allocations.put (auth.id, parts)
    accounts := r.accounts.put ⟨auth.accountId, (r.account auth.accountId).availableCredits - auth.credits⟩
    authorizations := r.authorizations.put auth
    authorizationByJob := r.authorizationByJob.put (auth.jobId, auth.id)
    entries := r.entries ++ [⟨auth.accountId, some auth.id, .reservation, -auth.credits, auth.jobId⟩] }

theorem reserve_ok {id accountId : String} {credits : ℤ} {r' : InMemoryBillingRepository}
    {a : CreditAuthorization} (hnone : r.authorizationByJob.get? jobId = none)
    (h : reserve id jobId accountId credits r = (.ok a, r')) :
    ∃ parts : List (String × ℤ), (parts.map (·.1)).Nodup ∧
      (∀ part ∈ parts, (r.lots.get? part.1).isSome = true) ∧
      r' = r.reservedWith ⟨id, jobId, accountId, credits, .reserved⟩ parts := by
  unfold reserve at h
  simp only [hnone] at h
  split_ifs at h
  iterate 3 cases (Prod.mk.inj h).1
  obtain ⟨-, rfl⟩ := Prod.mk.inj h
  set lots := r.creditLots accountId with hlots
  set sorted := lots.filter (·.kind ≠ .purchase) ++ lots.filter (·.kind = .purchase) with hsorted
  have hids : (sorted.map (·.id)).Nodup := by
    have hperm : sorted.Perm lots := by
      have := List.filter_append_perm (fun lot : CreditLot => decide (lot.kind ≠ .purchase)) lots
      simpa [hsorted] using this
    refine (hperm.map _).nodup_iff.mpr ?_
    exact r.lots.nodup.sublist (List.filter_sublist.map _)
  have hsub := takeLots_sublist sorted credits
  refine ⟨(takeLots sorted credits).1, hids.sublist hsub, fun part hpart => ?_, rfl⟩
  obtain ⟨lot, hlot, hid⟩ := List.mem_map.mp (hsub.subset (List.mem_map_of_mem hpart))
  have hmem : lot ∈ r.lots.rows := by
    rcases List.mem_append.mp hlot with hlot | hlot
    · exact List.mem_of_mem_filter (List.mem_of_mem_filter hlot)
    · exact List.mem_of_mem_filter (List.mem_of_mem_filter hlot)
  rw [← hid, Table.get?_of_mem hmem]
  rfl

theorem finalize_existing {status : AuthorizationStatus} (hstatus : status ≠ .reserved)
    (h : service.authorization jobId r = some auth) (hfinal : auth.status ≠ .reserved) :
    finalize jobId status r = (.ok auth, r) := by
  obtain ⟨p, hp, ha⟩ := authorization_eq_some h
  simp [finalize, hstatus, authorizationForJob, hp, ha, hfinal]

/-- The repository after the end of a reservation. -/
def finalizedWith (r : InMemoryBillingRepository) (auth : CreditAuthorization) (status : AuthorizationStatus)
    (parts : List (String × ℤ)) : InMemoryBillingRepository :=
  { r with
    authorizations := r.authorizations.put { auth with status }
    lots := replaceLots (fun amount lot =>
      { lot with
        reserved := lot.reserved - amount
        consumed := lot.consumed + if status = .settled then amount else 0 }) r.lots parts
    accounts :=
      if status = .settled then r.accounts
      else r.accounts.put ⟨auth.accountId, (r.account auth.accountId).availableCredits + auth.credits⟩
    entries := r.entries ++ [
      if status = .settled then ⟨auth.accountId, some auth.id, .settlement, 0, auth.jobId⟩
      else ⟨auth.accountId, some auth.id, .release, auth.credits, auth.jobId⟩] }

theorem finalize_reserved {status : AuthorizationStatus} (hstatus : status ≠ .reserved) (hr : r.Consistent)
    (h : service.authorization jobId r = some auth) (hreserved : auth.status = .reserved) :
    ∃ parts, r.allocations.get? auth.id = some parts ∧
      finalize jobId status r = (.ok { auth with status }, r.finalizedWith auth status parts.2) := by
  obtain ⟨p, hp, ha⟩ := authorization_eq_some h
  have hid : auth.id = p.2 := Table.key_of_get? ha
  obtain ⟨a, ha', hjob⟩ := hr.byJob jobId p hp
  obtain rfl : auth = a := by simpa [ha] using ha'
  obtain ⟨parts, hparts⟩ := hr.allocations p.2 auth ha
  refine ⟨parts, hid ▸ hparts, ?_⟩
  simp only [finalize, hstatus, if_false, authorizationForJob, hp, ha, hreserved, ne_eq,
    not_true_eq_false, hid, hparts]
  subst hjob
  simp only [finalizedWith, hid]
  rfl

theorem authorization_put (auth : CreditAuthorization) {r' : InMemoryBillingRepository} (hr : r.Consistent)
    (hauthorizations : r'.authorizations = r.authorizations.put auth)
    (hbyJob : ∀ jobId, r'.authorizationByJob.get? jobId =
      if auth.jobId = jobId then some (jobId, auth.id) else r.authorizationByJob.get? jobId)
    (hown : ∀ a, r.authorizations.get? auth.id = some a → a.jobId = auth.jobId) (jobId : String) :
    service.authorization jobId r' = if auth.jobId = jobId then some auth
      else service.authorization jobId r := by
  simp only [service, authorizationForJob, hbyJob, hauthorizations]
  by_cases hjob : auth.jobId = jobId
  · simp [hjob, Except.toOption]
  · simp only [hjob, if_false]
    cases hp : r.authorizationByJob.get? jobId with
    | none => rfl
    | some p =>
      obtain ⟨a, ha, rfl⟩ := hr.byJob jobId p hp
      have hne : auth.id ≠ p.2 := by
        intro hid
        rw [← hid] at ha
        exact hjob (hown a ha).symm
      simp only [Table.get?_put_of_ne _ hne]

theorem Consistent.put {r' : InMemoryBillingRepository} (hr : r.Consistent)
    (hauthorizations : r'.authorizations = r.authorizations.put auth)
    (hbyJob : ∀ jobId, r'.authorizationByJob.get? jobId =
      if auth.jobId = jobId then some (jobId, auth.id) else r.authorizationByJob.get? jobId)
    (hown : ∀ a, r.authorizations.get? auth.id = some a → a.jobId = auth.jobId)
    (hallocations : ∀ id, (id = auth.id ∨ (r.allocations.get? id).isSome = true) →
      (r'.allocations.get? id).isSome = true) :
    r'.Consistent := by
  constructor
  · intro jobId p hp
    rw [hbyJob] at hp
    rw [hauthorizations]
    split_ifs at hp with hjob
    · cases hp
      exact ⟨auth, Table.get?_put_self _ _, hjob⟩
    · obtain ⟨a, ha, rfl⟩ := hr.byJob jobId p hp
      refine ⟨a, ?_, rfl⟩
      rw [Table.get?_put_of_ne, ha]
      intro hid
      rw [← hid] at ha
      exact hjob (hown a ha).symm
  · intro id a ha
    rw [hauthorizations, Table.get?_put] at ha
    refine Option.isSome_iff_exists.mp (hallocations id ?_)
    split_ifs at ha with hid
    · exact .inl hid.symm
    · obtain ⟨parts, hparts⟩ := hr.allocations id a ha
      exact .inr (by rw [hparts]; rfl)

theorem Consistent.grantLot (hr : r.Consistent) (lotId accountId reference : String) (credits : ℤ)
    (kind : LotKind) :
    (InMemoryBillingRepository.grantLot lotId accountId credits reference kind r).2.Consistent := by
  unfold InMemoryBillingRepository.grantLot
  split_ifs
  · exact hr
  · split
    · exact hr
    · split_ifs
      · exact hr
      · exact hr
  · exact ⟨hr.byJob, hr.allocations⟩

theorem account_put {r' : InMemoryBillingRepository} {accountId : String} {credits : ℤ}
    (h : r'.accounts = r.accounts.put ⟨accountId, credits⟩) (id : String) :
    (r'.account id).availableCredits =
      if accountId = id then credits else (r.account id).availableCredits := by
  unfold account
  rw [h, Table.get?_put]
  split_ifs <;> rfl

theorem reserves_new {id accountId : String} {credits : ℤ} (hr : r.Consistent)
    (hfresh : r.authorizations.get? id = none) (hpos : 0 < credits)
    (hnone : service.authorization jobId r = none) {parts : List (String × ℤ)}
    (hnodup : (parts.map (·.1)).Nodup) (hfound : ∀ part ∈ parts, (r.lots.get? part.1).isSome = true) :
    Reserves service Consistent r (r.reservedWith ⟨id, jobId, accountId, credits, .reserved⟩ parts)
      ⟨id, jobId, accountId, credits, .reserved⟩ := by
  set auth : CreditAuthorization := ⟨id, jobId, accountId, credits, .reserved⟩ with hauth
  have hbyJob : ∀ j, (r.reservedWith auth parts).authorizationByJob.get? j =
      if auth.jobId = j then some (j, auth.id) else r.authorizationByJob.get? j := by
    intro j
    refine (Table.get?_put _ _ _).trans ?_
    split_ifs with hj
    · rw [← hj]
    · rfl
  have hown : ∀ a, r.authorizations.get? auth.id = some a → a.jobId = auth.jobId := by
    intro a ha
    rw [hfresh] at ha
    cases ha
  have hauthorization : ∀ j, service.authorization j (r.reservedWith auth parts) =
      if auth.jobId = j then some auth else service.authorization j r :=
        authorization_put auth hr rfl hbyJob hown
  have hself : service.authorization jobId (r.reservedWith auth parts) = some auth :=
    (hauthorization jobId).trans (if_pos rfl)
  have hinv : (r.reservedWith auth parts).Consistent := by
    refine hr.put rfl hbyJob hown fun x hx => ?_
    show ((r.allocations.put (id, parts)).get? x).isSome = true
    rw [Table.get?_put]
    split_ifs with hid
    · rfl
    · rcases hx with rfl | hx
      · exact absurd rfl hid
      · exact hx
  have hbalance : ∀ a, ((r.reservedWith auth parts).account a).availableCredits =
      if accountId = a then (r.account accountId).availableCredits - credits
        else (r.account a).availableCredits :=
    account_put rfl
  refine ⟨hinv, hauthorization, ?_, ?_⟩
  · show ((r.reservedWith auth parts).account accountId).availableCredits ≠ (r.account
      accountId).availableCredits
    rw [hbalance, if_pos rfl]
    omega
  · have hreleased : AuthorizationStatus.released ≠ .reserved := by decide
    obtain ⟨parts', hparts', hfinalize⟩ := finalize_reserved hreleased hinv hself rfl
    have hsame : (r.reservedWith auth parts).allocations.get? auth.id = some (auth.id, parts) :=
      Table.get?_put_self r.allocations (auth.id, parts)
    obtain rfl : (auth.id, parts) = parts' := by simpa [hsame] using hparts'
    have hstate : (service.finalize jobId .released (r.reservedWith auth parts)).2 =
        (r.reservedWith auth parts).finalizedWith auth .released parts := congrArg Prod.snd hfinalize
    show Neutral service r (service.finalize jobId .released (r.reservedWith auth parts)).2
    rw [hstate]
    constructor
    · intro a
      have hrefund : (((r.reservedWith auth parts).finalizedWith auth .released parts).account
          a).availableCredits =
          if accountId = a then ((r.reservedWith auth parts).account accountId).availableCredits + credits
          else ((r.reservedWith auth parts).account a).availableCredits := account_put rfl a
      show (((r.reservedWith auth parts).finalizedWith auth .released parts).account a).availableCredits =
        (r.account a).availableCredits
      rw [hrefund, hbalance, hbalance]
      by_cases ha : accountId = a
      · simp [ha]
      · simp [ha]
    · have hreserve := reserveLots_rows hnodup hfound
      have hfound' : ∀ part ∈ parts, ((r.reservedWith auth parts).lots.get? part.1).isSome = true := by
        intro part hpart
        obtain ⟨lot, hlot⟩ := Option.isSome_iff_exists.mp (hfound part hpart)
        have hmem : reservedLot parts lot ∈ (r.reservedWith auth parts).lots.rows := by
          show reservedLot parts lot ∈ (replaceLots _ r.lots parts).rows
          rw [hreserve]
          exact List.mem_map_of_mem (Table.mem_of_get? hlot)
        have hget := Table.get?_of_mem hmem
        have hkey : lot.id = part.1 := Table.key_of_get? hlot
        have hid : (reservedLot parts lot).id = part.1 := hkey
        rw [← hid, hget]
        rfl
      have hrelease := finalizeLots_rows .released hnodup hfound'
      show (replaceLots _ (r.reservedWith auth parts).lots parts).rows = r.lots.rows
      rw [hrelease]
      show (replaceLots _ r.lots parts).rows.map _ = r.lots.rows
      rw [hreserve, List.map_map]
      refine (List.map_congr_left fun lot _ => ?_).trans (List.map_id _)
      exact finalizedLot_reservedLot parts lot
    · intro j a ha
      have hne : jobId ≠ j := by
        rintro rfl
        rw [hnone] at ha
        cases ha
      have hbyJob' : ∀ j, ((r.reservedWith auth parts).finalizedWith auth .released
          parts).authorizationByJob.get? j =
          if auth.jobId = j then some (j, auth.id)
            else (r.reservedWith auth parts).authorizationByJob.get? j := by
        intro j
        show (r.reservedWith auth parts).authorizationByJob.get? j = _
        rw [hbyJob]
        by_cases hj : auth.jobId = j
        · rw [if_pos hj, if_pos hj]
        · rw [if_neg hj, if_neg hj]
      have hown' : ∀ x, (r.reservedWith auth parts).authorizations.get? auth.id = some x →
          x.jobId = auth.jobId := by
        intro x hx
        have hself : (r.reservedWith auth parts).authorizations.get? auth.id = some auth :=
          Table.get?_put_self r.authorizations auth
        obtain rfl : auth = x := by simpa [hself] using hx
        rfl
      have hfinal : service.authorization j ((r.reservedWith auth parts).finalizedWith auth .released parts) =
          if auth.jobId = j then some { auth with status := .released }
          else service.authorization j (r.reservedWith auth parts) :=
          authorization_put { auth with status := .released } hinv rfl hbyJob' hown' j
      rw [hfinal, if_neg hne, hauthorization, if_neg hne, ha]

end

theorem service_lawful : Lawful service Consistent fun id r => r.authorizations.get? id = none where
  reserve_error _ h := reserve_keeps_error h
  reserve_found _ _ h := reserve_existing h
  reserve_new hr hfresh hpos hnone h := by
    obtain ⟨parts, hnodup, hfound, rfl⟩ := reserve_ok (byJob_eq_none hr hnone) h
    exact reserves_new hr hfresh hpos hnone hnodup hfound
  finalize_final _ h hfinal hstatus := finalize_existing hstatus h hfinal
  finalize_open := by
    intro jobId status r auth hr h hreserved hstatus
    obtain ⟨parts, hparts, hfinalize⟩ := finalize_reserved hstatus hr h hreserved
    obtain ⟨p, hp, ha⟩ := authorization_eq_some h
    obtain ⟨a, ha', hjob⟩ := hr.byJob jobId p hp
    obtain rfl : auth = a := by simpa [ha] using ha'
    have hid : auth.id = p.2 := Table.key_of_get? ha
    have hstate : (service.finalize jobId status r).2 = r.finalizedWith auth status parts.2 :=
      congrArg Prod.snd hfinalize
    rw [hstate]
    have hbyJob : ∀ j, (r.finalizedWith auth status parts.2).authorizationByJob.get? j =
        if ({ auth with status } : CreditAuthorization).jobId = j then some (j, auth.id)
          else r.authorizationByJob.get? j := by
      intro j
      show r.authorizationByJob.get? j = _
      split_ifs with hj
      · obtain rfl : jobId = j := hjob.symm.trans hj
        rw [hp, hid, ← (Table.key_of_get? hp : p.1 = jobId)]
      · rfl
    have hown : ∀ a, r.authorizations.get? ({ auth with status } : CreditAuthorization).id = some a →
        a.jobId = ({ auth with status } : CreditAuthorization).jobId := by
      intro a ha'
      obtain rfl : auth = a := by simpa [hid, ha] using ha'
      rfl
    refine ⟨hr.put rfl hbyJob hown fun id hid' => ?_, fun j => ?_⟩
    · show (r.allocations.get? id).isSome = true
      rcases hid' with rfl | hsome
      · rw [hparts]
        rfl
      · exact hsome
    · have hput : service.authorization j (r.finalizedWith auth status parts.2) =
          if auth.jobId = j then some { auth with status } else service.authorization j r :=
        authorization_put { auth with status } hr rfl hbyJob hown j
      rw [hput, hjob]

end InMemoryBillingRepository

end KenkuiServer.Billing

namespace KenkuiServer.Storage
open Txn Data Billing BillingDb

namespace PostgresBillingRepository

/-- The durable repository, each call one transaction. -/
def service : BillingRepository HostedDb where
  reserve authorizationId jobId accountId credits d :=
    (reserve authorizationId jobId accountId credits).transaction d
  finalize jobId status d := (finalize jobId status).transaction d
  authorization jobId d := authorizationOfJob jobId d.billing
  balance accountId d := ((d.billing.accounts.get? accountId).map (·.availableCredits)).getD 0
  lots d := d.billing.lots.rows

section
variable {d d' : HostedDb} {authorizationId jobId accountId : String} {credits : ℤ}
    {auth a : CreditAuthorization}

theorem reserve_existing (hpos : 0 < credits) (h : authorizationOfJob jobId d.billing = some auth) :
    (reserve authorizationId jobId accountId credits).transaction d =
      (if (auth.accountId, auth.credits) ≠ (accountId, credits) then .error (.value "authorization_conflict")
        else .ok auth, d) := by
  have hcredits : ¬ credits < 1 := by omega
  have hrun : (reserve authorizationId jobId accountId credits).run d =
      if (auth.accountId, auth.credits) ≠ (accountId, credits) then .error (.value "authorization_conflict")
      else .ok (auth, d) := by
    simp only [reserve, Prog.raiseIf_bind, hcredits, if_false, issue_bind, selectAccountForUpdate,
      Prog.run_selectForUpdate, selectAuthorizationForJob, Prog.run_select, h]
    split_ifs <;> rfl
  split_ifs at hrun ⊢ with hsame
  · exact Prog.transaction_of_error hrun
  · exact Prog.transaction_of_ok hrun

theorem reserveNew_ok (hbooks : d.billing.Books)
    (h : (reserveNew authorizationId jobId accountId credits).run d = .ok (a, d')) :
    ∃ row parts lots allocations,
      d.billing.accounts.get? accountId = some row ∧ d.billing.authorizations.get? authorizationId = none ∧
      a = ⟨authorizationId, jobId, accountId, credits, .reserved⟩ ∧ d' = reservedDb d row a lots allocations ∧
      lots.rows = d.billing.lots.rows.map (reservedLot parts) ∧
      allocations.rows = d.billing.allocations.rows ++
        parts.map fun part => ⟨authorizationId, part.1, accountId, part.2⟩ := by
  simp only [reserveNew, issue_bind, debitAccount, Prog.run_update] at h
  cases hrow : d.billing.accounts.get? accountId with
  | none => simp [hrow] at h
  | some row =>
    by_cases havailable : row.availableCredits ≥ credits
    swap
    · simp [hrow, havailable] at h
    have hid : row.id = accountId := account_id hrow
    simp only [hrow, havailable, if_true, one_ne_zero, Prog.raiseIf_bind, if_false, insertAuthorization,
      Prog.run_insert] at h
    split_ifs at h with hfits hpos hfresh hjob
    simp only [billing_apply, BillingWrite.authorizations_apply, Option.not_isSome_iff_eq_none] at hfresh
    set auth : CreditAuthorization := ⟨authorizationId, jobId, accountId, credits, .reserved⟩ with hauth
    set d₁ := apply (Write.billing (.authorization auth)) (apply (Write.billing (.account
      { row with availableCredits := row.availableCredits - credits })) d) with hd₁
    have hcover : credits ≤ d₁.billing.lotBalance accountId := by
      have hbalance := hbooks.balanced.balance row (Table.mem_of_get? hrow)
      simp only [ite_self, add_zero, hid] at hbalance
      exact havailable.trans_eq hbalance
    have hnew : ∀ lotId, d₁.billing.allocations.get? (authorizationId, lotId) = none := fun lotId =>
      (Table.get?_eq_none_iff _ _).mpr fun r hr hk =>
        allocation_eq_none hbooks.balanced hfresh r hr (congrArg Prod.fst hk)
    obtain ⟨parts, lots, allocations, -, hrun, hlots, hallocations⟩ :=
      PostgresCreditLots.reserve_run (d := d₁) (not_le.mp hpos) hbooks.balanced.lotBounds
        (Table.get?_put_self d.billing.authorizations auth) rfl hnew hcover
    rw [Prog.run_bind, hrun] at h
    obtain ⟨ha, hd'⟩ := Prod.mk.inj (Except.ok.inj (insertLedger_ok h))
    exact ⟨row, parts, lots, allocations, rfl, hfresh, ha.symm, hd'.symm.trans (by rw [← ha]; rfl),
      hlots, hallocations⟩

theorem reserve_ok (hnone : authorizationOfJob jobId d.billing = none)
    (h : (reserve authorizationId jobId accountId credits).transaction d = (.ok a, d')) :
    (reserveNew authorizationId jobId accountId credits).run d = .ok (a, d') := by
  have hrun : (reserve authorizationId jobId accountId credits).run d = .ok (a, d') := by
    cases hresult : (reserve authorizationId jobId accountId credits).run d with
    | error e => simp [Prog.transaction_of_error hresult] at h
    | ok r =>
      rw [Prog.transaction_of_ok hresult] at h
      obtain ⟨h₁, h₂⟩ := Prod.mk.inj h
      cases h₁
      rw [← h₂]
  have hcredits : ¬ credits < 1 := by
    intro hcredits
    simp [reserve, hcredits] at hrun
  simp only [reserve, Prog.raiseIf_bind, hcredits, if_false, issue_bind, selectAccountForUpdate,
    Prog.run_selectForUpdate, selectAuthorizationForJob, Prog.run_select, hnone] at hrun
  rw [Prog.run_bind] at hrun
  cases hnew : (reserveNew authorizationId jobId accountId credits).run d with
  | error e => simp [hnew] at hrun
  | ok r =>
    obtain ⟨a', d''⟩ := r
    rw [hnew] at hrun
    simp only [checkJobKey, Prog.run_mk] at hrun
    by_cases hjob : (d''.jobs.get? jobId).isSome = true
    · simpa [hjob] using hrun
    · simp [hjob] at hrun

/-- The states that the calls on the durable repository keep. -/
def Accounted (d : HostedDb) : Prop := d.billing.Books ∧ d.billing.Apart

theorem Accounted.transaction {α : Type} {p : Procedure α} (hp : Keeping (fun b => b.Books ∧ b.Apart) p)
    (hd : Accounted d) : Accounted (p.transaction d).2 := by
  have hkept := hp d hd
  unfold Prog.transaction
  cases hrun : p.run d with
  | error e => exact hd
  | ok r =>
    rw [hrun] at hkept
    exact hkept

theorem balance_put {d d' : HostedDb} {row : AccountRow}
    (h : d'.billing.accounts = d.billing.accounts.put row) (id : String) :
    service.balance id d' = if row.id = id then row.availableCredits else service.balance id d := by
  simp only [service, h, Table.get?_put]
  split_ifs <;> rfl

theorem balance_closed (d : HostedDb) (auth : CreditAuthorization) {row : AccountRow}
    (hrow : d.billing.accounts.get? auth.accountId = some row) (id : String) :
    service.balance id { d with billing := d.billing.closed auth .released } =
      service.balance id d + if auth.accountId = id then auth.credits else 0 := by
  simp only [service, closed, Table.get?_map, Option.map_map]
  by_cases hid : auth.accountId = id
  · subst hid
    simp [hrow, refundedRow, account_id hrow]
  · cases hget : d.billing.accounts.get? id with
    | none => simp [hid]
    | some other =>
      have hother : other.id ≠ auth.accountId := (account_id hget).trans_ne (Ne.symm hid)
      simp [refundedRow, hother, hid]

theorem reserves_new (hd : Accounted d) (hnone : authorizationOfJob jobId d.billing = none)
    (hrun : (reserveNew authorizationId jobId accountId credits).run d = .ok (a, d')) :
    Reserves service Accounted d d' ⟨authorizationId, jobId, accountId, credits, .reserved⟩ := by
  obtain ⟨hbooks, hapart⟩ := hd
  obtain ⟨hpos, -⟩ := reserveNew_checks hrun
  have hkept : Accounted d' := by
    have hkept := kept_apart.reserveNew authorizationId jobId accountId credits d ⟨hbooks, hapart⟩
    rw [hrun] at hkept
    exact hkept
  obtain ⟨row, parts, lots, allocations, hrow, hfresh, rfl, rfl, hlots, hallocations⟩ :=
    reserveNew_ok hbooks hrun
  set auth : CreditAuthorization := ⟨authorizationId, jobId, accountId, credits, .reserved⟩ with hauth
  set d' := reservedDb d row auth lots allocations with hd'
  have hid : row.id = accountId := account_id hrow
  have hauthorization : ∀ j, service.authorization j d' =
      if jobId = j then some auth else service.authorization j d :=
    @authorizationOfJob_put d.billing d'.billing auth rfl hfresh hnone
  have hbalance : ∀ id, service.balance id d' =
      if row.id = id then row.availableCredits - credits else service.balance id d :=
    @balance_put d d' { row with availableCredits := row.availableCredits - credits } rfl
  have hbefore : service.balance accountId d = row.availableCredits := by simp [service, hrow]
  have hrow' : d'.billing.accounts.get? auth.accountId =
      some { row with availableCredits := row.availableCredits - credits } := by
    show (d.billing.accounts.put _).get? accountId = _
    rw [← hid]
    exact Table.get?_put_self d.billing.accounts
      { row with availableCredits := row.availableCredits - credits }
  refine ⟨hkept, hauthorization, ?_, ?_⟩
  · show service.balance accountId d' ≠ service.balance accountId d
    rw [hbalance, if_pos hid, hbefore]
    omega
  · have hfinal : AuthorizationStatus.released ≠ .reserved := by decide
    have hself : authorizationOfJob jobId d'.billing = some auth := (hauthorization jobId).trans (if_pos rfl)
    have hrelease := finalize_run hkept.1 hkept.2 hfinal hself rfl
    have hstate : (service.finalize jobId .released d').2 =
        { d' with billing := d'.billing.closed auth .released } :=
      congrArg Prod.snd (Prog.transaction_of_ok hrelease)
    show Neutral service d (service.finalize jobId .released d').2
    rw [hstate]
    constructor
    · intro id
      rw [balance_closed d' auth hrow', hbalance, hid]
      show (if accountId = id then _ else _) + (if accountId = id then credits else 0) = _
      by_cases haccount : accountId = id
      · subst haccount
        simp [hbefore]
      · simp [haccount]
    · have hunallocated : ∀ r ∈ d.billing.allocations.rows, r.authorizationId ≠ auth.id :=
        allocation_eq_none hbooks.balanced hfresh
      have hparts : d'.billing.allocationRows auth.id auth.accountId = parts := by
        rw [@allocationRows_append d.billing d'.billing auth parts hallocations hunallocated auth,
          if_pos rfl, if_pos rfl]
      show lots.rows.map (PostgresCreditLots.finalizedLot .released
        (d'.billing.allocationRows auth.id auth.accountId)) =
        d.billing.lots.rows
      rw [hparts, hlots, List.map_map]
      refine (List.map_congr_left fun lot _ => ?_).trans (List.map_id _)
      exact InMemoryBillingRepository.finalizedLot_reservedLot parts lot
    · intro j x hx
      have hne : jobId ≠ j := by
        rintro rfl
        have hnone : service.authorization jobId d = none := hnone
        rw [hnone] at hx
        cases hx
      have hthen : service.authorization j d' = some x := by rw [hauthorization, if_neg hne, hx]
      show authorizationOfJob j (d'.billing.closed auth .released) = some x
      rw [authorizationOfJob_closed]
      obtain ⟨hget, hjob⟩ := authorizationOfJob_get? hthen
      have hother : x.id ≠ auth.id := by
        intro hsame
        have hget' := (authorizationOfJob_get? hself).1
        rw [hsame, hget'] at hget
        cases hget
        exact hne hjob
      have hthen : authorizationOfJob j d'.billing = some x := hthen
      rw [hthen]
      simp [endedRow, hother]

end

theorem service_lawful : Lawful service Accounted fun _ _ => True where
  reserve_error := by
    intro id jobId accountId credits d d' e _ h
    unfold service Prog.transaction at h
    simp only at h
    split at h
    · cases h
    · exact (Prod.mk.inj h).2.symm
  reserve_found _ hpos h := reserve_existing hpos h
  reserve_new hd _ _ hnone h := reserves_new hd hnone (reserve_ok hnone h)
  finalize_final _ h hfinal hstatus := Prog.transaction_of_ok (finalize_run_final hstatus h hfinal)
  finalize_open := by
    intro jobId status d auth hd h hreserved hstatus
    have hrun := finalize_run hd.1 hd.2 hstatus h hreserved
    have hstate : (service.finalize jobId status d).2 = { d with billing := d.billing.closed auth status } :=
      congrArg Prod.snd (Prog.transaction_of_ok hrun)
    have hkept := kept_apart.finalize jobId status d hd
    rw [hrun] at hkept
    rw [hstate]
    refine ⟨hkept, fun j => ?_⟩
    obtain ⟨hget, hjob⟩ := authorizationOfJob_get? h
    show authorizationOfJob j (d.billing.closed auth status) = _
    rw [authorizationOfJob_closed]
    by_cases hj : jobId = j
    · subst hj
      have h : authorizationOfJob jobId d.billing = some auth := h
      rw [if_pos rfl, h]
      simp [endedRow]
    · rw [if_neg hj]
      show (authorizationOfJob j d.billing).map _ = authorizationOfJob j d.billing
      cases hother : authorizationOfJob j d.billing with
      | none => rfl
      | some x =>
        obtain ⟨hget', hjob'⟩ := authorizationOfJob_get? hother
        have hne : x.id ≠ auth.id := by
          intro hsame
          rw [hsame, hget] at hget'
          cases hget'
          exact hj (hjob.symm.trans hjob')
        simp [endedRow, hne]

end PostgresBillingRepository

end KenkuiServer.Storage

namespace KenkuiServer.Billing
open Storage BillingDb

theorem freshAll_of_forall {R : Type} {repository : BillingRepository R} {Fresh : String → R → Prop}
    (h : ∀ id r, Fresh id r) (s : Admissions R) (acts : List AdmissionAct) :
    FreshAll repository Fresh s acts := by
  induction acts generalizing s with
  | nil => trivial
  | cons act acts ih => exact ⟨fun a _ => h a.authorizationId s.repo, ih (s.step repository act)⟩

theorem sound_start {R : Type} {repository : BillingRepository R} {Inv : R → Prop} {r : R} (h : Inv r) :
    Lawful.Sound repository Inv { repo := r } where
  inv := h
  known _ hp := by cases hp

theorem live_start {R : Type} (repository : BillingRepository R) (r : R) :
    ({ repo := r } : Admissions R).Live repository := by
  intro p hp
  cases hp

/-- Over either repository a run of admissions and of ends of admitted jobs is safe exactly if each callback
ends in a way that is permitted. -/
theorem admissions_safe_iff {r : InMemoryBillingRepository} (hr : r.Consistent) {d : HostedDb}
    (hd : PostgresBillingRepository.Accounted d) {acts : List AdmissionAct}
    (hfresh : FreshAll InMemoryBillingRepository.service (fun id r => r.authorizations.get? id = none)
      { repo := r } acts) :
    (AdmitsSafely InMemoryBillingRepository.service { repo := r } acts ↔
      PermitsAll InMemoryBillingRepository.service { repo := r } acts) ∧
    (AdmitsSafely PostgresBillingRepository.service { repo := d } acts ↔
      PermitsAll PostgresBillingRepository.service { repo := d } acts) := by
  have hfresh' : FreshAll PostgresBillingRepository.service (fun _ _ => True) { repo := d } acts :=
    freshAll_of_forall (fun _ _ => trivial) { repo := d } acts
  constructor
  · exact InMemoryBillingRepository.service_lawful.admitsSafely_iff (sound_start hr) (live_start _ r) hfresh
  · exact PostgresBillingRepository.service_lawful.admitsSafely_iff (sound_start hd) (live_start _ d) hfresh'

/-- Five credits on one account. -/
def sampleCredits : InMemoryBillingRepository :=
  (InMemoryBillingRepository.grantLot "lot" "account" 5 "welcome" .grant {}).2

theorem sampleCredits_consistent : sampleCredits.Consistent :=
  InMemoryBillingRepository.consistent_empty.grantLot "lot" "account" "welcome" 5 .grant

/-- An admission of a job of three credits. -/
def sampleAdmission (authorizationId : String) (callback : Except Raised Unit) : Admission where
  jobId := "job"
  accountId := "account"
  normalizedSpeechCharacters := 10000
  callback := callback
  authorizationId := authorizationId

def queueFailed : Except Raised Unit := .error (.exception (.runtime "queue unavailable"))

/-- A job whose first admission fails is admitted without credits by the second. -/
def retryAfterFailure : List AdmissionAct :=
  [.admission (sampleAdmission "first" queueFailed), .admission (sampleAdmission "second" (.ok ()))]

/-- A job that is admitted loses its credits to a second admission, whose callback finds the job there. -/
def retryAfterSuccess : List AdmissionAct :=
  [.admission (sampleAdmission "first" (.ok ())), .admission (sampleAdmission "second" queueFailed)]

theorem fresh_sample (acts : List AdmissionAct) (h : acts = retryAfterFailure ∨ acts = retryAfterSuccess) :
    FreshAll InMemoryBillingRepository.service (fun id r => r.authorizations.get? id = none)
      { repo := sampleCredits } acts := by
  rcases h with rfl | rfl
  · refine ⟨?_, ?_, trivial⟩
    · rintro _ ⟨⟩
      decide +kernel
    · rintro _ ⟨⟩
      decide +kernel
  · refine ⟨?_, ?_, trivial⟩
    · rintro _ ⟨⟩
      decide +kernel
    · rintro _ ⟨⟩
      decide +kernel

/-- Neither retry is safe: the first leaves a job admitted whose reservation is released, the second releases
the reservation of an admitted job. -/
theorem retries_unsafe :
    ¬ AdmitsSafely InMemoryBillingRepository.service { repo := sampleCredits } retryAfterFailure ∧
      ¬ AdmitsSafely InMemoryBillingRepository.service { repo := sampleCredits } retryAfterSuccess := by
  have hlost : ∀ acts : List AdmissionAct,
      (acts = retryAfterFailure ∨ acts = retryAfterSuccess) →
      let s := acts.foldl (Admissions.step InMemoryBillingRepository.service) { repo := sampleCredits }
      s.admitted = [("job", 3)] ∧ s.finalized = [] ∧
        InMemoryBillingRepository.service.authorization "job" s.repo =
          some ⟨"first", "job", "account", 3, .released⟩ := by
    rintro acts (rfl | rfl)
    · decide +kernel
    · decide +kernel
  have hdead : ∀ s : Admissions InMemoryBillingRepository, s.admitted = [("job", 3)] → s.finalized = [] →
      InMemoryBillingRepository.service.authorization "job" s.repo =
        some ⟨"first", "job", "account", 3, .released⟩ → ¬ s.Live InMemoryBillingRepository.service := by
    intro s hadmitted hfinalized hauth hlive
    have hmem : ("job", (3 : ℤ)) ∈ s.admitted := by simp [hadmitted]
    obtain ⟨a, ha, hreserved, -⟩ := hlive _ hmem (by simp [hfinalized])
    rw [hauth] at ha
    cases ha
    cases hreserved
  constructor
  · rintro ⟨-, -, -, -, hlive⟩
    obtain ⟨hadmitted, hfinalized, hauth⟩ := hlost retryAfterFailure (.inl rfl)
    exact hdead _ hadmitted hfinalized hauth hlive
  · rintro ⟨-, -, -, -, hlive⟩
    obtain ⟨hadmitted, hfinalized, hauth⟩ := hlost retryAfterSuccess (.inr rfl)
    exact hdead _ hadmitted hfinalized hauth hlive

/-- The same credits in the durable store, where the job has its row. -/
def sampleCreditStore : HostedDb :=
  ((PostgresBillingRepository.grantLot "lot" "account" 5 ("beta-allowance:" ++ "identity") .grant).transaction
    { jobs := (∅ : Txn.Table _).put { toJob := Hosted.sampleJob }
      billing := { accounts := (∅ : Txn.Table _).put ⟨⟨"account", 0⟩, "identity"⟩ } }).2

/-- A failed admission and its retry, on either repository. -/
theorem admissions_safe_iff_retry :
    (AdmitsSafely InMemoryBillingRepository.service { repo := sampleCredits } retryAfterFailure ↔
      PermitsAll InMemoryBillingRepository.service { repo := sampleCredits } retryAfterFailure) ∧
    (AdmitsSafely PostgresBillingRepository.service { repo := sampleCreditStore } retryAfterFailure ↔
      PermitsAll PostgresBillingRepository.service { repo := sampleCreditStore } retryAfterFailure) := by
  have haccounted : PostgresBillingRepository.Accounted sampleCreditStore := by
    have hopening : Hosted.Opening
        { accounts := (∅ : Txn.Table fun r : AccountRow => r.id).put ⟨⟨"account", 0⟩, "identity"⟩ } :=
      ⟨by decide, rfl, rfl, rfl, rfl⟩
    refine PostgresBillingRepository.Accounted.transaction ?_ ⟨hopening.books, by simp, by simp⟩
    exact PostgresBillingRepository.kept_apart.grantLot "lot" "account" 5 _ .grant
      (PostgresBillingRepository.offLedger_allowance "identity")
  exact admissions_safe_iff sampleCredits_consistent haccounted (fresh_sample retryAfterFailure (.inl rfl))

end KenkuiServer.Billing
