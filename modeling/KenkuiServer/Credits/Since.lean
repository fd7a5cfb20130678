import KenkuiServer.Credits.Finalization

/-! The credit store without some of its authorizations. The procedures of the lots do not see the
difference, so what they do can be read off the smaller store. -/
namespace KenkuiServer.Storage
open Txn Jobs Billing

namespace BillingDb

/-- The store without the authorizations that are not live. -/
def since (live : String → Bool) (b : BillingDb) : BillingDb :=
  { b with authorizations := b.authorizations.restrict live }

variable {b : BillingDb} {live : String → Bool}

@[simp] theorem since_all : b.since (fun _ => true) = b := by
  have hall : b.authorizations.restrict (fun _ => true) = b.authorizations :=
    Table.ext (List.filter_eq_self.mpr fun _ _ => rfl)
  simp only [since, hall]

theorem get?_of_since {id : String} {auth : CreditAuthorization}
    (h : (b.since live).authorizations.get? id = some auth) :
    b.authorizations.get? id = some auth := by
  rw [← Table.key_of_get? h]
  exact Table.get?_of_mem (Table.mem_restrict.mp (Table.mem_of_get? h)).1

end BillingDb

namespace PostgresCreditLots

/-- The store with other authorizations. -/
def withAuthorizations (authorizations : Table CreditAuthorization.id) (d : HostedDb) : HostedDb :=
  { d with billing := { d.billing with authorizations } }

def isLotWrite : Write → Bool
  | .billing (.lot _) => true
  | .billing (.allocation _) => true
  | _ => false

theorem apply_withAuthorizations (authorizations : Table CreditAuthorization.id) (w : Write)
    (hw : isLotWrite w = true) (d : HostedDb) :
    apply w (withAuthorizations authorizations d) = withAuthorizations authorizations (apply w d) := by
  cases w with
  | billing w => cases w <;> first | rfl | cases hw
  | _ => cases hw

theorem reserveLot_writes (lotId : String) (amount : ℤ) :
    (reserveLot lotId amount).Emits (fun w => isLotWrite w = true) fun _ => True := by
  refine Stmt.emits_update fun d => ?_
  cases d.billing.lots.get? lotId with
  | none => trivial
  | some lot =>
    simp only
    split_ifs <;> trivial

theorem insertAllocation_writes (row : CreditAllocation) :
    (insertAllocation row).Emits (fun w => isLotWrite w = true) fun _ => True :=
  Stmt.emits_insert rfl fun _ _ _ => trivial

theorem finalizeLot_writes (lotId accountId : String) (amount consumed : ℤ) :
    (finalizeLot lotId accountId amount consumed).Emits (fun w => isLotWrite w = true) fun _ => True := by
  refine Stmt.emits_update fun d => ?_
  cases d.billing.lots.get? lotId with
  | none => trivial
  | some lot =>
    by_cases hmet : lot.accountId = accountId ∧ lot.reserved ≥ amount
    · simp only [hmet, and_self, if_true]
      split_ifs <;> trivial
    · simp [hmet]

/-- An authorization is the same among others. -/
def Shares (authorizations : Table CreditAuthorization.id) (authorizationId : String) (d : HostedDb) : Prop :=
  authorizations.get? authorizationId = d.billing.authorizations.get? authorizationId

theorem apply_shares (authorizations : Table CreditAuthorization.id) (authorizationId : String) (w : Write)
    (hw : isLotWrite w = true) (d : HostedDb) (hd : Shares authorizations authorizationId d) :
    Shares authorizations authorizationId (apply w d) := by
  cases w with
  | billing w => cases w <;> first | exact hd | cases hw
  | _ => cases hw

section
variable (authorizations : Table CreditAuthorization.id) (authorizationId : String)

/-- A statement that writes lots and allocations only, and reads no authorization but the one shared. -/
theorem oblivious_of_writes {β : Type} {s : Statement β}
    (hexec : ∀ d, Shares authorizations authorizationId d →
      s.exec (withAuthorizations authorizations d) = s.exec d)
    (hs : s.Emits (fun w => isLotWrite w = true) fun _ => True) :
    s.issue.Oblivious (Shares authorizations authorizationId) (withAuthorizations authorizations) :=
  Prog.oblivious_issue hexec hs (apply_withAuthorizations authorizations)
    (apply_shares authorizations authorizationId)

theorem insertAllocation_exec {row : CreditAllocation} {d : HostedDb}
    (h : Shares authorizations row.authorizationId d) :
    (insertAllocation row).exec (withAuthorizations authorizations d) = (insertAllocation row).exec d := by
  have hsame : (withAuthorizations authorizations d).billing.authorizations.get? row.authorizationId =
      d.billing.authorizations.get? row.authorizationId := h
  simp only [insertAllocation, Stmt.insert, hsame]
  rfl

theorem reserveRows_oblivious (accountId : String) (rows : List (String × ℤ)) (remaining : ℤ) :
    (reserveRows authorizationId accountId rows remaining).Oblivious (Shares authorizations authorizationId)
      (withAuthorizations authorizations) := by
  induction rows generalizing remaining with
  | nil => exact Prog.oblivious_raise _
  | cons row rows ih =>
    obtain ⟨lotId, available⟩ := row
    unfold reserveRows
    have hlot := oblivious_of_writes authorizations authorizationId (fun _ _ => rfl)
      (reserveLot_writes lotId (min remaining available))
    have hallocation := oblivious_of_writes authorizations authorizationId
      (s := insertAllocation ⟨authorizationId, lotId, accountId, min remaining available⟩)
      (fun _ hd => insertAllocation_exec authorizations hd) (insertAllocation_writes _)
    refine hlot.bind fun _ => hallocation.bind fun _ => ?_
    split_ifs
    · exact Prog.oblivious_ret _
    · exact ih _

theorem reserve_oblivious (accountId : String) (credits : ℤ) :
    (reserve authorizationId accountId credits).Oblivious (Shares authorizations authorizationId)
      (withAuthorizations authorizations) := by
  have hselect : (selectSpendable accountId).Emits (fun w => isLotWrite w = true) fun _ => True := by
    intro d
    simp [selectSpendable]
  exact (oblivious_of_writes authorizations authorizationId (fun _ _ => rfl) hselect).bind fun rows =>
    reserveRows_oblivious authorizations authorizationId _ rows _

theorem finalizeRows_oblivious (accountId : String) (status : AuthorizationStatus)
    (rows : List (String × ℤ)) :
    (finalizeRows accountId status rows).Oblivious (Shares authorizations authorizationId)
      (withAuthorizations authorizations) := by
  induction rows with
  | nil => exact Prog.oblivious_ret _
  | cons row rows ih =>
    obtain ⟨lotId, amount⟩ := row
    unfold finalizeRows
    have hlot := oblivious_of_writes authorizations authorizationId (fun _ _ => rfl)
      (finalizeLot_writes lotId accountId amount (if status = .settled then amount else 0))
    exact hlot.bind fun _ => (Prog.oblivious_raiseIf _ _).bind fun _ => ih

theorem finalize_oblivious (accountId : String) (credits : ℤ) (status : AuthorizationStatus) :
    (finalize authorizationId accountId credits status).Oblivious (Shares authorizations authorizationId)
      (withAuthorizations authorizations) := by
  have hselect := oblivious_of_writes authorizations authorizationId
    (s := selectAllocations authorizationId accountId)
    (fun _ _ => rfl) (Stmt.emits_select _)
  exact hselect.bind fun rows => (Prog.oblivious_raiseIf _ _).bind fun _ =>
    finalizeRows_oblivious authorizations authorizationId _ _ rows

end

section
open BillingDb
variable {live : String → Bool} {d : HostedDb} {auth : CreditAuthorization}

theorem reserve_since {accountId authorizationId : String} {credits : ℤ}
    (h : (d.billing.since live).Balanced accountId authorizationId credits)
    (hauth : (d.billing.since live).authorizations.get? authorizationId = some auth)
    (hacc : auth.accountId = accountId) (hstatus : auth.status = .reserved)
    (hnone : ∀ lotId, d.billing.allocations.get? (authorizationId, lotId) = none)
    (hpos : 0 < credits) (hcover : credits ≤ d.billing.lotBalance accountId) :
    ∃ lots allocations, (reserve authorizationId accountId credits).run d =
        .ok ((), { d with billing := { d.billing with lots, allocations } }) ∧
      ({ d.billing with lots, allocations }.since live).Balanced accountId authorizationId 0 := by
  obtain ⟨lots, allocations, hrun, hbalanced⟩ := reserve_spec
    (d := { d with billing := d.billing.since live }) h hauth hacc hstatus hnone hpos hcover
  have hshares : Shares d.billing.authorizations authorizationId { d with billing := d.billing.since live } :=
    (get?_of_since hauth).trans hauth.symm
  have hsame := (reserve_oblivious d.billing.authorizations authorizationId accountId credits _ hshares).1
  rw [hrun] at hsame
  exact ⟨lots, allocations, hsame, hbalanced⟩

theorem finalize_since (status : AuthorizationStatus) (h : (d.billing.since live).Balanced "" "" 0)
    (hauth : (d.billing.since live).authorizations.get? auth.id = some auth)
    (hreserved : auth.status = .reserved) :
    ∃ lots, (finalize auth.id auth.accountId auth.credits status).run d =
        .ok ((), { d with billing := { d.billing with lots } }) ∧
      lots.rows = d.billing.lots.rows.map
        (finalizedLot status (d.billing.allocationRows auth.id auth.accountId)) ∧
      ∀ a, { d.billing with lots }.lotBalance a = d.billing.lotBalance a +
        if auth.accountId = a ∧ status ≠ .settled then auth.credits else 0 := by
  obtain ⟨lots, hrun, hspec⟩ := finalize_spec (d := { d with billing := d.billing.since live }) status h
    hauth hreserved
  have hshares : Shares d.billing.authorizations auth.id { d with billing := d.billing.since live } :=
    (get?_of_since hauth).trans hauth.symm
  have hsame := (finalize_oblivious d.billing.authorizations auth.id auth.accountId auth.credits
    status _ hshares).1
  rw [hrun] at hsame
  exact ⟨lots, hsame, hspec⟩

end

end PostgresCreditLots

end KenkuiServer.Storage
