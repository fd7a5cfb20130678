import KenkuiServer.Credits.InMemory

/-! Sequences of calls on the in-memory credit repository and on the durable one. -/
namespace KenkuiServer.Billing
open Txn Storage BillingDb PostgresBillingRepository

/-- A call, with the identifier that either repository generates for it. -/
inductive BillingCall
  | grant (lotId accountId : String) (credits : ℤ) (reference : String)
  | processPaymentEvent (lotId provider providerEventId accountId : String) (credits : ℤ)
  | reserve (authorizationId jobId accountId : String) (credits : ℤ)
  | finalize (jobId : String) (status : AuthorizationStatus)
  | account (accountId : String)
  | creditLots (accountId : String)
  | authorizationForJob (jobId : String)

inductive BillingValue
  | account (account : CreditAccount)
  | lots (lots : List CreditLot)
  | authorization (authorization : CreditAuthorization)
  deriving DecidableEq

namespace InMemoryBillingRepository

/-- The value of a method under a constructor. -/
def Method.map {α β : Type} (g : α → β) (f : Method α) : Method β := fun r => ((f r).1.map g, (f r).2)

/-- A method that only reads. -/
def Method.read {α : Type} (f : InMemoryBillingRepository → Except Error α) : Method α := fun r => (f r, r)

end InMemoryBillingRepository

namespace BillingCall

def postgres : BillingCall → Procedure BillingValue
  | .grant lotId accountId credits reference =>
    PostgresBillingRepository.grant lotId accountId credits reference >>= fun a => .ret (.account a)
  | .processPaymentEvent lotId provider providerEventId accountId credits =>
    PostgresBillingRepository.processPaymentEvent lotId provider providerEventId accountId
      credits >>= fun a =>
      .ret (.account a)
  | .reserve authorizationId jobId accountId credits =>
    PostgresBillingRepository.reserve authorizationId jobId accountId credits >>= fun a =>
      .ret (.authorization a)
  | .finalize jobId status => PostgresBillingRepository.finalize jobId status >>= fun a =>
    .ret (.authorization a)
  | .account accountId => PostgresBillingRepository.account accountId >>= fun a => .ret (.account a)
  | .creditLots accountId => PostgresBillingRepository.creditLots accountId >>= fun lots => .ret (.lots lots)
  | .authorizationForJob jobId =>
    PostgresBillingRepository.authorizationForJob jobId >>= fun a => .ret (.authorization a)

def memory : BillingCall → InMemoryBillingRepository.Method BillingValue
  | .grant lotId accountId credits reference =>
    (InMemoryBillingRepository.grant lotId accountId credits reference).map .account
  | .processPaymentEvent lotId provider providerEventId accountId credits =>
    (InMemoryBillingRepository.processPaymentEvent lotId provider providerEventId accountId
      credits).map .account
  | .reserve authorizationId jobId accountId credits =>
    (InMemoryBillingRepository.reserve authorizationId jobId accountId credits).map .authorization
  | .finalize jobId status => (InMemoryBillingRepository.finalize jobId status).map .authorization
  | .account accountId => (InMemoryBillingRepository.Method.read fun r =>
    .ok (r.account accountId)).map .account
  | .creditLots accountId => (InMemoryBillingRepository.Method.read fun r =>
    .ok (r.creditLots accountId)).map .lots
  | .authorizationForJob jobId =>
    (InMemoryBillingRepository.Method.read fun r => r.authorizationForJob jobId).map .authorization

/-- The call is on an account that exists, a reservation is for a job that exists, the reference is none of
the ledger's own, and the generated identifier is fresh. -/
def Proper (d : HostedDb) : BillingCall → Prop
  | .grant lotId accountId _ reference =>
    (d.billing.accounts.get? accountId).isSome = true ∧ ¬ OwnReference reference ∧
      d.billing.lots.get? lotId = none
  | .processPaymentEvent lotId provider providerEventId accountId _ =>
    (d.billing.accounts.get? accountId).isSome = true ∧ ¬ OwnReference (provider ++ ":" ++ providerEventId) ∧
      d.billing.lots.get? lotId = none
  | .reserve authorizationId jobId accountId _ =>
    (d.billing.accounts.get? accountId).isSome = true ∧ (d.jobs.get? jobId).isSome = true ∧
      d.billing.authorizations.get? authorizationId = none
  | .finalize _ _ => True
  | .account accountId => (d.billing.accounts.get? accountId).isSome = true
  | .creditLots accountId => (d.billing.accounts.get? accountId).isSome = true
  | .authorizationForJob _ => True

/-- The amount of a grant fits the ledger and an earlier grant of the amount under the reference is of the
same kind; a job that has a reservation is not asked for one of less than a credit, and a new reservation
that the balance covers fits the ledger. -/
def Uniform (d : HostedDb) : BillingCall → Prop
  | .grant _ accountId credits reference =>
    1 ≤ credits → fitsInteger credits = true ∧ SameKind d accountId credits reference .grant
  | .processPaymentEvent _ provider providerEventId accountId credits =>
    1 ≤ credits → fitsInteger credits = true ∧
      SameKind d accountId credits (provider ++ ":" ++ providerEventId) .purchase
  | .reserve _ jobId accountId credits =>
    if 1 ≤ credits then authorizationOfJob jobId d.billing = none →
      (d.billing.accounts.get? accountId).all (fun row => credits ≤ row.availableCredits) = true →
        fitsInteger credits = true
    else authorizationOfJob jobId d.billing = none
  | _ => True

end BillingCall

section
variable {m : InMemoryBillingRepository} {d : HostedDb}

theorem Follows.map {α β : Type} {p : Procedure α} {f : InMemoryBillingRepository.Method α}
    (h : Follows p f m d) (g : α → β) : Follows (p >>= fun a => .ret (g a)) (f.map g) m d := by
  unfold Follows InMemoryBillingRepository.Method.map
  rcases h with ⟨e, hrun, hmethod⟩ | ⟨a, m', d', hrun, hmethod, hmirrors⟩
  · refine Or.inl ⟨e, ?_, ?_⟩
    · rw [Prog.run_bind, hrun]
    · rw [hmethod]
      rfl
  · refine Or.inr ⟨g a, m', d', ?_, ?_, hmirrors⟩
    · rw [Prog.run_bind, hrun]
      rfl
    · rw [hmethod]
      rfl

theorem Follows.read {α : Type} (h : Mirrors m d) {p : Procedure α}
    {f : InMemoryBillingRepository → Except Error α} (hrun : p.run d = (f m).map fun a => (a, d)) :
    Follows p (InMemoryBillingRepository.Method.read f) m d := by
  cases hf : f m with
  | error e =>
    rw [hf] at hrun
    refine Or.inl ⟨e, hrun, ?_⟩
    unfold InMemoryBillingRepository.Method.read
    rw [hf]
  | ok a =>
    rw [hf] at hrun
    refine Or.inr ⟨a, m, d, hrun, ?_, h⟩
    unfold InMemoryBillingRepository.Method.read
    rw [hf]

/-- One call: the same value or the same exception, from repositories that mirror one another. -/
theorem BillingCall.follows (h : Mirrors m d) {call : BillingCall} (hproper : call.Proper d)
    (huniform : call.Uniform d) :
    Follows call.postgres call.memory m d := by
  cases call with
  | grant lotId accountId credits reference =>
    obtain ⟨haccount, hoff, hlot⟩ := hproper
    obtain ⟨row, hrow⟩ := Option.isSome_iff_exists.mp haccount
    exact (grant_follows h hrow hoff hlot huniform).map BillingValue.account
  | processPaymentEvent lotId provider providerEventId accountId credits =>
    obtain ⟨haccount, hoff, hlot⟩ := hproper
    obtain ⟨row, hrow⟩ := Option.isSome_iff_exists.mp haccount
    exact (processPaymentEvent_follows h hrow hoff hlot huniform).map BillingValue.account
  | reserve authorizationId jobId accountId credits =>
    obtain ⟨haccount, hjob, hfresh⟩ := hproper
    obtain ⟨row, hrow⟩ := Option.isSome_iff_exists.mp haccount
    simp only [BillingCall.Uniform, hrow, Option.all_some, decide_eq_true_eq] at huniform
    exact (reserve_follows h hrow hjob hfresh huniform).map BillingValue.authorization
  | finalize jobId status => exact (finalize_follows h jobId status).map BillingValue.authorization
  | account accountId =>
    obtain ⟨row, hrow⟩ := Option.isSome_iff_exists.mp hproper
    have hread : Follows (PostgresBillingRepository.account accountId)
        (InMemoryBillingRepository.Method.read fun r => .ok (r.account accountId)) m d := by
      refine Follows.read h ?_
      rw [h.account hrow]
      simp [PostgresBillingRepository.account, selectAccount, hrow, Except.map]
    exact hread.map BillingValue.account
  | creditLots accountId =>
    have hread : Follows (PostgresBillingRepository.creditLots accountId)
        (InMemoryBillingRepository.Method.read fun r => .ok (r.creditLots accountId)) m d := by
      refine Follows.read h ?_
      unfold InMemoryBillingRepository.creditLots
      rw [h.lots]
      rfl
    exact hread.map BillingValue.lots
  | authorizationForJob jobId =>
    have hread : Follows (PostgresBillingRepository.authorizationForJob jobId)
        (InMemoryBillingRepository.Method.read fun r => r.authorizationForJob jobId) m d := by
      refine Follows.read h ?_
      unfold InMemoryBillingRepository.authorizationForJob
      cases hauth : authorizationOfJob jobId d.billing with
      | none =>
        rw [h.job_none hauth]
        simp [PostgresBillingRepository.authorizationForJob, selectAuthorizationForJob, hauth, Except.map]
      | some auth =>
        obtain ⟨entry, hentry, hget⟩ := h.job_some hauth
        simp only [hentry, hget]
        simp [PostgresBillingRepository.authorizationForJob, selectAuthorizationForJob, hauth, Except.map]
    exact hread.map BillingValue.authorization

/-- Both repositories after a sequence of calls. -/
def billingRun : List BillingCall → InMemoryBillingRepository → HostedDb →
    InMemoryBillingRepository × HostedDb
  | [], m, d => (m, d)
  | call :: calls, m, d => billingRun calls (call.memory m).2 (call.postgres.transaction d).2

/-- The same outcome, and no change where it is an exception. -/
structure SameCall (call : BillingCall) (m : InMemoryBillingRepository) (d : HostedDb) : Prop where
  outcome : (call.postgres.transaction d).1 = (call.memory m).1
  unchanged : ∀ e, (call.memory m).1 = .error e → (call.memory m).2 = m ∧ (call.postgres.transaction d).2 = d

theorem Follows.same {call : BillingCall} (h : Follows call.postgres call.memory m d) :
    SameCall call m d := by
  rcases h with ⟨e, hrun, hmethod⟩ | ⟨a, m', d', hrun, hmethod, -⟩
  · constructor
    · rw [Prog.transaction_of_error hrun, hmethod]
    · intro _ _
      rw [Prog.transaction_of_error hrun, hmethod]
      exact ⟨rfl, rfl⟩
  · constructor
    · rw [Prog.transaction_of_ok hrun, hmethod]
    · intro e he
      rw [hmethod] at he
      cases he

theorem Follows.mirrors {call : BillingCall} (h : Follows call.postgres call.memory m d)
    (hmirrors : Mirrors m d) :
    Mirrors (call.memory m).2 (call.postgres.transaction d).2 := by
  rcases h with ⟨e, hrun, hmethod⟩ | ⟨a, m', d', hrun, hmethod, hmirrors'⟩
  · rw [Prog.transaction_of_error hrun, hmethod]
    exact hmirrors
  · rw [Prog.transaction_of_ok hrun, hmethod]
    exact hmirrors'

theorem Mirrors.billingRun (h : Mirrors m d) {calls : List BillingCall}
    (hcalls : ∀ before call after, calls = before ++ call :: after →
      call.Proper (billingRun before m d).2 ∧ call.Uniform (billingRun before m d).2) :
    ∀ before call after, calls = before ++ call :: after →
      SameCall call (billingRun before m d).1 (billingRun before m d).2 := by
  induction calls generalizing m d with
  | nil =>
    intro before call after hsplit
    simp at hsplit
  | cons first calls ih =>
    obtain ⟨hproper, huniform⟩ := hcalls [] first calls rfl
    have hfirst := first.follows h hproper huniform
    intro before call after hsplit
    cases before with
    | nil =>
      cases hsplit
      exact hfirst.same
    | cons head before =>
      rw [List.cons_append, List.cons.injEq] at hsplit
      obtain ⟨rfl, hsplit⟩ := hsplit
      refine ih (hfirst.mirrors h) (fun before' call' after' hsplit' => ?_) before call after hsplit
      have hlater := hcalls (first :: before') call' after'
      rw [List.cons_append, hsplit'] at hlater
      exact hlater rfl

end

/-- From empty repositories the two give the same outcome call by call, and an exception changes neither. -/
theorem repositories_agree {d : HostedDb} (h : Hosted.Opening d.billing) (calls : List BillingCall)
    (hcalls : ∀ before call after, calls = before ++ call :: after →
      call.Proper (billingRun before {} d).2 ∧ call.Uniform (billingRun before {} d).2) :
    ∀ before call after, calls = before ++ call :: after →
      SameCall call (billingRun before {} d).1 (billingRun before {} d).2 :=
  (Mirrors.init h).billingRun hcalls

theorem not_ownReference {reference : String} (h : reference.toList.head? ≠ some 'r')
    (h' : reference.toList.head? ≠ some 's') : ¬ OwnReference reference := by
  rintro (⟨jobId, rfl⟩ | ⟨status, jobId, rfl⟩)
  · simp [String.toList_append] at h
  · unfold endReference at h h'
    split_ifs at h h'
    · simp [String.toList_append] at h
    · simp [String.toList_append] at h'

/-- One account without credits, and one job. -/
def sampleStore : HostedDb where
  jobs := (∅ : Table _).put { toJob := Hosted.sampleJob }
  billing := { accounts := (∅ : Table _).put ⟨⟨"account", 0⟩, "identity"⟩ }

theorem sampleStore_opening : Hosted.Opening sampleStore.billing := ⟨by decide, rfl, rfl, rfl, rfl⟩

/-- A grant of five credits, of which a job reserves and spends three. -/
theorem repositories_agree_settled :
    let calls : List BillingCall :=
      [.grant "lot" "account" 5 "welcome", .reserve "authorization" "job" "account" 3,
        .finalize "job" .settled]
    ∀ before call after, calls = before ++ call :: after →
      SameCall call (billingRun before {} sampleStore).1 (billingRun before {} sampleStore).2 := by
  intro calls
  refine repositories_agree sampleStore_opening calls fun before call after hcalls => ?_
  have hlist : [BillingCall.grant "lot" "account" 5 "welcome", .reserve "authorization" "job" "account" 3,
    .finalize "job" .settled] = before ++ call :: after := hcalls
  rcases before with _ | ⟨first, _ | ⟨second, _ | ⟨third, before⟩⟩⟩
  · cases hlist
    refine ⟨⟨by decide, not_ownReference (by decide) (by decide), by decide⟩, fun _ => ⟨by decide, ?_⟩⟩
    intro lot hlot
    cases hlot
  · cases hlist
    refine ⟨⟨by decide +kernel, by decide +kernel, by decide +kernel⟩, ?_⟩
    intro _ _
    decide
  · cases hlist
    exact ⟨trivial, trivial⟩
  · simp at hlist

/-- A reservation of no credits for a job that has one of three: the durable repository refuses the amount,
the fake finds a conflict. -/
def sampleCalls : List BillingCall :=
  [.grant "lot" "account" 5 "welcome", .reserve "authorization" "job" "account" 3]

theorem repositories_differ :
    Hosted.Opening sampleStore.billing ∧
      (∀ before call after, sampleCalls ++ [BillingCall.reserve "authorization-2" "job" "account" 0] =
        before ++ call :: after → call.Proper (billingRun before {} sampleStore).2) ∧
      ((BillingCall.reserve "authorization-2" "job" "account" 0).postgres.transaction
        (billingRun sampleCalls {} sampleStore).2).1 ≠
      ((BillingCall.reserve "authorization-2" "job" "account" 0).memory
        (billingRun sampleCalls {} sampleStore).1).1 := by
  refine ⟨sampleStore_opening, fun before call after hcalls => ?_, by decide +kernel⟩
  have hlist : [BillingCall.grant "lot" "account" 5 "welcome", .reserve "authorization" "job" "account" 3,
    .reserve "authorization-2" "job" "account" 0] = before ++ call :: after := hcalls
  rcases before with _ | ⟨first, _ | ⟨second, _ | ⟨third, before⟩⟩⟩
  · cases hlist
    exact ⟨by decide, not_ownReference (by decide) (by decide), by decide⟩
  · cases hlist
    exact ⟨by decide +kernel, by decide +kernel, by decide +kernel⟩
  · cases hlist
    exact ⟨by decide +kernel, by decide +kernel, by decide +kernel⟩
  · simp at hlist

end KenkuiServer.Billing
