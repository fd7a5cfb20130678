import KenkuiServer.Hosted.Concurrency
import KenkuiServer.Txn.Fence

/-! Fencing of stale attempts in the hosted store. An attempt's token is compared under the lock of its
lease, and the lock is held to the commit; a claim that issues another token has to take that lock. -/
namespace KenkuiServer.Storage
open Txn Jobs Billing PostgresExecution PostgresRepositories

/-- The token of the attempt that may run a dispatch. -/
def HostedDb.tokenOf (d : HostedDb) (dispatchId : String) : Option String :=
  (d.leases.get? dispatchId).map (·.token)

/-- A procedure that writes no lease. -/
abbrev Unleased {α : Type} (p : Procedure α) : Prop := p.Emits (fun w => w.isLease = false) fun _ => True

/-- A procedure that writes records of jobs only: no lease and no asset. -/
abbrev Records {α : Type} (p : Procedure α) : Prop := p.Emits (fun w => w.isRecord) fun _ => True

theorem Records.unleased {α : Type} {p : Procedure α} (h : Records p) : Unleased p :=
  h.imp (fun _ hw => (Write.isRecord_aside hw).1) fun _ h => h

section
variable {now : HostedDb} {t : Locked} {allow : Allow HostedDb Write Key Error}

theorem leases_keeps {ws : List Write} (hws : ∀ w ∈ ws, w.isLease = false) (d : HostedDb) :
    (applyAll ws d).leases = d.leases := by
  refine applyAll_keeps (P := fun w : Write => w.isLease = false)
    (I := fun x : HostedDb => x.leases = d.leases) (fun w hw x hx => ?_) hws rfl
  cases w with
  | lease r => cases hw
  | _ => exact hx

theorem finalize_unleased (jobId : String) (status : AuthorizationStatus) :
    Unleased (PostgresBillingRepository.finalize jobId status) :=
  PostgresBillingRepository.finalize_emits (fun _ => rfl) (fun _ _ => trivial) jobId status

theorem update_unleased (job : Job) (expectedVersion : ℤ) (eventType : String) (artifact : Option Artifact)
    (lease : Option Lease) (failure : Option (String × String)) (clock at' : Time) :
    Unleased (updateJobAndAppendEvent PostgresHostedRepository.billing job expectedVersion eventType artifact
      lease failure clock at') :=
  (update_work _ _ _ _ _ _ _ _).imp (fun _ hw => (Write.isWork_aside hw).1) fun _ h => h

theorem cancel_unleased (jobId : String) (at' : Time) :
    Unleased (requestCancellation PostgresHostedRepository.billing jobId at') :=
  (cancel_work _ _).imp (fun _ hw => (Write.isWork_aside hw).1) fun _ h => h

theorem loseWorker_records (dispatchId jobId : String) (seen : JobStatus) (at' : Time) :
    Records (loseWorker PostgresHostedRepository.billing dispatchId jobId seen at') := by
  unfold loseWorker
  refine ⟨loseJob_emits fun _ => rfl, fun _ => ⟨setDispatchStatus_emits fun _ => rfl, fun _ => ?_⟩⟩
  refine ⟨insertFailureOnce_emits rfl, fun _ => ⟨appendJobEvent_emits (fun _ => rfl) fun _ => trivial, ?_⟩⟩
  exact fun _ => (PostgresBillingRepository.finalize_emits (fun _ => rfl) (fun _ _ => trivial) _ _).bind
    fun _ => trivial

theorem replay_records (spec : JobSpec) (idempotencyKey : Option String) :
    Records (PostgresHostedRepository.replay spec idempotencyKey) :=
  (replay_silent spec idempotencyKey).imp (fun _ h => h.elim) fun _ _ => trivial

theorem insertNew_records (row : JobRow) (dispatch : Dispatch) (idempotencyKey : Option String) (job : Job) :
    Records (do
      (insertJob row).issue
      (insertDispatch dispatch).issue
      recordKey idempotencyKey job.id
      return job : Procedure Job) := by
  have hkey : Records (recordKey idempotencyKey job.id) := by
    cases idempotencyKey with
    | none => trivial
    | some key => exact emits_issue (insertIdempotency_emits (fun _ _ => trivial) rfl)
  refine ⟨insertJob_emits (fun _ _ => trivial) rfl, fun _ => ?_⟩
  exact ⟨insertDispatch_emits (fun _ _ => trivial) rfl, fun _ => hkey.bind fun _ => trivial⟩

theorem create_records (job : Job) (dispatch : Dispatch) (idempotencyKey : Option String) :
    Records (createJobAndDispatch job dispatch idempotencyKey) := by
  unfold createJobAndDispatch
  refine ((admitted_silent idempotencyKey).imp (fun _ h => h.elim) fun _ _ => trivial).bind fun existing => ?_
  cases existing with
  | none => exact insertNew_records _ _ _ _
  | some existing => trivial

open PostgresHostedRepository PostgresBillingRepository in
theorem admit_records (authorizationId : String) (job : Job) (dispatch : Dispatch)
    (accountId ownerId : String) (credits : ℤ) (idempotencyKey : Option String) :
    Records (admitJob authorizationId job dispatch accountId ownerId credits idempotencyKey) := by
  have hraise : ∀ (c : Prop) [Decidable c] (e : Error), Records (Prog.raiseIf c e) := fun c _ e =>
    (Prog.emits_raiseIf c e).mpr fun _ => trivial
  unfold admitJob
  refine (hraise _ _).bind fun _ => ⟨Stmt.emits_selectForUpdate _ _, fun _ => ?_⟩
  refine (replay_records _ _).bind fun existing => ?_
  cases existing with
  | some existing => trivial
  | none =>
    unfold admitNew
    refine ⟨Stmt.emits_select _, fun active => (hraise _ _).bind fun _ => ?_⟩
    refine ⟨Stmt.emits_selectForUpdate _ _, fun source => (hraise _ _).bind fun _ => ?_⟩
    refine (reserveNew_emits (fun _ => rfl) (fun _ _ => trivial) _ _ _ _).bind fun _ => ?_
    exact insertNew_records _ _ _ _

/-- What a committed call did to the tokens of the leases. -/
def TokenEffect (now : HostedDb) (issued : Option Lease) (t : Locked) : Prop :=
  ∀ id, (applyAll t.writes now).tokenOf id =
    (issued.filter (·.1 = id)).elim (now.tokenOf id) fun lease => some lease.2

theorem TokenEffect.of_unleased (h : ∀ w ∈ t.writes, w.isLease = false) : TokenEffect now none t := by
  intro id
  simp only [HostedDb.tokenOf, leases_keeps h, Option.filter_none, Option.elim_none]

theorem TokenEffect.renewed {row : ExecutionLease} (hrow : now.leases.get? row.dispatchId = some row)
    (expiresAt : Time) (h : t.writes = [.lease { row with expiresAt }]) : TokenEffect now none t := by
  intro id
  simp only [HostedDb.tokenOf, h, applyAll_cons, applyAll_nil, leases_apply, Table.get?_put,
    Option.filter_none, Option.elim_none]
  split_ifs with hid
  · rw [← hid, hrow]
    rfl
  · rfl

theorem TokenEffect.issued {row : ExecutionLease} {ws : List Write} (h : t.writes = .lease row :: ws)
    (hws : ∀ w ∈ ws, w.isLease = false) : TokenEffect now (some (row.dispatchId, row.token)) t := by
  intro id
  simp only [HostedDb.tokenOf, h, applyAll_cons, leases_keeps hws, leases_apply, Table.get?_put,
    Option.filter_some, decide_eq_true_eq]
  split_ifs <;> rfl

/-- A statement that can only move the expiry of a lease, and only under its token. -/
def GuardedByToken (st : Statement ℕ) (dispatchId token : String) : Prop :=
  ∀ d, st.exec d = .ok (0, []) ∨ ∃ (row : ExecutionLease) (expiresAt : Time),
    d.leases.get? dispatchId = some row ∧ row.token = token ∧
      st.exec d = .ok (1, [.lease { row with expiresAt }])

theorem renewLease_guarded (dispatchId token : String) (expiresAt clock : Time) :
    GuardedByToken (renewLease dispatchId token expiresAt clock) dispatchId token := by
  intro d
  simp only [renewLease, Stmt.update]
  cases hrow : d.leases.get? dispatchId with
  | none => exact Or.inl rfl
  | some row =>
    by_cases hheld : row.token = token ∧ row.expiresAt > clock
    · simp only [if_pos hheld]
      exact Or.inr ⟨row, expiresAt, rfl, hheld.1, rfl⟩
    · simp only [if_neg hheld]
      exact Or.inl trivial

theorem expireLease_guarded (dispatchId token : String) :
    GuardedByToken (expireLease dispatchId token) dispatchId token := by
  intro d
  simp only [expireLease, Stmt.update]
  cases hrow : d.leases.get? dispatchId with
  | none => exact Or.inl rfl
  | some row =>
    by_cases hheld : row.token = token
    · simp only [if_pos hheld]
      exact Or.inr ⟨row, 0, rfl, hheld, rfl⟩
    · simp only [if_neg hheld]
      exact Or.inl trivial

/-- It writes nothing, or the lease is the one of the token until the transaction ends. -/
theorem GuardedByToken.along {st : Statement ℕ} {dispatchId token : String}
    (h : GuardedByToken st dispatchId token) :
    st.issue.Along leaseRely allow now (fun r t => TokenEffect now none t ∧
      ((r = .ok 0 ∧ t.writes = []) ∨ now.tokenOf dispatchId = some token)) {} := by
  intro d hd _
  have hd' := hd.held dispatchId
  revert hd'
  rcases h d with hnone | ⟨row, expiresAt, hrow, htoken, hsome⟩
  · intro _
    rw [applyAll_nil, hnone]
    exact ⟨.of_unleased (by simp), Or.inl ⟨rfl, rfl⟩⟩
  · have hid : row.dispatchId = dispatchId := Table.key_of_get? hrow
    simp only [Stmt.locks, applyAll_nil, hsome]
    intro hd'
    have hnow : now.leases.get? dispatchId = some row := by
      rw [hd' (by simp [← hid, Store.key, Write.key]), hrow]
    refine ⟨.renewed (hid ▸ hnow) expiresAt rfl, Or.inr ?_⟩
    rw [HostedDb.tokenOf, hnow, ← htoken]
    rfl

theorem unleased_along {α : Type} {p : Procedure α} (hp : Unleased p)
    (ht : ∀ w ∈ t.writes, w.isLease = false) :
    p.Along leaseRely allow now (Prog.upTo (fun _ => True) fun _ t' => TokenEffect now none t') t := by
  refine hp.along (fun _ ws ks ds hws => ?_) fun _ _ _ _ _ => trivial
  refine TokenEffect.of_unleased fun w hw => ?_
  rcases List.mem_append.mp hw with hw | hw
  · exact ht w hw
  · exact hws w hw

theorem claim_tokens {dispatchId token : String} {limit maxAttempts : ℤ} {ttl clock at' : Time} :
    (claimExecution PostgresHostedRepository.billing dispatchId limit ttl maxAttempts token clock
      at').Along leaseRely allow now (Prog.upTo (fun _ => True) fun reply t' =>
        (∀ issued, reply = some issued → issued = token) ∧
          TokenEffect now (reply.map fun issued => (dispatchId, issued)) t') {} := by
  refine claim_ends (fun t ht => ?_) (fun row t ht _ => ?_) fun t ht => ?_
  · exact ⟨by simp, .of_unleased (by simp [ht])⟩
  · refine (unleased_along (loseWorker_records _ _ _ _).unleased (by simp [ht])).seq fun _ t' ht' => ?_
    exact Prog.along_return ⟨by simp, ht'⟩
  · intro d _ _
    have hpending : ∀ (row : ExecutionLease) (t' : Locked), t'.writes = [.lease row] →
        (setDispatchStatus row.dispatchId "pending").issue.Along leaseRely allow now
          (Prog.upTo (fun _ => True) fun _ t'' => TokenEffect now (some (row.dispatchId, row.token)) t'')
            t' := by
      intro row t' ht'
      have hunleased : Unleased (setDispatchStatus row.dispatchId "pending").issue :=
        emits_issue (setDispatchStatus_emits fun _ => rfl)
      refine hunleased.along (fun _ ws ks ds hws => ?_) fun _ _ _ _ _ => trivial
      exact .issued (by rw [ht']; rfl) hws
    obtain ⟨attempts, hexec⟩ : ∃ attempts, (upsertLease dispatchId token (clock + ttl)).exec
        (applyAll t.writes d) = .ok ((), [.lease ⟨dispatchId, token, clock + ttl, attempts⟩]) := ⟨_, rfl⟩
    rw [hexec]
    refine (hpending ⟨dispatchId, token, clock + ttl, attempts⟩ _ ?_).seq fun _ t' ht' =>
      Prog.along_return ⟨by simp, ht'⟩
    rw [Trace.next_writes, ht]
    rfl

end

end KenkuiServer.Storage

namespace KenkuiServer.Hosted
open Txn Jobs Billing Storage PostgresExecution

/-- The token that a call draws, to issue it if it can. -/
def Call.draws : Call → Option String
  | .claimExecution _ _ _ _ token _ _ => some token
  | _ => none

/-- The lease that a committed call issued. -/
def issuedBy : Call × Reply → Option Lease
  | (.claimExecution dispatchId _ _ _ _ _ _, .token (some token)) => some (dispatchId, token)
  | _ => none

/-- The tokens issued for a dispatch, newest first. -/
def tokensOf (dispatchId : String) (log : List (Call × Reply)) : List String :=
  log.filterMap fun entry => ((issuedBy entry).filter (·.1 = dispatchId)).map (·.2)

/-- The lease under which a call works. -/
def Call.lease : Call → Option Lease
  | .update _ _ _ _ lease _ _ _ => lease
  | .finishDispatch _ lease _ => lease
  | .renewExecution dispatchId token _ _ _ => some (dispatchId, token)
  | .releaseExecution dispatchId token => some (dispatchId, token)
  | _ => none

/-- What a call ends with when its lease has been superseded. -/
def Call.refusal : Call → Except Error Reply
  | .update snapshot event _ _ _ _ _ _ =>
    match transition snapshot event with
    | .error e => .error e
    | .ok _ => .error .staleWrite
  | .renewExecution _ _ _ _ _ => .ok (.flag false)
  | .releaseExecution _ _ => .ok .none
  | _ => .error .staleWrite

/-- A claim draws a token that no call before it has drawn. -/
def FreshTokens (s : HostedSys) : Label Call → Prop
  | .start call => ∀ token, call.draws = some token → ∀ earlier ∈ s.calls, earlier.draws ≠ some token
  | _ => True

section
variable {now : HostedDb} {allow : Allow HostedDb Write Key Error} {ok : HostedSys → Label Call → Prop}
  {d₀ : HostedDb} {s : HostedSys}

theorem lease_guarantee :
    Guarantee leaseRely (fun _ _ _ => True) (fun _ _ => True) Call.prog ok where
  allows _ _ _ := trivial
  admits _ := trivial
  keeps {_ call now} _ _ := by
    refine (Prog.along_locked call.prog (by simp)).imp fun r t hlocked => ?_
    cases r with
    | ok reply => exact fun ks hks => leases_since hlocked hks now
    | error e => trivial

theorem reply_unleased {α : Type} {p : Procedure α} {call : Call} {reply : α → Reply} (hp : Unleased p)
    (hreply : ∀ a, issuedBy (call, reply a) = none) :
    (p >>= fun a => pure (reply a)).Along leaseRely allow now (Prog.upTo (fun _ => True) fun reply t =>
      (∀ lease, issuedBy (call, reply) = some lease → call.draws = some lease.2) ∧
        TokenEffect now (issuedBy (call, reply)) t) {} := by
  refine (unleased_along hp (by simp)).seq fun a t ht => Prog.along_return ⟨?_, ?_⟩
  · simp [hreply]
  · rw [hreply]
    exact ht

theorem Call.token_along (call : Call) :
    call.prog.Along leaseRely allow now (Prog.upTo (fun _ => True) fun reply t =>
      (∀ lease, issuedBy (call, reply) = some lease → call.draws = some lease.2) ∧
        TokenEffect now (issuedBy (call, reply)) t) {} := by
  have hbilling : ∀ w : BillingWrite, (Write.billing w).isLease = false := fun _ => rfl
  cases call with
  | accountForIdentity id lotId identityId allowance =>
    exact reply_unleased (PostgresBillingRepository.accountForIdentity_emits (fun _ => rfl) (fun _ => rfl)
      (fun _ => rfl) (fun _ _ => trivial) _ _ _ _) fun _ => rfl
  | grant lotId accountId credits reference =>
    exact reply_unleased (PostgresBillingRepository.grant_emits (fun _ => rfl) (fun _ => rfl)
      (fun _ => rfl) (fun _ _ => trivial) _ _ _ _) fun _ => rfl
  | processPaymentEvent lotId provider providerEventId accountId credits =>
    exact reply_unleased (PostgresBillingRepository.processPaymentEvent_emits (fun _ => rfl) (fun _ => rfl)
      (fun _ => rfl) (fun _ _ => trivial) (fun _ => rfl) _ _ _ _ _) fun _ => rfl
  | reserve authorizationId jobId accountId credits =>
    exact reply_unleased (PostgresBillingRepository.reserve_emits hbilling (fun _ _ => trivial) _ _ _ _)
      fun _ => rfl
  | finalize jobId status => exact reply_unleased (finalize_unleased _ _) fun _ => rfl
  | createJobAndDispatch job dispatch idempotencyKey =>
    exact reply_unleased (create_records _ _ _).unleased fun _ => rfl
  | admitJob authorizationId job dispatch accountId ownerId credits idempotencyKey =>
    exact reply_unleased (admit_records _ _ _ _ _ _ _).unleased fun _ => rfl
  | claimExecution dispatchId limit ttl maxAttempts token clock at' =>
    refine claim_tokens.seq fun reply t ht => Prog.along_return ?_
    cases reply with
    | none => exact ⟨by simp [issuedBy], ht.2⟩
    | some issued =>
      obtain rfl := ht.1 issued rfl
      exact ⟨by simp [issuedBy, Call.draws], ht.2⟩
  | update snapshot event eventType artifact lease failure clock at' =>
    simp only [Call.prog]
    cases transition snapshot event with
    | error e => trivial
    | ok job => exact reply_unleased (update_unleased _ _ _ _ _ _ _ _) fun _ => rfl
  | requestCancellation jobId at' => exact reply_unleased (cancel_unleased _ _) fun _ => rfl
  | finishDispatch dispatch lease clock =>
    exact reply_unleased (PostgresRepositories.finishDispatchIfNotCancellationRequested_emits (fun _ => rfl)
      (fun _ _ => trivial) _ _ _) fun _ => rfl
  | updateDispatch dispatch status =>
    exact reply_unleased (PostgresRepositories.updateDispatch_emits (fun _ => rfl) (fun _ _ => trivial) _ _)
      fun _ => rfl
  | renewExecution dispatchId token ttl clock clock' =>
    refine Prog.Along.bind (Prog.Along.bind ((renewLease_guarded _ _ _ _).along.imp fun r t hr => ?_))
    cases r with
    | ok rowcount => exact ⟨by simp [issuedBy], hr.1⟩
    | error e => trivial
  | releaseExecution dispatchId token =>
    refine Prog.Along.bind (Prog.Along.bind ((expireLease_guarded _ _).along.imp fun r t hr => ?_))
    cases r with
    | ok rowcount => exact ⟨by simp [issuedBy], hr.1⟩
    | error e => trivial
  | retainSources clock skipped deletions =>
    exact reply_unleased (PostgresRetention.runSources_emits (fun _ => rfl) (fun _ => rfl) trivial _ _ _)
      fun _ => rfl

theorem checked_along {α : Type} {f : Unit → Procedure α} {dispatchId token : String} {clock : Time}
    {Φ : Except Error α → Locked → Prop} (hstale : ∀ t, Φ (.error .staleWrite) t)
    (hheld : now.tokenOf dispatchId = some token → ∀ r t, Φ r t) :
    (checkLease (some (dispatchId, token)) clock >>= f).Along leaseRely allow now Φ {} := by
  refine Prog.Along.bind (checkLease_along rfl (fun t _ hlease => ?_) hstale)
  obtain ⟨row, hrow, htoken⟩ := hlease
  refine Prog.along_of_forall _ (hheld ?_)
  rw [HostedDb.tokenOf, hrow, ← htoken]
  rfl

/-- A call whose lease is not the current one when it ends was refused, and wrote nothing. -/
theorem Call.refused_along (call : Call) {dispatchId token : String}
    (h : call.lease = some (dispatchId, token)) :
    call.prog.Along leaseRely allow now (fun r t => now.tokenOf dispatchId = some token ∨
      (r = call.refusal ∧ ∀ reply, r = .ok reply → t.writes = [])) {} := by
  cases call with
  | update snapshot event eventType artifact lease failure clock at' =>
    cases h
    simp only [Call.prog, Call.refusal]
    cases transition snapshot event with
    | error e => exact Or.inr ⟨rfl, by simp⟩
    | ok job =>
      unfold PostgresRepositories.updateJobAndAppendEvent
      simp only [bind_assoc]
      exact checked_along (fun t => Or.inr ⟨rfl, by simp⟩) fun hheld _ _ => Or.inl hheld
  | finishDispatch dispatch lease clock =>
    cases h
    simp only [Call.prog, Call.refusal]
    unfold PostgresRepositories.finishDispatchIfNotCancellationRequested
    simp only [bind_assoc]
    exact checked_along (fun t => Or.inr ⟨rfl, by simp⟩) fun hheld _ _ => Or.inl hheld
  | renewExecution dispatchId token ttl clock clock' =>
    cases h
    refine Prog.Along.bind (Prog.Along.bind ((renewLease_guarded _ _ _ _).along.imp fun r t hr => ?_))
    rcases hr.2 with ⟨rfl, hnil⟩ | hheld
    · exact Or.inr ⟨rfl, fun _ _ => hnil⟩
    · cases r <;> exact Or.inl hheld
  | releaseExecution dispatchId token =>
    cases h
    refine Prog.Along.bind (Prog.Along.bind ((expireLease_guarded _ _).along.imp fun r t hr => ?_))
    rcases hr.2 with ⟨rfl, hnil⟩ | hheld
    · exact Or.inr ⟨rfl, fun _ _ => hnil⟩
    · cases r <;> exact Or.inl hheld
  | _ => cases h


/-- What holds of every run: tokens are drawn once, the tokens in the log were drawn by sessions that
have ended, and every dispatch has the token issued last. -/
structure FencedRun (s : HostedSys) : Prop where
  drawn : ∀ {i j : ℕ} {a b : Call} {token : String}, i ≠ j → s.calls[i]? = some a → s.calls[j]? = some b →
    a.draws = some token → b.draws ≠ some token
  logged : ∀ {dispatchId token : String}, token ∈ tokensOf dispatchId s.log →
    ∃ (i : ℕ) (call : Call) (t : Locked) (r : Option (Except Error Reply)),
      s.sessions[i]? = some (.ended call t r) ∧ call.draws = some token
  fenced : ∀ dispatchId, Fenced (tokensOf dispatchId s.log) (s.db.tokenOf dispatchId)

theorem mem_tokensOf {dispatchId token : String} {log : List (Call × Reply)} :
    token ∈ tokensOf dispatchId log ↔ ∃ entry ∈ log, issuedBy entry = some (dispatchId, token) := by
  simp only [tokensOf, List.mem_filterMap, Option.map_eq_some_iff, Option.filter_eq_some_iff,
    decide_eq_true_eq]
  constructor
  · rintro ⟨entry, hentry, ⟨id, tok⟩, ⟨hissued, rfl⟩, rfl⟩
    exact ⟨entry, hentry, hissued⟩
  · rintro ⟨entry, hentry, hissued⟩
    exact ⟨entry, hentry, (dispatchId, token), ⟨hissued, rfl⟩, rfl⟩

theorem session_call {i : ℕ} {session : Session HostedDb Write Key Error Call Reply}
    (h : s.sessions[i]? = some session) : s.calls[i]? = some session.call := by
  simp [Sys.calls, h]

theorem drawn_step (h : FencedRun s) {l : Label Call} (hl : FreshTokens s l) {i j : ℕ} {a b : Call}
    {token : String} (hij : i ≠ j) (ha : (s.step Call.prog l).calls[i]? = some a)
    (hb : (s.step Call.prog l).calls[j]? = some b) (hdraws : a.draws = some token) :
    b.draws ≠ some token := by
  rcases s.calls_of_step Call.prog l with hcalls | ⟨call, rfl, hcalls⟩
  · rw [hcalls] at ha hb
    exact h.drawn hij ha hb hdraws
  · rw [hcalls] at ha hb
    have hi := (List.getElem?_eq_some_iff.mp ha).1
    have hj := (List.getElem?_eq_some_iff.mp hb).1
    simp only [List.length_append, List.length_singleton] at hi hj
    rcases Sys.getElem?_append_cases ha with hold | ⟨hlast, rfl⟩
    · rcases Sys.getElem?_append_cases hb with hold' | ⟨-, rfl⟩
      · exact h.drawn hij hold hold' hdraws
      · exact fun hdraws' => hl token hdraws' a (List.mem_of_getElem? hold) hdraws
    · rcases Sys.getElem?_append_cases hb with hold' | ⟨hlast', -⟩
      · exact hl token hdraws b (List.mem_of_getElem? hold')
      · omega

theorem FencedRun.fresh (h : FencedRun s) {i : ℕ} {call : Call} {t : Locked} {rest : Procedure Reply}
    {dispatchId token : String} (hrunning : s.sessions[i]? = some (.running call t rest))
    (hdraws : call.draws = some token) : token ∉ tokensOf dispatchId s.log := by
  intro htoken
  obtain ⟨j, earlier, t', r', hended, hdraws'⟩ := h.logged htoken
  have hij : i ≠ j := by
    rintro rfl
    rw [hrunning] at hended
    cases hended
  exact h.drawn hij (session_call hrunning) (session_call hended) hdraws hdraws'

theorem FencedRun.step (h : FencedRun s) {l : Label Call} (hl : FreshTokens s l)
    (hreach : Sys.Reach Call.prog FreshTokens d₀ s) : FencedRun (s.step Call.prog l) := by
  rcases s.committed_of_step Call.prog l with
    ⟨hdb, -, hlog⟩ | ⟨i, call, t, r, rfl, hrunning, hdb, -, hlog, hsessions⟩
  · refine ⟨fun hij ha hb hdraws => drawn_step h hl hij ha hb hdraws, fun {dispatchId token} htoken => ?_,
      fun dispatchId => ?_⟩
    · rw [hlog] at htoken
      obtain ⟨i, call, t, r, hended, hdraws⟩ := h.logged htoken
      exact ⟨i, call, t, r, Sys.ended_stays hended, hdraws⟩
    · rw [hdb, hlog]
      exact h.fenced dispatchId
  · have hgood : s.Good leaseRely (fun _ _ _ => True) (fun _ _ => True) Call.prog :=
      hreach.good lease_guarantee
    obtain ⟨hdrawn, heffect⟩ : (∀ lease, issuedBy (call, r) = some lease → call.draws = some lease.2) ∧
        TokenEffect s.db (issuedBy (call, r)) t :=
      hgood.along hrunning (leaseRely.refl _ _) call.token_along
    refine ⟨fun hij ha hb hdraws => drawn_step h hl hij ha hb hdraws, fun {dispatchId token} htoken => ?_,
      fun dispatchId => ?_⟩
    · rw [hlog, mem_tokensOf] at htoken
      obtain ⟨entry, hentry, hissued⟩ := htoken
      rcases List.mem_cons.mp hentry with rfl | hentry
      · refine ⟨i, call, t, some (.ok r), ?_, hdrawn _ hissued⟩
        rw [hsessions, List.getElem?_set_self (List.getElem?_eq_some_iff.mp hrunning).1]
      · obtain ⟨j, earlier, t', r', hended, hdraws⟩ := h.logged (mem_tokensOf.mpr ⟨entry, hentry, hissued⟩)
        exact ⟨j, earlier, t', r', Sys.ended_stays hended, hdraws⟩
    · have htoken := heffect dispatchId
      rw [hdb, htoken, hlog]
      unfold tokensOf
      rw [List.filterMap_cons]
      cases hissued : (issuedBy (call, r)).filter (·.1 = dispatchId) with
      | none => exact h.fenced dispatchId
      | some lease =>
        obtain ⟨hlease, -⟩ := Option.filter_eq_some_iff.mp hissued
        exact (h.fenced dispatchId).issue (h.fresh hrunning (hdrawn lease hlease))

theorem reach_fenced (h : Sys.Reach Call.prog FreshTokens d₀ s) : FencedRun s := by
  induction h with
  | init =>
    constructor
    · simp [Sys.calls]
    · simp [tokensOf]
    · exact fun _ => Fenced.empty _
  | step l reach allowed ih => exact ih.step allowed reach

/-- Once a dispatch's lease has been issued again, an attempt under an earlier token changes nothing and
is refused. -/
theorem superseded_refused (h : Sys.Reach Call.prog FreshTokens d₀ s) {dispatchId token : String}
    (hsuperseded : token ∈ (tokensOf dispatchId s.log).tail) {i : ℕ} {call : Call} {t : Locked}
    {rest : Procedure Reply} (hrunning : s.sessions[i]? = some (.running call t rest))
    (hlease : call.lease = some (dispatchId, token)) :
    (s.step Call.prog (.run i)).db = s.db ∧
      ∀ t' r, (s.step Call.prog (.run i)).sessions[i]? = some (.ended call t' (some r)) →
        r = call.refusal := by
  have hgood : s.Good leaseRely (fun _ _ _ => True) (fun _ _ => True) Call.prog := h.good lease_guarantee
  have hlost : s.db.tokenOf dispatchId ≠ some token :=
    ((reach_fenced h).fenced dispatchId).superseded hsuperseded
  constructor
  · rcases s.committed_of_step Call.prog (.run i) with ⟨hdb, -⟩ | ⟨j, call', t', r, hj, hrunning', hdb, -⟩
    · exact hdb
    · cases hj
      rw [hrunning] at hrunning'
      cases hrunning'
      have hrefused := hgood.along hrunning (leaseRely.refl _ _) (call.refused_along hlease)
      rw [hdb, (hrefused.resolve_left hlost).2 r rfl]
      rfl
  · intro t' r hended
    have hok : FreshTokens s (.run i) := trivial
    have hrefused := hgood.ends lease_guarantee hok hrunning hended (call.refused_along hlease)
    exact (hrefused.resolve_left hlost).1

end

end KenkuiServer.Hosted
