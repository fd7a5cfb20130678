import KenkuiServer.Billing.Models
import KenkuiServer.Errors
import KenkuiServer.Jobs.Models
import Mathlib.Tactic

/-! Reserving a job's credits around its admission to the queue, on any credit repository. -/
namespace KenkuiServer.Billing
open Jobs

/-- `credits_for_characters` without `multivoice`; `cost` is the setting
`KENKUI_ESTIMATED_COST_CENTS_PER_MILLION`. -/
def creditsForCharacters (cost characterCount : ℤ) : Except Error ℤ :=
  if characterCount < 0 then .error (.value "invalid_character_count")
  else if cost < 1 then .error (.value "invalid_estimated_processing_cost")
  else .ok ((characterCount * cost * 2 + 999999) / 1000000)

/-- What admission uses of a `BillingRepository`, and what its repository shows of itself. -/
structure BillingRepository (R : Type) where
  /-- `reserve`, with the identifier that it generates. -/
  reserve : String → String → String → ℤ → R → Except Error CreditAuthorization × R
  finalize : String → AuthorizationStatus → R → Except Error CreditAuthorization × R
  authorization : String → R → Option CreditAuthorization
  balance : String → R → ℤ
  lots : R → List CreditLot

structure Admission where
  jobId : String
  accountId : String
  normalizedSpeechCharacters : ℤ
  cost : ℤ := 126
  /-- How the callback ends. -/
  callback : Except Raised Unit
  authorizationId : String

namespace BillingRepository
variable {R : Type} (repository : BillingRepository R)

/-- `try: return admit() except Exception: release; raise`. -/
def underReservation (a : Admission) (r : R) : Except Raised Unit × R :=
  match a.callback with
  | .ok () => (.ok (), r)
  | .error raised =>
    if raised.isException then
      match repository.finalize a.jobId .released r with
      | (.error e, r) => (.error (.exception e), r)
      | (.ok _, r) => (.error raised, r)
    else (.error raised, r)

/-- `CreditAwareJobAdmission.admit`. -/
def creditAwareAdmit (a : Admission) (r : R) : Except Raised Unit × R :=
  match creditsForCharacters a.cost a.normalizedSpeechCharacters with
  | .error e => (.error (.exception e), r)
  | .ok credits =>
    if credits = 0 then (.error (.exception (.value "empty_speech")), r)
    else
      match repository.reserve a.authorizationId a.jobId a.accountId credits r with
      | (.error e, r) => (.error (.exception e), r)
      | (.ok _, r) => repository.underReservation a r

/-- `JobBillingFinalizer.on_terminal`. -/
def onTerminal (jobId : String) (status : JobStatus) (r : R) : Except Error CreditAuthorization × R :=
  match status with
  | .succeeded => repository.finalize jobId .settled r
  | .failed => repository.finalize jobId .released r
  | .cancelled => repository.finalize jobId .released r
  | _ => (.error (.value "job_not_terminal"), r)

end BillingRepository

inductive AdmissionAct
  | admission (a : Admission)
  /-- A job whose admission returned comes to an end. -/
  | onTerminal (jobId : String) (status : JobStatus)

/-- The repository, the jobs whose admission returned with their credits, and those that came to an end. -/
structure Admissions (R : Type) where
  repo : R
  admitted : List (String × ℤ) := []
  finalized : List String := []

namespace Admissions
variable {R : Type} (repository : BillingRepository R)

def credits (a : Admission) : ℤ := (creditsForCharacters a.cost a.normalizedSpeechCharacters).toOption.getD 0

def step (s : Admissions R) : AdmissionAct → Admissions R
  | .admission a =>
    match repository.creditAwareAdmit a s.repo with
    | (.ok (), repo) => { s with repo, admitted := (a.jobId, credits a) :: s.admitted }
    | (.error _, repo) => { s with repo }
  | .onTerminal jobId status =>
    if jobId ∈ s.admitted.map (·.1) then
      { s with
        repo := (repository.onTerminal jobId status s.repo).2
        finalized := if status.isTerminal then jobId :: s.finalized else s.finalized }
    else s

/-- The admitted jobs that have not come to an end hold their credits. -/
def Live (s : Admissions R) : Prop :=
  ∀ p ∈ s.admitted, p.1 ∉ s.finalized →
    ∃ a, repository.authorization p.1 s.repo = some a ∧ a.status = .reserved ∧ a.credits = p.2

end Admissions

/-- Balances, lots and the authorizations there were are the same. -/
structure Neutral {R : Type} (repository : BillingRepository R) (before after : R) : Prop where
  balance : ∀ accountId, repository.balance accountId after = repository.balance accountId before
  lots : repository.lots after = repository.lots before
  authorizations : ∀ jobId a, repository.authorization jobId before = some a →
    repository.authorization jobId after = some a

/-- In the run, admitted jobs hold their credits until they come to an end, and an admission that raises
leaves everything as it was. -/
def AdmitsSafely {R : Type} (repository : BillingRepository R) : Admissions R → List AdmissionAct → Prop
  | s, [] => s.Live repository
  | s, act :: acts =>
    s.Live repository ∧
      (∀ a raised, act = .admission a → (repository.creditAwareAdmit a s.repo).1 = .error raised →
        Neutral repository s.repo (s.step repository act).repo) ∧
      AdmitsSafely repository (s.step repository act) acts

/-- How the callback of an admission may end: over a new reservation not with a `BaseException` that is no
`Exception`, over one that is there not with an `Exception`, and over one that was released not well. -/
def Admissions.Permits {R : Type} (repository : BillingRepository R) (s : Admissions R)
    (a : Admission) : Prop :=
  ∀ credits, creditsForCharacters a.cost a.normalizedSpeechCharacters = .ok credits → credits ≠ 0 →
    match repository.authorization a.jobId s.repo with
    | none => (∃ x, (repository.reserve a.authorizationId a.jobId a.accountId credits s.repo).1 = .ok x) →
        ∀ raised, a.callback = .error raised → raised.isException
    | some found => (found.accountId, found.credits) = (a.accountId, credits) →
        if found.status = .reserved then ∀ raised, a.callback = .error raised → ¬ raised.isException
        else a.jobId ∈ s.finalized ∨ ∃ raised, a.callback = .error raised

def PermitsAll {R : Type} (repository : BillingRepository R) : Admissions R → List AdmissionAct → Prop
  | _, [] => True
  | s, act :: acts =>
    (∀ a, act = .admission a → s.Permits repository a) ∧ PermitsAll repository (s.step repository act) acts

/-- What a new reservation does, and its release undoes. -/
structure Reserves {R : Type} (repository : BillingRepository R) (Inv : R → Prop) (before after : R)
    (a : CreditAuthorization) : Prop where
  inv : Inv after
  authorization : ∀ jobId, repository.authorization jobId after =
    if a.jobId = jobId then some a else repository.authorization jobId before
  debit : repository.balance a.accountId after ≠ repository.balance a.accountId before
  refund : Neutral repository before (repository.finalize a.jobId .released after).2

/-- How a repository reserves and finalizes, in the states where `Inv` holds and for identifiers not in
use. -/
structure Lawful {R : Type} (repository : BillingRepository R) (Inv : R → Prop) (Fresh : String → R → Prop) :
    Prop where
  reserve_error : ∀ {id jobId accountId : String} {credits : ℤ} {r r' : R} {e : Error}, Inv r →
    repository.reserve id jobId accountId credits r = (.error e, r') → r' = r
  reserve_found : ∀ {id jobId accountId : String} {credits : ℤ} {r : R} {a : CreditAuthorization}, Inv r →
    0 < credits → repository.authorization jobId r = some a →
    repository.reserve id jobId accountId credits r =
      (if (a.accountId, a.credits) ≠ (accountId, credits) then .error
        (.value "authorization_conflict") else .ok a, r)
  reserve_new : ∀ {id jobId accountId : String} {credits : ℤ} {r r' : R} {a : CreditAuthorization}, Inv r →
    Fresh id r → 0 < credits → repository.authorization jobId r = none →
    repository.reserve id jobId accountId credits r = (.ok a, r') →
    Reserves repository Inv r r' ⟨id, jobId, accountId, credits, .reserved⟩
  finalize_final : ∀ {jobId : String} {status : AuthorizationStatus} {r : R} {a : CreditAuthorization},
    Inv r →
    repository.authorization jobId r = some a → a.status ≠ .reserved → status ≠ .reserved →
    repository.finalize jobId status r = (.ok a, r)
  finalize_open : ∀ {jobId : String} {status : AuthorizationStatus} {r : R} {a : CreditAuthorization}, Inv r →
    repository.authorization jobId r = some a → a.status = .reserved → status ≠ .reserved →
    Inv (repository.finalize jobId status r).2 ∧
      ∀ jobId', repository.authorization jobId' (repository.finalize jobId status r).2 =
        if jobId = jobId' then some { a with status } else repository.authorization jobId' r

/-- The identifiers of the run are not in use when they are generated. -/
def FreshAll {R : Type} (repository : BillingRepository R) (Fresh : String → R → Prop) :
    Admissions R → List AdmissionAct → Prop
  | _, [] => True
  | s, act :: acts =>
    (∀ a, act = .admission a → Fresh a.authorizationId s.repo) ∧
      FreshAll repository Fresh (s.step repository act) acts

theorem neutral_refl {R : Type} (repository : BillingRepository R) (r : R) : Neutral repository r r :=
  ⟨fun _ => rfl, rfl, fun _ _ h => h⟩

theorem creditsForCharacters_nonneg {cost characters credits : ℤ}
    (h : creditsForCharacters cost characters = .ok credits) : 0 ≤ credits := by
  unfold creditsForCharacters at h
  split_ifs at h with hcount hcost
  cases h
  have hproduct : 0 ≤ characters * cost := Int.mul_nonneg (by omega) (by omega)
  omega

section
variable {R : Type} {repository : BillingRepository R} {a : Admission} {r : R}

theorem underReservation_returned (h : a.callback = .ok ()) :
    repository.underReservation a r = (.ok (), r) := by
  simp [BillingRepository.underReservation, h]

theorem underReservation_unwound {raised : Raised} (h : a.callback = .error raised)
    (hraised : ¬ raised.isException) :
    repository.underReservation a r = (.error raised, r) := by
  simp [BillingRepository.underReservation, h, hraised]

theorem underReservation_released (repository : BillingRepository R) (r : R) {raised : Raised}
    (h : a.callback = .error raised) (hraised : raised.isException) :
    ∃ e, repository.underReservation a r = (.error e, (repository.finalize a.jobId .released r).2) := by
  simp only [BillingRepository.underReservation, h, hraised, if_true]
  rcases repository.finalize a.jobId .released r with ⟨e | x, r'⟩
  · exact ⟨_, rfl⟩
  · exact ⟨_, rfl⟩

end

namespace Lawful
variable {R : Type} {repository : BillingRepository R} {Inv : R → Prop} {Fresh : String → R → Prop}

/-- The ways an admission goes: it is refused before its callback, or has it run over the reservation that is
there, or over a new one. -/
inductive Way (repository : BillingRepository R) (Inv : R → Prop) (a : Admission) (r : R) :
    Except Raised Unit × R → Prop
  | refused {raised : Raised} (h : ∀ s : Admissions R, s.repo = r → s.Permits repository a) :
    Way repository Inv a r (.error raised, r)
  | found {auth : CreditAuthorization} (hauth : repository.authorization a.jobId r = some auth)
    (hcredits : auth.credits = Admissions.credits a)
    (hpermits : ∀ s : Admissions R, s.repo = r → (s.Permits repository a ↔
      if auth.status = .reserved then ∀ raised, a.callback = .error raised → ¬ raised.isException
      else a.jobId ∈ s.finalized ∨ ∃ raised, a.callback = .error raised)) :
    Way repository Inv a r (repository.underReservation a r)
  | new {r' : R} (hauth : repository.authorization a.jobId r = none)
    (hpermits : ∀ s : Admissions R, s.repo = r → (s.Permits repository a ↔
      ∀ raised, a.callback = .error raised → raised.isException))
    (reserves : Reserves repository Inv r r' ⟨a.authorizationId, a.jobId, a.accountId,
      Admissions.credits a, .reserved⟩) :
    Way repository Inv a r (repository.underReservation a r')

theorem way (lawful : Lawful repository Inv Fresh) {r : R} (hinv : Inv r) {a : Admission}
    (hfresh : Fresh a.authorizationId r) :
    Way repository Inv a r (repository.creditAwareAdmit a r) := by
  unfold BillingRepository.creditAwareAdmit
  cases hcredits : creditsForCharacters a.cost a.normalizedSpeechCharacters with
  | error e =>
    refine .refused fun s _ credits h => ?_
    rw [hcredits] at h
    cases h
  | ok credits =>
    have hvalue : Admissions.credits a = credits := by simp [Admissions.credits, hcredits, Except.toOption]
    by_cases hzero : credits = 0
    · simp only [hzero, if_true]
      refine .refused fun s _ credits' h hne => ?_
      rw [hcredits] at h
      cases h
      exact absurd hzero hne
    · have hpos : 0 < credits := by
        have := creditsForCharacters_nonneg hcredits
        omega
      -- The one value of `credits` that `Permits` speaks of.
      have hthis : ∀ (s : Admissions R), s.repo = r → (s.Permits repository a ↔
          match repository.authorization a.jobId r with
          | none => (∃ x, (repository.reserve a.authorizationId a.jobId a.accountId credits r).1 = .ok x) →
              ∀ raised, a.callback = .error raised → raised.isException
          | some found => (found.accountId, found.credits) = (a.accountId, credits) →
              if found.status = .reserved then ∀ raised, a.callback = .error raised → ¬ raised.isException
              else a.jobId ∈ s.finalized ∨ ∃ raised, a.callback = .error raised) := by
        rintro s rfl
        constructor
        · intro h
          exact h credits hcredits hzero
        · intro h credits' hcredits' _
          rw [hcredits] at hcredits'
          cases hcredits'
          exact h
      simp only [hzero, if_false]
      cases hauth : repository.authorization a.jobId r with
      | some auth =>
        simp only [hauth] at hthis
        rw [lawful.reserve_found hinv hpos hauth]
        by_cases hsame : (auth.accountId, auth.credits) = (a.accountId, credits)
        · simp only [hsame, ne_eq, not_true_eq_false, if_false]
          have hcreditsEq : auth.credits = credits := (Prod.mk.inj hsame).2
          refine .found hauth (hcreditsEq.trans hvalue.symm) fun s hs => ?_
          rw [hthis s hs]
          simp only [hsame, forall_const]
        · simp only [hsame, ne_eq, not_false_eq_true, if_true]
          exact .refused fun s hs => (hthis s hs).mpr fun h => absurd h hsame
      | none =>
        simp only [hauth] at hthis
        rcases hreserve : repository.reserve a.authorizationId a.jobId a.accountId credits r with ⟨e | x, r'⟩
        · obtain rfl := lawful.reserve_error hinv hreserve
          refine .refused fun s hs => (hthis s hs).mpr ?_
          rintro ⟨x, hx⟩
          rw [hreserve] at hx
          cases hx
        · refine .new hauth (fun s hs => ?_) ?_
          · rw [hthis s hs, hreserve]
            simp
          · rw [hvalue]
            exact lawful.reserve_new hinv hfresh hpos hauth hreserve

/-- In every state of a run: the jobs whose admission returned have an authorization. -/
structure Sound (repository : BillingRepository R) (Inv : R → Prop) (s : Admissions R) : Prop where
  inv : Inv s.repo
  known : ∀ p ∈ s.admitted, ∃ a, repository.authorization p.1 s.repo = some a

theorem step_error {s : Admissions R} {a : Admission} {e : Raised} {r : R}
    (h : repository.creditAwareAdmit a s.repo = (.error e, r)) :
    s.step repository (.admission a) = { s with repo := r } := by
  simp [Admissions.step, h]

theorem step_ok {s : Admissions R} {a : Admission} {r : R}
    (h : repository.creditAwareAdmit a s.repo = (.ok (), r)) :
    s.step repository (.admission a) =
      { s with repo := r, admitted := (a.jobId, Admissions.credits a) :: s.admitted } := by
  simp [Admissions.step, h]

theorem live_neutral {s : Admissions R} {r : R} (hlive : s.Live repository)
    (h : Neutral repository s.repo r) :
    ({ s with repo := r } : Admissions R).Live repository := by
  intro p hp hnot
  obtain ⟨auth, hauth, hrest⟩ := hlive p hp hnot
  exact ⟨auth, h.authorizations _ _ hauth, hrest⟩

theorem released {s : Admissions R} (lawful : Lawful repository Inv Fresh) (h : Sound repository Inv s)
    {jobId : String} {status : AuthorizationStatus} (hstatus : status ≠ .reserved)
    {auth : CreditAuthorization} (hauth : repository.authorization jobId s.repo = some auth) :
    Sound repository Inv { s with repo := (repository.finalize jobId status s.repo).2 } := by
  by_cases hreserved : auth.status = .reserved
  · obtain ⟨hinv, hthen⟩ := lawful.finalize_open h.inv hauth hreserved hstatus
    refine ⟨hinv, fun p hp => ?_⟩
    obtain ⟨x, hx⟩ := h.known p hp
    simp only [hthen]
    split_ifs
    · exact ⟨_, rfl⟩
    · exact ⟨x, hx⟩
  · rw [lawful.finalize_final h.inv hauth hreserved hstatus]
    exact h

theorem Sound.admission {s : Admissions R} (lawful : Lawful repository Inv Fresh) (h : Sound repository Inv s)
    {a : Admission} (hfresh : Fresh a.authorizationId s.repo) :
    Sound repository Inv (s.step repository (.admission a)) := by
  have hway := lawful.way h.inv hfresh
  generalize hrun : repository.creditAwareAdmit a s.repo = result at hway
  -- Whatever the callback does over a reservation of the job, the job keeps an authorization.
  have hunder : ∀ {r : R} {auth : CreditAuthorization}, Sound repository Inv { s with repo := r } →
      repository.authorization a.jobId r = some auth →
      repository.creditAwareAdmit a s.repo = repository.underReservation a r →
      Sound repository Inv (s.step repository (.admission a)) := by
    intro r auth hsound hauth heq
    cases hcallback : a.callback with
    | ok u =>
      rw [underReservation_returned hcallback] at heq
      rw [step_ok heq]
      refine ⟨hsound.inv, fun p hp => ?_⟩
      rcases List.mem_cons.mp hp with rfl | hp
      · exact ⟨auth, hauth⟩
      · exact hsound.known p hp
    | error raised =>
      by_cases hraised : raised.isException
      · obtain ⟨e, he⟩ := underReservation_released repository r hcallback hraised
        rw [step_error (heq.trans he)]
        exact released lawful hsound (by decide) hauth
      · rw [step_error (heq.trans (underReservation_unwound hcallback hraised))]
        exact hsound
  cases hway with
  | refused _ =>
    rw [step_error hrun]
    exact h
  | found hauth hcredits hpermits => exact hunder h hauth hrun
  | new hauth hpermits reserves =>
    refine hunder ⟨reserves.inv, fun p hp => ?_⟩ ((reserves.authorization a.jobId).trans (if_pos rfl)) hrun
    obtain ⟨x, hx⟩ := h.known p hp
    rw [reserves.authorization]
    split_ifs
    · exact ⟨_, rfl⟩
    · exact ⟨x, hx⟩

theorem step_onTerminal {s : Admissions R} {jobId : String} {status : JobStatus}
    (h : jobId ∈ s.admitted.map (·.1)) :
    s.step repository (.onTerminal jobId status) =
      { s with
        repo := (repository.onTerminal jobId status s.repo).2
        finalized := if status.isTerminal then jobId :: s.finalized else s.finalized } := by
  simp only [Admissions.step, h, if_true]

theorem step_unknown {s : Admissions R} {jobId : String} {status : JobStatus}
    (h : jobId ∉ s.admitted.map (·.1)) :
    s.step repository (.onTerminal jobId status) = s := by
  simp only [Admissions.step, h, if_false]

theorem onTerminal_cases (repository : BillingRepository R) (jobId : String) (status : JobStatus) (r : R) :
    (status.isTerminal ∧ ∃ final, final ≠ .reserved ∧
      repository.onTerminal jobId status r = repository.finalize jobId final r) ∨
    ¬ status.isTerminal ∧ (repository.onTerminal jobId status r).2 = r := by
  cases status with
  | succeeded => exact .inl ⟨rfl, .settled, by decide, rfl⟩
  | failed => exact .inl ⟨rfl, .released, by decide, rfl⟩
  | cancelled => exact .inl ⟨rfl, .released, by decide, rfl⟩
  | _ => exact .inr ⟨by decide, rfl⟩

theorem Sound.onTerminal {s : Admissions R} (lawful : Lawful repository Inv Fresh)
    (h : Sound repository Inv s) (jobId : String) (status : JobStatus) :
    Sound repository Inv (s.step repository (.onTerminal jobId status)) := by
  by_cases hknown : jobId ∈ s.admitted.map (·.1)
  · rw [step_onTerminal hknown]
    obtain ⟨p, hp, rfl⟩ := List.mem_map.mp hknown
    obtain ⟨auth, hauth⟩ := h.known p hp
    obtain ⟨-, final, hfinal, heq⟩ | ⟨-, heq⟩ := onTerminal_cases repository p.1 status s.repo
    · have hreleased := released lawful h hfinal hauth
      rw [heq]
      exact ⟨hreleased.inv, hreleased.known⟩
    · rw [heq]
      exact ⟨h.inv, h.known⟩
  · rw [step_unknown hknown]
    exact h

theorem Sound.live_onTerminal {s : Admissions R} (lawful : Lawful repository Inv Fresh)
    (h : Sound repository Inv s) (hlive : s.Live repository) (jobId : String) (status : JobStatus) :
    (s.step repository (.onTerminal jobId status)).Live repository := by
  by_cases hknown : jobId ∈ s.admitted.map (·.1)
  · rw [step_onTerminal hknown]
    obtain ⟨q, hq, rfl⟩ := List.mem_map.mp hknown
    obtain ⟨auth, hauth⟩ := h.known q hq
    obtain ⟨hterminal, final, hfinal, heq⟩ | ⟨hterminal, heq⟩ := onTerminal_cases repository q.1 status s.repo
    · intro p hp hnot
      simp only [hterminal, if_true, List.mem_cons, not_or] at hnot
      obtain ⟨hne, hnot⟩ := hnot
      have hlive := hlive p hp hnot
      simp only [heq]
      by_cases hreserved : auth.status = .reserved
      · rw [(lawful.finalize_open h.inv hauth hreserved hfinal).2, if_neg (Ne.symm hne)]
        exact hlive
      · rw [lawful.finalize_final h.inv hauth hreserved hfinal]
        exact hlive
    · intro p hp hnot
      rw [if_neg hterminal] at hnot
      simp only [heq]
      exact hlive p hp hnot
  · rw [step_unknown hknown]
    exact hlive

theorem found_iff {s : Admissions R} (lawful : Lawful repository Inv Fresh) (h : Sound repository Inv s)
    (hlive : s.Live repository) {a : Admission} {auth : CreditAuthorization}
    (hauth : repository.authorization a.jobId s.repo = some auth)
    (hcredits : auth.credits = Admissions.credits a)
    (hrun : repository.creditAwareAdmit a s.repo = repository.underReservation a s.repo) :
    (if auth.status = .reserved then ∀ raised, a.callback = .error raised → ¬ raised.isException
      else a.jobId ∈ s.finalized ∨ ∃ raised, a.callback = .error raised) ↔
      (s.step repository (.admission a)).Live repository ∧
      (∀ raised, (repository.creditAwareAdmit a s.repo).1 = .error raised →
        Neutral repository s.repo (s.step repository (.admission a)).repo) := by
  cases hcallback : a.callback with
  | ok u =>
    rw [underReservation_returned hcallback] at hrun
    rw [step_ok hrun, hrun]
    constructor
    · intro hcondition
      refine ⟨fun p hp hnot => ?_, by simp⟩
      rcases List.mem_cons.mp hp with rfl | hp
      · split_ifs at hcondition with hreserved
        · exact ⟨auth, hauth, hreserved, hcredits⟩
        · rcases hcondition with hfinalized | ⟨raised, hraised⟩
          · exact absurd hfinalized hnot
          · cases hraised
      · exact hlive p hp hnot
    · rintro ⟨hthen, -⟩
      split_ifs with hreserved
      · rintro raised ⟨⟩
      · left
        by_contra hnot
        obtain ⟨x, hx, hstatus, -⟩ := hthen _ List.mem_cons_self hnot
        rw [hauth] at hx
        cases hx
        exact hreserved hstatus
  | error raised =>
    by_cases hraised : raised.isException
    · obtain ⟨e, he⟩ := underReservation_released repository s.repo hcallback hraised
      have hrun := hrun.trans he
      rw [step_error hrun, hrun]
      by_cases hreserved : auth.status = .reserved
      · -- The live reservation is released.
        rw [if_pos hreserved]
        refine iff_of_false (fun hcondition => hcondition raised rfl hraised) ?_
        rintro ⟨-, hneutral⟩
        have hthen := (hneutral e rfl).authorizations _ _ hauth
        have hfinal : AuthorizationStatus.released ≠ .reserved := by decide
        have hreleased := (lawful.finalize_open h.inv hauth hreserved hfinal).2 a.jobId
        have hsame := (hreleased.symm.trans hthen).symm
        rw [if_pos rfl, Option.some.injEq] at hsame
        have hstatus := congrArg CreditAuthorization.status hsame
        rw [hreserved] at hstatus
        cases hstatus
      · rw [if_neg hreserved, lawful.finalize_final h.inv hauth hreserved (by decide)]
        exact iff_of_true (.inr ⟨raised, rfl⟩) ⟨hlive, fun _ _ => neutral_refl repository s.repo⟩
    · have hrun := hrun.trans (underReservation_unwound hcallback hraised)
      rw [step_error hrun, hrun]
      refine iff_of_true ?_ ⟨hlive, fun _ _ => neutral_refl repository s.repo⟩
      split_ifs
      · rintro raised' ⟨⟩
        exact hraised
      · exact .inr ⟨raised, rfl⟩

theorem new_iff {s : Admissions R} (hlive : s.Live repository) {a : Admission} {r : R}
    (hauth : repository.authorization a.jobId s.repo = none)
    (reserves : Reserves repository Inv s.repo r
      ⟨a.authorizationId, a.jobId, a.accountId, Admissions.credits a, .reserved⟩)
    (hrun : repository.creditAwareAdmit a s.repo = repository.underReservation a r) :
    (∀ raised, a.callback = .error raised → raised.isException) ↔
      (s.step repository (.admission a)).Live repository ∧
      (∀ raised, (repository.creditAwareAdmit a s.repo).1 = .error raised →
        Neutral repository s.repo (s.step repository (.admission a)).repo) := by
  have hothers : ∀ p ∈ s.admitted, p.1 ∉ s.finalized →
      ∃ x, repository.authorization p.1 r = some x ∧ x.status = .reserved ∧ x.credits = p.2 := by
    intro p hp hnot
    obtain ⟨x, hx, hrest⟩ := hlive p hp hnot
    refine ⟨x, ?_, hrest⟩
    rw [reserves.authorization, if_neg, hx]
    rintro heq
    simp only at heq
    rw [heq, hx] at hauth
    cases hauth
  cases hcallback : a.callback with
  | ok u =>
    rw [underReservation_returned hcallback] at hrun
    rw [step_ok hrun, hrun]
    refine iff_of_true (by rintro raised ⟨⟩) ⟨fun p hp hnot => ?_, by simp⟩
    rcases List.mem_cons.mp hp with rfl | hp
    · exact ⟨_, (reserves.authorization a.jobId).trans (if_pos rfl), rfl, rfl⟩
    · exact hothers p hp hnot
  | error raised =>
    by_cases hraised : raised.isException
    · obtain ⟨e, he⟩ := underReservation_released repository r hcallback hraised
      have hrun := hrun.trans he
      rw [step_error hrun, hrun]
      refine iff_of_true ?_ ⟨live_neutral hlive reserves.refund, fun _ _ => reserves.refund⟩
      rintro raised' ⟨⟩
      exact hraised
    · -- The reservation stays.
      have hrun := hrun.trans (underReservation_unwound hcallback hraised)
      rw [step_error hrun, hrun]
      refine iff_of_false (fun hcondition => hraised (hcondition raised rfl)) ?_
      rintro ⟨-, hneutral⟩
      exact reserves.debit ((hneutral raised rfl).balance a.accountId)

theorem step_iff {s : Admissions R} (lawful : Lawful repository Inv Fresh) (h : Sound repository Inv s)
    (hlive : s.Live repository) {a : Admission} (hfresh : Fresh a.authorizationId s.repo) :
    s.Permits repository a ↔
      (s.step repository (.admission a)).Live repository ∧
      (∀ raised, (repository.creditAwareAdmit a s.repo).1 = .error raised →
        Neutral repository s.repo (s.step repository (.admission a)).repo) := by
  have hway := lawful.way h.inv hfresh
  generalize hrun : repository.creditAwareAdmit a s.repo = result at hway
  rw [← hrun]
  cases hway with
  | refused hpermits =>
    rw [step_error hrun]
    exact iff_of_true (hpermits s rfl) ⟨hlive, fun _ _ => neutral_refl repository s.repo⟩
  | found hauth hcredits hpermits =>
    rw [hpermits s rfl]
    exact found_iff lawful h hlive hauth hcredits hrun
  | new hauth hpermits reserves =>
    rw [hpermits s rfl]
    exact new_iff hlive hauth reserves hrun

/-- On a lawful repository a run of admissions is safe exactly if each callback ends in a way that is
permitted. -/
theorem admitsSafely_iff (lawful : Lawful repository Inv Fresh) {s : Admissions R}
    (h : Sound repository Inv s) (hlive : s.Live repository) {acts : List AdmissionAct}
    (hfresh : FreshAll repository Fresh s acts) :
    AdmitsSafely repository s acts ↔ PermitsAll repository s acts := by
  induction acts generalizing s with
  | nil => exact iff_of_true hlive trivial
  | cons act acts ih =>
    obtain ⟨hfresh, hrest⟩ := hfresh
    unfold AdmitsSafely PermitsAll
    cases act with
    | onTerminal jobId status =>
      have hnext := ih (h.onTerminal lawful jobId status) (h.live_onTerminal lawful hlive jobId status) hrest
      simp [hlive, hnext]
    | admission a =>
      have hstep := step_iff lawful h hlive (hfresh a rfl)
      have hsound := h.admission lawful (hfresh a rfl)
      have hhead : ∀ {acts : List AdmissionAct},
          AdmitsSafely repository (s.step repository (.admission a)) acts →
          (s.step repository (.admission a)).Live repository := by
        intro acts hsafe
        cases acts with
        | nil => exact hsafe
        | cons act acts => exact hsafe.1
      constructor
      · rintro ⟨-, hneutral, hsafe⟩
        have hthen := hhead hsafe
        have hpermits := hstep.mpr ⟨hthen, fun raised => hneutral a raised rfl⟩
        refine ⟨?_, (ih hsound hthen hrest).mp hsafe⟩
        rintro _ ⟨⟩
        exact hpermits
      · rintro ⟨hpermits, hall⟩
        obtain ⟨hthen, hneutral⟩ := hstep.mp (hpermits a rfl)
        refine ⟨hlive, ?_, (ih hsound hthen hrest).mpr hall⟩
        rintro _ raised ⟨⟩
        exact hneutral raised

end Lawful

end KenkuiServer.Billing
