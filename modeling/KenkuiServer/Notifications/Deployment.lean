import KenkuiServer.Notifications.Completion
import KenkuiServer.Txn.Serial

/-! Runs of hosted attempts that complete jobs and mail their owners, while identities sign in and change
their preferences. An attempt that dies takes no further step. -/
namespace KenkuiServer.Notifications
open Txn Data Jobs Storage Hosted PostgresIdentityRepository

/-- An attempt that concludes a job, with what is left of its script. -/
structure Attempt where
  runner : HostedJobRunner
  jobId : String
  script : Worker Unit
  history : History := []

/-- The messages that the attempt has handed to the mailer. -/
def Attempt.sent (attempt : Attempt) : List Message := attempt.history.filterMap message?

/-- The hosted store with the calls committed so far, the notification tables, and the attempts. -/
structure Deployment where
  run : Serial HostedDb Call Reply
  identities : Identities := ∅
  notifications : JobNotifications := ∅
  attempts : List Attempt := []

inductive Act
  /-- A call of the API, of a supervisor, or of an attempt that is not concluding a job. -/
  | call (call : Call)
  | signIn (id : UUID) (subject : String) (email : Option String)
  | setNotifyByEmail (identityId : UUID) (enabled : Bool)
  | spawn (runner : HostedJobRunner) (jobId : String)
  /-- An attempt takes its next step. -/
  | work (i : ℕ) (moment : Moment)

namespace Deployment
variable (hmac : Hmac) (s : Deployment)

/-- The messages that were handed to the mailer for the job. -/
def handed (jobId : String) : List Message :=
  s.attempts.flatMap fun attempt => if attempt.jobId = jobId then attempt.sent else []

def findJob (jobId : String) : Except Error { job : Job // job.id = jobId } :=
  match h : s.run.db.jobs.get? jobId with
  | none => .error (.key jobId)
  | some row =>
    have hid : row.id = jobId := Table.key_of_get? (t := s.run.db.jobs) h
    .ok ⟨row.toJob, hid⟩

/-- What a query does, and how it ends, when nothing fails around it. -/
def perform (moment : Moment) : (q : Query) → q.Answer × Deployment
  | .job jobId => (s.findJob jobId, s)
  | .upload _ => (.ok (), s)
  | .call call => (((call moment).prog.transaction s.run.db).1,
    { s with run := s.run.step Call.prog (call moment) })
  | .unlink _ => (.ok (), s)
  | .connect => (.ok (), s)
  | .recipient jobId =>
    (.ok (PostgresNotificationRepository.recipientForJob jobId s.run.db.jobs s.identities), s)
  | .claim jobId channel =>
    match PostgresNotificationRepository.claim jobId channel s.run.db.jobs s.notifications with
    | .error e => (.error e, s)
    | .ok (claimed, notifications) => (.ok claimed, { s with notifications })
  | .send _ => (.ok (), s)
  | .markDelivered jobId channel =>
    (.ok (), { s with
      notifications := PostgresNotificationRepository.markDelivered jobId channel moment.now
        s.notifications })

/-- A query may also fail without an effect, or after it. -/
def answer (moment : Moment) (q : Query) : q.Answer × Deployment :=
  match moment.before, moment.after with
  | some e, _ => (.error e, s)
  | none, some e => (.error e, (s.perform moment q).2)
  | none, none => s.perform moment q

/-- The next step of attempt `i`. -/
def work (i : ℕ) (moment : Moment) : Deployment :=
  match s.attempts[i]? with
  | none => s
  | some attempt =>
    match attempt.script with
    | .ret _ => s
    | .raise _ => s
    | .ask q k =>
      let (answer, s') := s.answer moment q
      { s' with
        attempts :=
          s.attempts.set i { attempt with script := k answer, history := ⟨q, answer⟩ :: attempt.history } }

def step : Act → Deployment
  | .call call => { s with run := s.run.step Call.prog call }
  | .signIn id subject email =>
    match userIdForSubject id subject email s.identities with
    | .error _ => s
    | .ok (_, identities) => { s with identities }
  | .setNotifyByEmail identityId enabled =>
    { s with identities := PostgresIdentityRepository.setNotifyByEmail identityId enabled s.identities }
  | .spawn runner jobId =>
    { s with attempts := s.attempts ++ [⟨runner, jobId, runner.conclude hmac jobId, []⟩] }
  | .work i moment => s.work i moment

def after (acts : List Act) : Deployment := acts.foldl (step hmac) s

/-- What a query leaves behind, with its answer. -/
structure Effect (moment : Moment) (q : Query) (result : q.Answer × Deployment) : Prop where
  attempts : result.2.attempts = s.attempts
  log : ∀ entry ∈ s.run.log, entry ∈ result.2.run.log
  commits : ∀ call reply, (⟨q, result.1⟩ : Sigma Query.Answer) = ⟨.call call, .ok reply⟩ →
    (call moment, reply) ∈ result.2.run.log
  reserved : ∀ key, (s.notifications.get? key).isSome → (result.2.notifications.get? key).isSome
  claims : ∀ jobId channel, (⟨q, result.1⟩ : Sigma Query.Answer) = ⟨.claim jobId channel, .ok true⟩ →
    s.notifications.get? (jobId, channel) = none ∧ (result.2.notifications.get? (jobId, channel)).isSome
  delivers : ∀ key row, result.2.notifications.get? key = some row → row.deliveredAt.isSome →
    (∃ before, s.notifications.get? key = some before ∧ before.deliveredAt.isSome) ∨
      q = .markDelivered key.1 key.2

section
variable {s : Deployment} {moment : Moment} {q : Query}

theorem Effect.same {a : q.Answer}
    (hcall : ∀ call reply, (⟨q, a⟩ : Sigma Query.Answer) ≠ ⟨.call call, .ok reply⟩)
    (hclaim : ∀ jobId channel, (⟨q, a⟩ : Sigma Query.Answer) ≠ ⟨.claim jobId channel, .ok true⟩) :
    s.Effect moment q (a, s) where
  attempts := rfl
  log _ hentry := hentry
  commits call reply h := absurd h (hcall call reply)
  reserved _ hkey := hkey
  claims jobId channel h := absurd h (hclaim jobId channel)
  delivers _ row hrow hdelivered := Or.inl ⟨row, hrow, hdelivered⟩

theorem Effect.error {a : q.Answer} {s' : Deployment} (h : s.Effect moment q (a, s')) (e : Error) :
    s.Effect moment q (.error e, s') where
  attempts := h.attempts
  log := h.log
  commits call reply heq := by cases heq
  reserved := h.reserved
  claims jobId channel heq := by cases heq
  delivers := h.delivers

theorem log_step (run : Serial HostedDb Call Reply) (call : Call) :
    (∀ entry ∈ run.log, entry ∈ (run.step Call.prog call).log) ∧
      ∀ reply, (call.prog.transaction run.db).1 = .ok reply →
        (call, reply) ∈ (run.step Call.prog call).log := by
  unfold Serial.step Prog.transaction
  cases hrun : call.prog.run run.db with
  | error e => exact ⟨fun _ hentry => hentry, fun _ h => by cases h⟩
  | ok r =>
    refine ⟨fun _ hentry => List.mem_cons_of_mem _ hentry, fun reply h => ?_⟩
    cases h
    exact List.mem_cons_self

theorem claim_effect (s : Deployment) (moment : Moment) (jobId channel : String) :
    s.Effect moment (.claim jobId channel) (s.perform moment (.claim jobId channel)) := by
  simp only [perform]
  cases hclaim : PostgresNotificationRepository.claim jobId channel s.run.db.jobs s.notifications with
  | error e => exact Effect.same (fun _ _ h => by cases h) fun _ _ h => by cases h
  | ok result =>
    obtain ⟨claimed, notifications⟩ := result
    obtain ⟨hfree, hresult⟩ := PostgresNotificationRepository.claim_ok hclaim
    cases claimed with
    | false =>
      obtain rfl : notifications = s.notifications := by simpa using hresult
      exact Effect.same (fun _ _ h => by cases h) fun _ _ h => by cases h
    | true =>
      have hnone : s.notifications.get? (jobId, channel) = none := hfree.mp rfl
      obtain rfl : notifications = s.notifications.put { jobId, channel } := by simpa using hresult
      have hget : ∀ key, (s.notifications.put { jobId, channel }).get? key =
          if (jobId, channel) = key then some { jobId, channel } else s.notifications.get? key := fun key =>
        Table.get?_put _ _ key
      constructor
      · rfl
      · exact fun _ hentry => hentry
      · intro call reply h
        cases h
      · intro key hkey
        simp only [hget]
        split_ifs
        · rfl
        · exact hkey
      · intro jobId' channel' h
        cases h
        simp [hget, hnone]
      · intro key row hrow hdelivered
        simp only [hget] at hrow
        split_ifs at hrow
        · cases hrow
          cases hdelivered
        · exact Or.inl ⟨row, hrow, hdelivered⟩

theorem markDelivered_effect (s : Deployment) (moment : Moment) (jobId channel : String) :
    s.Effect moment (.markDelivered jobId channel) (s.perform moment (.markDelivered jobId channel)) := by
  constructor
  · rfl
  · exact fun _ hentry => hentry
  · intro call reply h
    cases h
  · intro key hkey
    simp only [perform, PostgresNotificationRepository.get?_markDelivered]
    split_ifs
    · simpa using hkey
    · exact hkey
  · intro jobId' channel' h
    cases h
  · intro key row hrow hdelivered
    simp only [perform, PostgresNotificationRepository.get?_markDelivered] at hrow
    split_ifs at hrow with hkey
    · subst hkey
      exact Or.inr rfl
    · exact Or.inl ⟨row, hrow, hdelivered⟩

theorem perform_effect (s : Deployment) (moment : Moment) (q : Query) :
    s.Effect moment q (s.perform moment q) := by
  cases q with
  | job jobId => exact Effect.same (fun _ _ h => by cases h) fun _ _ h => by cases h
  | upload identifier => exact Effect.same (fun _ _ h => by cases h) fun _ _ h => by cases h
  | call call =>
    obtain ⟨hold, hnew⟩ := log_step s.run (call moment)
    constructor
    · rfl
    · exact hold
    · intro call' reply h
      simp only [perform] at h
      revert hnew h
      generalize ((call moment).prog.transaction s.run.db).1 = answer
      intro hnew h
      cases h
      exact hnew reply rfl
    · exact fun _ hkey => hkey
    · intro jobId channel h
      cases h
    · exact fun _ row hrow hdelivered => Or.inl ⟨row, hrow, hdelivered⟩
  | unlink output => exact Effect.same (fun _ _ h => by cases h) fun _ _ h => by cases h
  | connect => exact Effect.same (fun _ _ h => by cases h) fun _ _ h => by cases h
  | recipient jobId => exact Effect.same (fun _ _ h => by cases h) fun _ _ h => by cases h
  | claim jobId channel => exact claim_effect s moment jobId channel
  | send message => exact Effect.same (fun _ _ h => by cases h) fun _ _ h => by cases h
  | markDelivered jobId channel => exact markDelivered_effect s moment jobId channel

theorem answer_effect (s : Deployment) (moment : Moment) (q : Query) :
    s.Effect moment q (s.answer moment q) := by
  have hperform := perform_effect s moment q
  unfold answer
  split
  · exact Effect.same (fun _ _ h => by cases h) fun _ _ h => by cases h
  · exact hperform.error _
  · exact hperform

end

/-- What every run keeps. -/
structure Sound : Prop where
  follows : ∀ attempt ∈ s.attempts,
    attempt.script.Follows (Warranted attempt.jobId) (fun _ _ => True) attempt.history
  allowed : ∀ attempt ∈ s.attempts, Script.Allowed (Warranted attempt.jobId) attempt.history
  committed : ∀ attempt ∈ s.attempts, ∀ call reply,
    (⟨.call call, .ok reply⟩ : Sigma Query.Answer) ∈ attempt.history →
      ∃ moment, (call moment, reply) ∈ s.run.log
  winner : ∀ (i j : ℕ) (a b : Attempt), s.attempts[i]? = some a → s.attempts[j]? = some b →
    a.jobId = b.jobId →
    Claimed a.jobId a.history → Claimed b.jobId b.history → i = j
  reserved : ∀ attempt ∈ s.attempts, Claimed attempt.jobId attempt.history →
    (s.notifications.get? (attempt.jobId, emailChannel)).isSome
  delivered : ∀ key row, s.notifications.get? key = some row → row.deliveredAt.isSome →
    key.2 = emailChannel ∧ ∃ attempt ∈ s.attempts, attempt.jobId = key.1 ∧ Accepted attempt.history

section
variable {hmac : Hmac} {s s' : Deployment}

theorem Sound.others (h : s.Sound) (hattempts : s'.attempts = s.attempts)
    (hnotifications : s'.notifications = s.notifications) (hlog : ∀ entry ∈ s.run.log, entry ∈ s'.run.log) :
    s'.Sound := by
  constructor
  · rw [hattempts]
    exact h.follows
  · rw [hattempts]
    exact h.allowed
  · intro attempt hattempt call reply hmem
    rw [hattempts] at hattempt
    obtain ⟨moment, hentry⟩ := h.committed attempt hattempt call reply hmem
    exact ⟨moment, hlog _ hentry⟩
  · rw [hattempts]
    exact h.winner
  · rw [hattempts, hnotifications]
    exact h.reserved
  · rw [hattempts, hnotifications]
    exact h.delivered

theorem Sound.spawn (h : s.Sound) (runner : HostedJobRunner) (jobId : String) :
    (s.step hmac (.spawn runner jobId)).Sound := by
  have hmem : ∀ attempt ∈ (s.step hmac (.spawn runner jobId)).attempts,
      attempt ∈ s.attempts ∨ attempt = ⟨runner, jobId, runner.conclude hmac jobId, []⟩ := by
    intro attempt hattempt
    rcases List.mem_append.mp hattempt with hold | hnew
    · exact Or.inl hold
    · exact Or.inr (List.mem_singleton.mp hnew)
  have hclaimed : ∀ (i : ℕ) (attempt : Attempt),
      (s.step hmac (.spawn runner jobId)).attempts[i]? = some attempt →
      Claimed attempt.jobId attempt.history → s.attempts[i]? = some attempt := by
    intro i attempt hattempt hclaimed
    simp only [step, List.getElem?_append] at hattempt
    split_ifs at hattempt
    · exact hattempt
    · rcases List.mem_singleton.mp (List.mem_of_getElem? hattempt) with rfl
      cases hclaimed
  constructor
  · intro attempt hattempt
    rcases hmem attempt hattempt with hold | rfl
    · exact h.follows attempt hold
    · exact HostedJobRunner.conclude_follows rfl
  · intro attempt hattempt
    rcases hmem attempt hattempt with hold | rfl
    · exact h.allowed attempt hold
    · trivial
  · intro attempt hattempt call reply hcall
    rcases hmem attempt hattempt with hold | rfl
    · exact h.committed attempt hold call reply hcall
    · cases hcall
  · intro i j a b ha hb hjob hca hcb
    exact h.winner i j a b (hclaimed i a ha hca) (hclaimed j b hb hcb) hjob hca hcb
  · intro attempt hattempt hclaim
    rcases hmem attempt hattempt with hold | rfl
    · exact h.reserved attempt hold hclaim
    · cases hclaim
  · intro key row hrow hdelivered
    obtain ⟨hchannel, attempt, hattempt, haccepted⟩ := h.delivered key row hrow hdelivered
    exact ⟨hchannel, attempt, List.mem_append_left _ hattempt, haccepted⟩

theorem Sound.work (h : s.Sound) (i : ℕ) (moment : Moment) : (s.work i moment).Sound := by
  unfold Deployment.work
  cases hattempt : s.attempts[i]? with
  | none => exact h
  | some attempt =>
    have hmem := List.mem_of_getElem? hattempt
    have hfollows := h.follows attempt hmem
    cases hscript : attempt.script with
    | ret u => simpa only [hscript] using h
    | raise e => simpa only [hscript] using h
    | ask q k =>
      rw [hscript] at hfollows
      have heffect := answer_effect s moment q
      simp only [hscript]
      revert heffect
      generalize s.answer moment q = result
      obtain ⟨answer, s'⟩ := result
      intro heffect
      set next : Attempt :=
        { attempt with script := k answer, history := ⟨q, answer⟩ :: attempt.history } with hnext
      have hin : ∀ other ∈ s.attempts.set i next, other ∈ s.attempts ∨ other = next :=
        fun other hother => List.mem_or_eq_of_mem_set hother
      have hat : ∀ (j : ℕ) (other : Attempt), (s.attempts.set i next)[j]? = some other →
          (j = i ∧ other = next) ∨ (j ≠ i ∧ s.attempts[j]? = some other) := by
        intro j other hother
        rw [List.getElem?_set] at hother
        split_ifs at hother with hij hlt
        · exact Or.inl ⟨hij.symm, (Option.some.inj hother).symm⟩
        · exact Or.inr ⟨fun heq => hij heq.symm, hother⟩
      -- an earlier winner has left its record, so that a new claim is refused
      have hfirst : ∀ (j : ℕ) (other : Attempt), j ≠ i → s.attempts[j]? = some other →
          other.jobId = attempt.jobId →
          Claimed other.jobId other.history → Claimed next.jobId next.history → False := by
        intro j other hne hother hjob hclaimed hnew
        rcases claimed_cons hnew with heq | hold
        · have hnone := (heffect.claims _ _ heq).1
          have hsome := h.reserved other (List.mem_of_getElem? hother) hclaimed
          rw [hjob] at hsome
          rw [hnone] at hsome
          cases hsome
        · exact hne (h.winner j i other attempt hother hattempt hjob hclaimed hold)
      constructor
      · intro other hother
        rcases hin other hother with hold | rfl
        · exact h.follows other hold
        · exact hfollows.2 answer
      · intro other hother
        rcases hin other hother with hold | rfl
        · exact h.allowed other hold
        · exact ⟨hfollows.1, h.allowed attempt hmem⟩
      · intro other hother call reply hcall
        rcases hin other hother with hold | rfl
        · obtain ⟨at', hentry⟩ := h.committed other hold call reply hcall
          exact ⟨at', heffect.log _ hentry⟩
        · rcases List.mem_cons.mp hcall with heq | hcall
          · exact ⟨moment, heffect.commits call reply heq.symm⟩
          · obtain ⟨at', hentry⟩ := h.committed attempt hmem call reply hcall
            exact ⟨at', heffect.log _ hentry⟩
      · intro j l a b ha hb hjob hca hcb
        rcases hat j a ha with ⟨rfl, rfl⟩ | ⟨hj, hsa⟩
        · rcases hat l b hb with ⟨rfl, rfl⟩ | ⟨hl, hsb⟩
          · rfl
          · exact (hfirst l b hl hsb hjob.symm hcb hca).elim
        · rcases hat l b hb with ⟨rfl, rfl⟩ | ⟨hl, hsb⟩
          · exact (hfirst j a hj hsa hjob hca hcb).elim
          · exact h.winner j l a b hsa hsb hjob hca hcb
      · intro other hother hclaimed
        rcases hin other hother with hold | rfl
        · exact heffect.reserved _ (h.reserved other hold hclaimed)
        · rcases claimed_cons hclaimed with heq | hold
          · exact (heffect.claims _ _ heq).2
          · exact heffect.reserved _ (h.reserved attempt hmem hold)
      · intro key row hrow hdelivered
        rcases heffect.delivers key row hrow hdelivered with ⟨before, hbefore, hdone⟩ | hq
        · obtain ⟨hchannel, other, hother, hjob, haccepted⟩ := h.delivered key before hbefore hdone
          refine ⟨hchannel, ?_⟩
          obtain ⟨j, hj⟩ := List.mem_iff_getElem?.mp hother
          by_cases hij : j = i
          · subst hij
            obtain rfl : attempt = other := Option.some.inj (hattempt.symm.trans hj)
            exact ⟨next, List.mem_set (List.getElem?_eq_some_iff.mp hattempt).1 next, hjob, haccepted.later _⟩
          · have hkept : (s.attempts.set i next)[j]? = some other := by
              rw [List.getElem?_set_ne (fun heq => hij heq.symm), hj]
            exact ⟨other, List.mem_of_getElem? hkept, hjob, haccepted⟩
        · subst hq
          obtain ⟨hjob, hchannel, -, haccepted⟩ := hfollows.1
          exact ⟨hchannel, next, List.mem_set (List.getElem?_eq_some_iff.mp hattempt).1 next, hjob.symm,
            haccepted.later _⟩

theorem Sound.step (h : s.Sound) (act : Act) : (s.step hmac act).Sound := by
  cases act with
  | call call => exact h.others rfl rfl (log_step s.run call).1
  | signIn id subject email =>
    simp only [Deployment.step]
    split
    · exact h
    · exact h.others rfl rfl fun _ hentry => hentry
  | setNotifyByEmail identityId enabled => exact h.others rfl rfl fun _ hentry => hentry
  | spawn runner jobId => exact h.spawn runner jobId
  | work i moment => exact h.work i moment

theorem Sound.after (h : s.Sound) (acts : List Act) : (s.after hmac acts).Sound := by
  induction acts generalizing s with
  | nil => exact h
  | cons act acts ih => exact ih (h.step act)

theorem sound_init (d₀ : HostedDb) (identities : Identities) :
    ({ run := { db := d₀ }, identities } : Deployment).Sound := by
  constructor
  · intro attempt hattempt
    cases hattempt
  · intro attempt hattempt
    cases hattempt
  · intro attempt hattempt
    cases hattempt
  · intro i j a b ha
    simp at ha
  · intro attempt hattempt
    cases hattempt
  · intro key row hrow
    cases hrow

theorem Sound.claimed (h : s.Sound) {attempt : Attempt} (hattempt : attempt ∈ s.attempts) {message : Message}
    (hsent : message ∈ attempt.sent) : Claimed attempt.jobId attempt.history := by
  obtain ⟨exchange, hmem, hmessage⟩ := List.mem_filterMap.mp hsent
  obtain ⟨newer, older, hhistory⟩ := List.append_of_mem hmem
  have hallowed := h.allowed attempt hattempt
  rw [hhistory] at hallowed
  have hwarranted := hallowed.split.1
  obtain ⟨q, answer⟩ := exchange
  cases q <;> simp only [message?, reduceCtorEq] at hmessage
  rw [hhistory]
  exact List.mem_append_right _ (List.mem_cons_of_mem _ hwarranted.2.2.1)

theorem length_sent {jobId : String} {past : History} (h : Script.Allowed (Warranted jobId) past) :
    (past.filterMap message?).length ≤ 1 := by
  induction past with
  | nil => simp
  | cons exchange past ih =>
    obtain ⟨q, answer⟩ := exchange
    cases q with
    | send message =>
      have hsilent : past.filterMap message? = [] := h.1.2.2.2
      simp [message?, hsilent]
    | _ => exact ih h.2

theorem length_flatMap_le_one {α β : Type} {f : α → List β} {xs : List α} (hone : ∀ x ∈ xs, (f x).length ≤ 1)
    (hsame : ∀ (i j : ℕ) (x y : α), xs[i]? = some x → xs[j]? = some y → f x ≠ [] → f y ≠ [] → i = j) :
    (xs.flatMap f).length ≤ 1 := by
  induction xs with
  | nil => simp
  | cons x xs ih =>
    have hrest := ih (fun y hy => hone y (List.mem_cons_of_mem _ hy)) fun i j y z hy hz hfy hfz => by
      have hnext := hsame (i + 1) (j + 1) y z (by simpa using hy) (by simpa using hz) hfy hfz
      omega
    rw [List.flatMap_cons, List.length_append]
    by_cases hx : f x = []
    · simpa [hx] using hrest
    · have hnil : xs.flatMap f = [] := by
        rw [List.flatMap_eq_nil_iff]
        intro y hy
        by_contra hfy
        obtain ⟨j, hj⟩ := List.mem_iff_getElem?.mp hy
        have hzero := hsame 0 (j + 1) x y rfl (by simpa using hj) hx hfy
        omega
      have hfirst := hone x List.mem_cons_self
      rw [hnil, List.length_nil]
      omega

theorem Sound.once (h : s.Sound) (jobId : String) : (s.handed jobId).length ≤ 1 := by
  have hown : ∀ attempt ∈ s.attempts, (if attempt.jobId = jobId then attempt.sent else []) ≠ [] →
      attempt.jobId = jobId ∧ Claimed attempt.jobId attempt.history := by
    intro attempt hattempt hsent
    split_ifs at hsent with hjob
    · obtain ⟨message, hmessage⟩ := List.exists_mem_of_ne_nil _ hsent
      exact ⟨hjob, h.claimed hattempt hmessage⟩
    · exact absurd rfl hsent
  refine length_flatMap_le_one ?_ ?_
  · intro attempt hattempt
    split_ifs
    · exact length_sent (h.allowed attempt hattempt)
    · simp
  · intro i j a b ha hb hfa hfb
    obtain ⟨hja, hca⟩ := hown a (List.mem_of_getElem? ha) hfa
    obtain ⟨hjb, hcb⟩ := hown b (List.mem_of_getElem? hb) hfb
    exact h.winner i j a b ha hb (hja.trans hjb.symm) hca hcb

end

end Deployment

/-- The queries of `completed`. -/
def Query.Notifies : Query → Prop
  | .recipient _ | .claim _ _ | .send _ | .markDelivered _ _ => True
  | _ => False

/-- Completion mail at most once, to an owner who wants it, after the completion. -/
structure Deployment.Mailing (hmac : Hmac) (s : Deployment) : Prop where
  once : ∀ jobId, (s.handed jobId).length ≤ 1
  consented : ∀ attempt ∈ s.attempts, ∀ newer older message answer,
    attempt.history = newer ++ ⟨.send message, answer⟩ :: older → Consented attempt.jobId message.to' older
  delivered : ∀ key row, s.notifications.get? key = some row → row.deliveredAt.isSome →
    ∃ message, s.handed key.1 = [message] ∧ ∃ attempt ∈ s.attempts, attempt.jobId = key.1 ∧
      (⟨.send message, .ok ()⟩ : Sigma Query.Answer) ∈ attempt.history
  returns : ∀ (notifier : CompletionNotifier) (job : Job) (past : History),
    (notifier.completed hmac job).Follows (fun _ _ => True) (fun _ result => ∃ u, result = .ok u) past
  committed : ∀ attempt ∈ s.attempts, ∀ newer older q answer,
    attempt.history = newer ++ ⟨q, answer⟩ :: older → q.Notifies → ∃ call moment reply,
      Query.Completes attempt.jobId call ∧ (⟨.call call, .ok reply⟩ : Sigma Query.Answer) ∈ older ∧
        (call moment, reply) ∈ s.run.log

/-- However the attempts, sign-ins and preference changes interleave, and wherever the mailer or an attempt
fails. -/
theorem mailed_once (hmac : Hmac) (d₀ : HostedDb) (identities : Identities) (acts : List Act) :
    (({ run := { db := d₀ }, identities } : Deployment).after hmac acts).Mailing hmac := by
  have hsound : (({ run := { db := d₀ }, identities } : Deployment).after hmac acts).Sound :=
    (Deployment.sound_init d₀ identities).after acts
  revert hsound
  generalize ({ run := { db := d₀ }, identities } : Deployment).after hmac acts = s
  intro hsound
  constructor
  · exact hsound.once
  · intro attempt hattempt newer older message answer hhistory
    have hallowed := hsound.allowed attempt hattempt
    rw [hhistory] at hallowed
    exact hallowed.split.1.2.1
  · intro key row hrow hdelivered
    obtain ⟨-, attempt, hattempt, hjob, message, hmem⟩ := hsound.delivered key row hrow hdelivered
    have hhanded : message ∈ s.handed key.1 := by
      refine List.mem_flatMap.mpr ⟨attempt, hattempt, ?_⟩
      rw [if_pos hjob]
      exact List.mem_filterMap.mpr ⟨_, hmem, rfl⟩
    refine ⟨message, ?_, attempt, hattempt, hjob, hmem⟩
    have hone := hsound.once key.1
    revert hhanded hone
    generalize s.handed key.1 = messages
    intro hhanded hone
    obtain ⟨only, rfl⟩ : ∃ only, messages = [only] :=
      List.length_eq_one_iff.mp (le_antisymm hone (List.length_pos_of_mem hhanded))
    rw [List.mem_singleton.mp hhanded]
  · exact fun notifier job past => completed_returns notifier job
  · intro attempt hattempt newer older q answer hhistory hq
    have hallowed := hsound.allowed attempt hattempt
    rw [hhistory] at hallowed
    have hwarranted := hallowed.split.1
    have hcompleted : Completed attempt.jobId older := by
      cases q with
      | recipient job => exact hwarranted.2
      | claim job channel => exact hwarranted.2.2
      | send message => exact hwarranted.1
      | markDelivered job channel => exact hwarranted.2.2.1
      | _ => cases hq
    obtain ⟨call, reply, hcall, hmem⟩ := hcompleted
    have hin : (⟨.call call, .ok reply⟩ : Sigma Query.Answer) ∈ attempt.history := by
      rw [hhistory]
      exact List.mem_append_right _ (List.mem_cons_of_mem _ hmem)
    obtain ⟨moment, hlog⟩ := hsound.committed attempt hattempt call reply hin
    exact ⟨call, moment, reply, hcall, hmem, hlog⟩

end KenkuiServer.Notifications
