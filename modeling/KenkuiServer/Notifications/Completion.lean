import KenkuiServer.Data.Trace
import KenkuiServer.Notifications.Service

/-! What the end of a hosted attempt may ask after what it has asked and heard before, whatever it is
answered: it notifies after its own completion, and mails after a lookup and a claim that allow it. -/
namespace KenkuiServer.Notifications
open Data Jobs Storage Hosted

abbrev History := List (Sigma Query.Answer)

/-- The query writes the completion of the job. -/
def Query.Completes (jobId : String) (call : Moment → Call) : Prop :=
  ∀ moment, ∃ snapshot eventType artifact lease failure, snapshot.id = jobId ∧
    call moment = .update snapshot .completed eventType artifact lease failure moment.now moment.at'

/-- The attempt has committed the completion of the job. -/
def Completed (jobId : String) (past : History) : Prop :=
  ∃ call reply, Query.Completes jobId call ∧ (⟨.call call, .ok reply⟩ : Sigma Query.Answer) ∈ past

/-- The attempt has been told that it is the one to mail. -/
def Claimed (jobId : String) (past : History) : Prop :=
  (⟨.claim jobId emailChannel, .ok true⟩ : Sigma Query.Answer) ∈ past

/-- The attempt has found an owner with the address who wants to be mailed. -/
def Consented (jobId address : String) (past : History) : Prop :=
  ∃ recipient : Recipient, (⟨.recipient jobId, .ok (some recipient)⟩ : Sigma Query.Answer) ∈ past ∧
    recipient.email = some address ∧ address ≠ "" ∧ recipient.notifyByEmail = true

/-- The message that an exchange hands to the mailer. -/
def message? (exchange : Sigma Query.Answer) : Option Message :=
  match exchange.1 with
  | .send message => some message
  | _ => none

/-- The mailer has accepted a message. -/
def Accepted (past : History) : Prop :=
  ∃ message, (⟨.send message, .ok ()⟩ : Sigma Query.Answer) ∈ past

/-- Nothing has been handed to the mailer. -/
def Silent (past : History) : Prop := past.filterMap message? = []

/-- What an attempt for the job may ask, given its history. -/
def Warranted (jobId : String) (past : History) : Query → Prop
  | .recipient job => job = jobId ∧ Completed jobId past
  | .claim job channel => job = jobId ∧ channel = emailChannel ∧ Completed jobId past
  | .send message => Completed jobId past ∧ Consented jobId message.to' past ∧
    Claimed jobId past ∧ Silent past
  | .markDelivered job channel => job = jobId ∧ channel = emailChannel ∧ Completed jobId past ∧ Accepted past
  | _ => True

section
variable {hmac : Hmac} {jobId : String} {past : History} {β : Type}

theorem Completed.later (h : Completed jobId past) (exchange : Sigma Query.Answer) :
    Completed jobId (exchange :: past) := by
  obtain ⟨call, reply, hcall, hmem⟩ := h
  exact ⟨call, reply, hcall, List.mem_cons_of_mem _ hmem⟩

theorem Accepted.later (h : Accepted past) (exchange : Sigma Query.Answer) :
    Accepted (exchange :: past) := by
  obtain ⟨message, hmem⟩ := h
  exact ⟨message, List.mem_cons_of_mem _ hmem⟩

/-- What one exchange adds to a history. -/
theorem claimed_cons {exchange : Sigma Query.Answer}
    (h : Claimed jobId (exchange :: past)) :
    exchange = ⟨.claim jobId emailChannel, .ok true⟩ ∨ Claimed jobId past := by
  rcases List.mem_cons.mp h with heq | hmem
  · exact Or.inl heq.symm
  · exact Or.inr hmem

theorem perform_follows {q : Query} {f : q.Result → Worker β} {P : History → Query → Prop} (hq : P past q)
    (hok : ∀ result, (f result).Follows P (fun _ _ => True) (⟨q, .ok result⟩ :: past)) :
    (perform q >>= f).Follows P (fun _ _ => True) past := by
  refine ⟨hq, fun answer => ?_⟩
  cases answer with
  | ok result => exact hok result
  | error e => trivial

theorem perform_within {q : Query} {f : q.Result → Worker β} {P : Query → Prop} (hq : P q)
    (hok : ∀ result, (f result).Within P fun _ => True) : (perform q >>= f).Within P fun _ => True := by
  refine ⟨hq, fun answer => ?_⟩
  cases answer with
  | ok result => exact hok result
  | error e => trivial

theorem send_follows (notifier : CompletionNotifier) {job : Job} (hjob : job.id = jobId)
    (hcompleted : Completed jobId past) (hsilent : Silent past) :
    (notifier.send hmac job).Follows (Warranted jobId) (fun _ _ => True) past := by
  subst hjob
  refine perform_follows ⟨rfl, hcompleted⟩ fun found => ?_
  cases found with
  | none => trivial
  | some recipient =>
    simp only
    split_ifs with hrefused
    · trivial
    have haddress : recipient.email.getD "" ≠ "" := fun h => hrefused (Or.inl h)
    have hwanted : recipient.notifyByEmail = true := by
      have hnot : ¬ recipient.notifyByEmail = false := fun h => hrefused (Or.inr h)
      simpa using hnot
    have hemail : recipient.email = some (recipient.email.getD "") := by
      cases hvalue : recipient.email with
      | none => simp [hvalue] at haddress
      | some email => rfl
    have hlooked := hcompleted.later (⟨.recipient job.id, .ok (some recipient)⟩ : Sigma Query.Answer)
    refine perform_follows ⟨rfl, rfl, hlooked⟩ fun claimed => ?_
    cases claimed with
    | false => trivial
    | true =>
      have hclaimed := hlooked.later (⟨.claim job.id emailChannel, .ok true⟩ : Sigma Query.Answer)
      refine perform_follows ⟨hclaimed, ?_, List.mem_cons_self, hsilent⟩ fun _ => ?_
      · rw [completionEmail_to]
        exact ⟨recipient, List.mem_cons_of_mem _ List.mem_cons_self, hemail, haddress, hwanted⟩
      · refine ⟨⟨rfl, rfl, hclaimed.later _, _, List.mem_cons_self⟩, fun answer => ?_⟩
        cases answer <;> trivial

theorem completed_follows (notifier : CompletionNotifier) {job : Job} (hjob : job.id = jobId)
    (hcompleted : Completed jobId past) (hsilent : Silent past) :
    (notifier.completed hmac job).Follows (Warranted jobId) (fun _ result => ∃ u, result = .ok u) past := by
  have hsend : (notifier.send hmac job).Follows (Warranted jobId) (fun _ _ => True) past :=
    send_follows notifier hjob hcompleted hsilent
  exact hsend.handle (fun _ u _ => ⟨u, rfl⟩) fun _ _ _ => ⟨(), rfl⟩

/-- `completed` never raises. -/
theorem completed_returns (notifier : CompletionNotifier) (job : Job) :
    (notifier.completed hmac job).Follows (fun _ _ => True) (fun _ result => ∃ u, result = .ok u) past := by
  have hany : ∀ p : Worker Unit, p.Follows (fun _ _ => True) (fun _ _ => True) past := by
    intro p
    refine Script.Within.follows (T := fun _ => True) ?_
    induction p with
    | ret a => trivial
    | raise e => trivial
    | ask q k ih => exact ⟨fun _ => trivial, ih⟩
  exact (hany _).handle (fun _ u _ => ⟨u, rfl⟩) fun _ _ _ => ⟨(), rfl⟩

end

namespace HostedJobRunner
variable {hmac : Hmac} {runner : HostedJobRunner} {jobId : String} {past : History}

theorem update_within {snapshot : Job} {event : JobTransitionEvent} {eventType : String}
    {artifact : Moment → Option Artifact} {failure : Option (String × String)} {P : Query → Prop}
    (hP : ∀ call, P (.call call)) :
    (runner.update snapshot event eventType artifact failure).Within P fun _ => True := by
  refine ⟨hP _, fun answer => ?_⟩
  cases answer with
  | ok reply => trivial
  | error e =>
    simp only [Script.bind]
    split_ifs <;> trivial

theorem cancelIfRequested_within :
    (runner.cancelIfRequested jobId).Within (fun q => ∀ past, Warranted jobId past q) fun _ => True := by
  refine perform_within (fun _ => trivial) fun current => ?_
  split_ifs
  · exact (update_within fun _ _ => trivial).bind fun _ _ => trivial
  · trivial

theorem failIfRunning_within :
    (runner.failIfRunning jobId).Within (fun q => ∀ past, Warranted jobId past q) fun _ => True := by
  refine perform_within (fun _ => trivial) fun current => ?_
  split_ifs
  · exact (update_within fun _ _ => trivial).bind fun _ _ => trivial
  · trivial

theorem discard_within :
    (runner.discard jobId).Within (fun q => ∀ past, Warranted jobId past q) fun _ => True :=
  perform_within (fun _ => trivial) fun _ => cancelIfRequested_within

theorem fail_within : (runner.fail jobId).Within (fun q => ∀ past, Warranted jobId past q) fun _ => True := by
  refine perform_within (fun _ => trivial) fun current => ?_
  split_ifs
  · exact cancelIfRequested_within
  · exact failIfRunning_within

theorem notifyCompleted_follows {job : Job} (hjob : job.id = jobId) (hcompleted : Completed jobId past)
    (hsilent : Silent past) :
    (runner.notifyCompleted hmac job).Follows (Warranted jobId) (fun _ _ => True) past := by
  unfold notifyCompleted
  split
  · trivial
  · trivial
  · rename_i notifier _
    refine perform_follows trivial fun _ => ?_
    have hmailed : (notifier.completed hmac job).Follows (Warranted jobId)
        (fun _ result => ∃ u, result = .ok u)
        (⟨.connect, .ok ()⟩ :: past) := completed_follows notifier hjob (hcompleted.later _) hsilent
    exact hmailed.imp fun _ _ _ => trivial

theorem publish_follows (hsilent : Silent past) :
    (runner.publish hmac jobId).Follows (Warranted jobId) (fun _ _ => True) past := by
  refine perform_follows trivial fun current => ?_
  split_ifs
  · exact discard_within.follows
  cases htransition : transition current.val .completed with
  | error e => trivial
  | ok completed =>
    have hid : completed.id = jobId := (transition_advances htransition).id.trans current.property
    refine perform_follows trivial fun _ => ?_
    refine ⟨trivial, fun answer => ?_⟩
    cases answer with
    | ok reply =>
      refine notifyCompleted_follows hid ⟨_, reply, ?_, List.mem_cons_self⟩ hsilent
      exact fun moment => ⟨current.val, _, _, _, _, current.property, rfl⟩
    | error e =>
      by_cases he : e = .staleWrite
      · subst he
        refine perform_follows trivial fun current => ?_
        split_ifs
        · exact discard_within.follows
        · trivial
      · have hraised : (if e = .staleWrite then .ret false else .raise e : Worker Bool) = .raise e :=
          if_neg he
        change ((if e = .staleWrite then .ret false else .raise e : Worker Bool) >>= _).Follows _ _ _
        rw [hraised]
        trivial

theorem conclude_follows (hsilent : Silent past) :
    (runner.conclude hmac jobId).Follows (Warranted jobId) (fun _ _ => True) past := by
  refine (publish_follows hsilent).handle (fun _ _ _ => trivial) fun past e _ => ?_
  split_ifs
  · trivial
  · exact fail_within.follows

end HostedJobRunner

end KenkuiServer.Notifications
