import KenkuiServer.Data.Uuid
import KenkuiServer.Storage.Schema

/-! Identities with their address and preference, and the send records of completion mail: the hosted tables of
`PostgresIdentityRepository` and `PostgresNotificationRepository`. Each call is one statement. -/
namespace KenkuiServer.Storage
open Txn Data

structure Identity where
  id : UUID
  workosSubject : String
  email : Option String := none
  notifyByEmail : Bool := true
  deriving DecidableEq

structure JobNotification where
  jobId : String
  channel : String
  deliveredAt : Option Time := none
  deriving DecidableEq

abbrev Identities := Table Identity.id

abbrev JobNotifications := Table fun row : JobNotification => (row.jobId, row.channel)

/-- Who a finished job belongs to, and whether they want to hear about it. -/
structure Recipient where
  identityId : UUID
  email : Option String
  notifyByEmail : Bool
  deriving DecidableEq

namespace PostgresIdentityRepository

/-- `user_id_for_subject`; `id` is the `uuid4` of the row if it is new. -/
def userIdForSubject (id : UUID) (subject : String) (email : Option String) (identities : Identities) :
    Except Error (UUID × Identities) :=
  match identities.rows.find? (·.workosSubject = subject) with
  | some row => .ok (row.id, identities.put { row with email := email <|> row.email })
  | none =>
    if (identities.get? id).isSome then .error (.integrity "identities_pkey")
    else .ok (id, identities.put { id, workosSubject := subject, email })

def setNotifyByEmail (identityId : UUID) (enabled : Bool) (identities : Identities) : Identities :=
  match identities.get? identityId with
  | none => identities
  | some row => identities.put { row with notifyByEmail := enabled }

variable {identities : Identities} {identityId other : UUID} {enabled : Bool}

theorem get?_setNotifyByEmail :
    (setNotifyByEmail identityId enabled identities).get? other =
      if identityId = other then (identities.get? other).map fun row => { row with notifyByEmail := enabled }
      else identities.get? other := by
  unfold setNotifyByEmail
  cases hrow : identities.get? identityId with
  | none =>
    split_ifs with hid
    · subst hid
      simp [hrow]
    · rfl
  | some row =>
    have hkey : row.id = identityId := Table.key_of_get? hrow
    rw [Table.get?_put]
    by_cases hid : identityId = other
    · subst hid
      rw [if_pos hkey, if_pos rfl, hrow]
      rfl
    · have hne : ¬ row.id = other := fun h => hid (hkey.symm.trans h)
      rw [if_neg hid]
      exact if_neg hne

end PostgresIdentityRepository

namespace PostgresNotificationRepository

/-- `jobs JOIN identities ON identities.id = jobs.owner_id`. -/
def recipientForJob (jobId : String) (jobs : Table fun row : JobRow => row.id) (identities : Identities) :
    Option Recipient := do
  let job ← jobs.get? jobId
  let owner ← job.ownerId
  let row ← identities.rows.find? (·.id.str = owner)
  return ⟨row.id, row.email, row.notifyByEmail⟩

/-- `INSERT ... ON CONFLICT (job_id, channel) DO NOTHING RETURNING job_id`: whether a row came back. -/
def claim (jobId channel : String) (jobs : Table fun row : JobRow => row.id)
    (notifications : JobNotifications) :
    Except Error (Bool × JobNotifications) :=
  if (notifications.get? (jobId, channel)).isSome then .ok (false, notifications)
  else if (jobs.get? jobId).isNone then .error (.integrity "job_notifications_job_id_fkey")
  else .ok (true, notifications.put { jobId, channel })

def markDelivered (jobId channel : String) (now : Time) (notifications : JobNotifications) :
    JobNotifications :=
  match notifications.get? (jobId, channel) with
  | none => notifications
  | some row => notifications.put { row with deliveredAt := some now }

variable {jobId channel : String} {jobs : Table fun row : JobRow => row.id} {identities : Identities}
  {notifications notifications' : JobNotifications} {claimed : Bool} {now : Time}

theorem get?_markDelivered {key : String × String} :
    (markDelivered jobId channel now notifications).get? key =
      if (jobId, channel) = key then
        (notifications.get? key).map fun row => { row with deliveredAt := some now }
      else notifications.get? key := by
  unfold markDelivered
  cases hrow : notifications.get? (jobId, channel) with
  | none =>
    split_ifs with hkey
    · subst hkey
      simp [hrow]
    · rfl
  | some row =>
    have hown : (row.jobId, row.channel) = (jobId, channel) :=
      Table.key_of_get? (t := notifications) hrow
    rw [Table.get?_put]
    by_cases hkey : (jobId, channel) = key
    · subst hkey
      rw [if_pos hown, if_pos rfl, hrow]
      rfl
    · have hne : ¬ (row.jobId, row.channel) = key := fun h => hkey (hown.symm.trans h)
      rw [if_neg hkey]
      exact if_neg hne

theorem claim_ok (h : claim jobId channel jobs notifications = .ok (claimed, notifications')) :
    (claimed = true ↔ notifications.get? (jobId, channel) = none) ∧
      notifications' = if claimed then notifications.put { jobId, channel } else notifications := by
  unfold claim at h
  split_ifs at h with htaken hjob
  · cases h
    have hfound : notifications.get? (jobId, channel) ≠ none := Option.isSome_iff_ne_none.mp htaken
    simp [hfound]
  · cases h
    have hfree : notifications.get? (jobId, channel) = none := by simpa using htaken
    simp [hfree]

end PostgresNotificationRepository

end KenkuiServer.Storage
