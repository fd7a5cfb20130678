import KenkuiServer.Jobs.Models
import KenkuiServer.Storage.PostgresNotifications

/-! Sessions of the hosted deployment: AuthKit sessions with an invitation allowlist, the identities that
they stand for, and the middleware in front of the protected routes. -/
namespace KenkuiServer.Auth
open Txn Data Jobs

structure ProviderUser where
  id : String
  email : String
  emailVerified : Bool
  deriving DecidableEq

/-- What a sealed session answers: `authenticate()` with its reason, and `refresh()` with the session sealed
anew. -/
structure Session where
  authenticated : Option ProviderUser
  reason : String := ""
  refreshed : Option (ProviderUser × String) := none
  deriving DecidableEq

structure BrowserSessionConfig where
  webOrigin : String
  /-- The scheme and host of `redirect_uri`. -/
  redirectOrigin : String
  invitedEmails : List String := []
  /-- `str.casefold`. -/
  casefold : String → String

/-- `PermissionError`, or what the store raises. -/
inductive AuthError
  | permission (message : String)
  | raised (e : Error)
  deriving DecidableEq

structure Identity where
  userId : UUID
  providerSubject : String
  deriving DecidableEq

/-- The user may sign in. An empty allowlist means open signup. -/
def BrowserSessionConfig.invites (config : BrowserSessionConfig) (user : ProviderUser) : Bool :=
  let invited := config.invitedEmails.map fun email => config.casefold (strip email)
  user.emailVerified ∧ (invited = [] ∨ config.casefold user.email ∈ invited)

def identity (config : BrowserSessionConfig) (identities : Storage.Identities) (id : UUID)
    (user : ProviderUser) :
    Except AuthError (Identity × Storage.Identities) :=
  if !config.invites user then .error (.permission "invitation_required")
  else
    match Storage.PostgresIdentityRepository.userIdForSubject id user.id (some user.email) identities with
    | .error e => .error (.raised e)
    | .ok (userId, identities) => .ok (⟨userId, user.id⟩, identities)

def Session.bearer (session : Session) : Except AuthError ProviderUser :=
  match session.authenticated with
  | none => .error (.permission "unauthenticated")
  | some user => .ok user

/-- `authenticate_browser`: a session whose token has expired is refreshed. -/
def Session.browser (session : Session) : Except AuthError (ProviderUser × Option String) :=
  match session.authenticated with
  | some user => .ok (user, none)
  | none =>
    if session.reason ≠ "invalid_jwt" then .error (.permission "unauthenticated")
    else match session.refreshed with
      | none => .error (.permission "unauthenticated")
      | some (user, sealed) => .ok (user, some sealed)

structure Headers where
  /-- The method is `GET`, `HEAD` or `OPTIONS`. -/
  safe : Bool
  authorization : String := ""
  cookie : Option String := none
  origin : Option String := none
  deriving DecidableEq

namespace Headers
variable (headers : Headers)

def scheme : String := String.ofList (headers.authorization.toList.takeWhile (· ≠ ' '))

def credential : String := String.ofList ((headers.authorization.toList.dropWhile (· ≠ ' ')).drop 1)

def isBearer : Bool := headers.scheme.toLower = "bearer"

def token : Option String :=
  (if headers.isBearer then some headers.credential else headers.cookie).filter (· ≠ "")

end Headers

inductive Refusal
  | response (status : ℕ) (code : String)
  | raised (e : Error)
  deriving DecidableEq

/-- The user whom a request to a protected route comes from, and the session sealed anew. `sessions` is what
the provider answers for a token. -/
def presented (config : BrowserSessionConfig) (sessions : String → Session) (headers : Headers) :
    Except Refusal (ProviderUser × Option String) :=
  match headers.token with
  | none => .error (.response 401 "unauthenticated")
  | some token =>
    if headers.isBearer then
      match (sessions token).bearer with
      | .error (.permission _) => .error (.response 401 "unauthenticated")
      | .error (.raised e) => .error (.raised e)
      | .ok user => .ok (user, none)
    else if !headers.safe ∧ headers.origin ≠ some config.webOrigin ∧
      headers.origin ≠ some config.redirectOrigin then
      .error (.response 403 "invalid_origin")
    else match (sessions token).browser with
      | .error (.permission _) => .error (.response 401 "unauthenticated")
      | .error (.raised e) => .error (.raised e)
      | .ok found => .ok found

/-- `authenticate_hosted_protected_routes`, on a protected route: the identity with which the route is
called. -/
def authenticate (config : BrowserSessionConfig) (sessions : String → Session)
    (identities : Storage.Identities) (id : UUID) (headers : Headers) :
    Except Refusal (Identity × Option String × Storage.Identities) :=
  match presented config sessions headers with
  | .error refusal => .error refusal
  | .ok (user, sealed) =>
    match identity config identities id user with
    | .error (.permission _) => .error (.response 401 "unauthenticated")
    | .error (.raised e) => .error (.raised e)
    | .ok (found, identities) => .ok (found, sealed, identities)

/-- The request presents a session of the user. Where a cookie presents it and the request may change
something, it comes from an origin of the deployment. -/
structure Presents (config : BrowserSessionConfig) (sessions : String → Session) (headers : Headers)
    (user : ProviderUser) : Prop where
  session : ∃ token, headers.token = some token ∧
    ((sessions token).authenticated = some user ∨
      (headers.isBearer = false ∧ ∃ sealed, (sessions token).refreshed = some (user, sealed)))
  origin : headers.isBearer = true ∨ headers.safe = true ∨ headers.origin = some config.webOrigin ∨
    headers.origin = some config.redirectOrigin

theorem presented_presents {config : BrowserSessionConfig} {sessions : String → Session} {headers : Headers}
    {user : ProviderUser} {sealed : Option String}
    (h : presented config sessions headers = .ok (user, sealed)) :
    Presents config sessions headers user := by
  unfold presented at h
  cases htoken : headers.token with
  | none =>
    rw [htoken] at h
    cases h
  | some token =>
    rw [htoken] at h
    simp only at h
    by_cases hbearer : headers.isBearer = true
    · rw [if_pos hbearer] at h
      refine ⟨⟨token, htoken, Or.inl ?_⟩, Or.inl hbearer⟩
      unfold Session.bearer at h
      cases hauth : (sessions token).authenticated with
      | none =>
        rw [hauth] at h
        cases h
      | some found =>
        rw [hauth] at h
        cases h
        rfl
    rw [if_neg hbearer] at h
    split_ifs at h with horigin
    have htrusted : headers.safe = true ∨ headers.origin = some config.webOrigin ∨
        headers.origin = some config.redirectOrigin := by
      by_contra hnot
      simp only [not_or, Bool.not_eq_true] at hnot
      exact horigin ⟨by rw [hnot.1]; rfl, hnot.2.1, hnot.2.2⟩
    refine ⟨⟨token, htoken, ?_⟩, Or.inr htrusted⟩
    unfold Session.browser at h
    cases hauth : (sessions token).authenticated with
    | some found =>
      rw [hauth] at h
      cases h
      exact Or.inl rfl
    | none =>
      rw [hauth] at h
      simp only at h
      by_cases hreason : (sessions token).reason ≠ "invalid_jwt"
      · rw [if_pos hreason] at h
        cases h
      rw [if_neg hreason] at h
      cases hrefreshed : (sessions token).refreshed with
      | none =>
        rw [hrefreshed] at h
        cases h
      | some found =>
        rw [hrefreshed] at h
        obtain ⟨other, sealed'⟩ := found
        cases h
        exact Or.inr ⟨by simpa using hbearer, sealed', rfl⟩

/-- A row of an identity stays its subject's, and a subject has one. -/
structure Identified (identities identities' : Storage.Identities) (found : Identity) : Prop where
  known : ∃ row, identities'.get? found.userId = some row ∧ row.workosSubject = found.providerSubject
  kept : ∀ id row, identities.get? id = some row →
    ∃ row', identities'.get? id = some row' ∧ row'.workosSubject = row.workosSubject

theorem userIdForSubject_identified {identities identities' : Storage.Identities} {id userId : UUID}
    {subject : String} {email : Option String}
    (h : Storage.PostgresIdentityRepository.userIdForSubject id subject email identities =
      .ok (userId, identities')) :
    Identified identities identities' ⟨userId, subject⟩ := by
  unfold Storage.PostgresIdentityRepository.userIdForSubject at h
  cases hfind : identities.rows.find? (·.workosSubject = subject) with
  | some row =>
    rw [hfind] at h
    cases h
    have hsubject : row.workosSubject = subject := by simpa using List.find?_some hfind
    have hmem : identities.get? row.id = some row := Table.get?_of_mem (List.mem_of_find?_eq_some hfind)
    constructor
    · exact ⟨{ row with email := email <|> row.email }, Table.get?_put_self identities _, hsubject⟩
    · intro other old hold
      rw [Table.get?_put]
      split_ifs with hid
      · have hsame : some row = some old := hmem.symm.trans (hid ▸ hold)
        cases hsame
        exact ⟨_, rfl, rfl⟩
      · exact ⟨old, hold, rfl⟩
  | none =>
    rw [hfind] at h
    simp only at h
    split_ifs at h with hfresh
    cases h
    constructor
    · exact ⟨{ id, workosSubject := subject, email }, Table.get?_put_self identities _, rfl⟩
    · intro other old hold
      rw [Table.get?_put_of_ne]
      · exact ⟨old, hold, rfl⟩
      · intro hid
        have hsame : id = other := hid
        rw [hsame, hold] at hfresh
        exact hfresh rfl

/-- Whoever the middleware lets through presented a session of a user who may sign in. -/
theorem authenticate_ok {config : BrowserSessionConfig} {sessions : String → Session}
    {identities identities' : Storage.Identities} {id : UUID} {headers : Headers} {found : Identity}
    {sealed : Option String} (h : authenticate config sessions identities id headers =
      .ok (found, sealed, identities')) :
    Identified identities identities' found ∧
      ∃ user, Presents config sessions headers user ∧ config.invites user = true ∧
        user.id = found.providerSubject := by
  unfold authenticate at h
  cases hpresented : presented config sessions headers with
  | error refusal =>
    rw [hpresented] at h
    cases h
  | ok presented =>
    obtain ⟨user, resealed⟩ := presented
    rw [hpresented] at h
    simp only [identity] at h
    by_cases hinvited : config.invites user = true
    · rw [hinvited, Bool.not_true, if_neg Bool.false_ne_true] at h
      cases huser : Storage.PostgresIdentityRepository.userIdForSubject id user.id (some user.email)
        identities with
      | error e =>
        rw [huser] at h
        cases h
      | ok r =>
        rw [huser] at h
        cases h
        exact ⟨userIdForSubject_identified huser, user, presented_presents hpresented, hinvited, rfl⟩
    · rw [Bool.not_eq_true] at hinvited
      rw [hinvited, Bool.not_false, if_pos rfl] at h
      cases h

end KenkuiServer.Auth
