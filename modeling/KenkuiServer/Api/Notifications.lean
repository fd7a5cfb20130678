import KenkuiServer.Api.Requests
import KenkuiServer.Notifications.Messages
import KenkuiServer.Storage.PostgresNotifications

/-! The unsubscribe link of a completion mail: a public route, whose only credential is the token. -/
namespace KenkuiServer.Api
open Data Storage Notifications PostgresIdentityRepository

/-- What the route reads of `app.state`: the secret of `hosted_config`, and the identities of
`hosted_services`. -/
structure AppState where
  unsubscribeSecret : Option String := none
  identities : Option Identities := none

namespace AppState
variable (hmac : Hmac) (app : AppState)

def secret : String := app.unsubscribeSecret.getD ""

def identity? (identityId : UUID) : Option Identity := app.identities.bind (·.get? identityId)

def invalidLink : Failure := .http 400 "invalid_unsubscribe_link"

def page : String :=
  "<html><body><p>You will no longer receive email when a book finishes." ++
    " You can turn this back on in Kenkui Studio.</p></body></html>"

def unsubscribe (identity token : String) : Except Failure String × AppState :=
  match UUID.parse identity with
  | none => (.error invalidLink, app)
  | some identityId =>
    if app.secret = "" then (.error invalidLink, app)
    else
      match verifyUnsubscribeToken hmac identityId app.secret token with
      | .error e => (.error (.raised e), app)
      | .ok false => (.error invalidLink, app)
      | .ok true =>
        match app.identities with
        | none => (.error (.http 404 "notifications_unavailable"), app)
        | some identities =>
          (.ok page, { app with identities := some (setNotifyByEmail identityId false identities) })

/-- The link of an identity that exists, with its token under the secret, which is set. -/
structure Valid (identity token : String) (identityId : UUID) : Prop where
  secret : app.secret ≠ ""
  parsed : UUID.parse identity = some identityId
  known : (app.identity? identityId).isSome
  token : token = unsubscribeToken hmac identityId app.secret

/-- The link turns off the preference of its holder and of nobody else; without a valid link, it is refused
and nothing changes. -/
structure ActsForHolder (identity token : String) : Prop where
  honoured : ∀ identityId, app.Valid hmac identity token identityId →
    (app.unsubscribe hmac identity token).1 = .ok page ∧
    ∀ other, (app.unsubscribe hmac identity token).2.identity? other =
      if identityId = other then (app.identity? other).map fun row => { row with notifyByEmail := false }
      else app.identity? other
  refused : (∀ identityId, ¬ app.Valid hmac identity token identityId) →
    app.unsubscribe hmac identity token = (.error invalidLink, app)

/-- HMAC-SHA256 is unforgeable: a token that verifies under a secret was made by the server, which signs for
identities that it knows. -/
def Unforgeable (token : String) : Prop :=
  app.secret ≠ "" → ∀ identityId, token = unsubscribeToken hmac identityId app.secret →
    (app.identity? identityId).isSome

/-- The comparison of the token is reached, and is not defined on it. -/
def Uncomparable (identity token : String) : Prop :=
  (UUID.parse identity).isSome ∧ app.secret ≠ "" ∧ isAscii token = false

section
variable {hmac : Hmac} {app : AppState} {identity token : String} {identityId : UUID}

theorem unsubscribe_parsed (hparsed : UUID.parse identity = some identityId) (hsecret : app.secret ≠ "") :
    app.unsubscribe hmac identity token =
      match verifyUnsubscribeToken hmac identityId app.secret token with
      | .error e => (.error (.raised e), app)
      | .ok false => (.error invalidLink, app)
      | .ok true =>
        match app.identities with
        | none => (.error (.http 404 "notifications_unavailable"), app)
        | some identities =>
          (.ok page, { app with identities := some (setNotifyByEmail identityId false identities) }) := by
  simp only [unsubscribe, hparsed, if_neg hsecret]

theorem unsubscribe_raises (h : app.Uncomparable identity token) :
    app.unsubscribe hmac identity token = (.error (.raised .type), app) := by
  obtain ⟨hparsed, hsecret, hascii⟩ := h
  obtain ⟨identityId, hparsed⟩ := Option.isSome_iff_exists.mp hparsed
  rw [unsubscribe_parsed hparsed hsecret, verifyUnsubscribeToken_eq, hascii]
  rfl

theorem Valid.ascii (h : app.Valid hmac identity token identityId) : isAscii token = true := by
  rw [h.token]
  exact hexdigest_ascii _

theorem Valid.honoured (h : app.Valid hmac identity token identityId) :
    (app.unsubscribe hmac identity token).1 = .ok page ∧
    ∀ other, (app.unsubscribe hmac identity token).2.identity? other =
      if identityId = other then (app.identity? other).map fun row => { row with notifyByEmail := false }
      else app.identity? other := by
  obtain ⟨identities, hidentities⟩ : ∃ identities, app.identities = some identities := by
    have hknown := h.known
    unfold identity? at hknown
    cases hidentities : app.identities with
    | none => simp [hidentities] at hknown
    | some identities => exact ⟨identities, rfl⟩
  have hresult : app.unsubscribe hmac identity token =
      (.ok page, { app with identities := some (setNotifyByEmail identityId false identities) }) := by
    have htoken : unsubscribeToken hmac identityId app.secret = token := h.token.symm
    rw [unsubscribe_parsed h.parsed h.secret, verifyUnsubscribeToken_eq, h.ascii]
    simp [htoken, hidentities]
  rw [hresult]
  refine ⟨rfl, fun other => ?_⟩
  simp only [identity?, hidentities, Option.bind_some]
  exact get?_setNotifyByEmail

theorem unsubscribe_refused (hforge : app.Unforgeable hmac token)
    (hinvalid : ∀ identityId, ¬ app.Valid hmac identity token identityId)
    (hcomparable : ¬ app.Uncomparable identity token) :
    app.unsubscribe hmac identity token = (.error invalidLink, app) := by
  cases hparsed : UUID.parse identity with
  | none => simp only [unsubscribe, hparsed]
  | some identityId =>
    by_cases hsecret : app.secret = ""
    · simp only [unsubscribe, hparsed, if_pos hsecret]
    · have hascii : isAscii token = true := by
        by_contra hascii
        exact hcomparable ⟨by simp [hparsed], hsecret, by simpa using hascii⟩
      have hwrong : unsubscribeToken hmac identityId app.secret ≠ token := fun htoken =>
        hinvalid identityId ⟨hsecret, hparsed, hforge hsecret identityId htoken.symm, htoken.symm⟩
      rw [unsubscribe_parsed hparsed hsecret, verifyUnsubscribeToken_eq, hascii]
      simp [hwrong]

/-- The link acts for its holder only, unless the token has a character that is not ASCII. -/
theorem unsubscribe_acts (hforge : app.Unforgeable hmac token) :
    app.ActsForHolder hmac identity token ↔ ¬ app.Uncomparable identity token := by
  constructor
  · intro hacts huncomparable
    have hinvalid : ∀ identityId, ¬ app.Valid hmac identity token identityId := by
      intro identityId hvalid
      have hascii := hvalid.ascii
      rw [huncomparable.2.2] at hascii
      cases hascii
    have hrefused := hacts.refused hinvalid
    rw [unsubscribe_raises huncomparable] at hrefused
    cases hrefused
  · intro hcomparable
    constructor
    · intro identityId hvalid
      exact hvalid.honoured
    · intro hinvalid
      exact unsubscribe_refused hforge hinvalid hcomparable

end

/-- An identity, as its number. -/
def reader : UUID := ⟨0x11111111222233334444555555555555, by decide⟩

/-- HMAC-SHA256 where it signs the link of that identity. -/
def readerHmac : Hmac := fun key message =>
  if key = encode "a-signing-secret" ∧ message = encode unsubscribeLabel ++ encode reader.str then
    [245, 150, 202, 139, 195, 206, 84, 166, 24, 217, 232, 172, 15, 225, 83, 38,
      88, 144, 38, 52, 212, 230, 210, 125, 163, 180, 56, 97, 213, 61, 160, 214]
  else []

def readerToken : String := "f596ca8bc3ce54a618d9e8ac0fe1532658902634d4e6d27da3b43861d53da0d6"

def readerApp : AppState where
  unsubscribeSecret := some "a-signing-secret"
  identities := some ((∅ : Identities).put ⟨reader, "reader", some "reader@example.com", true⟩)

theorem reader_unforgeable : readerApp.Unforgeable readerHmac readerToken := by
  intro _ identityId htoken
  have hsigned : identityId = reader := by
    by_contra hne
    have hmessage : encode unsubscribeLabel ++ encode identityId.str ≠ encode
        unsubscribeLabel ++ encode reader.str :=
      fun heq => hne (UUID.str_inj (encode_inj (List.append_cancel_left heq)))
    have hempty : unsubscribeToken readerHmac identityId readerApp.secret = "" := by
      simp only [unsubscribeToken, readerHmac, hmessage, and_false, if_false]
      decide
    rw [hempty] at htoken
    exact absurd htoken (by decide)
  subst hsigned
  decide +kernel

theorem unsubscribe_acts_reader : readerApp.Unforgeable readerHmac readerToken ∧
    (readerApp.ActsForHolder readerHmac "\x7b11111111-2222-3333-4444-555555555555\x7d" readerToken ↔
      ¬ readerApp.Uncomparable "\x7b11111111-2222-3333-4444-555555555555\x7d" readerToken) :=
  ⟨reader_unforgeable, unsubscribe_acts reader_unforgeable⟩

/-- One accented letter for a token. -/
theorem unsubscribe_accented : readerApp.Unforgeable readerHmac "é" ∧
    ¬ readerApp.ActsForHolder readerHmac "11111111-2222-3333-4444-555555555555" "é" := by
  have hforge : readerApp.Unforgeable readerHmac "é" := by
    intro _ identityId htoken
    have hascii : isAscii "é" = true := by
      rw [htoken]
      exact hexdigest_ascii _
    exact absurd hascii (by decide)
  have hraises : (readerApp.unsubscribe readerHmac "11111111-2222-3333-4444-555555555555" "é").1 =
      .error (.raised .type) := by decide +kernel
  refine ⟨hforge, fun hacts => ?_⟩
  have hrefused := hacts.refused fun identityId hvalid => by
    have hascii := hvalid.ascii
    revert hascii
    decide
  rw [hrefused] at hraises
  cases hraises

end AppState

end KenkuiServer.Api
