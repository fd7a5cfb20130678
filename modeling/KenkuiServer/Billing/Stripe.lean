import KenkuiServer.Data.Json
import Mathlib.Tactic

/-! The Stripe webhook: the signature of a payload is checked, then what the payload says. -/
namespace KenkuiServer.Billing
open Data

/-- Credits to USD cents. -/
def creditPacks : List (ℤ × ℤ) := [(500, 500), (1100, 1000), (2400, 2000)]

def purchaseCatalogs : List (String × List (ℤ × ℤ)) :=
  [("kenkui_credits_v1", [(500, 500), (1000, 1000), (2000, 2000)]), ("kenkui_credits_v2", creditPacks)]

/-- A purchase, keyed by its Checkout Session. -/
structure PaymentEvent where
  id : String
  accountId : String
  credits : ℤ
  deriving DecidableEq, Repr

/-- The clock, the rounding of floats, and the libraries that the handler calls. -/
structure Libraries where
  time : ℚ
  round : ℚ → ℚ
  hexdigest : List UInt8 → List UInt8 → String
  loads : List UInt8 → Except Error Json

/-- An integer from here on does not convert to a float. -/
def floatRange : ℤ := 2 ^ 1024 - 2 ^ 970

namespace StripeWebhookHandler

/-- The parts of the header with their keys. -/
def parts (signature : String) : List (String × String) :=
  ((signature.toList.splitOn ',').filter (·.contains '=')).map fun part =>
    let part := (Jobs.strip (.ofList part)).toList
    (.ofList (part.takeWhile (· ≠ '=')), .ofList ((part.dropWhile (· ≠ '=')).drop 1))

def timestamps (signature : String) : List String :=
  ((parts signature).filter (·.1 = "t")).map (·.2)

def digests (signature : String) : List String :=
  ((parts signature).filter (·.1 = "v1")).map (·.2)

variable (lib : Libraries)

/-- `abs(time.time() - int(timestamp)) <= 300`. -/
def recent (timestamp : String) : Except Error Bool :=
  match int timestamp with
  | none => .ok false
  | some n =>
    if floatRange ≤ |n| then .error .overflow
    else .ok (|lib.round (lib.time - lib.round n)| ≤ 300)

def expected (secret payload : List UInt8) (timestamp : String) : String :=
  lib.hexdigest secret (timestamp.toUTF8.data.toList ++ ".".toUTF8.data.toList ++ payload)

def eventTypes : List String := ["checkout.session.completed", "checkout.session.async_payment_succeeded"]

/-- The purchase of a session, once its fields have been read. -/
def checkPayment (session totals accountId sessionId : Json) (tax : Option Json) (credits : ℤ)
    (price : Option ℤ) : Except Error (Option PaymentEvent) :=
  match accountId, sessionId, tax, price with
  | .str accountId, .str sessionId, some (.int tax), some price => do
    let reference ← session.get "client_reference_id"
    let mode ← session.get "mode"
    let currency ← session.get "currency"
    let subtotal ← session.get "amount_subtotal"
    let discount ← totals.get "amount_discount"
    let shipping ← totals.get "amount_shipping"
    let total ← session.get "amount_total"
    if accountId = "" ∨ !"cs_".toList.isPrefixOf sessionId.toList ∨ !Json.eqStr accountId reference ∨
        !Json.eqStr "payment" mode ∨ !Json.eqStr "usd" currency ∨ !Json.eqInt price subtotal ∨ tax < 0 ∨
        !Json.eqInt 0 discount ∨ !Json.eqInt 0 shipping ∨ !Json.eqInt (price + tax) total then
      .error (.value "invalid_payment_event")
    else return some ⟨sessionId, accountId, credits⟩
  | _, _, _, _ => .error (.value "invalid_payment_event")

/-- The session of a paid purchase. -/
def readSession (session metadata : Json) (catalog : List (ℤ × ℤ)) : Except Error (Option PaymentEvent) := do
  let status ← session.get "payment_status"
  if !Json.eqStr "paid" status then return none
  else
    let accountId ← metadata.getItem "account_id"
    let credits ← metadata.getItem "credits"
    let credits ← credits.toInt
    let sessionId ← session.getItem "id"
    let totals ← session.get "total_details"
    let tax ← (Json.orEmpty totals).get "amount_tax"
    checkPayment session (Json.orEmpty totals) accountId sessionId tax credits (catalog.lookup credits)

/-- The `try` block once the payload is parsed. -/
def readEvent (event : Json) : Except Error (Option PaymentEvent) := do
  let kind ← event.get "type"
  let known ← Json.isIn eventTypes kind
  if !known then return none
  else
    let data ← event.getItem "data"
    let session ← data.getItem "object"
    let metadata ← session.get "metadata"
    let purpose ← (Json.orEmpty metadata).get "purpose"
    match purpose with
    | some (.str purpose) =>
      match purchaseCatalogs.lookup purpose with
      | none => return none
      | some catalog => readSession session (Json.orEmpty metadata) catalog
    | _ => return none

/-- `except (KeyError, TypeError, AttributeError, ValueError)`. -/
def catches : Error → Bool
  | .key _ => true
  | .type => true
  | .attribute _ => true
  | e => e.isValueError

def handle (processPaymentEvent : String → String → String → ℤ → Except Error Unit)
    (secret payload : List UInt8) (signature : String) : Except Error (Option PaymentEvent) :=
  match timestamps signature with
  | [timestamp] => do
    if digests signature = [] then .error (.value "invalid_webhook_signature")
    else
      let recent ← recent lib timestamp
      if !recent ∨ expected lib secret payload timestamp ∉ digests signature then
        .error (.value "invalid_webhook_signature")
      else
        match (do readEvent (← lib.loads payload)) with
        | .error e => if catches e then .error (.value "invalid_payment_event") else .error e
        | .ok none => return none
        | .ok (some payment) =>
          processPaymentEvent "stripe" payment.id payment.accountId payment.credits
          return some payment
  | _ => .error (.value "invalid_webhook_signature")

/-- The header has one timestamp and a digest, and the timestamp is no number that converts to a float. -/
def HugeTimestamp (signature : String) : Prop :=
  digests signature ≠ [] ∧ ∃ timestamp n, timestamps signature = [timestamp] ∧ int timestamp = some n ∧
    floatRange ≤ |n|

/-- The signature is recent and of the payload. -/
def Authentic (secret payload : List UInt8) (signature : String) : Prop :=
  ∃ timestamp, timestamps signature = [timestamp] ∧ recent lib timestamp = .ok true ∧
    expected lib secret payload timestamp ∈ digests signature

/-- A paid purchase of the catalogs whose credits are an infinite float. -/
def InfiniteCredits (event : Json) : Prop :=
  ∃ type data session metadata purpose accountId negative,
    event.get "type" = .ok (some (.str type)) ∧ type ∈ eventTypes ∧
    event.getItem "data" = .ok data ∧ data.getItem "object" = .ok session ∧
    session.get "metadata" = .ok metadata ∧
    (Json.orEmpty metadata).get "purpose" = .ok (some (.str purpose)) ∧
    (purchaseCatalogs.lookup purpose).isSome ∧ session.get "payment_status" = .ok (some (.str "paid")) ∧
    (Json.orEmpty metadata).getItem "account_id" = .ok accountId ∧
    (Json.orEmpty metadata).getItem "credits" = .ok (.float (.infinity negative))

/-- A computation raises what the `except` clause does not catch. -/
def Escapes {α : Type} (x : Except Error α) : Prop := ∃ e, x = .error e ∧ ¬ catches e

section
variable {α β : Type}

@[simp] theorem escapes_ok (a : α) : ¬ Escapes (.ok a) := by
  rintro ⟨e, he, -⟩
  cases he

@[simp] theorem escapes_error (e : Error) : Escapes (.error e : Except Error α) ↔ ¬ catches e := by
  constructor
  · rintro ⟨e', he, hcatches⟩
    cases he
    exact hcatches
  · intro hcatches
    exact ⟨e, rfl, hcatches⟩

theorem escapes_bind (x : Except Error α) (f : α → Except Error β) :
    Escapes (x >>= f) ↔ Escapes x ∨ ∃ a, x = .ok a ∧ Escapes (f a) := by
  cases x with
  | error e => simp [bind, Except.bind]
  | ok a => simp [bind, Except.bind]

@[simp] theorem escapes_get (key : String) (j : Json) : ¬ Escapes (j.get key) := by
  cases j <;> simp [Json.get, catches]

@[simp] theorem escapes_getItem (key : String) (j : Json) : ¬ Escapes (j.getItem key) := by
  cases j with
  | dict items =>
    simp only [Json.getItem]
    split
    · simp
    · simp [catches]
  | _ => simp [Json.getItem, catches]

@[simp] theorem escapes_isIn (names : List String) (j : Option Json) : ¬ Escapes (Json.isIn names j) := by
  rcases j with _ | j
  · simp [Json.isIn]
  · cases j <;> simp [Json.isIn, catches]

/-- Of the values of JSON only an infinite float has no conversion to an integer and no error that is
caught. -/
theorem escapes_toInt (j : Json) : Escapes j.toInt ↔ ∃ negative, j = .float (.infinity negative) := by
  cases j with
  | float x => cases x <;> simp [Json.toInt, catches, Error.isValueError]
  | str s =>
    simp only [Json.toInt]
    split
    · simp
    · simp [catches, Error.isValueError]
  | _ => simp [Json.toInt, catches]

theorem escapes_checkPayment (session totals accountId sessionId : Json) (tax : Option Json) (credits : ℤ)
    (price : Option ℤ) : ¬ Escapes (checkPayment session totals accountId sessionId tax credits price) := by
  unfold checkPayment
  split
  · simp only [escapes_bind, escapes_get, false_or, not_exists, not_and]
    intro reference _ mode _ currency _ subtotal _ discount _ shipping _ total _
    split_ifs
    · simp [catches, Error.isValueError]
    · simp [pure, Except.pure]
  · simp [catches, Error.isValueError]

theorem get_status {session : Json} {status : Option Json} (h : session.get "payment_status" = .ok status) :
    Json.eqStr "paid" status ↔ session.get "payment_status" = .ok (some (.str "paid")) := by
  rw [h]
  rcases status with _ | j
  · simp [Json.eqStr]
  · cases j <;> simp [Json.eqStr]

theorem escapes_readSession (session metadata : Json) (catalog : List (ℤ × ℤ)) :
    Escapes (readSession session metadata catalog) ↔
      ∃ accountId negative, session.get "payment_status" = .ok (some (.str "paid")) ∧
        metadata.getItem "account_id" = .ok accountId ∧
        metadata.getItem "credits" = .ok (.float (.infinity negative)) := by
  unfold readSession
  simp only [escapes_bind, escapes_get, false_or]
  constructor
  · rintro ⟨status, hstatus, h⟩
    split_ifs at h with hpaid
    · simp [pure, Except.pure] at h
    · have hpaid := (get_status hstatus).mp (by simpa using hpaid)
      simp only [escapes_bind, escapes_getItem, false_or] at h
      obtain ⟨accountId, haccount, credits, hcredits, h⟩ := h
      rcases h with h | ⟨n, -, sessionId, -, h⟩
      · obtain ⟨negative, rfl⟩ := (escapes_toInt credits).mp h
        exact ⟨accountId, negative, hpaid, haccount, hcredits⟩
      · simp [escapes_checkPayment] at h
  · rintro ⟨accountId, negative, hpaid, haccount, hcredits⟩
    refine ⟨_, hpaid, ?_⟩
    simp only [Json.eqStr, decide_true, Bool.not_true, Bool.false_eq_true, if_false, escapes_bind,
      escapes_getItem, false_or]
    exact ⟨accountId, haccount, _, hcredits, .inl ((escapes_toInt _).mpr ⟨negative, rfl⟩)⟩

theorem isIn_ok {names : List String} {j : Option Json} (h : Json.isIn names j = .ok true) :
    ∃ s, j = some (.str s) ∧ s ∈ names := by
  rcases j with _ | j
  · simp [Json.isIn] at h
  · cases j with
    | str s => exact ⟨s, rfl, by simpa [Json.isIn] using h⟩
    | _ => simp [Json.isIn] at h

theorem escapes_readEvent (event : Json) : Escapes (readEvent event) ↔ InfiniteCredits event := by
  unfold readEvent InfiniteCredits
  simp only [escapes_bind, escapes_get, escapes_isIn, false_or]
  constructor
  · rintro ⟨kind, hkind, known, hknown, h⟩
    split_ifs at h with hnot
    · simp [pure, Except.pure] at h
    · obtain rfl : known = true := by simpa using hnot
      obtain ⟨type, rfl, htype⟩ := isIn_ok hknown
      simp only [escapes_bind, escapes_getItem, escapes_get, false_or] at h
      obtain ⟨data, hdata, session, hsession, metadata, hmetadata, purpose, hpurpose, h⟩ := h
      split at h
      · rename_i purpose
        split at h
        · simp [pure, Except.pure] at h
        · rename_i catalog hcatalog
          obtain ⟨accountId, negative, hpaid, haccount, hcredits⟩ := (escapes_readSession _ _ _).mp h
          exact ⟨type, data, session, metadata, purpose, accountId, negative, hkind, htype, hdata, hsession,
            hmetadata, hpurpose, by simp [hcatalog], hpaid, haccount, hcredits⟩
      · simp [pure, Except.pure] at h
  · rintro ⟨type, data, session, metadata, purpose, accountId, negative, hkind, htype, hdata,
      hsession, hmetadata, hpurpose, hcatalog, hpaid, haccount, hcredits⟩
    obtain ⟨catalog, hcatalog⟩ := Option.isSome_iff_exists.mp hcatalog
    refine ⟨_, hkind, true, by simp [Json.isIn, htype], ?_⟩
    simp only [Bool.not_true, Bool.false_eq_true, if_false, escapes_bind, escapes_getItem,
      escapes_get, false_or]
    refine ⟨data, hdata, session, hsession, metadata, hmetadata, _, hpurpose, ?_⟩
    simp only [hcatalog]
    exact (escapes_readSession _ _ _).mpr ⟨accountId, negative, hpaid, haccount, hcredits⟩

end

section
variable {lib : Libraries} {processPaymentEvent : String → String → String → ℤ → Except Error Unit}
  {secret payload : List UInt8} {signature : String}

theorem handle_huge (h : HugeTimestamp signature) :
    handle lib processPaymentEvent secret payload signature = .error .overflow := by
  obtain ⟨hdigests, timestamp, n, htimestamps, hn, hhuge⟩ := h
  have hrecent : recent lib timestamp = .error .overflow := by simp [recent, hn, hhuge]
  simp [handle, htimestamps, hdigests, hrecent, bind, Except.bind]

theorem handle_rejected (hhuge : ¬ HugeTimestamp signature) (h : ¬ Authentic lib secret payload signature) :
    handle lib processPaymentEvent secret payload signature = .error
      (.value "invalid_webhook_signature") := by
  unfold handle
  split
  · rename_i timestamp htimestamps
    by_cases hdigests : digests signature = []
    · simp [hdigests]
    · rw [if_neg hdigests]
      cases hrecent : recent lib timestamp with
      | error e =>
        unfold recent at hrecent
        split at hrecent
        · cases hrecent
        · rename_i n hn
          split_ifs at hrecent with hrange
          exact absurd ⟨hdigests, timestamp, n, htimestamps, hn, hrange⟩ hhuge
      | ok isRecent =>
        have hbad : !isRecent ∨ expected lib secret payload timestamp ∉ digests signature := by
          by_contra hgood
          push Not at hgood
          obtain rfl : isRecent = true := by simpa using hgood.1
          exact h ⟨timestamp, htimestamps, hrecent, hgood.2⟩
        simp only [bind, Except.bind]
        rw [if_pos hbad]
  · rfl

theorem handle_authentic (h : Authentic lib secret payload signature) :
    handle lib processPaymentEvent secret payload signature =
      match (do readEvent (← lib.loads payload)) with
      | .error e => if catches e then .error (.value "invalid_payment_event") else .error e
      | .ok none => .ok none
      | .ok (some payment) => do
        processPaymentEvent "stripe" payment.id payment.accountId payment.credits
        return some payment := by
  obtain ⟨timestamp, htimestamps, hrecent, hdigest⟩ := h
  have hdigests : digests signature ≠ [] := List.ne_nil_of_mem hdigest
  unfold handle
  rw [htimestamps]
  simp only [hdigests, if_false, hrecent, hdigest]
  rfl

theorem escapes_event : Escapes (do readEvent (← lib.loads payload)) ↔
    Escapes (lib.loads payload) ∨ ∃ event, lib.loads payload = .ok event ∧ InfiniteCredits event := by
  rw [escapes_bind]
  simp only [escapes_readEvent]

/-- Nothing but a `ValueError` leaves the handler exactly if the timestamp converts to a float and an
authentic payload has no infinite credits, nor makes the parser raise what is not caught. -/
theorem handle_raises (hbilling : ∀ provider id accountId credits e,
      processPaymentEvent provider id accountId credits = .error e → e.isValueError) :
    (∀ e, handle lib processPaymentEvent secret payload signature = .error e → e.isValueError) ↔
      ¬ HugeTimestamp signature ∧ (Authentic lib secret payload signature →
        ¬ Escapes (lib.loads payload) ∧ ∀ event, lib.loads payload = .ok event →
          ¬ InfiniteCredits event) := by
  by_cases hhuge : HugeTimestamp signature
  · rw [handle_huge hhuge]
    simp [hhuge, Error.isValueError]
  · by_cases hauthentic : Authentic lib secret payload signature
    · rw [handle_authentic hauthentic]
      have hescapes : Escapes (do readEvent (← lib.loads payload)) ↔
          Escapes (lib.loads payload) ∨ ∃ event, lib.loads payload = .ok event ∧
            InfiniteCredits event := escapes_event
      have hcondition : (¬ Escapes (lib.loads payload) ∧
          ∀ event, lib.loads payload = .ok event → ¬ InfiniteCredits event) ↔
          ¬ Escapes (do readEvent (← lib.loads payload)) := by
        rw [hescapes]
        push Not
        rfl
      simp only [hhuge, not_false_eq_true, true_and, hauthentic, forall_const, hcondition]
      generalize (do readEvent (← lib.loads payload)) = parsed
      rcases parsed with e | _ | payment
      · by_cases hcatches : catches e
        · simp [hcatches, Error.isValueError]
        · have hnot : ¬ e.isValueError := by
            cases e <;> simp_all [catches, Error.isValueError]
          simp [hcatches, hnot]
      · simp
      · cases hpay : processPaymentEvent "stripe" payment.id payment.accountId payment.credits with
        | error e =>
          have hvalue := hbilling _ _ _ _ e hpay
          simp [bind, Except.bind, hpay, hvalue]
        | ok u => simp [bind, Except.bind, hpay, pure, Except.pure]
    · rw [handle_rejected hhuge hauthentic]
      simp [hhuge, hauthentic, Error.isValueError]

end

end StripeWebhookHandler

namespace Sample

def accountId : String := "00000000-0000-4000-8000-000000000001"

def session : Json :=
  .dict [("id", .str "cs_test_1"), ("payment_status", .str "paid"), ("mode", .str "payment"),
    ("currency", .str "usd"), ("client_reference_id", .str accountId), ("amount_subtotal", .int 1000),
    ("amount_total", .int 1080), ("total_details",
    .dict [("amount_discount", .int 0), ("amount_shipping", .int 0), ("amount_tax", .int 80)]),
      ("metadata", .dict [("account_id", .str accountId), ("credits", .str "1100"),
      ("purpose", .str "kenkui_credits_v2")])]

def event : Json := .dict [("type", .str "checkout.session.completed"), ("data", .dict [("object", session)])]

@[irreducible] def payload : List UInt8 :=
  (String.join
    ["\x7b\"type\":\"checkout.session.completed\",\"data\":\x7b\"object\":\x7b\"id\":\"cs_test_1\",",
      "\"payment_status\":\"paid\",\"mode\":\"payment\",\"currency\":\"usd\",",
      "\"client_reference_id\":\"00000000-0000-4000-8000-000000000001\",\"amount_subtotal\":1000,",
      "\"amount_total\":1080,\"total_details\":\x7b\"amount_discount\":0,\"amount_shipping\":0,",
      "\"amount_tax\":80\x7d,\"metadata\":\x7b\"account_id\":\"00000000-0000-4000-8000-000000000001\",",
      "\"credits\":\"1100\",\"purpose\":\"kenkui_credits_v2\"\x7d\x7d\x7d\x7d"]).toUTF8.data.toList

def secret : List UInt8 := "whsec_test".toUTF8.data.toList

def signature : String := "t=1700000000,v1=c143bfdcde65dda32bf1161b17c287d0a7da98e28c81f9a0daaa1fc7492d74d7"

/-- The libraries on the one payload that is signed, 12 seconds later. -/
def libraries : Libraries where
  time := 1700000012
  round q := q
  hexdigest _ _ := "c143bfdcde65dda32bf1161b17c287d0a7da98e28c81f9a0daaa1fc7492d74d7"
  loads bytes := if bytes = payload then .ok event else .error (.value "Expecting value")

theorem parts_signature : StripeWebhookHandler.parts signature =
    [("t", "1700000000"), ("v1", "c143bfdcde65dda32bf1161b17c287d0a7da98e28c81f9a0daaa1fc7492d74d7")] := by
  decide +kernel

theorem timestamps_signature : StripeWebhookHandler.timestamps signature = ["1700000000"] := by
  simp [StripeWebhookHandler.timestamps, parts_signature]

theorem digests_signature : StripeWebhookHandler.digests signature =
    ["c143bfdcde65dda32bf1161b17c287d0a7da98e28c81f9a0daaa1fc7492d74d7"] := by
  simp [StripeWebhookHandler.digests, parts_signature]

theorem int_timestamp : int "1700000000" = some 1700000000 := by decide +kernel

theorem event_finite : ¬ StripeWebhookHandler.InfiniteCredits event := by
  rintro ⟨type, data, session', metadata, purpose, account, negative, -, -, hdata, hsession,
    hmetadata, -, -, -, -, hcredits⟩
  cases hdata
  cases hsession
  cases hmetadata
  cases hcredits

end Sample

namespace StripeWebhookHandler

open Sample in
/-- The handler has checked the signature and read the purchase when the billing call refuses it. -/
theorem handle_raises_refused :
    Authentic libraries secret payload signature ∧
      ∀ e, handle libraries (fun _ _ _ _ => .error (.value "payment_reference_conflict"))
        secret payload signature =
        .error e → e.isValueError := by
  have hauthentic : Authentic libraries secret payload signature := by
    refine ⟨"1700000000", timestamps_signature, ?_, ?_⟩
    · simp only [recent, int_timestamp]
      decide +kernel
    · rw [digests_signature]
      exact List.mem_cons_self
  have hfinite : ¬ HugeTimestamp signature := by
    rintro ⟨-, timestamp, n, htimestamps, hn, hhuge⟩
    rw [timestamps_signature] at htimestamps
    cases htimestamps
    rw [int_timestamp] at hn
    cases hn
    revert hhuge
    decide +kernel
  have hloads : libraries.loads payload = .ok event := by simp only [libraries, if_true]
  have hbilling : ∀ (_ _ _ : String) (_ : ℤ) (e : Error),
      (Except.error (.value "payment_reference_conflict") : Except Error Unit) = .error e →
        e.isValueError := by
    intro _ _ _ _ e he
    cases he
    rfl
  refine ⟨hauthentic, (handle_raises hbilling).mpr ⟨hfinite, fun _ => ⟨?_, ?_⟩⟩⟩
  · rw [hloads]
    exact escapes_ok event
  · intro found hfound
    rw [hloads] at hfound
    cases hfound
    exact event_finite

/-- The digits of `10 ^ 309`. -/
def hugeTimestamp : List Char := '1' :: List.replicate 309 '0'

def hugeSignature : String := .ofList ("t=".toList ++ hugeTimestamp ++ ",v1=0".toList)

theorem parts_hugeSignature : parts hugeSignature = [("t", .ofList hugeTimestamp), ("v1", "0")] := by
  have hsplit : ("t=".toList ++ hugeTimestamp ++ ",v1=0".toList).splitOn ',' =
      [['t', '='] ++ hugeTimestamp, ['v', '1', '=', '0']] := by decide +kernel
  unfold parts hugeSignature
  rw [String.toList_ofList, hsplit]
  have hfilter : [['t', '='] ++ hugeTimestamp, ['v', '1', '=', '0']].filter (·.contains '=') =
      [['t', '='] ++ hugeTimestamp, ['v', '1', '=', '0']] := by decide +kernel
  have hstrip : ((['t', '='] ++ hugeTimestamp).dropWhile Jobs.isSpace).rdropWhile Jobs.isSpace =
      ['t', '='] ++ hugeTimestamp := by decide +kernel
  rw [hfilter]
  simp only [List.map_cons, List.map_nil, Jobs.strip, String.toList_ofList, hstrip]
  rfl

theorem int_hugeTimestamp : int (.ofList hugeTimestamp) = some (10 ^ 309) := by
  rw [int_ofList]
  decide +kernel

theorem floatRange_le : floatRange ≤ |(10 ^ 309 : ℤ)| := by
  have hpow : (2 ^ 1024 : ℤ) ≤ 10 ^ 309 := by
    have hnat : 2 ^ 1024 ≤ 10 ^ 309 := by decide +kernel
    exact_mod_cast hnat
  have hsub : (0 : ℤ) ≤ 2 ^ 970 := by positivity
  have habs : (10 ^ 309 : ℤ) ≤ |10 ^ 309| := le_abs_self _
  unfold floatRange
  exact (sub_le_self _ hsub).trans (hpow.trans habs)

theorem hugeSignature_huge : HugeTimestamp hugeSignature := by
  have hdigests : digests hugeSignature = ["0"] := by simp [digests, parts_hugeSignature]
  have htimestamps : timestamps hugeSignature =
      [.ofList hugeTimestamp] := by simp [timestamps, parts_hugeSignature]
  refine ⟨?_, _, _, htimestamps, int_hugeTimestamp, floatRange_le⟩
  rw [hdigests]
  exact List.cons_ne_nil _ _

theorem hugeSignature_overflows :
    ¬ ∀ (lib : Libraries) (processPaymentEvent : String → String → String → ℤ → Except Error Unit)
        (secret payload : List UInt8) (signature : String),
      (∀ provider id accountId credits e, processPaymentEvent provider id accountId credits = .error e →
        e.isValueError) →
      ∀ e, handle lib processPaymentEvent secret payload signature = .error e → e.isValueError := by
  intro h
  have hvalue := h Sample.libraries (fun _ _ _ _ => .ok ()) [] [] hugeSignature (by simp) .overflow
    (handle_huge hugeSignature_huge)
  cases hvalue

end StripeWebhookHandler

end KenkuiServer.Billing
