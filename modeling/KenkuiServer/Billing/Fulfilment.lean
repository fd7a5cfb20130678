import KenkuiServer.Billing.Stripe
import KenkuiServer.Data.Rounding

/-! The purchases that the webhook grants: how they are signed, and what their sessions say. -/
namespace KenkuiServer.Billing
open Data

/-- What `time.time()` gives: from 256 on every double is a multiple of `2 ^ -44`. -/
structure Clock (time : ℚ) : Prop where
  nonneg : 0 ≤ time
  bounded : time ≤ 2 ^ 52
  grid : OnGrid 44 time

namespace StripeWebhookHandler

/-- One timestamp of at most 300 seconds ago or ahead, and a digest of it and the payload. -/
def Signed (lib : Libraries) (secret payload : List UInt8) (signature : String) : Prop :=
  ∃ timestamp n, timestamps signature = [timestamp] ∧ int timestamp = some n ∧ |lib.time - n| ≤ 300 ∧
    expected lib secret payload timestamp ∈ digests signature

/-- The value under a key is a string. -/
def Says (j : Json) (key s : String) : Prop := j.get key = .ok (some (.str s))

/-- The value under a key equals a number. -/
def Amounts (j : Json) (key : String) (n : ℤ) : Prop := ∃ value, j.get key = .ok value ∧ Json.eqInt n value

/-- A Checkout Session paid `price` and a tax, without a discount and shipping. -/
structure Charged (session totals : Json) (price tax : ℤ) : Prop where
  mode : Says session "mode" "payment"
  currency : Says session "currency" "usd"
  subtotal : Amounts session "amount_subtotal" price
  nonneg : 0 ≤ tax
  discount : Amounts totals "amount_discount" 0
  shipping : Amounts totals "amount_shipping" 0
  total : Amounts session "amount_total" (price + tax)

/-- The session is of a Checkout, and its account is the one of the metadata. -/
structure Addressed (session : Json) (payment : PaymentEvent) : Prop where
  checkout : "cs_".toList.isPrefixOf payment.id.toList
  account : payment.accountId ≠ ""
  reference : Says session "client_reference_id" payment.accountId

/-- A paid session buys an entry of a catalog. -/
structure Buys (session metadata : Json) (catalog : List (ℤ × ℤ)) (payment : PaymentEvent) : Prop where
  status : Says session "payment_status" "paid"
  accountId : metadata.getItem "account_id" = .ok (.str payment.accountId)
  credits : ∃ credits, metadata.getItem "credits" = .ok credits ∧ credits.toInt = .ok payment.credits
  id : session.getItem "id" = .ok (.str payment.id)
  addressed : Addressed session payment
  charged : ∃ totals price tax, session.get "total_details" = .ok totals ∧
    (Json.orEmpty totals).get "amount_tax" = .ok (some (.int tax)) ∧
    catalog.lookup payment.credits = some price ∧
    Charged session (Json.orEmpty totals) price tax

/-- The event reports a purchase. -/
def Purchases (event : Json) (payment : PaymentEvent) : Prop :=
  ∃ type data session metadata purpose catalog, Says event "type" type ∧ type ∈ eventTypes ∧
    event.getItem "data" = .ok data ∧ data.getItem "object" = .ok session ∧
    session.get "metadata" = .ok metadata ∧
    Says (Json.orEmpty metadata) "purpose" purpose ∧ purchaseCatalogs.lookup purpose = some catalog ∧
    Buys session (Json.orEmpty metadata) catalog payment

/-- A delivery of the webhook is signed and reports a purchase. -/
def Genuine (lib : Libraries) (secret payload : List UInt8) (signature : String)
    (payment : PaymentEvent) : Prop :=
  Signed lib secret payload signature ∧ ∃ event, lib.loads payload = .ok event ∧ Purchases event payment

variable {lib : Libraries} {secret payload : List UInt8} {signature : String} {payment : PaymentEvent}

theorem far_of_large {time x : ℚ} (hnonneg : 0 ≤ time) (hbounded : time ≤ 2 ^ 52) (hlarge : 2 ^ 53 ≤ |x|) :
    2 ^ 52 ≤ |time - x| := by
  rcases le_abs'.mp hlarge with hneg | hpos
  · have hdifference : 2 ^ 53 ≤ time - x := by linarith
    exact (by norm_num : (2 : ℚ) ^ 52 ≤ 2 ^ 53).trans (hdifference.trans (le_abs_self _))
  · have hdifference : 2 ^ 52 ≤ -(time - x) := by linarith
    exact hdifference.trans (neg_le_abs _)

theorem floatRange_large : (2 : ℤ) ^ 53 < floatRange := by
  have hsub : (2 : ℤ) ^ 1024 = 2 ^ 970 * 2 ^ 54 := by rw [← pow_add]
  have hone : (1 : ℤ) ≤ 2 ^ 970 := one_le_pow₀ (by norm_num)
  unfold floatRange
  rw [hsub]
  generalize (2 : ℤ) ^ 970 = m at hone
  omega

theorem recent_iff (hround : Rounds lib.round) (hclock : Clock lib.time) (timestamp : String) :
    recent lib timestamp = .ok true ↔ ∃ n, int timestamp = some n ∧ |lib.time - n| ≤ 300 := by
  cases hint : int timestamp with
  | none => simp [recent, hint]
  | some n =>
    have hnone : (∃ n', some n = some n' ∧ |lib.time - n'| ≤ 300) ↔ |lib.time - n| ≤ 300 := by
      constructor
      · rintro ⟨n', hn, hle⟩
        cases hn
        exact hle
      · exact fun hle => ⟨n, rfl, hle⟩
    rw [hnone]
    have hnonneg := hclock.nonneg
    have hbounded := hclock.bounded
    rcases le_or_gt |n| (2 ^ 53) with hsmall | hlarge
    · have hrange : ¬ floatRange ≤ |n| := by
        have hfloat := floatRange_large
        omega
      have hdifference := hround.abs_round_le_iff (hclock.grid.sub_int n) (by norm_num : 44 ≤ 1074)
        (by norm_num : |(300 : ℤ)| * 2 ^ 44 + 1 ≤ 2 ^ 53)
      rw [Int.cast_ofNat] at hdifference
      simp only [recent, hint, if_neg hrange, hround.intCast hsmall, Except.ok.injEq, decide_eq_true_eq]
      exact hdifference
    · have hbound : (300 : ℚ) < 2 ^ 52 := by norm_num
      have hn : (2 : ℚ) ^ 53 ≤ |(n : ℚ)| := by exact_mod_cast hlarge.le
      have hfar : 300 < |lib.time - n| := hbound.trans_le (far_of_large hnonneg hbounded hn)
      have hdifference : 2 ^ 52 ≤ |lib.time - lib.round n| :=
        far_of_large hnonneg hbounded (hround.pow_le_abs le_rfl hn)
      have hrounded : 300 < |lib.round (lib.time - lib.round n)| :=
        hbound.trans_le (hround.pow_le_abs (by norm_num) hdifference)
      have hnot : ¬ |lib.time - n| ≤ 300 := not_le.mpr hfar
      simp only [recent, hint, hnot, iff_false]
      split_ifs
      · intro hfalse
        cases hfalse
      · simp only [Except.ok.injEq, decide_eq_true_eq, not_le]
        exact hrounded

theorem authentic_iff (hround : Rounds lib.round) (hclock : Clock lib.time) :
    Authentic lib secret payload signature ↔ Signed lib secret payload signature := by
  constructor
  · rintro ⟨timestamp, htimestamps, hrecent, hdigest⟩
    obtain ⟨n, hint, hle⟩ := (recent_iff hround hclock timestamp).mp hrecent
    exact ⟨timestamp, n, htimestamps, hint, hle, hdigest⟩
  · rintro ⟨timestamp, n, htimestamps, hint, hle, hdigest⟩
    exact ⟨timestamp, htimestamps, (recent_iff hround hclock timestamp).mpr ⟨n, hint, hle⟩, hdigest⟩

theorem eqStr_iff {s : String} {value : Option Json} : Json.eqStr s value = true ↔ value = some (.str s) := by
  rcases value with _ | j
  · simp [Json.eqStr]
  · cases j <;> simp [Json.eqStr]

theorem checkPayment_iff {session totals accountId sessionId : Json} {tax : Option Json} {credits : ℤ}
    {price : Option ℤ} :
    checkPayment session totals accountId sessionId tax credits price = .ok (some payment) ↔
      accountId = .str payment.accountId ∧ sessionId = .str payment.id ∧ credits = payment.credits ∧
        Addressed session payment ∧ ∃ t p, tax = some (.int t) ∧ price = some p ∧
          Charged session totals p t := by
  unfold checkPayment
  split
  · rename_i accountId sessionId tax price
    simp only [bind_eq_ok]
    constructor
    · rintro ⟨reference, hreference, mode, hmode, currency, hcurrency, subtotal, hsubtotal,
        discount, hdiscount, shipping, hshipping, total, htotal, h⟩
      split_ifs at h with hbad
      cases h
      simp only [not_or, Bool.not_eq_true', Bool.not_eq_false, not_lt] at hbad
      obtain ⟨hnamed, hcheckout, hsame, hpayment, husd, hprice, htax, hnodiscount, hnoshipping, hsum⟩ := hbad
      rw [eqStr_iff.mp hsame] at hreference
      rw [eqStr_iff.mp hpayment] at hmode
      rw [eqStr_iff.mp husd] at hcurrency
      have hcharged : Charged session totals price tax :=
        ⟨hmode, hcurrency, ⟨subtotal, hsubtotal, hprice⟩, htax, ⟨discount, hdiscount, hnodiscount⟩,
          ⟨shipping, hshipping, hnoshipping⟩, ⟨total, htotal, hsum⟩⟩
      exact ⟨rfl, rfl, rfl, ⟨hcheckout, hnamed, hreference⟩, tax, price, rfl, rfl, hcharged⟩
    · rintro ⟨haccount, hsession, rfl, haddressed, t, p, htax, hprice, hcharged⟩
      cases haccount
      cases hsession
      cases htax
      cases hprice
      obtain ⟨subtotal, hsubtotal, hprice⟩ := hcharged.subtotal
      obtain ⟨discount, hdiscount, hnodiscount⟩ := hcharged.discount
      obtain ⟨shipping, hshipping, hnoshipping⟩ := hcharged.shipping
      obtain ⟨total, htotal, hsum⟩ := hcharged.total
      refine ⟨_, haddressed.reference, _, hcharged.mode, _, hcharged.currency, subtotal, hsubtotal,
        discount, hdiscount, shipping, hshipping, total, htotal, ?_⟩
      have hnonneg := hcharged.nonneg
      rw [if_neg]
      · rfl
      · simp only [not_or, Bool.not_eq_true', Bool.not_eq_false, not_lt]
        exact ⟨haddressed.account, haddressed.checkout, eqStr_iff.mpr rfl, eqStr_iff.mpr rfl,
          eqStr_iff.mpr rfl, hprice, hnonneg, hnodiscount, hnoshipping, hsum⟩
  · rename_i hother
    constructor
    · exact nofun
    · rintro ⟨rfl, rfl, -, -, t, p, rfl, rfl, -⟩
      exact absurd rfl (hother _ _ _ _ rfl rfl rfl)

theorem readSession_iff {session metadata : Json} {catalog : List (ℤ × ℤ)} :
    readSession session metadata catalog = .ok (some payment) ↔ Buys session metadata catalog payment := by
  unfold readSession
  simp only [bind_eq_ok]
  constructor
  · rintro ⟨status, hstatus, h⟩
    split_ifs at h with hpaid
    · cases h
    simp only [Bool.not_eq_true', Bool.not_eq_false] at hpaid
    rw [eqStr_iff.mp hpaid] at hstatus
    simp only [bind_eq_ok] at h
    obtain ⟨accountId, haccount, found, hfound, credits, hcredits, sessionId, hsession, totals, htotals,
        tax, htax, h⟩ := h
    obtain ⟨rfl, rfl, rfl, haddressed, t, p, rfl, hprice, hcharged⟩ := checkPayment_iff.mp h
    exact ⟨hstatus, haccount, ⟨found, hfound, hcredits⟩, hsession, haddressed, totals, p, t,
      htotals, htax, hprice, hcharged⟩
  · intro h
    obtain ⟨found, hfound, hcredits⟩ := h.credits
    obtain ⟨totals, p, t, htotals, htax, hprice, hcharged⟩ := h.charged
    refine ⟨_, h.status, ?_⟩
    rw [if_neg (by simp [Json.eqStr])]
    simp only [bind_eq_ok]
    exact ⟨_, h.accountId, found, hfound, _, hcredits, _, h.id, totals, htotals, _, htax,
      checkPayment_iff.mpr ⟨rfl, rfl, rfl, h.addressed, t, p, rfl, hprice, hcharged⟩⟩

theorem readEvent_iff {event : Json} : readEvent event = .ok (some payment) ↔ Purchases event payment := by
  unfold readEvent
  simp only [bind_eq_ok]
  constructor
  · rintro ⟨kind, hkind, known, hknown, h⟩
    split_ifs at h with hnot
    · cases h
    obtain rfl : known = true := by simpa using hnot
    obtain ⟨type, rfl, htype⟩ := isIn_ok hknown
    simp only [bind_eq_ok] at h
    obtain ⟨data, hdata, session, hsession, metadata, hmetadata, purpose, hpurpose, h⟩ := h
    split at h
    · split at h
      · cases h
      · rename_i purpose _ catalog hcatalog
        exact ⟨type, data, session, metadata, purpose, catalog, hkind, htype, hdata, hsession,
          hmetadata, hpurpose, hcatalog, readSession_iff.mp h⟩
    · cases h
  · rintro ⟨type, data, session, metadata, purpose, catalog, hkind, htype, hdata, hsession,
      hmetadata, hpurpose, hcatalog, hbuys⟩
    refine ⟨_, hkind, true, by simp [Json.isIn, htype], ?_⟩
    rw [if_neg (by simp)]
    simp only [bind_eq_ok]
    refine ⟨data, hdata, session, hsession, metadata, hmetadata, _, hpurpose, ?_⟩
    simp only [hcatalog]
    exact readSession_iff.mpr hbuys

/-- Every entry of the catalogs has credits, of which a column takes the number. -/
theorem credits_bounds {purpose : String} {catalog : List (ℤ × ℤ)} {credits price : ℤ}
    (hcatalog : purchaseCatalogs.lookup purpose = some catalog)
    (hprice : catalog.lookup credits = some price) :
    1 ≤ credits ∧ credits ≤ 2400 := by
  have hall : ∀ named ∈ purchaseCatalogs, ∀ entry ∈ named.2, 1 ≤ entry.1 ∧ entry.1 ≤ 2400 := by decide
  obtain ⟨first, rest, hsplit, -⟩ := List.lookup_eq_some_iff.mp hcatalog
  obtain ⟨first', rest', hsplit', -⟩ := List.lookup_eq_some_iff.mp hprice
  have hnamed : (purpose, catalog) ∈ purchaseCatalogs := by
    rw [hsplit]
    exact List.mem_append_right _ List.mem_cons_self
  have hentry : (credits, price) ∈ catalog := by
    rw [hsplit']
    exact List.mem_append_right _ List.mem_cons_self
  exact hall _ hnamed _ hentry

theorem Genuine.bounds (h : Genuine lib secret payload signature payment) :
    1 ≤ payment.credits ∧ payment.credits ≤ 2400 := by
  obtain ⟨-, event, -, type, data, session, metadata, purpose, catalog, -, -, -, -, -, -, hcatalog,
    hbuys⟩ := h
  obtain ⟨-, price, -, -, -, hprice, -⟩ := hbuys.charged
  exact credits_bounds hcatalog hprice

variable {processPaymentEvent : String → String → String → ℤ → Except Error Unit}

theorem handle_genuine (hround : Rounds lib.round) (hclock : Clock lib.time)
    (h : Genuine lib secret payload signature payment) :
    handle lib processPaymentEvent secret payload signature =
      (processPaymentEvent "stripe" payment.id payment.accountId payment.credits).map fun _ =>
        some payment := by
  obtain ⟨hsigned, event, hloads, hpurchases⟩ := h
  rw [handle_authentic ((authentic_iff hround hclock).mpr hsigned)]
  have hread : (do readEvent (← lib.loads payload)) = .ok (some payment) :=
    bind_eq_ok.mpr ⟨event, hloads, readEvent_iff.mpr hpurchases⟩
  rw [hread]
  cases hpay : processPaymentEvent "stripe" payment.id payment.accountId payment.credits with
  | error e => simp [Bind.bind, Except.bind, hpay, Except.map]
  | ok u => simp [Bind.bind, Except.bind, hpay, Except.map, pure, Except.pure]

/-- Nothing but a genuine purchase is returned. -/
theorem genuine_of_handle (hround : Rounds lib.round) (hclock : Clock lib.time)
    (h : handle lib processPaymentEvent secret payload signature = .ok (some payment)) :
    Genuine lib secret payload signature payment := by
  by_cases hhuge : HugeTimestamp signature
  · rw [handle_huge hhuge] at h
    cases h
  by_cases hauthentic : Authentic lib secret payload signature
  · rw [handle_authentic hauthentic] at h
    cases hread : (do readEvent (← lib.loads payload)) with
    | error e =>
      rw [hread] at h
      simp only at h
      split_ifs at h
    | ok found =>
      rw [hread] at h
      cases found with
      | none => cases h
      | some found =>
        obtain ⟨u, -, hfound⟩ := bind_eq_ok.mp h
        cases hfound
        obtain ⟨event, hloads, hevent⟩ := bind_eq_ok.mp hread
        exact ⟨(authentic_iff hround hclock).mp hauthentic, event, hloads, readEvent_iff.mp hevent⟩
  · rw [handle_rejected hhuge hauthentic] at h
    cases h

end StripeWebhookHandler

end KenkuiServer.Billing
