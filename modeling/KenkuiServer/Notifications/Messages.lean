import KenkuiServer.Data.Uuid

/-! The completion mail as it is rendered, and the signature of its unsubscribe link. HMAC-SHA256 is a
function of a key and a message that `hmac` stands for. -/
namespace KenkuiServer.Notifications
open Data

structure Message where
  to' : String
  subject : String
  text : String
  html : Option String := none
  headers : List (String × String) := []
  deriving DecidableEq

abbrev Hmac := List UInt8 → List UInt8 → List UInt8

def encode (text : String) : List UInt8 := text.toUTF8.data.toList

def hexdigest (digest : List UInt8) : String :=
  .ofList (digest.flatMap fun byte => [hexDigit (byte.toNat / 16), hexDigit (byte.toNat % 16)])

def unsubscribeLabel : String := "kenkui-notification-unsubscribe-v1:"

section
variable (hmac : Hmac)

def unsubscribeToken (identityId : UUID) (secret : String) : String :=
  hexdigest (hmac (encode secret) (encode unsubscribeLabel ++ encode identityId.str))

def isAscii (text : String) : Bool := text.toList.all fun c => c.toNat < 128

/-- `hmac.compare_digest` of two `str`. -/
def compareDigest (a b : String) : Except Error Bool :=
  if isAscii a ∧ isAscii b then .ok (a = b) else .error .type

def verifyUnsubscribeToken (identityId : UUID) (secret token : String) : Except Error Bool :=
  compareDigest (unsubscribeToken hmac identityId secret) token

/-- What `quote` leaves as it is. -/
def isSafe (c : Char) : Bool := c.isAlphanum || c ∈ ['_', '.', '-', '~', '/']

def upperHexDigit (digit : ℕ) : Char := if digit < 10 then .ofNat (48 + digit) else .ofNat (55 + digit)

/-- `urllib.parse.quote`. -/
def quote (text : String) : String :=
  .ofList ((encode text).flatMap fun byte =>
    let c := Char.ofNat byte.toNat
    if byte < 128 ∧ isSafe c then [c]
    else ['%', upperHexDigit (byte.toNat / 16), upperHexDigit (byte.toNat % 16)])

/-- `text.rstrip("/")`. -/
def rstripSlash (text : String) : String := .ofList (text.toList.rdropWhile (· = '/'))

def unsubscribeUrl (apiOrigin : String) (identityId : UUID) (secret : String) : String :=
  let token := unsubscribeToken hmac identityId secret
  rstripSlash apiOrigin ++ "/v1/notifications/unsubscribe" ++
    "?identity=" ++ quote identityId.str ++ "&token=" ++ quote token

end

/-- `html.escape`. -/
def escape (text : String) : String :=
  .join (text.toList.map fun c =>
    if c = '&' then "&amp;"
    else if c = '<' then "&lt;"
    else if c = '>' then "&gt;"
    else if c = '\x22' then "&quot;"
    else if c = '\x27' then "&#x27;"
    else c.toString)

/-- The title, unless it is blank. -/
def book (title : Option String) : Option String :=
  match title with
  | none => none
  | some title => if Jobs.strip title = "" then none else some (Jobs.strip title)

def completionEmail (to' jobId : String) (title : Option String) (webOrigin unsubscribe : String) : Message :=
  let subject := match book title with
    | some book => "“" ++ book ++ "” is ready"
    | none => "Your audiobook is ready"
  let link := rstripSlash webOrigin ++ "/jobs/" ++ quote jobId
  let described := match book title with
    | some book => "“" ++ book ++ "”"
    | none => "Your audiobook"
  { to', subject
    text := described ++ " has finished narrating and is ready to download.\n\n" ++ link ++ "\n\n" ++
      "Stop these emails: " ++ unsubscribe ++ "\n"
    html := some ("<html><body>" ++
      "<p>" ++ escape described ++ " has finished narrating and is ready to download.</p>" ++
      "<p><a href=\"" ++ escape link ++ "\">Open it in Kenkui Studio</a></p>" ++
      "<p><a href=\"" ++ escape unsubscribe ++ "\">Stop these emails</a></p>" ++
      "</body></html>")
    headers := [("List-Unsubscribe", "<" ++ unsubscribe ++ ">")] }

section
variable {hmac : Hmac}

theorem encode_inj {a b : String} (h : encode a = encode b) : a = b := by
  have hdata : a.toUTF8.data = b.toUTF8.data := Array.toList_inj.mp h
  exact String.toByteArray_inj.mp (ByteArray.ext hdata)

theorem hexdigest_ascii (digest : List UInt8) : isAscii (hexdigest digest) = true := by
  have hdigit : ∀ digit : Fin 16, (hexDigit digit).toNat < 128 := by decide
  simp only [isAscii, hexdigest, String.toList_ofList, List.all_eq_true, decide_eq_true_eq]
  intro c hc
  obtain ⟨byte, -, hc⟩ := List.mem_flatMap.mp hc
  have hbyte := byte.toNat_lt
  rcases List.mem_pair.mp hc with rfl | rfl
  · exact hdigit ⟨byte.toNat / 16, by omega⟩
  · exact hdigit ⟨byte.toNat % 16, by omega⟩

/-- Verification is defined on ASCII tokens only. -/
theorem verifyUnsubscribeToken_eq (identityId : UUID) (secret token : String) :
    verifyUnsubscribeToken hmac identityId secret token =
      if isAscii token then .ok (unsubscribeToken hmac identityId secret = token) else .error .type := by
  have hself : isAscii (unsubscribeToken hmac identityId secret) = true := hexdigest_ascii _
  simp only [verifyUnsubscribeToken, compareDigest, hself, true_and]

/-- The message's address is the one it is asked for. -/
@[simp] theorem completionEmail_to (to' jobId : String) (title : Option String)
    (webOrigin unsubscribe : String) :
    (completionEmail to' jobId title webOrigin unsubscribe).to' = to' := rfl

end

end KenkuiServer.Notifications
