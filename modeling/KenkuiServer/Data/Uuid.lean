import KenkuiServer.Data.Numerals
import KenkuiServer.Data.Posix
import Mathlib.Algebra.Order.Ring.Nat

/-! `uuid.UUID`: the texts it reads, which are more than the one it writes. -/
namespace KenkuiServer.Data

/-- `text.replace(pattern, "")`; the next `skip` characters are of an occurrence found before. -/
def removeFrom (pattern : List Char) : ℕ → List Char → List Char
  | _, [] => []
  | skip + 1, _ :: cs => removeFrom pattern skip cs
  | 0, c :: cs =>
    if pattern.isPrefixOf (c :: cs) then removeFrom pattern (pattern.length - 1) cs
    else c :: removeFrom pattern 0 cs

def remove (pattern text : List Char) : List Char := removeFrom pattern 0 text

/-- The value of the hexadecimal digits ahead, read on from `value`, and what follows them. An underscore
stands between two digits; `gap` says that one was read last. -/
def readHex (value : ℕ) (gap : Bool) : List Char → Option (ℕ × List Char)
  | [] => if gap then none else some (value, [])
  | c :: cs =>
    if c = '_' then if gap then none else readHex value true cs
    else
      match Posix.hexValue c with
      | some digit => readHex (16 * value + digit) false cs
      | none => if gap then none else some (value, c :: cs)

/-- The prefix of a hexadecimal numeral, with the underscore that may follow it. -/
def dropHexPrefix : List Char → List Char
  | '0' :: 'x' :: '_' :: cs => cs
  | '0' :: 'x' :: cs => cs
  | '0' :: 'X' :: '_' :: cs => cs
  | '0' :: 'X' :: cs => cs
  | cs => cs

def splitSign : List Char → Bool × List Char
  | '+' :: cs => (false, cs)
  | '-' :: cs => (true, cs)
  | cs => (false, cs)

/-- `int(text, 16)`; nothing for its `ValueError`. -/
def int16 (text : List Char) : Option ℤ := do
  let (negative, digits) := splitSign ((text.map toAscii).dropWhile isAsciiSpace)
  let digits := dropHexPrefix digits
  let _ ← digits.head?.bind Posix.hexValue
  let (value, rest) ← readHex 0 false digits
  if rest.all isAsciiSpace then return if negative then -value else value
  else none

structure UUID where
  int : ℕ
  bounded : int < 1 <<< 128
  deriving DecidableEq, Repr

/-- `uuid.UUID(text)`; nothing for its `ValueError`. -/
def UUID.parse (text : String) : Option UUID :=
  let hex := remove ['u', 'u', 'i', 'd', ':'] (remove ['u', 'r', 'n', ':'] text.toList)
  let hex := (hex.dropWhile (· ∈ ['\x7b', '\x7d'])).rdropWhile (· ∈ ['\x7b', '\x7d'])
  let hex := remove ['-'] hex
  if hex.length ≠ 32 then none
  else
    (int16 hex).bind fun int =>
      if h : 0 ≤ int ∧ int < (1 <<< 128 : ℕ) then some ⟨int.toNat, by omega⟩ else none

def hexDigit (digit : ℕ) : Char := if digit < 10 then .ofNat (48 + digit) else .ofNat (87 + digit)

/-- `"%0{width}x" % value`, of a value that is not wider. -/
def hexDigits : ℕ → ℕ → List Char
  | 0, _ => []
  | width + 1, value => hexDigits width (value / 16) ++ [hexDigit (value % 16)]

def dashed (hex : List Char) : List Char :=
  hex.take 8 ++ '-' :: ((hex.drop 8).take 4 ++ '-' :: ((hex.drop 12).take 4 ++ '-' ::
    ((hex.drop 16).take 4 ++ '-' :: hex.drop 20)))

/-- `str(uuid)`. -/
def UUID.str (u : UUID) : String := .ofList (dashed (hexDigits 32 u.int))

/-- What no hexadecimal digit is mistaken for. -/
structure IsHex (c : Char) : Prop where
  ascii : toAscii c = c
  printed : isAsciiSpace c = false
  letter : c ∉ ['u', 'x', 'X']
  mark : c ∉ ['\x7b', '\x7d', '-', '+', '_']

theorem hexDigit_spec (digit : Fin 16) :
    IsHex (hexDigit digit) ∧ Posix.hexValue (hexDigit digit) = some digit.val := by
  constructor
  · constructor <;> revert digit <;> decide
  · revert digit
    decide

theorem mem_hexDigits {width value : ℕ} {c : Char} (h : c ∈ hexDigits width value) :
    ∃ digit : Fin 16, c = hexDigit digit := by
  induction width generalizing value with
  | zero => cases h
  | succ width ih =>
    rcases List.mem_append.mp h with h | h
    · exact ih h
    · exact ⟨⟨value % 16, by omega⟩, List.mem_singleton.mp h⟩

theorem isHex_of_mem {width value : ℕ} {c : Char} (h : c ∈ hexDigits width value) : IsHex c := by
  obtain ⟨digit, rfl⟩ := mem_hexDigits h
  exact (hexDigit_spec digit).1

@[simp] theorem length_hexDigits (width value : ℕ) : (hexDigits width value).length = width := by
  induction width generalizing value with
  | zero => rfl
  | succ width ih => simp [hexDigits, ih]

theorem readHex_hexDigits {width value : ℕ} (h : value < 16 ^ width) (acc : ℕ) (rest : List Char) :
    readHex acc false (hexDigits width value ++ rest) = readHex (16 ^ width * acc + value) false rest := by
  induction width generalizing value rest with
  | zero =>
    have hzero : value = 0 := by simpa using h
    simp [hexDigits, hzero]
  | succ width ih =>
    have hdigit := hexDigit_spec ⟨value % 16, by omega⟩
    have hgap : hexDigit (value % 16) ≠ '_' := by
      intro heq
      exact hdigit.1.mark (by simp [heq])
    have hhigh : value / 16 < 16 ^ width := by
      rw [pow_succ] at h
      omega
    have hvalue : 16 * (16 ^ width * acc + value / 16) + value % 16 = 16 ^ (width + 1) * acc + value := by
      rw [pow_succ, mul_comm (16 ^ width) 16, mul_assoc]
      omega
    rw [hexDigits, List.append_assoc, ih hhigh, List.singleton_append, readHex, if_neg hgap]
    simp only [hdigit.2, hvalue]

theorem remove_of_notMem {p : Char} {pattern text : List Char} (h : p ∉ text) :
    remove (p :: pattern) text = text := by
  unfold remove
  induction text with
  | nil => rfl
  | cons c cs ih =>
    obtain ⟨hne, hrest⟩ := not_or.mp (mt List.mem_cons.mpr h)
    have hprefix : (p :: pattern).isPrefixOf (c :: cs) = false := by simp [List.isPrefixOf, hne]
    rw [removeFrom, hprefix, if_neg (by decide), ih hrest]

theorem remove_append_cons {p : Char} {text : List Char} (h : p ∉ text) (rest : List Char) :
    remove [p] (text ++ p :: rest) = text ++ remove [p] rest := by
  unfold remove
  induction text with
  | nil => simp [removeFrom]
  | cons c cs ih =>
    obtain ⟨hne, hrest⟩ := not_or.mp (mt List.mem_cons.mpr h)
    have hprefix : [p].isPrefixOf (c :: (cs ++ p :: rest)) = false := by simp [List.isPrefixOf, hne]
    rw [List.cons_append, removeFrom, hprefix, if_neg (by decide), ih hrest]
    rfl

theorem splitSign_hexDigit (digit : Fin 16) (cs : List Char) :
    splitSign (hexDigit digit :: cs) = (false, hexDigit digit :: cs) := by
  have hhex := (hexDigit_spec digit).1
  have hplus : hexDigit digit ≠ '+' := fun heq => hhex.mark (by simp [heq])
  have hminus : hexDigit digit ≠ '-' := fun heq => hhex.mark (by simp [heq])
  unfold splitSign
  split
  · rename_i heq
    exact absurd (List.cons.inj heq).1 hplus
  · rename_i heq
    exact absurd (List.cons.inj heq).1 hminus
  · rfl

theorem dropHexPrefix_of_letter {c : Char} {cs : List Char} (hletter : ∀ x ∈ cs, x ≠ 'x' ∧ x ≠ 'X') :
    dropHexPrefix (c :: cs) = c :: cs := by
  unfold dropHexPrefix
  split
  · rename_i heq
    exact absurd rfl (hletter 'x' (by simp [(List.cons.inj heq).2])).1
  · rename_i heq
    exact absurd rfl (hletter 'x' (by simp [(List.cons.inj heq).2])).1
  · rename_i heq
    exact absurd rfl (hletter 'X' (by simp [(List.cons.inj heq).2])).2
  · rename_i heq
    exact absurd rfl (hletter 'X' (by simp [(List.cons.inj heq).2])).2
  · rfl

theorem int16_hexDigits {width value : ℕ} (hwidth : 0 < width) (h : value < 16 ^ width) :
    int16 (hexDigits width value) = some value := by
  have hascii : (hexDigits width value).map toAscii = hexDigits width value := by
    conv_rhs => rw [← List.map_id (hexDigits width value)]
    exact List.map_congr_left fun c hc => (isHex_of_mem hc).ascii
  have hread := readHex_hexDigits h 0 []
  simp only [List.append_nil, mul_zero, zero_add] at hread
  have hlength := length_hexDigits width value
  have hmem : ∀ c ∈ hexDigits width value, ∃ digit : Fin 16, c = hexDigit digit := fun c hc =>
    mem_hexDigits hc
  unfold int16
  rw [hascii]
  revert hread hlength hmem
  generalize hexDigits width value = digits
  intro hread hlength hmem
  cases digits with
  | nil =>
    rw [List.length_nil] at hlength
    omega
  | cons c cs =>
    obtain ⟨digit, rfl⟩ := hmem c List.mem_cons_self
    obtain ⟨hhex, hval⟩ := hexDigit_spec digit
    have hspace : (hexDigit digit :: cs).dropWhile isAsciiSpace = hexDigit digit :: cs := by
      simp [hhex.printed]
    have hletter : ∀ x ∈ cs, x ≠ 'x' ∧ x ≠ 'X' := by
      intro x hx
      obtain ⟨digit', rfl⟩ := hmem x (List.mem_cons_of_mem _ hx)
      have hother := (hexDigit_spec digit').1.letter
      simp only [List.mem_cons, not_or] at hother
      exact ⟨hother.2.1, hother.2.2.1⟩
    simp only [hspace, splitSign_hexDigit, dropHexPrefix_of_letter hletter, List.head?_cons,
      Option.bind_some, hval, hread, Option.bind_eq_bind, Bool.false_eq_true, if_false]
    rfl

theorem mem_dashed {hex : List Char} {c : Char} (h : c ∈ dashed hex) : c ∈ hex ∨ c = '-' := by
  have hpart : ∀ n m, c ∈ (hex.drop n).take m → c ∈ hex := fun n m hc =>
    List.mem_of_mem_drop (List.mem_of_mem_take hc)
  simp only [dashed, List.mem_append, List.mem_cons] at h
  rcases h with h | h | h | h | h | h | h | h | h
  · exact Or.inl (List.mem_of_mem_take h)
  · exact Or.inr h
  · exact Or.inl (hpart 8 4 h)
  · exact Or.inr h
  · exact Or.inl (hpart 12 4 h)
  · exact Or.inr h
  · exact Or.inl (hpart 16 4 h)
  · exact Or.inr h
  · exact Or.inl (List.mem_of_mem_drop h)

theorem remove_dashed {hex : List Char} (h : '-' ∉ hex) : remove ['-'] (dashed hex) = hex := by
  have hpart : ∀ n m, '-' ∉ (hex.drop n).take m := fun n m hc =>
    h (List.mem_of_mem_drop (List.mem_of_mem_take hc))
  have hjoin : ∀ n m, (hex.drop n).take m ++ hex.drop (n + m) = hex.drop n := by
    intro n m
    rw [← List.drop_drop, List.take_append_drop]
  have hfirst : '-' ∉ hex.take 8 := hpart 0 8
  rw [dashed, remove_append_cons hfirst, remove_append_cons (hpart 8 4), remove_append_cons (hpart 12 4),
    remove_append_cons (hpart 16 4), remove_of_notMem (fun hc => h (List.mem_of_mem_drop hc)), hjoin 16 4,
    hjoin 12 4, hjoin 8 4]
  exact hjoin 0 8

/-- A UUID is read back from the text it is written as. -/
theorem UUID.parse_str (u : UUID) : parse u.str = some u := by
  have hdash : '-' ∉ hexDigits 32 u.int := fun hmem => (isHex_of_mem hmem).mark (by decide)
  have hletter : 'u' ∉ dashed (hexDigits 32 u.int) := by
    intro hmem
    rcases mem_dashed hmem with h | h
    · exact (isHex_of_mem h).letter (by decide)
    · revert h
      decide
  have hbrace : ∀ c ∈ dashed (hexDigits 32 u.int), ¬ decide (c ∈ ['\x7b', '\x7d']) = true := by
    intro c hc hmem
    rw [decide_eq_true_eq] at hmem
    rcases mem_dashed hc with h | rfl
    · refine (isHex_of_mem h).mark ?_
      exact List.mem_append_left ['-', '+', '_'] hmem
    · revert hmem
      decide
  have hstrip : ((dashed (hexDigits 32 u.int)).dropWhile (· ∈ ['\x7b', '\x7d'])).rdropWhile
      (· ∈ ['\x7b', '\x7d']) = dashed (hexDigits 32 u.int) := by
    have hfront : (dashed (hexDigits 32 u.int)).dropWhile (· ∈ ['\x7b', '\x7d']) =
        dashed (hexDigits 32 u.int) :=
      List.dropWhile_eq_self_iff.mpr fun hl => hbrace _ (List.getElem_mem hl)
    rw [hfront]
    exact List.rdropWhile_eq_self_iff.mpr fun hl => hbrace _ (List.getLast_mem hl)
  have hpow : 1 <<< 128 = 16 ^ 32 := by
    rw [Nat.shiftLeft_eq, one_mul]
    exact pow_mul 2 4 32
  have hbound : u.int < 16 ^ 32 := lt_of_lt_of_eq u.bounded hpow
  have hint : int16 (hexDigits 32 u.int) = some (u.int : ℤ) := int16_hexDigits (by decide) hbound
  have hrange : (0 : ℤ) ≤ u.int ∧ (u.int : ℤ) < (1 <<< 128 : ℕ) := ⟨by omega, by exact_mod_cast u.bounded⟩
  have hurn : remove ['u', 'r', 'n', ':'] u.str.toList = dashed (hexDigits 32 u.int) := by
    rw [str, String.toList_ofList]
    exact remove_of_notMem hletter
  have huuid : remove ['u', 'u', 'i', 'd', ':'] (dashed (hexDigits 32 u.int)) = dashed (hexDigits 32 u.int) :=
    remove_of_notMem hletter
  unfold parse
  simp only [hurn, huuid, hstrip, remove_dashed hdash, length_hexDigits, ne_eq, not_true, if_false]
  rw [hint, Option.bind_some, dif_pos hrange]
  rfl

theorem UUID.str_inj {u u' : UUID} (h : u.str = u'.str) : u = u' := by
  have hparse := u.parse_str
  rw [h, u'.parse_str] at hparse
  exact (Option.some.inj hparse).symm

end KenkuiServer.Data
