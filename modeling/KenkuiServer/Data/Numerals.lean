import KenkuiServer.Jobs.Models
import Mathlib.Data.Nat.Digits.Defs

/-! `int` of a text: the characters that it takes for digits and for blanks, and the decimal numerals. -/
namespace KenkuiServer.Data

/-- The zero of each script with decimal digits in Unicode 15; its other digits follow it. -/
def decimalZeros : List ℕ :=
  [0x30, 0x660, 0x6f0, 0x7c0, 0x966, 0x9e6, 0xa66, 0xae6, 0xb66, 0xbe6, 0xc66, 0xce6, 0xd66,
    0xde6, 0xe50, 0xed0, 0xf20, 0x1040, 0x1090, 0x17e0, 0x1810, 0x1946, 0x19d0, 0x1a80, 0x1a90, 0x1b50,
    0x1bb0, 0x1c40, 0x1c50, 0xa620, 0xa8d0, 0xa900, 0xa9d0, 0xa9f0, 0xaa50, 0xabf0, 0xff10, 0x104a0, 0x10d30,
    0x11066, 0x110f0, 0x11136, 0x111d0, 0x112f0, 0x11450, 0x114d0, 0x11650, 0x116c0, 0x11730, 0x118e0,
    0x11950, 0x11c50, 0x11d50, 0x11da0, 0x11f50, 0x16a60, 0x16ac0, 0x16b50, 0x1d7ce, 0x1d7d8, 0x1d7e2,
    0x1d7ec, 0x1d7f6, 0x1e140, 0x1e2f0, 0x1e4f0, 0x1e950, 0x1fbf0]

def decimal (c : Char) : Option ℕ :=
  (decimalZeros.find? fun start => start ≤ c.toNat ∧ c.toNat < start + 10).map (c.toNat - ·)

/-- The ASCII character that `int` takes a character for. -/
def toAscii (c : Char) : Char :=
  if c.toNat < 127 then c
  else if Jobs.isSpace c then ' '
  else
    match decimal c with
    | none => '?'
    | some digit => .ofNat (48 + digit)

/-- `Py_ISSPACE`. -/
def isAsciiSpace (c : Char) : Bool := c.toNat = 32 ∨ (9 ≤ c.toNat ∧ c.toNat ≤ 13)

def digit (c : Char) : Option ℕ := if 48 ≤ c.toNat ∧ c.toNat ≤ 57 then some (c.toNat - 48) else none

/-- The digits of a numeral: groups with one underscore in between. -/
def digits (body : List Char) : Option (List ℕ) := do
  let groups ← (body.splitOn '_').mapM fun group => if group.isEmpty then none else group.mapM digit
  return groups.flatten

/-- A numeral with its sign, of at most 4300 digits. -/
def numeral (text : List Char) : Option ℤ := do
  let found ← digits (if text.head? = some '-' ∨ text.head? = some '+' then text.tail else text)
  if found.length > 4300 then none
  else
    let value : ℤ := Nat.ofDigits 10 found.reverse
    return if text.head? = some '-' then -value else value

/-- `int(text)`; nothing for its only exception, a `ValueError`. The separators U+001C to U+001F, which
`str.strip` takes off, are no blanks here. -/
def int (text : String) : Option ℤ :=
  numeral (((text.toList.map toAscii).dropWhile isAsciiSpace).rdropWhile isAsciiSpace)

theorem int_ofList (text : List Char) :
    int (.ofList text) = numeral (((text.map toAscii).dropWhile isAsciiSpace).rdropWhile isAsciiSpace) := by
  simp [int]

example : int " 1_0 " = some 10 ∧ int "\x1c10" = none := by decide +kernel

end KenkuiServer.Data
