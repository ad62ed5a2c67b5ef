/-
Module: Vitae.Text.Hex
Layer: Text
Purpose: Hexadecimal digits and their values, and the bytes that they write.
Imports: none
Main exports: hexDigit?, isHexDigit, hexByte?
-/

namespace Vitae.Text

/-- The value of a hexadecimal digit, in either case. -/
def hexDigit? (c : Char) : Option Nat :=
  if '0' ≤ c ∧ c ≤ '9' then some (c.toNat - '0'.toNat)
  else if 'a' ≤ c ∧ c ≤ 'f' then some (c.toNat - 'a'.toNat + 10)
  else if 'A' ≤ c ∧ c ≤ 'F' then some (c.toNat - 'A'.toNat + 10)
  else none

/-- Is the character a hexadecimal digit? -/
def isHexDigit (c : Char) : Bool :=
  (hexDigit? c).isSome

/-- Go on with a number by hexadecimal digits, as long as it fits in a byte. -/
def hexFrom? : Nat → List Char → Option Nat
  | n, [] => some n
  | n, c :: rest => do
      let digit ← hexDigit? c
      if n * 16 + digit < 256 then hexFrom? (n * 16 + digit) rest else none

/-- The byte that hexadecimal digits write. There may be a plus sign in front of them. -/
def hexByte? : List Char → Option UInt8
  | [] => none
  | ['+'] => none
  | '+' :: digits => (hexFrom? 0 digits).map UInt8.ofNat
  | digits => (hexFrom? 0 digits).map UInt8.ofNat

end Vitae.Text
