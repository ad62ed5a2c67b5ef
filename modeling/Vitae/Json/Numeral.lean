/-
Module: Vitae.Json.Numeral
Layer: Json
Purpose: Numbers as JSON writes them, kept digit by digit, and the floating-point number that a reader
  with one machine word of digits takes from them.
Imports: Vitae.Number.Shortest
Main exports: Numeral, Numeral.scan, Numeral.text, Numeral.value?, Numeral.ofNat, Numeral.ofFinite
-/
import Vitae.Number.Shortest

namespace Vitae.Json

open Vitae.Number

/-- The exponent of a numeral. -/
structure Exponent where
  negative : Bool
  digits : List Char
deriving Repr, DecidableEq

/-- A number in decimal notation. `whole` has no leading zero unless it is the digit zero, `fraction`
is empty where there is no decimal point. -/
structure Numeral where
  negative : Bool
  whole : List Char
  fraction : List Char
  exponent : Option Exponent
deriving Repr, DecidableEq

namespace Numeral

/-- Read the digits after a decimal point, of which there must be one. -/
def scanFraction : List Char → Option (List Char × List Char)
  | '.' :: rest =>
      let digits := rest.takeWhile Char.isDigit
      if digits.isEmpty then none else some (digits, rest.dropWhile Char.isDigit)
  | rest => some ([], rest)

/-- Read the sign of an exponent, if it is written. -/
def scanSign : List Char → Bool × List Char
  | '-' :: rest => (true, rest)
  | '+' :: rest => (false, rest)
  | rest => (false, rest)

/-- Read the digits of an exponent, of which there must be one. -/
def scanExponentDigits (s : List Char) : Option (Option Exponent × List Char) :=
  let (negative, rest) := scanSign s
  let digits := rest.takeWhile Char.isDigit
  if digits.isEmpty then none
  else some (some ⟨negative, digits⟩, rest.dropWhile Char.isDigit)

/-- Read an exponent, if there is one. -/
def scanExponent : List Char → Option (Option Exponent × List Char)
  | 'e' :: rest => scanExponentDigits rest
  | 'E' :: rest => scanExponentDigits rest
  | rest => some (none, rest)

/-- Is this a run of digits that may stand before the decimal point? -/
def isWhole : List Char → Bool
  | [] => false
  | ['0'] => true
  | '0' :: _ => false
  | _ => true

/-- Read the sign before a numeral. -/
def scanMinus : List Char → Bool × List Char
  | '-' :: rest => (true, rest)
  | rest => (false, rest)

/-- Read a numeral and give what follows it. -/
def scan (s : List Char) : Option (Numeral × List Char) := do
  let (negative, rest) := scanMinus s
  let whole := rest.takeWhile Char.isDigit
  if isWhole whole then
    let (fraction, rest) ← scanFraction (rest.dropWhile Char.isDigit)
    let (exponent, rest) ← scanExponent rest
    some (⟨negative, whole, fraction, exponent⟩, rest)
  else none

theorem scanFraction_shorter {s rest : List Char} {digits : List Char}
    (h : scanFraction s = some (digits, rest)) : rest.length ≤ s.length := by
  unfold scanFraction at h
  split at h
  · next tail =>
      have := (List.dropWhile_sublist Char.isDigit (l := tail)).length_le
      grind
  · grind

theorem scanSign_shorter (s : List Char) : (scanSign s).2.length ≤ s.length := by
  unfold scanSign
  split <;> simp

theorem scanExponentDigits_shorter {s rest : List Char} {e : Option Exponent}
    (h : scanExponentDigits s = some (e, rest)) : rest.length ≤ s.length := by
  unfold scanExponentDigits at h
  have := scanSign_shorter s
  have := (List.dropWhile_sublist Char.isDigit (l := (scanSign s).2)).length_le
  grind

theorem scanExponent_shorter {s rest : List Char} {e : Option Exponent}
    (h : scanExponent s = some (e, rest)) : rest.length ≤ s.length := by
  unfold scanExponent at h
  split at h
  · exact Nat.le_succ_of_le (scanExponentDigits_shorter h)
  · exact Nat.le_succ_of_le (scanExponentDigits_shorter h)
  · grind

theorem scanMinus_shorter (s : List Char) : (scanMinus s).2.length ≤ s.length := by
  unfold scanMinus
  split <;> simp

theorem scan_shorter {s rest : List Char} {n : Numeral} (h : scan s = some (n, rest)) :
    rest.length < s.length := by
  have minus := scanMinus_shorter s
  have whole := congrArg List.length
    (List.takeWhile_append_dropWhile (p := Char.isDigit) (l := (scanMinus s).2))
  simp only [scan, Option.bind_eq_bind] at h
  split at h
  · next filled =>
      have : 0 < ((scanMinus s).2.takeWhile Char.isDigit).length :=
        List.length_pos_iff.2 fun empty => by simp [empty, isWhole] at filled
      simp only [Option.bind_eq_some_iff] at h
      obtain ⟨⟨fraction, afterFraction⟩, hf, ⟨exponent, afterExponent⟩, he, h⟩ := h
      have := scanFraction_shorter hf
      have := scanExponent_shorter he
      grind
  · simp at h

/-- The text of an exponent. -/
def exponentText : Option Exponent → List Char
  | none => []
  | some e => 'e' :: (signText e.negative ++ e.digits)

/-- The text of a numeral. -/
def text (n : Numeral) : List Char :=
  signText n.negative ++ n.whole ++ (if n.fraction.isEmpty then [] else '.' :: n.fraction) ++
    exponentText n.exponent

/-- The value of a digit. -/
def digit (c : Char) : Nat :=
  c.toNat - '0'.toNat

/-- The natural number written by a run of digits. -/
def naturalOf (digits : List Char) : Nat :=
  digits.foldl (fun n c => n * 10 + digit c) 0

/-- Append a digit to a significand that is kept in 64 bits, if it still fits. -/
@[irreducible]
def push? (significand : Nat) (c : Char) : Option Nat :=
  let longer := significand * 10 + digit c
  if longer < twoTo 64 then some longer else none

/-- Take in the digits before the decimal point as long as they fit. The second number counts the
digits left out. -/
def takeWhole (significand : Nat) : List Char → Nat × Nat
  | [] => (significand, 0)
  | c :: rest => match push? significand c with
      | some longer => takeWhole longer rest
      | none => (significand, rest.length + 1)

/-- Take in the digits after the decimal point as long as they fit. The second number counts the
digits taken, on top of `taken`. -/
def takeFraction (significand taken : Nat) : List Char → Nat × Nat
  | [] => (significand, taken)
  | c :: rest => match push? significand c with
      | some longer => takeFraction longer (taken + 1) rest
      | none => (significand, taken)

/-- The value of an exponent, zero if there is none. -/
def exponentValue : Option Exponent → Int
  | none => 0
  | some e => if e.negative then -(naturalOf e.digits : Int) else (naturalOf e.digits : Int)

/-- The power of ten as a floating-point number. -/
def powerOfTen (n : Nat) : Binary64 :=
  .ofNat (tenTo n)

/-- Divide by a power of ten, in steps of at most the greatest power that is a finite number. -/
def scaleDown (x : Binary64) (places : Nat) : Binary64 :=
  if places ≤ 308 then x.div (powerOfTen places)
  else if x.isZero then x
  else scaleDown (x.div (powerOfTen 308)) (places - 308)
termination_by places
decreasing_by omega

/-- Multiply by a power of ten. There is no result beyond the finite numbers. -/
def scaleUp? (x : Binary64) (places : Nat) : Option Binary64 :=
  if places ≤ 308 then
    match x.mul (powerOfTen places) with
    | .finite y => some (.finite y)
    | _ => none
  else if x.isZero then some x
  else none

/-- The floating-point number of a numeral, unless it is out of range. The first digits that fit in 64
bits are rounded once, the power of ten is applied after that. -/
def value? (n : Numeral) : Option Binary64 :=
  let (leading, dropped) := takeWhole 0 n.whole
  let (significand, taken) := takeFraction leading 0 n.fraction
  let places : Int := exponentValue n.exponent + dropped - taken
  let magnitude? :=
    if 0 ≤ places then scaleUp? (.ofNat significand) places.toNat
    else some (scaleDown (.ofNat significand) places.natAbs)
  magnitude?.map fun x => if n.negative then x.neg else x

/-- The numeral of a natural number. -/
def ofNat (n : Nat) : Numeral :=
  ⟨false, Nat.toDigits 10 n, [], none⟩

/-- A decimal number with its decimal point in place. Something always follows the point. -/
def positional (negative : Bool) (d : Decimal) : Numeral :=
  ⟨negative, d.whole, if d.fraction.isEmpty then ['0'] else d.fraction, none⟩

/-- A decimal number as one digit, the others after the decimal point, and the power of ten that puts
the point `place` digits after the first one. -/
def scientific (negative : Bool) (digits : List Char) (place : Int) : Numeral :=
  ⟨negative, digits.take 1, digits.drop 1, some ⟨place < 0, Nat.toDigits 10 place.natAbs⟩⟩

/-- The shortest numeral of a finite number. It is positional as long as the decimal point is at most
sixteen digits into the number and fewer than five zeros go before the first digit. -/
def ofFinite (x : Finite) : Numeral :=
  let digits := Nat.toDigits 10 x.shortest.digits
  let point : Int := digits.length + x.shortest.exponent
  if -5 < point ∧ point ≤ 16 then positional x.negative x.shortest
  else scientific x.negative digits (point - 1)

end Numeral

end Vitae.Json
