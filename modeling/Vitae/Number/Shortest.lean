/-
Module: Vitae.Number.Shortest
Layer: Number
Purpose: The decimal text of a floating-point number: the fewest digits that read back as the same
  number, always written positionally.
Imports: Vitae.Number.Binary64
Main exports: Decimal, Finite.shortest, Decimal.whole, Decimal.fraction, Binary64.text
-/
import Vitae.Number.Binary64

namespace Vitae.Number

/-- The decimal number `digits · 10 ^ exponent`. -/
structure Decimal where
  digits : Nat
  exponent : Int
deriving Repr, DecidableEq

namespace Finite

/-- The least and the greatest magnitude that round to `x`, and `x` itself between them, counted in
quarters of its last binary place. Below a power of two the numbers lie twice as close. -/
def quarters (x : Finite) : Nat × Nat × Nat :=
  let middle := 4 * x.significand
  let below := if x.significand = twoTo 52 ∧ x.exponent ≠ -1074 then 1 else 2
  (middle - below, middle, middle + 2)

/-- The multiple of `10 ^ place` that rounds to `x`, the nearer one if there are two and the greater
one if they are equally near. A magnitude half way to the next number counts if `x` is even. -/
def onGrid (x : Finite) (place : Int) : Option Nat :=
  let unit := twoTo (x.exponent - 2).toNat * tenTo (-place).toNat
  let step := twoTo (2 - x.exponent).toNat * tenTo place.toNat
  let (least, middle, greatest) := x.quarters
  let rounds (n : Nat) : Bool :=
    if x.significand % 2 = 0 then least * unit ≤ n * step && n * step ≤ greatest * unit
    else least * unit < n * step && n * step < greatest * unit
  let lower := middle * unit / step
  match rounds lower, rounds (lower + 1) with
  | true, true =>
      if (lower + 1) * step - middle * unit ≤ middle * unit - lower * step then some (lower + 1)
      else some lower
  | true, false => some lower
  | false, true => some (lower + 1)
  | false, false => none

/-- Go from `place` to finer grids, at most `steps` of them, until one has a point that rounds to `x`. -/
def coarsest (x : Finite) : Nat → Int → Decimal
  | 0, place => ⟨0, place⟩
  | steps + 1, place =>
      match x.onGrid place with
      | some n => ⟨n, place⟩
      | none => x.coarsest steps (place - 1)

/-- The magnitude of `x` with as few digits as read back as `x`. No finite number reaches `10 ^ 309`,
and the grid of `10 ^ -324` is finer than the numbers are. -/
def shortest (x : Finite) : Decimal :=
  if x.significand = 0 then ⟨0, 0⟩ else x.coarsest 634 309

end Finite

namespace Decimal

/-- The digits before the decimal point. -/
def whole (d : Decimal) : List Char :=
  let digits := Nat.toDigits 10 d.digits
  if d.exponent < 0 then
    let places := d.exponent.natAbs
    if digits.length ≤ places then ['0'] else digits.take (digits.length - places)
  else if d.digits = 0 then ['0']
  else digits ++ List.replicate d.exponent.toNat '0'

/-- The digits after the decimal point, if there are any. -/
def fraction (d : Decimal) : List Char :=
  let digits := Nat.toDigits 10 d.digits
  if d.exponent < 0 then
    let places := d.exponent.natAbs
    List.replicate (places - digits.length) '0' ++ digits.drop (digits.length - places)
  else []

/-- Positional text, without a decimal point where nothing follows it. -/
def text (d : Decimal) : List Char :=
  if d.fraction.isEmpty then d.whole else d.whole ++ '.' :: d.fraction

end Decimal

/-- The sign of a negative number, zero included. -/
def signText (negative : Bool) : List Char :=
  if negative then ['-'] else []

/-- The text of a number. -/
def Binary64.text : Binary64 → String
  | .finite x => String.ofList (signText x.negative ++ x.shortest.text)
  | .infinite negative => String.ofList (signText negative ++ "inf".toList)
  | .nan => "NaN"

end Vitae.Number
