/-
Module: Vitae.Number.Comparison
Layer: Number
Purpose: Comparing floating-point numbers, keeping a number between bounds, and passing from numbers to whole
  numbers.
Imports: Vitae.Number.Binary64
Main exports: Binary64.isBelow, Binary64.clamp, Binary64.max, Binary64.round, Binary64.toUInt32
-/
import Vitae.Number.Binary64

namespace Vitae.Number

/-- The numerator of the exact quotient, with the sign of the number. -/
def Finite.numerator (x : Finite) : Int :=
  if x.negative then -(x.ratio.1 : Int) else x.ratio.1

namespace Binary64

/-- Is the number less than the other one? The two zeros are equal, and what is not a number is not less than
anything. -/
def isBelow : Binary64 → Binary64 → Bool
  | .finite x, .finite y => x.numerator * y.ratio.2 < y.numerator * x.ratio.2
  | .finite _, .infinite negative => !negative
  | .infinite negative, .finite _ => negative
  | .infinite s, .infinite t => s && !t
  | _, _ => false

/-- The number, or the bound that it lies beyond. -/
def clamp (x low high : Binary64) : Binary64 :=
  if x.isBelow low then low else if high.isBelow x then high else x

/-- The greater number, or the one that is a number. -/
def max : Binary64 → Binary64 → Binary64
  | .nan, y => y
  | x, .nan => x
  | x, y => if x.isBelow y then y else x

/-- The whole number nearest to a number, where a half goes away from zero. It keeps the sign, also where it is
zero. -/
def round : Binary64 → Binary64
  | .finite x => .ofRatio x.negative (divNearest .up x.ratio.1 x.ratio.2) 1
  | x => x

/-- The whole part of a number. What does not fit 32 bits goes to the nearest end of their range, and what is not
a number goes to zero. -/
def toUInt32 : Binary64 → UInt32
  | .finite x => if x.negative then 0 else .ofNat (min (x.ratio.1 / x.ratio.2) (UInt32.size - 1))
  | .infinite negative => if negative then 0 else .ofNat (UInt32.size - 1)
  | .nan => 0

end Binary64

end Vitae.Number
