/-
Module: Vitae.Number.Binary64
Layer: Number
Purpose: Binary floating-point numbers with a 53-bit significand, held as exact integers, and arithmetic
  that rounds the exact result once, to nearest with ties to even.
Imports: Vitae.Number.Power, Vitae.Number.Rounding
Main exports: Finite, Binary64, Binary64.ofRatio, Binary64.ofNat, Binary64.mul, Binary64.div
-/
import Vitae.Number.Power
import Vitae.Number.Rounding

namespace Vitae.Number

/-- A significand and an exponent that a finite number can have. The significand fills its 53 bits
unless the exponent is already the least one, so each magnitude has one such pair. -/
def Representable (significand : Nat) (exponent : Int) : Prop :=
  significand < twoTo 53 ∧ -1074 ≤ exponent ∧ exponent ≤ 971 ∧
    (twoTo 52 ≤ significand ∨ exponent = -1074)

instance (significand : Nat) (exponent : Int) : Decidable (Representable significand exponent) :=
  inferInstanceAs (Decidable (_ ∧ _ ∧ _ ∧ _))

/-- The finite number `± significand · 2 ^ exponent`. Zero has a sign too. -/
structure Finite where
  negative : Bool
  significand : Nat
  exponent : Int
  representable : Representable significand exponent
deriving Repr, DecidableEq

/-- A floating-point number: finite, infinite or not a number. -/
inductive Binary64 where
  | finite (x : Finite)
  | infinite (negative : Bool)
  | nan
deriving Repr, DecidableEq

namespace Finite

/-- Zero with the given sign. -/
def zero (negative : Bool) : Finite :=
  ⟨negative, 0, -1074, by decide⟩

/-- The magnitude as an exact quotient, numerator first. -/
def ratio (x : Finite) : Nat × Nat :=
  if x.exponent < 0 then (x.significand, twoTo x.exponent.natAbs)
  else (x.significand * twoTo x.exponent.toNat, 1)

end Finite

/-- The exponent of the greatest power of two that is at most `num / den`, for a positive quotient. -/
def floorLog2 (num den : Nat) : Int :=
  let guess : Int := (num.log2 : Int) - (den.log2 : Int)
  if den * twoTo guess.toNat ≤ num * twoTo (-guess).toNat then guess else guess - 1

namespace Binary64

/-- The number with this sign, significand and exponent, or infinity where no finite number has them. -/
def pack (negative : Bool) (significand : Nat) (exponent : Int) : Binary64 :=
  if h : Representable significand exponent then .finite ⟨negative, significand, exponent, h⟩
  else .infinite negative

/-- The number nearest to `± num / den`. A quotient half way between two numbers goes to the one with
the even significand, and one that would need a greater exponent than there is becomes infinite. -/
def ofRatio (negative : Bool) (num den : Nat) : Binary64 :=
  if num = 0 then .finite (.zero negative)
  else
    let exponent : Int := max (-1074) (floorLog2 num den - 52)
    let significand :=
      divNearest .toEven (num * twoTo (-exponent).toNat) (den * twoTo exponent.toNat)
    if significand = twoTo 53 then pack negative (twoTo 52) (exponent + 1)
    else pack negative significand exponent

/-- The number nearest to a natural number. -/
def ofNat (n : Nat) : Binary64 :=
  ofRatio false n 1

/-- The number with the other sign. -/
def neg : Binary64 → Binary64
  | .finite x => .finite ⟨!x.negative, x.significand, x.exponent, x.representable⟩
  | .infinite negative => .infinite (!negative)
  | .nan => .nan

/-- Is this one of the two zeros? -/
def isZero : Binary64 → Bool
  | .finite x => x.significand == 0
  | _ => false

/-- The rounded product of two finite numbers. -/
def mulFinite (x y : Finite) : Binary64 :=
  ofRatio (x.negative != y.negative) (x.ratio.1 * y.ratio.1) (x.ratio.2 * y.ratio.2)

/-- The rounded quotient of two finite numbers, of which the second is not zero. -/
def divFinite (x y : Finite) : Binary64 :=
  ofRatio (x.negative != y.negative) (x.ratio.1 * y.ratio.2) (x.ratio.2 * y.ratio.1)

/-- The rounded product. Zero times infinity is not a number. -/
def mul : Binary64 → Binary64 → Binary64
  | .finite x, .finite y => mulFinite x y
  | .finite x, .infinite s => if x.significand = 0 then .nan else .infinite (x.negative != s)
  | .infinite s, .finite y => if y.significand = 0 then .nan else .infinite (s != y.negative)
  | .infinite s, .infinite t => .infinite (s != t)
  | _, _ => .nan

/-- The rounded quotient. Zero by zero and infinity by infinity are not numbers. -/
def div : Binary64 → Binary64 → Binary64
  | .finite x, .finite y =>
      if y.significand = 0 then
        if x.significand = 0 then .nan else .infinite (x.negative != y.negative)
      else divFinite x y
  | .finite x, .infinite s => .finite (.zero (x.negative != s))
  | .infinite s, .finite y => .infinite (s != y.negative)
  | _, _ => .nan

end Binary64

end Vitae.Number
