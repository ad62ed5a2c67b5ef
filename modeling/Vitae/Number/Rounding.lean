/-
Module: Vitae.Number.Rounding
Layer: Number
Purpose: Rounding an exact quotient of natural numbers to a neighbouring natural number.
Imports: none
Main exports: Tie, divNearest
-/

namespace Vitae.Number

/-- Where a quotient goes that lies exactly half way between its neighbours. -/
inductive Tie where
  | up
  | toEven
deriving Repr, DecidableEq

/-- The natural number nearest to `num / den`, where the tie rule decides a half. -/
def divNearest (tie : Tie) (num den : Nat) : Nat :=
  let below := num / den
  let twice := 2 * (num % den)
  if twice < den then below
  else if den < twice then below + 1
  else match tie with
    | .up => below + 1
    | .toEven => below + below % 2

end Vitae.Number
