/-
Module: Vitae.Number.Power
Layer: Number
Purpose: Powers of the two bases in which numbers are held and written.
Imports: none
Main exports: twoTo, tenTo
-/

namespace Vitae.Number

/-- A power of two. -/
def twoTo (n : Nat) : Nat :=
  Nat.pow 2 n

/-- A power of ten. -/
def tenTo (n : Nat) : Nat :=
  Nat.pow 10 n

theorem twoTo_pos (n : Nat) : 0 < twoTo n :=
  Nat.two_pow_pos n

theorem tenTo_pos (n : Nat) : 0 < tenTo n :=
  Nat.pow_pos (by decide)

end Vitae.Number
