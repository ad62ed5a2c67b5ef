/-
Module: Vitae.Style.Spacing
Layer: Style
Purpose: The vertical space between entries and between sections. It is held in tenths of a millimetre,
  from none to twenty millimetres.
Imports: Vitae.Number.Shortest
Main exports: Spacing, Spacing.ofNumber?, Spacing.smallLength, Spacing.mediumLength
-/
import Vitae.Number.Shortest

namespace Vitae

open Number

/-- The space between entries, in tenths of a millimetre. -/
structure Spacing where
  tenths : Nat
  tenths_le : tenths ≤ 200
deriving Repr, DecidableEq

namespace Spacing

/-- Three millimetres, where nothing usable is asked for. -/
def standard : Spacing :=
  ⟨30, by decide⟩

/-- The greatest spacing that is at most the given number of tenths. -/
def atMost (tenths : Nat) : Spacing :=
  ⟨min tenths 200, Nat.min_le_right ..⟩

/-- The whole number of tenths nearest to a number of tenths, where a half goes up. Less than nothing
counts as nothing. -/
def nearestTenths : Binary64 → Spacing
  | .finite x => if x.negative then atMost 0 else atMost (divNearest .up x.ratio.1 x.ratio.2)
  | .infinite negative => if negative then atMost 0 else atMost 200
  | .nan => standard

/-- The spacing for a finite number of millimetres. The number of tenths is a rounded product, so a
number too great to be multiplied still gives the greatest spacing. -/
def ofFinite (millimetres : Finite) : Spacing :=
  nearestTenths ((Binary64.finite millimetres).mul (.ofNat 10))

/-- The spacing for a number of millimetres, if that is finite. -/
def ofNumber? : Binary64 → Option Spacing
  | .finite x => some (ofFinite x)
  | _ => none

/-- The space between entries in millimetres, without a decimal point before a zero. -/
def small (s : Spacing) : String :=
  if s.tenths % 10 = 0 then toString (s.tenths / 10)
  else toString (s.tenths / 10) ++ "." ++ toString (s.tenths % 10)

/-- The space between entries in millimetres, always with one decimal. -/
def precise (s : Spacing) : String :=
  toString (s.tenths / 10) ++ "." ++ toString (s.tenths % 10)

/-- The space between sections in whole millimetres: one and a half times the space between entries,
where a half goes up, and at least one. -/
def medium (s : Spacing) : Nat :=
  max 1 (divNearest .up (3 * s.tenths) 20)

/-- The length between entries. -/
def smallLength (s : Spacing) : String :=
  s.small ++ "mm"

/-- The length between sections. -/
def mediumLength (s : Spacing) : String :=
  toString s.medium ++ "mm"

end Spacing

end Vitae
