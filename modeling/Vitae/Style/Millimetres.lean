/-
Module: Vitae.Style.Millimetres
Layer: Style
Purpose: The vertical space between entries and between sections as it is computed in floating-point
  millimetres.
Imports: Vitae.Number.Comparison
Main exports: Millimetres, Millimetres.ofNumber, Millimetres.resolve
-/
import Vitae.Number.Comparison

namespace Vitae

open Number

/-- Vertical space in millimetres: what is asked for with one decimal, the space between entries, and the space
between sections. -/
structure Millimetres where
  base : Binary64
  small : Binary64
  medium : UInt32
deriving Repr, DecidableEq

namespace Millimetres

/-- Where nothing usable is asked for. -/
def standard : Binary64 :=
  .ofNat 3

/-- The greatest space between entries. -/
def greatest : Binary64 :=
  .ofNat 20

/-- A number between nothing and the greatest space. Zero has no sign. -/
def bounded (x : Binary64) : Binary64 :=
  let base := x.clamp (.ofNat 0) greatest
  if base.isZero then .ofNat 0 else base

/-- A number of millimetres with one decimal. -/
def toTenths (x : Binary64) : Binary64 :=
  (x.mul (.ofNat 10)).round.div (.ofNat 10)

/-- One and a half times the space in whole millimetres, and at least one. -/
def between (base : Binary64) : UInt32 :=
  ((base.mul (.ofRatio false 3 2)).round.max (.ofNat 1)).toUInt32

/-- The space for a number of millimetres. -/
def ofNumber (x : Binary64) : Millimetres :=
  let base := bounded (toTenths x)
  { base, small := base.max (.ofNat 0), medium := between base }

/-- The space that is asked for, or the standard one where none is or the number is not finite. -/
def resolve : Option Binary64 → Millimetres
  | some (.finite x) => ofNumber (.finite x)
  | _ => ofNumber standard

end Millimetres

end Vitae
