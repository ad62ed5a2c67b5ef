/-
Module: Vitae.Typeset.Period
Layer: Typeset
Purpose: The time between two dates, either of which may be missing.
Imports: Vitae.Calendar, Vitae.Tex.Source
Main exports: period
-/
import Vitae.Calendar
import Vitae.Tex.Source

namespace Vitae

open Tex Text

/-- What stands between two dates: an en dash. -/
def dateSeparator : Source :=
  code " -- "

/-- A date as it is typeset, nothing where it is absent or blank. -/
def dateSource (date : Option String) : Source :=
  text (showDate (date.getD ""))

/-- The two ends of a period, or the one that is there. -/
def period (start finish : Option String) : Source :=
  joinNonEmpty dateSeparator [dateSource start, dateSource finish]

end Vitae
