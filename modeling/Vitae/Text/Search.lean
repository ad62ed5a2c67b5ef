/-
Module: Vitae.Text.Search
Layer: Text
Purpose: Finding one text inside another.
Imports: none
Main exports: startsWith, after?, occursIn
-/

namespace Vitae.Text

/-- Does the text begin with the pattern? -/
def startsWith (pattern : String) (s : List Char) : Bool :=
  pattern.toList.isPrefixOf s

/-- What follows the first occurrence of the pattern. -/
def after? (pattern : List Char) : List Char → Option (List Char)
  | [] => if pattern.isEmpty then some [] else none
  | c :: rest =>
      if pattern.isPrefixOf (c :: rest) then some ((c :: rest).drop pattern.length)
      else after? pattern rest

/-- Does the pattern occur anywhere in the text? -/
def occursIn (pattern s : List Char) : Bool :=
  (after? pattern s).isSome

end Vitae.Text
