/-
Module: Vitae.Text.Lines
Layer: Text
Purpose: Cutting a text at its line feeds, and folding ASCII letters to lower case.
Imports: none
Main exports: splitLines, lower
-/

namespace Vitae.Text

/-- The pieces of a text between its line feeds. There is always one more piece than line feeds. -/
def splitLines (s : List Char) : List (List Char) :=
  s.foldr
    (fun c pieces =>
      if c = '\n' then [] :: pieces
      else match pieces with
        | [] => [[c]]
        | piece :: others => (c :: piece) :: others)
    [[]]

/-- Lower-case the ASCII letters. Every other character keeps its case. -/
def lower (s : List Char) : List Char :=
  s.map Char.toLower

end Vitae.Text
