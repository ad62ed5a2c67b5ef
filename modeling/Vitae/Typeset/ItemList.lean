/-
Module: Vitae.Typeset.ItemList
Layer: Typeset
Purpose: Lists of items: bullets, skills and the plain lists of the academic extras.
Imports: Vitae.Style.Spacing, Vitae.Tex.Source
Main exports: textItems, bulletList, skillList, plainList
-/
import Vitae.Style.Spacing
import Vitae.Tex.Source

namespace Vitae

open Tex Text

/-- The items of a list of texts. Blank ones are left out. -/
def textItems (raw : List String) : List Source :=
  (raw.filter hasText).map text

/-- A list with the given options, one item to a line. Without items there is no list. -/
def itemize (options : String) (items : List Source) : Source :=
  if items.isEmpty then []
  else environment "itemize" options (join (code "\n") (items.map fun item => code "\\item " ++ item))

/-- The bullets of a job. -/
def bulletList (items : List Source) (s : Spacing) : Source :=
  itemize ("[leftmargin=*,topsep=0pt,partopsep=0pt,itemsep=" ++ s.smallLength ++ ",parsep=0pt]") items

/-- Skills, one to an item. -/
def skillList (items : List Source) (s : Spacing) : Source :=
  itemize ("[leftmargin=*,itemsep=" ++ s.smallLength ++ ",parsep=0pt]") items

/-- Items set close to each other. -/
def plainList (items : List Source) : Source :=
  itemize "[leftmargin=*,noitemsep]" items

/-- Skills in one line. -/
def skillLine (items : List Source) : Source :=
  join (code ", ") items

end Vitae
