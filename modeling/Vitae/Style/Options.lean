/-
Module: Vitae.Style.Options
Layer: Style
Purpose: What the caller may choose about the look of a document, and the names of the choices.
Imports: Vitae.Number.Binary64, Vitae.Text.Lines, Vitae.Text.Space
Main exports: PageSize, FontFamily, StyleOptions, SectionKey, TemplateKey
-/
import Vitae.Number.Binary64
import Vitae.Text.Lines
import Vitae.Text.Space

namespace Vitae

open Number Text

/-- The size of the paper. -/
inductive PageSize where
  | a4
  | letter
deriving Repr, DecidableEq

namespace PageSize

/-- Every page size. -/
def all : List PageSize :=
  [.a4, .letter]

/-- The name of a page size. -/
def name : PageSize → String
  | .a4 => "a4"
  | .letter => "letter"

/-- The paper as the document class and the page layout call it. -/
def paper : PageSize → String
  | .a4 => "a4paper"
  | .letter => "letterpaper"

end PageSize

/-- The kind of typeface. -/
inductive FontFamily where
  | serif
  | sansSerif
  | mono
deriving Repr, DecidableEq

namespace FontFamily

/-- Every kind of typeface. -/
def all : List FontFamily :=
  [.serif, .sansSerif, .mono]

/-- The name of a kind of typeface. -/
def name : FontFamily → String
  | .serif => "serif"
  | .sansSerif => "sans-serif"
  | .mono => "mono"

/-- The name used in reports. -/
def label : FontFamily → String
  | .serif => "Serif"
  | .sansSerif => "SansSerif"
  | .mono => "Mono"

/-- The command that switches the typeface. Serif is what a document has anyway. -/
def directive : FontFamily → String
  | .serif => ""
  | .sansSerif => "\\renewcommand\x7b\\familydefault\x7d\x7b\\sfdefault\x7d"
  | .mono => "\\renewcommand\x7b\\familydefault\x7d\x7b\\ttdefault\x7d"

end FontFamily

/-- The choices about the look of a document. Each may be absent. -/
structure StyleOptions where
  pageSize : Option PageSize := none
  fontFamily : Option FontFamily := none
  primaryColor : Option String := none
  secondaryColor : Option String := none
  sectionSpacing : Option Binary64 := none
  sectionOrder : Option (List String) := none
deriving Repr, DecidableEq

/-- The sections whose order the caller may choose. -/
inductive SectionKey where
  | skills
  | experience
  | education
  | projects
  | custom
deriving Repr, DecidableEq

namespace SectionKey

/-- Every section. -/
def all : List SectionKey :=
  [.skills, .experience, .education, .projects, .custom]

/-- The name of a section. -/
def name : SectionKey → String
  | .skills => "skills"
  | .experience => "experience"
  | .education => "education"
  | .projects => "projects"
  | .custom => "custom"

/-- The section that a name in lower case stands for. A name that starts with `custom-` is that of one
custom section, and stands for the place of them all. -/
def ofLower? (name : List Char) : Option SectionKey :=
  if name = "skills".toList then some .skills
  else if name = "experience".toList ∨ name = "experiences".toList then some .experience
  else if name = "education".toList then some .education
  else if name = "projects".toList then some .projects
  else if name = "custom".toList ∨ name = "customsections".toList then some .custom
  else if "custom-".toList.isPrefixOf name then some .custom
  else none

/-- The section that a name stands for, with space around it and in any case. -/
def ofName? (name : String) : Option SectionKey :=
  ofLower? (lower (trimChars name.toList))

end SectionKey

/-- The sections named by a list of names, each once and at its first place. Other names are skipped. -/
def resolveOrder (names : List String) : List SectionKey :=
  (names.filterMap SectionKey.ofName?).foldl
    (fun keys key => if keys.contains key then keys else keys ++ [key]) []

/-- The designs of a document. -/
inductive TemplateKey where
  | classic
  | modern
  | creative
  | professional
  | minimalist
  | twoColumn
deriving Repr, DecidableEq

namespace TemplateKey

/-- Every design, in the order in which they are listed. -/
def all : List TemplateKey :=
  [.classic, .modern, .creative, .professional, .minimalist, .twoColumn]

/-- The name of a design. -/
def name : TemplateKey → String
  | .classic => "classic"
  | .modern => "modern"
  | .creative => "creative"
  | .professional => "professional"
  | .minimalist => "minimalist"
  | .twoColumn => "twoColumn"

/-- The characters that count for nothing in a name of a design. -/
def isJoiner (c : Char) : Bool :=
  c == '-' || c == '_' || c == ' '

/-- The letters of a name of a design, in lower case. -/
def letters (name : String) : List Char :=
  lower ((trimChars name.toList).filter fun c => !isJoiner c)

/-- The design that a name stands for, in any case and with joiners anywhere. -/
def ofName? (name : String) : Option TemplateKey :=
  all.find? fun key => letters name == lower key.name.toList

end TemplateKey

end Vitae
