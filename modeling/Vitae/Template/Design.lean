/-
Module: Vitae.Template.Design
Layer: Template
Purpose: Designs as data: a preamble, the parts of the body in their order, and the end of the document.
Imports: Vitae.Section.Block, Vitae.Template.Preamble
Main exports: Layout, Region.source, Region.source_eq, Design, Design.preambleText, Design.bodySource, Design.footerSource, Design.render
-/
import Vitae.Section.Block
import Vitae.Template.Preamble

namespace Vitae.Template

open Tex

/-- How a design arranges the page: in one column, with a sidebar of fixed height, or in two columns
that may run over several pages. -/
inductive Layout where
  | singleColumn
  | sidebar
  | paracol
deriving Repr, DecidableEq

/-- The name of an arrangement. -/
def Layout.name : Layout → String
  | .singleColumn => "singleColumn"
  | .sidebar => "sidebar"
  | .paracol => "paracol"

/-- A length for each page size. -/
structure PaperLength where
  letter : String
  a4 : String
deriving Repr, DecidableEq

/-- The length for a page size. -/
def PaperLength.on (l : PaperLength) : PageSize → String
  | .letter => l.letter
  | .a4 => l.a4

/-- What a design fills into a placeholder of its own: a length, or the commands for entries with the
given space before and after an entry. -/
inductive Filling where
  | length (l : PaperLength)
  | entryCommands (before after : String)
deriving Repr, DecidableEq

/-- The fields that stand in a header. -/
inductive Field where
  | name
  | title
  | contactLine
  | fullContactLine
deriving Repr, DecidableEq

/-- The source of a header field. -/
def Field.source (c : Content) : Field → Source
  | .name => c.name
  | .title => c.title
  | .contactLine => c.contactLine
  | .fullContactLine => c.fullContactLine

/-- The two lengths that follow the spacing. -/
inductive Gap where
  | small
  | medium
deriving Repr, DecidableEq

/-- The text of a length. -/
def Gap.length (s : Spacing) : Gap → String
  | .small => s.smallLength
  | .medium => s.mediumLength

/-- The form in which a region shows courses of study. -/
inductive EducationForm where
  | full
  | short
deriving Repr, DecidableEq

/-- What a region holds: one block, or the sections that it hosts for the caller to order. -/
inductive Slot where
  | block (b : Block)
  | hosted (sections : List SectionKey) (form : EducationForm)
deriving Repr, DecidableEq

/-- The blocks of a slot in the order in which they are shown. -/
def Slot.blocks (look : Look) : Slot → List Block
  | .block b => [b]
  | .hosted sections .full => (look.arrange sections).map Block.ofKey
  | .hosted sections .short => (look.arrange sections).map Block.ofKeyShort

/-- The sections that a slot hosts. -/
def Slot.hostedKeys : Slot → List SectionKey
  | .block _ => []
  | .hosted sections _ => sections

/-- A column of a page, or all of it. -/
structure Region where
  style : SectionStyle
  slots : List Slot
deriving Repr, DecidableEq

/-- The blocks of a region in the order in which they are shown. -/
def Region.blocks (r : Region) (look : Look) : List Block :=
  r.slots.flatMap (Slot.blocks look)

/-- The sources of the blocks of a slot. -/
def Slot.sources (m : Manuscript) (style : SectionStyle) : Slot → List Source
  | .block b => [b.compose m style]
  | .hosted sections .full => composeRegion m style sections
  | .hosted sections .short =>
      (m.look.arrange sections).map fun key => (Block.ofKeyShort key).compose m style

/-- The source of a region. -/
def Region.source (r : Region) (m : Manuscript) : Source :=
  joinSections m.look.spacing (r.slots.flatMap (Slot.sources m r.style))

/-- A slot is composed block by block. -/
theorem Slot.sources_eq (slot : Slot) (m : Manuscript) (style : SectionStyle) :
    slot.sources m style = (slot.blocks m.look).map (Block.compose m style) := by
  cases slot with
  | block b => rfl
  | hosted sections form =>
      cases form with
      | full => rw [Slot.sources, Slot.blocks, composeRegion, List.map_map, Function.comp_def]
      | short => rw [Slot.sources, Slot.blocks, List.map_map, Function.comp_def]

/-- A region is composed block by block. -/
theorem Region.source_eq (r : Region) (m : Manuscript) :
    r.source m = joinSections m.look.spacing ((r.blocks m.look).map (Block.compose m r.style)) := by
  rw [Region.source, Region.blocks, List.map_flatMap, funext fun slot => Slot.sources_eq slot m r.style]

/-- A part of the body: code, a command with header fields as its arguments, vertical space, or a
region. -/
inductive Part where
  | code (s : String)
  | call (command : String) (arguments : List Field)
  | space (gap : Gap)
  | region (r : Region)
deriving Repr, DecidableEq

/-- The source of a part. -/
def Part.source (m : Manuscript) : Part → Source
  | .code s => Tex.code (String.ofList (braced s))
  | .call name arguments => command name (arguments.map (Field.source m.content))
  | .space gap => command "vspace" [Tex.code (gap.length m.look.spacing)]
  | .region r => r.source m

/-- A design. -/
structure Design where
  key : TemplateKey
  layout : Layout
  preamble : Preamble
  fillings : List (String × Filling)
  body : List Part
  footer : List Part
deriving Repr, DecidableEq

/-- The text of a filling. -/
def Filling.text (look : Look) : Filling → List Char
  | .length l => (l.on look.pageSize).toList
  | .entryCommands before after => Template.entryCommands before.toList after.toList

/-- The two colours by name. -/
def colorDefinitions (look : Look) : String :=
  look.primary.define "primarycolor" ++ "\n" ++ look.secondary.define "secondarycolor"

/-- What every design fills in. -/
def commonFillings (look : Look) : List (String × List Char) :=
  [("paper", look.pageSize.paper.toList),
   ("colors", (colorDefinitions look).toList),
   ("font", look.fontFamily.directive.toList)]

namespace Design

/-- Everything that is filled into the preamble of a design. -/
def values (d : Design) (look : Look) : List (String × List Char) :=
  commonFillings look ++ d.fillings.map fun (name, filling) => (name, filling.text look)

/-- The preamble of a document. -/
def preambleText (d : Design) (look : Look) : List Char :=
  fill d.preamble.text (d.values look)

/-- The beginning of the document and its sections. -/
def bodySource (d : Design) (m : Manuscript) : Source :=
  Tex.code "\\begin{document}\n" ++ d.body.flatMap (Part.source m)

/-- The end of the document. -/
def footerSource (d : Design) (m : Manuscript) : Source :=
  d.footer.flatMap (Part.source m) ++ Tex.code "\n\\end{document}\n"

/-- The characters of a document. -/
def chars (d : Design) (m : Manuscript) : List Char :=
  d.preambleText m.look ++ (d.bodySource m).render ++ (d.footerSource m).render

/-- The text of a document. -/
def render (d : Design) (m : Manuscript) : String :=
  String.ofList (d.chars m)

end Design

end Vitae.Template
