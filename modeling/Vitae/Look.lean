/-
Module: Vitae.Look
Layer: Manuscript
Purpose: The look of a document: style options replaced by the values they stand for, with a report of
  each that could not be used.
Imports: Vitae.Event, Vitae.Style.Color
Main exports: Look, Look.ofOptions, Look.arrange
-/
import Vitae.Event
import Vitae.Style.Color

namespace Vitae

open Text (hasText)

/-- The look of a document. -/
structure Look where
  pageSize : PageSize
  fontFamily : FontFamily
  primary : Rgb
  secondary : Rgb
  spacing : Spacing
  sectionOrder : Option (List SectionKey)
deriving Repr, DecidableEq

/-- The spacing that is asked for, or the standard one. A number that is not finite is reported. -/
def resolveSpacing : Option Number.Binary64 → Logged Spacing
  | none => pure .standard
  | some x => match Spacing.ofNumber? x with
      | some s => pure s
      | none => do
          Logged.report (.nonFiniteSpacing x)
          pure .standard

/-- The colour that is asked for, or the standard one where the text is blank. A text that is no colour
is reported, and black. -/
def resolveColor (requested : Option String) (standard : String) : Logged Rgb :=
  let text := match requested with
    | some text => if hasText text then text else standard
    | none => standard
  match Rgb.ofHex? text with
  | some color => pure color
  | none => do
      Logged.report (.invalidColor text)
      pure .black

/-- The order that is asked for, if it names any section. -/
def resolveSectionOrder (requested : Option (List String)) : Option (List SectionKey) :=
  match requested.map resolveOrder with
  | some (key :: keys) => some (key :: keys)
  | _ => none

/-- The standard colour of what stands out. -/
def standardPrimary : String :=
  "#000000"

/-- The standard colour of what stands back. -/
def standardSecondary : String :=
  "#666666"

/-- The look that style options stand for. -/
def Look.ofOptions (o : StyleOptions) : Logged Look := do
  let spacing ← resolveSpacing o.sectionSpacing
  let primary ← resolveColor o.primaryColor standardPrimary
  let secondary ← resolveColor o.secondaryColor standardSecondary
  pure
    { pageSize := o.pageSize.getD .letter
      fontFamily := o.fontFamily.getD .serif
      primary
      secondary
      spacing
      sectionOrder := resolveSectionOrder o.sectionOrder }

/-- The sections of a region in the order in which they are shown. `region` names the sections that
the region hosts, in the order of the design. Where the caller asks for an order, only the sections
asked for are shown, in that order. -/
def Look.arrange (look : Look) (region : List SectionKey) : List SectionKey :=
  match look.sectionOrder with
  | some order => order.filter region.contains
  | none => region

end Vitae
