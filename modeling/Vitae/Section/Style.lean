/-
Module: Vitae.Section.Style
Layer: Section
Purpose: How a region of a design sets its sections.
Imports: none
Main exports: Heading, SkillsLayout, SectionStyle
-/

namespace Vitae

/-- The two kinds of section heading. -/
inductive Heading where
  | full
  | sidebar
deriving Repr, DecidableEq

/-- The ways to show skills: in one line, one to an item, or in a grid of columns. -/
inductive SkillsLayout where
  | inline
  | bulleted
  | grid (columns : Nat)
deriving Repr, DecidableEq

/-- How sections are set: the kind of their headings, the way skills are shown, and whether a rule
closes each section. -/
structure SectionStyle where
  heading : Heading
  skills : SkillsLayout
  rule : Bool := false
deriving Repr, DecidableEq

/-- The command that typesets a heading. -/
def Heading.command : Heading → String
  | .full => "section*"
  | .sidebar => "sidebarHeading"

end Vitae
