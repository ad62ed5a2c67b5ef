/-
Module: Vitae.Section.Block
Layer: Section
Purpose: The sections of a document as blocks of source. A block without content is empty, so its
  heading is not printed either.
Imports: Vitae.Manuscript, Vitae.Section.Style, Vitae.Typeset.SkillsGrid
Main exports: joinSections, Block, Block.compose
-/
import Vitae.Manuscript
import Vitae.Section.Style
import Vitae.Typeset.SkillsGrid

namespace Vitae

open Tex

/-- Vertical space on a line of its own. -/
def gap (length : String) : Source :=
  code "\n" ++ command "vspace" [code length] ++ code "\n"

/-- The space between the entries of a section. -/
def entryGap (s : Spacing) : Source :=
  gap s.smallLength

/-- The space between sections. -/
def sectionGap (s : Spacing) : Source :=
  gap s.mediumLength

/-- The sections that have content, with space between them. -/
def joinSections (s : Spacing) (parts : List Source) : Source :=
  joinNonEmpty (sectionGap s) parts

namespace SectionStyle

/-- A heading on a line of its own. -/
def headingLine (style : SectionStyle) (title : Source) : Source :=
  command style.heading.command [title] ++ code "\n"

/-- The rule that closes a section, if there is one. -/
def closing (style : SectionStyle) : Source :=
  if style.rule then code "\n\\sectionrule" else []

/-- A heading with what stands under it. -/
def headed (style : SectionStyle) (title body : Source) : Source :=
  style.headingLine title ++ body ++ style.closing

/-- A section with its heading, nothing where the section is empty. -/
def wrap (style : SectionStyle) (title : String) (body : Source) : Source :=
  if body.isBlank then [] else style.headed (code title) body

end SectionStyle

/-- The break between the lines of contact items and of links. -/
def lineBreak : Source :=
  code " \\\\\n"

/-- Skills in the way the style asks for. -/
def skillsBody (m : Manuscript) : SkillsLayout → Source
  | .inline => skillLine m.content.skills
  | .bulleted => skillList m.content.skills m.look.spacing
  | .grid columns => skillsGrid m.content.skills columns

/-- A job as a call of its command. -/
def ExperienceEntry.call (e : ExperienceEntry) : Source :=
  command "resumeEntry" [e.role, e.company, e.dates, e.bullets]

/-- A course of study as a call of its command. -/
def EducationEntry.call (e : EducationEntry) : Source :=
  command "educationEntry" [e.school, e.degree, e.dates]

/-- A project as a call of its command. -/
def ProjectEntry.call (p : ProjectEntry) : Source :=
  command "projectEntry" [p.name, p.technologies, p.description]

/-- Bold text. -/
def bold (body : Source) : Source :=
  command "textbf" [body]

/-- Small text. -/
def small (body : Source) : Source :=
  group (code "\\small " ++ body)

/-- A course of study in little room: the school in bold, the degree below. The dates stand in only
where both are missing. -/
def EducationEntry.short (e : EducationEntry) : Source :=
  match e.school.isBlank, e.degree.isBlank with
  | false, false => bold e.school ++ code "\\\\\n" ++ small e.degree
  | false, true => bold e.school
  | true, false => small e.degree
  | true, true => e.dates

/-- A section of the user's own. Without a title its content stands alone. -/
def CustomEntry.block (style : SectionStyle) (s : CustomEntry) : Source :=
  if s.title.isBlank then s.content else style.headed s.title s.content

/-- Who held a position: the title in bold and the organisation after it, or in bold whichever of
them there is. -/
def PositionEntry.holder (p : PositionEntry) : Source :=
  match [p.title, p.organization].filter fun s => !s.isBlank with
  | [title, organization] => bold title ++ code ", " ++ organization
  | [one] => bold one
  | _ => []

/-- A position of responsibility in one line, with its date at the end. -/
def PositionEntry.line (p : PositionEntry) : Source :=
  p.holder ++
    if p.date.isBlank then [] else code " \\hfill " ++ command "textit" [code "\\small " ++ p.date]

/-- An activity in one line. -/
def ActivityEntry.line (a : ActivityEntry) : Source :=
  match a.name.isBlank, a.description.isBlank with
  | false, false => bold a.name ++ code ": " ++ a.description
  | false, true => bold a.name
  | true, _ => a.description

/-- A section of a document. -/
inductive Block where
  | summary (title : String)
  | contact
  | links
  | skills
  | experience
  | education
  | shortEducation
  | projects
  | custom
  | certifications
  | positions
  | activities
  | coursework
deriving Repr, DecidableEq

namespace Block

/-- The source of a section. -/
def compose (m : Manuscript) (style : SectionStyle) : Block → Source
  | summary title => style.wrap title m.content.summary
  | contact => style.wrap "Contact" (join lineBreak m.content.contactItems)
  | links => style.wrap "Links" (join lineBreak m.content.links)
  | skills => style.wrap "Skills" (skillsBody m style.skills)
  | experience =>
      style.wrap "Experience"
        (join (entryGap m.look.spacing) (m.content.experiences.map ExperienceEntry.call))
  | education =>
      style.wrap "Education"
        (join (entryGap m.look.spacing) (m.content.education.map EducationEntry.call))
  | shortEducation =>
      style.wrap "Education"
        (joinNonEmpty (entryGap m.look.spacing) (m.content.education.map EducationEntry.short))
  | projects =>
      style.wrap "Projects"
        (join (entryGap m.look.spacing) (m.content.projects.map ProjectEntry.call))
  | custom =>
      joinSections m.look.spacing (m.content.customSections.map (CustomEntry.block style))
  | certifications => style.wrap "Certifications" (plainList m.content.certifications)
  | positions =>
      style.wrap "Positions of Responsibility"
        (plainList (m.content.positions.map PositionEntry.line))
  | activities =>
      style.wrap "Extracurricular Activities"
        (plainList (m.content.activities.map ActivityEntry.line))
  | coursework => style.wrap "Relevant Coursework" (join (code ", ") m.content.coursework)

/-- The block of a section whose order the caller may choose. -/
def ofKey : SectionKey → Block
  | .skills => skills
  | .experience => experience
  | .education => education
  | .projects => projects
  | .custom => custom

/-- The same where there is little room. -/
def ofKeyShort : SectionKey → Block
  | .education => shortEducation
  | key => ofKey key

end Block

/-- The sections of a region, in the order in which they are shown. -/
def composeRegion (m : Manuscript) (style : SectionStyle) (region : List SectionKey) :
    List Source :=
  (m.look.arrange region).map fun key => (Block.ofKey key).compose m style

end Vitae
