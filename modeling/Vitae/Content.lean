/-
Module: Vitae.Content
Layer: Manuscript
Purpose: The content of a document: every field of a resume typeset, and the entries that say nothing
  dropped.
Imports: Vitae.Text.Lines, Vitae.Typeset.Contact, Vitae.Typeset.ItemList, Vitae.Typeset.Period
Main exports: Content and its entries, Content.ofResume, paragraphs
-/
import Vitae.Text.Lines
import Vitae.Typeset.Contact
import Vitae.Typeset.ItemList
import Vitae.Typeset.Period

namespace Vitae

open Tex Text

/-- A job, typeset. Its bullets are a complete list, or nothing. -/
structure ExperienceEntry where
  role : Source
  company : Source
  dates : Source
  bullets : Source
deriving Repr, DecidableEq

/-- A course of study, typeset. -/
structure EducationEntry where
  school : Source
  degree : Source
  dates : Source
deriving Repr, DecidableEq

/-- A project, typeset. Its name is a link if the project has an address. -/
structure ProjectEntry where
  name : Source
  technologies : Source
  description : Source
deriving Repr, DecidableEq

/-- A section of the user's own, typeset. -/
structure CustomEntry where
  title : Source
  content : Source
deriving Repr, DecidableEq

/-- A position of responsibility, typeset. -/
structure PositionEntry where
  title : Source
  organization : Source
  date : Source
deriving Repr, DecidableEq

/-- An activity, typeset. -/
structure ActivityEntry where
  name : Source
  description : Source
deriving Repr, DecidableEq

/-- The content of a document. -/
structure Content where
  name : Source
  title : Source
  email : Source
  phone : Source
  location : Source
  summary : Source
  contactItems : List Source
  links : List Source
  experiences : List ExperienceEntry
  education : List EducationEntry
  skills : List Source
  projects : List ProjectEntry
  customSections : List CustomEntry
  certifications : List Source
  positions : List PositionEntry
  activities : List ActivityEntry
  coursework : List Source
deriving Repr, DecidableEq

/-- Text of several lines: each line that has text is a paragraph. -/
def paragraphs (content : String) : Source :=
  join (code "\\par\n") (textItems ((splitLines content.toList).map String.ofList))

/-- Typeset a job. -/
def Experience.entry (s : Spacing) (e : Experience) : ExperienceEntry where
  role := text e.role
  company := text e.company
  dates := period e.startDate e.endDate
  bullets := bulletList (textItems e.bullets) s

/-- Typeset a course of study. -/
def Education.entry (e : Education) : EducationEntry where
  school := text e.school
  degree := text e.degree
  dates := period e.startDate e.endDate

/-- The name of a project. A project without a name that has an address shows the address. -/
def Project.heading (p : Project) : Source :=
  match p.link.bind visible? with
  | some address => linkTo address (text (if hasText p.name then p.name else address))
  | none => text p.name

/-- Typeset a project. -/
def Project.entry (p : Project) : ProjectEntry where
  name := p.heading
  technologies := text (p.technologies.getD "")
  description := text (p.description.getD "")

/-- Typeset a section of the user's own. -/
def CustomSection.entry (s : CustomSection) : CustomEntry where
  title := text s.title
  content := paragraphs s.content

/-- Typeset a position of responsibility. -/
def Position.entry (p : Position) : PositionEntry where
  title := text p.title
  organization := text p.organization
  date := text (showDate p.date)

/-- Typeset an activity. -/
def Activity.entry (a : Activity) : ActivityEntry where
  name := text a.name
  description := text a.description

/-- Typeset a resume. Entries that say nothing are dropped. -/
def Content.ofResume (r : Resume) (s : Spacing) : Content :=
  let extras := r.extras.getD {}
  { name := text r.name
    title := text r.title
    email := text r.email
    phone := text r.phone
    location := text r.location
    summary := text r.summary
    contactItems := Vitae.contactItems r
    links := linkItems r.links
    experiences := (r.experiences.filter Experience.isMeaningful).map (Experience.entry s)
    education := (r.education.filter Education.isMeaningful).map Education.entry
    skills := textItems r.skills
    projects := (r.projects.filter Project.isMeaningful).map Project.entry
    customSections :=
      (r.customSections.filter CustomSection.isMeaningful).map CustomSection.entry
    certifications := textItems extras.certifications
    positions := (extras.positions.filter Position.isMeaningful).map Position.entry
    activities := (extras.activities.filter Activity.isMeaningful).map Activity.entry
    coursework := textItems extras.coursework }

/-- The contact items in one line. -/
def Content.contactLine (c : Content) : Source :=
  Vitae.contactLine c.contactItems

/-- The contact items and the links in one line. -/
def Content.fullContactLine (c : Content) : Source :=
  Vitae.contactLine (c.contactItems ++ c.links)

end Vitae
