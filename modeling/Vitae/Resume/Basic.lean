/-
Module: Vitae.Resume.Basic
Layer: Resume
Purpose: What a resume holds, and which of its entries say anything.
Imports: Vitae.Text.Space
Main exports: Resume and its entries, isMeaningful for each kind of entry
-/
import Vitae.Text.Space

namespace Vitae

open Text (hasText hasText?)

/-- A job. -/
structure Experience where
  company : String := ""
  role : String := ""
  bullets : List String := []
  startDate : Option String := none
  endDate : Option String := none
deriving Repr, DecidableEq

/-- A course of study. -/
structure Education where
  school : String := ""
  degree : String := ""
  startDate : Option String := none
  endDate : Option String := none
deriving Repr, DecidableEq

/-- An address on the web with the text to show for it. -/
structure Link where
  label : String := ""
  url : String := ""
deriving Repr, DecidableEq

/-- A project, which may have an address. -/
structure Project where
  name : String := ""
  technologies : Option String := none
  link : Option String := none
  description : Option String := none
deriving Repr, DecidableEq

/-- A part of the resume that the user names. Each line of its content is a paragraph. -/
structure CustomSection where
  id : String := ""
  title : String := ""
  content : String := ""
deriving Repr, DecidableEq

/-- A position of responsibility. -/
structure Position where
  title : String := ""
  organization : String := ""
  date : String := ""
deriving Repr, DecidableEq

/-- Something done besides work and study. -/
structure Activity where
  name : String := ""
  description : String := ""
deriving Repr, DecidableEq

/-- What an academic resume adds. -/
structure Extras where
  certifications : List String := []
  positions : List Position := []
  activities : List Activity := []
  coursework : List String := []
deriving Repr, DecidableEq

/-- A resume as its owner typed it. -/
structure Resume where
  name : String := ""
  title : String := ""
  email : String := ""
  phone : String := ""
  location : String := ""
  website : String := ""
  summary : String := ""
  experiences : List Experience := []
  education : List Education := []
  skills : List String := []
  links : List Link := []
  projects : List Project := []
  customSections : List CustomSection := []
  extras : Option Extras := none
deriving Repr, DecidableEq

/-- Some field of the job has visible content. -/
def Experience.isMeaningful (e : Experience) : Bool :=
  hasText e.company || hasText e.role || e.bullets.any hasText ||
    hasText? e.startDate || hasText? e.endDate

/-- Some field of the course of study has visible content. -/
def Education.isMeaningful (e : Education) : Bool :=
  hasText e.school || hasText e.degree || hasText? e.startDate || hasText? e.endDate

/-- The link has a label or an address. -/
def Link.isMeaningful (l : Link) : Bool :=
  hasText l.label || hasText l.url

/-- Some field of the project has visible content. -/
def Project.isMeaningful (p : Project) : Bool :=
  hasText p.name || hasText? p.technologies || hasText? p.link || hasText? p.description

/-- The section has a title or content. Its id is not visible. -/
def CustomSection.isMeaningful (s : CustomSection) : Bool :=
  hasText s.title || hasText s.content

/-- Some field of the position has visible content. -/
def Position.isMeaningful (p : Position) : Bool :=
  hasText p.title || hasText p.organization || hasText p.date

/-- Some field of the activity has visible content. -/
def Activity.isMeaningful (a : Activity) : Bool :=
  hasText a.name || hasText a.description

end Vitae
