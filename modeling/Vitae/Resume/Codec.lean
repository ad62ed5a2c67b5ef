/-
Module: Vitae.Resume.Codec
Layer: Resume
Purpose: Resumes in JSON. Every field may be left out, and is then empty or absent.
Imports: Vitae.Json.Codec, Vitae.Resume.Basic
Main exports: Resume.codec and the codec of each kind of entry
-/
import Vitae.Json.Codec
import Vitae.Resume.Basic

namespace Vitae

open Json (Codec Field Record)

/-- The codec of a list of texts. -/
def textList : Codec (List String) :=
  .list .text

/-- The codec of a text that may be absent. -/
def optionalText : Codec (Option String) :=
  .optional .text

/-- The fields of a job. -/
def Experience.record : Record Experience where
  blank := {}
  fields :=
    [.of "company" .text (·.company) fun x e => { e with company := x },
     .of "role" .text (·.role) fun x e => { e with role := x },
     .of "bullets" textList (·.bullets) fun x e => { e with bullets := x },
     .of "startDate" optionalText (·.startDate) fun x e => { e with startDate := x },
     .of "endDate" optionalText (·.endDate) fun x e => { e with endDate := x }]

/-- Jobs in JSON. -/
def Experience.codec : Codec Experience :=
  Experience.record.codec

/-- The fields of a course of study. -/
def Education.record : Record Education where
  blank := {}
  fields :=
    [.of "school" .text (·.school) fun x e => { e with school := x },
     .of "degree" .text (·.degree) fun x e => { e with degree := x },
     .of "startDate" optionalText (·.startDate) fun x e => { e with startDate := x },
     .of "endDate" optionalText (·.endDate) fun x e => { e with endDate := x }]

/-- Courses of study in JSON. -/
def Education.codec : Codec Education :=
  Education.record.codec

/-- The fields of a link. -/
def Link.record : Record Link where
  blank := {}
  fields :=
    [.of "label" .text (·.label) fun x l => { l with label := x },
     .of "url" .text (·.url) fun x l => { l with url := x }]

/-- Links in JSON. -/
def Link.codec : Codec Link :=
  Link.record.codec

/-- The fields of a project. -/
def Project.record : Record Project where
  blank := {}
  fields :=
    [.of "name" .text (·.name) fun x p => { p with name := x },
     .of "technologies" optionalText (·.technologies) fun x p => { p with technologies := x },
     .of "link" optionalText (·.link) fun x p => { p with link := x },
     .of "description" optionalText (·.description) fun x p => { p with description := x }]

/-- Projects in JSON. -/
def Project.codec : Codec Project :=
  Project.record.codec

/-- The fields of a section of the user's own. -/
def CustomSection.record : Record CustomSection where
  blank := {}
  fields :=
    [.of "id" .text (·.id) fun x s => { s with id := x },
     .of "title" .text (·.title) fun x s => { s with title := x },
     .of "content" .text (·.content) fun x s => { s with content := x }]

/-- Sections of the user's own in JSON. -/
def CustomSection.codec : Codec CustomSection :=
  CustomSection.record.codec

/-- The fields of a position of responsibility. -/
def Position.record : Record Position where
  blank := {}
  fields :=
    [.of "title" .text (·.title) fun x p => { p with title := x },
     .of "organization" .text (·.organization) fun x p => { p with organization := x },
     .of "date" .text (·.date) fun x p => { p with date := x }]

/-- Positions of responsibility in JSON. -/
def Position.codec : Codec Position :=
  Position.record.codec

/-- The fields of an activity. -/
def Activity.record : Record Activity where
  blank := {}
  fields :=
    [.of "name" .text (·.name) fun x a => { a with name := x },
     .of "description" .text (·.description) fun x a => { a with description := x }]

/-- Activities in JSON. -/
def Activity.codec : Codec Activity :=
  Activity.record.codec

/-- The fields of the academic extras. -/
def Extras.record : Record Extras where
  blank := {}
  fields :=
    [.of "certifications" textList (·.certifications) fun x e => { e with certifications := x },
     .of "positions" (.list Position.codec) (·.positions) fun x e => { e with positions := x },
     .of "activities" (.list Activity.codec) (·.activities) fun x e => { e with activities := x },
     .of "coursework" textList (·.coursework) fun x e => { e with coursework := x }]

/-- Academic extras in JSON. -/
def Extras.codec : Codec Extras :=
  Extras.record.codec

/-- The fields of a resume. -/
def Resume.record : Record Resume where
  blank := {}
  fields :=
    [.of "name" .text (·.name) fun x r => { r with name := x },
     .of "title" .text (·.title) fun x r => { r with title := x },
     .of "email" .text (·.email) fun x r => { r with email := x },
     .of "phone" .text (·.phone) fun x r => { r with phone := x },
     .of "location" .text (·.location) fun x r => { r with location := x },
     .of "website" .text (·.website) fun x r => { r with website := x },
     .of "summary" .text (·.summary) fun x r => { r with summary := x },
     .of "experiences" (.list Experience.codec) (·.experiences)
       fun x r => { r with experiences := x },
     .of "education" (.list Education.codec) (·.education) fun x r => { r with education := x },
     .of "skills" textList (·.skills) fun x r => { r with skills := x },
     .of "links" (.list Link.codec) (·.links) fun x r => { r with links := x },
     .of "projects" (.list Project.codec) (·.projects) fun x r => { r with projects := x },
     .of "customSections" (.list CustomSection.codec) (·.customSections)
       fun x r => { r with customSections := x },
     .of "extras" (.optional Extras.codec) (·.extras) fun x r => { r with extras := x }]

/-- Resumes in JSON. -/
def Resume.codec : Codec Resume :=
  Resume.record.codec

end Vitae
