/-
Module: Vitae.Proofs.Document.Tidy
Layer: Proofs
Purpose: Blank input is invisible. A resume has a tidy form, with the space around its texts dropped and
  with nothing left in it that says nothing, and both make the same document, or fail alike.
Imports: Vitae.Document, Vitae.Proofs.Text.Lines
Main exports: Resume.tidy, ofResume_tidy, generate_tidy
-/
import Vitae.Document
import Vitae.Proofs.Text.Lines

namespace Vitae

open Tex Text

/-! ### Tidy resumes -/

/-- The texts of a list that say anything, without the space around them. -/
def tidyTexts (raw : List String) : List String :=
  (raw.filter hasText).map trim

/-- An optional text without the space around it, absent where it is blank. -/
def tidyOption (raw : Option String) : Option String :=
  raw.bind visible?

/-- A job without space around its texts and without blank bullets. -/
def Experience.tidy (e : Experience) : Experience where
  company := trim e.company
  role := trim e.role
  bullets := tidyTexts e.bullets
  startDate := tidyOption e.startDate
  endDate := tidyOption e.endDate

/-- A course of study without space around its texts. -/
def Education.tidy (e : Education) : Education where
  school := trim e.school
  degree := trim e.degree
  startDate := tidyOption e.startDate
  endDate := tidyOption e.endDate

/-- A link without space around its texts. -/
def Link.tidy (l : Link) : Link where
  label := trim l.label
  url := trim l.url

/-- A project without space around its texts. -/
def Project.tidy (p : Project) : Project where
  name := trim p.name
  technologies := tidyOption p.technologies
  link := tidyOption p.link
  description := tidyOption p.description

/-- A section of the user's own without space around its texts. The space inside its content stays. -/
def CustomSection.tidy (s : CustomSection) : CustomSection where
  id := trim s.id
  title := trim s.title
  content := trim s.content

/-- A position of responsibility without space around its texts. -/
def Position.tidy (p : Position) : Position where
  title := trim p.title
  organization := trim p.organization
  date := trim p.date

/-- An activity without space around its texts. -/
def Activity.tidy (a : Activity) : Activity where
  name := trim a.name
  description := trim a.description

/-- The tidy entries of a list, without those that say nothing. -/
def tidyEntries {α : Type} (isMeaningful : α → Bool) (tidy : α → α) (entries : List α) : List α :=
  (entries.filter isMeaningful).map tidy

/-- Academic extras without what says nothing. -/
def Extras.tidy (x : Extras) : Extras where
  certifications := tidyTexts x.certifications
  positions := tidyEntries Position.isMeaningful Position.tidy x.positions
  activities := tidyEntries Activity.isMeaningful Activity.tidy x.activities
  coursework := tidyTexts x.coursework

/-- The extras, unless all of their lists are empty. -/
def Extras.unlessEmpty (x : Extras) : Option Extras :=
  if x.certifications.isEmpty && x.positions.isEmpty && x.activities.isEmpty && x.coursework.isEmpty then
    none
  else some x

/-- A resume without the space around its texts, and without what says nothing. -/
def Resume.tidy (r : Resume) : Resume where
  name := trim r.name
  title := trim r.title
  email := trim r.email
  phone := trim r.phone
  location := trim r.location
  website := trim r.website
  summary := trim r.summary
  experiences := tidyEntries Experience.isMeaningful Experience.tidy r.experiences
  education := tidyEntries Education.isMeaningful Education.tidy r.education
  skills := tidyTexts r.skills
  links := tidyEntries Link.isMeaningful Link.tidy r.links
  projects := tidyEntries Project.isMeaningful Project.tidy r.projects
  customSections := tidyEntries CustomSection.isMeaningful CustomSection.tidy r.customSections
  extras := r.extras.bind fun x => x.tidy.unlessEmpty

/-! ### Texts -/

@[simp] theorem text_trim (raw : String) : text (trim raw) = text raw := by
  rw [text, text, hasText_trim, trim_trim]

theorem hasText_tidyTexts (raw : List String) : (tidyTexts raw).any hasText = raw.any hasText := by
  rw [tidyTexts, List.any_map, List.any_filter]
  congr 1
  funext s
  simp

@[simp] theorem textItems_tidyTexts (raw : List String) : textItems (tidyTexts raw) = textItems raw := by
  have kept : (tidyTexts raw).filter hasText = tidyTexts raw := by
    rw [List.filter_eq_self]
    intro s member
    obtain ⟨t, among, rfl⟩ := List.mem_map.1 member
    rw [hasText_trim]
    exact (List.mem_filter.1 among).2
  rw [textItems, kept, tidyTexts, List.map_map, textItems]
  refine List.map_congr_left fun s _ => ?_
  rw [Function.comp_apply, text_trim]

/-- An optional text is blank or tidy. -/
theorem tidyOption_cases (raw : Option String) :
    (hasText? raw = false ∧ tidyOption raw = none) ∨
      ∃ s, raw = some s ∧ hasText s = true ∧ tidyOption raw = some (trim s) := by
  cases raw with
  | none => exact .inl ⟨rfl, rfl⟩
  | some s =>
      cases visible : hasText s with
      | false => exact .inl ⟨visible, by simp [tidyOption, visible?, visible]⟩
      | true => exact .inr ⟨s, rfl, visible, by simp [tidyOption, visible?, visible]⟩

@[simp] theorem hasText?_tidyOption (raw : Option String) : hasText? (tidyOption raw) = hasText? raw := by
  rcases tidyOption_cases raw with ⟨blank, none⟩ | ⟨s, rfl, visible, some⟩
  · rw [none, blank]
    rfl
  · rw [some, hasText?, hasText?, Option.any_some, Option.any_some, hasText_trim]

/-- What is typeset of an optional text does not depend on the space around it, if that holds of the texts
that it may be. -/
theorem getD_tidyOption {β : Type} (f : String → β) (trimmed : ∀ s, f (trim s) = f s)
    (raw : Option String) : f ((tidyOption raw).getD "") = f (raw.getD "") := by
  have blank : ∀ s, hasText s = false → f s = f "" := by
    intro s h
    rw [← trimmed s, hasText_eq_false_iff_trim.1 h]
  rcases tidyOption_cases raw with ⟨invisible, none⟩ | ⟨s, rfl, -, some⟩
  · rw [none]
    cases raw with
    | none => rfl
    | some s => exact (blank s invisible).symm
  · rw [some]
    exact trimmed s

@[simp] theorem period_tidyOption (start finish : Option String) :
    period (tidyOption start) (tidyOption finish) = period start finish := by
  have trimmed : ∀ s, text (showDate (trim s)) = text (showDate s) := by
    intro s
    rw [showDate_trim]
  have same : ∀ date, dateSource (tidyOption date) = dateSource date := by
    intro date
    exact getD_tidyOption (fun s => text (showDate s)) trimmed date
  rw [period, period, same, same]

@[simp] theorem linkTo_trim (address : String) (shown : Source) :
    linkTo (trim address) shown = linkTo address shown := by
  rw [linkTo, linkTo, hrefTarget, hrefTarget, trim_trim]

/-- The paragraphs of a text are the lines that it shows. -/
theorem paragraphs_eq (content : String) :
    paragraphs content =
      join (code "\\par\n") ((shownLines content.toList).map fun line => [.text (String.ofList line)]) := by
  have items : ∀ lines : List (List Char), textItems (lines.map String.ofList) =
      (lines.filterMap shownLine?).map fun line => [Piece.text (String.ofList line)] := by
    intro lines
    induction lines with
    | nil => rfl
    | cons line others ih =>
        have seen := hasText_ofList line
        rw [List.filterMap_cons, shownLine?]
        cases blank : line.all isSpace with
        | true => simpa [textItems, seen, blank] using ih
        | false => simpa [textItems, seen, blank, text, trim] using ih
  rw [paragraphs, items, shownLines]

@[simp] theorem paragraphs_trim (content : String) : paragraphs (trim content) = paragraphs content := by
  rw [paragraphs_eq, paragraphs_eq, trim, String.toList_ofList, shownLines_trimChars]

/-! ### Entries -/

/-- A tidy entry says as much as the entry, and is typeset like it. -/
structure IsTidied {α β : Type} (isMeaningful : α → Bool) (typeset : α → β) (tidy : α → α) : Prop where
  meaningful : ∀ a, isMeaningful (tidy a) = isMeaningful a
  same : ∀ a, typeset (tidy a) = typeset a

/-- Tidy entries that say anything are typeset as the entries that say anything. -/
theorem IsTidied.entries {α β : Type} {isMeaningful : α → Bool} {typeset : α → β} {tidy : α → α}
    (h : IsTidied isMeaningful typeset tidy) (entries : List α) :
    ((tidyEntries isMeaningful tidy entries).filter isMeaningful).map typeset =
      (entries.filter isMeaningful).map typeset := by
  have kept : (tidyEntries isMeaningful tidy entries).filter isMeaningful =
      tidyEntries isMeaningful tidy entries := by
    rw [List.filter_eq_self]
    intro a member
    obtain ⟨b, among, rfl⟩ := List.mem_map.1 member
    rw [h.meaningful]
    exact (List.mem_filter.1 among).2
  rw [kept, tidyEntries, List.map_map]
  exact List.map_congr_left fun a _ => h.same a

theorem tidied_experience (s : Spacing) :
    IsTidied Experience.isMeaningful (Experience.entry s) Experience.tidy where
  meaningful e := by simp [Experience.isMeaningful, Experience.tidy, hasText_tidyTexts]
  same e := by simp [Experience.entry, Experience.tidy]

theorem tidied_education : IsTidied Education.isMeaningful Education.entry Education.tidy where
  meaningful e := by simp [Education.isMeaningful, Education.tidy]
  same e := by simp [Education.entry, Education.tidy]

theorem tidied_link : IsTidied Link.isMeaningful Link.source? Link.tidy where
  meaningful l := by simp [Link.isMeaningful, Link.tidy]
  same l := by simp [Link.source?, Link.tidy]

/-- The name of a project and the address behind it. -/
theorem heading_tidy (p : Project) : p.tidy.heading = p.heading := by
  unfold Project.heading Project.tidy
  dsimp only
  rcases tidyOption_cases p.link with ⟨-, none⟩ | ⟨address, -, visible, some⟩
  · have blank : p.link.bind visible? = .none := none
    rw [none, blank]
    exact text_trim p.name
  · have shown : p.link.bind visible? = .some (trim address) := some
    have again : (tidyOption p.link).bind visible? = .some (trim address) := by
      rw [some, Option.bind_some, visible?, hasText_trim, if_pos visible, trim_trim]
    rw [again, shown]
    dsimp only
    rw [hasText_trim]
    cases hasText p.name <;> simp

theorem tidied_project : IsTidied Project.isMeaningful Project.entry Project.tidy where
  meaningful p := by simp [Project.isMeaningful, Project.tidy]
  same p := by
    have field := getD_tidyOption text text_trim
    rw [Project.entry, Project.entry, heading_tidy]
    simp only [Project.tidy, field]

theorem tidied_customSection :
    IsTidied CustomSection.isMeaningful CustomSection.entry CustomSection.tidy where
  meaningful s := by simp [CustomSection.isMeaningful, CustomSection.tidy]
  same s := by simp [CustomSection.entry, CustomSection.tidy]

theorem tidied_position : IsTidied Position.isMeaningful Position.entry Position.tidy where
  meaningful p := by simp [Position.isMeaningful, Position.tidy]
  same p := by simp [Position.entry, Position.tidy, showDate_trim]

theorem tidied_activity : IsTidied Activity.isMeaningful Activity.entry Activity.tidy where
  meaningful a := by simp [Activity.isMeaningful, Activity.tidy]
  same a := by simp [Activity.entry, Activity.tidy]

/-! ### Documents -/

theorem contactItems_tidy (r : Resume) : contactItems r.tidy = contactItems r := by
  simp [contactItems, itemOf, Resume.tidy]

theorem linkItems_tidy (links : List Link) :
    linkItems (tidyEntries Link.isMeaningful Link.tidy links) = linkItems links := by
  have flat : ∀ links : List Link, linkItems links =
      ((links.filter Link.isMeaningful).map Link.source?).filterMap id := by
    intro links
    rw [linkItems, List.filterMap_map]
    rfl
  rw [flat, flat, tidied_link.entries]

/-- Extras that are left out say as much as empty ones. -/
theorem getD_unlessEmpty (x : Extras) : x.unlessEmpty.getD {} = x := by
  unfold Extras.unlessEmpty
  split
  case isTrue empty =>
    simp only [Bool.and_eq_true, List.isEmpty_iff] at empty
    obtain ⟨⟨⟨certifications, positions⟩, activities⟩, coursework⟩ := empty
    cases x
    simp_all
  case isFalse => rfl

theorem getD_extras_tidy (r : Resume) : r.tidy.extras.getD {} = (r.extras.getD {}).tidy := by
  cases given : r.extras with
  | none => simp [Resume.tidy, given, Extras.tidy, tidyTexts, tidyEntries]
  | some x => simp [Resume.tidy, given, getD_unlessEmpty]

/-- A tidy resume has the same content. -/
theorem ofResume_tidy (r : Resume) (s : Spacing) :
    Content.ofResume r.tidy s = Content.ofResume r s := by
  have extras := getD_extras_tidy r
  have contact := contactItems_tidy r
  unfold Content.ofResume
  rw [extras, contact]
  simp [Resume.tidy, Extras.tidy, linkItems_tidy, (tidied_experience s).entries,
    tidied_education.entries, tidied_project.entries, tidied_customSection.entries,
    tidied_position.entries, tidied_activity.entries]

/-- Blank input is invisible: a resume and its tidy form make the same document in every design and for all
options, with the same reports. There is none exactly where the name is blank. -/
theorem generate_tidy (r : Resume) (key : TemplateKey) (o : StyleOptions) :
    generate r.tidy key o = generate r key o ∧
      ((generate r key o).value = .error .missingName ↔ hasText r.name = false) := by
  constructor
  · have named : hasText r.tidy.name = hasText r.name := hasText_trim r.name
    have ready : Manuscript.ofResume r.tidy o = Manuscript.ofResume r o := by
      unfold Manuscript.ofResume
      simp only [ofResume_tidy]
    rw [generate, generate, named, ready]
  · unfold generate
    cases named : hasText r.name with
    | true => simp
    | false => simp

end Vitae
