/-
Module: Vitae.Proofs.Document.Shape
Layer: Proofs
Purpose: The shape of a resume: which of its fields are blank, and how many entries, items and lines of each
  kind say anything. Resumes of one shape are typeset alike, up to what their texts say.
Imports: Vitae.Proofs.Section.Mask, Vitae.Proofs.Text.Visible
Main exports: Resume.Shape, Resume.shape, mask_ofResume
-/
import Vitae.Proofs.Section.Mask
import Vitae.Proofs.Text.Visible

namespace Vitae

open Tex Text

/-! ### Shapes -/

/-- The shape of a job: which fields say anything, and how many bullets. -/
structure Experience.Shape where
  company : Bool
  role : Bool
  bullets : Nat
  startDate : Bool
  endDate : Bool
deriving Repr, DecidableEq

/-- The shape of a course of study. -/
structure Education.Shape where
  school : Bool
  degree : Bool
  startDate : Bool
  endDate : Bool
deriving Repr, DecidableEq

/-- The shape of a link. -/
structure Link.Shape where
  label : Bool
  url : Bool
deriving Repr, DecidableEq

/-- The shape of a project. -/
structure Project.Shape where
  name : Bool
  technologies : Bool
  link : Bool
  description : Bool
deriving Repr, DecidableEq

/-- The shape of a section of the user's own: whether it has a title and content, and how many lines of
its content say anything. -/
structure CustomSection.Shape where
  title : Bool
  content : Bool
  lines : Nat
deriving Repr, DecidableEq

/-- The shape of a position of responsibility. -/
structure Position.Shape where
  title : Bool
  organization : Bool
  date : Bool
deriving Repr, DecidableEq

/-- The shape of an activity. -/
structure Activity.Shape where
  name : Bool
  description : Bool
deriving Repr, DecidableEq

/-- The shape of a resume. Entries and items that say nothing do not count. -/
structure Resume.Shape where
  name : Bool
  title : Bool
  email : Bool
  phone : Bool
  location : Bool
  website : Bool
  summary : Bool
  experiences : List Experience.Shape
  education : List Education.Shape
  skills : Nat
  links : List Link.Shape
  projects : List Project.Shape
  customSections : List CustomSection.Shape
  certifications : Nat
  positions : List Position.Shape
  activities : List Activity.Shape
  coursework : Nat
deriving Repr, DecidableEq

/-- How many texts of a list say anything. -/
def visibleCount (raw : List String) : Nat :=
  (raw.filter hasText).length

/-- The lines of a text. -/
def contentLines (content : String) : List String :=
  (splitLines content.toList).map String.ofList

/-- The shape of a job. -/
def Experience.shape (e : Experience) : Experience.Shape :=
  ⟨hasText e.company, hasText e.role, visibleCount e.bullets, hasText? e.startDate, hasText? e.endDate⟩

/-- The shape of a course of study. -/
def Education.shape (e : Education) : Education.Shape :=
  ⟨hasText e.school, hasText e.degree, hasText? e.startDate, hasText? e.endDate⟩

/-- The shape of a link. -/
def Link.shape (l : Link) : Link.Shape :=
  ⟨hasText l.label, hasText l.url⟩

/-- The shape of a project. -/
def Project.shape (p : Project) : Project.Shape :=
  ⟨hasText p.name, hasText? p.technologies, hasText? p.link, hasText? p.description⟩

/-- The shape of a section of the user's own. -/
def CustomSection.shape (s : CustomSection) : CustomSection.Shape :=
  ⟨hasText s.title, hasText s.content, visibleCount (contentLines s.content)⟩

/-- The shape of a position of responsibility. -/
def Position.shape (p : Position) : Position.Shape :=
  ⟨hasText p.title, hasText p.organization, hasText p.date⟩

/-- The shape of an activity. -/
def Activity.shape (a : Activity) : Activity.Shape :=
  ⟨hasText a.name, hasText a.description⟩

/-- The shape of a resume. -/
def Resume.shape (r : Resume) : Resume.Shape :=
  let extras := r.extras.getD {}
  { name := hasText r.name
    title := hasText r.title
    email := hasText r.email
    phone := hasText r.phone
    location := hasText r.location
    website := hasText r.website
    summary := hasText r.summary
    experiences := (r.experiences.filter Experience.isMeaningful).map Experience.shape
    education := (r.education.filter Education.isMeaningful).map Education.shape
    skills := visibleCount r.skills
    links := (r.links.filter Link.isMeaningful).map Link.shape
    projects := (r.projects.filter Project.isMeaningful).map Project.shape
    customSections := (r.customSections.filter CustomSection.isMeaningful).map CustomSection.shape
    certifications := visibleCount extras.certifications
    positions := (extras.positions.filter Position.isMeaningful).map Position.shape
    activities := (extras.activities.filter Activity.isMeaningful).map Activity.shape
    coursework := visibleCount extras.coursework }

/-! ### Fields of one shape -/

/-- What a visible text becomes when its own text is taken away. -/
def markText : Source :=
  [.text "x"]

theorem trim_ne_empty {raw : String} (h : hasText raw = true) : (trim raw).isEmpty = false := by
  cases empty : (trim raw).isEmpty with
  | false => rfl
  | true =>
      rw [String.isEmpty_iff, ← hasText_eq_false_iff_trim, h] at empty
      exact absurd empty (by decide)

/-- Of a text only its being visible is left. -/
theorem mask_text (raw : String) : Source.mask (text raw) = if hasText raw then markText else [] := by
  unfold text
  split
  case isTrue visible => simp [Source.mask, Piece.mask, trim_ne_empty visible, markText]
  case isFalse => rfl

/-- Of the items of a list only their number is left. -/
theorem mask_textItems (raw : List String) :
    (textItems raw).map Source.mask = List.replicate (visibleCount raw) markText := by
  have each : ∀ p ∈ (textItems raw).map Source.mask, p = markText := by
    intro p member
    obtain ⟨q, among, rfl⟩ := List.mem_map.1 member
    obtain ⟨s, kept, rfl⟩ := List.mem_map.1 among
    rw [mask_text, if_pos (List.mem_filter.1 kept).2]
  rw [List.eq_replicate_of_mem each]
  simp [textItems, visibleCount]

theorem mask_dateSource (date : Option String) :
    Source.mask (dateSource date) = if hasText? date then markText else [] := by
  have same : hasText (date.getD "") = hasText? date := by
    cases date <;> rfl
  rw [dateSource, mask_text, hasText_showDate, same]

theorem mask_period (start finish : Option String) :
    Source.mask (period start finish) = joinNonEmpty dateSeparator
      [if hasText? start then markText else [], if hasText? finish then markText else []] := by
  rw [period, Source.mask_joinNonEmpty, List.map_cons, List.map_cons, List.map_nil, mask_dateSource,
    mask_dateSource]
  rfl

theorem hrefTarget_ne_empty {address : String} (visible : hasText address = true) :
    (hrefTarget address).isEmpty = false := by
  unfold hrefTarget
  dsimp only
  split
  · exact trim_ne_empty visible
  · rw [Bool.eq_false_iff]
    intro empty
    rw [String.isEmpty_iff, ← String.toList_eq_nil_iff, String.toList_append] at empty
    exact absurd (List.append_eq_nil_iff.1 empty).1 (by decide)

/-- Of a link only its being there is left, and what it shows. -/
theorem mask_linkTo {address : String} (shown : Source) (visible : hasText address = true) :
    Source.mask (linkTo address shown) = href [.url "x"] (Source.mask shown) := by
  rw [linkTo, Source.mask_href]
  simp [Source.mask, Piece.mask, hrefTarget_ne_empty visible]

/-! ### Entries of one shape -/

/-- Lists whose entries have one shape are typeset alike. -/
theorem map_congr_shape {α β γ : Type} {shape : α → β} {typeset : α → γ}
    (h : ∀ a b, shape a = shape b → typeset a = typeset b) {xs ys : List α}
    (same : xs.map shape = ys.map shape) : xs.map typeset = ys.map typeset := by
  induction xs generalizing ys with
  | nil =>
      cases ys with
      | nil => rfl
      | cons y ys => simp at same
  | cons x xs ih =>
      cases ys with
      | nil => simp at same
      | cons y ys =>
          simp only [List.map_cons, List.cons.injEq] at same
          rw [List.map_cons, List.map_cons, h x y same.1, ih same.2]

theorem mask_experience (s : Spacing) (a b : Experience) (h : a.shape = b.shape) :
    (a.entry s).mask = (b.entry s).mask := by
  simp only [Experience.shape, Experience.Shape.mk.injEq] at h
  obtain ⟨company, role, bullets, start, finish⟩ := h
  simp only [ExperienceEntry.mask, Experience.entry, mask_text, mask_period, bulletList, mask_itemize,
    mask_textItems, company, role, bullets, start, finish]

theorem mask_education (a b : Education) (h : a.shape = b.shape) : a.entry.mask = b.entry.mask := by
  simp only [Education.shape, Education.Shape.mk.injEq] at h
  obtain ⟨school, degree, start, finish⟩ := h
  simp only [EducationEntry.mask, Education.entry, mask_text, mask_period, school, degree, start, finish]

theorem mask_link (a b : Link) (h : a.shape = b.shape) :
    a.source?.map Source.mask = b.source?.map Source.mask := by
  simp only [Link.shape, Link.Shape.mk.injEq] at h
  obtain ⟨label, url⟩ := h
  unfold Link.source?
  rw [label, url]
  cases shown : hasText b.label <;> cases linked : hasText b.url <;> rw [shown] at label <;>
    rw [linked] at url <;> simp [mask_linkTo, mask_text, label, url, shown, linked]

/-- What a project is called, up to its text. -/
theorem mask_heading (p : Project) :
    Source.mask p.heading = if hasText? p.link then href [.url "x"] markText
      else if hasText p.name then markText else [] := by
  unfold Project.heading
  cases linked : p.link with
  | none => simp [mask_text, hasText?]
  | some address =>
      cases visible : hasText address with
      | false => simp [visible?, visible, mask_text, hasText?]
      | true =>
          have shown : hasText (if hasText p.name then p.name else trim address) = true := by
            split
            · assumption
            · rw [hasText_trim, visible]
          have target : hasText (trim address) = true := by rw [hasText_trim, visible]
          simp [visible?, visible, hasText?, mask_linkTo _ target, mask_text, shown]

theorem mask_project (a b : Project) (h : a.shape = b.shape) : a.entry.mask = b.entry.mask := by
  have optional : ∀ field : Option String, hasText (field.getD "") = hasText? field := by
    intro field
    cases field <;> rfl
  simp only [Project.shape, Project.Shape.mk.injEq] at h
  obtain ⟨name, technologies, link, description⟩ := h
  simp only [ProjectEntry.mask, Project.entry, mask_heading, mask_text, optional, name, technologies,
    link, description]

theorem mask_customSection (a b : CustomSection) (h : a.shape = b.shape) :
    a.entry.mask = b.entry.mask := by
  simp only [CustomSection.shape, CustomSection.Shape.mk.injEq, contentLines] at h
  obtain ⟨title, -, lines⟩ := h
  simp only [CustomEntry.mask, CustomSection.entry, paragraphs, mask_text, Source.mask_join,
    mask_textItems, title, lines]

theorem mask_position (a b : Position) (h : a.shape = b.shape) : a.entry.mask = b.entry.mask := by
  simp only [Position.shape, Position.Shape.mk.injEq] at h
  obtain ⟨title, organization, date⟩ := h
  simp only [PositionEntry.mask, Position.entry, mask_text, hasText_showDate, title, organization, date]

theorem mask_activity (a b : Activity) (h : a.shape = b.shape) : a.entry.mask = b.entry.mask := by
  simp only [Activity.shape, Activity.Shape.mk.injEq] at h
  obtain ⟨name, description⟩ := h
  simp only [ActivityEntry.mask, Activity.entry, mask_text, name, description]

/-! ### Resumes of one shape -/

theorem mask_itemOf (field : String) (item : Source) :
    (itemOf field item).map Source.mask = if hasText field then [Source.mask item] else [] := by
  unfold itemOf
  split <;> rfl

theorem mask_email {email : String} (visible : hasText email = true) :
    Source.mask (href (code "mailto:" ++ [.url (trim email)]) (text email)) =
      href (code "mailto:" ++ [.url "x"]) markText := by
  have address : Source.mask [.url (trim email)] = [.url "x"] := by
    simp [Source.mask, Piece.mask, trim_ne_empty visible]
  rw [Source.mask_href, Source.mask_append, mask_text, if_pos visible, address]
  rfl

/-- Of the contact items only their being there is left. -/
theorem mask_contactItems (r : Resume) :
    (contactItems r).map Source.mask =
      (if hasText r.email then [href (code "mailto:" ++ [.url "x"]) markText] else []) ++
        (if hasText r.phone then [markText] else []) ++
        (if hasText r.location then [markText] else []) ++
        (if hasText r.website then [href [.url "x"] markText] else []) := by
  have email : (if hasText r.email then
      [Source.mask (href (code "mailto:" ++ [.url (trim r.email)]) (text r.email))] else []) =
        if hasText r.email then [href (code "mailto:" ++ [.url "x"]) markText] else [] := by
    split
    · rw [mask_email (by assumption)]
    · rfl
  have website : (if hasText r.website then
      [Source.mask (linkTo r.website (text r.website))] else []) =
        if hasText r.website then [href [.url "x"] markText] else [] := by
    split
    case isTrue visible => rw [mask_linkTo _ visible, mask_text, if_pos visible]
    case isFalse => rfl
  have own : ∀ field, (if hasText field then [Source.mask (text field)] else []) =
      if hasText field then [markText] else [] := by
    intro field
    rw [mask_text]
    split <;> rfl
  rw [contactItems, List.map_append, List.map_append, List.map_append, mask_itemOf, mask_itemOf,
    mask_itemOf, mask_itemOf, email, website, own, own]

theorem mask_linkItems {a b : List Link}
    (h : (a.filter Link.isMeaningful).map Link.shape = (b.filter Link.isMeaningful).map Link.shape) :
    (linkItems a).map Source.mask = (linkItems b).map Source.mask := by
  have options := map_congr_shape mask_link h
  have flat : ∀ links : List Link, (links.filterMap Link.source?).map Source.mask =
      (links.map fun l => l.source?.map Source.mask).filterMap id := by
    intro links
    rw [List.map_filterMap, List.filterMap_map]
    rfl
  rw [linkItems, linkItems, flat, flat, options]

/-- Entries that count have one shape, so they are typeset alike. -/
theorem map_mask_congr {α β γ : Type} {shape : α → β} {entry : α → γ} {mask : γ → γ}
    (h : ∀ a b, shape a = shape b → mask (entry a) = mask (entry b)) {xs ys : List α}
    (same : xs.map shape = ys.map shape) : (xs.map entry).map mask = (ys.map entry).map mask := by
  rw [List.map_map, List.map_map]
  exact map_congr_shape h same

/-- Resumes of one shape have the same content, up to what their texts say. -/
theorem mask_ofResume {r r' : Resume} (h : r.shape = r'.shape) (s : Spacing) :
    (Content.ofResume r s).mask = (Content.ofResume r' s).mask := by
  simp only [Resume.shape, Resume.Shape.mk.injEq] at h
  obtain ⟨name, title, email, phone, location, website, summary, experiences, education, skills, links,
    projects, customSections, certifications, positions, activities, coursework⟩ := h
  simp only [Content.mask, Content.ofResume, mask_text, mask_textItems, mask_contactItems, name, title,
    email, phone, location, website, summary, skills, certifications, coursework,
    mask_linkItems links, map_mask_congr (mask_experience s) experiences,
    map_mask_congr mask_education education, map_mask_congr mask_project projects,
    map_mask_congr mask_customSection customSections, map_mask_congr mask_position positions,
    map_mask_congr mask_activity activities]

end Vitae
