/-
Module: Vitae.Proofs.Section.Presence
Layer: Proofs
Purpose: A section has a body exactly where the resume says anything in it. Whether an entry says anything is
  decided on what is typed, and what is printed of it has characters in just the same cases.
Imports: Vitae.Proofs.Section.Composition, Vitae.Proofs.Tex.Argument, Vitae.Proofs.Text.Visible
Main exports: isBlank_join, isBlank_command, Resume.hasContent, isBlank_body
-/
import Vitae.Proofs.Section.Composition
import Vitae.Proofs.Tex.Argument
import Vitae.Proofs.Text.Visible

namespace Vitae

open Tex Text

/-! ### Blank source -/

@[simp] theorem isBlank_append (s t : Source) : Source.isBlank (s ++ t) = (s.isBlank && t.isBlank) :=
  List.all_append

theorem isBlank_code {s : String} (h : s ≠ "") : Source.isBlank (code s) = false := by
  simp [code, Source.isBlank, Piece.isEmpty, h]

@[simp] theorem isBlank_command (name : String) (arguments : List Source) :
    Source.isBlank (command name arguments) = false := by
  have word : "\\" ++ name ≠ "" := by
    intro none
    have chars := congrArg String.toList none
    rw [String.toList_append] at chars
    cases chars
  rw [command, isBlank_append, isBlank_code word, Bool.false_and]

@[simp] theorem isBlank_group (body : Source) : Source.isBlank (group body) = false := by
  rw [group, isBlank_append, isBlank_append, isBlank_code (by decide), Bool.false_and, Bool.false_and]

/-- Parts that have characters are blank together only where there are none. -/
theorem isBlank_join {separator : Source} {parts : List Source} (h : ∀ p ∈ parts, p.isBlank = false) :
    Source.isBlank (join separator parts) = parts.isEmpty := by
  cases parts with
  | nil => rfl
  | cons p rest =>
      have first := h p List.mem_cons_self
      cases rest with
      | nil => simpa using first
      | cons q rest => rw [join_cons_cons, isBlank_append, first, Bool.false_and, List.isEmpty_cons]

/-- No part is left where each of them is empty. -/
theorem visible_eq_nil_iff {parts : List Source} :
    (parts.filter fun part => !part.isBlank) = [] ↔ parts.all Source.isBlank = true := by
  rw [List.filter_eq_nil_iff, List.all_eq_true]
  simp

/-- Parts of which the empty ones are left out are blank together where each of them is. -/
theorem isBlank_joinNonEmpty (separator : Source) (parts : List Source) :
    Source.isBlank (joinNonEmpty separator parts) = parts.all Source.isBlank := by
  have kept : ∀ p ∈ parts.filter fun part => !part.isBlank, p.isBlank = false := by
    intro p member
    simpa using (List.mem_filter.1 member).2
  rw [joinNonEmpty, isBlank_join kept, Bool.eq_iff_iff, List.isEmpty_iff, visible_eq_nil_iff]

/-- Where no part is empty, none is left out. -/
theorem joinNonEmpty_visible (separator : Source) {parts : List Source} (h : ∀ p ∈ parts, p.isBlank = false) :
    joinNonEmpty separator parts = join separator parts := by
  have kept : parts.filter (fun part => !part.isBlank) = parts := by
    rw [List.filter_eq_self]
    intro p member
    rw [h p member, Bool.not_false]
  rw [joinNonEmpty, kept]

/-! ### Lists of entries -/

/-- The entries that say anything, typeset, are none where no entry says anything. -/
theorem isEmpty_entries {α β : Type} (isMeaningful : α → Bool) (typeset : α → β) (entries : List α) :
    ((entries.filter isMeaningful).map typeset).isEmpty = !entries.any isMeaningful := by
  rw [List.isEmpty_map, Bool.eq_iff_iff, List.isEmpty_iff, List.filter_eq_nil_iff, Bool.not_eq_true',
    List.any_eq_false]

theorem isEmpty_textItems (raw : List String) : (textItems raw).isEmpty = !raw.any hasText :=
  isEmpty_entries hasText text raw

theorem isBlank_textItems {raw : List String} : ∀ p ∈ textItems raw, p.isBlank = false := by
  intro p member
  obtain ⟨s, among, rfl⟩ := List.mem_map.1 member
  rw [isBlank_text, (List.mem_filter.1 among).2, Bool.not_true]

@[simp] theorem isBlank_itemize (options : String) (items : List Source) :
    Source.isBlank (itemize options items) = items.isEmpty := by
  have opening : "\\begin\x7b" ++ "itemize" ++ "\x7d" ++ options ++ "\n" ≠ "" := by
    intro none
    have chars := congrArg String.toList none
    simp only [String.toList_append] at chars
    cases chars
  unfold itemize
  cases items.isEmpty with
  | true => rfl
  | false =>
      rw [if_neg Bool.false_ne_true, environment, isBlank_append, isBlank_append, isBlank_code opening,
        Bool.false_and, Bool.false_and]

@[simp] theorem isBlank_skillsGrid (items : List Source) (columns : Nat) :
    Source.isBlank (skillsGrid items columns) = items.isEmpty := by
  unfold skillsGrid
  cases items.isEmpty with
  | true => rfl
  | false => exact isBlank_group _

/-- However skills are shown, nothing is shown only where there are none. -/
theorem isBlank_skillsBody (r : Resume) (look : Look) (layout : SkillsLayout) :
    (skillsBody (r.manuscript look) layout).isBlank = !r.skills.any hasText := by
  rw [← isEmpty_textItems]
  cases layout with
  | inline => exact isBlank_join isBlank_textItems
  | bulleted => exact isBlank_itemize _ _
  | grid columns => exact isBlank_skillsGrid _ columns

/-! ### Contact items and links -/

theorem isBlank_itemOf {field : String} {item : Source} (h : hasText field = true → item.isBlank = false) :
    ∀ p ∈ itemOf field item, p.isBlank = false := by
  intro p member
  unfold itemOf at member
  split at member
  case isTrue visible =>
    rw [List.mem_singleton.1 member]
    exact h visible
  case isFalse => cases member

theorem isEmpty_itemOf (field : String) (item : Source) : (itemOf field item).isEmpty = !hasText field := by
  unfold itemOf
  cases hasText field <;> rfl

/-- No contact item is empty. -/
theorem isBlank_contactItems (r : Resume) : ∀ p ∈ contactItems r, p.isBlank = false := by
  have plain : ∀ field, ∀ p ∈ itemOf field (text field), p.isBlank = false := by
    intro field
    refine isBlank_itemOf fun visible => ?_
    rw [isBlank_text, visible, Bool.not_true]
  intro p member
  simp only [contactItems, List.mem_append] at member
  rcases member with ((email | phone) | location) | website
  · exact isBlank_itemOf (fun _ => isBlank_command _ _) p email
  · exact plain r.phone p phone
  · exact plain r.location p location
  · exact isBlank_itemOf (fun _ => isBlank_command _ _) p website

theorem isEmpty_contactItems (r : Resume) :
    (contactItems r).isEmpty = !List.any [r.email, r.phone, r.location, r.website] hasText := by
  have both : ∀ xs ys : List Source, (xs ++ ys).isEmpty = (xs.isEmpty && ys.isEmpty) := by
    intro xs ys
    cases xs <;> rfl
  simp only [contactItems, both, isEmpty_itemOf, List.any_cons, List.any_nil, Bool.not_or, Bool.not_false,
    Bool.and_true, Bool.and_assoc]

/-- A link that says anything is typeset, and has characters. -/
theorem isBlank_link {l : Link} (h : l.isMeaningful = true) : ∃ s, l.source? = some s ∧ s.isBlank = false := by
  unfold Link.source?
  cases label : hasText l.label with
  | true =>
      cases url : hasText l.url with
      | true => exact ⟨_, rfl, isBlank_command _ _⟩
      | false =>
          refine ⟨_, rfl, ?_⟩
          rw [isBlank_text, label, Bool.not_true]
  | false =>
      have url : hasText l.url = true := by simpa [Link.isMeaningful, label] using h
      rw [url]
      exact ⟨_, rfl, isBlank_command _ _⟩

/-- No link is empty. -/
theorem isBlank_linkItems (links : List Link) : ∀ p ∈ linkItems links, p.isBlank = false := by
  intro p member
  obtain ⟨l, among, typeset⟩ := List.mem_filterMap.1 member
  obtain ⟨s, shown, visible⟩ := isBlank_link (List.mem_filter.1 among).2
  rw [shown, Option.some.injEq] at typeset
  rwa [← typeset]

theorem isEmpty_linkItems (links : List Link) :
    (linkItems links).isEmpty = !links.any Link.isMeaningful := by
  rw [Bool.eq_iff_iff, List.isEmpty_iff, linkItems, List.filterMap_eq_nil_iff, Bool.not_eq_true',
    List.any_eq_false]
  constructor
  · intro none l member meaningful
    obtain ⟨s, shown, -⟩ := isBlank_link meaningful
    rw [none l (List.mem_filter.2 ⟨member, meaningful⟩)] at shown
    cases shown
  · intro none l member
    exact absurd (List.mem_filter.1 member).2 (none l (List.mem_filter.1 member).1)

/-! ### Sections -/

/-- The fields of an entry have characters where they say anything. -/
theorem CustomSection.isBlank_title (s : CustomSection) : s.entry.title.isBlank = !hasText s.title :=
  isBlank_text s.title

theorem Education.isBlank_school (e : Education) : e.entry.school.isBlank = !hasText e.school :=
  isBlank_text e.school

theorem Education.isBlank_degree (e : Education) : e.entry.degree.isBlank = !hasText e.degree :=
  isBlank_text e.degree

/-- A course of study in little room has characters where it says anything: its dates stand in for what is
missing. -/
theorem isBlank_short (e : Education) : e.entry.short.isBlank = !e.isMeaningful := by
  have dates : e.entry.dates.isBlank = (!hasText? e.startDate && !hasText? e.endDate) := by
    have one : ∀ date, (dateSource date).isBlank = !hasText? date := by
      intro date
      rw [dateSource, isBlank_text, hasText_showDate]
      cases date <;> rfl
    simp only [Education.entry, period, isBlank_joinNonEmpty, List.all_cons, List.all_nil, one, Bool.and_true]
  unfold EducationEntry.short Education.isMeaningful
  rw [e.isBlank_school, e.isBlank_degree]
  cases hasText e.school with
  | true =>
      cases hasText e.degree <;> simp [bold]
  | false =>
      cases hasText e.degree with
      | true => simp [small]
      | false => simp [dates]

/-- Does a resume say anything in a section? -/
def Resume.hasContent (r : Resume) : Block → Bool
  | .summary _ => hasText r.summary
  | .contact => [r.email, r.phone, r.location, r.website].any hasText
  | .links => r.links.any Link.isMeaningful
  | .skills => r.skills.any hasText
  | .experience => r.experiences.any Experience.isMeaningful
  | .education => r.education.any Education.isMeaningful
  | .shortEducation => r.education.any Education.isMeaningful
  | .projects => r.projects.any Project.isMeaningful
  | .custom => r.customSections.any CustomSection.isMeaningful
  | .certifications => (r.extras.getD {}).certifications.any hasText
  | .positions => (r.extras.getD {}).positions.any Position.isMeaningful
  | .activities => (r.extras.getD {}).activities.any Activity.isMeaningful
  | .coursework => (r.extras.getD {}).coursework.any hasText

/-- A section under a common heading has a body exactly where the resume says anything in it. -/
theorem isBlank_body (r : Resume) (look : Look) (style : SectionStyle) {b : Block} (h : b ≠ .custom) :
    (b.body (r.manuscript look) style).isBlank = !r.hasContent b := by
  have calls : ∀ {α : Type} (f : α → Source), (∀ a, (f a).isBlank = false) → ∀ entries : List α,
      ∀ p ∈ entries.map f, p.isBlank = false := by
    intro α f visible entries p member
    obtain ⟨a, -, rfl⟩ := List.mem_map.1 member
    exact visible a
  cases b with
  | custom => exact absurd rfl h
  | summary => exact isBlank_text r.summary
  | contact => exact (isBlank_join (isBlank_contactItems r)).trans (isEmpty_contactItems r)
  | links => exact (isBlank_join (isBlank_linkItems r.links)).trans (isEmpty_linkItems r.links)
  | skills => exact isBlank_skillsBody r look style.skills
  | experience =>
      exact (isBlank_join (calls _ (fun _ => isBlank_command _ _) _)).trans
        (List.isEmpty_map.trans (isEmpty_entries _ _ r.experiences))
  | education =>
      exact (isBlank_join (calls _ (fun _ => isBlank_command _ _) _)).trans
        (List.isEmpty_map.trans (isEmpty_entries _ _ r.education))
  | shortEducation =>
      have shown : (joinNonEmpty (entryGap look.spacing)
          (((r.education.filter Education.isMeaningful).map Education.entry).map EducationEntry.short)).isBlank =
            (r.education.filter Education.isMeaningful).all fun e => !e.isMeaningful := by
        rw [isBlank_joinNonEmpty, List.all_map, List.all_map]
        exact congrArg _ (funext isBlank_short)
      refine shown.trans ?_
      rw [List.all_filter]
      simp [Resume.hasContent, List.any_eq_not_all_not]
  | projects =>
      exact (isBlank_join (calls _ (fun _ => isBlank_command _ _) _)).trans
        (List.isEmpty_map.trans (isEmpty_entries _ _ r.projects))
  | certifications => exact (isBlank_itemize _ _).trans (isEmpty_textItems _)
  | positions =>
      exact (isBlank_itemize _ _).trans (List.isEmpty_map.trans (isEmpty_entries _ _ (r.extras.getD {}).positions))
  | activities =>
      exact (isBlank_itemize _ _).trans
        (List.isEmpty_map.trans (isEmpty_entries _ _ (r.extras.getD {}).activities))
  | coursework => exact (isBlank_join isBlank_textItems).trans (isEmpty_textItems _)

end Vitae
