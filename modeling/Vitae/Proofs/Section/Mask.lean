/-
Module: Vitae.Proofs.Section.Mask
Layer: Proofs
Purpose: Sections are composed in the same way whatever their texts say: composing a section and putting
  other text in the place of the user's can be done in either order.
Imports: Vitae.Proofs.Tex.Skeleton, Vitae.Proofs.Typeset.SkillsGrid, Vitae.Section.Block
Main exports: Content.mask, Manuscript.mask, mask_compose
-/
import Vitae.Proofs.Tex.Skeleton
import Vitae.Proofs.Typeset.SkillsGrid
import Vitae.Section.Block

namespace Vitae

open Tex Tex.Source

/-! ### Content with marks in the place of its text -/

/-- A job with marks in the place of its text. -/
def ExperienceEntry.mask (e : ExperienceEntry) : ExperienceEntry :=
  ⟨Source.mask e.role, Source.mask e.company, Source.mask e.dates, Source.mask e.bullets⟩

/-- A course of study with marks in the place of its text. -/
def EducationEntry.mask (e : EducationEntry) : EducationEntry :=
  ⟨Source.mask e.school, Source.mask e.degree, Source.mask e.dates⟩

/-- A project with marks in the place of its text. -/
def ProjectEntry.mask (p : ProjectEntry) : ProjectEntry :=
  ⟨Source.mask p.name, Source.mask p.technologies, Source.mask p.description⟩

/-- A section of the user's own with marks in the place of its text. -/
def CustomEntry.mask (s : CustomEntry) : CustomEntry :=
  ⟨Source.mask s.title, Source.mask s.content⟩

/-- A position of responsibility with marks in the place of its text. -/
def PositionEntry.mask (p : PositionEntry) : PositionEntry :=
  ⟨Source.mask p.title, Source.mask p.organization, Source.mask p.date⟩

/-- An activity with marks in the place of its text. -/
def ActivityEntry.mask (a : ActivityEntry) : ActivityEntry :=
  ⟨Source.mask a.name, Source.mask a.description⟩

/-- Content with marks in the place of its text. -/
def Content.mask (c : Content) : Content where
  name := Source.mask c.name
  title := Source.mask c.title
  email := Source.mask c.email
  phone := Source.mask c.phone
  location := Source.mask c.location
  summary := Source.mask c.summary
  contactItems := c.contactItems.map Source.mask
  links := c.links.map Source.mask
  experiences := c.experiences.map ExperienceEntry.mask
  education := c.education.map EducationEntry.mask
  skills := c.skills.map Source.mask
  projects := c.projects.map ProjectEntry.mask
  customSections := c.customSections.map CustomEntry.mask
  certifications := c.certifications.map Source.mask
  positions := c.positions.map PositionEntry.mask
  activities := c.activities.map ActivityEntry.mask
  coursework := c.coursework.map Source.mask

/-- A manuscript with marks in the place of its text. -/
def Manuscript.mask (m : Manuscript) : Manuscript :=
  ⟨m.content.mask, m.look⟩

/-! ### Composers -/

@[simp] theorem mask_gap (length : String) : Source.mask (gap length) = gap length := by
  simp [gap]

theorem mask_joinSections (s : Spacing) (parts : List Source) :
    Source.mask (joinSections s parts) = joinSections s (parts.map Source.mask) := by
  simp [joinSections, sectionGap]

@[simp] theorem mask_headed (style : SectionStyle) (title body : Source) :
    Source.mask (style.headed title body) = style.headed (Source.mask title) (Source.mask body) := by
  cases ruled : style.rule <;>
    simp [SectionStyle.headed, SectionStyle.headingLine, SectionStyle.closing, ruled]

@[simp] theorem mask_wrap (style : SectionStyle) (title : String) (body : Source) :
    Source.mask (style.wrap title body) = style.wrap title (Source.mask body) := by
  cases blank : body.isBlank <;> simp [SectionStyle.wrap, blank]

@[simp] theorem mask_itemize (options : String) (items : List Source) :
    Source.mask (itemize options items) = itemize options (items.map Source.mask) := by
  cases items with
  | nil => rfl
  | cons item rest => simp [itemize, environment, Function.comp_def]

theorem mask_gridRow (cells : List Source) :
    Source.mask (gridRow cells) = gridRow (cells.map Source.mask) := by
  simp [gridRow]

theorem gridRows_mask (columns : Nat) (items : List Source) :
    gridRows columns (items.map Source.mask) = (gridRows columns items).map (List.map Source.mask) := by
  have cut := chunks_map Source.mask columns [] [] items
  rw [List.map_nil, List.map_nil] at cut
  rw [gridRows, cut, gridRows, List.map_map, List.map_map]
  refine List.map_congr_left fun row _ => ?_
  simp

@[simp] theorem mask_skillsGrid (items : List Source) (columns : Nat) :
    Source.mask (skillsGrid items columns) = skillsGrid (items.map Source.mask) columns := by
  have rows : (gridRows (max columns 1) (items.map Source.mask)).map gridRow =
      ((gridRows (max columns 1) items).map gridRow).map Source.mask := by
    rw [gridRows_mask, List.map_map, List.map_map]
    exact List.map_congr_left fun row _ => (mask_gridRow row).symm
  cases items with
  | nil => rfl
  | cons item rest =>
      simp only [List.map_cons] at rows
      simp [skillsGrid, rows, columnSpec]

theorem mask_skillsBody (m : Manuscript) (layout : SkillsLayout) :
    Source.mask (skillsBody m layout) = skillsBody m.mask layout := by
  cases layout with
  | inline => exact mask_join _ _
  | bulleted => exact mask_itemize _ _
  | grid columns => exact mask_skillsGrid _ _

theorem mask_experienceCall (e : ExperienceEntry) : Source.mask e.call = e.mask.call := by
  simp [ExperienceEntry.call, ExperienceEntry.mask]

theorem mask_educationCall (e : EducationEntry) : Source.mask e.call = e.mask.call := by
  simp [EducationEntry.call, EducationEntry.mask]

theorem mask_projectCall (p : ProjectEntry) : Source.mask p.call = p.mask.call := by
  simp [ProjectEntry.call, ProjectEntry.mask]

theorem mask_short (e : EducationEntry) : Source.mask e.short = e.mask.short := by
  cases school : e.school.isBlank <;> cases degree : e.degree.isBlank <;>
    simp [EducationEntry.short, EducationEntry.mask, school, degree, bold, small]

theorem mask_block (style : SectionStyle) (s : CustomEntry) :
    Source.mask (s.block style) = s.mask.block style := by
  cases untitled : s.title.isBlank <;> simp [CustomEntry.block, CustomEntry.mask, untitled]

theorem mask_holder (p : PositionEntry) : Source.mask p.holder = p.mask.holder := by
  cases title : p.title.isBlank <;> cases organization : p.organization.isBlank <;>
    simp [PositionEntry.holder, PositionEntry.mask, title, organization, bold]

theorem mask_positionLine (p : PositionEntry) : Source.mask p.line = p.mask.line := by
  have holder := mask_holder p
  have date : p.mask.date = Source.mask p.date := rfl
  cases undated : p.date.isBlank <;> simp [PositionEntry.line, undated, holder, date]

theorem mask_activityLine (a : ActivityEntry) : Source.mask a.line = a.mask.line := by
  cases name : a.name.isBlank <;> cases description : a.description.isBlank <;>
    simp [ActivityEntry.line, ActivityEntry.mask, name, description, bold]

/-- Entries are put together in the same way whatever they say. -/
theorem map_mask {α : Type} {f : α → Source} {mask : α → α} (h : ∀ x, Source.mask (f x) = f (mask x))
    (xs : List α) : (xs.map f).map Source.mask = (xs.map mask).map f := by
  rw [List.map_map, List.map_map]
  exact List.map_congr_left fun x _ => h x

/-- Composing a section and putting other text in its place can be done in either order. -/
theorem mask_compose (m : Manuscript) (style : SectionStyle) (b : Block) :
    Source.mask (b.compose m style) = b.compose m.mask style := by
  cases b with
  | summary title => exact mask_wrap style title m.content.summary
  | contact => simp [Block.compose, lineBreak, Manuscript.mask, Content.mask]
  | links => simp [Block.compose, lineBreak, Manuscript.mask, Content.mask]
  | skills => simp [Block.compose, mask_skillsBody]
  | experience =>
      simp only [Block.compose, mask_wrap, mask_join, entryGap, mask_gap, map_mask mask_experienceCall]
      rfl
  | education =>
      simp only [Block.compose, mask_wrap, mask_join, entryGap, mask_gap, map_mask mask_educationCall]
      rfl
  | shortEducation =>
      simp only [Block.compose, mask_wrap, mask_joinNonEmpty, entryGap, mask_gap, map_mask mask_short]
      rfl
  | projects =>
      simp only [Block.compose, mask_wrap, mask_join, entryGap, mask_gap, map_mask mask_projectCall]
      rfl
  | custom =>
      simp only [Block.compose, mask_joinSections, map_mask (mask_block style)]
      rfl
  | certifications => simp [Block.compose, plainList, Manuscript.mask, Content.mask]
  | positions =>
      simp only [Block.compose, mask_wrap, plainList, mask_itemize, map_mask mask_positionLine]
      rfl
  | activities =>
      simp only [Block.compose, mask_wrap, plainList, mask_itemize, map_mask mask_activityLine]
      rfl
  | coursework => simp [Block.compose, Manuscript.mask, Content.mask]

end Vitae
