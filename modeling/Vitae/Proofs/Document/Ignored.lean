/-
Module: Vitae.Proofs.Document.Ignored
Layer: Proofs
Purpose: Fields that a document does not depend on. A document is made of the header fields and of the sections
  that its design may show, so what enters none of them can be changed at will: the ids of the user's own sections
  in every design, and the extras and the dates of courses of study in the designs without room for them.
Imports: Mathlib.Data.List.Basic, Vitae.Proofs.Document.Placement, Vitae.Proofs.Document.Tidy
Main exports: Design.candidates, Agrees, generate_agrees, CustomSection.unnamed, Education.undated,
  IgnoresFields
-/
import Mathlib.Data.List.Basic
import Vitae.Proofs.Document.Placement
import Vitae.Proofs.Document.Tidy

namespace Vitae.Template

/-! ### The sections of a design -/

/-- The blocks that a design may show. -/
def Design.candidates (d : Design) : List Block :=
  d.slots.flatMap Slot.candidates

/-- Whatever the options, a region shows only blocks that its design may show. -/
theorem Region.blocks_subset {d : Design} {region : Region} (member : .region region ∈ d.parts) (look : Look) :
    region.blocks look ⊆ d.candidates := by
  intro b shown
  obtain ⟨slot, among, inside⟩ := List.mem_flatMap.1 shown
  have listed : slot ∈ d.slots := List.mem_flatMap.2 ⟨_, member, among⟩
  exact List.mem_flatMap.2 ⟨slot, listed, mem_candidates inside⟩

end Vitae.Template

namespace Vitae

open Tex Text Template

/-! ### Documents that agree -/

/-- Two resumes agree on some sections: they have a name or not, their headers show the same, and so does each of
these sections, in every look and style. -/
structure Agrees (blocks : List Block) (r r' : Resume) : Prop where
  named : hasText r.name = hasText r'.name
  header : ∀ (look : Look) (f : Field), f.source (r.manuscript look).content = f.source (r'.manuscript look).content
  compose : ∀ (look : Look) (style : SectionStyle), ∀ b ∈ blocks,
    b.compose (r.manuscript look) style = b.compose (r'.manuscript look) style

variable {r r' : Resume}

/-- A part is the same for resumes that agree on the sections of its design. -/
theorem source_agrees {d : Design} (agrees : Agrees d.candidates r r') (look : Look) {p : Part}
    (member : p ∈ d.parts) :
    p.source (r.manuscript look) = p.source (r'.manuscript look) := by
  cases p with
  | code s => rfl
  | space gap => rfl
  | call name arguments =>
      exact congrArg (command name) (List.map_congr_left fun f _ => agrees.header look f)
  | region region =>
      rw [Part.source, Part.source, Region.source_eq, Region.source_eq]
      refine congrArg (joinSections look.spacing) (List.map_congr_left fun b shown => ?_)
      exact agrees.compose look region.style b (region.blocks_subset member look shown)

/-- The documents of resumes that agree on the sections of a design are the same. -/
theorem render_agrees {d : Design} (agrees : Agrees d.candidates r r') (look : Look) :
    d.render (r.manuscript look) = d.render (r'.manuscript look) := by
  have body : d.body.flatMap (Part.source (r.manuscript look)) = d.body.flatMap (Part.source (r'.manuscript look)) :=
    List.flatMap_congr fun p member => source_agrees agrees look (List.mem_append_left _ member)
  have footer : d.footer.flatMap (Part.source (r.manuscript look)) =
      d.footer.flatMap (Part.source (r'.manuscript look)) :=
    List.flatMap_congr fun p member => source_agrees agrees look (List.mem_append_right _ member)
  rw [Design.render, Design.render, Design.chars, Design.chars, Design.bodySource, Design.bodySource,
    Design.footerSource, Design.footerSource, body, footer]
  rfl

/-- So is whatever is made of them, with the same reports. -/
theorem generate_agrees {key : TemplateKey} (agrees : Agrees (Design.ofKey key).candidates r r') (o : StyleOptions) :
    generate r key o = generate r' key o := by
  cases named : hasText r'.name with
  | true =>
      have document : (Design.ofKey key).render (Manuscript.ofResume r o).value =
          (Design.ofKey key).render (Manuscript.ofResume r' o).value :=
        render_agrees agrees (Look.ofOptions o).value
      rw [generate_named (agrees.named.trans named), generate_named named, document]
  | false => rw [generate, generate, agrees.named, named, if_neg Bool.false_ne_true, if_neg Bool.false_ne_true]

/-! ### Entries that are typeset alike -/

/-- Entries that are the same once they are tidy are typeset alike, those that say anything. -/
theorem IsTidied.congr {α β : Type} {isMeaningful : α → Bool} {typeset : α → β} {tidy : α → α}
    (h : IsTidied isMeaningful typeset tidy) {xs ys : List α} (same : xs.map tidy = ys.map tidy) :
    (xs.filter isMeaningful).map typeset = (ys.filter isMeaningful).map typeset := by
  have tidied : ∀ zs : List α, (zs.filter isMeaningful).map typeset =
      ((zs.map tidy).filter isMeaningful).map typeset := by
    intro zs
    have meaningful : isMeaningful ∘ tidy = isMeaningful := funext h.meaningful
    have alike : typeset ∘ tidy = typeset := funext h.same
    rw [List.filter_map, List.map_map, meaningful, alike]
  rw [tidied xs, tidied ys, same]

/-- A section of the user's own without its id. -/
def CustomSection.unnamed (s : CustomSection) : CustomSection :=
  { s with id := "" }

/-- The id of a section is not shown. -/
theorem tidied_unnamed : IsTidied CustomSection.isMeaningful CustomSection.entry CustomSection.unnamed where
  meaningful _ := rfl
  same _ := rfl

/-- A course of study without its dates, where it has a school or a degree. -/
def Education.undated (e : Education) : Education :=
  if hasText e.school || hasText e.degree then { e with startDate := none, endDate := none } else e

/-- In little room the dates of such a course are not shown, and it says something without them. -/
theorem tidied_undated : IsTidied Education.isMeaningful (fun e => e.entry.short) Education.undated where
  meaningful e := by
    unfold Education.undated
    split
    case isTrue shown => simp [Education.isMeaningful, shown]
    case isFalse => rfl
  same e := by
    unfold Education.undated
    split
    case isTrue shown =>
      unfold EducationEntry.short
      rw [Education.isBlank_school, Education.isBlank_degree, Education.isBlank_school, Education.isBlank_degree]
      revert shown
      cases hasText e.school <;> cases hasText e.degree <;> simp [Education.entry]
    case isFalse => rfl

/-! ### Changes that are not seen -/

/-- The ids of the user's own sections. -/
theorem agrees_ids {sections : List CustomSection}
    (same : sections.map CustomSection.unnamed = r.customSections.map CustomSection.unnamed) (blocks : List Block) :
    Agrees blocks { r with customSections := sections } r := by
  have content : ∀ s : Spacing, Content.ofResume { r with customSections := sections } s = Content.ofResume r s := by
    intro s
    have entries := tidied_unnamed.congr same
    unfold Content.ofResume
    simp only [entries]
    rfl
  have manuscript : ∀ look : Look, Resume.manuscript { r with customSections := sections } look = r.manuscript look :=
    fun look => congrArg (Manuscript.mk · look) (content look.spacing)
  exact ⟨rfl, fun look f => by rw [manuscript], fun look style b _ => by rw [manuscript]⟩

/-- The sections of the academic extras. -/
def extraBlocks : List Block :=
  [.certifications, .positions, .activities, .coursework]

/-- The extras, where none of their sections is shown. -/
theorem agrees_extras (extras : Option Extras) {blocks : List Block} (without : ∀ b ∈ blocks, b ∉ extraBlocks) :
    Agrees blocks { r with extras := extras } r := by
  refine ⟨rfl, fun look f => by cases f <;> rfl, fun look style b member => ?_⟩
  have other := without b member
  cases b with
  | certifications => exact absurd other (by decide)
  | positions => exact absurd other (by decide)
  | activities => exact absurd other (by decide)
  | coursework => exact absurd other (by decide)
  | _ => rfl

/-- The other extras, where certifications are shown and stay as they are. -/
theorem agrees_certifications {extras : Option Extras}
    (same : tidyTexts (extras.getD {}).certifications = tidyTexts (r.extras.getD {}).certifications)
    {blocks : List Block} (without : ∀ b ∈ blocks, b ∉ extraBlocks.tail) :
    Agrees blocks { r with extras := extras } r := by
  have items : textItems (extras.getD {}).certifications = textItems (r.extras.getD {}).certifications := by
    rw [← textItems_tidyTexts, same, textItems_tidyTexts]
  refine ⟨rfl, fun look f => by cases f <;> rfl, fun look style b member => ?_⟩
  have other := without b member
  cases b with
  | certifications => exact congrArg (fun items => style.wrap "Certifications" (plainList items)) items
  | positions => exact absurd other (by decide)
  | activities => exact absurd other (by decide)
  | coursework => exact absurd other (by decide)
  | _ => rfl

/-- The dates of courses of study with a school or a degree, where there is little room. -/
theorem agrees_dates {education : List Education}
    (same : education.map Education.undated = r.education.map Education.undated) {blocks : List Block}
    (without : Block.education ∉ blocks) : Agrees blocks { r with education := education } r := by
  have entries := tidied_undated.congr same
  refine ⟨rfl, fun look f => by cases f <;> rfl, fun look style b member => ?_⟩
  cases b with
  | education => exact absurd member without
  | shortEducation =>
      have shown : ∀ r : Resume, (r.manuscript look).content.education.map EducationEntry.short =
          (r.education.filter Education.isMeaningful).map fun e => e.entry.short := fun _ => List.map_map
      rw [Block.compose, Block.compose, shown, shown, entries]
      rfl
  | _ => rfl

/-- What a document does not depend on: fields that are changed without a trace in it or in its reports. -/
structure IgnoresFields (r : Resume) (key : TemplateKey) (o : StyleOptions) : Prop where
  /-- The ids of the user's own sections, in every design. -/
  ids : ∀ sections : List CustomSection,
    sections.map CustomSection.unnamed = r.customSections.map CustomSection.unnamed →
      generate { r with customSections := sections } key o = generate r key o
  /-- The extras, present or absent, in the designs that show none. -/
  extras : key ∈ [.classic, .creative, .minimalist, .twoColumn] → ∀ extras : Option Extras,
    generate { r with extras := extras } key o = generate r key o
  /-- All extras but the certifications, in the design that shows no others. -/
  certifications : key = .professional → ∀ extras : Option Extras,
    tidyTexts (extras.getD {}).certifications = tidyTexts (r.extras.getD {}).certifications →
      generate { r with extras := extras } key o = generate r key o
  /-- The dates of courses of study that have a school or a degree, in the designs with little room for them. -/
  dates : key ∈ [.modern, .minimalist, .twoColumn] → ∀ education : List Education,
    education.map Education.undated = r.education.map Education.undated →
      generate { r with education := education } key o = generate r key o

/-- Ignored fields have no influence on a document, whatever its design and its options. -/
theorem generate_ignores (r : Resume) (key : TemplateKey) (o : StyleOptions) : IgnoresFields r key o where
  ids sections same := generate_agrees (agrees_ids same _) o
  extras listed extras := by
    refine generate_agrees (agrees_extras extras ?_) o
    revert listed
    cases key <;> decide
  certifications professional extras same := by
    subst professional
    exact generate_agrees (agrees_certifications same (by decide)) o
  dates listed education same := by
    refine generate_agrees (agrees_dates same ?_) o
    revert listed
    cases key <;> decide

/-- When a school was left makes no difference where there is little room, unless the school is not named. -/
theorem generate_ignores_school :
    generate { name := "Ann", education := [{ school := "MIT", endDate := some "2001" }, { endDate := some "1999" }] }
        .modern {} =
      generate { name := "Ann", education := [{ school := "MIT" }, { endDate := some "1999" }] } .modern {} :=
  (generate_ignores { name := "Ann", education := [{ school := "MIT" }, { endDate := some "1999" }] } .modern {}).dates
    (by decide) [{ school := "MIT", endDate := some "2001" }, { endDate := some "1999" }] (by decide)

end Vitae
