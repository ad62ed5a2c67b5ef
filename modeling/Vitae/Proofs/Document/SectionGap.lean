/-
Module: Vitae.Proofs.Document.SectionGap
Layer: Proofs
Purpose: The space between sections. Sections that are joined first, as the user's own are, count as sections of
  their own when their region is joined, and empty ones change nothing. So the space stands in a region exactly
  between two sections: not at its beginning or end, and not twice in a row.
Imports: Mathlib, Vitae.Proofs.Document.Sections, Vitae.Proofs.Number.Nearest
Main exports: JoinsFlat, joinSections_flatMap, Gapless, IsDivided, isDivided_joinGap, Region.sections,
  sections_join_flat
-/
import Mathlib
import Vitae.Proofs.Document.Sections
import Vitae.Proofs.Number.Nearest

namespace Vitae

open Tex Text Number

/-! ### Joining what is joined -/

/-- Between the parts of two joined sequences stands one more separator. -/
theorem intercalate_append {α : Type} (separator : List α) {xs ys : List (List α)} (some : xs ≠ [])
    (more : ys ≠ []) :
    separator.intercalate (xs ++ ys) = separator.intercalate xs ++ (separator ++ separator.intercalate ys) := by
  apply List.append_cancel_left
  rw [append_intercalate separator _ (by simp [some]), ← List.append_assoc separator,
    append_intercalate separator xs some, append_intercalate separator ys more, List.flatMap_append]

/-- What is joined first may be joined with the rest at once. -/
theorem intercalate_nested {α : Type} (separator : List α) {inner : List (List α)} (some : inner ≠ [])
    (xs zs : List (List α)) :
    separator.intercalate (xs ++ [separator.intercalate inner] ++ zs) =
      separator.intercalate (xs ++ inner ++ zs) := by
  apply List.append_cancel_left
  rw [append_intercalate separator _ (by simp), append_intercalate separator _ (by simp [some])]
  simp only [List.flatMap_append, List.flatMap_singleton, append_intercalate separator inner some]

/-- Joining sections does not depend on how they are grouped, and sees only those that are not empty. -/
structure JoinsFlat (s : Spacing) : Prop where
  /-- Sections that are joined first count as sections of their own. -/
  nested : ∀ xs ys zs : List Source,
    joinSections s (xs ++ [joinSections s ys] ++ zs) = joinSections s (xs ++ ys ++ zs)
  /-- Empty sections change nothing, wherever they stand. -/
  empty : ∀ xs blanks zs : List Source, (∀ p ∈ blanks, p.isBlank = true) →
    joinSections s (xs ++ blanks ++ zs) = joinSections s (xs ++ zs)
  /-- What is joined are the texts that are not empty, with the same space between any two of them. -/
  text : ∀ parts : List Source, (joinSections s parts).render =
    (gapText s.mediumLength).intercalate ((parts.map Source.render).filter (· ≠ []))

section

variable (s : Spacing)

theorem joinSections_eq (parts : List Source) :
    joinSections s parts = join (sectionGap s) (parts.filter fun part => !part.isBlank) := rfl

theorem joinSections_nested (xs ys zs : List Source) :
    joinSections s (xs ++ [joinSections s ys] ++ zs) = joinSections s (xs ++ ys ++ zs) := by
  have blank : (joinSections s ys).isBlank = ys.all Source.isBlank := isBlank_joinNonEmpty _ ys
  rw [joinSections_eq s (xs ++ [joinSections s ys] ++ zs), joinSections_eq s (xs ++ ys ++ zs), List.filter_append,
    List.filter_append, List.filter_append, List.filter_append, List.filter_singleton, blank]
  by_cases none : ys.all Source.isBlank = true
  · -- nothing is left of the inner sections
    rw [none, visible_eq_nil_iff.2 none]
    rfl
  · have left := mt visible_eq_nil_iff.1 none
    rw [Bool.not_eq_true] at none
    rw [none, Bool.not_false, cond_true]
    exact intercalate_nested _ left _ _

theorem joinSections_empty {blanks : List Source} (none : ∀ p ∈ blanks, p.isBlank = true) (xs zs : List Source) :
    joinSections s (xs ++ blanks ++ zs) = joinSections s (xs ++ zs) := by
  have left := visible_eq_nil_iff.2 (List.all_eq_true.2 none)
  rw [joinSections_eq, joinSections_eq, List.filter_append, List.filter_append, List.filter_append, left,
    List.append_nil]

theorem render_joinSections (parts : List Source) :
    (joinSections s parts).render =
      (gapText s.mediumLength).intercalate ((parts.map Source.render).filter (· ≠ [])) := by
  have kept : (parts.map Source.render).filter (· ≠ []) =
      (parts.filter fun part => !part.isBlank).map Source.render := by
    rw [List.filter_map]
    refine congrArg _ (List.filter_congr fun p _ => ?_)
    rw [Bool.eq_iff_iff, Bool.not_eq_true', ← Bool.not_eq_true, Source.isBlank_iff]
    simp
  rw [joinSections_eq, render_join, sectionGap, render_gap, kept]

theorem joinsFlat : JoinsFlat s where
  nested := joinSections_nested s
  empty := fun xs _ zs none => joinSections_empty s none xs zs
  text := render_joinSections s

/-- Sections in several groups are joined as one list of sections. -/
theorem joinSections_flatMap {β : Type} (xs : List Source) (groups : List β) (sections : β → List Source) :
    joinSections s (xs ++ groups.map fun g => joinSections s (sections g)) =
      joinSections s (xs ++ groups.flatMap sections) := by
  induction groups generalizing xs with
  | nil => rfl
  | cons g rest ih =>
      have grouped := ih (xs ++ [joinSections s (sections g)])
      rw [List.append_assoc, List.singleton_append] at grouped
      rw [List.map_cons, grouped, joinSections_nested, List.flatMap_cons, List.append_assoc]

end

/-! ### Where the space stands -/

/-- A text is made of parts that are not empty with the gap between them. The gap stands between two of them and
nowhere else: the text neither begins nor ends with it, and nowhere does it stand twice in a row. -/
structure IsDivided (gap : List Char) (parts : List (List Char)) (text : List Char) : Prop where
  joined : text = gap.intercalate parts
  filled : ∀ p ∈ parts, p ≠ []
  between : ∀ front back, text = front ++ (gap ++ back) → ∃ before behind, parts = before ++ behind ∧
    before ≠ [] ∧ behind ≠ [] ∧ front = gap.intercalate before ∧ back = gap.intercalate behind
  begins : ¬ gap <+: text
  ends : ¬ gap <:+ text
  single : ¬ gap ++ gap <:+: text

/-- Source that can stand next to space of a length: it is not empty, it ends what it begins, and space of that
length is not in it. -/
structure Gapless (length : String) (p : Source) : Prop where
  visible : p.isBlank = false
  ends : Ends .loose p.render
  absent : Absent (tokens (spaceLine length).render) (tokens p.render)

/-- Where there is no vertical space, there is none of a length. -/
theorem absent_space {length : String} (ink : Ink length) {ts : List Token} (silent : word "vspace" ∉ ts) :
    Absent (tokens (spaceLine length).render) ts := by
  rw [tokens_spaceLine ink]
  exact absent_of_not_mem silent

theorem Spaceless.gapless {length : String} (ink : Ink length) {p : Source} (h : Spaceless p) : Gapless length p where
  visible := h.visible
  ends := h.ends
  absent := absent_space ink h.silent

section

variable {length : String} {parts : List Source}

theorem render_joinGap_ne_nil (some : parts ≠ []) (gapless : ∀ p ∈ parts, Gapless length p) :
    (join (gap length) parts).render ≠ [] := by
  intro none
  have empty : (join (gap length) parts).isBlank = parts.isEmpty :=
    isBlank_join fun p member => (gapless p member).visible
  rw [Source.isBlank_iff.2 none] at empty
  exact some (List.isEmpty_iff.1 empty.symm)

theorem render_joinGap_append {others : List Source} (some : parts ≠ []) (more : others ≠ []) :
    (join (gap length) (parts ++ others)).render =
      (join (gap length) parts).render ++ (gapText length ++ (join (gap length) others).render) := by
  rw [render_join, List.map_append, intercalate_append _ (by simpa using some) (by simpa using more), render_gap,
    render_join, render_join, render_gap]

/-- A text before the end of a line is found again from its tokens. -/
theorem eq_of_tokens_newline {s t : List Char} (ends : Ends .loose t)
    (same : tokens (s ++ ['\n']) = tokens t ++ [.char '\n']) : s = t := by
  apply List.append_cancel_right
  calc s ++ ['\n'] = sourceOf (tokens (s ++ ['\n'])) := (source_tokens (ends_newline s).loosen).symm
    _ = sourceOf (tokens t ++ [.char '\n']) := congrArg sourceOf same
    _ = sourceOf (tokens t) ++ ['\n'] := List.flatMap_append
    _ = t ++ ['\n'] := congrArg (· ++ ['\n']) (source_tokens ends)

/-- Wherever the gap is found in joined parts, it was put between two of them. -/
theorem exists_parts_of_gap (ink : Ink length) (gapless : ∀ p ∈ parts, Gapless length p) {front back : List Char}
    (whole : (join (gap length) parts).render = front ++ (gapText length ++ back)) :
    ∃ before behind, parts = before ++ behind ∧ before ≠ [] ∧ behind ≠ [] ∧
      front = (join (gap length) before).render ∧ back = (join (gap length) behind).render := by
  have shape : gapText length = '\n' :: (spaceLine length).render := by
    rw [← render_gap]
    simp [gap, spaceLine]
  -- the end of a line ends every token, so the tokens of the gap are among those of the text
  have read : tokens (join (gap length) parts).render =
      tokens (front ++ ['\n']) ++ (tokens (spaceLine length).render ++ tokens back) := by
    rw [whole, shape, ← tokens_append (flow_spaceLine ink).inert.ends, ← tokens_append (ends_newline front)]
    simp
  rw [tokens_joinGap ink fun p member => (gapless p member).ends, render_gap, tokens_gapText ink,
    tokens_spaceLine ink] at read
  have absent : ∀ ts ∈ parts.map fun p => tokens p.render,
      Absent (word "vspace" :: .opening :: (length.toList.map Token.char ++ [.closing, .char '\n'])) ts := by
    intro ts member
    obtain ⟨p, among, rfl⟩ := List.mem_map.1 member
    rw [← tokens_spaceLine ink]
    exact (gapless p among).absent
  obtain ⟨before, behind, same, some, more, first, -⟩ :=
    exists_parts_of_occurrence (by simp [word]) (by simp [word]) absent read
  obtain ⟨before, behind, rfl, rfl, rfl⟩ := List.map_eq_append_iff.1 same
  have some' : before ≠ [] := fun none => some (by rw [none, List.map_nil])
  have more' : behind ≠ [] := fun none => more (by rw [none, List.map_nil])
  have ends : ∀ p ∈ before, Ends .loose p.render :=
    fun p member => (gapless p (List.mem_append_left _ member)).ends
  rw [← tokens_gapText ink, ← render_gap, ← tokens_joinGap ink ends] at first
  have begins := eq_of_tokens_newline (ends_joinGap ink ends) first
  refine ⟨before, behind, rfl, some', more', begins, ?_⟩
  rw [render_joinGap_append some' more', ← begins] at whole
  exact (List.append_cancel_left (List.append_cancel_left whole)).symm

/-- Joined parts do not begin with the gap. -/
theorem not_prefix_joinGap (ink : Ink length) (gapless : ∀ p ∈ parts, Gapless length p) :
    ¬ gapText length <+: (join (gap length) parts).render := by
  rintro ⟨back, whole⟩
  rw [← List.nil_append (gapText length ++ back)] at whole
  obtain ⟨before, behind, rfl, some, -, none, -⟩ := exists_parts_of_gap ink gapless whole.symm
  exact render_joinGap_ne_nil some (fun p member => gapless p (List.mem_append_left _ member)) none.symm

theorem isDivided_joinGap (ink : Ink length) (gapless : ∀ p ∈ parts, Gapless length p) :
    IsDivided (gapText length) (parts.map Source.render) (join (gap length) parts).render where
  joined := by
    rw [render_join, render_gap]
  filled := by
    intro s member none
    obtain ⟨p, among, rfl⟩ := List.mem_map.1 member
    have blank := Source.isBlank_iff.2 none
    rw [(gapless p among).visible] at blank
    cases blank
  between := by
    intro front back whole
    obtain ⟨before, behind, rfl, some, more, rfl, rfl⟩ := exists_parts_of_gap ink gapless whole
    refine ⟨before.map Source.render, behind.map Source.render, List.map_append, by simpa using some,
      by simpa using more, ?_, ?_⟩
    · rw [render_join, render_gap]
    · rw [render_join, render_gap]
  begins := not_prefix_joinGap ink gapless
  ends := by
    rintro ⟨front, whole⟩
    rw [← List.append_nil (gapText length)] at whole
    obtain ⟨before, behind, rfl, -, more, -, none⟩ := exists_parts_of_gap ink gapless whole.symm
    exact render_joinGap_ne_nil more (fun p member => gapless p (List.mem_append_right _ member)) none.symm
  single := by
    rintro ⟨front, back, whole⟩
    rw [List.append_assoc, List.append_assoc] at whole
    obtain ⟨before, behind, rfl, -, -, -, second⟩ := exists_parts_of_gap ink gapless whole.symm
    exact not_prefix_joinGap ink (fun p member => gapless p (List.mem_append_right _ member)) ⟨back, second⟩

end

/-! ### The sections of a block -/

/-- The space between entries is never as wide as the space between sections. -/
theorem smallLength_ne_mediumLength (s : Spacing) : s.smallLength ≠ s.mediumLength := by
  intro same
  have figures : s.small = toString s.medium := by
    have chars := congrArg String.toList same
    rw [Spacing.smallLength, Spacing.mediumLength, String.toList_append, String.toList_append] at chars
    exact String.toList_inj.1 (List.append_cancel_right chars)
  unfold Spacing.small at figures
  split at figures
  case isTrue whole =>
    have value : s.tenths / 10 = s.medium := Nat.repr_inj.1 figures
    obtain ⟨low, high⟩ :=
      (divNearest_up_eq_iff (by decide : 0 < 20)).1 (rfl : divNearest .up (3 * s.tenths) 20 = _)
    unfold Spacing.medium at value
    omega
  case isFalse part =>
    -- only a fraction of a millimetre is written with a point
    have point : '.' ∈ (toString s.medium).toList := by
      rw [← figures]
      simp
    exact absurd (Ink.isDigit_of_mem point) (by decide)

/-- The space between entries is not the space between sections. -/
theorem absent_gap {length other : String} (ink : Ink length) (ink' : Ink other) (ne : other ≠ length) :
    Absent (tokens (spaceLine length).render) (tokens (gap other).render) := by
  rw [tokens_gap, tokens_spaceLine ink, tokens_spaceLine ink']
  refine ⟨fun rest begins => ?_, fun rest begins => ?_, ?_⟩
  · exact absurd (List.cons_prefix_cons.1 begins).1 (by simp [word])
  · obtain ⟨more, whole⟩ := begins
    simp only [List.cons_append, List.append_assoc, List.cons.injEq, true_and] at whole
    have plain : ∀ s : String, Token.closing ∉ s.toList.map Token.char := by simp
    have same := (eq_of_cut_first (plain _) (plain _) whole).1
    have letters := List.map_injective_iff.2 (fun _ _ same => Token.char.inj same) same
    exact ne (String.toList_inj.1 letters).symm
  · exact absent_of_not_mem (by simp [word])

variable {r : Resume} {look : Look} {style : SectionStyle} {b : Block}

/-- The space between sections stands in no section with a common heading. -/
theorem Block.absent_compose (common : b ≠ .custom) (title : ∀ t, b = .summary t → Ink t) :
    Absent (tokens (spaceLine look.spacing.mediumLength).render)
      (tokens (b.compose (r.manuscript look) style).render) := by
  have ink := Ink.mediumLength look.spacing
  by_cases member : b ∈ entryBlocks
  · -- the space between its entries is another one
    have spaceless := Block.spaceless_entries r look member
    have other := absent_gap ink (Ink.smallLength look.spacing) (smallLength_ne_mediumLength look.spacing)
    have newline : Flow [] .tight (code "\n") := .ink (by decide)
    have heading : Flow frameControls .tight (command style.heading.command [code b.title]) :=
      flow_heading style (by decide) (Flow.ink (Block.ink_title title)).toLoose
    rw [Block.compose_eq common]
    refine (Modular.of_holds trivial Absent.append).wrap [] (fun _ => absent_space ink (by decide))
      (absent_space ink (heading.not_mem (by decide))) (Block.ink_title title) (fun _ => rfl)
      (Block.flow_body r look style common).inert.ends ?_
    rw [newline.tokens_append, Block.body_entries r look member]
    refine Absent.append (absent_space ink (newline.not_mem (by decide))) ?_
    rw [entryGap, tokens_joinGap (Ink.smallLength look.spacing) fun p among => (spaceless p among).ends]
    refine Absent.intercalate other ?_
    intro ts among
    obtain ⟨p, entry, rfl⟩ := List.mem_map.1 among
    exact absent_space ink (spaceless p entry).silent
  · have foreign : ∀ b : Block, b ≠ .custom → b ∉ entryBlocks → isForeign b.allControls (word "vspace") = true :=
      Block.forall_of_kinds (fun _ untitled _ _ => untitled (by decide) (by decide)) (by decide)
    exact absent_space ink ((b.flow r look style title).not_mem (foreign b common member))

/-- The sections that a block shows: one for each of the user's own that says anything, or one if the resume says
anything in it. -/
def Block.sections (r : Resume) (look : Look) (style : SectionStyle) (b : Block) : List Source :=
  if b = .custom then ownBlocks r style
  else if r.hasContent b then [b.compose (r.manuscript look) style] else []

/-- Every section can stand next to the space between sections. -/
theorem Block.gapless_sections (title : ∀ t, b = .summary t → Ink t) :
    ∀ p ∈ b.sections r look style, Gapless look.spacing.mediumLength p := by
  intro p member
  unfold Block.sections at member
  split at member
  case isTrue =>
    obtain ⟨s, kept, rfl⟩ := List.mem_map.1 member
    exact (spaceless_customBlock (List.mem_filter.1 kept).2 style).gapless (Ink.mediumLength look.spacing)
  case isFalse common =>
    split at member
    case isFalse => cases member
    case isTrue content =>
      rw [List.mem_singleton.1 member]
      refine ⟨?_, (b.flow r look style title).inert.ends, b.absent_compose common title⟩
      rw [← Bool.not_eq_true, Source.isBlank_iff, render_compose_eq_nil_iff, content]
      decide

/-- A block is its sections, joined. -/
theorem Block.join_sections (title : ∀ t, b = .summary t → Ink t) :
    joinSections look.spacing (b.sections r look style) = b.compose (r.manuscript look) style := by
  rw [joinSections, joinNonEmpty_visible _ fun p member => (b.gapless_sections title p member).visible]
  unfold Block.sections
  split
  case isTrue custom => rw [custom, compose_custom]
  case isFalse common =>
    split
    case isTrue => exact join_singleton _ _
    case isFalse none =>
      rw [Bool.not_eq_true] at none
      rw [Block.compose_eq common, SectionStyle.wrap, isBlank_body r look style common, none, Bool.not_false,
        if_pos rfl]
      rfl

end Vitae

namespace Vitae.Template

open Tex

/-! ### Regions -/

/-- The sections of a region, each of the user's own for itself. -/
def Region.sections (region : Region) (r : Resume) (look : Look) : List Source :=
  (region.blocks look).flatMap (Block.sections r look region.style)

/-- A region of a document: it is part of the document, it is the sections that the resume says anything in, and the
space between sections stands between two of them and nowhere else. -/
structure Region.IsShown (region : Region) (r : Resume) (m : Manuscript) (document : List Char) : Prop where
  placed : ∃ front back, document = front ++ ((region.source m).render ++ back)
  divided : IsDivided (gapText m.look.spacing.mediumLength) ((region.sections r m.look).map Source.render)
    (region.source m).render

variable {region : Region}

/-- The sections of the user's own are joined with the others, though they are joined among themselves first. -/
theorem source_region (sound : region.slots.all Slot.isSound = true) (r : Resume) (look : Look) :
    region.source (r.manuscript look) = join (sectionGap look.spacing) (region.sections r look) := by
  have blocks : (region.blocks look).map (Block.compose (r.manuscript look) region.style) =
      (region.blocks look).map fun b => joinSections look.spacing (b.sections r look region.style) :=
    List.map_congr_left fun b shown => (b.join_sections (ink_title sound shown)).symm
  have visible : ∀ p ∈ region.sections r look, p.isBlank = false := by
    intro p member
    obtain ⟨b, shown, among⟩ := List.mem_flatMap.1 member
    exact (b.gapless_sections (ink_title sound shown) p among).visible
  have flat := joinSections_flatMap look.spacing [] (region.blocks look) (Block.sections r look region.style)
  rw [List.nil_append, List.nil_append] at flat
  rw [Region.source_eq, ← joinNonEmpty_visible _ visible]
  exact (congrArg (joinSections look.spacing) blocks).trans flat

theorem isDivided_region (sound : region.slots.all Slot.isSound = true) (r : Resume) (look : Look) :
    IsDivided (gapText look.spacing.mediumLength) ((region.sections r look).map Source.render)
      (region.source (r.manuscript look)).render := by
  rw [source_region sound r look]
  refine isDivided_joinGap (Ink.mediumLength look.spacing) ?_
  intro p member
  obtain ⟨b, shown, among⟩ := List.mem_flatMap.1 member
  exact b.gapless_sections (ink_title sound shown) p among

/-- The text of a part of a design stands in the document. -/
theorem exists_around_part {key : TemplateKey} {p : Part} (member : p ∈ (Design.ofKey key).parts) (r : Resume)
    (look : Look) :
    ∃ front back, (Design.ofKey key).chars (r.manuscript look) = front ++ (p.chars r look ++ back) := by
  obtain ⟨front, -, shape⟩ := document_defines key look
  obtain ⟨before, behind, parts⟩ := List.append_of_mem member
  refine ⟨classCommand ++ (('[' :: front) ++ (beginDocument ++ ['\n'] ++ partsText r look before)),
    partsText r look behind ++ '\n' :: (endDocument ++ ['\n']), ?_⟩
  rw [shape r, documentText, Design.bodyText, parts]
  simp only [partsText, List.flatMap_append, List.flatMap_cons, List.append_assoc]

/-- Joining sections is flat, so in every document each region is its sections with exactly one gap between any two,
where the user's own count as single sections. -/
theorem sections_join_flat :
    (∀ s : Spacing, JoinsFlat s) ∧
      ∀ (r : Resume) (o : StyleOptions) (key : TemplateKey) (region : Region),
        .region region ∈ (Design.ofKey key).parts →
          region.IsShown r (Manuscript.ofResume r o).value
            ((Design.ofKey key).render (Manuscript.ofResume r o).value).toList := by
  refine ⟨joinsFlat, fun r o key region member => ?_⟩
  rw [value_ofResume, Design.render, String.toList_ofList]
  exact ⟨exists_around_part member r _, isDivided_region (part_sound member) r _⟩

/-- A resume with a summary and sections of the user's own, one of them empty. -/
def withOwnSections : Resume where
  name := "Ann"
  summary := "Clerk."
  customSections := [{ title := "Awards", content := "Medal" }, {}, { content := "Notes" }]

/-- The empty section leaves no gap, so there are three sections with two gaps. -/
theorem sections_join_flat_own :
    ∃ region : Region, .region region ∈ (Design.ofKey .modern).parts ∧
      (region.sections withOwnSections (Look.ofOptions {}).value).length = 3 ∧
      region.IsShown withOwnSections (Manuscript.ofResume withOwnSections {}).value
        ((Design.ofKey .modern).render (Manuscript.ofResume withOwnSections {}).value).toList := by
  refine ⟨⟨inlineSkills, [.block (.summary "Profile"), .hosted [.experience, .projects, .custom] .full,
    .block .positions, .block .activities, .block .certifications]⟩, by decide, by decide +kernel, ?_⟩
  exact sections_join_flat.2 withOwnSections {} .modern _ (by decide)

end Vitae.Template
