/-
Module: Vitae.Proofs.Document.Sections
Layer: Proofs
Purpose: A section appears where the resume says anything in it, under its one heading, and with the rule behind it
  if there is one. Under the heading stand the entries that say anything, one after the other, and the vertical
  space of the section stands exactly between two of them.
Imports: Vitae.Proofs.Document.Column, Vitae.Proofs.Tex.Separator, Vitae.Proofs.Text.Lines
Main exports: IsHeaded, IsSpaced, isSpaced_joinGap, isHeaded_compose, Block.entries, Block.isSpaced_body, ShowsContent
-/
import Vitae.Proofs.Document.Column
import Vitae.Proofs.Tex.Separator
import Vitae.Proofs.Text.Lines

namespace Vitae

open Tex Text

/-! ### Parts with vertical space between them -/

/-- The text of vertical space on a line of its own. -/
def gapText (length : String) : List Char :=
  "\n\\vspace\x7b".toList ++ (length.toList ++ "\x7d\n".toList)

/-- Read the parts of a text between which vertical space of this length stands. -/
def partsOf (length : String) (text : List Char) : List (List Char) :=
  (splitOn (tokens (gapText length)) (tokens text)).map sourceOf

/-- A text is made of these parts, none of which is empty, and vertical space of this length stands exactly
between two of them. -/
structure IsSpaced (length : String) (parts : List (List Char)) (text : List Char) : Prop where
  joined : text = (gapText length).intercalate parts
  apart : partsOf length text = parts
  filled : ∀ p ∈ parts, p ≠ []

/-- Source that can stand next to vertical space: it is not empty, it ends what it begins, and there is no vertical
space in it. -/
structure Spaceless (p : Source) : Prop where
  visible : p.isBlank = false
  ends : Ends .loose p.render
  silent : word "vspace" ∉ tokens p.render

/-- Whatever stands on a line of its own can stand next to vertical space, unless it asks for such space. -/
theorem Spaceless.of_lined {controls : List Token} {p : Source} (flow : Flow controls .loose (code "\n" ++ p))
    (foreign : isForeign controls (word "vspace") = true) (visible : p.isBlank = false) : Spaceless p := by
  have line : Source.render (code "\n" ++ p) = '\n' :: p.render := by
    rw [Source.render_append, render_code]
    rfl
  have ends := flow.inert.ends
  have silent := flow.not_mem foreign
  rw [line] at ends silent
  exact ⟨visible, ends, fun within => silent (List.mem_cons_of_mem _ within)⟩

theorem render_gap (length : String) : Source.render (gap length) = gapText length := by
  have opening : "\n".toList ++ (("\\" ++ "vspace" : String).toList ++ ['\x7b']) = "\n\\vspace\x7b".toList := by decide
  have closing : '\x7d' :: "\n".toList = "\x7d\n".toList := by decide
  refine Eq.trans ?_ (congrArg₂ (fun a b => a ++ (length.toList ++ b)) opening closing)
  simp only [gap, command, Source.render_append, render_code, List.flatMap_cons, List.flatMap_nil, List.append_nil,
    render_group, List.append_assoc, List.cons_append, List.nil_append]

/-- Vertical space as it is read. -/
theorem tokens_gapText {length : String} (ink : Ink length) :
    tokens (gapText length) =
      .char '\n' :: word "vspace" :: .opening :: (length.toList.map Token.char ++ [.closing, .char '\n']) := by
  rw [← render_gap, tokens_gap, tokens_spaceLine ink]

/-- Parts that are joined by vertical space are read back. -/
theorem isSpaced_joinGap {length : String} {parts : List Source} (ink : Ink length) (some : parts ≠ [])
    (spaceless : ∀ p ∈ parts, Spaceless p) :
    IsSpaced length (parts.map Source.render) (join (gap length) parts).render where
  joined := by
    rw [render_join, render_gap]
  apart := by
    have cut : splitOn (tokens (gapText length)) (tokens (join (gap length) parts).render) =
        parts.map fun p => tokens p.render := by
      rw [tokens_joinGap ink fun p member => (spaceless p member).ends, render_gap, tokens_gapText ink]
      refine splitOn_intercalate (by simpa using some) ?_
      intro ts member
      obtain ⟨p, among, rfl⟩ := List.mem_map.1 member
      exact (absent_of_not_mem (spaceless p among).silent).isPart_cons (by simp [word])
    rw [partsOf, cut, List.map_map]
    exact List.map_congr_left fun p member => source_tokens (spaceless p member).ends
  filled := by
    intro s member none
    obtain ⟨p, among, rfl⟩ := List.mem_map.1 member
    have blank := Source.isBlank_iff.2 none
    rw [(spaceless p among).visible] at blank
    cases blank

/-! ### Sections under a heading -/

/-- The text of a heading on a line of its own. -/
def SectionStyle.headingText (style : SectionStyle) (shown : List Char) : List Char :=
  match style.heading with
  | .full => "\\section*\x7b".toList ++ (shown ++ "\x7d\n".toList)
  | .sidebar => "\\sidebarHeading\x7b".toList ++ (shown ++ "\x7d\n".toList)

/-- The text of the rule that closes a section, if there is one. -/
def SectionStyle.ruleText (style : SectionStyle) : List Char :=
  if style.rule then "\n\\sectionrule".toList else []

/-- A section of a style. It begins with its heading, which shows the title as it is typeset and is the only one
there, and ends with its rule, if it has one, which stands nowhere else in it. -/
structure IsHeaded (style : SectionStyle) (title shown body text : List Char) : Prop where
  whole : text = style.headingText shown ++ (body ++ style.ruleText)
  heading : headings (tokens text) = [some title]
  rule : (tokens text).count (word "sectionrule") = style.rule.toNat

theorem render_headed (style : SectionStyle) (title body : Source) :
    (style.headed title body).render = style.headingText title.render ++ (body.render ++ style.ruleText) := by
  have full : ("\\" ++ "section*" : String).toList ++ ['\x7b'] = "\\section*\x7b".toList := by decide
  have sidebar : ("\\" ++ "sidebarHeading" : String).toList ++ ['\x7b'] = "\\sidebarHeading\x7b".toList := by decide
  have closing : '\x7d' :: "\n".toList = "\x7d\n".toList := by decide
  have rule : style.closing.render = style.ruleText := by
    unfold SectionStyle.closing SectionStyle.ruleText
    split
    · exact render_code _
    · rfl
  rw [SectionStyle.headed, SectionStyle.headingLine, SectionStyle.headingText]
  cases style.heading with
  | full =>
      rw [← full, ← closing]
      simp only [Heading.command, command, Source.render_append, render_code, List.flatMap_cons, List.flatMap_nil,
        List.append_nil, render_group, List.append_assoc, List.cons_append, List.nil_append, rule]
  | sidebar =>
      rw [← sidebar, ← closing]
      simp only [Heading.command, command, Source.render_append, render_code, List.flatMap_cons, List.flatMap_nil,
        List.append_nil, render_group, List.append_assoc, List.cons_append, List.nil_append, rule]

/-- The rule of a section is not in its heading or its body, so it stands only where the section ends. -/
theorem count_sectionrule {controls : List Token} {style : SectionStyle} {title body : Source}
    (heading : Flow [] .loose title) (lined : Flow controls .loose (code "\n" ++ body))
    (foreign : isForeign controls (word "sectionrule") = true) :
    (tokens (style.headed title body).render).count (word "sectionrule") = style.rule.toNat := by
  have line : Flow (["section", "sidebarHeading"].map word) .tight (command style.heading.command [title]) :=
    flow_heading style (List.Subset.refl _) (heading.mono (by simp))
  have above := List.count_eq_zero.2 (line.not_mem (by decide : isForeign _ (word "sectionrule") = true))
  have under := List.count_eq_zero.2 (lined.not_mem foreign)
  rw [tokens_headed heading lined.inert.ends, List.count_append, List.count_append, above, under, Nat.zero_add,
    Nat.zero_add, SectionStyle.closing]
  cases style.rule with
  | true =>
      rw [if_pos rfl, render_code]
      decide
  | false => rfl

/-- A section that the resume says anything in stands under its heading. -/
theorem isHeaded_compose {b : Block} (common : b ≠ .custom) (title : ∀ t, b = .summary t → Ink t) {r : Resume}
    (look : Look) (style : SectionStyle) (content : r.hasContent b = true) :
    IsHeaded style b.title.toList b.title.toList (b.body (r.manuscript look) style).render
      (b.compose (r.manuscript look) style).render := by
  have ink := Block.ink_title title
  have shown : b.compose (r.manuscript look) style =
      style.headed (code b.title) (b.body (r.manuscript look) style) := by
    rw [Block.compose_eq common, SectionStyle.wrap, isBlank_body r look style common, content, Bool.not_true,
      if_neg Bool.false_ne_true]
  have found := (finds_headings b r look style title).scan_eq
  rw [Block.headings_eq common, content, if_pos rfl] at found
  have foreign : ∀ b : Block, b ≠ .custom → isForeign b.commands (word "sectionrule") = true :=
    Block.forall_of_kinds (fun _ untitled _ => untitled (by decide)) (by decide)
  refine ⟨?_, found, ?_⟩
  · rw [shown, render_headed, render_code]
  · rw [shown]
    exact count_sectionrule (Flow.ink ink).toLoose (Block.flow_body r look style common) (foreign b common)

/-! ### Sections of entries -/

/-- The sections of entries between which vertical space stands. -/
def entryBlocks : List Block :=
  [.experience, .education, .shortEducation, .projects]

/-- The entries of a section that say anything, in their order, each as it is typeset. -/
def Block.entries (r : Resume) (look : Look) : Block → List Source
  | .experience => (r.experiences.filter Experience.isMeaningful).map fun e => (e.entry look.spacing).call
  | .education => (r.education.filter Education.isMeaningful).map fun e => e.entry.call
  | .shortEducation => (r.education.filter Education.isMeaningful).map fun e => e.entry.short
  | .projects => (r.projects.filter Project.isMeaningful).map fun p => p.entry.call
  | _ => []

variable {b : Block} (r : Resume) (look : Look)

/-- Every entry can stand next to vertical space. -/
theorem Block.spaceless_entries (member : b ∈ entryBlocks) : ∀ p ∈ b.entries r look, Spaceless p := by
  have newline : ∀ controls, Flow controls .tight (code "\n") := fun _ => .ink (by decide)
  simp only [entryBlocks, List.mem_cons, List.not_mem_nil, or_false] at member
  intro p among
  rcases member with rfl | rfl | rfl | rfl
  · obtain ⟨e, -, rfl⟩ := List.mem_map.1 among
    have flow : Flow (word "resumeEntry" :: listControls) .tight (e.entry look.spacing).call :=
      flow_experience e look.spacing (by decide) (by decide)
    exact .of_lined ((newline _).append flow).toLoose (by decide) (isBlank_command _ _)
  · obtain ⟨e, -, rfl⟩ := List.mem_map.1 among
    have flow : Flow [word "educationEntry"] .tight e.entry.call := flow_education e (by decide)
    exact .of_lined ((newline _).append flow).toLoose (by decide) (isBlank_command _ _)
  · obtain ⟨e, kept, rfl⟩ := List.mem_map.1 among
    have flow : Flow [word "textbf", word "small", breakSymbol] .tight (code "\n" ++ e.entry.short) :=
      e.flow_short (List.Subset.refl _)
    refine .of_lined flow.toLoose (by decide) ?_
    rw [isBlank_short, (List.mem_filter.1 kept).2, Bool.not_true]
  · obtain ⟨e, -, rfl⟩ := List.mem_map.1 among
    have flow : Flow [word "projectEntry"] .tight e.entry.call := flow_project e (by decide)
    exact .of_lined ((newline _).append flow).toLoose (by decide) (isBlank_command _ _)

theorem Block.isEmpty_entries (member : b ∈ entryBlocks) : (b.entries r look).isEmpty = !r.hasContent b := by
  simp only [entryBlocks, List.mem_cons, List.not_mem_nil, or_false] at member
  rcases member with rfl | rfl | rfl | rfl
  · exact Vitae.isEmpty_entries Experience.isMeaningful _ r.experiences
  · exact Vitae.isEmpty_entries Education.isMeaningful _ r.education
  · exact Vitae.isEmpty_entries Education.isMeaningful _ r.education
  · exact Vitae.isEmpty_entries Project.isMeaningful _ r.projects

/-- The body of such a section is its entries with vertical space between them. -/
theorem Block.body_entries (member : b ∈ entryBlocks) (style : SectionStyle) :
    b.body (r.manuscript look) style = join (entryGap look.spacing) (b.entries r look) := by
  have spaceless := spaceless_entries r look member
  simp only [entryBlocks, List.mem_cons, List.not_mem_nil, or_false] at member
  rcases member with rfl | rfl | rfl | rfl
  · exact congrArg (join (entryGap look.spacing)) List.map_map
  · exact congrArg (join (entryGap look.spacing)) List.map_map
  · have shown := joinNonEmpty_visible (entryGap look.spacing) fun p among => (spaceless p among).visible
    exact (congrArg (joinNonEmpty (entryGap look.spacing)) List.map_map).trans shown
  · exact congrArg (join (entryGap look.spacing)) List.map_map

/-- The entries are read back from the body. -/
theorem Block.isSpaced_body {r : Resume} (member : b ∈ entryBlocks) (content : r.hasContent b = true)
    (style : SectionStyle) :
    IsSpaced look.spacing.smallLength ((b.entries r look).map Source.render)
      (b.body (r.manuscript look) style).render := by
  rw [body_entries r look member]
  refine isSpaced_joinGap (Ink.smallLength look.spacing) ?_ (spaceless_entries r look member)
  intro none
  have some := isEmpty_entries r look member
  rw [none, content] at some
  cases some

/-! ### Sections of the user's own -/

/-- Paragraphs are shown of every text that says anything. -/
theorem isBlank_paragraphs (content : String) : (paragraphs content).isBlank = !hasText content := by
  have lines : ((splitLines content.toList).map String.ofList).any hasText = hasText content := by
    rw [List.any_map, Bool.eq_iff_iff, List.any_eq_true, hasText, List.any_eq_true]
    constructor
    · rintro ⟨line, among, visible⟩
      obtain ⟨c, inside, seen⟩ := List.any_eq_true.1 visible
      rw [String.toList_ofList] at inside
      exact ⟨c, mem_of_mem_splitLines among inside, seen⟩
    · rintro ⟨c, inside, seen⟩
      have other : c ≠ '\n' := by
        rintro rfl
        exact absurd seen (by decide)
      obtain ⟨line, among, within⟩ := exists_mem_splitLines inside other
      refine ⟨line, among, List.any_eq_true.2 ⟨c, ?_, seen⟩⟩
      rwa [String.toList_ofList]
  rw [paragraphs, isBlank_join isBlank_textItems, isEmpty_textItems, lines]

/-- A section of the user's own is shown where it says anything. -/
theorem isBlank_customBlock (s : CustomSection) (style : SectionStyle) :
    (s.entry.block style).isBlank = !s.isMeaningful := by
  have content : s.entry.content.isBlank = !hasText s.content := isBlank_paragraphs s.content
  unfold CustomEntry.block CustomSection.isMeaningful
  rw [s.isBlank_title]
  cases hasText s.title with
  | true => simp [SectionStyle.headed, SectionStyle.headingLine]
  | false => simpa using content

theorem flow_ownBlock (s : CustomSection) (style : SectionStyle) :
    Flow (word "par" :: frameControls) .loose (s.entry.block style) :=
  flow_customBlock style (List.subset_cons_self _ _) (.ofText s.title) (flow_paragraphs s.content (by decide))

/-- Every section of the user's own can stand next to vertical space. -/
theorem spaceless_customBlock {s : CustomSection} (content : s.isMeaningful = true) (style : SectionStyle) :
    Spaceless (s.entry.block style) := by
  have newline : Flow (word "par" :: frameControls) .tight (code "\n") := .ink (by decide)
  refine .of_lined (newline.append (flow_ownBlock s style)) (by decide) ?_
  rw [isBlank_customBlock, content, Bool.not_true]

/-- With a title it stands under its heading. -/
theorem isHeaded_customBlock {s : CustomSection} (titled : hasText s.title = true) (style : SectionStyle) :
    IsHeaded style (trimChars s.title.toList) (text s.title).render (paragraphs s.content).render
      (s.entry.block style).render := by
  have found := (finds_customBlock s style).scan_eq
  rw [titled, if_pos rfl] at found
  have shown : s.entry.block style = style.headed (text s.title) (paragraphs s.content) := by
    rw [CustomEntry.block, s.isBlank_title, titled, Bool.not_true, if_neg Bool.false_ne_true]
    rfl
  have newline : Flow [word "par"] .tight (code "\n") := .ink (by decide)
  have lined := newline.append (flow_paragraphs s.content (by simp))
  refine ⟨?_, found, ?_⟩
  · rw [shown, render_headed]
  · rw [shown]
    exact count_sectionrule (Flow.ofText s.title).toLoose lined.toLoose (by decide)

/-- Without a title its content stands alone, with neither a heading nor a rule. -/
theorem bare_customBlock {s : CustomSection} (untitled : hasText s.title = false) (style : SectionStyle) :
    (s.entry.block style).render = (paragraphs s.content).render ∧
      headings (tokens (s.entry.block style).render) = [] ∧
      word "sectionrule" ∉ tokens (s.entry.block style).render := by
  have found := (finds_customBlock s style).scan_eq
  rw [untitled, if_neg Bool.false_ne_true] at found
  have shown : s.entry.block style = paragraphs s.content := by
    rw [CustomEntry.block, s.isBlank_title, untitled, Bool.not_false, if_pos rfl]
    rfl
  have flow : Flow [word "par"] .tight (paragraphs s.content) := flow_paragraphs s.content (by simp)
  refine ⟨congrArg _ shown, found, ?_⟩
  rw [shown]
  exact flow.not_mem (by decide)

/-- The sections of the user's own that say anything, each as it is typeset. -/
def ownBlocks (r : Resume) (style : SectionStyle) : List Source :=
  (r.customSections.filter CustomSection.isMeaningful).map fun s => s.entry.block style

theorem compose_custom (style : SectionStyle) :
    Block.custom.compose (r.manuscript look) style = join (sectionGap look.spacing) (ownBlocks r style) := by
  have visible : ∀ p ∈ ownBlocks r style, p.isBlank = false := by
    intro p among
    obtain ⟨s, kept, rfl⟩ := List.mem_map.1 among
    exact (spaceless_customBlock (List.mem_filter.1 kept).2 style).visible
  rw [Block.compose, blocks_custom]
  exact joinNonEmpty_visible _ visible

theorem isEmpty_ownBlocks (style : SectionStyle) :
    (ownBlocks r style).isEmpty = !r.hasContent .custom :=
  Vitae.isEmpty_entries CustomSection.isMeaningful _ r.customSections

/-- The sections of the user's own are read back. -/
theorem isSpaced_custom {r : Resume} (content : r.hasContent .custom = true) (style : SectionStyle) :
    IsSpaced look.spacing.mediumLength ((ownBlocks r style).map Source.render)
      (Block.custom.compose (r.manuscript look) style).render := by
  rw [compose_custom]
  refine isSpaced_joinGap (Ink.mediumLength look.spacing) ?_ ?_
  · intro none
    have some := isEmpty_ownBlocks r style
    rw [none, content] at some
    cases some
  · intro p among
    obtain ⟨s, kept, rfl⟩ := List.mem_map.1 among
    exact spaceless_customBlock (List.mem_filter.1 kept).2 style

/-! ### All sections -/

/-- A section is shown exactly where the resume says anything in it. -/
theorem render_compose_eq_nil_iff (b : Block) (style : SectionStyle) :
    (b.compose (r.manuscript look) style).render = [] ↔ r.hasContent b = false := by
  have blank : (b.compose (r.manuscript look) style).isBlank = !r.hasContent b := by
    by_cases common : b = .custom
    · subst common
      rw [compose_custom, isBlank_join, isEmpty_ownBlocks]
      intro p among
      obtain ⟨s, kept, rfl⟩ := List.mem_map.1 among
      exact (spaceless_customBlock (List.mem_filter.1 kept).2 style).visible
    · rw [Block.compose_eq common, SectionStyle.wrap, isBlank_body r look style common]
      cases r.hasContent b with
      | true => simp [SectionStyle.headed, SectionStyle.headingLine]
      | false => rfl
  rw [← Source.isBlank_iff, blank, Bool.not_eq_true']

/-- What is shown of a resume in a style, section by section. -/
structure ShowsContent (r : Resume) (m : Manuscript) (style : SectionStyle) : Prop where
  /-- A section is empty exactly where nothing is said in it. -/
  empty : ∀ b : Block, (b.compose m style).render = [] ↔ r.hasContent b = false
  /-- Any other section stands under its heading, unless it is one of the user's own, and is more than that. -/
  headed : ∀ b : Block, b ≠ .custom → (∀ t, b = .summary t → Ink t) → r.hasContent b = true →
    ∃ body, body ≠ [] ∧ IsHeaded style b.title.toList b.title.toList body (b.compose m style).render
  /-- Under the heading of a section of entries stand those that say anything, in their order, with vertical space
  between them. -/
  entries : ∀ b ∈ entryBlocks, r.hasContent b = true →
    ∃ body, IsHeaded style b.title.toList b.title.toList body (b.compose m style).render ∧
      IsSpaced m.look.spacing.smallLength ((b.entries r m.look).map Source.render) body
  /-- So do the sections of the user's own that say anything, with wider space between them. -/
  custom : r.hasContent .custom = true →
    IsSpaced m.look.spacing.mediumLength ((ownBlocks r style).map Source.render) (Block.custom.compose m style).render
  /-- One heading is shown for each title of the user's own. -/
  titles : headings (tokens (Block.custom.compose m style).render) = (Block.custom.headings r).map some
  /-- The content of a section of the user's own stands under its title. -/
  titled : ∀ s : CustomSection, hasText s.title = true →
    IsHeaded style (trimChars s.title.toList) (text s.title).render (paragraphs s.content).render
      (s.entry.block style).render
  /-- Without a title it stands alone. -/
  untitled : ∀ s : CustomSection, hasText s.title = false →
    (s.entry.block style).render = (paragraphs s.content).render ∧
      headings (tokens (s.entry.block style).render) = [] ∧
      word "sectionrule" ∉ tokens (s.entry.block style).render

/-- Whatever the options and the style, a section appears exactly where it has content, with one block for each
entry. -/
theorem sections_show_content (r : Resume) (o : StyleOptions) (style : SectionStyle) :
    ShowsContent r (Manuscript.ofResume r o).value style := by
  rw [value_ofResume]
  generalize (Look.ofOptions o).value = look
  refine
    { empty := fun b => render_compose_eq_nil_iff r look b style
      headed := fun b common title content => ⟨_, ?_, isHeaded_compose common title look style content⟩
      entries := fun b member content => ⟨_, isHeaded_compose ?_ ?_ look style content,
        Block.isSpaced_body look member content style⟩
      custom := fun content => isSpaced_custom look content style
      titles := (finds_headings .custom r look style nofun).scan_eq
      titled := fun s titled => isHeaded_customBlock titled style
      untitled := fun s untitled => bare_customBlock untitled style }
  · rw [ne_eq, ← Source.isBlank_iff, isBlank_body r look style common, content]
    decide
  · rintro rfl
    exact absurd member (by decide)
  · rintro t rfl
    simp [entryBlocks] at member

end Vitae
