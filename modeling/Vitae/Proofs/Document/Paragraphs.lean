/-
Module: Vitae.Proofs.Document.Paragraphs
Layer: Proofs
Purpose: Text of several lines in the document. Each line that says anything is a paragraph, the paragraphs can be
  told apart again, and the space between and around the lines is not seen.
Imports: Mathlib.Logic.Relation, Vitae.Proofs.Document.Sections, Vitae.Proofs.Document.Tidy
Main exports: paragraphTexts, render_paragraphs, ShowsParagraphs
-/
import Mathlib.Logic.Relation
import Vitae.Proofs.Document.Sections
import Vitae.Proofs.Document.Tidy

namespace Vitae

open Tex Text

/-! ### Paragraphs of a text -/

/-- The end of a paragraph. -/
def paragraphEnd : List Char :=
  "\\par\n".toList

/-- The lines of a text that have text, each trimmed and escaped. -/
def paragraphTexts (content : String) : List (List Char) :=
  ((lines content.toList).filter fun line => hasText (String.ofList line)).map fun line =>
    escape (trimChars line)

theorem paragraphTexts_eq (content : String) :
    paragraphTexts content = (shownLines content.toList).map escape := by
  rw [← shown_lines, filterMap_shownLine?, List.map_map]
  rfl

/-- The paragraphs stand one after the other, with an end between two of them. -/
theorem render_paragraphs (content : String) :
    (paragraphs content).render = paragraphEnd.intercalate (paragraphTexts content) := by
  have marker : Source.render (code "\\par\n") = paragraphEnd := by
    simp [code, Piece.render, paragraphEnd]
  have parts : ((shownLines content.toList).map fun line => [Piece.text (String.ofList line)]).map Source.render =
      paragraphTexts content := by
    rw [paragraphTexts_eq, List.map_map]
    refine List.map_congr_left fun line _ => ?_
    simp [Piece.render]
  rw [paragraphs_eq, render_join, marker, parts]

/-! ### One paragraph -/

/-- Escaping neither hides what is seen nor shows space. -/
theorem all_isSpace_escape (s : List Char) : (escape s).all isSpace = s.all isSpace := by
  have same : ∀ c, (escapeChar c).all isSpace = isSpace c := by
    intro c
    rcases escapeChar_cases c with ⟨name, listed, e⟩ | ⟨listed, e⟩ | ⟨-, e⟩
    · have words : ∀ pair ∈ spelled, (closedWord pair.2).all isSpace = isSpace pair.1 := by decide
      rw [e, words (c, name) listed]
    · have symbols : slashed.all (fun d => ['\\', d].all isSpace == isSpace d) = true := by decide
      rw [e]
      exact eq_of_beq (List.all_eq_true.1 symbols c listed)
    · rw [e, List.all_cons, List.all_nil, Bool.and_true]
  rw [escape, List.all_flatMap]
  simp only [same]

/-- Escaping brings no line feed in. -/
theorem feed_not_mem_escape {s : List Char} (h : '\n' ∉ s) : '\n' ∉ escape s := by
  intro feed
  obtain ⟨c, member, inside⟩ := List.mem_flatMap.1 feed
  rcases escapeChar_cases c with ⟨name, listed, e⟩ | ⟨listed, e⟩ | ⟨-, e⟩
  · have words : ∀ pair ∈ spelled, '\n' ∉ closedWord pair.2 := by decide
    exact words (c, name) listed (e ▸ inside)
  · have symbols : slashed.all (fun d => !(['\\', d].contains '\n')) = true := by decide
    have absent := List.all_eq_true.1 symbols c listed
    rw [← e, List.contains_iff_mem.2 inside] at absent
    cases absent
  · rw [e, List.mem_singleton] at inside
    exact h (inside ▸ member)

variable {content : String} {part : List Char}

/-- A paragraph is a line that has text. -/
theorem exists_of_mem_paragraphTexts (member : part ∈ paragraphTexts content) :
    ∃ line ∈ lines content.toList, line.all isSpace = false ∧ part = escape (trimChars line) := by
  obtain ⟨line, among, rfl⟩ := List.mem_map.1 member
  obtain ⟨among, text⟩ := List.mem_filter.1 among
  rw [hasText_ofList, Bool.not_eq_true'] at text
  exact ⟨line, among, text, rfl⟩

theorem feed_not_mem_paragraph (member : part ∈ paragraphTexts content) : '\n' ∉ part := by
  obtain ⟨line, among, -, rfl⟩ := exists_of_mem_paragraphTexts member
  apply feed_not_mem_escape
  intro feed
  obtain ⟨before, after, -, -, whole⟩ := trimChars_split line
  apply feed_not_mem_lines line among
  rw [whole]
  exact List.mem_append_right _ (List.mem_append_left _ feed)

/-- Something is seen of each paragraph. -/
theorem paragraph_visible (member : part ∈ paragraphTexts content) : part.all isSpace = false := by
  obtain ⟨line, -, text, rfl⟩ := exists_of_mem_paragraphTexts member
  rw [all_isSpace_escape, Bool.eq_false_iff, Ne, all_trimChars, text]
  exact Bool.false_ne_true

/-- No paragraph ends early. -/
theorem isPart_paragraph (member : part ∈ paragraphTexts content) : IsPart paragraphEnd part := by
  have forms : spellings.all (isAbsent paragraphEnd) = true := by decide
  obtain ⟨line, -, -, rfl⟩ := exists_of_mem_paragraphTexts member
  exact (absent_escape (fun f among => .of_check (List.all_eq_true.1 forms f among)) _).isPart

/-! ### Paragraphs one after the other -/

variable {parts : List (List Char)}

/-- Behind a paragraph the line ends, and the next one begins. -/
theorem intercalate_paragraphs (p q : List Char) (others : List (List Char)) :
    paragraphEnd.intercalate (p :: q :: others) =
      (p ++ "\\par".toList) ++ '\n' :: paragraphEnd.intercalate (q :: others) := by
  have marker : paragraphEnd = "\\par".toList ++ ['\n'] := by decide
  rw [List.intercalate_cons_cons, List.append_assoc, List.append_assoc]
  nth_rewrite 1 [marker]
  rw [List.append_assoc, List.singleton_append]

theorem feed_not_mem_ended {p : List Char} (h : '\n' ∉ p) : '\n' ∉ p ++ "\\par".toList := by
  rw [List.mem_append, not_or]
  exact ⟨h, by decide⟩

/-- The only line feeds are those at the ends of paragraphs. -/
theorem suffix_of_feed (lined : ∀ p ∈ parts, '\n' ∉ p) {before behind : List Char}
    (whole : paragraphEnd.intercalate parts = before ++ '\n' :: behind) : "\\par".toList <:+ before := by
  induction parts generalizing before with
  | nil => simp at whole
  | cons p others ih =>
      have first := lined p List.mem_cons_self
      cases others with
      | nil =>
          rw [List.intercalate_singleton] at whole
          exact absurd (by simp [whole]) first
      | cons q others =>
          rw [intercalate_paragraphs] at whole
          by_cases later : '\n' ∈ before
          · -- the line feed stands behind the end of the first paragraph
            obtain ⟨front, back, rfl, none⟩ := List.eq_append_cons_of_mem later
            rw [List.append_assoc front, List.cons_append] at whole
            obtain ⟨-, rest⟩ := eq_of_cut_first (feed_not_mem_ended first) none whole
            have inside := ih (fun r member => lined r (List.mem_cons_of_mem p member)) rest
            exact inside.trans ((List.suffix_cons '\n' back).trans (List.suffix_append front _))
          · obtain ⟨rfl, -⟩ := eq_of_cut_first (feed_not_mem_ended first) later whole
            exact List.suffix_append p _

/-- Each line of what is written begins with a paragraph. -/
theorem exists_prefix_of_mem_splitLines (some : parts ≠ []) (lined : ∀ p ∈ parts, '\n' ∉ p) :
    ∀ line ∈ splitLines (paragraphEnd.intercalate parts), ∃ p ∈ parts, p <+: line := by
  induction parts with
  | nil => exact absurd rfl some
  | cons p others ih =>
      have first := lined p List.mem_cons_self
      cases others with
      | nil =>
          rw [List.intercalate_singleton, splitLines_of_not_mem first]
          intro line member
          rw [List.mem_singleton.1 member]
          exact ⟨p, List.mem_cons_self, List.prefix_refl p⟩
      | cons q others =>
          rw [intercalate_paragraphs, splitLines_feed, splitLines_of_not_mem (feed_not_mem_ended first)]
          intro line member
          rcases List.mem_cons.1 member with rfl | later
          · exact ⟨p, List.mem_cons_self, List.prefix_append p _⟩
          · obtain ⟨r, among, begins⟩ :=
              ih (List.cons_ne_nil q others) (fun r member => lined r (List.mem_cons_of_mem p member)) line later
            exact ⟨r, List.mem_cons_of_mem p among, begins⟩

/-! ### The text as a whole -/

/-- What is written of a text of several lines. -/
structure ShowsParagraphs (content : String) : Prop where
  /-- Cut at the ends of paragraphs, it is the lines that have text, each trimmed and escaped. It is empty where
  there are none. -/
  split : paragraphTexts content ≠ [] →
    splitOn paragraphEnd (paragraphs content).render = paragraphTexts content
  none : paragraphTexts content = [] → (paragraphs content).render = []
  /-- No paragraph is empty or blank. -/
  visible : ∀ part ∈ paragraphTexts content, part.all isSpace = false
  /-- A line feed stands nowhere but at the end of a paragraph, and no line is blank. -/
  feeds : ∀ before behind, (paragraphs content).render = before ++ '\n' :: behind → "\\par".toList <:+ before
  lines : hasText content = true → ∀ line ∈ splitLines (paragraphs content).render, line.all isSpace = false
  /-- Something is written exactly where the text says anything, as it is judged for a section without a title. -/
  filled : (paragraphs content).render ≠ [] ↔ hasText content = true
  meaningful : ∀ s : CustomSection, s.content = content → hasText s.title = false →
    (s.isMeaningful = true ↔ (paragraphs content).render ≠ [])

theorem render_paragraphs_ne_nil : (paragraphs content).render ≠ [] ↔ hasText content = true := by
  rw [Ne, ← Source.isBlank_iff, isBlank_paragraphs, Bool.not_eq_true', Bool.not_eq_false]

theorem showsParagraphs (content : String) : ShowsParagraphs content where
  split some := by
    rw [render_paragraphs]
    exact splitOn_intercalate some fun part member => isPart_paragraph member
  none empty := by
    rw [render_paragraphs, empty]
    rfl
  visible part member := paragraph_visible member
  feeds before behind whole := by
    rw [render_paragraphs] at whole
    exact suffix_of_feed (fun part member => feed_not_mem_paragraph member) whole
  lines text line member := by
    have some : paragraphTexts content ≠ [] := by
      intro empty
      apply render_paragraphs_ne_nil.2 text
      rw [render_paragraphs, empty]
      rfl
    rw [render_paragraphs] at member
    obtain ⟨part, among, rest, rfl⟩ :=
      exists_prefix_of_mem_splitLines some (fun part member => feed_not_mem_paragraph member) line member
    rw [List.all_append, paragraph_visible among, Bool.false_and]
  filled := render_paragraphs_ne_nil
  meaningful s same title := by
    rw [render_paragraphs_ne_nil, CustomSection.isMeaningful, title, same, Bool.false_or]

/-- More or less space between the lines of a text and around them shows the same. -/
theorem shownLines_respaced {s t : List Char} (h : Relation.EqvGen Respaced s t) : shownLines s = shownLines t := by
  induction h with
  | rel _ _ step => exact step.shownLines.symm
  | refl _ => rfl
  | symm _ _ _ ih => exact ih.symm
  | trans _ _ _ _ _ first second => exact first.trans second

/-- Text of several lines becomes one paragraph for each line that has text, and how the lines are ended, blank lines
and the space around lines make no difference. -/
theorem paragraphs_faithful :
    (∀ content, ShowsParagraphs content) ∧
    (∀ s t : String, Relation.EqvGen Respaced s.toList t.toList → paragraphs s = paragraphs t) := by
  refine ⟨showsParagraphs, ?_⟩
  intro s t h
  rw [paragraphs_eq, paragraphs_eq, shownLines_respaced h]

/-- Two lines are two paragraphs, the end of a paragraph that the user types is none, and more space shows the
same. -/
theorem paragraphs_faithful_respaced :
    splitOn paragraphEnd (paragraphs "50% off\n\\par").render =
        ["50\\% off".toList, "\\textbackslash\x7b\x7dpar".toList] ∧
      paragraphs "50% off\n\\par" = paragraphs " 50% off\r\n\t\n\\par" := by
  obtain ⟨shows, same⟩ := paragraphs_faithful
  have texts : paragraphTexts "50% off\n\\par" = ["50\\% off".toList, "\\textbackslash\x7b\x7dpar".toList] := by
    decide
  constructor
  · rw [← texts]
    apply (shows _).split
    rw [texts]
    exact List.cons_ne_nil _ _
  · apply same
    have spaced : Respaced "50% off\n\\par".toList " 50% off\n\\par".toList :=
      .lineStart [] "50% off\n\\par".toList [' '] rfl (.inl rfl)
    have apart : Respaced " 50% off\n\\par".toList " 50% off\n\t\n\\par".toList :=
      .blankLine " 50% off".toList "\\par".toList ['\t'] rfl
    have ended : Respaced " 50% off\n\t\n\\par".toList " 50% off\r\n\t\n\\par".toList :=
      .carriage " 50% off".toList "\t\n\\par".toList
    exact .trans _ _ _ (.rel _ _ spaced) (.trans _ _ _ (.rel _ _ apart) (.rel _ _ ended))

end Vitae
