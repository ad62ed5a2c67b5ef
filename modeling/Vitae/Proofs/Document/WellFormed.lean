/-
Module: Vitae.Proofs.Document.WellFormed
Layer: Proofs
Purpose: Every document is well formed, whatever is typed into the resume and its options: its landmarks
  stand once each and in their places, its braces and environments are closed, and no placeholder is left.
Imports: Vitae.Proofs.Document.Layout
Main exports: isWellFormed, wellFormed_render
-/
import Vitae.Proofs.Document.Layout

namespace Vitae.Template

open Tex

/-- Decide whether a text is a well-formed document. It begins with its class and ends with its end, where
space around it does not count. Each landmark occurs once. The depth of its braces never falls below
nothing and is nothing at the end, its environments are closed in their order, and no brace is doubled. -/
def isWellFormed (s : List Char) : Bool :=
  classCommand.isPrefixOf s && endDocument.isSuffixOf (Text.trimChars s) &&
    landmarks.all (fun landmark => occurrences landmark s == 1) &&
    braceDepth .plain 0 s == some 0 && environmentsClosed s && occurrences doubledBrace s == 0

/-- Space around a text is dropped up to its first and its last visible character. -/
theorem trimChars_of_visible {first last : Char} {inner space : List Char}
    (visible : Text.isSpace first = false) (visible' : Text.isSpace last = false)
    (blank : space.all Text.isSpace = true) :
    Text.trimChars (first :: (inner ++ last :: space)) = first :: (inner ++ [last]) := by
  have left : Text.trimLeft (first :: (inner ++ last :: space)) = first :: (inner ++ last :: space) := by
    simp [Text.trimLeft, visible]
  have right : (first :: (inner ++ last :: space)).reverse =
      space.reverse ++ last :: (first :: inner).reverse := by
    simp
  have dropped : Text.trimLeft (space.reverse ++ last :: (first :: inner).reverse) =
      last :: (first :: inner).reverse := by
    rw [Text.trimLeft, List.dropWhile_append_of_pos (by simpa using blank)]
    simp [visible']
  rw [Text.trimChars, left, right, dropped]
  simp

/-- A document ends with its end, but for the end of the line. -/
theorem endDocument_suffix (front body : List Char) :
    endDocument.isSuffixOf (Text.trimChars (documentText front body)) = true := by
  have head : ∀ t, classCommand ++ t = '\\' :: (classCommand.tail ++ t) := by
    intro t
    have command : classCommand = '\\' :: classCommand.tail := by decide
    exact congrArg (· ++ t) command
  have last : '\n' :: (endDocument ++ ['\n']) = '\n' :: endDocument.dropLast ++ '\x7d' :: ['\n'] := by
    decide
  have shape : documentText front body =
      '\\' :: ((classCommand.tail ++ (('[' :: front) ++ (beginDocument ++ ['\n'] ++
        (body ++ ('\n' :: endDocument.dropLast))))) ++ '\x7d' :: ['\n']) := by
    rw [documentText, head, last]
    simp only [List.append_assoc, List.cons_append]
  have whole : endDocument = endDocument.dropLast ++ ['\x7d'] := by decide
  rw [shape, trimChars_of_visible (by decide) (by decide) (by decide), List.isSuffixOf_iff_suffix,
    whole, List.dropLast_concat]
  refine ⟨'\\' :: (classCommand.tail ++ (('[' :: front) ++ (beginDocument ++ ['\n'] ++
    (body ++ ['\n'])))), ?_⟩
  simp only [List.append_assoc, List.cons_append, List.nil_append]

/-- A text between the landmarks of a document, as far as the checks of a document go. -/
theorem wellFormed_frame {front body : List Char} (hf : Inert .tight ('[' :: front))
    (hb : Calm .loose body) (clear : Unmarked body)
    (closed : ∀ names rest, close names (marks body ++ rest) = close names rest) :
    isWellFormed (documentText front body) = true := by
  have hc : Calm .loose classCommand := .of_check (by decide)
  have opens : Calm .tight (beginDocument ++ ['\n']) := .of_check (by decide)
  have closes : Calm .tight ('\n' :: (endDocument ++ ['\n'])) := .of_check (by decide)
  have ending := hb.append_detached closes (by decide) (by simp)
  have main := opens.append ending
  have behind := hf.toCalm.append main
  have whole : Calm .tight (documentText front body) :=
    hc.append_detached behind (by simp [Detached]) (by simp)
  have counted : ∀ landmark ∈ landmarks, occurrences landmark (documentText front body) = 1 := by
    intro landmark member
    have own : ∀ landmark ∈ landmarks, occurrences landmark classCommand +
        (occurrences landmark (beginDocument ++ ['\n']) +
          occurrences landmark ('\n' :: (endDocument ++ ['\n']))) = 1 := by decide
    rw [documentText, hc.settled landmark member, hf.settled landmark member, hf.unmarked landmark member,
      opens.settled landmark member, hb.settled landmark member, clear landmark member,
      Nat.zero_add, Nat.zero_add]
    exact own landmark member
  have environments : close [] (marks (documentText front body)) = some [] := by
    have first : marks classCommand = [] := by decide
    have second : marks (beginDocument ++ ['\n']) = [.begins "document".toList] := by decide
    have third : marks ('\n' :: (endDocument ++ ['\n'])) = [.ends "document".toList] := by decide
    rw [documentText, marks_append hc.sought, marks_append hf.sought, marks_append opens.sought,
      marks_append hb.sought, first, List.nil_append, hf.nested.close, second, List.singleton_append,
      close, closed, third]
    rfl
  have start : classCommand.isPrefixOf (documentText front body) = true := by
    rw [List.isPrefixOf_iff_prefix]
    exact List.prefix_append _ _
  simp only [isWellFormed, Bool.and_eq_true, List.all_eq_true, beq_iff_eq]
  refine ⟨⟨⟨⟨⟨start, endDocument_suffix front body⟩, counted⟩, ?_⟩, ?_⟩, whole.single⟩
  · rw [braceDepth_eq]
    exact whole.balanced
  · have complete : (seek .outside (documentText front body)).2 = .outside := whole.sought
    rw [environmentsClosed, complete, environments]
    rfl

theorem wellFormed_chars (key : TemplateKey) (r : Resume) (look : Look) :
    isWellFormed ((Design.ofKey key).chars (r.manuscript look)) = true := by
  obtain ⟨front, sober, shape⟩ := chars_document key look
  have sound := Design.sound key
  simp only [Design.isSound, Bool.and_eq_true, decide_eq_true_eq] at sound
  obtain ⟨⟨parts, joints⟩, nested⟩ := sound
  obtain ⟨calm, clear, marked, -⟩ := tokens_parts r look parts joints
  rw [shape r]
  refine wellFormed_frame sober.toInert calm clear ?_
  intro names rest
  rw [Design.bodyText, marked]
  exact nested.close names rest

/-- Every document is well formed: for every resume, all options and every design. -/
theorem wellFormed_render (key : TemplateKey) (r : Resume) (o : StyleOptions) :
    isWellFormed ((Design.ofKey key).render (Manuscript.ofResume r o).value).toList = true := by
  rw [value_ofResume, Design.render, String.toList_ofList]
  exact wellFormed_chars key r _

end Vitae.Template
