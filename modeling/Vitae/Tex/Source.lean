/-
Module: Vitae.Tex.Source
Layer: Tex
Purpose: TeX source as a sequence of pieces that remember where they come from: the library's own code,
  text of the user, and link targets of the user. Text and targets are escaped when source is printed,
  and nowhere else, so each is escaped once.
Imports: Vitae.Tex.Escape, Vitae.Text.Space
Main exports: Piece, Source, Source.render, group, command, href, joinNonEmpty
-/
import Vitae.Tex.Escape
import Vitae.Text.Space

namespace Vitae.Tex

open Text (trim hasText)

/-- A piece of source. -/
inductive Piece where
  | code (s : String)
  | text (raw : String)
  | url (raw : String)
deriving Repr, DecidableEq

namespace Piece

/-- The characters of a piece. -/
def render : Piece → List Char
  | .code s => s.toList
  | .text raw => escape raw.toList
  | .url raw => escapeUrl raw.toList

/-- A piece without characters. Escaping drops none, so the string tells. -/
def isEmpty : Piece → Bool
  | .code s => s.isEmpty
  | .text raw => raw.isEmpty
  | .url raw => raw.isEmpty

theorem flatMap_eq_nil {f : Char → List Char} (h : ∀ c, f c ≠ []) {s : String} :
    s.toList.flatMap f = [] ↔ s.isEmpty = true := by
  rw [List.flatMap_eq_nil_iff, String.isEmpty_iff, ← String.toList_eq_nil_iff]
  constructor
  · intro none
    cases chars : s.toList with
    | nil => rfl
    | cons c rest => exact absurd (none c (by simp [chars])) (h c)
  · intro empty c member
    simp [empty] at member

/-- A piece is empty exactly where it has no characters. -/
theorem isEmpty_iff {p : Piece} : p.isEmpty = true ↔ p.render = [] := by
  cases p with
  | code s =>
      simp only [isEmpty, render]
      rw [String.isEmpty_iff, String.toList_eq_nil_iff]
  | text raw => exact (flatMap_eq_nil escapeChar_ne_nil).symm
  | url raw => exact (flatMap_eq_nil escapeUrlChar_ne_nil).symm

end Piece

/-- TeX source. -/
abbrev Source := List Piece

namespace Source

/-- The characters of source. -/
def render (s : Source) : List Char :=
  s.flatMap Piece.render

/-- The text of source. -/
def toText (s : Source) : String :=
  String.ofList s.render

/-- Source without characters. -/
def isBlank (s : Source) : Bool :=
  s.all Piece.isEmpty

@[simp] theorem render_nil : render [] = [] := rfl

@[simp] theorem render_cons (p : Piece) (s : Source) : render (p :: s) = p.render ++ render s :=
  List.flatMap_cons

@[simp] theorem render_append (s t : Source) : render (s ++ t) = render s ++ render t :=
  List.flatMap_append

/-- Source is blank exactly where it has no characters. -/
theorem isBlank_iff {s : Source} : s.isBlank = true ↔ s.render = [] := by
  unfold isBlank render
  rw [List.all_eq_true, List.flatMap_eq_nil_iff]
  constructor
  · intro h p member
    exact Piece.isEmpty_iff.1 (h p member)
  · intro h p member
    exact Piece.isEmpty_iff.2 (h p member)

end Source

/-- The library's own code. -/
def code (s : String) : Source :=
  [.code s]

/-- Text of the user, without the space around it. Nothing is left of blank text. -/
def text (raw : String) : Source :=
  if hasText raw then [.text (trim raw)] else []

/-- A group in braces. -/
def group (body : Source) : Source :=
  code "\x7b" ++ body ++ code "\x7d"

@[simp] theorem render_group (body : Source) :
    Source.render (group body) = '\x7b' :: (body.render ++ ['\x7d']) := by
  simp [group, code, Piece.render]

/-- A control word with its arguments in braces. -/
def command (name : String) (arguments : List Source) : Source :=
  code ("\\" ++ name) ++ arguments.flatMap group

/-- A link that shows `shown` and leads to `target`. -/
def href (target : Source) (shown : Source) : Source :=
  command "href" [target, shown]

/-- An environment: its opening with the options behind it, and the body on lines of its own. -/
def environment (name options : String) (body : Source) : Source :=
  code ("\\begin\x7b" ++ name ++ "\x7d" ++ options ++ "\n") ++ body ++
    code ("\n\\end\x7b" ++ name ++ "\x7d")

/-- The parts with a separator between them. -/
def join (separator : Source) (parts : List Source) : Source :=
  separator.intercalate parts

/-- The parts that have characters, with a separator between them. -/
def joinNonEmpty (separator : Source) (parts : List Source) : Source :=
  join separator (parts.filter fun part => !part.isBlank)

end Vitae.Tex
