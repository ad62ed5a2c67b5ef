/-
Module: Vitae.Proofs.Tex.Input
Layer: Proofs
Purpose: How TeX takes in text: line by line, with two carets and what follows them seen as one character,
  each character by its category, and from a state that decides what becomes of spaces and line ends.
Imports: Vitae.Tex.Escape, Vitae.Text.Hex, Vitae.Text.Lines
Main exports: Category, category, Carets, sights, Item, State, readLine, inputLines, reading
-/
import Vitae.Tex.Escape
import Vitae.Text.Hex
import Vitae.Text.Lines

namespace Vitae.Tex.Input

/-! ### Categories -/

/-- What TeX takes a character for. -/
inductive Category where
  | escape
  | opening
  | closing
  | math
  | alignment
  | lineEnd
  | parameter
  | superscript
  | subscript
  | ignored
  | space
  | letter
  | other
  | active
  | comment
  | invalid
deriving Repr, DecidableEq

/-- The characters that TeX takes for something of their own where a document has not changed it. -/
def specials : List (Char × Category) :=
  [('\\', .escape), ('\x7b', .opening), ('\x7d', .closing), ('$', .math), ('&', .alignment),
   ('\r', .lineEnd), ('#', .parameter), ('^', .superscript), ('_', .subscript), ('\x00', .ignored),
   (' ', .space), ('\t', .space), ('~', .active), ('\x0c', .active), ('%', .comment), ('\x7f', .invalid)]

/-- The category of a character. -/
def category (c : Char) : Category :=
  (specials.lookup c).getD (if c.isAlpha then .letter else .other)

/-! ### Carets

Two carets and two lowercase hexadecimal digits are seen as the character with that code, and two carets and
any other ASCII character as the character whose code is 64 away. A caret that is seen so may itself be one of
two. -/

/-- How much of two carets and what follows them is read. -/
inductive Carets where
  | none
  | one
  | two
  | half (digit : Char)
deriving Repr, DecidableEq

/-- The value of a lowercase hexadecimal digit. -/
def lowerHex? (c : Char) : Option Nat :=
  if c.isUpper then none else Text.hexDigit? c

/-- The ASCII character whose code is 64 away. -/
def mirror (c : Char) : Char :=
  if c.toNat < 64 then Char.ofNat (c.toNat + 64) else Char.ofNat (c.toNat - 64)

namespace Carets

/-- Read a character that does not belong to carets before it. -/
def enter (c : Char) : List Char × Carets :=
  if c = '^' then ([], .one) else ([c], .none)

/-- Read a character: what is seen then, and how much of the next carets is read. -/
def read : Carets → Char → List Char × Carets
  | .none, c => enter c
  | .one, c => if c = '^' then ([], .two) else (['^', c], .none)
  | .two, c =>
      if (lowerHex? c).isSome then ([], .half c)
      else if c.toNat < 128 then enter (mirror c)
      else (['^', '^', c], .none)
  | .half a, c =>
      match lowerHex? a, lowerHex? c with
      | some m, some n => enter (Char.ofNat (16 * m + n))
      | _, _ => (mirror a :: (enter c).1, (enter c).2)

/-- What is seen of carets at the end of the line. -/
def rest : Carets → List Char
  | .none => []
  | .one => ['^']
  | .two => ['^', '^']
  | .half a => [mirror a]

end Carets

/-- The characters that are seen in the rest of a line. -/
def sightsFrom : Carets → List Char → List Char
  | carets, [] => carets.rest
  | carets, c :: s => (carets.read c).1 ++ sightsFrom (carets.read c).2 s

/-- The characters that are seen in a line. -/
def sights (line : List Char) : List Char :=
  sightsFrom .none line

/-! ### States -/

/-- What a line is read as: control sequences, characters with their categories, and comments. -/
inductive Item where
  | control (name : List Char)
  | char (c : Char) (category : Category)
  | comment
deriving Repr, DecidableEq

/-- Where in a line TeX is: at its beginning, in the middle of it, or where it skips spaces. -/
inductive Place where
  | newLine
  | midLine
  | skipping
deriving Repr, DecidableEq

/-- What TeX is in the middle of: nothing, a control sequence of which only the backslash is read, a control
word, or a line of which nothing more is read. -/
inductive State where
  | place (p : Place)
  | slash
  | word (name : List Char)
  | over
deriving Repr, DecidableEq

/-- What the end of a line is read as. At the beginning of a line it ends the paragraph. -/
def Place.lineEnd : Place → List Item
  | .newLine => [.control "par".toList]
  | .midLine => [.char ' ' .space]
  | .skipping => []

/-- What a space is read as, and where TeX is behind it. -/
def Place.space : Place → List Item × Place
  | .newLine => ([], .newLine)
  | .midLine => ([.char ' ' .space], .skipping)
  | .skipping => ([], .skipping)

/-- Read a character by its category. The end of a line and a comment drop what else stands in the line. -/
def Place.read (p : Place) (c : Char) : List Item × State :=
  match category c with
  | .escape => ([], .slash)
  | .lineEnd => (p.lineEnd, .over)
  | .comment => ([.comment], .over)
  | .ignored => ([], .place p)
  | .invalid => ([], .place p)
  | .space => (p.space.1, .place p.space.2)
  | k => ([.char c k], .place .midLine)

namespace State

/-- Read a character: the items it completes, and what TeX is in the middle of then. A control word takes all
the letters that follow the backslash, and spaces behind it are skipped. -/
def read : State → Char → List Item × State
  | .place p, c => p.read c
  | .slash, c =>
      if c.isAlpha then ([], .word [c])
      else ([.control [c]], .place (if category c = .space then .skipping else .midLine))
  | .word name, c =>
      if c.isAlpha then ([], .word (name ++ [c]))
      else (.control name :: (Place.skipping.read c).1, (Place.skipping.read c).2)
  | .over, _ => ([], .over)

/-- What the end of the text completes. -/
def pending : State → List Item
  | .slash => [.control []]
  | .word name => [.control name]
  | _ => []

end State

/-- Read the characters that are seen in a line. -/
def run : State → List Char → List Item
  | state, [] => state.pending
  | state, c :: s => (state.read c).1 ++ run (state.read c).2 s

/-- Read a line. -/
def readLine (p : Place) (line : List Char) : List Item :=
  run (.place p) (sights line)

/-! ### Lines -/

/-- A line without the blanks at its right end. -/
def dropBlanks (line : List Char) : List Char :=
  (line.reverse.dropWhile (· == ' ')).reverse

/-- Lines as TeX takes them in: a return takes the place of the blanks at the right end of each line. The last
line goes on with what follows the text. -/
def closeLines : List (List Char) → List (List Char)
  | [] => []
  | [last] => [last]
  | line :: next :: others => (dropBlanks line ++ ['\r']) :: closeLines (next :: others)

/-- The lines of a text as TeX takes them in. -/
def inputLines (s : List Char) : List (List Char) :=
  closeLines (Text.splitLines s)

/-- What a text in the middle of a line is read as. -/
def reading (s : List Char) : List Item :=
  match inputLines s with
  | [] => []
  | first :: others => readLine .midLine first ++ others.flatMap (readLine .newLine)

end Vitae.Tex.Input
