/-
Module: Vitae.Json.Token
Layer: Json
Purpose: The lexemes of JSON. A text is cut into lexemes up to its end or to the first place where no
  lexeme can be read.
Imports: Vitae.Json.Numeral, Vitae.Json.Quoted
Main exports: Token, Token.scan?, Token.ofText
-/
import Vitae.Json.Numeral
import Vitae.Json.Quoted

namespace Vitae.Json

/-- A lexeme. `broken` is the place where the text stops being JSON. -/
inductive Token where
  | openArray
  | closeArray
  | openObject
  | closeObject
  | comma
  | colon
  | null
  | bool (b : Bool)
  | number (n : Numeral)
  | string (t : Quoted)
  | broken
deriving Repr, DecidableEq

namespace Token

/-- The characters that may stand between lexemes. -/
def isBlank (c : Char) : Bool :=
  c == ' ' || c == '\t' || c == '\n' || c == '\r'

/-- Read a number, a string or one of the three words. -/
def scanScalar? : List Char → Option (Token × List Char)
  | '"' :: rest => (Quoted.scan rest).map fun (t, rest) => (.string t, rest)
  | 'n' :: 'u' :: 'l' :: 'l' :: rest => some (.null, rest)
  | 't' :: 'r' :: 'u' :: 'e' :: rest => some (.bool true, rest)
  | 'f' :: 'a' :: 'l' :: 's' :: 'e' :: rest => some (.bool false, rest)
  | s => (Numeral.scan s).map fun (n, rest) => (.number n, rest)

/-- Read one lexeme and give what follows it. -/
def scan? : List Char → Option (Token × List Char)
  | '[' :: rest => some (.openArray, rest)
  | ']' :: rest => some (.closeArray, rest)
  | '\x7b' :: rest => some (.openObject, rest)
  | '\x7d' :: rest => some (.closeObject, rest)
  | ',' :: rest => some (.comma, rest)
  | ':' :: rest => some (.colon, rest)
  | s => scanScalar? s

theorem scanScalar?_shorter {s rest : List Char} {t : Token} (h : scanScalar? s = some (t, rest)) :
    rest.length < s.length := by
  unfold scanScalar? at h
  split at h
  · simp only [Option.map_eq_some_iff] at h
    obtain ⟨⟨q, rest'⟩, h, e⟩ := h
    cases e
    exact Nat.lt_succ_of_lt (Quoted.scan_shorter h)
  · grind
  · grind
  · grind
  · simp only [Option.map_eq_some_iff] at h
    obtain ⟨⟨n, rest'⟩, h, e⟩ := h
    cases e
    exact Numeral.scan_shorter h

theorem scan?_shorter {s rest : List Char} {t : Token} (h : scan? s = some (t, rest)) :
    rest.length < s.length := by
  unfold scan? at h
  split at h
  all_goals first
    | exact scanScalar?_shorter h
    | grind

/-- Cut a text into lexemes. `done` holds the lexemes before, latest first. -/
def ofTextAfter (done : List Token) (s : List Char) : List Token :=
  match s with
  | [] => done.reverse
  | c :: rest =>
      if isBlank c then ofTextAfter done rest
      else match _found : scan? (c :: rest) with
        | some (t, after) => ofTextAfter (t :: done) after
        | none => (broken :: done).reverse
termination_by s.length
decreasing_by
  · simp
  · exact scan?_shorter _found

/-- The lexemes of a text. -/
def ofText (s : List Char) : List Token :=
  ofTextAfter [] s

end Token

end Vitae.Json
