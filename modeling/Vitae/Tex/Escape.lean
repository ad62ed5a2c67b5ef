/-
Module: Vitae.Tex.Escape
Layer: Tex
Purpose: Text and link targets in TeX source. Each character is written on its own, so what a character
  becomes is never looked at again.
Imports: none
Main exports: isReserved, escapeChar, escape, escapeUrlChar, escapeUrl
-/

namespace Vitae.Tex

/-- The characters that TeX or its text fonts do not take as themselves. -/
def isReserved (c : Char) : Bool :=
  c ∈ ['\\', '&', '%', '$', '#', '_', '\x7b', '\x7d', '~', '^', '<', '>']

/-- A control word followed by an empty group, which ends the word. -/
def closedWord (name : String) : List Char :=
  '\\' :: (name.toList ++ ['\x7b', '\x7d'])

/-- The source of a character of text. -/
def escapeChar (c : Char) : List Char :=
  if c = '\\' then closedWord "textbackslash"
  else if c = '~' then closedWord "textasciitilde"
  else if c = '^' then closedWord "textasciicircum"
  else if c = '<' then closedWord "textless"
  else if c = '>' then closedWord "textgreater"
  else if isReserved c then ['\\', c]
  else [c]

/-- The source of a text. -/
def escape (s : List Char) : List Char :=
  s.flatMap escapeChar

/-- The source of a character of a link target. The percent sign of a percent code is escaped too. -/
def escapeUrlChar (c : Char) : List Char :=
  if c = '#' then "\\#".toList
  else if c = '%' then "\\%".toList
  else if c = '\\' then "\\%5C".toList
  else if c = '\x7b' then "\\%7B".toList
  else if c = '\x7d' then "\\%7D".toList
  else [c]

/-- The source of a link target. -/
def escapeUrl (s : List Char) : List Char :=
  s.flatMap escapeUrlChar

@[simp] theorem escape_nil : escape [] = [] := rfl

@[simp] theorem escape_append (s t : List Char) : escape (s ++ t) = escape s ++ escape t :=
  List.flatMap_append

@[simp] theorem escapeUrl_nil : escapeUrl [] = [] := rfl

@[simp] theorem escapeUrl_append (s t : List Char) :
    escapeUrl (s ++ t) = escapeUrl s ++ escapeUrl t :=
  List.flatMap_append

theorem escapeChar_ne_nil (c : Char) : escapeChar c ≠ [] := by
  unfold escapeChar closedWord
  repeat' split
  all_goals simp

theorem escapeUrlChar_ne_nil (c : Char) : escapeUrlChar c ≠ [] := by
  unfold escapeUrlChar
  repeat' split
  all_goals simp

/-- A character that is not reserved is its own source. -/
theorem escapeChar_of_not_reserved {c : Char} (h : isReserved c = false) : escapeChar c = [c] := by
  unfold escapeChar
  simp only [isReserved, decide_eq_false_iff_not, List.mem_cons, not_or] at h
  simp [isReserved, h]

end Vitae.Tex
