/-
Module: Vitae.Template.Placeholder
Layer: Template
Purpose: Text with placeholders, names in double braces, and filling them in one after the other.
Imports: none
Main exports: replace, placeholder, fill, braced
-/

namespace Vitae.Template

/-- Replace the pattern by the value wherever it occurs, from left to right. The first `skip`
characters belong to an occurrence already replaced. A pattern is not empty. -/
def replaceAfter (pattern value : List Char) (skip : Nat) : List Char → List Char
  | [] => []
  | c :: rest =>
      match skip with
      | skip + 1 => replaceAfter pattern value skip rest
      | 0 =>
          if pattern.isPrefixOf (c :: rest) then
            value ++ replaceAfter pattern value (pattern.length - 1) rest
          else c :: replaceAfter pattern value 0 rest

/-- Replace the pattern by the value wherever it occurs, from left to right. -/
def replace (pattern value text : List Char) : List Char :=
  replaceAfter pattern value 0 text

/-- The placeholder of a name. -/
def placeholder (name : String) : List Char :=
  ['\x7b', '\x7b'] ++ name.toList ++ ['\x7d', '\x7d']

/-- Fill in the values of names, one name after the other. A value is searched for the names that come
after its own. -/
def fill (template : List Char) (values : List (String × List Char)) : List Char :=
  values.foldl (fun text (name, value) => replace (placeholder name) value text) template

/-- Source written with angle brackets in the place of braces. -/
def braced (s : String) : List Char :=
  s.toList.map fun c => if c = '⟨' then '\x7b' else if c = '⟩' then '\x7d' else c

/-- Lines of such source, each with its end. -/
def bracedLines (lines : List String) : List Char :=
  lines.flatMap fun line => braced line ++ ['\n']

end Vitae.Template
