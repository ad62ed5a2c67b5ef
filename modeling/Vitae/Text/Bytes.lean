/-
Module: Vitae.Text.Bytes
Layer: Text
Purpose: Places in a text that are counted in bytes of UTF-8. Only at a border between two characters can a
  text be cut.
Imports: none
Main exports: utf8Length, cutAt?, BadRange, slice
-/

namespace Vitae.Text

/-- The number of bytes of a text. -/
def utf8Length : List Char → Nat
  | [] => 0
  | c :: rest => c.utf8Size + utf8Length rest

/-- The characters before and behind a place, if the place lies at a border. -/
def cutAt? : Nat → List Char → Option (List Char × List Char)
  | 0, s => some ([], s)
  | _ + 1, [] => none
  | place + 1, c :: rest =>
      if c.utf8Size ≤ place + 1 then
        (cutAt? (place + 1 - c.utf8Size) rest).map fun parts => (c :: parts.1, parts.2)
      else none

/-- A range of bytes that runs backwards, or an end of which is no border inside the text. -/
structure BadRange where
  start : Nat
  stop : Nat
deriving Repr, DecidableEq

/-- The characters in a range of bytes. To ask for a bad range is an error that nothing handles. -/
def slice (start stop : Nat) (s : List Char) : Except BadRange (List Char) :=
  if stop < start then .error ⟨start, stop⟩
  else match cutAt? start s with
    | none => .error ⟨start, stop⟩
    | some (_, behind) => match cutAt? (stop - start) behind with
      | none => .error ⟨start, stop⟩
      | some (within, _) => .ok within

end Vitae.Text
