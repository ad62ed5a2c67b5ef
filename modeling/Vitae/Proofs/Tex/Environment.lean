/-
Module: Vitae.Proofs.Tex.Environment
Layer: Proofs
Purpose: The beginnings and ends of environments, searched for letter by letter, and their nesting. A name
  goes up to the next closing brace. Escaped text holds no mark of an environment.
Imports: Vitae.Proofs.Tex.Token
Main exports: Mark, seek, marks, close, Nested, environmentsClosed, sought_escape
-/
import Vitae.Proofs.Tex.Token

namespace Vitae.Tex

/-- The beginning or the end of an environment, with its name. -/
inductive Mark where
  | begins (name : List Char)
  | ends (name : List Char)
deriving Repr, DecidableEq

/-- What a search for marks has found last: nothing, a backslash with characters behind it that may still
become a mark, or a mark whose name is not complete. -/
inductive Search where
  | outside
  | command (found : List Char)
  | beginning (name : List Char)
  | ending (name : List Char)
deriving Repr, DecidableEq

/-- What stands between the backslash and the name of an environment that begins. -/
def beginLetters : List Char :=
  ['b', 'e', 'g', 'i', 'n', '\x7b']

/-- What stands between the backslash and the name of an environment that ends. -/
def endLetters : List Char :=
  ['e', 'n', 'd', '\x7b']

namespace Search

/-- Go on after a backslash and some characters. -/
def ofCommand (found : List Char) : Search :=
  if found = beginLetters then .beginning []
  else if found = endLetters then .ending []
  else if found.isPrefixOf beginLetters || found.isPrefixOf endLetters then .command found
  else .outside

/-- Read a character: the mark it completes, and what is found then. -/
def read : Search → Char → List Mark × Search
  | .outside, c => ([], if c = '\\' then .command [] else .outside)
  | .command found, c => ([], if c = '\\' then .command [] else ofCommand (found ++ [c]))
  | .beginning name, c =>
      if c = '\x7d' then ([.begins name], .outside) else ([], .beginning (name ++ [c]))
  | .ending name, c =>
      if c = '\x7d' then ([.ends name], .outside) else ([], .ending (name ++ [c]))

/-- Is the name of a mark not complete? -/
def isPartial : Search → Bool
  | .beginning _ => true
  | .ending _ => true
  | _ => false

end Search

/-- Search a text: its marks, and what is found last. -/
def seek : Search → List Char → List Mark × Search
  | search, [] => ([], search)
  | search, c :: rest =>
      let (now, next) := search.read c
      let (later, last) := seek next rest
      (now ++ later, last)

/-- The marks of a text. -/
def marks (s : List Char) : List Mark :=
  (seek .outside s).1

/-- Close environments with the marks of a text, given the names of those that are open, latest first.
There is no result where an environment is closed that was not opened last. -/
def close : List (List Char) → List Mark → Option (List (List Char))
  | names, [] => some names
  | names, .begins name :: rest => close (name :: names) rest
  | [], .ends _ :: _ => none
  | opened :: names, .ends name :: rest => if opened = name then close names rest else none

/-- Every environment of a text is closed, in the order that nesting asks for. -/
def environmentsClosed (s : List Char) : Bool :=
  !(seek .outside s).2.isPartial && close [] (marks s) == some []

theorem seek_cons (search : Search) (c : Char) (rest : List Char) :
    seek search (c :: rest) =
      ((search.read c).1 ++ (seek (search.read c).2 rest).1, (seek (search.read c).2 rest).2) := rfl

/-- A search goes on where it left off. -/
theorem seek_append (search : Search) (a b : List Char) :
    seek search (a ++ b) =
      ((seek search a).1 ++ (seek (seek search a).2 b).1, (seek (seek search a).2 b).2) := by
  induction a generalizing search with
  | nil => simp [seek]
  | cons c rest ih =>
      rw [List.cons_append, seek_cons, seek_cons, ih, List.append_assoc]

/-- A text after which nothing is left to be completed. -/
def Sought (s : List Char) : Prop :=
  (seek .outside s).2 = .outside

instance (s : List Char) : Decidable (Sought s) :=
  inferInstanceAs (Decidable (_ = _))

theorem Sought.nil : Sought [] := rfl

theorem Sought.append {a b : List Char} (ha : Sought a) (hb : Sought b) : Sought (a ++ b) := by
  unfold Sought at *
  rw [seek_append, ha]
  exact hb

/-- The marks of two texts. -/
theorem marks_append {a : List Char} (h : Sought a) (b : List Char) :
    marks (a ++ b) = marks a ++ marks b := by
  unfold marks
  rw [seek_append, h]

/-- A text without a backslash has no marks. -/
theorem sought_of_not_mem {s : List Char} (h : '\\' ∉ s) : Sought s ∧ marks s = [] := by
  have found : seek .outside s = ([], .outside) := by
    induction s with
    | nil => rfl
    | cons c rest ih =>
        rw [List.mem_cons, not_or] at h
        rw [seek_cons, Search.read, if_neg (Ne.symm h.1), ih h.2]
        rfl
  exact ⟨by rw [Sought, found], by rw [marks, found]⟩

/-! ### Nesting -/

theorem close_append (names : List (List Char)) (a b : List Mark) :
    close names (a ++ b) = (close names a).bind fun names => close names b := by
  induction a generalizing names with
  | nil => rfl
  | cons m rest ih =>
      cases m with
      | begins name => exact ih (name :: names)
      | ends name =>
          cases names with
          | nil => rfl
          | cons opened names =>
              by_cases same : opened = name
              · simpa [close, same] using ih names
              · simp [close, same]

/-- What is open before a text changes nothing about the text. -/
theorem close_add {names last : List (List Char)} {a : List Mark} (h : close names a = some last)
    (more : List (List Char)) : close (names ++ more) a = some (last ++ more) := by
  induction a generalizing names with
  | nil =>
      cases h
      rfl
  | cons m rest ih =>
      cases m with
      | begins name => exact @ih (name :: names) h
      | ends name =>
          cases names with
          | nil => simp [close] at h
          | cons opened names =>
              by_cases same : opened = name
              · simp only [close, same, if_true] at h
                simpa [close, same] using ih h
              · simp [close, same] at h

/-- Every environment is closed, and none that was not opened. -/
def Nested (ms : List Mark) : Prop :=
  close [] ms = some []

instance (ms : List Mark) : Decidable (Nested ms) :=
  inferInstanceAs (Decidable (_ = _))

namespace Nested

theorem nil : Nested [] := rfl

/-- A nested sequence leaves open what was open before it. -/
theorem close {ms : List Mark} (h : Nested ms) (names : List (List Char)) (rest : List Mark) :
    Tex.close names (ms ++ rest) = Tex.close names rest := by
  have shifted := close_add h names
  rw [List.nil_append] at shifted
  rw [close_append, shifted]
  rfl

theorem append {a b : List Mark} (ha : Nested a) (hb : Nested b) : Nested (a ++ b) := by
  unfold Nested
  rw [ha.close]
  exact hb

/-- An environment around a nested sequence. -/
theorem frame {ms : List Mark} (name : List Char) (h : Nested ms) :
    Nested (.begins name :: (ms ++ [.ends name])) := by
  change Tex.close [name] (ms ++ [.ends name]) = some []
  rw [h.close]
  simp [Tex.close]

end Nested

/-! ### Escaped text -/

theorem sought_escapeChar (c : Char) : Sought (escapeChar c) ∧ marks (escapeChar c) = [] := by
  refine forall_escapeChar (P := fun s => Sought s ∧ marks s = []) (by decide) (fun c plain => ?_) c
  exact sought_of_not_mem (by simpa using (not_reserved_ne plain rfl).symm)

theorem sought_escapeUrlChar (c : Char) :
    Sought (escapeUrlChar c) ∧ marks (escapeUrlChar c) = [] := by
  refine forall_escapeUrlChar (P := fun s => Sought s ∧ marks s = []) (by decide)
    (fun c slash _ _ _ => ?_) c
  exact sought_of_not_mem (by simpa using slash.symm)

theorem sought_flatMap {f : Char → List Char} (h : ∀ c, Sought (f c) ∧ marks (f c) = [])
    (s : List Char) : Sought (s.flatMap f) ∧ marks (s.flatMap f) = [] := by
  induction s with
  | nil => exact ⟨rfl, rfl⟩
  | cons c rest ih =>
      rw [List.flatMap_cons, marks_append (h c).1, (h c).2, ih.2]
      exact ⟨(h c).1.append ih.1, rfl⟩

/-- Escaped text has no marks. -/
theorem sought_escape (s : List Char) : Sought (escape s) ∧ marks (escape s) = [] :=
  sought_flatMap sought_escapeChar s

theorem sought_escapeUrl (s : List Char) : Sought (escapeUrl s) ∧ marks (escapeUrl s) = [] :=
  sought_flatMap sought_escapeUrlChar s

end Vitae.Tex
