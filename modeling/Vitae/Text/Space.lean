/-
Module: Vitae.Text.Space
Layer: Text
Purpose: The Unicode property White_Space, and what it decides about a text: where the text begins and
  ends once the space around it is dropped, and whether anything visible is left.
Imports: none
Main exports: isSpace, trimChars, trim, hasText, hasText?
-/

namespace Vitae.Text

/-- The characters of the property White_Space, as closed ranges of code points. -/
def spaceRanges : List (Nat × Nat) :=
  [(0x09, 0x0D), (0x20, 0x20), (0x85, 0x85), (0xA0, 0xA0), (0x1680, 0x1680), (0x2000, 0x200A),
   (0x2028, 0x2029), (0x202F, 0x202F), (0x205F, 0x205F), (0x3000, 0x3000)]

/-- Membership in White_Space. Format characters such as U+200B and U+FEFF are not in it. -/
def isSpace (c : Char) : Bool :=
  spaceRanges.any fun range => range.1 ≤ c.toNat && c.toNat ≤ range.2

/-- Drop the space on the left. -/
def trimLeft (s : List Char) : List Char :=
  s.dropWhile isSpace

/-- Drop the space on both sides. -/
def trimChars (s : List Char) : List Char :=
  (trimLeft (trimLeft s).reverse).reverse

/-- Drop the space on both sides of a text. -/
def trim (s : String) : String :=
  String.ofList (trimChars s.toList)

/-- Some character of the text is not space. -/
def hasText (s : String) : Bool :=
  s.toList.any fun c => !isSpace c

/-- An optional text is there and has visible content. -/
def hasText? (s : Option String) : Bool :=
  s.any hasText

/-- The trimmed text, unless nothing of it is left. -/
def visible? (s : String) : Option String :=
  if hasText s then some (trim s) else none

/-! What is left after trimming, and when it is nothing. -/

theorem trimLeft_eq_nil {s : List Char} : trimLeft s = [] ↔ s.all isSpace = true := by
  unfold trimLeft
  induction s with
  | nil => simp
  | cons c rest ih =>
      by_cases h : isSpace c = true
      · simp [h, ih]
      · simp [h]

/-- Dropping the space on the left drops nothing else. -/
theorem all_trimLeft {s : List Char} :
    (trimLeft s).all isSpace = true ↔ s.all isSpace = true := by
  constructor
  · intro h
    unfold trimLeft at h
    have split := List.takeWhile_append_dropWhile (p := isSpace) (l := s)
    rw [← split, List.all_append, h, Bool.and_true]
    exact List.all_takeWhile
  · intro h
    rw [trimLeft_eq_nil.2 h]
    rfl

theorem trimChars_eq_nil {s : List Char} : trimChars s = [] ↔ s.all isSpace = true := by
  unfold trimChars
  rw [List.reverse_eq_nil_iff, trimLeft_eq_nil, List.all_reverse, all_trimLeft]

theorem hasText_eq_false {s : String} : hasText s = false ↔ s.toList.all isSpace = true := by
  unfold hasText
  rw [List.any_eq_not_all_not]
  simp

/-- A text has visible content exactly where trimming leaves something. -/
theorem hasText_eq_false_iff_trim {s : String} : hasText s = false ↔ trim s = "" := by
  rw [hasText_eq_false, ← trimChars_eq_nil]
  constructor
  · intro h
    unfold trim
    rw [h]
  · intro h
    have chars := congrArg String.toList h
    unfold trim at chars
    rw [String.toList_ofList] at chars
    exact chars

end Vitae.Text
