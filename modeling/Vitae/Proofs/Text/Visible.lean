/-
Module: Vitae.Proofs.Text.Visible
Layer: Proofs
Purpose: What is visible of a text. Trimmed text begins with something visible and is not trimmed further, and
  a date shows something exactly where something is typed.
Imports: Vitae.Calendar
Main exports: hasText_trim, hasText_ofList, head_trimChars, last_trimChars, trimChars_of_ends, trimChars_trimChars,
  trimChars_visible_cons, trim_trim, trimChars_cons, isSpace_of_isDigit, isSpace_of_isAlpha, showDate_trim,
  hasText_showDate
-/
import Vitae.Calendar

namespace Vitae.Text

theorem all_trimChars {s : List Char} :
    (trimChars s).all isSpace = true ↔ s.all isSpace = true := by
  rw [trimChars, List.all_reverse, all_trimLeft, List.all_reverse, all_trimLeft]

/-- Trimming takes no visible content away. -/
@[simp] theorem hasText_trim (s : String) : hasText (trim s) = hasText s := by
  have same : hasText (trim s) = false ↔ hasText s = false := by
    rw [hasText_eq_false, hasText_eq_false, trim, String.toList_ofList, all_trimChars]
  cases left : hasText (trim s) <;> cases right : hasText s <;> simp_all

theorem hasText_ofList (s : List Char) : hasText (String.ofList s) = !s.all isSpace := by
  rw [hasText, String.toList_ofList, List.not_all_eq_any_not]

/-- A text that does not begin with space has none to drop on its left. -/
theorem trimLeft_of_head {s : List Char} (h : ∀ c ∈ s.head?, isSpace c = false) : trimLeft s = s := by
  cases s with
  | nil => rfl
  | cons c rest => simp [trimLeft, h c rfl]

theorem head_trimLeft (s : List Char) : ∀ c ∈ (trimLeft s).head?, isSpace c = false := by
  intro c first
  have dropped := List.head?_dropWhile_not isSpace s
  rw [trimLeft, Option.mem_def] at first
  rwa [first] at dropped

/-- A trimmed text does not begin with space. -/
theorem head_trimChars (s : List Char) : ∀ c ∈ (trimChars s).head?, isSpace c = false := by
  -- the text begins as it does before the space on its right is dropped
  have kept : trimChars s <+: trimLeft s := by
    have suffix : trimLeft (trimLeft s).reverse <:+ (trimLeft s).reverse := List.dropWhile_suffix _
    rwa [trimChars, ← List.reverse_suffix, List.reverse_reverse]
  intro c first
  obtain ⟨more, whole⟩ := kept
  refine head_trimLeft s c ?_
  cases shown : trimChars s with
  | nil => simp [shown] at first
  | cons d rest =>
      rw [shown] at first whole
      rw [← whole]
      exact first

/-- A text that neither begins nor ends with space has none to trim. -/
theorem trimChars_of_ends {s : List Char} (first : ∀ c ∈ s.head?, isSpace c = false)
    (last : ∀ c ∈ s.getLast?, isSpace c = false) : trimChars s = s := by
  have right : trimLeft s.reverse = s.reverse := by
    refine trimLeft_of_head fun c member => last c ?_
    rwa [List.head?_reverse] at member
  rw [trimChars, trimLeft_of_head first, right, List.reverse_reverse]

/-- Nor does it end with space. -/
theorem last_trimChars (s : List Char) : ∀ c ∈ (trimChars s).getLast?, isSpace c = false := by
  intro c last
  rw [trimChars, List.getLast?_reverse] at last
  exact head_trimLeft _ c last

/-- Trimming leaves no space to trim. -/
theorem trimChars_trimChars (s : List Char) : trimChars (trimChars s) = trimChars s :=
  trimChars_of_ends (head_trimChars s) (last_trimChars s)

/-- Nor is there any once a visible character stands in front. -/
theorem trimChars_visible_cons {c : Char} (visible : isSpace c = false) (s : List Char) :
    trimChars (c :: trimChars s) = c :: trimChars s := by
  apply trimChars_of_ends
  · rintro d ⟨⟩
    exact visible
  · intro d last
    cases shown : trimChars s with
    | nil =>
        rw [shown] at last
        cases last
        exact visible
    | cons e rest =>
        apply last_trimChars s
        rw [shown] at last ⊢
        simpa using last

/-- A trimmed text is trimmed already. -/
@[simp] theorem trim_trim (raw : String) : trim (trim raw) = trim raw := by
  rw [trim, trim, String.toList_ofList, trimChars_trimChars]

/-- The first character of a text that says anything is visible. -/
theorem trimChars_cons {raw : String} (h : hasText raw = true) :
    ∃ c rest, trimChars raw.toList = c :: rest ∧ isSpace c = false := by
  cases shown : trimChars raw.toList with
  | nil =>
      rw [trimChars_eq_nil, ← hasText_eq_false, h] at shown
      cases shown
  | cons c rest =>
      refine ⟨c, rest, rfl, head_trimChars raw.toList c ?_⟩
      rw [shown]
      rfl

theorem toNat_of_isDigit {c : Char} (h : c.isDigit = true) : 48 ≤ c.toNat ∧ c.toNat ≤ 57 :=
  Char.isDigit_iff_toNat.1 h

/-- A digit is no space. -/
theorem isSpace_of_isDigit {c : Char} (h : c.isDigit = true) : isSpace c = false := by
  have range := toNat_of_isDigit h
  simp [isSpace, spaceRanges]
  omega

theorem toNat_of_isAlpha {c : Char} (h : c.isAlpha = true) : 65 ≤ c.toNat ∧ c.toNat ≤ 122 := by
  rcases Bool.or_eq_true_iff.1 h with upper | lower
  · have range := of_decide_eq_true upper
    have : 65 ≤ c.toNat := UInt32.le_iff_toNat_le.1 range.1
    have : c.toNat ≤ 90 := UInt32.le_iff_toNat_le.1 range.2
    omega
  · have small := Bool.and_eq_true_iff.1 lower
    have : 97 ≤ c.toNat := UInt32.le_iff_toNat_le.1 (of_decide_eq_true small.1)
    have : c.toNat ≤ 122 := UInt32.le_iff_toNat_le.1 (of_decide_eq_true small.2)
    omega

/-- A letter is no space. -/
theorem isSpace_of_isAlpha {c : Char} (h : c.isAlpha = true) : isSpace c = false := by
  have range := toNat_of_isAlpha h
  simp [isSpace, spaceRanges]
  omega

end Vitae.Text

namespace Vitae

open Text

/-! ### Dates -/

theorem hasText_append (s t : String) : hasText (s ++ t) = (hasText s || hasText t) := by
  rw [hasText, hasText, hasText, String.toList_append, List.any_append]

theorem hasText_repr (n : Nat) : hasText n.repr = true := by
  rw [hasText, Nat.toList_repr, List.any_eq_true]
  obtain ⟨c, member⟩ := List.exists_mem_of_ne_nil _ (Nat.toDigits_ne_nil (n := n) (b := 10))
  have digit := Nat.isDigit_of_mem_toDigits (by decide) (by decide) member
  refine ⟨c, member, ?_⟩
  rw [isSpace_of_isDigit digit]
  rfl

theorem hasText_monthAndYear (d : Date) : hasText d.monthAndYear = true := by
  have year : hasText (toString d.year) = true := by
    cases d.year with
    | ofNat n => exact hasText_repr n
    | negSucc n =>
        change hasText ("-" ++ (n + 1).repr) = true
        rw [hasText_append, hasText_repr, Bool.or_true]
  rw [Date.monthAndYear, hasText_append, year, Bool.or_true]

/-- The space around a date makes no difference. -/
theorem showDate_trim (raw : String) : showDate (trim raw) = showDate raw := by
  rw [showDate, showDate, trim_trim]

/-- A date shows something exactly where something is typed. -/
@[simp] theorem hasText_showDate (raw : String) : hasText (showDate raw) = hasText raw := by
  unfold showDate
  dsimp only
  split
  · split
    case isTrue long =>
      rw [hasText_monthAndYear]
      cases visible : hasText raw with
      | true => rfl
      | false =>
          rw [hasText_eq_false_iff_trim.1 visible] at long
          exact absurd long (by decide)
    case isFalse => exact hasText_trim raw
  · exact hasText_trim raw

end Vitae
