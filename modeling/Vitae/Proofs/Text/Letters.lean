/-
Module: Vitae.Proofs.Text.Letters
Layer: Proofs
Purpose: The two cases of ASCII letters. What does not tell them apart is read off the ASCII characters, since no
  other character changes its case.
Imports: Vitae.Proofs.Text.Visible, Vitae.Text.Hex, Vitae.Text.Lines
Main exports: apply_toLower, toLower_eq_iff, trimChars_lower, IsHexDigit, hexDigit?_eq_some
-/
import Vitae.Proofs.Text.Visible
import Vitae.Text.Hex
import Vitae.Text.Lines

namespace Vitae.Text

/-! ### Case -/

/-- What holds of the first 128 characters holds of each character among them. -/
theorem of_ascii {p : Char → Prop} (h : ∀ n < 128, p (Char.ofNat n)) {c : Char} (ascii : c.toNat < 128) :
    p c := by
  have here := h c.toNat ascii
  rwa [Char.ofNat_toNat] at here

/-- Characters beyond ASCII have one case. -/
theorem case_of_beyond {c : Char} (beyond : ¬ c.toNat < 128) : c.toLower = c ∧ c.toUpper = c := by
  constructor
  · have outside : ¬ (c.val ≥ 'A'.val ∧ c.val ≤ 'Z'.val) := by
      rintro ⟨-, last⟩
      have small : c.toNat ≤ 90 := UInt32.le_iff_toNat_le.1 last
      omega
    exact dif_neg outside
  · have outside : ¬ ('a'.val ≤ c.val ∧ c.val ≤ 'z'.val) := by
      rintro ⟨-, last⟩
      have small : c.toNat ≤ 122 := UInt32.le_iff_toNat_le.1 last
      omega
    exact dif_neg outside

/-- A function that does not tell the cases of the ASCII characters apart tells no cases apart. -/
theorem apply_toLower {β : Type} (f : Char → β) (h : ∀ n < 128, f (Char.ofNat n).toLower = f (Char.ofNat n))
    (c : Char) : f c.toLower = f c := by
  by_cases ascii : c.toNat < 128
  · exact of_ascii (p := fun c => f c.toLower = f c) h ascii
  · rw [(case_of_beyond ascii).1]

/-- A character is one of the two cases of its letter. -/
theorem eq_toLower_or_toUpper (c : Char) : c = c.toLower ∨ c = c.toLower.toUpper := by
  by_cases ascii : c.toNat < 128
  · exact of_ascii (p := fun c => c = c.toLower ∨ c = c.toLower.toUpper) (by decide) ascii
  · exact .inl (case_of_beyond ascii).1.symm

/-- Characters that differ in case only. -/
theorem toLower_eq_iff {c d : Char} : c.toLower = d.toLower ↔ c = d.toLower ∨ c = d.toUpper := by
  constructor
  · intro same
    rcases eq_toLower_or_toUpper c with small | great
    · exact .inl (small.trans same)
    · have upper : d.toLower.toUpper = d.toUpper := apply_toLower Char.toUpper (by decide) d
      rw [same, upper] at great
      exact .inr great
  · rintro (rfl | rfl)
    · exact apply_toLower Char.toLower (by decide) d
    · by_cases ascii : d.toNat < 128
      · exact of_ascii (p := fun d => d.toUpper.toLower = d.toLower) (by decide) ascii
      · rw [(case_of_beyond ascii).2]

@[simp] theorem isSpace_toLower (c : Char) : isSpace c.toLower = isSpace c :=
  apply_toLower isSpace (by decide) c

/-- Case makes no difference to the space around a text. -/
theorem trimChars_lower (s : List Char) : trimChars (lower s) = lower (trimChars s) := by
  have same : isSpace ∘ Char.toLower = isSpace := funext isSpace_toLower
  have left : ∀ t : List Char, trimLeft (t.map Char.toLower) = (trimLeft t).map Char.toLower := by
    intro t
    rw [trimLeft, List.dropWhile_map, same]
    rfl
  rw [trimChars, lower, left, ← List.map_reverse, left, ← List.map_reverse]
  rfl

/-! ### Hexadecimal digits -/

/-- The character is the hexadecimal digit of a value, in one of its cases. -/
def IsHexDigit (c : Char) (value : Nat) : Prop :=
  value < 16 ∧ (c = value.digitChar ∨ c = value.digitChar.toUpper)

instance (c : Char) (value : Nat) : Decidable (IsHexDigit c value) :=
  inferInstanceAs (Decidable (_ ∧ _))

theorem ascii_of_hexDigit? {c : Char} {value : Nat} (h : hexDigit? c = some value) : c.toNat < 128 := by
  have ascii : ∀ d : Char, d.toNat < 128 → c ≤ d → c.toNat < 128 := fun d small below =>
    Nat.lt_of_le_of_lt (UInt32.le_iff_toNat_le.1 below) small
  unfold hexDigit? at h
  split at h
  case isTrue digit => exact ascii '9' (by decide) digit.2
  case isFalse =>
    split at h
    case isTrue letter => exact ascii 'f' (by decide) letter.2
    case isFalse =>
      split at h
      case isTrue letter => exact ascii 'F' (by decide) letter.2
      case isFalse => cases h

/-- The digits that are read are the hexadecimal digits. -/
theorem hexDigit?_eq_some {c : Char} {value : Nat} : hexDigit? c = some value ↔ IsHexDigit c value := by
  constructor
  · intro read
    have ascii : c.toNat < 128 := ascii_of_hexDigit? read
    exact of_ascii (p := fun c => ∀ v ∈ hexDigit? c, IsHexDigit c v) (by decide) ascii value read
  · rintro ⟨small, either⟩
    have both : ∀ v < 16, hexDigit? v.digitChar = some v ∧ hexDigit? v.digitChar.toUpper = some v := by decide
    rcases either with rfl | rfl
    · exact (both value small).1
    · exact (both value small).2

theorem isHexDigit_iff {c : Char} : isHexDigit c = true ↔ ∃ value, IsHexDigit c value := by
  rw [isHexDigit, Option.isSome_iff_exists]
  exact exists_congr fun value => hexDigit?_eq_some

@[simp] theorem hexDigit?_toLower (c : Char) : hexDigit? c.toLower = hexDigit? c :=
  apply_toLower hexDigit? (by decide) c

end Vitae.Text
