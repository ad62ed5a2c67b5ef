/-
Module: Vitae.Proofs.Tex.Separator
Layer: Proofs
Purpose: Separators and what they stand between. A command that escaping does not write occurs nowhere in escaped
  text, and an ampersand stands there only behind the backslash that escapes it.
Imports: Vitae.Proofs.Tex.Argument, Vitae.Proofs.Text.Split, Mathlib.Data.List.Chain
Main exports: absent_escape, absent_text, isPart_text, render_join, intercalate_cons
-/
import Vitae.Proofs.Tex.Argument
import Vitae.Proofs.Text.Split
import Mathlib.Data.List.Chain

namespace Vitae.Tex

open Text

/-! ### Escaped text -/

/-- A command that begins in none of the forms of escaped characters does not begin in escaped text. -/
theorem absent_escape {name : List Char} (forms : ∀ f ∈ spellings, Absent ('\\' :: name) f) (s : List Char) :
    Absent ('\\' :: name) (escape s) := by
  refine .flatMap fun c _ => forall_escapeChar forms (fun c plain => ?_) c
  exact absent_of_not_mem (by simpa using (not_reserved_ne plain rfl).symm)

theorem absent_text {name : List Char} (forms : spellings.all (isAbsent ('\\' :: name)) = true) (raw : String) :
    Absent ('\\' :: name) (text raw).render := by
  rw [render_text]
  exact absent_escape (fun f member => .of_check (List.all_eq_true.1 forms f member)) _

/-- An ampersand follows a backslash. -/
def Slashed (c d : Char) : Prop :=
  d = '&' → c = '\\'

instance (c d : Char) : Decidable (Slashed c d) :=
  inferInstanceAs (Decidable (_ → _))

/-- Each ampersand of escaped text follows a backslash. -/
theorem isChain_escape (s : List Char) : (escape s).IsChain Slashed := by
  have forms : ∀ f ∈ spellings, f.IsChain Slashed ∧ f.head? ≠ some '&' := by decide
  have inside : ∀ c, (escapeChar c).IsChain Slashed ∧ (escapeChar c).head? ≠ some '&' := by
    refine forall_escapeChar forms fun c plain => ⟨.singleton c, ?_⟩
    simpa using not_reserved_ne plain rfl
  have filled : [] ∉ s.map escapeChar := by
    intro member
    obtain ⟨c, -, none⟩ := List.mem_map.1 member
    exact escapeChar_ne_nil c none
  rw [escape, List.flatMap_def, List.isChain_flatten filled]
  constructor
  · intro form member
    obtain ⟨c, -, rfl⟩ := List.mem_map.1 member
    exact (inside c).1
  · rw [List.isChain_map]
    refine (List.pairwise_of_forall fun c d x _ y first amp => ?_).isChain
    exact absurd (amp ▸ first) (inside d).2

/-- No ampersand with space around it cuts text of the user. -/
theorem isPart_text (raw : String) : IsPart " & ".toList (text raw).render := by
  rw [render_text]
  exact isPart_of_isChain (by decide) (by decide) (isChain_escape _)

/-! ### Joined source -/

/-- Joined parts are the first of them, and the others with a separator in front. -/
theorem intercalate_cons {α : Type} (separator first : List α) (others : List (List α)) :
    separator.intercalate (first :: others) = first ++ others.flatMap (separator ++ ·) := by
  induction others generalizing first with
  | nil => simp
  | cons next others ih =>
      rw [List.intercalate_cons_cons, ih next, List.flatMap_cons]
      simp only [List.append_assoc]

/-- With a separator in front, a separator stands before each of the parts. -/
theorem append_intercalate {α : Type} (separator : List α) (parts : List (List α)) (some : parts ≠ []) :
    separator ++ separator.intercalate parts = parts.flatMap (separator ++ ·) := by
  cases parts with
  | nil => exact absurd rfl some
  | cons first others => rw [intercalate_cons, List.flatMap_cons, List.append_assoc]

theorem render_join (separator : Source) (parts : List Source) :
    Source.render (join separator parts) = separator.render.intercalate (parts.map Source.render) := by
  induction parts with
  | nil => rfl
  | cons p rest ih =>
      cases rest with
      | nil => simp
      | cons q rest =>
          rw [join_cons_cons, Source.render_append, Source.render_append, ih]
          simp only [List.map_cons, List.intercalate_cons_cons, List.append_assoc]

end Vitae.Tex
