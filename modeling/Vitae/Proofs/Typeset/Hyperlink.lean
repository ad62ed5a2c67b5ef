/-
Module: Vitae.Proofs.Typeset.Hyperlink
Layer: Proofs
Purpose: The addresses that are complete as they are typed, and those that need a scheme. A target is
  complete unless "://" stands in an address that begins with no scheme, as it does where one address is part
  of another.
Imports: Mathlib.Data.List.Infix, Vitae.Typeset.Hyperlink
Main exports: occursIn_iff, BeginsWithScheme, IsComplete, completed, IsUnambiguous, hrefTarget_completed_iff
-/
import Mathlib.Data.List.Infix
import Vitae.Typeset.Hyperlink

namespace Vitae

open Text

/-! ### Occurrences -/

/-- The search for a pattern finds it wherever it stands in the text. -/
theorem occursIn_iff {pattern s : List Char} : occursIn pattern s = true ↔ pattern <:+: s := by
  unfold occursIn
  induction s with
  | nil =>
      rw [after?, List.infix_nil]
      cases pattern <;> simp
  | cons c rest ih =>
      rw [after?, List.infix_cons_iff, ← ih]
      by_cases here : pattern.isPrefixOf (c :: rest) = true
      · rw [if_pos here]
        simpa using Or.inl (List.isPrefixOf_iff_prefix.1 here)
      · rw [if_neg here]
        exact (or_iff_right fun begins => here (List.isPrefixOf_iff_prefix.2 begins)).symm

/-! ### Schemes -/

/-- The name of a scheme: a letter, and behind it letters, digits, plus signs, hyphens and points. -/
def isSchemeName : List Char → Bool
  | [] => false
  | c :: rest => c.isAlpha && rest.all fun d => d.isAlphanum || d ∈ ['+', '-', '.']

/-- The address begins with the name of a scheme and "://" behind it. -/
def BeginsWithScheme (address : List Char) : Prop :=
  ∃ name, isSchemeName name = true ∧ name ++ "://".toList <+: address

/-- An address that is complete as it is typed: it begins with "mailto:" or with a scheme. -/
def IsComplete (address : List Char) : Prop :=
  "mailto:".toList <+: address ∨ BeginsWithScheme address

instance (address : List Char) : Decidable (BeginsWithScheme address) :=
  decidable_of_iff (∃ name ∈ address.inits, isSchemeName name = true ∧ name ++ "://".toList <+: address) <| by
    refine exists_congr fun name => and_iff_right_of_imp fun begins => ?_
    exact (List.mem_inits _ _).2 ((List.prefix_append _ _).trans begins.2)

instance (address : List Char) : Decidable (IsComplete address) :=
  inferInstanceAs (Decidable (_ ∨ _))

theorem BeginsWithScheme.isInfix {address : List Char} (h : BeginsWithScheme address) :
    "://".toList <:+: address := by
  obtain ⟨name, -, begins⟩ := h
  exact ((List.suffix_append _ _).isInfix).trans begins.isInfix

/-- An address as it leads somewhere, by what it begins with. -/
def completed (address : String) : String :=
  if IsComplete address.toList then address else "https://" ++ address

theorem isComplete_completed (address : String) : IsComplete (completed address).toList := by
  rw [completed]
  split
  case isTrue complete => exact complete
  case isFalse =>
    rw [String.toList_append]
    exact .inr ⟨"https".toList, rfl, List.prefix_append _ _⟩

/-- An address is complete, or "://" stands nowhere in it. -/
def IsUnambiguous (address : List Char) : Prop :=
  IsComplete address ∨ ¬ "://".toList <:+: address

/-! ### Targets -/

/-- What decides about a target: "mailto:" at the beginning of the address, or "://" anywhere in it. -/
theorem hasScheme_iff {address : List Char} :
    hasScheme address = true ↔ "mailto:".toList <+: address ∨ "://".toList <:+: address := by
  rw [hasScheme, Bool.or_eq_true, occursIn_iff, startsWith, List.isPrefixOf_iff_prefix, or_comm]

/-- The target of an unambiguous address is the address itself, completed where it is not complete. -/
theorem hrefTarget_of_unambiguous {address : String} (h : IsUnambiguous (trim address).toList) :
    hrefTarget address = completed (trim address) := by
  rw [hrefTarget, completed]
  refine if_congr ?_ rfl rfl
  rw [hasScheme_iff]
  constructor
  · rintro (mail | inside)
    · exact .inl mail
    · exact h.resolve_right (not_not_intro inside)
  · exact Or.imp_right BeginsWithScheme.isInfix

/-- The target of any other address is the address itself, which is not complete. -/
theorem hrefTarget_of_ambiguous {address : String} (h : ¬ IsUnambiguous (trim address).toList) :
    hrefTarget address = trim address ∧ ¬ IsComplete (hrefTarget address).toList := by
  rw [IsUnambiguous, not_or, not_not] at h
  obtain ⟨incomplete, inside⟩ := h
  have target : hrefTarget address = trim address := by
    rw [hrefTarget]
    exact if_pos (hasScheme_iff.2 (.inr inside))
  exact ⟨target, target ▸ incomplete⟩

/-- A scheme is put in front of exactly the addresses that are not complete, and so each target is complete,
where the address is unambiguous, and only there. -/
theorem hrefTarget_completed_iff (address : String) :
    (hrefTarget address = completed (trim address) ↔ IsUnambiguous (trim address).toList) ∧
      (IsComplete (hrefTarget address).toList ↔ IsUnambiguous (trim address).toList) := by
  have completes : hrefTarget address = completed (trim address) →
      IsComplete (hrefTarget address).toList :=
    fun target => target ▸ isComplete_completed _
  have decides : IsComplete (hrefTarget address).toList → IsUnambiguous (trim address).toList :=
    fun complete => by_contra fun ambiguous => (hrefTarget_of_ambiguous ambiguous).2 complete
  exact ⟨⟨fun target => decides (completes target), hrefTarget_of_unambiguous⟩,
    ⟨decides, fun unambiguous => completes (hrefTarget_of_unambiguous unambiguous)⟩⟩

/-- An address with another one inside is left incomplete. -/
theorem hrefTarget_embedded :
    hrefTarget "example.com/?u=https://a.b" = "example.com/?u=https://a.b" ∧
      completed "example.com/?u=https://a.b" = "https://example.com/?u=https://a.b" ∧
      ¬ IsComplete (hrefTarget "example.com/?u=https://a.b").toList := by
  decide

end Vitae
