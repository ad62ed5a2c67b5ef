/-
Module: Vitae.Proofs.Style.Order
Layer: Proofs
Purpose: Which sections a list of names asks for, and in which order. A name has some spellings, in any case
  and with space around it, and a section that is named twice keeps its first place.
Imports: Mathlib.Data.List.Induction, Mathlib.Tactic.SplitIfs, Vitae.Style.Options
Main exports: SectionKey.spellings, SectionKey.IsNamedBy, ofName?_eq_some_iff, StyleOptions.requested,
  resolveOrder_eq
-/
import Mathlib.Data.List.Induction
import Mathlib.Tactic.SplitIfs
import Vitae.Style.Options

namespace Vitae

open Text

/-! ### Names -/

namespace SectionKey

/-- The spellings of a section, in lower case. -/
def spellings : SectionKey → List String
  | .skills => ["skills"]
  | .experience => ["experience", "experiences"]
  | .education => ["education"]
  | .projects => ["projects"]
  | .custom => ["custom", "customsections"]

/-- A name stands for a section: trimmed and in lower case it is one of its spellings, or it is the name of
one custom section. -/
def IsNamedBy (key : SectionKey) (name : String) : Prop :=
  lower (trimChars name.toList) ∈ key.spellings.map String.toList ∨
    key = .custom ∧ "custom-".toList <+: lower (trimChars name.toList)

/-- A name is resolved to the section that it stands for. -/
theorem ofName?_eq_some_iff {name : String} {key : SectionKey} :
    ofName? name = some key ↔ key.IsNamedBy name := by
  unfold ofName? IsNamedBy
  generalize lower (trimChars name.toList) = letters
  constructor
  · intro found
    unfold ofLower? at found
    split_ifs at found with skills experience education projects custom begins <;> cases found
    · simp [spellings, skills]
    · rcases experience with rfl | rfl <;> simp [spellings]
    · simp [spellings, education]
    · simp [spellings, projects]
    · rcases custom with rfl | rfl <;> simp [spellings]
    · exact .inr ⟨rfl, List.isPrefixOf_iff_prefix.1 begins⟩
  · rintro (spelled | ⟨rfl, begins⟩)
    · cases key <;> simp only [spellings, List.map_cons, List.map_nil, List.mem_cons, List.not_mem_nil,
        or_false] at spelled
      case experience => rcases spelled with rfl | rfl <;> rfl
      case custom => rcases spelled with rfl | rfl <;> rfl
      all_goals
        rw [spelled]
        rfl
    · -- no spelling of a section begins like the name of one custom section
      obtain ⟨rest, rfl⟩ := begins
      rfl

end SectionKey

/-! ### Orders -/

/-- A list without repetitions, extended at its end. -/
theorem eraseDups_concat {α : Type} [BEq α] [LawfulBEq α] (xs : List α) (x : α) :
    (xs ++ [x]).eraseDups = if xs.eraseDups.contains x then xs.eraseDups else xs.eraseDups ++ [x] := by
  have member : xs.eraseDups.contains x = true ↔ x ∈ xs := by
    rw [List.contains_iff_mem, List.mem_eraseDups]
  rw [List.eraseDups_append]
  by_cases known : x ∈ xs
  · rw [if_pos (member.2 known)]
    simp [List.removeAll, known]
  · rw [if_neg fun found => known (member.1 found)]
    simp [List.removeAll, known, List.eraseDups_cons]

/-- An order holds the sections that are named, each at its first place. -/
theorem resolveOrder_eq (names : List String) :
    resolveOrder names = (names.filterMap SectionKey.ofName?).eraseDups := by
  rw [resolveOrder]
  generalize names.filterMap SectionKey.ofName? = found
  induction found using List.reverseRecOn with
  | nil => rfl
  | append_singleton found key ih => rw [List.foldl_append, ih, eraseDups_concat, List.foldl_cons, List.foldl_nil]

/-- The sections that options ask for, in their order. There are none where no section is named. -/
def StyleOptions.requested (o : StyleOptions) : List SectionKey :=
  ((o.sectionOrder.getD []).filterMap SectionKey.ofName?).eraseDups

end Vitae
