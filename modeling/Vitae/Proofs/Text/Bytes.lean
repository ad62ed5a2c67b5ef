/-
Module: Vitae.Proofs.Text.Bytes
Layer: Proofs
Purpose: What a range of bytes cuts out of a text. It is a part of the text with as many bytes before it and up to
  its end as the range says, so a range is bad exactly where there is no such part.
Imports: Vitae.Text.Bytes
Main exports: utf8Length_append, cutAt?_eq_some, slice_eq_ok, utf8Length_eq_length
-/
import Vitae.Text.Bytes

namespace Vitae.Text

@[simp] theorem utf8Length_nil : utf8Length [] = 0 := rfl

@[simp] theorem utf8Length_cons (c : Char) (s : List Char) :
    utf8Length (c :: s) = c.utf8Size + utf8Length s := rfl

@[simp] theorem utf8Length_append (s t : List Char) : utf8Length (s ++ t) = utf8Length s + utf8Length t := by
  induction s with
  | nil => exact (Nat.zero_add _).symm
  | cons c s ih => rw [List.cons_append, utf8Length_cons, utf8Length_cons, ih, Nat.add_assoc]

@[simp] theorem utf8Length_eq_zero {s : List Char} : utf8Length s = 0 ↔ s = [] := by
  cases s with
  | nil => simp
  | cons c rest =>
      have size := c.utf8Size_pos
      simp
      omega

/-- Before a place that is not the start of a text stands its first character. -/
theorem cut_cons {c : Char} {rest before behind : List Char} {place : Nat} :
    (c :: rest = before ++ behind ∧ utf8Length before = place + 1) ↔
      ∃ more, before = c :: more ∧ rest = more ++ behind ∧ c.utf8Size + utf8Length more = place + 1 := by
  constructor
  · rintro ⟨whole, length⟩
    cases before with
    | nil => cases length
    | cons d more =>
        obtain ⟨rfl, rfl⟩ := List.cons.inj whole
        exact ⟨more, rfl, rfl, length⟩
  · rintro ⟨more, rfl, rfl, length⟩
    exact ⟨rfl, length⟩

/-- A text is cut into what is before a place and what is behind it. -/
theorem cutAt?_eq_some {place : Nat} {s before behind : List Char} :
    cutAt? place s = some (before, behind) ↔ s = before ++ behind ∧ utf8Length before = place := by
  induction s generalizing place before behind with
  | nil =>
      cases place with
      | zero => cases before <;> simp [cutAt?]
      | succ n => cases before <;> simp [cutAt?]
  | cons c rest ih =>
      cases place with
      | zero =>
          rw [cutAt?, utf8Length_eq_zero, Option.some.injEq, Prod.mk.injEq]
          constructor
          · rintro ⟨rfl, rfl⟩
            exact ⟨rfl, rfl⟩
          · rintro ⟨whole, rfl⟩
            exact ⟨rfl, whole⟩
      | succ n =>
          have size := c.utf8Size_pos
          rw [cutAt?, cut_cons]
          split
          case isTrue fits =>
            simp only [Option.map_eq_some_iff, Prod.exists, ih, Prod.mk.injEq]
            constructor
            · rintro ⟨more, others, ⟨rfl, length⟩, rfl, rfl⟩
              exact ⟨more, rfl, rfl, by omega⟩
            · rintro ⟨more, rfl, rfl, length⟩
              exact ⟨more, behind, ⟨rfl, by omega⟩, rfl, rfl⟩
          case isFalse beyond =>
            constructor
            · rintro ⟨⟩
            · rintro ⟨more, -, -, length⟩
              omega

/-- A range of bytes holds a part of the text. -/
theorem slice_eq_ok {start stop : Nat} {s within : List Char} :
    slice start stop s = .ok within ↔
      ∃ before behind, s = before ++ (within ++ behind) ∧ utf8Length before = start ∧
        utf8Length (before ++ within) = stop := by
  constructor
  · intro cut
    unfold slice at cut
    split at cut
    case isTrue => cases cut
    case isFalse forwards =>
      split at cut
      · cases cut
      case h_2 before rest first =>
        split at cut
        · cases cut
        case h_2 part behind second =>
          cases cut
          obtain ⟨rfl, length⟩ := cutAt?_eq_some.1 first
          obtain ⟨rfl, length'⟩ := cutAt?_eq_some.1 second
          refine ⟨before, behind, rfl, length, ?_⟩
          rw [utf8Length_append]
          omega
  · rintro ⟨before, behind, rfl, rfl, rfl⟩
    have first : cutAt? (utf8Length before) (before ++ (within ++ behind)) = some (before, within ++ behind) :=
      cutAt?_eq_some.2 ⟨rfl, rfl⟩
    have second : cutAt? (utf8Length within) (within ++ behind) = some (within, behind) :=
      cutAt?_eq_some.2 ⟨rfl, rfl⟩
    have forwards : ¬ utf8Length before + utf8Length within < utf8Length before := by omega
    unfold slice
    rw [utf8Length_append, if_neg forwards, Nat.add_sub_cancel_left]
    simp only [first, second]

/-- Where every character is one byte, bytes count characters. -/
theorem utf8Length_eq_length {s : List Char} (h : ∀ c ∈ s, c.utf8Size = 1) : utf8Length s = s.length := by
  induction s with
  | nil => rfl
  | cons c rest ih =>
      have others := ih fun d member => h d (List.mem_cons_of_mem c member)
      rw [utf8Length_cons, others, h c List.mem_cons_self, List.length_cons, Nat.add_comm]

end Vitae.Text
