/-
Module: Vitae.Proofs.Text.Split
Layer: Proofs
Purpose: Cutting a sequence at the places where a pattern occurs. What was joined by a separator is split into
  the same parts again, where no occurrence of the separator begins inside a part.
Imports: Mathlib.Data.List.Infix
Main exports: Absent, IsPart, splitOn, splitOn_intercalate, upTo, upTo_append, eq_of_cut_first, eq_of_cut_last,
  afterFirst, afterFirst_append_of_mem, exists_parts_of_occurrence
-/
import Mathlib.Data.List.Infix

namespace Vitae.Text

variable {α : Type}

/-! ### Patterns that do not occur -/

/-- No occurrence of the pattern begins in the sequence, whatever follows the sequence. -/
def Absent (pattern : List α) : List α → Prop
  | [] => True
  | c :: s => (∀ rest, ¬ pattern <+: c :: (s ++ rest)) ∧ Absent pattern s

/-- Decide whether no place of the sequence leaves it open that the pattern begins there. -/
def isAbsent [BEq α] (pattern : List α) : List α → Bool
  | [] => true
  | c :: s => !(c :: s).isPrefixOf pattern && !pattern.isPrefixOf (c :: s) && isAbsent pattern s

namespace Absent

variable {pattern a b s : List α}

theorem of_check [BEq α] [LawfulBEq α] (h : isAbsent pattern s = true) : Absent pattern s := by
  induction s with
  | nil => trivial
  | cons c s ih =>
      rw [isAbsent, Bool.and_eq_true, Bool.and_eq_true, Bool.not_eq_true', Bool.not_eq_true'] at h
      obtain ⟨⟨within, beyond⟩, later⟩ := h
      refine ⟨?_, ih later⟩
      intro rest begins
      rcases List.prefix_or_prefix_of_prefix begins (List.prefix_append (c :: s) rest) with inside | outside
      · rw [List.isPrefixOf_iff_prefix.2 inside] at beyond
        cases beyond
      · rw [List.isPrefixOf_iff_prefix.2 outside] at within
        cases within

theorem append (ha : Absent pattern a) (hb : Absent pattern b) : Absent pattern (a ++ b) := by
  induction a with
  | nil => exact hb
  | cons c a ih =>
      refine ⟨?_, ih ha.2⟩
      intro rest begins
      have whole : a ++ b ++ rest = a ++ (b ++ rest) := List.append_assoc a b rest
      exact ha.1 (b ++ rest) (whole ▸ begins)

theorem flatMap {β : Type} {xs : List β} {g : β → List α} (h : ∀ x ∈ xs, Absent pattern (g x)) :
    Absent pattern (xs.flatMap g) := by
  induction xs with
  | nil => trivial
  | cons x rest ih =>
      rw [List.flatMap_cons]
      exact (h x List.mem_cons_self).append (ih fun y member => h y (List.mem_cons_of_mem x member))

theorem intercalate {separator : List α} {parts : List (List α)} (hs : Absent pattern separator)
    (h : ∀ p ∈ parts, Absent pattern p) : Absent pattern (separator.intercalate parts) := by
  induction parts with
  | nil => trivial
  | cons p rest ih =>
      have first := h p List.mem_cons_self
      have later := ih fun q member => h q (List.mem_cons_of_mem p member)
      cases rest with
      | nil => rwa [List.intercalate_singleton]
      | cons q rest =>
          rw [List.intercalate_cons_cons]
          exact (first.append hs).append later

/-- An occurrence of the pattern begins behind a sequence that it does not begin in. -/
theorem behind {t front back : List α} (h : Absent pattern s) (whole : s ++ t = front ++ (pattern ++ back)) :
    ∃ others, front = s ++ others ∧ t = others ++ (pattern ++ back) := by
  induction s generalizing front with
  | nil => exact ⟨front, rfl, whole⟩
  | cons c s ih =>
      cases front with
      | nil => exact absurd ⟨back, whole.symm⟩ (h.1 t)
      | cons e front =>
          obtain ⟨rfl, later⟩ := List.cons.inj whole
          obtain ⟨others, rfl, last⟩ := ih h.2 later
          exact ⟨others, rfl, last⟩

end Absent

/-- A pattern does not begin where its first element is missing. -/
theorem absent_of_not_mem {d : α} {pattern s : List α} (h : d ∉ s) : Absent (d :: pattern) s := by
  induction s with
  | nil => trivial
  | cons c s ih =>
      rw [List.mem_cons, not_or] at h
      exact ⟨fun rest begins => h.1 (List.cons_prefix_cons.1 begins).1, ih h.2⟩

/-- Where no part holds what a separator goes on with behind its first element, this occurs in joined parts only as
the rest of a separator between two of them. -/
theorem exists_parts_of_occurrence {b d : α} {tail : List α} {parts : List (List α)} {front back : List α}
    (other : b ≠ d) (once : d ∉ tail) (absent : ∀ p ∈ parts, Absent (d :: tail) p)
    (whole : (b :: d :: tail).intercalate parts = front ++ (d :: tail ++ back)) :
    ∃ before behind, parts = before ++ behind ∧ before ≠ [] ∧ behind ≠ [] ∧
      front = (b :: d :: tail).intercalate before ++ [b] ∧ back = (b :: d :: tail).intercalate behind := by
  induction parts generalizing front with
  | nil =>
      rw [List.intercalate_nil] at whole
      simp at whole
  | cons p rest ih =>
      have first := absent p List.mem_cons_self
      cases rest with
      | nil =>
          rw [List.intercalate_singleton] at whole
          obtain ⟨others, -, none⟩ := first.behind ((List.append_nil p).trans whole)
          simp at none
      | cons q rest =>
          have opening : Absent (d :: tail) (p ++ [b]) :=
            first.append (absent_of_not_mem (by simpa using Ne.symm other))
          have shape : (b :: d :: tail).intercalate (p :: q :: rest) =
              p ++ [b] ++ (d :: (tail ++ (b :: d :: tail).intercalate (q :: rest))) := by
            rw [List.intercalate_cons_cons]
            simp
          rw [shape] at whole
          obtain ⟨others, rfl, found⟩ := opening.behind whole
          cases others with
          | nil =>
              -- the occurrence is the rest of the first separator
              refine ⟨[p], q :: rest, rfl, by simp, by simp, by simp, ?_⟩
              exact (List.append_cancel_left (List.cons.inj found).2).symm
          | cons e others =>
              obtain ⟨rfl, inside⟩ := List.cons.inj found
              obtain ⟨others, rfl, later⟩ := Absent.behind (absent_of_not_mem once) inside
              obtain ⟨before, behind, same, some, more, rfl, rfl⟩ :=
                ih (fun p' member => absent p' (List.mem_cons_of_mem p member)) later
              refine ⟨p :: before, behind, congrArg (p :: ·) same, by simp, more, ?_, rfl⟩
              cases before with
              | nil => exact absurd rfl some
              | cons p' before =>
                  rw [List.intercalate_cons_cons]
                  simp

/-! ### Splitting -/

/-- A part that a separator does not cut: no occurrence of the separator begins in it, where it is the last
part or the separator follows it. -/
def IsPart (separator : List α) : List α → Prop
  | [] => True
  | c :: s => (∀ rest, rest = [] ∨ separator <+: rest → ¬ separator <+: c :: (s ++ rest)) ∧ IsPart separator s

theorem Absent.isPart {separator s : List α} (h : Absent separator s) : IsPart separator s := by
  induction s with
  | nil => trivial
  | cons c s ih => exact ⟨fun rest _ => h.1 rest, ih h.2⟩

/-- An element in front of a part begins no separator where the separator does not go on behind it. Behind the
part it cannot go on, since it does not begin with the element it goes on with. -/
theorem IsPart.cons {b d c : α} {tail s : List α} (other : b ≠ d)
    (stops : ∀ e v rest, s = e :: v → c = b → ¬ d :: tail <+: s ++ rest) (h : IsPart (b :: d :: tail) s) :
    IsPart (b :: d :: tail) (c :: s) := by
  refine ⟨fun rest edge begins => ?_, h⟩
  obtain ⟨first, behind⟩ := List.cons_prefix_cons.1 begins
  cases s with
  | cons e v => exact stops e v rest rfl first.symm behind
  | nil =>
      rcases edge with rfl | ⟨more, rfl⟩
      · cases behind.length_le
      · exact other (List.cons_prefix_cons.1 behind).1.symm

/-- A separator does not cut what it never goes on in behind its first element. -/
theorem Absent.isPart_cons {b d : α} {tail s : List α} (other : b ≠ d) (h : Absent (d :: tail) s) :
    IsPart (b :: d :: tail) s := by
  induction s with
  | nil => trivial
  | cons c s ih =>
      refine .cons other ?_ (ih h.2)
      rintro e v rest rfl -
      exact h.2.1 rest

/-- Neither does it cut what its second element never follows its first one in. -/
theorem isPart_of_isChain {b d : α} {R : α → α → Prop} {tail s : List α} (other : b ≠ d) (apart : ¬ R b d)
    (h : s.IsChain R) : IsPart (b :: d :: tail) s := by
  induction s with
  | nil => trivial
  | cons c s ih =>
      refine .cons other ?_ (ih h.of_cons)
      rintro e v rest rfl rfl goes
      obtain ⟨rfl, -⟩ := List.cons_prefix_cons.1 goes
      exact apart (List.isChain_cons_cons.1 h).1

/-- Put elements in front of the first part. -/
def prepend (s : List α) : List (List α) → List (List α)
  | [] => []
  | first :: others => (s ++ first) :: others

/-- The parts of a sequence between the occurrences of a separator, once `skip` elements are passed over. -/
def splitFrom [BEq α] (separator : List α) : Nat → List α → List (List α)
  | _, [] => [[]]
  | skip + 1, _ :: rest => splitFrom separator skip rest
  | 0, c :: rest =>
      if separator.isPrefixOf (c :: rest) then [] :: splitFrom separator (separator.length - 1) rest
      else prepend [c] (splitFrom separator 0 rest)

/-- The parts of a sequence between the occurrences of a separator. -/
def splitOn [BEq α] (separator s : List α) : List (List α) :=
  splitFrom separator 0 s

theorem splitFrom_length [BEq α] (separator s rest : List α) :
    splitFrom separator s.length (s ++ rest) = splitOn separator rest := by
  induction s with
  | nil => rfl
  | cons c s ih => exact ih

variable [BEq α] [LawfulBEq α]

/-- At a separator a part ends. -/
theorem splitOn_separator (b : α) (tail rest : List α) :
    splitOn (b :: tail) (b :: tail ++ rest) = [] :: splitOn (b :: tail) rest := by
  have here : (b :: tail).isPrefixOf (b :: (tail ++ rest)) = true := by
    rw [List.isPrefixOf_iff_prefix, ← List.cons_append]
    exact List.prefix_append _ _
  rw [splitOn, List.cons_append, splitFrom, if_pos here]
  exact congrArg _ (splitFrom_length _ tail rest)

/-- A part belongs to what follows it up to the next separator. -/
theorem splitOn_append {separator s rest : List α} (part : IsPart separator s)
    (edge : rest = [] ∨ separator <+: rest) :
    splitOn separator (s ++ rest) = prepend s (splitOn separator rest) := by
  induction s with
  | nil =>
      rw [List.nil_append]
      cases splitOn separator rest <;> rfl
  | cons c s ih =>
      have here : ¬ separator.isPrefixOf (c :: (s ++ rest)) = true := by
        rw [List.isPrefixOf_iff_prefix]
        exact part.1 rest edge
      have later := ih part.2
      rw [List.cons_append, splitOn, splitFrom, if_neg here]
      change prepend [c] (splitOn separator (s ++ rest)) = _
      rw [later]
      cases splitOn separator rest <;> rfl

/-- The last part. -/
theorem splitOn_part {separator s : List α} (part : IsPart separator s) : splitOn separator s = [s] := by
  have alone := splitOn_append part (.inl rfl)
  rw [List.append_nil] at alone
  rw [alone]
  simp [splitOn, splitFrom, prepend]

/-- A part is cut off at the separator behind it. -/
theorem splitOn_part_append {b : α} {tail s : List α} (part : IsPart (b :: tail) s) (rest : List α) :
    splitOn (b :: tail) (s ++ (b :: tail ++ rest)) = s :: splitOn (b :: tail) rest := by
  rw [splitOn_append part (.inr (List.prefix_append _ _)), splitOn_separator, prepend, List.append_nil]

/-- What is joined by a separator is split into its parts again. -/
theorem splitOn_intercalate {b : α} {tail : List α} {parts : List (List α)} (some : parts ≠ [])
    (whole : ∀ p ∈ parts, IsPart (b :: tail) p) :
    splitOn (b :: tail) ((b :: tail).intercalate parts) = parts := by
  induction parts with
  | nil => exact absurd rfl some
  | cons p rest ih =>
      have first := whole p List.mem_cons_self
      cases rest with
      | nil => rw [List.intercalate_singleton, splitOn_part first]
      | cons q rest =>
          have later := ih (by simp) fun p' member => whole p' (List.mem_cons_of_mem p member)
          rw [List.intercalate_cons_cons, List.append_assoc, splitOn_part_append first, later]

/-- Parts with a separator behind each of them are split, too. Nothing is left behind the last separator. -/
theorem splitOn_flatMap {b : α} {tail : List α} {parts : List (List α)}
    (whole : ∀ p ∈ parts, IsPart (b :: tail) p) {rest : List α} (last : IsPart (b :: tail) rest) :
    splitOn (b :: tail) (parts.flatMap (· ++ b :: tail) ++ rest) = parts ++ [rest] := by
  induction parts with
  | nil => exact splitOn_part last
  | cons p others ih =>
      have first := whole p List.mem_cons_self
      have later := ih fun p' member => whole p' (List.mem_cons_of_mem p member)
      rw [List.flatMap_cons, List.append_assoc, List.append_assoc, splitOn_part_append first, later,
        List.cons_append]

/-! ### Cutting -/

/-- What stands before the first occurrence of a pattern. -/
def upTo (pattern : List α) : List α → List α
  | [] => []
  | c :: rest => if pattern.isPrefixOf (c :: rest) then [] else c :: upTo pattern rest

/-- A part is cut off at the separator behind it. -/
theorem upTo_part_append {d : α} {pattern s : List α} (part : IsPart (d :: pattern) s) (rest : List α) :
    upTo (d :: pattern) (s ++ (d :: pattern ++ rest)) = s := by
  induction s with
  | nil =>
      have here : (d :: pattern).isPrefixOf (d :: (pattern ++ rest)) = true := by
        rw [List.isPrefixOf_iff_prefix, ← List.cons_append]
        exact List.prefix_append _ _
      rw [List.nil_append, List.cons_append, upTo, if_pos here]
  | cons c s ih =>
      have here : ¬ (d :: pattern).isPrefixOf (c :: (s ++ (d :: pattern ++ rest))) = true := by
        rw [List.isPrefixOf_iff_prefix]
        exact part.1 _ (.inr (List.prefix_append _ _))
      rw [List.cons_append, upTo, if_neg here, ih part.2]

/-- A sequence is cut off at the pattern behind it, where the pattern does not begin in it. -/
theorem upTo_append {d : α} {pattern s : List α} (absent : Absent (d :: pattern) s) (rest : List α) :
    upTo (d :: pattern) (s ++ (d :: pattern ++ rest)) = s :=
  upTo_part_append absent.isPart rest

/-- A sequence is cut in one way at the first occurrence of an element. -/
theorem eq_of_cut_first {c : α} {a b x y : List α} (ha : c ∉ a) (hb : c ∉ b)
    (same : a ++ c :: x = b ++ c :: y) : a = b ∧ x = y := by
  have front : a = b :=
    calc a = upTo [c] (a ++ ([c] ++ x)) := (upTo_append (absent_of_not_mem ha) x).symm
      _ = upTo [c] (b ++ ([c] ++ y)) := congrArg (upTo [c]) same
      _ = b := upTo_append (absent_of_not_mem hb) y
  subst front
  exact ⟨rfl, List.cons.inj (List.append_cancel_left same) |>.2⟩

/-- It is cut in one way at the last occurrence, too. -/
theorem eq_of_cut_last {c : α} {a b x y : List α} (hx : c ∉ x) (hy : c ∉ y)
    (same : a ++ c :: x = b ++ c :: y) : a = b ∧ x = y := by
  have turned := congrArg List.reverse same
  simp only [List.reverse_append, List.reverse_cons, List.append_assoc, List.singleton_append] at turned
  obtain ⟨back, front⟩ := eq_of_cut_first (by simpa using hx) (by simpa using hy) turned
  exact ⟨List.reverse_injective front, List.reverse_injective back⟩

/-- What follows the first occurrence of an element. -/
def afterFirst (c : α) : List α → List α
  | [] => []
  | d :: rest => if d == c then rest else afterFirst c rest

/-- What does not hold the element is passed over. -/
theorem afterFirst_append_of_not_mem {c : α} {s : List α} (absent : c ∉ s) (rest : List α) :
    afterFirst c (s ++ rest) = afterFirst c rest := by
  induction s with
  | nil => rfl
  | cons d s ih =>
      rw [List.mem_cons, not_or] at absent
      have other : ¬ (d == c) = true := by simpa using Ne.symm absent.1
      rw [List.cons_append, afterFirst, if_neg other, ih absent.2]

/-- Where the element is in the sequence, what follows the sequence is left as it is. -/
theorem afterFirst_append_of_mem {c : α} {s : List α} (member : c ∈ s) (rest : List α) :
    afterFirst c (s ++ rest) = afterFirst c s ++ rest := by
  induction s with
  | nil => cases member
  | cons d s ih =>
      rw [List.cons_append, afterFirst, afterFirst]
      by_cases here : (d == c) = true
      · rw [if_pos here, if_pos here]
      · have later : c ∈ s := (List.mem_cons.1 member).resolve_left fun same => here (by simp [same])
        rw [if_neg here, if_neg here, ih later]

end Vitae.Text
