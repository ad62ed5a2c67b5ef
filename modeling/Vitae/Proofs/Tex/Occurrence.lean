/-
Module: Vitae.Proofs.Tex.Occurrence
Layer: Proofs
Purpose: How often a pattern occurs in a text, letter by letter and without regard to how TeX reads it. The
  occurrences in two texts add up wherever the first text does not end in the beginning of the pattern.
  Escaped text holds none of the three landmarks of a document.
Imports: Vitae.Proofs.Tex.Token, Vitae.Text.Search
Main exports: occurrences, Apart, before?, landmarks, settled_escape, after?_of_apart, before?_of_apart
-/
import Vitae.Proofs.Tex.Token
import Vitae.Text.Search

namespace Vitae.Tex

/-- The number of places at which a pattern begins. A pattern is not empty. -/
def occurrences (pattern : List Char) : List Char → Nat
  | [] => 0
  | c :: rest =>
      (if pattern.isPrefixOf (c :: rest) then 1 else 0) + occurrences pattern rest

/-- No occurrence of the pattern begins in the text and ends behind it. -/
def Apart (pattern s : List Char) : Prop :=
  ∀ rest, occurrences pattern (s ++ rest) = occurrences pattern s + occurrences pattern rest

/-- No end of the text is a proper beginning of the pattern. -/
def isApart (pattern : List Char) : List Char → Bool
  | [] => true
  | c :: rest =>
      (!(c :: rest).isPrefixOf pattern || pattern.isPrefixOf (c :: rest)) && isApart pattern rest

/-- Whether a pattern begins here is decided inside `s`, unless `s` is a beginning of it. -/
theorem isPrefixOf_append {pattern s : List Char}
    (h : (!s.isPrefixOf pattern || pattern.isPrefixOf s) = true) (rest : List Char) :
    pattern.isPrefixOf (s ++ rest) = pattern.isPrefixOf s := by
  rw [Bool.eq_iff_iff, List.isPrefixOf_iff_prefix, List.isPrefixOf_iff_prefix]
  constructor
  · intro begins
    rcases List.prefix_or_prefix_of_prefix begins (List.prefix_append s rest) with inside | outside
    · exact inside
    · simpa [List.isPrefixOf_iff_prefix.2 outside] using h
  · intro inside
    exact inside.trans (List.prefix_append s rest)

theorem Apart.of_check {pattern s : List Char} (h : isApart pattern s = true) : Apart pattern s := by
  intro rest
  induction s with
  | nil => simp [occurrences]
  | cons c s ih =>
      rw [isApart, Bool.and_eq_true] at h
      have here := isPrefixOf_append h.1 rest
      rw [List.cons_append] at here
      rw [List.cons_append, occurrences, here, ih h.2, occurrences, Nat.add_assoc]

theorem Apart.nil (pattern : List Char) : Apart pattern [] := by
  intro rest
  simp [occurrences]

theorem Apart.append {pattern a b : List Char} (ha : Apart pattern a) (hb : Apart pattern b) :
    Apart pattern (a ++ b) := by
  intro rest
  rw [List.append_assoc, ha, ha, hb, Nat.add_assoc]

/-- A text without the first character of a pattern is apart from it and does not hold it. -/
theorem apart_of_not_mem {d : Char} {pattern s : List Char} (h : d ∉ s) :
    Apart (d :: pattern) s ∧ occurrences (d :: pattern) s = 0 := by
  have skip : ∀ rest, occurrences (d :: pattern) (s ++ rest) = occurrences (d :: pattern) rest := by
    intro rest
    induction s with
    | nil => rfl
    | cons c s ih =>
        rw [List.mem_cons, not_or] at h
        have here : (d == c) = false := by simpa using h.1
        simp [occurrences, List.isPrefixOf, here, ih h.2]
  have none : occurrences (d :: pattern) s = 0 := by
    simpa [occurrences] using skip []
  refine ⟨?_, none⟩
  intro rest
  rw [skip, none, Nat.zero_add]

/-- The rest of a text alone holds no fewer occurrences, so where both hold as many, none begins here. -/
theorem not_isPrefixOf {pattern : List Char} {c : Char} {s rest : List Char}
    (same : occurrences pattern (c :: (s ++ rest)) = occurrences pattern rest) :
    pattern.isPrefixOf (c :: (s ++ rest)) = false ∧
      occurrences pattern (s ++ rest) = occurrences pattern rest := by
  have least : occurrences pattern rest ≤ occurrences pattern (s ++ rest) := by
    clear same
    induction s with
    | nil => exact Nat.le_refl _
    | cons d s ih => exact Nat.le_trans ih (Nat.le_add_left _ _)
  rw [occurrences] at same
  cases begins : pattern.isPrefixOf (c :: (s ++ rest)) with
  | false =>
      rw [begins] at same
      exact ⟨rfl, by simpa using same⟩
  | true =>
      rw [begins, if_pos rfl] at same
      omega

section Search

variable {pattern s : List Char}

/-- A text that holds no occurrence of the pattern can be skipped in the search for it. -/
theorem after?_of_apart (apart : Apart pattern s) (none : occurrences pattern s = 0)
    (rest : List Char) : Text.after? pattern (s ++ rest) = Text.after? pattern rest := by
  have skip := apart rest
  rw [none, Nat.zero_add] at skip
  clear apart none
  induction s with
  | nil => rfl
  | cons c s ih =>
      obtain ⟨here, later⟩ := not_isPrefixOf skip
      rw [List.cons_append, Text.after?, here]
      exact ih later

/-- What stands before the first occurrence of the pattern. A pattern is not empty. -/
def before? (pattern : List Char) : List Char → Option (List Char)
  | [] => none
  | c :: rest =>
      if pattern.isPrefixOf (c :: rest) then some []
      else (before? pattern rest).map (c :: ·)

/-- So it is in the search for what stands before the pattern. -/
theorem before?_of_apart (apart : Apart pattern s) (none : occurrences pattern s = 0)
    (rest : List Char) : before? pattern (s ++ rest) = (before? pattern rest).map (s ++ ·) := by
  have skip := apart rest
  rw [none, Nat.zero_add] at skip
  clear apart none
  induction s with
  | nil => simp
  | cons c s ih =>
      obtain ⟨here, later⟩ := not_isPrefixOf skip
      rw [List.cons_append, before?, here, ih later, if_neg (by simp), Option.map_map]
      rfl

end Search

/-! ### The landmarks of a document -/

/-- The beginning of a document, of its body, and its end. -/
def landmarks : List (List Char) :=
  ["\\documentclass".toList, "\\begin\x7bdocument\x7d".toList, "\\end\x7bdocument\x7d".toList]

/-- A text that no landmark begins in without ending in it. -/
def Settled (s : List Char) : Prop :=
  ∀ p ∈ landmarks, Apart p s

/-- A text without landmarks. -/
def Unmarked (s : List Char) : Prop :=
  ∀ p ∈ landmarks, occurrences p s = 0

instance (s : List Char) : Decidable (Unmarked s) :=
  inferInstanceAs (Decidable (∀ p ∈ landmarks, occurrences p s = 0))

theorem Settled.append {a b : List Char} (ha : Settled a) (hb : Settled b) : Settled (a ++ b) :=
  fun p member => (ha p member).append (hb p member)

theorem Unmarked.append {a b : List Char} (settled : Settled a) (ha : Unmarked a) (hb : Unmarked b) :
    Unmarked (a ++ b) := by
  intro p member
  rw [settled p member, ha p member, hb p member]

/-- A landmark begins with a backslash. -/
theorem landmark_cons {p : List Char} (h : p ∈ landmarks) : ∃ rest, p = '\\' :: rest := by
  simp only [landmarks, List.mem_cons, List.not_mem_nil, or_false] at h
  rcases h with rfl | rfl | rfl <;> exact ⟨_, rfl⟩

/-- A text without a backslash holds nothing of a landmark. -/
theorem settled_of_not_mem {s : List Char} (h : '\\' ∉ s) : Settled s ∧ Unmarked s := by
  constructor <;> intro p member <;> obtain ⟨rest, rfl⟩ := landmark_cons member
  · exact (apart_of_not_mem h).1
  · exact (apart_of_not_mem h).2

theorem Settled.of_check {s : List Char} (h : landmarks.all (isApart · s) = true) : Settled s :=
  fun p member => .of_check (List.all_eq_true.1 h p member)

/-- The escaped form of a character holds nothing of a landmark. -/
theorem settled_escapeChar (c : Char) : Settled (escapeChar c) ∧ Unmarked (escapeChar c) := by
  have checked : ∀ s ∈ spellings, landmarks.all (isApart · s) = true ∧ Unmarked s := by decide
  refine forall_escapeChar (P := fun s => Settled s ∧ Unmarked s) (fun s member => ?_)
    (fun c plain => ?_) c
  · exact ⟨.of_check (checked s member).1, (checked s member).2⟩
  · exact settled_of_not_mem (by simpa using (not_reserved_ne plain rfl).symm)

theorem settled_escapeUrlChar (c : Char) :
    Settled (escapeUrlChar c) ∧ Unmarked (escapeUrlChar c) := by
  have checked : ∀ s ∈ urlSpellings, landmarks.all (isApart · s) = true ∧ Unmarked s := by decide
  refine forall_escapeUrlChar (P := fun s => Settled s ∧ Unmarked s) (fun s member => ?_)
    (fun c slash _ _ _ => ?_) c
  · exact ⟨.of_check (checked s member).1, (checked s member).2⟩
  · exact settled_of_not_mem (by simpa using slash.symm)

theorem settled_flatMap {f : Char → List Char} (h : ∀ c, Settled (f c) ∧ Unmarked (f c))
    (s : List Char) : Settled (s.flatMap f) ∧ Unmarked (s.flatMap f) := by
  induction s with
  | nil => exact ⟨fun p _ => .nil p, fun _ _ => rfl⟩
  | cons c rest ih =>
      rw [List.flatMap_cons]
      exact ⟨(h c).1.append ih.1, (h c).2.append (h c).1 ih.2⟩

/-- Escaped text holds nothing of a landmark. -/
theorem settled_escape (s : List Char) : Settled (escape s) ∧ Unmarked (escape s) :=
  settled_flatMap settled_escapeChar s

theorem settled_escapeUrl (s : List Char) : Settled (escapeUrl s) ∧ Unmarked (escapeUrl s) :=
  settled_flatMap settled_escapeUrlChar s

end Vitae.Tex
