/-
Module: Vitae.Proofs.Tex.PercentCode
Layer: Proofs
Purpose: Link targets as addresses. Behind its backslashes a target is the address as it was typed, with percent
  codes for the backslashes and braces in it. So two addresses have one target where they are the same but for
  codes that are typed in one and written for the character in the other, and only there.
Imports: Vitae.Tex.Escape
Main exports: percentCodes, percentEncode, dropSlashes, SameAddress, percentEncode_eq_iff, targets_as_typed
-/
import Vitae.Tex.Escape

namespace Vitae.Tex

/-! ### Percent codes -/

/-- The characters that a target does not hold as they are, each with the percent code that stands for it. -/
def percentCodes : List (Char × List Char) :=
  [('\\', "%5C".toList), ('\x7b', "%7B".toList), ('\x7d', "%7D".toList)]

/-- A character of an address, or its percent code if it has one. -/
def percentChar (c : Char) : List Char :=
  (percentCodes.lookup c).getD [c]

/-- An address with percent codes for its backslashes and braces. -/
def percentEncode (s : List Char) : List Char :=
  s.flatMap percentChar

@[simp] theorem percentEncode_nil : percentEncode [] = [] := rfl

@[simp] theorem percentEncode_cons (c : Char) (s : List Char) :
    percentEncode (c :: s) = percentChar c ++ percentEncode s :=
  List.flatMap_cons

theorem percentChar_cases (c : Char) :
    (∃ code, (c, code) ∈ percentCodes ∧ percentChar c = code) ∨
      (c ≠ '\\' ∧ c ≠ '\x7b' ∧ c ≠ '\x7d' ∧ percentChar c = [c]) := by
  by_cases slash : c = '\\'
  · subst slash
    exact .inl ⟨_, by decide, rfl⟩
  by_cases opening : c = '\x7b'
  · subst opening
    exact .inl ⟨_, by decide, rfl⟩
  by_cases closing : c = '\x7d'
  · subst closing
    exact .inl ⟨_, by decide, rfl⟩
  refine .inr ⟨slash, opening, closing, ?_⟩
  have none : percentCodes.lookup c = none := by
    rw [List.lookup_eq_none_iff]
    simp [percentCodes, slash, opening, closing]
  rw [percentChar, none, Option.getD_none]

/-- A code is a percent sign and two characters that are written as they are. -/
theorem exists_percentCode {c : Char} {code : List Char} (h : (c, code) ∈ percentCodes) :
    ∃ d e, code = ['%', d, e] ∧ percentChar d = [d] ∧ percentChar e = [e] ∧ d ≠ '%' ∧ e ≠ '%' := by
  simp only [percentCodes, List.mem_cons, List.not_mem_nil, or_false, Prod.mk.injEq] at h
  rcases h with ⟨-, rfl⟩ | ⟨-, rfl⟩ | ⟨-, rfl⟩
  all_goals exact ⟨_, _, rfl, rfl, rfl, by decide, by decide⟩

theorem percentChar_of_mem {c : Char} {code : List Char} (h : (c, code) ∈ percentCodes) :
    percentChar c = code := by
  simp only [percentCodes, List.mem_cons, List.not_mem_nil, or_false, Prod.mk.injEq] at h
  rcases h with ⟨rfl, rfl⟩ | ⟨rfl, rfl⟩ | ⟨rfl, rfl⟩
  all_goals rfl

theorem length_percentCode {c : Char} {code : List Char} (h : (c, code) ∈ percentCodes) : code.length = 3 := by
  obtain ⟨d, e, rfl, -⟩ := exists_percentCode h
  rfl

theorem percentEncode_eq_nil {s : List Char} : percentEncode s = [] ↔ s = [] := by
  constructor
  · intro none
    cases s with
    | nil => rfl
    | cons c rest =>
        have empty := (List.append_eq_nil_iff.1 none).1
        rcases percentChar_cases c with ⟨code, coded, written⟩ | ⟨-, -, -, written⟩
        · have three := length_percentCode coded
          rw [← written, empty] at three
          cases three
        · rw [written] at empty
          cases empty
  · rintro rfl
    rfl

/-- No two characters have the same code. -/
theorem percentCodes_injective {c d : Char} {code : List Char} (hc : (c, code) ∈ percentCodes)
    (hd : (d, code) ∈ percentCodes) : c = d := by
  have apart : ∀ p ∈ percentCodes, ∀ q ∈ percentCodes, p.2 = q.2 → p.1 = q.1 := by decide
  exact apart _ hc _ hd rfl

/-! ### Backslashes -/

/-- A text without the backslashes that stand before a hash or a percent sign. -/
def dropSlashes : List Char → List Char
  | [] => []
  | c :: rest =>
      if c = '\\' ∧ (rest.head? = some '#' ∨ rest.head? = some '%') then dropSlashes rest
      else c :: dropSlashes rest

/-- A character with a backslash before it, if it is a hash or a percent sign. -/
def slashChar (c : Char) : List Char :=
  if c = '#' ∨ c = '%' then ['\\', c] else [c]

/-- A text with a backslash before each hash and percent sign. -/
def addSlashes (s : List Char) : List Char :=
  s.flatMap slashChar

/-- A target is a percent-encoded address with a backslash before each hash and percent sign. -/
theorem escapeUrl_eq_addSlashes (u : List Char) : escapeUrl u = addSlashes (percentEncode u) := by
  have char : ∀ c, escapeUrlChar c = addSlashes (percentChar c) := by
    intro c
    rcases percentChar_cases c with ⟨code, member, same⟩ | ⟨backslash, opening, closing, same⟩
    · rw [same]
      simp only [percentCodes, List.mem_cons, List.not_mem_nil, or_false, Prod.mk.injEq] at member
      rcases member with ⟨rfl, rfl⟩ | ⟨rfl, rfl⟩ | ⟨rfl, rfl⟩
      all_goals rfl
    · rw [same, addSlashes, List.flatMap_cons, List.flatMap_nil, List.append_nil, slashChar, escapeUrlChar]
      by_cases hash : c = '#'
      · simp [hash]
      · by_cases percent : c = '%'
        · simp [percent]
        · simp [hash, percent, backslash, opening, closing]
  rw [escapeUrl, addSlashes, percentEncode, List.flatMap_assoc]
  exact congrArg u.flatMap (funext char)

/-- A percent-encoded address holds no backslash of its own. -/
theorem slash_not_mem_percentEncode (u : List Char) : '\\' ∉ percentEncode u := by
  intro member
  obtain ⟨c, -, inside⟩ := List.mem_flatMap.1 member
  rcases percentChar_cases c with ⟨code, coded, same⟩ | ⟨backslash, -, -, same⟩
  · have plain : ∀ p ∈ percentCodes, '\\' ∉ p.2 := by decide
    rw [same] at inside
    exact plain _ coded inside
  · rw [same, List.mem_singleton] at inside
    exact backslash inside.symm

/-- The backslashes that are put into a text can be taken out again, where the text has none. -/
theorem dropSlashes_addSlashes {s : List Char} (h : '\\' ∉ s) : dropSlashes (addSlashes s) = s := by
  induction s with
  | nil => rfl
  | cons c rest ih =>
      rw [List.mem_cons, not_or] at h
      have other : ¬ c = '\\' := fun same => h.1 same.symm
      have later := ih h.2
      unfold addSlashes at later ⊢
      rw [List.flatMap_cons, slashChar]
      by_cases marked : c = '#' ∨ c = '%'
      · have front : ∀ t : List Char, (c :: t).head? = some '#' ∨ (c :: t).head? = some '%' := by
          simpa using marked
        rw [if_pos marked, List.cons_append, List.cons_append, List.nil_append, dropSlashes, if_pos ⟨rfl, front _⟩,
          dropSlashes, if_neg (fun both => other both.1), later]
      · rw [if_neg marked, List.cons_append, List.nil_append, dropSlashes, if_neg (fun both => other both.1), later]

/-- Without its backslashes a target is the address with its percent codes. -/
theorem dropSlashes_escapeUrl (u : List Char) : dropSlashes (escapeUrl u) = percentEncode u := by
  rw [escapeUrl_eq_addSlashes, dropSlashes_addSlashes (slash_not_mem_percentEncode u)]

/-- So two addresses have the same target where they are encoded alike. -/
theorem escapeUrl_eq_iff {u v : List Char} : escapeUrl u = escapeUrl v ↔ percentEncode u = percentEncode v := by
  constructor
  · intro same
    rw [← dropSlashes_escapeUrl u, same, dropSlashes_escapeUrl v]
  · intro same
    rw [escapeUrl_eq_addSlashes, same, ← escapeUrl_eq_addSlashes]

/-! ### Addresses that are encoded alike -/

/-- Two addresses that differ at most in this: where one has a character with a code, the other has the code. -/
inductive SameAddress : List Char → List Char → Prop
  | nil : SameAddress [] []
  | char (c : Char) {u v : List Char} (rest : SameAddress u v) : SameAddress (c :: u) (c :: v)
  | typedRight {c : Char} {code u v : List Char} (coded : (c, code) ∈ percentCodes) (rest : SameAddress u v) :
      SameAddress (c :: u) (code ++ v)
  | typedLeft {c : Char} {code u v : List Char} (coded : (c, code) ∈ percentCodes) (rest : SameAddress u v) :
      SameAddress (code ++ u) (c :: v)

/-- What is written as it is comes from the same character. -/
theorem eq_cons_of_percentEncode {d : Char} {v t : List Char} (other : d ≠ '%') (same : percentEncode v = d :: t) :
    ∃ v', v = d :: v' ∧ percentEncode v' = t := by
  cases v with
  | nil => cases same
  | cons c v' =>
      rw [percentEncode_cons] at same
      rcases percentChar_cases c with ⟨code, coded, written⟩ | ⟨-, -, -, written⟩
      · obtain ⟨x, y, rfl, -⟩ := exists_percentCode coded
        rw [written] at same
        exact absurd (List.cons.inj same).1.symm other
      · rw [written] at same
        obtain ⟨rfl, later⟩ := List.cons.inj same
        exact ⟨v', rfl, later⟩

/-- A code in an encoded address comes from its character, or was typed. -/
theorem eq_of_percentEncode_code {c : Char} {code v t : List Char} (coded : (c, code) ∈ percentCodes)
    (same : percentEncode v = code ++ t) :
    ∃ v', (v = c :: v' ∨ v = code ++ v') ∧ percentEncode v' = t := by
  obtain ⟨d, e, rfl, -, -, hd, he⟩ := exists_percentCode coded
  cases v with
  | nil => cases same
  | cons b v' =>
      rw [percentEncode_cons] at same
      rcases percentChar_cases b with ⟨code, coded', written⟩ | ⟨-, -, -, written⟩
      · -- both codes have three characters
        obtain ⟨x, y, rfl, -⟩ := exists_percentCode coded'
        rw [written] at same
        obtain ⟨codes, later⟩ := List.append_inj same rfl
        rw [codes] at coded'
        exact ⟨v', .inl (by rw [percentCodes_injective coded' coded]), later⟩
      · rw [written] at same
        obtain ⟨rfl, digits⟩ := List.cons.inj same
        obtain ⟨w, rfl, digit⟩ := eq_cons_of_percentEncode hd digits
        obtain ⟨w', rfl, later⟩ := eq_cons_of_percentEncode he digit
        exact ⟨w', .inr rfl, later⟩

/-- A code that is typed is written as it is. -/
theorem percentEncode_code {c : Char} {code : List Char} (coded : (c, code) ∈ percentCodes) (s : List Char) :
    percentEncode (code ++ s) = code ++ percentEncode s := by
  obtain ⟨d, e, rfl, hd, he, -⟩ := exists_percentCode coded
  have percent : percentChar '%' = ['%'] := rfl
  simp [hd, he, percent]

/-- Addresses are encoded alike exactly where they are the same but for codes that are typed. -/
theorem percentEncode_eq_iff {u v : List Char} : percentEncode u = percentEncode v ↔ SameAddress u v := by
  constructor
  · intro same
    -- a typed code is longer than one character, so the induction is on the length of the address
    induction size : u.length using Nat.strongRecOn generalizing u v with
    | ind n ih =>
        cases u with
        | nil =>
            have none := percentEncode_eq_nil.1 same.symm
            rw [none]
            exact .nil
        | cons c u =>
            have shorter : u.length < n := size ▸ Nat.lt_succ_self _
            rcases percentChar_cases c with ⟨code, coded, written⟩ | ⟨-, -, -, plain⟩
            · rw [percentEncode_cons, written] at same
              obtain ⟨v, rfl | rfl, later⟩ := eq_of_percentEncode_code coded same.symm
              · exact .char c (ih _ shorter later.symm rfl)
              · exact .typedRight coded (ih _ shorter later.symm rfl)
            · cases v with
              | nil => cases percentEncode_eq_nil.1 same
              | cons d v =>
                  rcases percentChar_cases d with ⟨code, coded, written⟩ | ⟨-, -, -, plain'⟩
                  · rw [percentEncode_cons d, written] at same
                    obtain ⟨rest, first | typed, later⟩ := eq_of_percentEncode_code coded same
                    · obtain ⟨rfl, rfl⟩ := List.cons.inj first
                      exact .char c (ih _ shorter later rfl)
                    · have fewer : rest.length < n := by
                        rw [← size, typed]
                        simp [length_percentCode coded]
                      rw [typed]
                      exact .typedLeft coded (ih _ fewer later rfl)
                  · rw [percentEncode_cons, percentEncode_cons, plain, plain'] at same
                    obtain ⟨rfl, later⟩ := List.cons.inj same
                    exact .char c (ih _ shorter later rfl)
  · intro alike
    induction alike with
    | nil => rfl
    | char c _ ih => rw [percentEncode_cons, percentEncode_cons, ih]
    | typedRight coded _ ih => rw [percentEncode_cons, percentChar_of_mem coded, percentEncode_code coded, ih]
    | typedLeft coded _ ih => rw [percentEncode_cons, percentChar_of_mem coded, percentEncode_code coded, ih]

/-- A link target leads where the address says. Without the backslashes before hashes and percent signs it is the
address with percent codes for its backslashes and braces; two addresses have the same target exactly where these
encodings are the same, which is where they differ at most in codes that one of them has for the character in the
other; and a target can be written piece by piece. -/
theorem targets_as_typed (u v : List Char) :
    dropSlashes (escapeUrl u) = percentEncode u ∧
      (escapeUrl u = escapeUrl v ↔ percentEncode u = percentEncode v) ∧
      (escapeUrl u = escapeUrl v ↔ SameAddress u v) ∧
      escapeUrl (u ++ v) = escapeUrl u ++ escapeUrl v :=
  ⟨dropSlashes_escapeUrl u, escapeUrl_eq_iff, escapeUrl_eq_iff.trans percentEncode_eq_iff, escapeUrl_append u v⟩

end Vitae.Tex
