/-
Module: Vitae.Proofs.Json.Quoted
Layer: Proofs
Purpose: The ways to write a string, said without the reader: each character may stand for itself, after a
  backslash, or as hexadecimal code units. The reader takes every one of them, and what is put in quotes
  is one of them.
Imports: Vitae.Json.Quoted
Main exports: Quoted.StringText, Quoted.StringText.scan_append, Quoted.quote_text
-/
import Vitae.Json.Quoted

namespace Vitae.Json

namespace Quoted

/-- The ways to write a piece of a string: the character itself, a short escape, or four hexadecimal
digits. -/
inductive AtomText : Atom → List Char → Prop
  | itself {c : Char} (printed : 0x20 ≤ c.toNat) (unquoted : c ≠ '"') (unslashed : c ≠ '\\') :
      AtomText (.char c) [c]
  | escape {c e : Char} (short : escaped? c = some e) : AtomText (.char e) ['\\', c]
  | code {a b c d : Char} {n : Nat} (digits : hex4? a b c d = some n) :
      AtomText (.code n) ['\\', 'u', a, b, c, d]

/-- The ways to write a string between its quotes. -/
inductive AtomsText : List Atom → List Char → Prop
  | nil : AtomsText [] []
  | cons {atom : Atom} {atoms : List Atom} {s t : List Char} (first : AtomText atom s)
      (others : AtomsText atoms t) : AtomsText (atom :: atoms) (s ++ t)

/-- The ways to write a string with its quotes. -/
inductive StringText : Quoted → List Char → Prop
  | quoted {atoms : List Atom} {s : List Char} (body : AtomsText atoms s) :
      StringText (ofAtoms [] atoms) ('"' :: (s ++ ['"']))

theorem AtomText.atoms?_append {atom : Atom} {s : List Char} (h : AtomText atom s)
    (done : List Atom) (rest : List Char) :
    atoms? done (s ++ rest) = atoms? (atom :: done) rest := by
  cases h with
  | itself printed unquoted unslashed =>
      simp [atoms?, unslashed, Nat.not_lt.2 printed]
  | @escape c e short =>
      have unhex : c ≠ 'u' := by
        rintro rfl
        simp [escaped?] at short
      simp [atoms?, unhex, short]
  | code digits => simp [atoms?, digits]

/-- The reader takes every piece of a string, and stops at the closing quote. -/
theorem AtomsText.atoms?_append {atoms : List Atom} {s : List Char} (h : AtomsText atoms s)
    (done : List Atom) (rest : List Char) :
    atoms? done (s ++ '"' :: rest) = some (done.reverse ++ atoms, rest) := by
  induction h generalizing done with
  | nil => simp [atoms?]
  | cons first _ ih =>
      rw [List.append_assoc, first.atoms?_append, ih]
      simp

theorem StringText.scan_append {t : Quoted} {s : List Char} (h : StringText t s)
    (rest : List Char) : ∃ inside, s ++ rest = '"' :: inside ∧ scan inside = some (t, rest) := by
  cases h with
  | @quoted atoms s body =>
      exists s ++ '"' :: rest
      constructor
      · simp
      · simp [scan, body.atoms?_append]

/-- Every character is written as an atom that stands for it. -/
theorem quoteChar_atom (c : Char) :
    ∃ atom, AtomText atom (quoteChar c) ∧
      (atom = .char c ∨ atom = .code c.toNat ∧ c.toNat < 0x20) := by
  have hexadecimal : ∀ n < 0x20, hex4? '0' '0' (hexChar (n / 16)) (hexChar (n % 16)) = some n := by
    decide
  fun_cases quoteChar c
  case case8 control =>
      exact ⟨.code c.toNat, .code (hexadecimal c.toNat control), .inr ⟨rfl, control⟩⟩
  case case9 unquoted unslashed _ _ _ _ _ printed =>
      exact ⟨.char c, .itself (Nat.le_of_not_lt printed) unquoted unslashed, .inl rfl⟩
  all_goals exact ⟨.char c, .escape (by simp [escaped?, *]), .inl rfl⟩

theorem ofAtoms_char (done : List Char) (c : Char) (rest : List Atom) :
    ofAtoms done (.char c :: rest) = ofAtoms (c :: done) rest := by
  rw [ofAtoms]

/-- A code unit below the surrogates is a character of its own. -/
theorem ofAtoms_code (done : List Char) {n : Nat} (below : n < 0xD800) (rest : List Atom) :
    ofAtoms done (.code n :: rest) = ofAtoms (Char.ofNat n :: done) rest := by
  have low : isLow n = false := by
    simp only [isLow, Bool.and_eq_false_iff, decide_eq_false_iff_not]
    omega
  have high : isHigh n = false := by
    simp only [isHigh, Bool.and_eq_false_iff, decide_eq_false_iff_not]
    omega
  cases rest with
  | nil => simp [ofAtoms, low, high]
  | cons atom rest => cases atom <;> simp [ofAtoms, low, high]

theorem flatMap_quoteChar_text (s : List Char) :
    ∃ atoms, AtomsText atoms (s.flatMap quoteChar) ∧
      ∀ done, ofAtoms done atoms = .plain (String.ofList (done.reverse ++ s)) := by
  induction s with
  | nil => exact ⟨[], .nil, fun done => by simp [ofAtoms]⟩
  | cons c s ih =>
      obtain ⟨atom, first, stands⟩ := quoteChar_atom c
      obtain ⟨atoms, others, read⟩ := ih
      refine ⟨atom :: atoms, .cons first others, fun done => ?_⟩
      have taken : ofAtoms done (atom :: atoms) = ofAtoms (c :: done) atoms := by
        obtain rfl | ⟨rfl, control⟩ := stands
        · exact ofAtoms_char done c atoms
        · rw [ofAtoms_code done (by omega), Char.ofNat_toNat]
      simp [taken, read]

/-- A text in quotes is a way to write it. -/
theorem quote_text (s : String) : StringText (.plain s) (quote s) := by
  obtain ⟨atoms, body, read⟩ := flatMap_quoteChar_text s.toList
  have text := StringText.quoted body
  rw [read] at text
  simpa [quote] using text

end Quoted

end Vitae.Json
