/-
Module: Vitae.Proofs.Json.Lexeme
Layer: Proofs
Purpose: What the lexemes of JSON look like in a text, and the texts that consist of lexemes with any blanks
  around them. Such a text is cut into those lexemes, where no two numerals are neighbours.
Imports: Mathlib.Data.List.Chain, Vitae.Json.Token, Vitae.Proofs.Json.Numeral, Vitae.Proofs.Json.Quoted
Main exports: Token.Lexeme, Token.Spells, Token.ofText_of_spells, Token.Spells.flatMap
-/
import Mathlib.Data.List.Chain
import Vitae.Json.Token
import Vitae.Proofs.Json.Numeral
import Vitae.Proofs.Json.Quoted

namespace Vitae.Json

namespace Token

open Quoted (StringText)
open Numeral (NumeralText Stops goesOn)

/-- What a lexeme looks like in a text. -/
inductive Lexeme : Token → List Char → Prop
  | openArray : Lexeme .openArray ['[']
  | closeArray : Lexeme .closeArray [']']
  | openObject : Lexeme .openObject ['\x7b']
  | closeObject : Lexeme .closeObject ['\x7d']
  | comma : Lexeme .comma [',']
  | colon : Lexeme .colon [':']
  | null : Lexeme .null ['n', 'u', 'l', 'l']
  | yes : Lexeme (.bool true) ['t', 'r', 'u', 'e']
  | no : Lexeme (.bool false) ['f', 'a', 'l', 's', 'e']
  | number {n : Numeral} {s : List Char} (h : NumeralText n s) : Lexeme (.number n) s
  | string {t : Quoted} {s : List Char} (h : StringText t s) : Lexeme (.string t) s

/-- The text consists of the lexemes in their order, with any blanks before, between and after them. -/
inductive Spells : List Token → List Char → Prop
  | nil {blanks : List Char} (h : ∀ c ∈ blanks, isBlank c = true) : Spells [] blanks
  | cons {blanks s rest : List Char} {t : Token} {ts : List Token}
      (h : ∀ c ∈ blanks, isBlank c = true) (first : Lexeme t s) (more : Spells ts rest) :
      Spells (t :: ts) (blanks ++ (s ++ rest))

/-- Is the lexeme a numeral? -/
def isNumber : Token → Bool
  | .number _ => true
  | _ => false

/-- Two lexemes can stand next to each other. Two numerals would become one. -/
def Apart (t u : Token) : Prop :=
  t.isNumber = true → u.isNumber = false

/-- The characters that a numeral begins with. -/
def beginsNumber (c : Char) : Bool :=
  c == '-' || c.isDigit

theorem beginsNumber_head {n : Numeral} {s : List Char} (h : NumeralText n s) :
    ∃ c tail, s = c :: tail ∧ beginsNumber c = true := by
  cases h with
  | @digits exponent decimal unpadded _ _ =>
      cases sign : n.negative with
      | true => exact ⟨'-', _, rfl, rfl⟩
      | false =>
          cases whole : n.whole with
          | nil => simp [whole, Numeral.isWhole] at unpadded
          | cons c digits =>
              have digit : c.isDigit = true := decimal c (whole ▸ List.mem_cons_self)
              exact ⟨c, _, rfl, by simp [beginsNumber, digit]⟩

/-- A text that begins like a numeral is read as one. -/
theorem scan?_of_beginsNumber {c : Char} {tail : List Char} (h : beginsNumber c = true) :
    scan? (c :: tail) =
      (Numeral.scan (c :: tail)).map fun (n, rest) => (.number n, rest) := by
  have scalar : scanScalar? (c :: tail) =
      (Numeral.scan (c :: tail)).map fun (n, rest) => (.number n, rest) := by
    unfold scanScalar?
    split
    case h_5 => rfl
    all_goals
      rename_i same
      cases same
      exact absurd h (by decide)
  unfold scan?
  split
  case h_7 => exact scalar
  all_goals
    rename_i same
    cases same
    exact absurd h (by decide)

/-- The reader takes a lexeme, if the rest does not go on with a numeral. -/
theorem Lexeme.scan?_append {t : Token} {s : List Char} (h : Lexeme t s) {rest : List Char}
    (stop : t.isNumber = true → Stops rest) : scan? (s ++ rest) = some (t, rest) := by
  cases h with
  | number h =>
      obtain ⟨c, tail, rfl, begins⟩ := beginsNumber_head h
      have read := h.scan_append (stop rfl)
      rw [List.cons_append] at read
      rw [List.cons_append, scan?_of_beginsNumber begins, read]
      rfl
  | string h =>
      obtain ⟨inside, text, read⟩ := h.scan_append rest
      rw [text]
      simp [scan?, scanScalar?, read]
  | _ => rfl

/-- A lexeme has a first character, which is not a blank, and goes on with a numeral only where the
lexeme is one. -/
theorem Lexeme.head {t : Token} {s : List Char} (h : Lexeme t s) :
    ∃ c tail, s = c :: tail ∧ isBlank c = false ∧ (t.isNumber = false → goesOn c = false) := by
  cases h with
  | number h =>
      obtain ⟨c, tail, rfl, begins⟩ := beginsNumber_head h
      have unblank : isBlank c = false := by
        rw [Bool.eq_false_iff]
        intro blank
        simp only [isBlank, Bool.or_eq_true, beq_iff_eq] at blank
        obtain ((rfl | rfl) | rfl) | rfl := blank <;> exact absurd begins (by decide)
      exact ⟨c, tail, rfl, unblank, fun other => absurd other (by simp [isNumber])⟩
  | string h =>
      cases h with
      | quoted body => exact ⟨_, _, rfl, rfl, fun _ => rfl⟩
  | _ => exact ⟨_, _, rfl, rfl, fun _ => rfl⟩

theorem goesOn_of_isBlank {c : Char} (h : isBlank c = true) : goesOn c = false := by
  simp only [isBlank, Bool.or_eq_true, beq_iff_eq] at h
  obtain ((rfl | rfl) | rfl) | rfl := h <;> rfl

/-- A text of lexemes does not go on with a numeral, if it does not begin with one. -/
theorem Spells.stops {ts : List Token} {s : List Char} (h : Spells ts s)
    (other : ∀ t ∈ ts.head?, t.isNumber = false) : Stops s := by
  intro c first
  cases h with
  | nil blank => exact goesOn_of_isBlank (blank c (List.mem_of_mem_head? first))
  | @cons blanks s rest t ts blank lexeme more =>
      cases blanks with
      | cons b blanks =>
          obtain rfl : b = c := Option.some.inj first
          exact goesOn_of_isBlank (blank b List.mem_cons_self)
      | nil =>
          obtain ⟨d, tail, rfl, -, still⟩ := lexeme.head
          obtain rfl : d = c := Option.some.inj first
          exact still (other t rfl)

theorem ofTextAfter_blanks (done : List Token) {blanks : List Char}
    (h : ∀ c ∈ blanks, isBlank c = true) (s : List Char) :
    ofTextAfter done (blanks ++ s) = ofTextAfter done s := by
  induction blanks with
  | nil => rfl
  | cons b blanks ih =>
      have blank : isBlank b = true := h b List.mem_cons_self
      rw [List.cons_append, ofTextAfter, if_pos blank]
      exact ih fun c inside => h c (List.mem_cons_of_mem b inside)

theorem ofTextAfter_scan (done : List Token) {s rest : List Char} {t : Token} {c : Char}
    {tail : List Char} (cons : s = c :: tail) (unblank : isBlank c = false)
    (read : scan? s = some (t, rest)) : ofTextAfter done s = ofTextAfter (t :: done) rest := by
  subst cons
  rw [ofTextAfter, if_neg (by simp [unblank])]
  split
  · next found =>
      cases read.symm.trans found
      rfl
  · next missing => simp [read] at missing

theorem ofTextAfter_of_spells {ts : List Token} {s : List Char} (h : Spells ts s)
    (apart : ts.IsChain Apart) (done : List Token) : ofTextAfter done s = done.reverse ++ ts := by
  induction h generalizing done with
  | nil blank =>
      have skipped := ofTextAfter_blanks done blank []
      rw [List.append_nil] at skipped
      rw [skipped, ofTextAfter, List.append_nil]
  | @cons blanks s rest t ts blank lexeme more ih =>
      have stop : t.isNumber = true → Stops rest := fun number => more.stops fun u first => by
        cases ts with
        | nil => simp at first
        | cons v ts =>
            obtain rfl : v = u := Option.some.inj first
            exact (List.isChain_cons_cons.1 apart).1 number
      obtain ⟨c, tail, rfl, unblank, -⟩ := lexeme.head
      have read := lexeme.scan?_append stop
      have taken := ofTextAfter_scan done (List.cons_append ..) unblank read
      rw [ofTextAfter_blanks done blank, taken, ih apart.tail (t :: done)]
      simp

/-- The lexemes of a text of lexemes are those lexemes. -/
theorem ofText_of_spells {ts : List Token} {s : List Char} (h : Spells ts s)
    (apart : ts.IsChain Apart) : ofText s = ts :=
  ofTextAfter_of_spells h apart []

theorem Spells.not_broken {ts : List Token} {s : List Char} (h : Spells ts s) : .broken ∉ ts := by
  induction h with
  | nil _ => simp
  | cons _ first _ ih => cases first <;> simp [ih]

/-- The text of a lexeme without any choice. -/
def text : Token → List Char
  | .openArray => ['[']
  | .closeArray => [']']
  | .openObject => ['\x7b']
  | .closeObject => ['\x7d']
  | .comma => [',']
  | .colon => [':']
  | .null => "null".toList
  | .bool true => "true".toList
  | .bool false => "false".toList
  | .number n => n.text
  | .string (.plain s) => Quoted.quote s
  | .string .unpaired => []
  | .broken => []

/-- The texts of lexemes one after another, without blanks. -/
theorem Spells.flatMap {ts : List Token} (h : ∀ t ∈ ts, Lexeme t t.text) :
    Spells ts (ts.flatMap text) := by
  induction ts with
  | nil => exact .nil (by simp)
  | cons t ts ih =>
      have first : Lexeme t t.text := h t List.mem_cons_self
      have others : Spells ts (ts.flatMap text) := ih fun u inside =>
        h u (List.mem_cons_of_mem t inside)
      have blank : ∀ c ∈ ([] : List Char), isBlank c = true := by simp
      exact .cons blank first others

end Token

end Vitae.Json
