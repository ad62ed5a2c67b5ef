/-
Module: Vitae.Proofs.Json.Numeral
Layer: Proofs
Purpose: The ways to write a numeral, said without the reader. The reader takes every one of them where the
  text does not go on with it, and the text of the shortest numeral of a number is one of them.
Imports: Vitae.Json.Numeral
Main exports: Numeral.NumeralText, Numeral.NumeralText.scan_append, Numeral.ofFinite_text
-/
import Vitae.Json.Numeral

namespace Vitae.Json

open Vitae.Number (Decimal Finite signText)

namespace Numeral

/-- The ways to write the sign of an exponent. -/
inductive SignText : Bool → List Char → Prop
  | minus : SignText true ['-']
  | plus : SignText false ['+']
  | bare : SignText false []

/-- A run of decimal digits. -/
def Digits (s : List Char) : Prop :=
  ∀ c ∈ s, c.isDigit = true

/-- The ways to write an exponent, or none. -/
inductive ExponentText : Option Exponent → List Char → Prop
  | absent : ExponentText none []
  | present {letter : Char} {negative : Bool} {sign digits : List Char}
      (mark : letter = 'e' ∨ letter = 'E') (signed : SignText negative sign)
      (decimal : Digits digits) (filled : digits ≠ []) :
      ExponentText (some ⟨negative, digits⟩) (letter :: (sign ++ digits))

/-- The decimal point and what follows it, where something does. -/
def pointText (fraction : List Char) : List Char :=
  if fraction.isEmpty then [] else '.' :: fraction

/-- The ways to write a numeral. -/
inductive NumeralText : Numeral → List Char → Prop
  | digits {n : Numeral} {exponent : List Char} (decimal : Digits n.whole)
      (unpadded : isWhole n.whole = true) (broken : Digits n.fraction)
      (scaled : ExponentText n.exponent exponent) :
      NumeralText n (signText n.negative ++ n.whole ++ pointText n.fraction ++ exponent)

/-- Could a character go on with a numeral? -/
def goesOn (c : Char) : Bool :=
  c.isDigit || c == '.' || c == 'e' || c == 'E'

/-- A numeral ends before the text. -/
def Stops (s : List Char) : Prop :=
  ∀ c ∈ s.head?, goesOn c = false

theorem Stops.digit {s : List Char} (h : Stops s) : ∀ c ∈ s.head?, c.isDigit = false := by
  intro c first
  have still := h c first
  simp only [goesOn, Bool.or_eq_false_iff] at still
  exact still.1.1.1

theorem takeWhile_digits {digits rest : List Char} (decimal : Digits digits)
    (stop : ∀ c ∈ rest.head?, c.isDigit = false) :
    (digits ++ rest).takeWhile Char.isDigit = digits := by
  rw [List.takeWhile_append_of_pos decimal]
  cases rest with
  | nil => simp
  | cons c rest => simp [stop c rfl]

theorem dropWhile_digits {digits rest : List Char} (decimal : Digits digits)
    (stop : ∀ c ∈ rest.head?, c.isDigit = false) :
    (digits ++ rest).dropWhile Char.isDigit = rest := by
  rw [List.dropWhile_append_of_pos decimal]
  cases rest with
  | nil => simp
  | cons c rest => simp [stop c rfl]

theorem SignText.scanSign_append {negative : Bool} {sign digits : List Char}
    (h : SignText negative sign) (decimal : Digits digits) (filled : digits ≠ [])
    (rest : List Char) :
    scanSign (sign ++ (digits ++ rest)) = (negative, digits ++ rest) := by
  cases h with
  | minus => rfl
  | plus => rfl
  | bare =>
      cases digits with
      | nil => exact absurd rfl filled
      | cons c digits =>
          have digit : c.isDigit = true := decimal c List.mem_cons_self
          have minus : c ≠ '-' := by
            rintro rfl
            exact absurd digit (by decide)
          have plus : c ≠ '+' := by
            rintro rfl
            exact absurd digit (by decide)
          simp [scanSign, minus, plus]

theorem ExponentText.scanExponent_append {e : Option Exponent} {s : List Char}
    (h : ExponentText e s) {rest : List Char} (stop : Stops rest) :
    scanExponent (s ++ rest) = some (e, rest) := by
  cases h with
  | absent =>
      cases rest with
      | nil => rfl
      | cons c rest =>
          have still := stop c rfl
          simp only [goesOn, Bool.or_eq_false_iff, beq_eq_false_iff_ne] at still
          simp [scanExponent, still.1.2, still.2]
  | @present letter negative sign digits mark signed decimal filled =>
      have read : scanExponentDigits (sign ++ (digits ++ rest)) =
          some (some ⟨negative, digits⟩, rest) := by
        simp [scanExponentDigits, signed.scanSign_append decimal filled,
          takeWhile_digits decimal stop.digit, dropWhile_digits decimal stop.digit, filled]
      obtain rfl | rfl := mark
      · simpa [scanExponent] using read
      · simpa [scanExponent] using read

/-- What begins with an exponent, or with the end of a numeral, does not begin with a digit or a point. -/
theorem ExponentText.head_append {e : Option Exponent} {s : List Char} (h : ExponentText e s)
    {rest : List Char} (stop : Stops rest) :
    ∀ c ∈ (s ++ rest).head?, c.isDigit = false ∧ c ≠ '.' := by
  cases h with
  | absent =>
      intro c first
      have still := stop c first
      simp only [goesOn, Bool.or_eq_false_iff, beq_eq_false_iff_ne] at still
      exact ⟨still.1.1.1, still.1.1.2⟩
  | present mark _ _ _ =>
      intro c first
      obtain rfl : _ = c := Option.some.inj first
      obtain rfl | rfl := mark <;> decide

theorem scanFraction_append {fraction rest : List Char} (broken : Digits fraction)
    (stop : ∀ c ∈ rest.head?, c.isDigit = false ∧ c ≠ '.') :
    scanFraction (pointText fraction ++ rest) = some (fraction, rest) := by
  have digit : ∀ c ∈ rest.head?, c.isDigit = false := fun c first => (stop c first).1
  cases fraction with
  | nil =>
      cases rest with
      | nil => rfl
      | cons c rest => simp [scanFraction, pointText, (stop c rfl).2]
  | cons d fraction =>
      have taken := takeWhile_digits broken digit
      have dropped := dropWhile_digits broken digit
      rw [List.cons_append] at taken dropped
      simp [scanFraction, pointText, taken, dropped]

theorem scanMinus_append {negative : Bool} {s : List Char}
    (digit : ∀ c ∈ s.head?, c.isDigit = true) :
    scanMinus (signText negative ++ s) = (negative, s) := by
  cases negative with
  | true => rfl
  | false =>
      cases s with
      | nil => rfl
      | cons c rest =>
          have minus : c ≠ '-' := by
            rintro rfl
            exact absurd (digit '-' rfl) (by decide)
          simp [scanMinus, signText, minus]

/-- The reader takes a numeral that ends before the rest. -/
theorem NumeralText.scan_append {n : Numeral} {s : List Char} (h : NumeralText n s)
    {rest : List Char} (stop : Stops rest) : scan (s ++ rest) = some (n, rest) := by
  cases h with
  | @digits exponent decimal unpadded broken scaled =>
      have after := scaled.head_append stop
      have undigit : ∀ c ∈ (pointText n.fraction ++ (exponent ++ rest)).head?,
          c.isDigit = false := by
        intro c first
        cases fraction : n.fraction with
        | nil =>
            rw [fraction] at first
            exact (after c first).1
        | cons d digits =>
            rw [fraction] at first
            obtain rfl : '.' = c := Option.some.inj first
            decide
      have leading : ∀ c ∈ (n.whole ++ (pointText n.fraction ++ (exponent ++ rest))).head?,
          c.isDigit = true := by
        intro c first
        cases whole : n.whole with
        | nil => simp [whole, isWhole] at unpadded
        | cons d digits =>
            rw [whole] at first
            obtain rfl : d = c := Option.some.inj first
            exact decimal d (whole ▸ List.mem_cons_self)
      simp [scan, scanMinus_append leading, takeWhile_digits decimal undigit, unpadded,
        dropWhile_digits decimal undigit, scanFraction_append broken after,
        scaled.scanExponent_append stop]

/-! ### The text of a numeral -/

theorem digits_toDigits (n : Nat) : Digits (Nat.toDigits 10 n) := fun _ inside =>
  Nat.isDigit_of_mem_toDigits (by decide) (by decide) inside

/-- The digits of a positive number do not begin with a zero. -/
theorem toDigits_leading {n : Nat} (positive : 0 < n) :
    ∃ c digits, Nat.toDigits 10 n = c :: digits ∧ c ≠ '0' := by
  induction n using Nat.strongRecOn with
  | _ n ih =>
      rw [Nat.toDigits_eq_if (by decide)]
      split
      · next small =>
          have nonzero : ∀ m < 10, 0 < m → m.digitChar ≠ '0' := by decide
          exact ⟨n.digitChar, [], rfl, nonzero n small positive⟩
      · next large =>
          obtain ⟨c, digits, leading, nonzero⟩ := ih (n / 10) (by omega) (by omega)
          exact ⟨c, digits ++ [(n % 10).digitChar], by simp [leading], nonzero⟩

theorem isWhole_cons {c : Char} (nonzero : c ≠ '0') (digits : List Char) :
    isWhole (c :: digits) = true := by
  simp [isWhole, nonzero]

theorem digits_zeros (n : Nat) : Digits (List.replicate n '0') := by
  intro c inside
  obtain rfl := List.eq_of_mem_replicate inside
  rfl

theorem Digits.append {s t : List Char} (hs : Digits s) (ht : Digits t) : Digits (s ++ t) := by
  intro c inside
  obtain left | right := List.mem_append.1 inside
  · exact hs c left
  · exact ht c right

theorem Digits.sublist {s t : List Char} (h : Digits t) (sub : s.Sublist t) : Digits s :=
  fun c inside => h c (sub.subset inside)

theorem digits_whole (d : Decimal) : Digits d.whole := by
  have zero : Digits ['0'] := digits_zeros 1
  have digits := digits_toDigits d.digits
  fun_cases Decimal.whole d
  case case1 => exact zero
  case case2 => exact digits.sublist (List.take_sublist ..)
  case case3 => exact zero
  case case4 => exact digits.append (digits_zeros _)

/-- The digits that are kept before the decimal point do not begin with a zero, as long as there are any. -/
theorem isWhole_take {n places : Nat} (positive : 0 < n)
    (long : places < (Nat.toDigits 10 n).length) :
    isWhole ((Nat.toDigits 10 n).take ((Nat.toDigits 10 n).length - places)) = true := by
  obtain ⟨c, digits, leading, nonzero⟩ := toDigits_leading positive
  obtain ⟨kept, count⟩ : ∃ kept, (Nat.toDigits 10 n).length - places = kept + 1 :=
    ⟨(Nat.toDigits 10 n).length - places - 1, by omega⟩
  rw [count, leading, List.take_succ_cons]
  exact isWhole_cons nonzero _

theorem isWhole_whole (d : Decimal) : isWhole d.whole = true := by
  unfold Decimal.whole
  by_cases small : d.exponent < 0
  · simp only [small, if_true]
    split
    · rfl
    · next long =>
        have positive : 0 < d.digits := by
          rw [Nat.pos_iff_ne_zero]
          intro zero
          rw [zero, Nat.toDigits_zero, List.length_singleton] at long
          omega
        exact isWhole_take positive (Nat.lt_of_not_le long)
  · simp only [small, if_false]
    split
    · rfl
    · next positive =>
        obtain ⟨c, digits, leading, nonzero⟩ := toDigits_leading (Nat.pos_of_ne_zero positive)
        rw [leading, List.cons_append]
        exact isWhole_cons nonzero _

theorem digits_fraction (d : Decimal) : Digits d.fraction := by
  have digits := digits_toDigits d.digits
  fun_cases Decimal.fraction d
  case case1 => exact (digits_zeros _).append (digits.sublist (List.drop_sublist ..))
  case case2 => exact fun _ inside => absurd inside (by simp)

/-- The text of a numeral is a way to write it, if its parts are such parts. -/
theorem text_of_digits {n : Numeral} (decimal : Digits n.whole) (unpadded : isWhole n.whole = true)
    (broken : Digits n.fraction)
    (scaled : ∀ e ∈ n.exponent, Digits e.digits ∧ e.digits ≠ []) : NumeralText n n.text := by
  have exponent : ExponentText n.exponent (exponentText n.exponent) := by
    cases scale : n.exponent with
    | none => exact .absent
    | some e =>
        have sign : SignText e.negative (signText e.negative) := by
          cases e.negative
          · exact .bare
          · exact .minus
        obtain ⟨digits, filled⟩ := scaled e scale
        exact .present (.inl rfl) sign digits filled
  exact .digits decimal unpadded broken exponent

theorem positional_text (negative : Bool) (d : Decimal) :
    NumeralText (positional negative d) (positional negative d).text := by
  have broken : Digits (if d.fraction.isEmpty then ['0'] else d.fraction) := by
    split
    · exact digits_zeros 1
    · exact digits_fraction d
  exact text_of_digits (digits_whole d) (isWhole_whole d) broken (by simp [positional])

theorem scientific_text (negative : Bool) (n : Nat) (place : Int) :
    NumeralText (scientific negative (Nat.toDigits 10 n) place)
      (scientific negative (Nat.toDigits 10 n) place).text := by
  have digits := digits_toDigits n
  have unpadded : isWhole ((Nat.toDigits 10 n).take 1) = true := by
    cases leading : Nat.toDigits 10 n with
    | nil => exact absurd leading Nat.toDigits_ne_nil
    | cons c rest =>
        by_cases zero : c = '0'
        · simp [zero, isWhole]
        · simp [isWhole_cons zero]
  apply text_of_digits (digits.sublist (List.take_sublist ..)) unpadded
    (digits.sublist (List.drop_sublist ..))
  intro e scale
  obtain rfl := Option.some.inj scale
  exact ⟨digits_toDigits _, Nat.toDigits_ne_nil⟩

/-- The text of the shortest numeral of a number is a way to write that numeral. -/
theorem ofFinite_text (x : Finite) : NumeralText (ofFinite x) (ofFinite x).text := by
  fun_cases ofFinite x
  · exact positional_text ..
  · exact scientific_text ..

end Numeral

end Vitae.Json
