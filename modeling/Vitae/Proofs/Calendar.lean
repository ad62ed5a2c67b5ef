/-
Module: Vitae.Proofs.Calendar
Layer: Proofs
Purpose: The ways to type a date, said without the reader. A year has up to four digits, or a sign and any
  number of them, a month and a day have one or two, and space may stand before both. The dates that a resume
  shows by month and year are exactly those of at least seven bytes, whichever way they are typed.
Imports: Vitae.Proofs.Json.Numeral, Vitae.Proofs.Text.Split, Vitae.Proofs.Text.Visible
Main exports: Wording, Wording.Tells, Wording.Tells.readMonth?, exists_of_readMonth?, Wording.IsPlain,
  IsCalendarText, showDate_ne_trim_iff, showDate_calendar_iff
-/
import Vitae.Proofs.Json.Numeral
import Vitae.Proofs.Text.Split
import Vitae.Proofs.Text.Visible

namespace Vitae.Date

open Text (isSpace trim trimChars toNat_of_isDigit toNat_of_isAlpha isSpace_of_isDigit)
open Json.Numeral (Digits takeWhile_digits)

/-! ### Numbers -/

/-- The text of a number: some digits, but no more than the limit. -/
structure Figures (limit : Nat) (s : List Char) : Prop where
  decimal : Digits s
  filled : s ≠ []
  short : s.length ≤ limit

/-- A number is read up to what follows it. -/
theorem Figures.scanDigits_append {limit : Nat} {s rest : List Char} (h : Figures limit s)
    (stop : ∀ c ∈ rest.head?, c.isDigit = false) :
    scanDigits limit (s ++ rest) = some (figure s, rest) := by
  have taken : ((s ++ rest).takeWhile Char.isDigit).take limit = s := by
    rw [takeWhile_digits h.decimal stop, List.take_of_length_le h.short]
  simp [scanDigits, taken, h.filled]

/-- Whatever is read as a number is one. -/
theorem figures_of_scanDigits {limit n : Nat} {s rest : List Char}
    (h : scanDigits limit s = some (n, rest)) :
    ∃ digits, Figures limit digits ∧ n = figure digits ∧ s = digits ++ rest := by
  let digits := (s.takeWhile Char.isDigit).take limit
  have front : digits <+: s := (List.take_prefix _ _).trans (List.takeWhile_prefix _)
  have decimal : Digits digits := fun c member =>
    List.all_eq_true.1 List.all_takeWhile c (List.mem_of_mem_take member)
  change (if digits.isEmpty then none else some (figure digits, s.drop digits.length)) = _ at h
  split at h
  case isTrue => cases h
  case isFalse filled =>
    cases h
    refine ⟨digits, ⟨decimal, by simpa using filled, List.length_take_le _ _⟩, rfl, ?_⟩
    exact (List.prefix_iff_eq_append.1 front).symm

/-- A digit is no letter. -/
theorem isAlpha_of_isDigit {c : Char} (h : c.isDigit = true) : c.isAlpha = false := by
  have digit := toNat_of_isDigit h
  cases letter : c.isAlpha with
  | false => rfl
  | true =>
      have range := toNat_of_isAlpha letter
      omega

theorem Figures.head {limit : Nat} {s : List Char} (h : Figures limit s) :
    ∃ c rest, s = c :: rest ∧ c.isDigit = true := by
  obtain ⟨c, rest, rfl⟩ := List.exists_cons_of_ne_nil h.filled
  exact ⟨c, rest, rfl, h.decimal c List.mem_cons_self⟩

theorem not_mem_of_digits {s : List Char} (h : Digits s) {c : Char} (other : c.isDigit = false) : c ∉ s := by
  intro member
  rw [h c member] at other
  cases other

/-! ### Years -/

/-- The text of a year: up to four digits, or a sign and any number of digits. -/
inductive YearText : Int → List Char → Prop
  | bare {s : List Char} (figures : Figures 4 s) : YearText (figure s) s
  | plus {s : List Char} (decimal : Digits s) (filled : s ≠ []) : YearText (figure s) ('+' :: s)
  | minus {s : List Char} (decimal : Digits s) (filled : s ≠ []) : YearText (-figure s) ('-' :: s)

/-- A text that does not begin with a sign is read as a year without one. -/
theorem scanYear_bare {c : Char} (digit : c.isDigit = true) (s : List Char) :
    scanYear (c :: s) = (scanDigits 4 (c :: s)).map fun (n, rest) => ((n : Int), rest) := by
  have plus : c ≠ '+' := by
    rintro rfl
    exact absurd digit (by decide)
  have minus : c ≠ '-' := by
    rintro rfl
    exact absurd digit (by decide)
  unfold scanYear
  split <;> simp_all

/-- A year is read up to what follows it. -/
theorem YearText.scanYear_append {year : Int} {s rest : List Char} (h : YearText year s)
    (stop : ∀ c ∈ rest.head?, c.isDigit = false) : scanYear (s ++ rest) = some (year, rest) := by
  have signed : ∀ {s : List Char}, Digits s → s ≠ [] →
      scanDigits (s ++ rest).length (s ++ rest) = some (figure s, rest) := by
    intro s decimal filled
    exact Figures.scanDigits_append ⟨decimal, filled, by simp⟩ stop
  cases h with
  | bare figures =>
      obtain ⟨c, more, rfl, digit⟩ := figures.head
      have read := figures.scanDigits_append stop
      rw [List.cons_append] at read ⊢
      rw [scanYear_bare digit, read]
      rfl
  | plus decimal filled =>
      rw [List.cons_append, scanYear, signed decimal filled]
      rfl
  | minus decimal filled =>
      rw [List.cons_append, scanYear, signed decimal filled]
      rfl

/-- Whatever is read as a year is one. -/
theorem yearText_of_scanYear {year : Int} {s rest : List Char} (h : scanYear s = some (year, rest)) :
    ∃ text, YearText year text ∧ s = text ++ rest := by
  unfold scanYear at h
  split at h <;> rw [Option.map_eq_some_iff] at h <;> obtain ⟨⟨n, left⟩, read, same⟩ := h <;>
    cases same <;> obtain ⟨digits, figures, rfl, rfl⟩ := figures_of_scanDigits read
  · exact ⟨'+' :: digits, .plus figures.decimal figures.filled, rfl⟩
  · exact ⟨'-' :: digits, .minus figures.decimal figures.filled, rfl⟩
  · exact ⟨digits, .bare figures, rfl⟩

/-! ### Months and days -/

/-- A month or a day as it is typed, with the space before it. -/
structure Part where
  gap : List Char
  digits : List Char

namespace Part

/-- The characters of a month or a day. -/
def chars (p : Part) : List Char :=
  p.gap ++ p.digits

/-- The part is a number of one or two digits with space before it. -/
structure Tells (p : Part) (n : Nat) : Prop where
  gap : p.gap.all isSpace = true
  figures : Figures 2 p.digits
  value : figure p.digits = n

theorem Tells.not_mem {p : Part} {n : Nat} (h : p.Tells n) : '-' ∉ p.chars := by
  rw [chars, List.mem_append, not_or]
  refine ⟨fun member => ?_, not_mem_of_digits h.figures.decimal rfl⟩
  exact absurd (List.all_eq_true.1 h.gap _ member) (by decide)

/-- A month or a day without space is the number alone. -/
theorem chars_of_bare {p : Part} (bare : p.gap = []) : p.chars = p.digits := by
  rw [chars, bare, List.nil_append]

/-- A month or a day of which each character is a digit has no space. -/
theorem Tells.bare {p : Part} {n : Nat} (h : p.Tells n) (decimal : Digits p.chars) : p.gap = [] := by
  rw [List.eq_nil_iff_forall_not_mem]
  intro c member
  have space := List.all_eq_true.1 h.gap c member
  rw [isSpace_of_isDigit (decimal c (List.mem_append_left _ member))] at space
  cases space

/-- What is typed as "01" is the first. -/
theorem Tells.first {p : Part} {n : Nat} (h : p.Tells n) (typed : p.chars = ['0', '1']) : n = 1 := by
  have decimal : ['0', '1'].all Char.isDigit = true := by decide
  rw [chars_of_bare (h.bare (typed ▸ List.all_eq_true.1 decimal))] at typed
  rw [← h.value, typed]
  decide

/-- A month or a day is read up to what follows it. -/
theorem Tells.scan_append {p : Part} {n : Nat} (h : p.Tells n) {rest : List Char}
    (stop : ∀ c ∈ rest.head?, c.isDigit = false) :
    scanDigits 2 ((p.chars ++ rest).dropWhile isSpace) = some (n, rest) := by
  obtain ⟨c, more, digits, digit⟩ := h.figures.head
  have read := h.figures.scanDigits_append stop
  have visible : (p.digits ++ rest).dropWhile isSpace = p.digits ++ rest := by
    rw [digits]
    exact List.dropWhile_cons_of_neg (by simp [isSpace_of_isDigit digit])
  rw [chars, List.append_assoc, List.dropWhile_append_of_pos (List.all_eq_true.1 h.gap), visible, read,
    h.value]

/-- Whatever is read as a month or a day is one. -/
theorem exists_of_scan {n : Nat} {s rest : List Char}
    (h : scanDigits 2 (s.dropWhile isSpace) = some (n, rest)) :
    ∃ p : Part, p.Tells n ∧ s = p.chars ++ rest := by
  obtain ⟨digits, figures, rfl, whole⟩ := figures_of_scanDigits h
  refine ⟨⟨s.takeWhile isSpace, digits⟩, ⟨List.all_takeWhile, figures, rfl⟩, ?_⟩
  rw [chars, List.append_assoc, ← whole]
  exact List.takeWhile_append_dropWhile.symm

end Part

/-! ### Dates -/

/-- A date as it is typed. The day may be missing. -/
structure Wording where
  year : List Char
  month : Part
  day : Option Part

namespace Wording

/-- The characters of a date. -/
def chars (w : Wording) : List Char :=
  w.year ++ '-' :: (w.month.chars ++ w.day.elim [] fun p => '-' :: p.chars)

/-- The wording is one of a date of the calendar. Where it has no day, it is one of the first of the
month. -/
structure Tells (w : Wording) (d : Date) : Prop where
  year : YearText d.year w.year
  month : w.month.Tells d.month
  day : w.day.elim (d.day = 1) fun p => p.Tells d.day
  real : exists? d = true

end Wording

theorem YearText.head {year : Int} {s : List Char} (h : YearText year s) :
    ∃ c rest, s = c :: rest ∧ (c.isDigit = true ∨ c = '+' ∨ c = '-') := by
  cases h with
  | bare figures =>
      obtain ⟨c, rest, rfl, digit⟩ := figures.head
      exact ⟨c, rest, rfl, .inl digit⟩
  | plus => exact ⟨_, _, rfl, .inr (.inl rfl)⟩
  | minus => exact ⟨_, _, rfl, .inr (.inr rfl)⟩

/-- A year that begins with a digit has no sign. -/
theorem YearText.figures {year : Int} {s : List Char} (h : YearText year s)
    (digit : ∀ c ∈ s.head?, c.isDigit = true) : Figures 4 s ∧ year = figure s := by
  cases h with
  | bare figures => exact ⟨figures, rfl⟩
  | plus => exact absurd (digit '+' rfl) (by decide)
  | minus => exact absurd (digit '-' rfl) (by decide)

/-- A year that some digits begin with has no sign. -/
theorem YearText.figures_of_append {year : Int} {s y rest rest' : List Char} (h : YearText year s)
    (decimal : Digits y) (filled : y ≠ []) (same : s ++ rest = y ++ rest') : Figures 4 s := by
  obtain ⟨c, more, rfl, -⟩ := h.head
  obtain ⟨c', more', rfl⟩ := List.exists_cons_of_ne_nil filled
  rw [List.cons_append, List.cons_append, List.cons.injEq] at same
  refine (h.figures fun d first => ?_).1
  cases first
  exact decimal c (same.1 ▸ List.mem_cons_self)

theorem YearText.dropWhile_append {year : Int} {s : List Char} (h : YearText year s) (rest : List Char) :
    (s ++ rest).dropWhile isSpace = s ++ rest := by
  obtain ⟨c, more, rfl, first⟩ := h.head
  refine List.dropWhile_cons_of_neg ?_
  rcases first with digit | rfl | rfl
  · simp [isSpace_of_isDigit digit]
  · decide
  · decide

/-- A month or a day at the end of the text is read up to the end. -/
theorem Part.Tells.scan {p : Part} {n : Nat} (h : p.Tells n) :
    scanDigits 2 (p.chars.dropWhile isSpace) = some (n, []) := by
  have read := @Part.Tells.scan_append p n h [] (by simp)
  rwa [List.append_nil] at read

/-- A date with its day is read up to what follows it, and is one only where nothing follows. -/
theorem read?_append {year : Int} {s : List Char} {m p : Part} {month day : Nat} {rest : List Char}
    (hy : YearText year s) (hm : m.Tells month) (hp : p.Tells day)
    (stop : ∀ c ∈ rest.head?, c.isDigit = false) :
    read? (s ++ '-' :: (m.chars ++ '-' :: (p.chars ++ rest))) =
      if rest.isEmpty && exists? ⟨year, month, day⟩ then some ⟨year, month, day⟩ else none := by
  have next := @Part.Tells.scan_append m month hm ('-' :: (p.chars ++ rest)) (by simp)
  rw [read?, hy.dropWhile_append, hy.scanYear_append (by simp)]
  simp [scanHyphen, next, hp.scan_append stop]

/-- A date with its day is read as it is typed. -/
theorem read?_full {year : Int} {s : List Char} {m p : Part} {month day : Nat} (hy : YearText year s)
    (hm : m.Tells month) (hp : p.Tells day) :
    read? (s ++ '-' :: (m.chars ++ '-' :: p.chars)) =
      if exists? ⟨year, month, day⟩ then some ⟨year, month, day⟩ else none := by
  have read := @read?_append year s m p month day [] hy hm hp (by simp)
  rwa [List.append_nil, List.isEmpty_nil, Bool.true_and] at read

/-- A month is no date with a day. -/
theorem read?_month {year : Int} {s : List Char} {m : Part} {month : Nat} (hy : YearText year s)
    (hm : m.Tells month) : read? (s ++ '-' :: m.chars) = none := by
  rw [read?, hy.dropWhile_append, hy.scanYear_append (by simp)]
  simp [scanHyphen, hm.scan]

/-- Whatever is read as a date with its day is one. -/
theorem exists_of_read? {s : List Char} {d : Date} (h : read? s = some d) :
    ∃ (text : List Char) (m p : Part), YearText d.year text ∧ m.Tells d.month ∧ p.Tells d.day ∧
      exists? d = true ∧ s.dropWhile isSpace = text ++ '-' :: (m.chars ++ '-' :: p.chars) := by
  simp only [read?, Option.bind_eq_bind, Option.bind_eq_some_iff] at h
  obtain ⟨⟨year, afterYear⟩, readYear, monthText, hyphen, ⟨month, afterMonth⟩, readMonth, dayText, hyphen',
    ⟨day, afterDay⟩, readDay, done⟩ := h
  have cut : ∀ {s rest : List Char}, scanHyphen s = some rest → s = '-' :: rest := by
    intro s rest read
    unfold scanHyphen at read
    split at read <;> cases read
    rfl
  split at done
  case isFalse => cases done
  case isTrue whole =>
    cases done
    rw [Bool.and_eq_true, List.isEmpty_iff] at whole
    obtain ⟨rfl, real⟩ := whole
    obtain ⟨text, hy, left⟩ := yearText_of_scanYear readYear
    obtain ⟨m, hm, rfl⟩ := Part.exists_of_scan readMonth
    obtain ⟨p, hp, rfl⟩ := Part.exists_of_scan readDay
    refine ⟨text, m, p, hy, hm, hp, real, ?_⟩
    have afterYear : afterYear = _ := cut hyphen
    have afterMonth : afterMonth = _ := cut hyphen'
    rw [left, afterYear, afterMonth, List.append_nil]

/-- A date is read as it is typed, with its day or without. -/
theorem Wording.Tells.readMonth? {w : Wording} {d : Date} (h : w.Tells d) :
    Date.readMonth? w.chars = some d := by
  obtain ⟨year, month, day, real⟩ := h
  rw [Date.readMonth?, Wording.chars]
  cases given : w.day with
  | some p =>
      rw [given] at day
      rw [Option.elim_some, read?_full year month day, if_pos real]
      rfl
  | none =>
      rw [given] at day
      have first : (⟨[], ['0', '1']⟩ : Part).Tells d.day := by
        have decimal : ['0', '1'].all Char.isDigit = true := by decide
        exact ⟨rfl, ⟨List.all_eq_true.1 decimal, by simp, by decide⟩, Eq.symm day⟩
      have full := read?_full year month first
      rw [if_pos real] at full
      rw [Option.elim_none, List.append_nil, read?_month year month, Option.none_or, ← full]
      simp [Part.chars]

/-- Whatever is read as a date, with its day or without, is one. The text begins with no space. -/
theorem exists_of_readMonth? {s : List Char} {d : Date} (h : readMonth? s = some d)
    (visible : ∀ c ∈ s.head?, isSpace c = false) : ∃ w : Wording, w.Tells d ∧ w.chars = s := by
  rw [readMonth?, Option.or_eq_some_iff] at h
  rcases h with full | ⟨-, month⟩
  · obtain ⟨year, m, p, hy, hm, hp, real, whole⟩ := exists_of_read? full
    refine ⟨⟨year, m, some p⟩, ⟨hy, hm, hp, real⟩, ?_⟩
    rw [Wording.chars, Option.elim_some, ← whole]
    exact Text.trimLeft_of_head visible
  · obtain ⟨year, m, p, hy, hm, hp, real, whole⟩ := exists_of_read? month
    have kept : (s ++ "-01".toList).dropWhile isSpace = s ++ "-01".toList := by
      refine Text.trimLeft_of_head fun c first => ?_
      cases s with
      | nil => exact Option.some.inj first ▸ rfl
      | cons d rest => exact visible c first
    -- the hyphen before the day is the last one, so what stands before it is the text
    have digits : "-01".toList = '-' :: ['0', '1'] := by decide
    rw [kept, digits, ← List.cons_append, ← List.append_assoc] at whole
    obtain ⟨front, back⟩ := Text.eq_of_cut_last (by decide) hp.not_mem whole
    refine ⟨⟨year, m, none⟩, ⟨hy, hm, hp.first back.symm, real⟩, ?_⟩
    rw [Wording.chars, Option.elim_none, List.append_nil, front]

/-! ### What is shown -/

/-- A date of the calendar is in one of its months. -/
theorem month_of_exists {d : Date} (h : exists? d = true) : 1 ≤ d.month ∧ d.month ≤ 12 := by
  by_contra outside
  have none : daysIn d.year d.month = 0 := by
    unfold daysIn
    simp only [List.mem_cons, List.not_mem_nil, or_false]
    rw [if_neg (by omega), if_neg (by omega), if_neg (by omega)]
  rw [exists?, none] at h
  simp only [Bool.and_eq_true, decide_eq_true_eq] at h
  omega

/-- What is shown of a date begins with a letter. -/
theorem monthAndYear_head {d : Date} (h : exists? d = true) :
    ∃ c rest, d.monthAndYear.toList = c :: rest ∧ c.isAlpha = true := by
  have letters : ∀ name ∈ monthNames, name.toList.head?.any Char.isAlpha = true := by decide
  have range := month_of_exists h
  have within : d.month - 1 < monthNames.length := by
    have twelve : monthNames.length = 12 := rfl
    omega
  obtain ⟨c, first, letter⟩ := (Option.any_eq_true _ _).1 (letters _ (List.getElem_mem within))
  obtain ⟨rest, chars⟩ := List.head?_eq_some_iff.1 first
  refine ⟨c, rest ++ (" ".toList ++ (toString d.year).toList), ?_, letter⟩
  rw [monthAndYear, List.getD_eq_getElem?_getD, List.getElem?_eq_getElem within, Option.getD_some,
    String.toList_append, String.toList_append, chars, List.append_assoc]
  rfl

/-- No date is typed as a date is shown. -/
theorem Wording.Tells.ne_monthAndYear {w : Wording} {d d' : Date} (h : w.Tells d) (real : exists? d' = true) :
    w.chars ≠ d'.monthAndYear.toList := by
  intro same
  obtain ⟨c, rest, shown, letter⟩ := monthAndYear_head real
  obtain ⟨c', rest', typed, first⟩ := h.year.head
  rw [Wording.chars, typed, shown, List.cons_append, List.cons.injEq] at same
  rw [← same.1] at letter
  rcases first with digit | rfl | rfl
  · rw [isAlpha_of_isDigit digit] at letter
    exact absurd letter Bool.false_ne_true
  · exact absurd letter (by decide)
  · exact absurd letter (by decide)

end Vitae.Date

namespace Vitae

open Text Date
open Json.Numeral (Digits)

/-- A text is shown as a month and a year where it is a date of at least seven bytes, in whichever way it is
typed, and as it is typed otherwise. -/
theorem showDate_ne_trim_iff (raw : String) :
    showDate raw ≠ trim raw ↔
      7 ≤ (trim raw).utf8ByteSize ∧ ∃ (w : Wording) (d : Date), w.Tells d ∧ w.chars = (trim raw).toList := by
  have visible : ∀ c ∈ (trim raw).toList.head?, isSpace c = false := by
    rw [trim, String.toList_ofList]
    exact head_trimChars raw.toList
  constructor
  · intro changed
    unfold showDate at changed
    dsimp only at changed
    split at changed
    case h_2 => exact absurd rfl changed
    case h_1 d read =>
      split at changed
      case isFalse => exact absurd rfl changed
      case isTrue long =>
        obtain ⟨w, tells, chars⟩ := exists_of_readMonth? read visible
        exact ⟨long, w, d, tells, chars⟩
  · rintro ⟨long, w, d, tells, chars⟩ same
    have read : Date.readMonth? (trim raw).toList = some d := chars ▸ tells.readMonth?
    have shown : showDate raw = d.monthAndYear := by
      unfold showDate
      dsimp only
      rw [read]
      exact if_pos long
    refine tells.ne_monthAndYear tells.real ?_
    rw [chars, ← same, shown]

/-! ### Dates in full figures -/

namespace Date

/-- Two digits without space. -/
def Part.IsPlain (p : Part) : Prop :=
  p.gap = [] ∧ p.digits.length = 2

/-- Four digits for the year, without a sign, and two each for the month and the day, without space. -/
structure Wording.IsPlain (w : Wording) : Prop where
  decimal : Digits w.year
  year : w.year.length = 4
  month : w.month.IsPlain
  day : ∀ p ∈ w.day, p.IsPlain

/-- The text is four digits, a hyphen and two digits that name a month, and perhaps another hyphen and two
digits that name a day of this month in this year. -/
def IsCalendarText (t : List Char) : Prop :=
  ∃ y m, Digits y ∧ y.length = 4 ∧ Digits m ∧ m.length = 2 ∧ 1 ≤ figure m ∧ figure m ≤ 12 ∧
    (t = y ++ '-' :: m ∨
      ∃ d, Digits d ∧ d.length = 2 ∧ 1 ≤ figure d ∧ figure d ≤ daysIn (figure y) (figure m) ∧
        t = y ++ '-' :: (m ++ '-' :: d))

theorem Part.Tells.isPlain {p : Part} {n : Nat} (h : p.Tells n) (decimal : Digits p.chars)
    (two : p.chars.length = 2) : p.IsPlain := by
  have bare := h.bare decimal
  exact ⟨bare, chars_of_bare bare ▸ two⟩

/-- A plain wording is a text of full figures. -/
theorem Wording.IsPlain.isCalendarText {w : Wording} {d : Date} (plain : w.IsPlain) (h : w.Tells d) :
    IsCalendarText w.chars := by
  obtain ⟨decimal, four, ⟨bare, two⟩, day⟩ := plain
  obtain ⟨year, month, given, real⟩ := h
  have range := month_of_exists real
  have value : d.year = figure w.year :=
    (year.figures fun c first => decimal c (List.mem_of_mem_head? first)).2
  refine ⟨w.year, w.month.digits, decimal, four, month.figures.decimal, two, ?_, ?_, ?_⟩
  · exact month.value.symm ▸ range.1
  · exact month.value.symm ▸ range.2
  · rw [Wording.chars, Part.chars_of_bare bare]
    cases shown : w.day with
    | none => exact .inl (by rw [Option.elim_none, List.append_nil])
    | some p =>
        rw [shown] at given
        obtain ⟨bare', two'⟩ := day p shown
        have limits : 1 ≤ d.day ∧ d.day ≤ daysIn d.year d.month := by
          simp only [exists?, Bool.and_eq_true, decide_eq_true_eq] at real
          exact ⟨real.1.2, real.2⟩
        rw [value, ← given.value, ← month.value] at limits
        exact .inr ⟨p.digits, given.figures.decimal, two', limits.1, limits.2, by
          rw [Option.elim_some, Part.chars_of_bare bare']⟩

/-- The wording of a text of full figures is plain. -/
theorem Wording.Tells.isPlain {w : Wording} {d : Date} (h : w.Tells d) (full : IsCalendarText w.chars) :
    w.IsPlain := by
  obtain ⟨y, m, hy, four, hm, two, -, -, shape⟩ := full
  have hyphen : '-'.isDigit = false := rfl
  obtain ⟨rest, whole, tail⟩ : ∃ rest, w.chars = y ++ '-' :: rest ∧
      (rest = m ∨ ∃ d, Digits d ∧ d.length = 2 ∧ rest = m ++ '-' :: d) := by
    rcases shape with whole | ⟨d, hd, two', -, -, whole⟩
    · exact ⟨m, whole, .inl rfl⟩
    · exact ⟨_, whole, .inr ⟨d, hd, two', rfl⟩⟩
  have filled : y ≠ [] := by
    rintro rfl
    cases four
  have figures := h.year.figures_of_append hy filled whole
  obtain ⟨sameYear, sameRest⟩ := Text.eq_of_cut_first (not_mem_of_digits figures.decimal hyphen)
    (not_mem_of_digits hy hyphen) whole
  -- what follows the year has a second hyphen on both sides or on neither
  obtain ⟨month, day⟩ : w.month.chars = m ∧ ∀ p ∈ w.day, Digits p.chars ∧ p.chars.length = 2 := by
    cases given : w.day with
    | none =>
        rw [given, Option.elim_none, List.append_nil] at sameRest
        rcases tail with rfl | ⟨d, -, -, rfl⟩
        · exact ⟨sameRest, fun p member => by cases member⟩
        · exact absurd (sameRest ▸ by simp) h.month.not_mem
    | some p =>
        rw [given, Option.elim_some] at sameRest
        rcases tail with rfl | ⟨d, hd, two', rfl⟩
        · exact absurd (sameRest ▸ by simp) (not_mem_of_digits hm hyphen)
        · obtain ⟨same, same'⟩ := Text.eq_of_cut_first h.month.not_mem (not_mem_of_digits hm hyphen) sameRest
          refine ⟨same, fun q member => ?_⟩
          cases member
          exact same' ▸ ⟨hd, two'⟩
  refine ⟨figures.decimal, sameYear ▸ four, h.month.isPlain (month ▸ hm) (month ▸ two), fun p member => ?_⟩
  have tells := h.day
  rw [Option.mem_def.1 member] at tells
  exact Part.Tells.isPlain tells (day p member).1 (day p member).2

end Date

/-- Only texts of full figures are shown as a month and a year, unless the text is a date of at least seven
bytes that is typed in another way: with fewer than four digits or a sign for the year, one digit for the
month or the day, or space inside. -/
theorem showDate_calendar_iff (raw : String) :
    (showDate raw ≠ trim raw → IsCalendarText (trim raw).toList) ↔
      ∀ (w : Wording) (d : Date), w.Tells d → w.chars = (trim raw).toList →
        7 ≤ (trim raw).utf8ByteSize → w.IsPlain := by
  rw [showDate_ne_trim_iff]
  constructor
  · intro full w d tells chars long
    have text := full ⟨long, w, d, tells, chars⟩
    exact tells.isPlain (chars ▸ text)
  · rintro plain ⟨long, w, d, tells, chars⟩
    exact chars ▸ (plain w d tells chars long).isCalendarText tells

/-- A date with one digit for its month is shown as a month and a year. -/
theorem showDate_short_month :
    showDate "2021-3-4" = "Mar 2021" ∧ trim "2021-3-4" = "2021-3-4" ∧
      ¬ IsCalendarText (trim "2021-3-4").toList := by
  refine ⟨by decide, by decide, ?_⟩
  rintro ⟨y, m, -, four, -, two, -, -, whole | ⟨d, -, two', -, -, whole⟩⟩
  all_goals
    have length := congrArg List.length whole
    simp only [List.length_append, List.length_cons, four, two] at length
  · exact absurd length (by decide)
  · rw [two'] at length
    exact absurd length (by decide)

end Vitae
