/-
Module: Vitae.Proofs.Calendar.Shown
Layer: Proofs
Purpose: What is shown of a date in full figures, with any space around it. A month is shown by its name and its
  year, a day like its month wherever the calendar has it, and anything else as it is typed. What is shown of
  any text stays as it is when it is typed again.
Imports: Vitae.Proofs.Calendar, Vitae.Proofs.Text.Lines
Main exports: IsDay, exists?_iff_isDay, monthName?, InFull, IsPadded, showDate_showDate, ShowsFullDates,
  showDate_fullFigures
-/
import Vitae.Proofs.Calendar
import Vitae.Proofs.Text.Lines

namespace Vitae.Date

open Text (isSpace trim trimChars isSpace_of_isDigit isSpace_of_isAlpha)
open Json.Numeral (Digits)

/-! ### The calendar -/

/-- A day of the Gregorian calendar, which is taken to hold in every year. Every fourth year has a leap day,
but of the years that end a century only every fourth. -/
def IsDay (year month day : Nat) : Prop :=
  1 ≤ day ∧
    (month ∈ [1, 3, 5, 7, 8, 10, 12] ∧ day ≤ 31 ∨ month ∈ [4, 6, 9, 11] ∧ day ≤ 30 ∨
      month = 2 ∧ (day ≤ 28 ∨ day = 29 ∧ 4 ∣ year ∧ (100 ∣ year → 400 ∣ year)))

instance (year month day : Nat) : Decidable (IsDay year month day) :=
  inferInstanceAs (Decidable (_ ∧ _))

/-- The name of a month, in three letters. -/
def monthName? : Nat → Option String
  | 1 => some "Jan"
  | 2 => some "Feb"
  | 3 => some "Mar"
  | 4 => some "Apr"
  | 5 => some "May"
  | 6 => some "Jun"
  | 7 => some "Jul"
  | 8 => some "Aug"
  | 9 => some "Sep"
  | 10 => some "Oct"
  | 11 => some "Nov"
  | 12 => some "Dec"
  | _ => none

theorem isLeap_iff (year : Nat) : isLeap year = true ↔ 4 ∣ year ∧ (100 ∣ year → 400 ∣ year) := by
  unfold isLeap
  simp only [Bool.and_eq_true, Bool.or_eq_true, beq_iff_eq, bne_iff_ne]
  omega

/-- Dates are kept for the years of four figures, and exactly for the days of the calendar. -/
theorem exists?_iff_isDay {year month day : Nat} (kept : year ≤ 9999) :
    exists? ⟨year, month, day⟩ = true ↔ IsDay year month day := by
  have inside : inRange year = true := by
    simp only [inRange, Bool.and_eq_true, decide_eq_true_eq]
    omega
  have leap := isLeap_iff year
  unfold exists? IsDay daysIn
  rw [inside, Bool.true_and, Bool.and_eq_true, decide_eq_true_eq, decide_eq_true_eq, ← leap]
  refine and_congr_right fun first => ?_
  simp only [List.mem_cons, List.not_mem_nil, or_false]
  cases isLeap year <;> grind

theorem monthName?_isSome (month : Nat) : (monthName? month).isSome = true ↔ 1 ≤ month ∧ month ≤ 12 := by
  unfold monthName?
  split <;> simp
  grind

/-- The months stand in the list in their order. -/
theorem monthNames_getElem? {month : Nat} (first : 1 ≤ month) : monthNames[month - 1]? = monthName? month := by
  rcases Nat.lt_or_ge 12 month with beyond | within
  · have none : monthName? month = none := by
      rw [← Option.not_isSome_iff_eq_none, monthName?_isSome]
      omega
    have twelve : monthNames.length = 12 := rfl
    rw [none, List.getElem?_eq_none_iff]
    omega
  · have listed : ∀ m ≤ 12, 1 ≤ m → monthNames[m - 1]? = monthName? m := by decide
    exact listed month within first

/-- What is shown of a date is the name of its month and its year. -/
theorem monthAndYear_eq {d : Date} {name : String} (named : monthName? d.month = some name) :
    d.monthAndYear = name ++ " " ++ toString d.year := by
  have range := (monthName?_isSome d.month).1 (by rw [named]; rfl)
  rw [monthAndYear, List.getD_eq_getElem?_getD, monthNames_getElem? range.1, named, Option.getD_some]

/-! ### Full figures -/

/-- The text of a number in full: so many digits, with zeros in front where it is smaller. -/
structure InFull (count : Nat) (s : List Char) : Prop where
  decimal : Digits s
  length : s.length = count

/-- A text with any space around it. -/
def IsPadded (raw : String) (t : List Char) : Prop :=
  ∃ before after, before.all isSpace = true ∧ after.all isSpace = true ∧ raw.toList = before ++ (t ++ after)

/-- A year and a month as they are typed. -/
def monthText (y m : List Char) : List Char :=
  y ++ '-' :: m

/-- A year, a month and a day as they are typed. -/
def dayText (y m d : List Char) : List Char :=
  y ++ '-' :: (m ++ '-' :: d)

variable {y m d : List Char} {raw raw' : String}

theorem InFull.figures {count : Nat} {s : List Char} (h : InFull (count + 1) s) : Figures (count + 1) s := by
  have filled : s ≠ [] := by
    rintro rfl
    cases h.length
  exact ⟨h.decimal, filled, Nat.le_of_eq h.length⟩

theorem InFull.yearText (h : InFull 4 y) : YearText (figure y) y :=
  .bare h.figures

/-- Two digits are a month or a day without space before it. -/
theorem InFull.tells (h : InFull 2 m) : (⟨[], m⟩ : Part).Tells (figure m) :=
  ⟨rfl, h.figures, rfl⟩

theorem InFull.figure_le (h : InFull 4 y) : figure y ≤ 9999 := by
  obtain ⟨decimal, four⟩ := h
  match y, four with
  | [a, b, c, e], _ =>
      have nine : ∀ x ∈ [a, b, c, e], x.toNat - 48 ≤ 9 := by
        intro x member
        have range := Text.toNat_of_isDigit (decimal x member)
        omega
      have ha := nine a (by simp)
      have hb := nine b (by simp)
      have hc := nine c (by simp)
      have he := nine e (by simp)
      have zero : '0'.toNat = 48 := rfl
      simp only [figure, List.foldl_cons, List.foldl_nil, zero]
      omega

/-- No character of a date in full figures is space. -/
theorem isSpace_monthText (hy : Digits y) (hm : Digits m) : ∀ c ∈ monthText y m, isSpace c = false := by
  intro c member
  simp only [monthText, List.mem_append, List.mem_cons] at member
  rcases member with year | rfl | month
  · exact isSpace_of_isDigit (hy c year)
  · decide
  · exact isSpace_of_isDigit (hm c month)

theorem isSpace_dayText (hy : Digits y) (hm : Digits m) (hd : Digits d) :
    ∀ c ∈ dayText y m d, isSpace c = false := by
  intro c member
  simp only [dayText, List.mem_append, List.mem_cons] at member
  rcases member with year | rfl | month | rfl | day
  · exact isSpace_of_isDigit (hy c year)
  · decide
  · exact isSpace_of_isDigit (hm c month)
  · decide
  · exact isSpace_of_isDigit (hd c day)

/-- The space around a text without space is dropped. -/
theorem IsPadded.trim_eq {t : List Char} (h : IsPadded raw t) (visible : ∀ c ∈ t, isSpace c = false) :
    trim raw = String.ofList t := by
  obtain ⟨before, after, left, right, whole⟩ := h
  have bare : trimChars t = t :=
    Text.trimChars_of_ends (fun c member => visible c (List.mem_of_mem_head? member))
      fun c member => visible c (List.mem_of_mem_getLast? member)
  rw [trim, whole, Text.trimChars_blank_append left, Text.trimChars_append_blank right, bare]

/-! ### Full figures read -/

/-- A month is read as its first day, where there is such a month. -/
theorem readMonth?_monthText (hy : InFull 4 y) (hm : InFull 2 m) :
    readMonth? (monthText y m) =
      if 1 ≤ figure m ∧ figure m ≤ 12 then some ⟨figure y, figure m, 1⟩ else none := by
  have first : InFull 2 ['0', '1'] := ⟨List.all_eq_true.1 (by decide), rfl⟩
  have one : figure ['0', '1'] = 1 := by decide
  have month := read?_month hy.yearText hm.tells
  have day := read?_full hy.yearText hm.tells first.tells
  have exact : exists? ⟨figure y, figure m, 1⟩ = true ↔ 1 ≤ figure m ∧ figure m ≤ 12 := by
    rw [exists?_iff_isDay hy.figure_le, IsDay]
    simp only [List.mem_cons, List.not_mem_nil, or_false]
    omega
  have typed : monthText y m ++ "-01".toList = y ++ '-' :: (m ++ '-' :: ['0', '1']) := by
    simp [monthText]
  simp only [Part.chars, List.nil_append, one, exact] at month day
  rw [readMonth?, typed, day, monthText, month, Option.none_or]

/-- A day is read where the calendar has it. -/
theorem readMonth?_dayText (hy : InFull 4 y) (hm : InFull 2 m) (hd : InFull 2 d) :
    readMonth? (dayText y m d) =
      if exists? ⟨figure y, figure m, figure d⟩ then some ⟨figure y, figure m, figure d⟩ else none := by
  have day := read?_full hy.yearText hm.tells hd.tells
  have hyphen : "-01".toList = '-' :: "01".toList := by decide
  have stop : ∀ c ∈ "-01".toList.head?, c.isDigit = false := by
    rw [hyphen]
    rintro c ⟨⟩
    rfl
  -- the day that is put behind it for a month cannot be read any more
  have more := @read?_append _ _ _ _ _ _ "-01".toList hy.yearText hm.tells hd.tells stop
  have typed : dayText y m d ++ "-01".toList = y ++ '-' :: (m ++ '-' :: (d ++ "-01".toList)) := by
    simp [dayText]
  have filled : "-01".toList.isEmpty = false := by decide
  simp only [Part.chars, List.nil_append] at day more
  rw [filled, Bool.false_and, if_neg Bool.false_ne_true] at more
  rw [readMonth?, typed, more, dayText, day, Option.or_none]

/-! ### Full figures shown -/

/-- A text has at least as many bytes as characters. -/
theorem length_le_utf8ByteSize (t : List Char) : t.length ≤ (String.ofList t).utf8ByteSize := by
  induction t with
  | nil => exact Nat.zero_le _
  | cons c t ih =>
      have byte := c.utf8Size_pos
      rw [String.ofList_cons, String.utf8ByteSize_append, String.utf8ByteSize_singleton, List.length_cons]
      omega

/-- What is shown of a text, once the space around it is dropped and the date in it is read. -/
theorem showDate_of_trim {t : List Char} (typed : trim raw = String.ofList t) (long : 7 ≤ t.length) :
    showDate raw = match readMonth? t with
      | some date => date.monthAndYear
      | none => String.ofList t := by
  have bytes := Nat.le_trans long (length_le_utf8ByteSize t)
  unfold showDate
  dsimp only
  rw [typed, String.toList_ofList]
  cases readMonth? t with
  | some date => exact if_pos bytes
  | none => rfl

/-- A month is shown by its name and its year, and what names no month as it is typed. -/
theorem showDate_monthText (hy : InFull 4 y) (hm : InFull 2 m) (h : IsPadded raw (monthText y m)) :
    showDate raw = match monthName? (figure m) with
      | some name => name ++ " " ++ toString (figure y)
      | none => String.ofList (monthText y m) := by
  have long : (monthText y m).length = 7 := by simp [monthText, hy.length, hm.length]
  have typed := h.trim_eq (isSpace_monthText hy.decimal hm.decimal)
  rw [showDate_of_trim typed (Nat.le_of_eq long.symm), readMonth?_monthText hy hm]
  cases named : monthName? (figure m) with
  | some name =>
      rw [if_pos ((monthName?_isSome _).1 (by rw [named]; rfl))]
      exact monthAndYear_eq named
  | none =>
      rw [if_neg fun range => by simpa [named] using (monthName?_isSome _).2 range]

/-- A day of the calendar is shown like its month, and any other day as it is typed. -/
theorem showDate_dayText (hy : InFull 4 y) (hm : InFull 2 m) (hd : InFull 2 d)
    (h : IsPadded raw (dayText y m d)) (h' : IsPadded raw' (monthText y m)) :
    (IsDay (figure y) (figure m) (figure d) → showDate raw = showDate raw') ∧
      (¬ IsDay (figure y) (figure m) (figure d) → showDate raw = String.ofList (dayText y m d)) := by
  have long : 7 ≤ (dayText y m d).length := by simp [dayText, hy.length, hm.length, hd.length]
  have typed := h.trim_eq (isSpace_dayText hy.decimal hm.decimal hd.decimal)
  rw [showDate_of_trim typed long, readMonth?_dayText hy hm hd, ← exists?_iff_isDay hy.figure_le]
  constructor
  · intro real
    have range : 1 ≤ figure m ∧ figure m ≤ 12 := month_of_exists real
    obtain ⟨name, named⟩ := Option.isSome_iff_exists.1 ((monthName?_isSome _).2 range)
    rw [if_pos real, showDate_monthText hy hm h', named]
    exact monthAndYear_eq named
  · intro unreal
    rw [if_neg unreal]

/-- No month is shown as a day is typed. -/
theorem showDate_monthText_ne (hy : InFull 4 y) (hm : InFull 2 m) (h : IsPadded raw (monthText y m)) :
    showDate raw ≠ String.ofList (dayText y m d) := by
  intro same
  rw [showDate_monthText hy hm h] at same
  split at same
  case h_1 name named =>
    -- a name begins with a letter, and a day with a digit
    have letters : ∀ n ≤ 12, ∀ name ∈ monthName? n, name.toList.head?.any Char.isAlpha = true := by decide
    have range := (monthName?_isSome (figure m)).1 (by rw [named]; rfl)
    obtain ⟨c, first, letter⟩ := (Option.any_eq_true _ _).1 (letters _ range.2 name named)
    obtain ⟨rest, chars⟩ := List.head?_eq_some_iff.1 first
    obtain ⟨c', rest', rfl, digit⟩ := hy.figures.head
    have heads := congrArg (List.head? ∘ String.toList) same
    simp only [Function.comp_apply, String.toList_append, String.toList_ofList, chars, dayText, List.cons_append,
      List.head?_cons, Option.some.injEq] at heads
    rw [heads, isAlpha_of_isDigit digit] at letter
    cases letter
  case h_2 =>
    have lengths := congrArg (List.length ∘ String.toList) same
    simp [monthText, dayText] at lengths

/-! ### Texts shown again -/

/-- A year is written without space. -/
theorem isSpace_year (year : Int) : (toString year).toList ≠ [] ∧ ∀ c ∈ (toString year).toList, isSpace c = false := by
  have digits : ∀ n : Nat, n.repr.toList ≠ [] ∧ ∀ c ∈ n.repr.toList, isSpace c = false := by
    intro n
    rw [Nat.toList_repr]
    refine ⟨Nat.toDigits_ne_nil, fun c member => ?_⟩
    exact isSpace_of_isDigit (Nat.isDigit_of_mem_toDigits (by decide) (by decide) member)
  cases year with
  | ofNat n => exact digits n
  | negSucc n =>
      have written : toString (Int.negSucc n) = "-" ++ (n + 1).repr := rfl
      rw [written, String.toList_append]
      refine ⟨List.append_ne_nil_of_right_ne_nil _ (digits _).1, fun c member => ?_⟩
      rcases List.mem_append.1 member with sign | digit
      · rw [List.mem_singleton.1 sign]
        decide
      · exact (digits _).2 c digit

/-- There is no space around what is shown of a date. -/
theorem trim_monthAndYear {date : Date} (real : exists? date = true) :
    trim date.monthAndYear = date.monthAndYear := by
  obtain ⟨c, rest, shown, letter⟩ := monthAndYear_head real
  obtain ⟨filled, visible⟩ := isSpace_year date.year
  rw [trim, Text.trimChars_of_ends, String.ofList_toList]
  · intro first member
    rw [shown] at member
    cases member
    exact isSpace_of_isAlpha letter
  · intro last member
    rw [monthAndYear, String.toList_append, List.getLast?_append_of_ne_nil _ filled] at member
    exact visible last (List.mem_of_mem_getLast? member)

/-- A text is shown as it is typed, or as a date of the calendar. -/
theorem showDate_cases (raw : String) :
    showDate raw = trim raw ∨ ∃ date, exists? date = true ∧ showDate raw = date.monthAndYear := by
  have visible : ∀ c ∈ (trim raw).toList.head?, isSpace c = false := by
    rw [trim, String.toList_ofList]
    exact Text.head_trimChars raw.toList
  unfold showDate
  dsimp only
  split
  case h_2 => exact .inl rfl
  case h_1 date read =>
    obtain ⟨w, tells, -⟩ := exists_of_readMonth? read visible
    split
    · exact .inr ⟨date, tells.real, rfl⟩
    · exact .inl rfl

/-- What is shown of a text is shown as it is when it is typed again. -/
theorem showDate_showDate (raw : String) : showDate (showDate raw) = showDate raw := by
  rcases showDate_cases raw with typed | ⟨date, real, shown⟩
  · rw [typed, showDate_trim, typed]
  · rw [shown]
    by_contra changed
    rw [← trim_monthAndYear real, showDate_trim] at changed
    obtain ⟨-, w, d, tells, chars⟩ := (showDate_ne_trim_iff _).1 changed
    rw [trim_monthAndYear real] at chars
    exact tells.ne_monthAndYear real chars

/-! ### Documented dates -/

/-- What showing makes of dates in full figures, and of any text. -/
structure ShowsFullDates : Prop where
  /-- A month is shown by its name and its year, whatever space is around it. What names no month is shown as it
  is typed. -/
  month : ∀ {y m : List Char} {raw : String}, InFull 4 y → InFull 2 m → IsPadded raw (monthText y m) →
    showDate raw = match monthName? (figure m) with
      | some name => name ++ " " ++ toString (figure y)
      | none => String.ofList (monthText y m)
  /-- A day is shown like its month exactly where it is a day of the calendar. -/
  day : ∀ {y m d : List Char} {raw raw' : String}, InFull 4 y → InFull 2 m → InFull 2 d →
    IsPadded raw (dayText y m d) → IsPadded raw' (monthText y m) →
      (showDate raw = showDate raw' ↔ IsDay (figure y) (figure m) (figure d))
  /-- Any other day is shown as it is typed. -/
  other : ∀ {y m d : List Char} {raw : String}, InFull 4 y → InFull 2 m → InFull 2 d →
    IsPadded raw (dayText y m d) → ¬ IsDay (figure y) (figure m) (figure d) →
      showDate raw = String.ofList (dayText y m d)
  /-- What is shown of a text stays as it is when it is shown again. -/
  again : ∀ raw : String, showDate (showDate raw) = showDate raw
  /-- Whatever text a date is read from, its month stands in the list of months. -/
  listed : ∀ (s : List Char) (date : Date), readMonth? s = some date →
    1 ≤ date.month ∧ date.month - 1 < monthNames.length

/-- Whatever the text, the month that is read from it stands in the list of months. -/
theorem readMonth?_listed {s : List Char} {date : Date} (read : readMonth? s = some date) :
    1 ≤ date.month ∧ date.month - 1 < monthNames.length := by
  have real : exists? date = true := by
    rw [readMonth?, Option.or_eq_some_iff] at read
    rcases read with full | ⟨-, month⟩
    · obtain ⟨-, -, -, -, -, -, real, -⟩ := exists_of_read? full
      exact real
    · obtain ⟨-, -, -, -, -, -, real, -⟩ := exists_of_read? month
      exact real
  have range := month_of_exists real
  have twelve : monthNames.length = 12 := rfl
  omega

/-- Dates in full figures are shown as they are documented, and every text stays as it is when it is shown
again. -/
theorem showDate_fullFigures : ShowsFullDates where
  month := showDate_monthText
  day := by
    intro y m d raw raw' hy hm hd h h'
    obtain ⟨shown, kept⟩ := showDate_dayText hy hm hd h h'
    refine ⟨fun same => ?_, shown⟩
    by_contra unreal
    exact showDate_monthText_ne hy hm h' (same.symm.trans (kept unreal))
  other := by
    intro y m d raw hy hm hd h unreal
    -- the month of the day, without space around it
    have month : IsPadded (String.ofList (monthText y m)) (monthText y m) :=
      ⟨[], [], rfl, rfl, by rw [String.toList_ofList, List.nil_append, List.append_nil]⟩
    exact (showDate_dayText hy hm hd h month).2 unreal
  again := showDate_showDate
  listed _ _ := readMonth?_listed

/-- In 2024 there is a leap day, which is shown like its month, and in 2023 there is none. -/
theorem showDate_leapDay :
    showDate "\u00a02024-02-29\n" = showDate "2024-02\u3000" ∧ showDate "2024-02\u3000" = "Feb 2024" ∧
      showDate "2023-02-29 " = "2023-02-29" ∧ showDate "2024-13" = "2024-13" := by
  have digits {count : Nat} (s : List Char) (decimal : s.all Char.isDigit = true) (length : s.length = count) :
      InFull count s := ⟨List.all_eq_true.1 decimal, length⟩
  have leapYear := digits "2024".toList rfl rfl
  have year := digits "2023".toList rfl rfl
  have february := digits "02".toList rfl rfl
  have month : IsPadded "2024-02\u3000" (monthText "2024".toList "02".toList) :=
    ⟨[], ['\u3000'], rfl, rfl, rfl⟩
  have leapDay : IsPadded "\u00a02024-02-29\n" (dayText "2024".toList "02".toList "29".toList) :=
    ⟨['\u00a0'], ['\n'], rfl, rfl, rfl⟩
  have noDay : IsPadded "2023-02-29 " (dayText "2023".toList "02".toList "29".toList) :=
    ⟨[], [' '], rfl, rfl, rfl⟩
  have noMonth : IsPadded "2024-13" (monthText "2024".toList "13".toList) := ⟨[], [], rfl, rfl, rfl⟩
  refine ⟨?_, ?_, ?_, ?_⟩
  · exact (showDate_fullFigures.day leapYear february (digits _ rfl rfl) leapDay month).2 (by decide)
  · exact showDate_fullFigures.month leapYear february month
  · exact showDate_fullFigures.other year february (digits _ rfl rfl) noDay (by decide)
  · exact showDate_fullFigures.month leapYear (digits _ rfl rfl) noMonth

end Vitae.Date
