/-
Module: Vitae.Proofs.Style.Color
Layer: Proofs
Purpose: Which texts are colours, and of which channels. What is read is the colour that the notation denotes, and
  no text makes the reader cut where a character has not ended.
Imports: Vitae.Proofs.Text.Bytes, Vitae.Proofs.Text.Letters, Vitae.Style.Color
Main exports: Rgb.IsWritten, Rgb.IsDenotedBy, slice_digits, readHex_total, ofHex?_eq_some, ofHex?_congr, reads_notation
-/
import Vitae.Proofs.Text.Bytes
import Vitae.Proofs.Text.Letters
import Vitae.Style.Color

namespace Vitae.Rgb

open Text

/-! ### The notation -/

/-- Two hexadecimal digits write a channel in base 16. -/
def IsPair (high low : Char) (channel : UInt8) : Prop :=
  ∃ a b, IsHexDigit high a ∧ IsHexDigit low b ∧ channel.toNat = 16 * a + b

/-- Hexadecimal digits write a colour, two for each channel or one that stands for two. -/
inductive IsWritten : List Char → Rgb → Prop where
  | six {r₁ r₂ g₁ g₂ b₁ b₂ : Char} {color : Rgb} (red : IsPair r₁ r₂ color.red)
      (green : IsPair g₁ g₂ color.green) (blue : IsPair b₁ b₂ color.blue) :
      IsWritten [r₁, r₂, g₁, g₂, b₁, b₂] color
  | three {r g b : Char} {color : Rgb} (red : IsPair r r color.red) (green : IsPair g g color.green)
      (blue : IsPair b b color.blue) : IsWritten [r, g, b] color

/-- A text denotes a colour: with the space around it dropped, and one number sign at most, its digits are
left. -/
def IsDenotedBy (color : Rgb) (text : String) : Prop :=
  ∃ digits, IsWritten digits color ∧
    (trimChars text.toList = digits ∨ trimChars text.toList = '#' :: digits)

/-! ### Channels -/

theorem utf8Size_of_isHexDigit {c : Char} (h : isHexDigit c = true) : c.utf8Size = 1 := by
  obtain ⟨value, read⟩ := Option.isSome_iff_exists.1 h
  have ascii := ascii_of_hexDigit? read
  exact Char.utf8Size_eq_one_iff.2 (UInt32.le_iff_toNat_le.2 (Nat.le_of_lt_succ ascii))

namespace IsPair

variable {high low : Char} {channel : UInt8}

theorem digits (h : IsPair high low channel) : isHexDigit high = true ∧ isHexDigit low = true := by
  obtain ⟨a, b, left, right, -⟩ := h
  exact ⟨isHexDigit_iff.2 ⟨a, left⟩, isHexDigit_iff.2 ⟨b, right⟩⟩

/-- The byte that two digits write is their channel. -/
theorem byte_eq (h : IsPair high low channel) : hexByte? [high, low] = some channel := by
  obtain ⟨a, b, left, right, value⟩ := h
  have small : 16 * a + b < 256 := value ▸ channel.toNat_lt
  have first : hexDigit? high = some a := hexDigit?_eq_some.2 left
  have second : hexDigit? low = some b := hexDigit?_eq_some.2 right
  have unsigned : high ≠ '+' := by
    rintro rfl
    cases first
  have fits : a < 256 := by omega
  have read : hexFrom? 0 [high, low] = some (16 * a + b) := by
    simp [hexFrom?, first, second, fits, small, Nat.mul_comm a 16]
  have unsigned_eq : hexByte? [high, low] = (hexFrom? 0 [high, low]).map UInt8.ofNat := by
    unfold hexByte?
    split <;> simp_all
  rw [unsigned_eq, read, Option.map_some, ← value, UInt8.ofNat_toNat]

/-- Two digits write one channel. -/
theorem unique {other : UInt8} (h : IsPair high low channel) (h' : IsPair high low other) : channel = other :=
  Option.some.inj (h.byte_eq.symm.trans h'.byte_eq)

end IsPair

theorem exists_isPair {high low : Char} (left : isHexDigit high = true) (right : isHexDigit low = true) :
    ∃ channel, IsPair high low channel := by
  obtain ⟨a, first⟩ := isHexDigit_iff.1 left
  obtain ⟨b, second⟩ := isHexDigit_iff.1 right
  have small : 16 * a + b < 256 := by
    have := first.1
    have := second.1
    omega
  exact ⟨UInt8.ofNat (16 * a + b), a, b, first, second, UInt8.toNat_ofNat_of_lt small⟩

/-- Two digits are cut out where they begin. -/
theorem slice_pair (before behind : List Char) {place : Nat} {high low : Char} (left : isHexDigit high = true)
    (right : isHexDigit low = true) (start : utf8Length before = place) :
    slice place (place + 2) (before ++ ([high, low] ++ behind)) = .ok [high, low] := by
  refine slice_eq_ok.2 ⟨before, behind, rfl, start, ?_⟩
  rw [utf8Length_append, start, utf8Length_cons, utf8Length_cons, utf8Length_nil,
    utf8Size_of_isHexDigit left, utf8Size_of_isHexDigit right]

/-- A channel is read from its two digits. -/
theorem channelAt_of_slice {s : List Char} {place : Nat} {high low : Char} {channel : UInt8}
    (cut : slice place (place + 2) s = .ok [high, low]) (h : IsPair high low channel) :
    channelAt s place = .ok (some channel) := by
  rw [channelAt, cut]
  exact congrArg Except.ok h.byte_eq

/-! ### Digits -/

variable {s t : List Char} {color : Rgb}

/-- A digit is one byte. -/
theorem utf8Length_digits (h : s.all isHexDigit = true) : utf8Length s = s.length :=
  utf8Length_eq_length fun c member => utf8Size_of_isHexDigit (List.all_eq_true.1 h c member)

/-- The ranges of bytes that hold the channels lie inside the digits, at borders between them. -/
theorem slice_digits (bytes : utf8Length s = 6) (digits : s.all isHexDigit = true) :
    ∃ r₁ r₂ g₁ g₂ b₁ b₂, s = [r₁, r₂, g₁, g₂, b₁, b₂] ∧ slice 0 2 s = .ok [r₁, r₂] ∧
      slice 2 4 s = .ok [g₁, g₂] ∧ slice 4 6 s = .ok [b₁, b₂] := by
  have length : s.length = 6 := by rw [← bytes, utf8Length_digits digits]
  match s, length with
  | [r₁, r₂, g₁, g₂, b₁, b₂], _ =>
      simp only [List.all_cons, List.all_nil, Bool.and_eq_true, and_true] at digits
      obtain ⟨r₁', r₂', g₁', g₂', b₁', b₂'⟩ := digits
      have two : utf8Length [r₁, r₂] = 2 := by simp [utf8Size_of_isHexDigit, *]
      have four : utf8Length [r₁, r₂, g₁, g₂] = 4 := by simp [utf8Size_of_isHexDigit, *]
      refine ⟨r₁, r₂, g₁, g₂, b₁, b₂, rfl, ?_, ?_, ?_⟩
      · exact slice_pair [] _ r₁' r₂' rfl
      · exact slice_pair [r₁, r₂] _ g₁' g₂' two
      · exact slice_pair [r₁, r₂, g₁, g₂] _ b₁' b₂' four

/-- Digits write one colour. -/
theorem IsWritten.unique {other : Rgb} (h : IsWritten s color) (h' : IsWritten s other) : color = other := by
  cases color
  cases other
  cases h with
  | six red green blue =>
      cases h' with
      | six red' green' blue' =>
          cases red.unique red'
          cases green.unique green'
          cases blue.unique blue'
          rfl
  | three red green blue =>
      cases h' with
      | three red' green' blue' =>
          cases red.unique red'
          cases green.unique green'
          cases blue.unique blue'
          rfl

theorem IsWritten.digits (h : IsWritten s color) : s.all isHexDigit = true := by
  cases h with
  | six red green blue => simp [red.digits, green.digits, blue.digits]
  | three red green blue => simp [red.digits, green.digits, blue.digits]

/-- What passes the check is read as the colour that it writes. -/
theorem readDigits_of_passes (bytes : utf8Length s = 6) (digits : s.all isHexDigit = true) :
    ∃ color, readDigits s = .ok (some color) ∧ IsWritten s color := by
  obtain ⟨r₁, r₂, g₁, g₂, b₁, b₂, rfl, red, green, blue⟩ := slice_digits bytes digits
  have passed : ¬ (utf8Length [r₁, r₂, g₁, g₂, b₁, b₂] ≠ 6 ∨
      (!([r₁, r₂, g₁, g₂, b₁, b₂].all isHexDigit)) = true) := by
    rw [bytes, digits]
    decide
  simp only [List.all_cons, List.all_nil, Bool.and_eq_true, and_true] at digits
  obtain ⟨r₁', r₂', g₁', g₂', b₁', b₂'⟩ := digits
  obtain ⟨r, isRed⟩ := exists_isPair r₁' r₂'
  obtain ⟨g, isGreen⟩ := exists_isPair g₁' g₂'
  obtain ⟨b, isBlue⟩ := exists_isPair b₁' b₂'
  have first := channelAt_of_slice red isRed
  have second := channelAt_of_slice green isGreen
  have third := channelAt_of_slice blue isBlue
  refine ⟨⟨r, g, b⟩, ?_, .six isRed isGreen isBlue⟩
  rw [readDigits, if_neg passed]
  simp only [first, second, third]
  rfl

/-- Whatever fails the check is no colour. -/
theorem readDigits_of_fails (h : ¬ (utf8Length s = 6 ∧ s.all isHexDigit = true)) :
    readDigits s = .ok none := by
  have failed : utf8Length s ≠ 6 ∨ (!s.all isHexDigit) = true := by
    rwa [Bool.not_eq_true', ← Bool.not_eq_true, ← Decidable.not_and_iff_or_not]
  rw [readDigits, if_pos failed]
  rfl

theorem readDigits_total (s : List Char) : ∃ color?, readDigits s = .ok color? := by
  by_cases passes : utf8Length s = 6 ∧ s.all isHexDigit = true
  · obtain ⟨color, read, -⟩ := readDigits_of_passes passes.1 passes.2
    exact ⟨some color, read⟩
  · exact ⟨none, readDigits_of_fails passes⟩

/-- What is read is what six digits write. -/
theorem readDigits_eq_some : readDigits s = .ok (some color) ↔ s.length = 6 ∧ IsWritten s color := by
  constructor
  · intro read
    by_cases passes : utf8Length s = 6 ∧ s.all isHexDigit = true
    · obtain ⟨other, read', written⟩ := readDigits_of_passes passes.1 passes.2
      cases read'.symm.trans read
      exact ⟨utf8Length_digits passes.2 ▸ passes.1, written⟩
    · cases (readDigits_of_fails passes).symm.trans read
  · rintro ⟨length, written⟩
    have bytes : utf8Length s = 6 := by rw [utf8Length_digits written.digits, length]
    obtain ⟨other, read, written'⟩ := readDigits_of_passes bytes written.digits
    rw [read, written.unique written']

/-- Three digits are expanded to six that write the same colour. -/
theorem isWritten_expand : (expand s).length = 6 ∧ IsWritten (expand s) color ↔ IsWritten s color := by
  unfold expand
  split
  case isTrue length =>
    match s, length with
    | [r, g, b], _ =>
        constructor
        · rintro ⟨-, written⟩
          cases written with
          | six red green blue => exact .three red green blue
        · intro written
          cases written with
          | three red green blue => exact ⟨rfl, .six red green blue⟩
  case isFalse length =>
    constructor
    · exact And.right
    · intro written
      cases written with
      | six red green blue => exact ⟨rfl, .six red green blue⟩
      | three => exact absurd rfl length

/-! ### Texts -/

variable {text : String}

theorem dropSign_cons (c : Char) (rest : List Char) :
    Rgb.dropSign (c :: rest) = if c = '#' then rest else c :: rest := by
  unfold Rgb.dropSign
  split
  case h_1 same =>
    obtain ⟨rfl, rfl⟩ := List.cons.inj same
    rfl
  case h_2 other =>
    rw [if_neg]
    rintro rfl
    exact other rest rfl

theorem dropSign_of_head (unsigned : s.head? ≠ some '#') : Rgb.dropSign s = s := by
  cases s with
  | nil => rfl
  | cons c rest =>
      rw [dropSign_cons, if_neg]
      rintro rfl
      exact unsigned rfl

/-- There is no sign among digits. -/
theorem dropSign_of_digits (h : s.all isHexDigit = true) : Rgb.dropSign s = s := by
  apply dropSign_of_head
  intro signed
  have digit := List.all_eq_true.1 h '#' (List.mem_of_mem_head? signed)
  cases digit

/-- A text denotes what its digits write. -/
theorem isDenotedBy_iff : color.IsDenotedBy text ↔ IsWritten (dropSign (trimChars text.toList)) color := by
  constructor
  · rintro ⟨digits, written, bare | signed⟩
    · rwa [bare, dropSign_of_digits written.digits]
    · rwa [signed]
  · intro written
    refine ⟨_, written, ?_⟩
    unfold dropSign
    split
    case h_1 digits signed => exact .inr signed
    case h_2 => exact .inl rfl

/-- The reader cuts no text where a character has not ended. -/
theorem readHex_total (text : String) : readHex text = .ok (ofHex? text) := by
  obtain ⟨color?, read⟩ := readDigits_total (digits text)
  rw [ofHex?, readHex, read]

/-- What is read is what the text denotes. -/
theorem ofHex?_eq_some : ofHex? text = some color ↔ color.IsDenotedBy text := by
  have read : ofHex? text = some color ↔ readHex text = .ok (some color) := by
    rw [readHex_total, Except.ok.injEq]
  rw [read, readHex, readDigits_eq_some, digits, isWritten_expand, isDenotedBy_iff]

/-! ### Cases -/

/-- What two digits write depends on their values only. -/
theorem IsPair.congr {high low high' low' : Char} {channel : UInt8} (h : IsPair high low channel)
    (left : hexDigit? high = hexDigit? high') (right : hexDigit? low = hexDigit? low') :
    IsPair high' low' channel := by
  obtain ⟨a, b, first, second, value⟩ := h
  refine ⟨a, b, hexDigit?_eq_some.1 ?_, hexDigit?_eq_some.1 ?_, value⟩
  · rw [← left, hexDigit?_eq_some.2 first]
  · rw [← right, hexDigit?_eq_some.2 second]

/-- So does what a list of digits writes. -/
theorem IsWritten.congr (h : IsWritten s color) (values : s.map hexDigit? = t.map hexDigit?) :
    IsWritten t color := by
  have length : s.length = t.length := by simpa using congrArg List.length values
  cases h with
  | six red green blue =>
      match t, length with
      | [_, _, _, _, _, _], _ =>
          simp only [List.map_cons, List.map_nil, List.cons.injEq, and_true] at values
          obtain ⟨r₁, r₂, g₁, g₂, b₁, b₂⟩ := values
          exact .six (red.congr r₁ r₂) (green.congr g₁ g₂) (blue.congr b₁ b₂)
  | three red green blue =>
      match t, length with
      | [_, _, _], _ =>
          simp only [List.map_cons, List.map_nil, List.cons.injEq, and_true] at values
          obtain ⟨r, g, b⟩ := values
          exact .three (red.congr r r) (green.congr g g) (blue.congr b b)

/-- A number sign has one case. -/
theorem dropSign_lower (s : List Char) : Rgb.dropSign (lower s) = lower (Rgb.dropSign s) := by
  cases s with
  | nil => rfl
  | cons c rest =>
      have sign : c.toLower = '#' ↔ c = '#' := by
        rw [← decide_eq_decide]
        exact apply_toLower (fun c => decide (c = '#')) (by decide) c
      rw [lower, List.map_cons, dropSign_cons, dropSign_cons]
      by_cases here : c = '#'
      · rw [if_pos here, if_pos (sign.2 here)]
        rfl
      · rw [if_neg here, if_neg (here ∘ sign.1)]
        rfl

theorem map_hexDigit?_lower (s : List Char) : (lower s).map hexDigit? = s.map hexDigit? := by
  rw [lower, List.map_map]
  exact List.map_congr_left fun c _ => hexDigit?_toLower c

/-- Texts that differ in case only denote the same colours. -/
theorem IsDenotedBy.congr {other : String} (h : color.IsDenotedBy text)
    (same : lower text.toList = lower other.toList) : color.IsDenotedBy other := by
  rw [isDenotedBy_iff] at h ⊢
  apply h.congr
  rw [← map_hexDigit?_lower, ← dropSign_lower, ← trimChars_lower, same, trimChars_lower, dropSign_lower,
    map_hexDigit?_lower]

/-- A text is read in the same way in any case. -/
theorem ofHex?_congr {other : String} (same : lower text.toList = lower other.toList) :
    ofHex? text = ofHex? other := by
  apply Option.ext
  intro color
  rw [ofHex?_eq_some, ofHex?_eq_some]
  exact ⟨fun h => h.congr same, fun h => h.congr same.symm⟩

/-! ### Forms -/

/-- Three hexadecimal digits or six, in any case, always write a colour. -/
theorem exists_isWritten :
    (∃ color, IsWritten s color) ↔
      (s.length = 3 ∨ s.length = 6) ∧ ∀ c ∈ s, ∃ value, IsHexDigit c value := by
  simp only [← isHexDigit_iff, ← List.all_eq_true]
  constructor
  · rintro ⟨color, written⟩
    refine ⟨?_, written.digits⟩
    cases written with
    | six => exact .inr rfl
    | three => exact .inl rfl
  · rintro ⟨three | six, digits⟩
    · match s, three with
      | [_, _, _], _ =>
          simp only [List.all_cons, List.all_nil, Bool.and_eq_true, and_true] at digits
          obtain ⟨r, red⟩ := exists_isPair digits.1 digits.1
          obtain ⟨g, green⟩ := exists_isPair digits.2.1 digits.2.1
          obtain ⟨b, blue⟩ := exists_isPair digits.2.2 digits.2.2
          exact ⟨⟨r, g, b⟩, .three red green blue⟩
    · have bytes : utf8Length s = 6 := by rw [utf8Length_digits digits, six]
      obtain ⟨color, -, written⟩ := readDigits_of_passes bytes digits
      exact ⟨color, written⟩

/-- What follows at most one number sign decides what a text is read as. -/
theorem ofHex?_of_digits {sign : List Char} (signs : sign = [] ∨ sign = ['#']) (digits : s.all isHexDigit = true)
    (shown : trimChars text.toList = sign ++ s) : ofHex? text = some color ↔ IsWritten s color := by
  rw [ofHex?_eq_some, isDenotedBy_iff, shown]
  rcases signs with rfl | rfl
  · rw [List.nil_append, dropSign_of_digits digits]
  · rfl

/-- A number sign in front of a trimmed text makes no difference. -/
theorem ofHex?_sign (unsigned : (trimChars text.toList).head? ≠ some '#') :
    ofHex? ("#" ++ trim text) = ofHex? text := by
  have signed : ("#" ++ trim text).toList = '#' :: trimChars text.toList := by
    rw [String.toList_append, trim, String.toList_ofList, String.toList_ofList, List.singleton_append]
  apply Option.ext
  intro color
  rw [ofHex?_eq_some, ofHex?_eq_some, isDenotedBy_iff, isDenotedBy_iff, signed, trimChars_visible_cons rfl,
    dropSign_of_head unsigned]
  rfl

/-- The reader accepts the notation and nothing else. Three or six hexadecimal digits, with space around them and one
number sign at most, are the colour whose channels are the values of the pairs of digits in base 16. The case of
the digits and the sign make no difference, three digits are the same as six with each of them doubled, and all other
texts are black. On no text does the reader fail: what passes its check is six digits, and the channels are cut
out between them. -/
theorem reads_notation :
    (∀ text, (ofHex? text).isSome = true ↔
      ∃ digits, (trimChars text.toList = digits ∨ trimChars text.toList = '#' :: digits) ∧
        (digits.length = 3 ∨ digits.length = 6) ∧ ∀ c ∈ digits, ∃ value, IsHexDigit c value) ∧
    (∀ text color, ofHex? text = some color ↔ color.IsDenotedBy text) ∧
    (∀ text, (∀ color : Rgb, ¬ color.IsDenotedBy text) → ofHex text = black) ∧
    (∀ text color, IsDenotedBy color text → ofHex text = color) ∧
    (∀ r g b short long sign sign', [r, g, b].all isHexDigit = true →
      (sign = [] ∨ sign = ['#']) → (sign' = [] ∨ sign' = ['#']) →
      trimChars short.toList = sign ++ [r, g, b] → trimChars long.toList = sign' ++ [r, r, g, g, b, b] →
      ofHex? short = ofHex? long) ∧
    (∀ text other : String, lower text.toList = lower other.toList → ofHex? text = ofHex? other) ∧
    (∀ text, (trimChars text.toList).head? ≠ some '#' → ofHex? ("#" ++ trim text) = ofHex? text) ∧
    (∀ text, readHex text = .ok (ofHex? text)) ∧
    (∀ text, utf8Length (digits text) = 6 → (digits text).all isHexDigit = true →
      ∃ r₁ r₂ g₁ g₂ b₁ b₂, digits text = [r₁, r₂, g₁, g₂, b₁, b₂] ∧ slice 0 2 (digits text) = .ok [r₁, r₂] ∧
        slice 2 4 (digits text) = .ok [g₁, g₂] ∧ slice 4 6 (digits text) = .ok [b₁, b₂]) := by
  refine ⟨?accepted, fun text color => ofHex?_eq_some, ?black, ?color, ?doubled, fun text other => ofHex?_congr,
    fun text => ofHex?_sign, readHex_total, fun text => slice_digits⟩
  case accepted =>
    intro text
    have denoted : (ofHex? text).isSome = true ↔ ∃ color : Rgb, color.IsDenotedBy text := by
      rw [Option.isSome_iff_exists]
      exact exists_congr fun color => ofHex?_eq_some
    rw [denoted]
    constructor
    · rintro ⟨color, digits, written, shown⟩
      exact ⟨digits, shown, exists_isWritten.1 ⟨color, written⟩⟩
    · rintro ⟨digits, shown, form⟩
      obtain ⟨color, written⟩ := exists_isWritten.2 form
      exact ⟨color, digits, written, shown⟩
  case black =>
    intro text none
    cases read : ofHex? text with
    | some color => exact absurd (ofHex?_eq_some.1 read) (none color)
    | none => rw [ofHex, read, Option.getD_none]
  case color =>
    intro text color denoted
    rw [ofHex, ofHex?_eq_some.2 denoted, Option.getD_some]
  case doubled =>
    intro r g b short long sign sign' digits signs signs' three six
    have twice : [r, r, g, g, b, b].all isHexDigit = true := by
      simp only [List.all_cons, List.all_nil, Bool.and_eq_true, and_true] at digits ⊢
      exact ⟨digits.1, digits.1, digits.2.1, digits.2.1, digits.2.2, digits.2.2⟩
    apply Option.ext
    intro color
    rw [ofHex?_of_digits signs digits three, ofHex?_of_digits signs' twice six, ← isWritten_expand]
    exact and_iff_right rfl

/-- Three digits with a sign are the colour of six with none, in any case. What only looks like digits is black. -/
theorem reads_notation_shorthand :
    ofHex? " #1aF" = ofHex? "11aaFF\n" ∧ ofHex? "#1aF" = ofHex? "#1Af" ∧ ofHex? "#1aF" = ofHex? "1aF" ∧
      ofHex " #1aF" = ⟨0x11, 0xaa, 0xff⟩ ∧ ofHex "+1+2+3" = black ∧
      slice 2 4 (digits " #1aF") = .ok ['a', 'a'] := by
  obtain ⟨-, -, black, color, doubled, case, sign, -, cut⟩ := reads_notation
  refine ⟨?_, case _ _ (by decide), sign "1aF" (by decide), ?_, ?_, ?_⟩
  · exact doubled '1' 'a' 'F' _ _ ['#'] [] (by decide) (.inr rfl) (.inl rfl) (by decide) (by decide)
  · have written : IsWritten ['1', 'a', 'F'] ⟨0x11, 0xaa, 0xff⟩ :=
      .three ⟨1, 1, by decide, by decide, rfl⟩ ⟨10, 10, by decide, by decide, rfl⟩
        ⟨15, 15, by decide, by decide, rfl⟩
    exact color _ _ ⟨['1', 'a', 'F'], written, .inr (by decide)⟩
  · apply black
    intro color denoted
    have none : ofHex? "+1+2+3" = none := by
      rw [ofHex?]
      decide
    rw [ofHex?_eq_some.2 denoted] at none
    cases none
  · obtain ⟨r₁, r₂, g₁, g₂, b₁, b₂, whole, -, green, -⟩ := cut " #1aF" (by decide) (by decide)
    have six : digits " #1aF" = ['1', '1', 'a', 'a', 'F', 'F'] := by decide
    rw [six] at whole
    cases whole
    exact green

end Vitae.Rgb
