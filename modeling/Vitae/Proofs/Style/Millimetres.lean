/-
Module: Vitae.Proofs.Style.Millimetres
Layer: Proofs
Purpose: Vertical space computed in floating-point millimetres is vertical space in whole tenths of a millimetre.
  What is asked for is rounded once more than it would have to be, but the numbers with one decimal keep clear of
  every half that the second rounding could turn.
Imports: Vitae.Look, Vitae.Proofs.Number.Comparison, Vitae.Proofs.Number.Shortest, Vitae.Proofs.Style.Spacing,
  Vitae.Style.Millimetres
Main exports: bounded_toTenths, between_base, resolve_eq, resolve_tenths
-/
import Vitae.Look
import Vitae.Proofs.Number.Comparison
import Vitae.Proofs.Number.Shortest
import Vitae.Proofs.Style.Spacing
import Vitae.Style.Millimetres

namespace Vitae.Number

theorem value_zero (negative : Bool) : (Finite.zero negative).value = 0 := by
  simp [Finite.value, Finite.magnitude, Finite.zero]

theorem value_twenty : Finite.twenty.value = 20 := by
  norm_num [Finite.value, Finite.magnitude, Finite.twenty]

/-- A finite number is zero where its value is. -/
theorem isZero_iff (x : Finite) : (Binary64.finite x).isZero = true ↔ x.value = 0 := by
  have unit : (2 : ℚ) ^ x.exponent ≠ 0 := zpow_ne_zero _ (by norm_num)
  have zero : x.value = 0 ↔ x.magnitude = 0 := by
    unfold Finite.value
    split
    · exact neg_eq_zero
    · exact Iff.rfl
  rw [zero, Finite.magnitude, mul_eq_zero, or_iff_left unit, Nat.cast_eq_zero, Binary64.isZero, beq_iff_eq]

/-- There is one zero without a sign. -/
theorem eq_zero_of_value {x : Finite} (unsigned : x.negative = false) (h : x.value = 0) : x = .zero false := by
  have none : x.significand = 0 := by
    have zero := (isZero_iff x).2 h
    rwa [Binary64.isZero, beq_iff_eq] at zero
  obtain ⟨negative, significand, exponent, _, _, _, fills⟩ := x
  obtain rfl : negative = false := unsigned
  obtain rfl : significand = 0 := none
  obtain rfl : exponent = -1074 := fills.resolve_left (by decide)
  rfl

end Vitae.Number

namespace Vitae.Millimetres

open Number

theorem greatest_eq : greatest = .finite .twenty := by
  decide

/-! ### Bounds -/

/-- Less than nothing is nothing, and so is the zero with a sign. -/
theorem bounded_negative {x : Finite} (h : x.negative = true) : bounded (.finite x) = .ofNat 0 := by
  have nonpos := value_nonpos h
  have notBeyond : ¬ (Binary64.finite .twenty).isBelow (.finite x) = true := by
    rw [isBelow_finite, value_twenty]
    linarith
  unfold bounded Binary64.clamp
  rw [greatest_eq]
  by_cases below : (Binary64.finite x).isBelow (.ofNat 0) = true
  · rw [if_pos below]
    rfl
  · have zero : x.value = 0 := by
      have := (isBelow_finite x (.zero false)).not.1 below
      rw [value_zero] at this
      linarith
    rw [if_neg below, if_neg notBeyond]
    exact if_pos ((isZero_iff x).2 zero)

/-- What has no sign is nowhere changed but beyond the greatest space. -/
theorem bounded_unsigned {x : Finite} (h : x.negative = false) :
    bounded (.finite x) = if 20 < x.value then greatest else .finite x := by
  have nonneg : 0 ≤ x.value := by
    rw [value_of_unsigned h]
    exact x.magnitude_nonneg
  have notBelow : ¬ (Binary64.finite x).isBelow (.ofNat 0) = true := by
    have zero := isBelow_finite x (.zero false)
    rw [value_zero] at zero
    exact fun below => (zero.1 below).not_ge nonneg
  unfold bounded Binary64.clamp
  rw [if_neg notBelow, greatest_eq]
  split
  case isTrue beyond =>
    rw [isBelow_finite, value_twenty] at beyond
    rw [if_pos beyond]
    rfl
  case isFalse within =>
    rw [isBelow_finite, value_twenty] at within
    rw [if_neg within]
    dsimp only
    split
    case isTrue none => rw [eq_zero_of_value h ((isZero_iff x).1 none)]; rfl
    case isFalse => rfl

/-! ### Tenths -/

/-- The tenth part of a number. -/
theorem div_ten (x : Finite) :
    (Binary64.finite x).div (.ofNat 10) = .ofRatio x.negative x.ratio.1 (x.ratio.2 * 10) := by
  have ten : Finite.ten.ratio.1 = 10 * Finite.ten.ratio.2 := by decide
  have some : ¬ Finite.ten.significand = 0 := by decide
  have sign : (x.negative != Finite.ten.negative) = x.negative := Bool.xor_false _
  rw [ofNat_ten, Binary64.div, if_neg some, Binary64.divFinite, sign, ten]
  have positive : 0 < x.ratio.2 * 10 := Nat.mul_pos (ratio_pos x) (by decide)
  refine ofRatio_congr _ (Nat.mul_pos (ratio_pos x) (Nat.mul_pos (by decide) (ratio_pos _))) positive ?_
  ring

/-- The tenth part of a whole number of few bits. -/
theorem whole_div_ten (negative : Bool) {n : Nat} (small : n < twoTo 53) :
    (Binary64.ofRatio negative n 1).div (.ofNat 10) = .ofRatio negative n 10 := by
  obtain ⟨x, shape, rfl, size⟩ := exists_ofWhole negative small
  rw [shape, div_ten, ratio_of_whole size]
  refine ofRatio_congr _ (Nat.mul_pos (ratio_pos x) (by decide)) (by decide) ?_
  ring

/-- Up to the greatest space a number of tenths is kept. -/
theorem bounded_tenths {n : Nat} (h : n ≤ 200) : bounded (.ofRatio false n 10) = .ofRatio false n 10 := by
  have exact : rounded 200 10 = (200 : Nat) / (10 : Nat) :=
    rounded_exact (m := 20) (t := 0) (by decide) (by decide) (by decide) (by norm_num)
  have order : rounded n 10 ≤ rounded 200 10 := rounded_mono (by decide) (by decide) (Nat.mul_le_mul_right 10 h)
  obtain ⟨x, shape, unsigned, size⟩ :=
    exists_ofRatio false (by decide) (show n ≤ twoTo 53 * 10 from h.trans (by decide))
  have within : ¬ 20 < x.value := by
    rw [value_of_unsigned unsigned, size, not_lt]
    calc rounded n 10 ≤ rounded 200 10 := order
      _ = 20 := by rw [exact]; norm_num
  rw [shape, bounded_unsigned unsigned, if_neg within]

/-- Beyond it nothing but the greatest space is left. -/
theorem bounded_beyond {num den : Nat} (positive : 0 < den) (h : 201 * den ≤ num * 10) :
    bounded (.ofRatio false num den) = greatest := by
  rcases ofRatio_cases false num den with ⟨x, shape, unsigned⟩ | infinite
  · obtain ⟨y, limit, -, size⟩ := exists_ofRatio false (by decide) (show 201 ≤ twoTo 53 * 10 by decide)
    have order := magnitude_ofRatio_mono false false (by decide : 0 < 10) positive h
    rw [shape, limit] at order
    have near := abs_rounded_sub_le (t := 5) 201 (by decide : 0 < 10) (by norm_num) (by decide)
    have least : rounded 201 10 ≤ x.magnitude := by
      rw [← size]
      exact WithTop.coe_le_coe.1 order
    have beyond : 20 < x.value := by
      rw [value_of_unsigned unsigned]
      norm_num [abs_le] at near
      linarith
    rw [shape, bounded_unsigned unsigned, if_pos beyond]
  · rw [infinite, greatest_eq]
    rfl

/-- The greatest space is two hundred tenths. -/
theorem greatest_tenths : greatest = .ofRatio false 200 10 := by
  rw [greatest, Binary64.ofNat]
  exact ofRatio_congr false (by decide) (by decide) (by decide)

/-- A number with a sign gives no space. -/
theorem bounded_sign (num den : Nat) : bounded (.ofRatio true num den) = .ofRatio false 0 10 := by
  rcases ofRatio_cases true num den with ⟨x, shape, sign⟩ | infinite
  · rw [shape, bounded_negative sign]
    rfl
  · rw [infinite]
    rfl

/-- The tenth part of a whole number of more than two hundred. -/
theorem bounded_whole {n : Nat} (h : 200 < n) : bounded ((Binary64.ofRatio false n 1).div (.ofNat 10)) = greatest := by
  rcases ofRatio_cases false n 1 with ⟨x, shape, unsigned⟩ | infinite
  · obtain ⟨y, limit, -, size⟩ := exists_ofWhole false (show 201 < twoTo 53 by decide)
    have order := magnitude_ofRatio_mono false false Nat.one_pos Nat.one_pos (Nat.mul_le_mul_right 1 h)
    rw [limit, shape] at order
    have least : y.magnitude ≤ x.magnitude := WithTop.coe_le_coe.1 order
    have whole : 201 * x.ratio.2 ≤ x.ratio.1 := by
      rw [size, ← ratio_eq_magnitude, le_div_iff₀ (by exact_mod_cast ratio_pos x)] at least
      exact_mod_cast least
    rw [shape, div_ten, unsigned]
    apply bounded_beyond (Nat.mul_pos (ratio_pos x) (by decide))
    linarith
  · rw [infinite, greatest_eq]
    rfl

/-- The whole number nearest to a number of tenths, as tenths between nothing and the greatest space. -/
theorem bounded_round {x : Binary64} (h : x ≠ .nan) :
    bounded (x.round.div (.ofNat 10)) = .ofRatio false (Spacing.nearestTenths x).tenths 10 := by
  cases x with
  | nan => exact absurd rfl h
  | infinite negative =>
      cases negative with
      | true => rfl
      | false => exact (greatest_tenths : bounded (.infinite false) = _)
  | finite x =>
      cases sign : x.negative with
      | true =>
          have tenths : (Spacing.nearestTenths (.finite x)).tenths = 0 := by
            simp [Spacing.nearestTenths, sign, Spacing.atMost]
          rw [tenths, Binary64.round, sign]
          rcases ofRatio_cases true (divNearest .up x.ratio.1 x.ratio.2) 1 with ⟨y, shape, negative⟩ | infinite
          · rw [shape, div_ten, negative, bounded_sign]
          · rw [infinite]
            rfl
      | false =>
          have tenths : (Spacing.nearestTenths (.finite x)).tenths = min (divNearest .up x.ratio.1 x.ratio.2) 200 := by
            simp [Spacing.nearestTenths, sign, Spacing.atMost]
          rw [tenths, Binary64.round, sign]
          rcases Nat.lt_or_ge 200 (divNearest .up x.ratio.1 x.ratio.2) with beyond | within
          · rw [Nat.min_eq_right beyond.le, ← greatest_tenths, bounded_whole beyond]
          · rw [Nat.min_eq_left within, whole_div_ten false (lt_of_le_of_lt within (by decide)), bounded_tenths within]

/-- A finite number of millimetres is brought to the tenths of the spacing that it asks for. -/
theorem bounded_toTenths (x : Finite) :
    bounded (toTenths (.finite x)) = .ofRatio false (Spacing.ofFinite x).tenths 10 := by
  refine bounded_round ?_
  rw [ofNat_ten, Binary64.mul, Binary64.mulFinite]
  rcases ofRatio_cases _ _ _ with ⟨y, shape, -⟩ | infinite
  · rw [shape]
    exact Binary64.noConfusion
  · rw [infinite]
    exact Binary64.noConfusion

/-! ### Space between sections -/

/-- The base of a spacing as it is held: next to the exact quotient, and on it where that is whole. -/
theorem exists_base (s : Spacing) :
    ∃ x, Binary64.ofRatio false s.tenths 10 = .finite x ∧ x.negative = false ∧ x.magnitude = rounded s.tenths 10 ∧
      |x.magnitude - s.tenths / 10| ≤ 2 ^ (-49 : Int) ∧ (10 ∣ s.tenths → x.magnitude = s.tenths / 10) := by
  have within := s.tenths_le
  obtain ⟨x, shape, unsigned, size⟩ :=
    exists_ofRatio false (by decide) (show s.tenths ≤ twoTo 53 * 10 from within.trans (by decide))
  have bound : (s.tenths : ℚ) ≤ 200 := by exact_mod_cast within
  have near := abs_rounded_sub_le (t := 5) s.tenths (by decide : 0 < 10) (by norm_num; linarith) (by decide)
  refine ⟨x, shape, unsigned, size, by rw [size]; exact_mod_cast near, ?_⟩
  rintro ⟨m, whole⟩
  have quotient : (s.tenths : ℚ) / (10 : Nat) = m * 2 ^ (0 : Int) := by
    rw [whole]
    push_cast
    field_simp
  have exact := rounded_exact (by decide) (lt_of_le_of_lt (show m ≤ 200 by omega) (by decide)) (by decide) quotient
  rw [size, exact, Nat.cast_ofNat]

/-- One and a half times a number. -/
theorem mul_oneAndHalf {x : Finite} (unsigned : x.negative = false) :
    (Binary64.finite x).mul (.ofRatio false 3 2) = .ofRatio false (x.ratio.1 * 3) (x.ratio.2 * 2) := by
  let factor : Finite := ⟨false, 3 * twoTo 51, -52, by decide⟩
  have shape : Binary64.ofRatio false 3 2 = .finite factor := by decide
  have half : factor.ratio.1 * 2 = 3 * factor.ratio.2 := by decide
  rw [shape, Binary64.mul, Binary64.mulFinite, unsigned]
  refine ofRatio_congr _ (Nat.mul_pos (ratio_pos x) (ratio_pos _)) (Nat.mul_pos (ratio_pos x) (by decide)) ?_
  calc x.ratio.1 * factor.ratio.1 * (x.ratio.2 * 2) = x.ratio.1 * x.ratio.2 * (factor.ratio.1 * 2) := by ring
    _ = x.ratio.1 * 3 * (x.ratio.2 * factor.ratio.2) := by rw [half]; ring

/-- The product lies next to one and a half times the exact space, and on it where that can be a half. -/
theorem exists_product (s : Spacing) :
    ∃ x, (Binary64.ofRatio false s.tenths 10).mul (.ofRatio false 3 2) = .finite x ∧ x.negative = false ∧
      |x.magnitude - 3 * s.tenths / 20| ≤ 1 / 40 ∧ (10 ∣ s.tenths → x.magnitude = 3 * s.tenths / 20) := by
  obtain ⟨x, shape, unsigned, -, near, exact⟩ := exists_base s
  have bound : (s.tenths : ℚ) ≤ 200 := by exact_mod_cast s.tenths_le
  have positive : 0 < x.ratio.2 * 2 := Nat.mul_pos (ratio_pos x) (by decide)
  have quotient : ((x.ratio.1 * 3 : Nat) : ℚ) / (x.ratio.2 * 2 : Nat) = x.magnitude * 3 / 2 := by
    rw [← ratio_eq_magnitude]
    push_cast
    field_simp
  norm_num [abs_le] at near
  have small : ((x.ratio.1 * 3 : Nat) : ℚ) / (x.ratio.2 * 2 : Nat) < 2 ^ (5 : Int) := by
    rw [quotient]
    norm_num
    linarith
  have fits : x.ratio.1 * 3 ≤ twoTo 53 * (x.ratio.2 * 2) := by
    have whole : (0 : ℚ) < (x.ratio.2 * 2 : Nat) := by exact_mod_cast positive
    have below := (div_lt_iff₀ whole).1 (small.trans (show (2 : ℚ) ^ (5 : Int) < twoTo 53 by norm_num))
    exact_mod_cast below.le
  obtain ⟨y, product, unsigned', size⟩ := exists_ofRatio false positive fits
  have nearer := abs_rounded_sub_le _ positive small (by decide)
  rw [quotient, ← size] at nearer
  norm_num [abs_le] at nearer
  refine ⟨y, by rw [shape, mul_oneAndHalf unsigned, product], unsigned', ?_, ?_⟩
  · rw [abs_le]
    constructor <;> linarith
  · intro whole
    obtain ⟨m, multiple⟩ := whole
    have held : ((x.ratio.1 * 3 : Nat) : ℚ) / (x.ratio.2 * 2 : Nat) = (3 * m : Nat) * 2 ^ (-1 : Int) := by
      rw [quotient, exact ⟨m, multiple⟩, multiple]
      push_cast
      norm_num
      ring
    have few : 3 * m ≤ 200 := by
      have := s.tenths_le
      omega
    rw [size, rounded_exact positive (lt_of_le_of_lt few (by decide)) (by decide) held, quotient,
      exact ⟨m, multiple⟩]
    ring

/-- The second rounding does not see the first one. A half is reached by whole millimetres only, which are held
exactly, and everything else keeps clear of the halves by a twentieth. -/
theorem round_product (s : Spacing) :
    ((Binary64.ofRatio false s.tenths 10).mul (.ofRatio false 3 2)).round =
      .ofRatio false (divNearest .up (3 * s.tenths) 20) 1 := by
  obtain ⟨x, product, unsigned, near, exact⟩ := exists_product s
  have nearest : divNearest .up x.ratio.1 x.ratio.2 = divNearest .up (3 * s.tenths) 20 := by
    obtain ⟨low, high⟩ := (divNearest_up_eq_iff (by decide : 0 < 20)).1 (rfl : divNearest .up (3 * s.tenths) 20 = _)
    rw [divNearest_ratio_eq_iff]
    generalize divNearest .up (3 * s.tenths) 20 = n at low high ⊢
    by_cases whole : 10 ∣ s.tenths
    · have low' : (2 : ℚ) * n * 20 ≤ 2 * (3 * s.tenths) + 20 := by exact_mod_cast low
      have high' : (2 : ℚ) * (3 * s.tenths) < (2 * n + 1) * 20 := by exact_mod_cast high
      rw [exact whole]
      constructor <;> linarith
    · have low' : (20 : ℚ) * n + 1 ≤ 3 * s.tenths + 10 := by
        have clear : 20 * n + 1 ≤ 3 * s.tenths + 10 := by omega
        exact_mod_cast clear
      have high' : (3 : ℚ) * s.tenths + 1 ≤ 20 * n + 10 := by
        have clear : 3 * s.tenths + 1 ≤ 20 * n + 10 := by omega
        exact_mod_cast clear
      obtain ⟨below, above⟩ := abs_le.1 near
      constructor <;> linarith
  rw [product, Binary64.round, unsigned, nearest]

theorem medium_le (s : Spacing) : s.medium ≤ 30 := by
  have within := s.tenths_le
  exact max_le (by decide) (divNearest_le (by decide) (by omega))

theorem medium_mono {s t : Spacing} (h : s.tenths ≤ t.tenths) : s.medium ≤ t.medium :=
  max_le_max_left 1 (divNearest_mono (by decide) (by decide) (by omega))

/-- The space between sections is one and a half times the tenths, rounded once. -/
theorem between_base (s : Spacing) : between (.ofRatio false s.tenths 10) = .ofNat s.medium := by
  have fits : s.medium < UInt32.size := lt_of_le_of_lt (medium_le s) (by decide)
  have small : divNearest .up (3 * s.tenths) 20 ≤ 30 := (le_max_right _ _).trans (medium_le s)
  rw [between, round_product, Binary64.ofNat, max_whole (lt_of_le_of_lt small (by decide)) (by decide), max_comm]
  exact toUInt32_whole fits

/-! ### What is asked for -/

/-- A spacing in floating-point millimetres. -/
def ofSpacing (s : Spacing) : Millimetres where
  base := .ofRatio false s.tenths 10
  small := .ofRatio false s.tenths 10
  medium := .ofNat s.medium

theorem ofNumber_finite (x : Finite) : ofNumber (.finite x) = ofSpacing (Spacing.ofFinite x) := by
  obtain ⟨y, shape, unsigned, -⟩ := exists_base (Spacing.ofFinite x)
  have small : (Binary64.finite y).max (.ofNat 0) = .finite y := by
    have notBelow : ¬ (Binary64.finite y).isBelow (.ofNat 0) = true := by
      have zero := isBelow_finite y (.zero false)
      rw [value_zero, value_of_unsigned unsigned] at zero
      exact fun below => (zero.1 below).not_ge y.magnitude_nonneg
    exact if_neg notBelow
  unfold ofNumber ofSpacing
  dsimp only
  rw [bounded_toTenths, between_base, shape, small]

/-- The space that is computed is the spacing in tenths, held in floating-point numbers. -/
theorem resolve_eq (raw : Option Binary64) : resolve raw = ofSpacing (resolveSpacing raw).value := by
  have usual : ofNumber standard = ofSpacing .standard := by
    have three : standard = .finite ⟨false, 3 * twoTo 51, -51, by decide⟩ := by decide
    have thirty : Spacing.ofFinite ⟨false, 3 * twoTo 51, -51, by decide⟩ = .standard := by decide
    rw [three, ofNumber_finite, thirty]
  cases raw with
  | none => exact usual
  | some x =>
      cases x with
      | finite x => exact ofNumber_finite x
      | infinite negative => exact usual
      | nan => exact usual

/-- A number that is not finite counts as none. -/
theorem resolveSpacing_standard {raw : Option Binary64} (h : ∀ x, raw ≠ some (.finite x)) :
    (resolveSpacing raw).value = .standard := by
  cases raw with
  | none => rfl
  | some x =>
      cases x with
      | finite x => exact absurd rfl (h x)
      | infinite negative => rfl
      | nan => rfl

theorem toNat_medium (s : Spacing) : (ofSpacing s).medium.toNat = s.medium :=
  UInt32.toNat_ofNat_of_lt' (lt_of_le_of_lt (medium_le s) (by decide))

theorem medium_eq_floor (s : Spacing) : s.medium = max 1 ⌊(3 * s.tenths / 20 + 1 / 2 : ℚ)⌋₊ := by
  have floor := divNearest_up_eq_floor (3 * s.tenths) (by decide : 0 < 20)
  push_cast at floor
  rw [Spacing.medium, floor]

/-- The base is written like the tenths. -/
theorem text_base (s : Spacing) : (ofSpacing s).base.text = s.small :=
  text_tenths (lt_of_le_of_lt s.tenths_le (by decide))

/-- The text of a spacing has no sign. -/
theorem minus_not_mem_small (s : Spacing) : '-' ∉ s.small.toList := by
  have unsigned (n : Nat) : '-' ∉ Nat.toDigits 10 n := by
    intro member
    have digit := Nat.isDigit_of_mem_toDigits (by decide) (by decide) member
    cases digit
  unfold Spacing.small
  split <;> simp [unsigned]

/-- More tenths are more space. -/
theorem base_mono {s t : Spacing} (h : s.tenths ≤ t.tenths) :
    ∃ x y, (ofSpacing s).base = .finite x ∧ (ofSpacing t).base = .finite y ∧ x.value ≤ y.value := by
  have order : rounded s.tenths 10 ≤ rounded t.tenths 10 :=
    rounded_mono (by decide) (by decide) (Nat.mul_le_mul_right 10 h)
  obtain ⟨x, shape, unsigned, size, -⟩ := exists_base s
  obtain ⟨y, shape', unsigned', size', -⟩ := exists_base t
  refine ⟨x, y, shape, shape', ?_⟩
  rwa [value_of_unsigned unsigned, value_of_unsigned unsigned', size, size']

/-- Vertical space is sane whatever is asked for. The base is the number nearest to a whole number of tenths of a
millimetre, from none to two hundred, and it is written with one decimal at most and without a sign. The space
between entries is the base, and the space between sections is one and a half times the tenths in whole
millimetres, as if nothing had been rounded before. Where no finite number is asked for there are thirty tenths,
and a greater number never gives less space. The spacing of documents has the same tenths and the same texts. -/
theorem resolve_tenths :
    (∀ raw, ∃ k ≤ 200,
      (resolve raw).base = .ofRatio false k 10 ∧
      (resolve raw).base.text =
        (if k % 10 = 0 then toString (k / 10) else toString (k / 10) ++ "." ++ toString (k % 10)) ∧
      '-' ∉ (resolve raw).base.text.toList ∧
      (resolve raw).small = (resolve raw).base ∧
      (resolve raw).medium.toNat = max 1 ⌊(3 * k / 20 + 1 / 2 : ℚ)⌋₊ ∧
      1 ≤ (resolve raw).medium.toNat ∧ (resolve raw).medium.toNat ≤ 30 ∧
      ((∀ x, raw ≠ some (.finite x)) → k = 30) ∧
      (resolveSpacing raw).value.tenths = k ∧
      (resolveSpacing raw).value.smallLength = (resolve raw).small.text ++ "mm" ∧
      (resolveSpacing raw).value.mediumLength = toString (resolve raw).medium.toNat ++ "mm") ∧
    ∀ a b : Finite, a.value ≤ b.value →
      (∃ x y, (resolve (some (.finite a))).base = .finite x ∧ (resolve (some (.finite b))).base = .finite y ∧
        x.value ≤ y.value) ∧
      (resolve (some (.finite a))).medium.toNat ≤ (resolve (some (.finite b))).medium.toNat := by
  constructor
  · intro raw
    have usual (h : ∀ x, raw ≠ some (.finite x)) : (resolveSpacing raw).value.tenths = 30 := by
      rw [resolveSpacing_standard h]
      rfl
    rw [resolve_eq, toNat_medium]
    generalize (resolveSpacing raw).value = s at usual ⊢
    have text := text_base s
    refine ⟨s.tenths, s.tenths_le, rfl, text, ?_, rfl, medium_eq_floor s, le_max_left _ _, medium_le s, usual, rfl,
      ?_, rfl⟩
    · rw [text]
      exact minus_not_mem_small s
    · exact congrArg (· ++ "mm") text.symm
  · intro a b order
    have tenths : (Spacing.ofFinite a).tenths ≤ (Spacing.ofFinite b).tenths := Spacing.ofFinite_mono order
    rw [resolve_eq, resolve_eq, toNat_medium, toNat_medium]
    exact ⟨base_mono tenths, medium_mono tenths⟩

/-- What is not a number gives thirty tenths, and the greatest number there is gives no less space than the zero
with a sign. -/
theorem resolve_tenths_extremes :
    (∀ x, some Binary64.nan ≠ some (.finite x)) ∧ (resolveSpacing (some .nan)).value.tenths = 30 ∧
      (Finite.zero true).value ≤ Finite.value ⟨false, twoTo 53 - 1, 971, by decide⟩ ∧
      (resolve (some (.finite (.zero true)))).medium.toNat ≤
        (resolve (some (.finite ⟨false, twoTo 53 - 1, 971, by decide⟩))).medium.toNat := by
  have notFinite : ∀ x, some Binary64.nan ≠ some (.finite x) := by
    intro x
    simp
  have order : (Finite.zero true).value ≤ Finite.value ⟨false, twoTo 53 - 1, 971, by decide⟩ := by
    rw [value_zero, value_of_unsigned rfl]
    exact Finite.magnitude_nonneg _
  obtain ⟨k, -, -, -, -, -, -, -, -, usual, tenths, -⟩ := resolve_tenths.1 (some .nan)
  exact ⟨notFinite, tenths.trans (usual notFinite), order, (resolve_tenths.2 _ _ order).2⟩

end Vitae.Millimetres
