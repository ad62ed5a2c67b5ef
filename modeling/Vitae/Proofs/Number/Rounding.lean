/-
Module: Vitae.Proofs.Number.Rounding
Layer: Proofs
Purpose: The value of a floating-point number, and that rounding to one keeps the order of what is rounded.
Imports: Mathlib.Data.Int.Log, Mathlib.Data.Rat.Floor, Mathlib.Tactic.FieldSimp, Mathlib.Tactic.Linarith,
  Vitae.Number.Binary64
Main exports: Finite.magnitude, Finite.value, Binary64.magnitude, divNearest_mono, magnitude_ofRatio_mono
-/
import Mathlib.Data.Int.Log
import Mathlib.Data.Rat.Floor
import Mathlib.Tactic.FieldSimp
import Mathlib.Tactic.Linarith
import Vitae.Number.Binary64

namespace Vitae.Number

/-! ### Whole numbers -/

section Whole

variable {tie : Tie} {num den num' den' bound : Nat}

/-- Rounding goes down, or up where something is left over. -/
theorem divNearest_cases (tie : Tie) (num den : Nat) :
    divNearest tie num den = num / den ∨
      divNearest tie num den = num / den + 1 ∧ den ≤ 2 * (num % den) := by
  unfold divNearest
  dsimp only
  split
  case isTrue => exact .inl rfl
  case isFalse notBelow =>
    have up : den ≤ 2 * (num % den) := Nat.le_of_not_lt notBelow
    split
    case isTrue => exact .inr ⟨rfl, up⟩
    case isFalse =>
      cases tie with
      | up => exact .inr ⟨rfl, up⟩
      | toEven =>
          rcases Nat.mod_two_eq_zero_or_one (num / den) with even | odd
          · exact .inl (by rw [even]; rfl)
          · exact .inr ⟨by rw [odd], up⟩

/-- What is rounded does not go beyond a whole number. -/
theorem divNearest_le (positive : 0 < den) (h : num ≤ bound * den) : divNearest tie num den ≤ bound := by
  have below : num / den ≤ bound := Nat.div_le_of_le_mul (by rwa [Nat.mul_comm] at h)
  rcases divNearest_cases tie num den with down | ⟨up, left⟩
  · rwa [down]
  · -- something is left over, so the bound is not reached yet
    have whole := Nat.div_add_mod num den
    rw [up]
    by_contra beyond
    have reached : num / den = bound := by omega
    rw [reached, Nat.mul_comm] at whole
    omega

theorem le_divNearest (positive : 0 < den) (h : bound * den ≤ num) : bound ≤ divNearest tie num den := by
  have below : bound ≤ num / den := (Nat.le_div_iff_mul_le positive).2 h
  rcases divNearest_cases tie num den with down | ⟨up, -⟩ <;> omega

theorem divNearest_zero (positive : 0 < den) : divNearest tie 0 den = 0 :=
  Nat.le_zero.1 (divNearest_le positive (Nat.zero_le _))

/-- Rounding to whole numbers keeps the order of quotients. -/
theorem divNearest_mono (positive : 0 < den) (positive' : 0 < den') (h : num * den' ≤ num' * den) :
    divNearest tie num den ≤ divNearest tie num' den' := by
  have whole := Nat.div_add_mod num den
  have whole' := Nat.div_add_mod num' den'
  have floors : num / den ≤ num' / den' := by
    rw [Nat.le_div_iff_mul_le positive']
    refine Nat.le_of_mul_le_mul_right ?_ positive
    calc num / den * den' * den = num / den * den * den' := Nat.mul_right_comm ..
      _ ≤ num * den' := Nat.mul_le_mul_right _ (Nat.div_mul_le_self num den)
      _ ≤ num' * den := h
  rcases Nat.lt_or_eq_of_le floors with less | same
  · -- another whole number lies between the quotients
    have low := divNearest_cases tie num den
    have high := divNearest_cases tie num' den'
    omega
  · -- over the same whole number what is left over decides
    have rest : num % den * den' ≤ num' % den' * den := by
      rw [← whole, ← whole', same] at h
      nlinarith
    unfold divNearest
    rw [same]
    dsimp only
    rcases Nat.lt_trichotomy (2 * (num' % den')) den' with down | half | up
    · have down' : 2 * (num % den) < den := by nlinarith
      rw [if_pos down, if_pos down']
    · have atMost : 2 * (num % den) ≤ den := by nlinarith
      rcases Nat.lt_or_eq_of_le atMost with less | equal
      · rw [if_pos less, if_neg (by omega), if_neg (by omega)]
        cases tie <;> dsimp only <;> omega
      · rw [if_neg (by omega), if_neg (by omega), if_neg (by omega), if_neg (by omega)]
    · rw [if_neg (Nat.lt_asymm up), if_pos up]
      have bound := divNearest_cases tie num den
      unfold divNearest at bound
      rw [same] at bound
      dsimp only at bound
      omega

end Whole

/-! ### Values -/

/-- The magnitude of a finite number. -/
def Finite.magnitude (x : Finite) : ℚ :=
  x.significand * 2 ^ x.exponent

/-- A finite number with its sign. The two zeros have the same value. -/
def Finite.value (x : Finite) : ℚ :=
  if x.negative then -x.magnitude else x.magnitude

/-- The magnitude of a number, above all others where it is not finite. -/
def Binary64.magnitude : Binary64 → WithTop ℚ
  | .finite x => x.magnitude
  | _ => ⊤

theorem Finite.magnitude_nonneg (x : Finite) : 0 ≤ x.magnitude :=
  mul_nonneg (Nat.cast_nonneg _) (zpow_nonneg (by norm_num) _)

@[simp] theorem cast_twoTo (n : Nat) : (twoTo n : ℚ) = 2 ^ n := by
  rw [twoTo]
  exact_mod_cast rfl

/-- A power of two as a quotient of whole powers. -/
theorem zpow_eq_div (e : Int) : (2 : ℚ) ^ e = twoTo e.toNat / twoTo (-e).toNat := by
  rcases Int.le_total 0 e with up | down
  · have none : (-e).toNat = 0 := by omega
    obtain ⟨n, rfl⟩ := Int.eq_ofNat_of_zero_le up
    simp [none]
  · have none : e.toNat = 0 := by omega
    obtain ⟨n, shape⟩ := Int.eq_ofNat_of_zero_le (show 0 ≤ -e by omega)
    obtain rfl : e = -(n : Int) := by omega
    simp [none]

theorem ratio_pos (x : Finite) : 0 < x.ratio.2 := by
  unfold Finite.ratio
  split
  · exact twoTo_pos _
  · exact Nat.one_pos

/-- The exact quotient of a number is its magnitude. -/
theorem ratio_eq_magnitude (x : Finite) : (x.ratio.1 : ℚ) / x.ratio.2 = x.magnitude := by
  unfold Finite.ratio Finite.magnitude
  split
  case isTrue small =>
    have places : (-x.exponent).toNat = x.exponent.natAbs := by omega
    have none : x.exponent.toNat = 0 := by omega
    rw [zpow_eq_div, places, none]
    simp [twoTo, div_eq_mul_inv]
  case isFalse large =>
    have none : (-x.exponent).toNat = 0 := by omega
    rw [zpow_eq_div, none]
    simp [twoTo]

/-! ### Places -/

section Places

variable {num den num' den' : Nat}

/-- Quotients in units of a place are compared as whole numbers. -/
theorem scaled_le_iff (positive : 0 < den) (k : Nat) (e : Int) :
    num * twoTo (-e).toNat ≤ k * (den * twoTo e.toNat) ↔ (num : ℚ) / den ≤ k * 2 ^ e := by
  have unit : (0 : ℚ) < twoTo (-e).toNat := by exact_mod_cast twoTo_pos _
  have whole : (0 : ℚ) < den := by exact_mod_cast positive
  rw [zpow_eq_div, ← mul_div_assoc, div_le_div_iff₀ whole unit]
  constructor
  · intro h
    have cast : ((num * twoTo (-e).toNat : Nat) : ℚ) ≤ (k * (den * twoTo e.toNat) : Nat) := by exact_mod_cast h
    push_cast at cast
    linarith
  · intro h
    have cast : ((num * twoTo (-e).toNat : Nat) : ℚ) ≤ (k * (den * twoTo e.toNat) : Nat) := by
      push_cast
      linarith
    exact_mod_cast cast

theorem le_scaled_iff (positive : 0 < den) (k : Nat) (e : Int) :
    k * (den * twoTo e.toNat) ≤ num * twoTo (-e).toNat ↔ k * (2 : ℚ) ^ e ≤ num / den := by
  have unit : (0 : ℚ) < twoTo (-e).toNat := by exact_mod_cast twoTo_pos _
  have whole : (0 : ℚ) < den := by exact_mod_cast positive
  rw [zpow_eq_div, ← mul_div_assoc, div_le_div_iff₀ unit whole]
  constructor
  · intro h
    have cast : ((k * (den * twoTo e.toNat) : Nat) : ℚ) ≤ (num * twoTo (-e).toNat : Nat) := by exact_mod_cast h
    push_cast at cast
    linarith
  · intro h
    have cast : ((k * (den * twoTo e.toNat) : Nat) : ℚ) ≤ (num * twoTo (-e).toNat : Nat) := by
      push_cast
      linarith
    exact_mod_cast cast

/-- A logarithm from the powers next to a number. -/
theorem log_two_eq {q : ℚ} (positive : 0 < q) {t : Int} (low : 2 ^ t ≤ q) (high : q < 2 ^ (t + 1)) :
    Int.log 2 q = t := by
  have least := (Int.zpow_le_iff_le_log (b := 2) (by decide) positive).1 (by exact_mod_cast low)
  have greatest := (Int.lt_zpow_iff_log_lt (b := 2) (by decide) positive).1 (by exact_mod_cast high)
  omega

/-- The exponent of the greatest power of two that is at most a quotient is its logarithm. -/
theorem floorLog2_eq_log (some : 0 < num) (positive : 0 < den) :
    floorLog2 num den = Int.log 2 ((num : ℚ) / den) := by
  have whole : (0 : ℚ) < den := by exact_mod_cast positive
  have above : (0 : ℚ) < num := by exact_mod_cast some
  have quotient : (0 : ℚ) < num / den := div_pos above whole
  have numLow : (2 : ℚ) ^ (num.log2 : Int) ≤ num := by exact_mod_cast Nat.log2_self_le some.ne'
  have numHigh : (num : ℚ) < 2 ^ ((num.log2 : Int) + 1) := by exact_mod_cast Nat.lt_log2_self (n := num)
  have denLow : (2 : ℚ) ^ (den.log2 : Int) ≤ den := by exact_mod_cast Nat.log2_self_le positive.ne'
  have denHigh : (den : ℚ) < 2 ^ ((den.log2 : Int) + 1) := by exact_mod_cast Nat.lt_log2_self (n := den)
  set guess : Int := (num.log2 : Int) - (den.log2 : Int) with guess_def
  -- the quotient lies within a factor of two of the guess
  have below : (2 : ℚ) ^ (guess - 1) < num / den := by
    rw [lt_div_iff₀ whole]
    calc (2 : ℚ) ^ (guess - 1) * den < 2 ^ (guess - 1) * 2 ^ ((den.log2 : Int) + 1) :=
          mul_lt_mul_of_pos_left denHigh (zpow_pos (by norm_num) _)
      _ = 2 ^ (num.log2 : Int) := by
          rw [← zpow_add₀ (by norm_num)]
          congr 1
          omega
      _ ≤ num := numLow
  have beyond : (num : ℚ) / den < 2 ^ (guess + 1) := by
    rw [div_lt_iff₀ whole]
    calc (num : ℚ) < 2 ^ ((num.log2 : Int) + 1) := numHigh
      _ = 2 ^ (guess + 1) * 2 ^ (den.log2 : Int) := by
          rw [← zpow_add₀ (by norm_num)]
          congr 1
          omega
      _ ≤ 2 ^ (guess + 1) * den := mul_le_mul_of_nonneg_left denLow (zpow_nonneg (by norm_num) _)
  unfold floorLog2
  dsimp only
  rw [← guess_def]
  have reached := @le_scaled_iff num den positive 1 guess
  rw [Nat.one_mul, Nat.cast_one, one_mul] at reached
  split
  case isTrue h => exact (log_two_eq quotient (reached.1 h) beyond).symm
  case isFalse h =>
    have short : (num : ℚ) / den < 2 ^ (guess - 1 + 1) := by
      rw [sub_add_cancel]
      exact lt_of_not_ge fun above => h (reached.2 above)
    exact (log_two_eq quotient below.le short).symm

/-! ### Rounding -/

/-- The exponent of the last binary place of the numbers about a quotient. -/
def lastPlace (num den : Nat) : Int :=
  max (-1074) (floorLog2 num den - 52)

/-- The quotient in units of that place, rounded. -/
def roundedUnits (num den : Nat) : Nat :=
  divNearest .toEven (num * twoTo (-lastPlace num den).toNat) (den * twoTo (lastPlace num den).toNat)

/-- The quotient rounded as if exponents had no upper end. -/
def rounded (num den : Nat) : ℚ :=
  roundedUnits num den * 2 ^ lastPlace num den

theorem unit_pos (positive : 0 < den) (e : Int) : 0 < den * twoTo e.toNat :=
  Nat.mul_pos positive (twoTo_pos _)

theorem roundedUnits_zero (positive : 0 < den) : roundedUnits 0 den = 0 := by
  rw [roundedUnits, Nat.zero_mul, divNearest_zero (unit_pos positive _)]

/-- What is rounded has at most one bit more than a significand. -/
theorem roundedUnits_le (positive : 0 < den) : roundedUnits num den ≤ twoTo 53 := by
  rcases Nat.eq_zero_or_pos num with rfl | some
  · rw [roundedUnits_zero positive]
    exact Nat.zero_le _
  refine divNearest_le (unit_pos positive _) ((scaled_le_iff positive _ _).2 ?_)
  have below : (num : ℚ) / den < 2 ^ (floorLog2 num den + 1) := by
    rw [floorLog2_eq_log some positive]
    exact_mod_cast Int.lt_zpow_succ_log_self (b := 2) (by decide) ((num : ℚ) / den)
  have place : floorLog2 num den + 1 ≤ 53 + lastPlace num den := by
    have := le_max_right (-1074) (floorLog2 num den - 52)
    unfold lastPlace
    omega
  calc (num : ℚ) / den ≤ 2 ^ (floorLog2 num den + 1) := below.le
    _ ≤ 2 ^ (53 + lastPlace num den) := zpow_le_zpow_right₀ (by norm_num) place
    _ = twoTo 53 * 2 ^ lastPlace num den := by
        rw [zpow_add₀ (by norm_num), cast_twoTo]
        norm_cast

/-- A quotient that is not rounded at the least place fills its significand. -/
theorem twoTo_le_scaled (some : 0 < num) (positive : 0 < den) (h : lastPlace num den ≠ -1074) :
    twoTo 52 * (2 : ℚ) ^ lastPlace num den ≤ num / den := by
  have quotient : (0 : ℚ) < num / den := div_pos (by exact_mod_cast some) (by exact_mod_cast positive)
  have place : lastPlace num den = floorLog2 num den - 52 := by
    unfold lastPlace at h ⊢
    omega
  calc (twoTo 52 : ℚ) * 2 ^ lastPlace num den = 2 ^ (52 + lastPlace num den) := by
        rw [zpow_add₀ (by norm_num), cast_twoTo]
        norm_cast
    _ = 2 ^ Int.log 2 ((num : ℚ) / den) := by
        rw [place, ← floorLog2_eq_log some positive]
        congr 1
        omega
    _ ≤ num / den := by exact_mod_cast Int.zpow_log_le_self (b := 2) (by decide) quotient

theorem le_roundedUnits (some : 0 < num) (positive : 0 < den) (h : lastPlace num den ≠ -1074) :
    twoTo 52 ≤ roundedUnits num den :=
  le_divNearest (unit_pos positive _) ((le_scaled_iff positive _ _).2 (twoTo_le_scaled some positive h))

/-- Rounding keeps the order of quotients. -/
theorem rounded_mono (positive : 0 < den) (positive' : 0 < den') (h : num * den' ≤ num' * den) :
    rounded num den ≤ rounded num' den' := by
  have unit : ∀ e : Int, (0 : ℚ) ≤ 2 ^ e := fun e => zpow_nonneg (by norm_num) e
  rcases Nat.eq_zero_or_pos num with rfl | some
  · rw [rounded, roundedUnits_zero positive, Nat.cast_zero, zero_mul]
    exact mul_nonneg (Nat.cast_nonneg _) (unit _)
  have some' : 0 < num' := by
    by_contra none
    obtain rfl : num' = 0 := by omega
    have := Nat.mul_pos some positive'
    omega
  have quotients : (num : ℚ) / den ≤ num' / den' := by
    rw [div_le_div_iff₀ (by exact_mod_cast positive) (by exact_mod_cast positive')]
    exact_mod_cast h
  have logs : floorLog2 num den ≤ floorLog2 num' den' := by
    rw [floorLog2_eq_log some positive, floorLog2_eq_log some' positive']
    exact Int.log_mono_right (div_pos (by exact_mod_cast some) (by exact_mod_cast positive)) quotients
  have places : lastPlace num den ≤ lastPlace num' den' :=
    max_le_max_left _ (by omega)
  rcases lt_or_eq_of_le places with less | same
  · -- a power of two lies between the rounded quotients
    have fills : lastPlace num' den' ≠ -1074 := by
      have := le_max_left (-1074) (floorLog2 num den - 52)
      unfold lastPlace at less ⊢
      omega
    calc rounded num den ≤ twoTo 53 * 2 ^ lastPlace num den :=
          mul_le_mul_of_nonneg_right (by exact_mod_cast roundedUnits_le positive) (unit _)
      _ = 2 ^ (53 + lastPlace num den) := by
          rw [zpow_add₀ (by norm_num), cast_twoTo]
          norm_cast
      _ ≤ 2 ^ (52 + lastPlace num' den') := zpow_le_zpow_right₀ (by norm_num) (by omega)
      _ = twoTo 52 * 2 ^ lastPlace num' den' := by
          rw [zpow_add₀ (by norm_num), cast_twoTo]
          norm_cast
      _ ≤ rounded num' den' :=
          mul_le_mul_of_nonneg_right (by exact_mod_cast le_roundedUnits some' positive' fills) (unit _)
  · have units : roundedUnits num den ≤ roundedUnits num' den' := by
      unfold roundedUnits
      rw [same]
      refine divNearest_mono (unit_pos positive _) (unit_pos positive' _) ?_
      calc num * twoTo (-lastPlace num' den').toNat * (den' * twoTo (lastPlace num' den').toNat)
          = num * den' * (twoTo (-lastPlace num' den').toNat * twoTo (lastPlace num' den').toNat) :=
            Nat.mul_mul_mul_comm ..
        _ ≤ num' * den * (twoTo (-lastPlace num' den').toNat * twoTo (lastPlace num' den').toNat) :=
            Nat.mul_le_mul_right _ h
        _ = _ := Nat.mul_mul_mul_comm ..
    rw [rounded, rounded, same]
    exact mul_le_mul_of_nonneg_right (by exact_mod_cast units) (unit _)

/-- The magnitude of a packed number, if there is such a number. -/
theorem magnitude_pack {significand : Nat} {exponent : Int} (negative : Bool) (least : -1074 ≤ exponent)
    (fits : significand < twoTo 53) (fills : twoTo 52 ≤ significand ∨ exponent = -1074) :
    (Binary64.pack negative significand exponent).magnitude =
      if significand * (2 : ℚ) ^ exponent < 2 ^ (1024 : Int) then
        ((significand * 2 ^ exponent : ℚ) : WithTop ℚ)
      else ⊤ := by
  have unit : (0 : ℚ) < 2 ^ exponent := zpow_pos (by norm_num) _
  unfold Binary64.pack
  by_cases range : exponent ≤ 971
  · have inside : significand * (2 : ℚ) ^ exponent < 2 ^ (1024 : Int) := by
      calc significand * (2 : ℚ) ^ exponent < 2 ^ (53 : Int) * 2 ^ exponent := by
            refine mul_lt_mul_of_pos_right ?_ unit
            exact_mod_cast fits
        _ = 2 ^ (53 + exponent) := (zpow_add₀ (by norm_num) _ _).symm
        _ ≤ 2 ^ (1024 : Int) := zpow_le_zpow_right₀ (by norm_num) (by omega)
    rw [dif_pos ⟨fits, least, range, fills⟩, if_pos inside]
    rfl
  · have full : twoTo 52 ≤ significand := fills.resolve_right (by omega)
    have outside : ¬ significand * (2 : ℚ) ^ exponent < 2 ^ (1024 : Int) := by
      rw [not_lt]
      calc (2 : ℚ) ^ (1024 : Int) ≤ 2 ^ (52 + exponent) := zpow_le_zpow_right₀ (by norm_num) (by omega)
        _ = 2 ^ (52 : Int) * 2 ^ exponent := zpow_add₀ (by norm_num) _ _
        _ ≤ significand * 2 ^ exponent := by
            refine mul_le_mul_of_nonneg_right ?_ unit.le
            exact_mod_cast full
    rw [dif_neg fun h => range h.2.2.1, if_neg outside]
    rfl

/-- The magnitude of the number nearest to a quotient, if that is not too great. -/
theorem magnitude_ofRatio (negative : Bool) (positive : 0 < den) :
    (Binary64.ofRatio negative num den).magnitude =
      if rounded num den < 2 ^ (1024 : Int) then (rounded num den : WithTop ℚ) else ⊤ := by
  have least : -1074 ≤ lastPlace num den := le_max_left _ _
  unfold Binary64.ofRatio
  split
  case isTrue none =>
    rw [none, rounded, roundedUnits_zero positive, Nat.cast_zero, zero_mul, if_pos (zpow_pos (by norm_num) _)]
    simp [Binary64.magnitude, Finite.magnitude, Finite.zero]
  case isFalse some =>
    have above : 0 < num := Nat.pos_of_ne_zero some
    have fills : twoTo 52 ≤ roundedUnits num den ∨ lastPlace num den = -1074 := by
      by_cases place : lastPlace num den = -1074
      · exact .inr place
      · exact .inl (le_roundedUnits above positive place)
    change (if roundedUnits num den = twoTo 53 then
      Binary64.pack negative (twoTo 52) (lastPlace num den + 1)
      else Binary64.pack negative (roundedUnits num den) (lastPlace num den)).magnitude = _
    split
    case isTrue full =>
      -- the carry into the next place changes the number's form only
      have carry : rounded num den = twoTo 52 * (2 : ℚ) ^ (lastPlace num den + 1) := by
        rw [rounded, full, zpow_add_one₀ (by norm_num)]
        norm_num
        ring
      rw [magnitude_pack negative (by omega) (by decide) (.inl le_rfl), carry]
    case isFalse notFull =>
      have fits : roundedUnits num den < twoTo 53 := lt_of_le_of_ne (roundedUnits_le positive) notFull
      rw [magnitude_pack negative least fits fills, rounded]

/-- Rounding to a floating-point number keeps the order of magnitudes. -/
theorem magnitude_ofRatio_mono (negative negative' : Bool) (positive : 0 < den) (positive' : 0 < den')
    (h : num * den' ≤ num' * den) :
    (Binary64.ofRatio negative num den).magnitude ≤ (Binary64.ofRatio negative' num' den').magnitude := by
  have order := rounded_mono positive positive' h
  rw [magnitude_ofRatio negative positive, magnitude_ofRatio negative' positive']
  split
  case isTrue =>
    split
    · exact_mod_cast order
    · exact le_top
  case isFalse large =>
    rw [if_neg (not_lt.2 ((not_lt.1 large).trans order))]

end Places

end Vitae.Number
