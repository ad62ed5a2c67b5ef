/-
Module: Vitae.Proofs.Json.Range
Layer: Proofs
Purpose: A numeral that stands for a number stands for a finite one. The digits that are kept make a number
  of at most 64 bits, dividing by powers of ten makes it no greater, and multiplying stops where the
  result is not finite.
Imports: Vitae.Json.Numeral, Vitae.Proofs.Number.Rounding
Main exports: Numeral.value?_finite
-/
import Vitae.Json.Numeral
import Vitae.Proofs.Number.Rounding

namespace Vitae.Json

open Number

/-- A finite number of at most 64 bits before the point. -/
def Moderate (x : Binary64) : Prop :=
  ∃ y : Finite, x = .finite y ∧ y.ratio.1 ≤ twoTo 64 * y.ratio.2

theorem tenTo_le_tenTo {m n : Nat} (h : m ≤ n) : tenTo m ≤ tenTo n :=
  Nat.pow_le_pow_right (by decide) h

theorem moderate_ofRatio (negative : Bool) {num den : Nat} (positive : 0 < den)
    (h : num ≤ twoTo 64 * den) : Moderate (.ofRatio negative num den) := by
  have bound : Binary64.ofRatio false (twoTo 64) 1 = .finite ⟨false, twoTo 52, 12, by decide⟩ := by
    decide
  have order := magnitude_ofRatio_mono negative false positive Nat.one_pos
    (by simpa using h : num * 1 ≤ twoTo 64 * den)
  rw [bound] at order
  cases shape : Binary64.ofRatio negative num den with
  | finite y =>
      refine ⟨y, rfl, ?_⟩
      rw [shape] at order
      have small : y.magnitude ≤ (twoTo 52 : ℚ) * 2 ^ (12 : Int) := WithTop.coe_le_coe.1 order
      have below : (0 : ℚ) < y.ratio.2 := by exact_mod_cast ratio_pos y
      have whole : (twoTo 52 : ℚ) * 2 ^ (12 : Int) = (twoTo 64 : Nat) := by norm_num
      rw [← ratio_eq_magnitude, div_le_iff₀ below, whole] at small
      exact_mod_cast small
  | _ =>
      rw [shape] at order
      exact absurd order (by simp [Binary64.magnitude])

/-- The powers of ten that are divided by are finite, and none is rounded below one. -/
theorem powerOfTen_finite {places : Nat} (h : places ≤ 308) :
    ∃ y : Finite, Numeral.powerOfTen places = .finite y ∧ y.ratio.2 ≤ y.ratio.1 := by
  have one : Binary64.ofNat 1 = .finite ⟨false, twoTo 52, -52, by decide⟩ := by
    decide
  have greatest : Binary64.ofNat (tenTo 308) = .finite ⟨false, 5010420900022432, 971, by decide⟩ := by
    decide +kernel
  have low : (Binary64.ofNat 1).magnitude ≤ (Numeral.powerOfTen places).magnitude :=
    magnitude_ofRatio_mono false false Nat.one_pos Nat.one_pos
      (Nat.mul_le_mul_right 1 (tenTo_pos places))
  have high : (Numeral.powerOfTen places).magnitude ≤ (Binary64.ofNat (tenTo 308)).magnitude :=
    magnitude_ofRatio_mono false false Nat.one_pos Nat.one_pos
      (Nat.mul_le_mul_right 1 (tenTo_le_tenTo h))
  rw [greatest] at high
  cases shape : Numeral.powerOfTen places with
  | finite y =>
      refine ⟨y, rfl, ?_⟩
      rw [one, shape] at low
      have above : (twoTo 52 : ℚ) * 2 ^ (-52 : Int) ≤ y.magnitude := WithTop.coe_le_coe.1 low
      have below : (0 : ℚ) < y.ratio.2 := by exact_mod_cast ratio_pos y
      have unit : (twoTo 52 : ℚ) * 2 ^ (-52 : Int) = 1 := by norm_num
      rw [← ratio_eq_magnitude, unit, le_div_iff₀ below, one_mul] at above
      exact_mod_cast above
  | _ =>
      rw [shape] at high
      exact absurd high (by simp [Binary64.magnitude])

theorem Moderate.div_powerOfTen {x : Binary64} (h : Moderate x) {places : Nat}
    (fits : places ≤ 308) : Moderate (x.div (Numeral.powerOfTen places)) := by
  obtain ⟨x, rfl, small⟩ := h
  obtain ⟨y, power, above⟩ := powerOfTen_finite fits
  have positive : 0 < y.ratio.1 := lt_of_lt_of_le (ratio_pos y) above
  have filled : y.significand ≠ 0 := by
    intro none
    rw [Finite.ratio, none] at positive
    split at positive <;> simp at positive
  have quotient : (Binary64.finite x).div (.finite y) =
      .ofRatio (x.negative != y.negative) (x.ratio.1 * y.ratio.2) (x.ratio.2 * y.ratio.1) := by
    simp [Binary64.div, filled, Binary64.divFinite]
  rw [power, quotient]
  apply moderate_ofRatio _ (Nat.mul_pos (ratio_pos x) positive)
  calc x.ratio.1 * y.ratio.2 ≤ (twoTo 64 * x.ratio.2) * y.ratio.1 := Nat.mul_le_mul small above
    _ = twoTo 64 * (x.ratio.2 * y.ratio.1) := Nat.mul_assoc ..

theorem Moderate.scaleDown {x : Binary64} (h : Moderate x) (places : Nat) :
    Moderate (Numeral.scaleDown x places) := by
  fun_induction Numeral.scaleDown x places with
  | case1 x places fits => exact h.div_powerOfTen fits
  | case2 => exact h
  | case3 x places _ _ ih => exact ih (h.div_powerOfTen le_rfl)

theorem scaleUp?_finite {x y : Binary64} {places : Nat} (h : Numeral.scaleUp? x places = some y) :
    ∃ z, y = .finite z := by
  unfold Numeral.scaleUp? at h
  split at h
  · split at h
    · exact ⟨_, (Option.some.inj h).symm⟩
    · cases h
  · split at h
    · next zero =>
        obtain rfl := Option.some.inj h
        cases x with
        | finite z => exact ⟨z, rfl⟩
        | _ => cases zero
    · cases h

namespace Numeral

theorem push?_lt {significand longer : Nat} {c : Char} (h : push? significand c = some longer) :
    longer < twoTo 64 := by
  unfold push? at h
  grind

theorem takeWhole_lt {significand : Nat} (small : significand < twoTo 64) (digits : List Char) :
    (takeWhole significand digits).1 < twoTo 64 := by
  induction digits generalizing significand with
  | nil => exact small
  | cons c rest ih =>
      rw [takeWhole]
      cases pushed : push? significand c with
      | some longer => exact ih (push?_lt pushed)
      | none => exact small

theorem takeFraction_lt {significand : Nat} (small : significand < twoTo 64) (taken : Nat)
    (digits : List Char) : (takeFraction significand taken digits).1 < twoTo 64 := by
  induction digits generalizing significand taken with
  | nil => exact small
  | cons c rest ih =>
      rw [takeFraction]
      cases pushed : push? significand c with
      | some longer => exact ih (push?_lt pushed) (taken + 1)
      | none => exact small

/-- The number of a numeral is finite. -/
theorem value?_finite {n : Numeral} {x : Binary64} (h : n.value? = some x) :
    ∃ y, x = .finite y := by
  let significand := (takeFraction (takeWhole 0 n.whole).1 0 n.fraction).1
  have small : significand < twoTo 64 :=
    takeFraction_lt (takeWhole_lt (twoTo_pos 64) n.whole) 0 n.fraction
  have moderate : Moderate (.ofNat significand) :=
    moderate_ofRatio false Nat.one_pos (by simpa using small.le)
  simp only [value?, Option.map_eq_some_iff] at h
  obtain ⟨y, scaled, rfl⟩ := h
  have finite : ∃ z, y = .finite z := by
    split at scaled
    · exact scaleUp?_finite scaled
    · obtain rfl := Option.some.inj scaled
      obtain ⟨z, shape, -⟩ := moderate.scaleDown _
      exact ⟨z, shape⟩
  obtain ⟨z, rfl⟩ := finite
  split
  · exact ⟨_, rfl⟩
  · exact ⟨z, rfl⟩

end Numeral

end Vitae.Json
