/-
Module: Vitae.Proofs.Number.Comparison
Layer: Proofs
Purpose: Comparison, bounds and rounding of floating-point numbers by their values.
Imports: Vitae.Number.Comparison, Vitae.Proofs.Number.Nearest
Main exports: isBelow_finite, divNearest_ratio_eq_iff, max_whole, toUInt32_whole
-/
import Vitae.Number.Comparison
import Vitae.Proofs.Number.Nearest

namespace Vitae.Number

/-- The exact quotient of a number with its sign is its value. -/
theorem numerator_eq_value (x : Finite) : (x.numerator : ℚ) / x.ratio.2 = x.value := by
  unfold Finite.numerator Finite.value
  split
  · rw [← ratio_eq_magnitude, Int.cast_neg, Int.cast_natCast, neg_div]
  · rw [← ratio_eq_magnitude, Int.cast_natCast]

/-- Finite numbers are compared by their values. -/
theorem isBelow_finite (x y : Finite) : (Binary64.finite x).isBelow (.finite y) = true ↔ x.value < y.value := by
  have left : (0 : ℚ) < x.ratio.2 := by exact_mod_cast ratio_pos x
  have right : (0 : ℚ) < y.ratio.2 := by exact_mod_cast ratio_pos y
  rw [Binary64.isBelow, decide_eq_true_iff, ← numerator_eq_value, ← numerator_eq_value, div_lt_div_iff₀ left right]
  exact_mod_cast Iff.rfl

theorem value_of_unsigned {x : Finite} (h : x.negative = false) : x.value = x.magnitude := by
  rw [Finite.value, h]
  rfl

theorem value_nonpos {x : Finite} (h : x.negative = true) : x.value ≤ 0 := by
  rw [Finite.value, h]
  exact neg_nonpos.2 x.magnitude_nonneg

/-- The numerator of a whole number. -/
theorem ratio_of_whole {x : Finite} {n : Nat} (h : x.magnitude = n) : x.ratio.1 = n * x.ratio.2 := by
  rw [← ratio_eq_magnitude, div_eq_iff (by exact_mod_cast (ratio_pos x).ne')] at h
  exact_mod_cast h

/-- Where a half goes up, a number is rounded to `k` from half below it to half above it. -/
theorem divNearest_ratio_eq_iff {x : Finite} {k : Nat} :
    divNearest .up x.ratio.1 x.ratio.2 = k ↔ 2 * (k : ℚ) ≤ 2 * x.magnitude + 1 ∧ 2 * x.magnitude < 2 * k + 1 := by
  have positive : (0 : ℚ) < x.ratio.2 := by exact_mod_cast ratio_pos x
  have whole : (x.ratio.1 : ℚ) = x.magnitude * x.ratio.2 := by
    rw [← ratio_eq_magnitude, div_mul_cancel₀ _ positive.ne']
  rw [divNearest_up_eq_iff (ratio_pos x)]
  have low : 2 * k * x.ratio.2 ≤ 2 * x.ratio.1 + x.ratio.2 ↔ 2 * (k : ℚ) ≤ 2 * x.magnitude + 1 := by
    rw [← mul_le_mul_iff_of_pos_right positive, add_mul, one_mul, mul_assoc 2 x.magnitude, ← whole]
    exact_mod_cast Iff.rfl
  have high : 2 * x.ratio.1 < (2 * k + 1) * x.ratio.2 ↔ 2 * x.magnitude < 2 * (k : ℚ) + 1 := by
    rw [← mul_lt_mul_iff_of_pos_right positive, mul_assoc 2 x.magnitude, ← whole]
    exact_mod_cast Iff.rfl
  rw [low, high]

/-- The greater of two whole numbers of few bits. -/
theorem max_whole {m n : Nat} (left : m < twoTo 53) (right : n < twoTo 53) :
    (Binary64.ofRatio false m 1).max (.ofRatio false n 1) = .ofRatio false (max m n) 1 := by
  obtain ⟨x, shape, unsigned, size⟩ := exists_ofWhole false left
  obtain ⟨y, shape', unsigned', size'⟩ := exists_ofWhole false right
  have below : (Binary64.finite x).isBelow (.finite y) = true ↔ m < n := by
    rw [isBelow_finite, value_of_unsigned unsigned, value_of_unsigned unsigned', size, size']
    exact Nat.cast_lt
  have greater : (Binary64.finite x).max (.finite y) =
      if (Binary64.finite x).isBelow (.finite y) then .finite y else .finite x := rfl
  rw [shape, shape', greater]
  by_cases less : m < n
  · rw [if_pos (below.2 less), max_eq_right less.le, shape']
  · rw [if_neg (below.not.2 less), max_eq_left (Nat.le_of_not_lt less), shape]

/-- The whole part of a whole number of few bits is that number. -/
theorem toUInt32_whole {n : Nat} (small : n < UInt32.size) : (Binary64.ofRatio false n 1).toUInt32 = .ofNat n := by
  obtain ⟨x, shape, unsigned, size⟩ := exists_ofWhole false (small.trans (show UInt32.size < twoTo 53 by decide))
  have part : x.ratio.1 / x.ratio.2 = n := by rw [ratio_of_whole size, Nat.mul_div_cancel _ (ratio_pos x)]
  have fits : min n (UInt32.size - 1) = n := Nat.min_eq_left (Nat.le_sub_one_of_lt small)
  rw [shape, Binary64.toUInt32, unsigned, if_neg Bool.false_ne_true, part, fits]

end Vitae.Number
