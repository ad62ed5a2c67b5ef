/-
Module: Vitae.Proofs.Number.Nearest
Layer: Proofs
Purpose: How near rounding stays to what is rounded. A quotient that a floating-point number can hold is not
  changed, any other one moves by half a unit of the last place at most, and how the quotient is written makes no
  difference.
Imports: Vitae.Proofs.Number.Rounding
Main exports: divNearest_near, divNearest_up_eq_iff, rounded_exact, abs_rounded_sub_le, ofRatio_congr,
  exists_ofRatio
-/
import Vitae.Proofs.Number.Rounding

namespace Vitae.Number

/-! ### Whole numbers -/

section Whole

variable {tie : Tie} {num den num' den' k : Nat}

theorem divNearest_of_lt (h : 2 * (num % den) < den) : divNearest tie num den = num / den :=
  if_pos h

theorem divNearest_of_gt (h : den < 2 * (num % den)) : divNearest tie num den = num / den + 1 := by
  unfold divNearest
  rw [if_neg (Nat.lt_asymm h), if_pos h]

theorem divNearest_of_eq (h : 2 * (num % den) = den) :
    divNearest tie num den = match tie with
      | .up => num / den + 1
      | .toEven => num / den + num / den % 2 := by
  have same : ¬ 2 * (num % den) < den ∧ ¬ den < 2 * (num % den) := by omega
  cases tie with
  | up => exact (if_neg same.1).trans (if_neg same.2)
  | toEven => exact (if_neg same.1).trans (if_neg same.2)

/-- A quotient and what is left over, doubled. -/
theorem two_mul_eq (num den : Nat) : 2 * num = 2 * (num / den) * den + 2 * (num % den) := by
  calc 2 * num = 2 * (den * (num / den) + num % den) := by rw [Nat.div_add_mod]
    _ = 2 * (num / den) * den + 2 * (num % den) := by ring

/-- What is rounded moves by a half at most. -/
theorem divNearest_near (tie : Tie) (num : Nat) (positive : 0 < den) :
    2 * divNearest tie num den * den ≤ 2 * num + den ∧ 2 * num ≤ (2 * divNearest tie num den + 1) * den := by
  have whole := two_mul_eq num den
  have rest := Nat.mod_lt num positive
  have some := Nat.zero_le (num % den)
  rcases Nat.lt_trichotomy (2 * (num % den)) den with low | half | high
  · rw [divNearest_of_lt low]
    constructor <;> linarith
  · rw [divNearest_of_eq half]
    cases tie with
    | up => dsimp only; constructor <;> linarith
    | toEven =>
        dsimp only
        rcases Nat.mod_two_eq_zero_or_one (num / den) with even | odd
        · rw [even]
          constructor <;> linarith
        · rw [odd]
          constructor <;> linarith
  · rw [divNearest_of_gt high]
    constructor <;> linarith

theorem abs_divNearest_sub_le (tie : Tie) (num : Nat) (positive : 0 < den) :
    |(divNearest tie num den : ℚ) - num / den| ≤ 1 / 2 := by
  have whole : (0 : ℚ) < den := by exact_mod_cast positive
  obtain ⟨low, high⟩ := divNearest_near tie num positive
  have below : 2 * (divNearest tie num den : ℚ) * den ≤ 2 * num + den := by exact_mod_cast low
  have above : 2 * (num : ℚ) ≤ (2 * divNearest tie num den + 1) * den := by exact_mod_cast high
  have least : (divNearest tie num den : ℚ) - 1 / 2 ≤ num / den := by
    rw [le_div_iff₀ whole]
    linarith
  have greatest : (num : ℚ) / den ≤ divNearest tie num den + 1 / 2 := by
    rw [div_le_iff₀ whole]
    linarith
  rw [abs_le]
  constructor <;> linarith

/-- An odd number is rounded to from less than a half away. -/
theorem divNearest_odd (num : Nat) (positive : 0 < den) (odd : divNearest .toEven num den % 2 = 1) :
    2 * divNearest .toEven num den * den < 2 * num + den ∧
      2 * num < (2 * divNearest .toEven num den + 1) * den := by
  have whole := two_mul_eq num den
  have rest := Nat.mod_lt num positive
  have some := Nat.zero_le (num % den)
  rcases Nat.lt_trichotomy (2 * (num % den)) den with low | half | high
  · rw [divNearest_of_lt low]
    constructor <;> linarith
  · rw [divNearest_of_eq half] at odd
    dsimp only at odd
    omega
  · rw [divNearest_of_gt high]
    constructor <;> linarith

theorem abs_divNearest_sub_lt (num : Nat) (positive : 0 < den) (odd : divNearest .toEven num den % 2 = 1) :
    |(divNearest .toEven num den : ℚ) - num / den| < 1 / 2 := by
  have whole : (0 : ℚ) < den := by exact_mod_cast positive
  obtain ⟨low, high⟩ := divNearest_odd num positive odd
  have below : 2 * (divNearest .toEven num den : ℚ) * den < 2 * num + den := by exact_mod_cast low
  have above : 2 * (num : ℚ) < (2 * divNearest .toEven num den + 1) * den := by exact_mod_cast high
  have least : (divNearest .toEven num den : ℚ) - 1 / 2 < num / den := by
    rw [lt_div_iff₀ whole]
    linarith
  have greatest : (num : ℚ) / den < divNearest .toEven num den + 1 / 2 := by
    rw [div_lt_iff₀ whole]
    linarith
  rw [abs_lt]
  constructor <;> linarith

/-- Where a half goes up, the numbers that are rounded to `k` reach from half below it to half above it. -/
theorem divNearest_up_eq_iff (positive : 0 < den) :
    divNearest .up num den = k ↔ 2 * k * den ≤ 2 * num + den ∧ 2 * num < (2 * k + 1) * den := by
  have whole := two_mul_eq num den
  have rest := Nat.mod_lt num positive
  have some := Nat.zero_le (num % den)
  have near : 2 * divNearest .up num den * den ≤ 2 * num + den ∧
      2 * num < (2 * divNearest .up num den + 1) * den := by
    refine ⟨(divNearest_near .up num positive).1, ?_⟩
    rcases Nat.lt_trichotomy (2 * (num % den)) den with low | half | high
    · rw [divNearest_of_lt low]
      linarith
    · rw [divNearest_of_eq half]
      dsimp only
      linarith
    · rw [divNearest_of_gt high]
      linarith
  constructor
  · rintro rfl
    exact near
  · rintro ⟨low, high⟩
    have below : 2 * k * den < (2 * divNearest .up num den + 2) * den := by linarith
    have above : 2 * divNearest .up num den * den < (2 * k + 2) * den := by linarith
    have := Nat.lt_of_mul_lt_mul_right below
    have := Nat.lt_of_mul_lt_mul_right above
    omega

/-- Rounding with halves going up is the whole part of what lies half a unit higher. -/
theorem divNearest_up_eq_floor (num : Nat) (positive : 0 < den) :
    divNearest .up num den = ⌊(num : ℚ) / den + 1 / 2⌋₊ := by
  have whole : (0 : ℚ) < den := by exact_mod_cast positive
  obtain ⟨low, high⟩ := (divNearest_up_eq_iff positive).1 (rfl : divNearest .up num den = _)
  have low' : 2 * (divNearest .up num den : ℚ) * den ≤ 2 * num + den := by exact_mod_cast low
  have high' : 2 * (num : ℚ) < (2 * divNearest .up num den + 1) * den := by exact_mod_cast high
  have nonneg : (0 : ℚ) ≤ num / den + 1 / 2 := by positivity
  rw [eq_comm, Nat.floor_eq_iff nonneg]
  constructor
  · rw [← sub_le_iff_le_add, le_div_iff₀ whole]
    linarith
  · rw [← lt_sub_iff_add_lt, div_lt_iff₀ whole]
    linarith

/-- A whole number is not changed. -/
theorem divNearest_mul (tie : Tie) (k : Nat) (positive : 0 < den) : divNearest tie (k * den) den = k := by
  have none : 2 * (k * den % den) < den := by rwa [Nat.mul_mod_left]
  rw [divNearest_of_lt none, Nat.mul_div_cancel k positive]

/-- How a quotient is written makes no difference. -/
theorem divNearest_congr (positive : 0 < den) (positive' : 0 < den') (h : num * den' = num' * den) :
    divNearest tie num den = divNearest tie num' den' :=
  Nat.le_antisymm (divNearest_mono positive positive' h.le) (divNearest_mono positive' positive h.ge)

end Whole

/-! ### Units of the last place -/

section Units

variable {num den num' den' : Nat}

/-- The quotient in units of its last place. -/
theorem scaled_eq (positive : 0 < den) (e : Int) :
    ((num * twoTo (-e).toNat : Nat) : ℚ) / (den * twoTo e.toNat : Nat) = num / den / 2 ^ e := by
  have whole : (den : ℚ) ≠ 0 := by exact_mod_cast positive.ne'
  rw [zpow_eq_div e]
  push_cast
  field_simp

/-- Rounding moves a quotient by half a unit of its last place at most, and by less to an odd number of units. -/
theorem abs_roundedUnits_sub_le (num : Nat) (positive : 0 < den) :
    |(roundedUnits num den : ℚ) - num / den / 2 ^ lastPlace num den| ≤ 1 / 2 := by
  rw [← scaled_eq positive]
  exact abs_divNearest_sub_le .toEven _ (unit_pos positive _)

theorem abs_roundedUnits_sub_lt (num : Nat) (positive : 0 < den) (odd : roundedUnits num den % 2 = 1) :
    |(roundedUnits num den : ℚ) - num / den / 2 ^ lastPlace num den| < 1 / 2 := by
  rw [← scaled_eq positive]
  exact abs_divNearest_sub_lt _ (unit_pos positive _) odd

theorem abs_rounded_sub_le_half (num : Nat) (positive : 0 < den) :
    |rounded num den - num / den| ≤ 2 ^ lastPlace num den / 2 := by
  have unit : (0 : ℚ) < 2 ^ lastPlace num den := zpow_pos (by norm_num) _
  have moved : rounded num den - num / den =
      (roundedUnits num den - num / den / 2 ^ lastPlace num den) * 2 ^ lastPlace num den := by
    rw [rounded, sub_mul, div_mul_cancel₀ _ unit.ne']
  calc |rounded num den - num / den|
      = |(roundedUnits num den : ℚ) - num / den / 2 ^ lastPlace num den| * 2 ^ lastPlace num den := by
        rw [moved, abs_mul, abs_of_pos unit]
    _ ≤ 1 / 2 * 2 ^ lastPlace num den :=
        mul_le_mul_of_nonneg_right (abs_roundedUnits_sub_le num positive) unit.le
    _ = 2 ^ lastPlace num den / 2 := by ring

/-- The last place of a quotient below a power of two. -/
theorem lastPlace_le {t : Int} (some : 0 < num) (positive : 0 < den) (small : (num : ℚ) / den < 2 ^ t) :
    lastPlace num den ≤ max (-1074) (t - 53) := by
  have quotient : (0 : ℚ) < num / den := div_pos (by exact_mod_cast some) (by exact_mod_cast positive)
  have log : floorLog2 num den < t := by
    rw [floorLog2_eq_log some positive]
    exact (Int.lt_zpow_iff_log_lt (b := 2) (by decide) quotient).1 (by exact_mod_cast small)
  unfold lastPlace
  omega

/-- Rounding moves a quotient that is not too small by little. -/
theorem abs_rounded_sub_le {t : Int} (num : Nat) (positive : 0 < den) (small : (num : ℚ) / den < 2 ^ t)
    (normal : -1021 ≤ t) : |rounded num den - num / den| ≤ 2 ^ (t - 54) := by
  rcases Nat.eq_zero_or_pos num with rfl | some
  · have none : rounded 0 den = 0 := by rw [rounded, roundedUnits_zero positive, Nat.cast_zero, zero_mul]
    rw [none]
    simpa using zpow_nonneg (by norm_num : (0 : ℚ) ≤ 2) _
  · have place := lastPlace_le some positive small
    calc |rounded num den - num / den| ≤ 2 ^ lastPlace num den / 2 := abs_rounded_sub_le_half num positive
      _ ≤ 2 ^ (t - 53) / 2 := by
          refine div_le_div_of_nonneg_right (zpow_le_zpow_right₀ (by norm_num) ?_) (by norm_num)
          omega
      _ = 2 ^ (t - 54) := by
          rw [show t - 53 = (t - 54) + 1 by omega, zpow_add_one₀ (by norm_num)]
          ring

/-- A quotient that has a significand is not changed. -/
theorem rounded_exact {m : Nat} {t : Int} (positive : 0 < den) (fits : m < twoTo 53) (place : -1074 ≤ t)
    (h : (num : ℚ) / den = m * 2 ^ t) : rounded num den = num / den := by
  rcases Nat.eq_zero_or_pos num with rfl | some
  · rw [rounded, roundedUnits_zero positive]
    simp
  have unit : (0 : ℚ) < 2 ^ t := zpow_pos (by norm_num) _
  have small : (num : ℚ) / den < 2 ^ (53 + t) := by
    rw [h, zpow_add₀ (by norm_num)]
    exact mul_lt_mul_of_pos_right (by exact_mod_cast fits) unit
  have finer : lastPlace num den ≤ t := by
    have := lastPlace_le some positive small
    omega
  obtain ⟨n, shift⟩ := Int.eq_ofNat_of_zero_le (Int.sub_nonneg_of_le finer)
  have power : (2 : ℚ) ^ t = twoTo n * 2 ^ lastPlace num den := by
    rw [show t = n + lastPlace num den by omega, zpow_add₀ (by norm_num), cast_twoTo, zpow_natCast]
  have place : (0 : ℚ) < 2 ^ lastPlace num den := zpow_pos (by norm_num) _
  have scaled := unit_pos positive (lastPlace num den)
  have units : num * twoTo (-lastPlace num den).toNat =
      m * twoTo n * (den * twoTo (lastPlace num den).toNat) := by
    have whole : ((den * twoTo (lastPlace num den).toNat : Nat) : ℚ) ≠ 0 := by exact_mod_cast scaled.ne'
    have quotient : ((num * twoTo (-lastPlace num den).toNat : Nat) : ℚ) /
        (den * twoTo (lastPlace num den).toNat : Nat) = (m * twoTo n : Nat) := by
      rw [scaled_eq positive, h, power, Nat.cast_mul, ← mul_assoc, mul_div_cancel_right₀ _ place.ne']
    exact_mod_cast (div_eq_iff whole).1 quotient
  rw [rounded, roundedUnits, units, divNearest_mul _ _ scaled, h, power, Nat.cast_mul, mul_assoc]

/-! ### Numbers -/

/-- A rounded quotient that is not zero, by its units. -/
theorem ofRatio_eq_pack (negative : Bool) (some : 0 < num) :
    Binary64.ofRatio negative num den =
      if roundedUnits num den = twoTo 53 then .pack negative (twoTo 52) (lastPlace num den + 1)
      else .pack negative (roundedUnits num den) (lastPlace num den) := by
  unfold Binary64.ofRatio
  rw [if_neg some.ne']
  rfl

/-- How a quotient is written makes no difference to the number nearest to it. -/
theorem ofRatio_congr (negative : Bool) (positive : 0 < den) (positive' : 0 < den')
    (h : num * den' = num' * den) : Binary64.ofRatio negative num den = .ofRatio negative num' den' := by
  rcases Nat.eq_zero_or_pos num with rfl | some
  · obtain rfl : num' = 0 := by
      have none : num' * den = 0 := by rw [← h, Nat.zero_mul]
      exact (Nat.mul_eq_zero.1 none).resolve_right positive.ne'
    rfl
  have some' : 0 < num' := by
    refine Nat.pos_of_mul_pos_right (b := den) ?_
    rw [← h]
    exact Nat.mul_pos some positive'
  have quotients : (num : ℚ) / den = num' / den' := by
    rw [div_eq_div_iff (by exact_mod_cast positive.ne') (by exact_mod_cast positive'.ne')]
    exact_mod_cast h
  have places : lastPlace num den = lastPlace num' den' := by
    rw [lastPlace, lastPlace, floorLog2_eq_log some positive, floorLog2_eq_log some' positive', quotients]
  have units : roundedUnits num den = roundedUnits num' den' := by
    rw [roundedUnits, roundedUnits, places]
    refine divNearest_congr (unit_pos positive _) (unit_pos positive' _) ?_
    rw [Nat.mul_mul_mul_comm, h, Nat.mul_mul_mul_comm]
  rw [ofRatio_eq_pack negative some, ofRatio_eq_pack negative some', units, places]

/-- A rounded quotient keeps its sign, also where it becomes infinite. -/
theorem ofRatio_cases (negative : Bool) (num den : Nat) :
    (∃ x, Binary64.ofRatio negative num den = .finite x ∧ x.negative = negative) ∨
      Binary64.ofRatio negative num den = .infinite negative := by
  have packed : ∀ significand exponent,
      (∃ x, Binary64.pack negative significand exponent = .finite x ∧ x.negative = negative) ∨
        Binary64.pack negative significand exponent = .infinite negative := by
    intro significand exponent
    unfold Binary64.pack
    split
    · exact .inl ⟨_, rfl, rfl⟩
    · exact .inr rfl
  rcases Nat.eq_zero_or_pos num with rfl | some
  · exact .inl ⟨.zero negative, rfl, rfl⟩
  · rw [ofRatio_eq_pack negative some]
    split <;> exact packed _ _

/-- A quotient that is not too great is rounded to a finite number. -/
theorem exists_ofRatio (negative : Bool) (positive : 0 < den) (h : num ≤ twoTo 53 * den) :
    ∃ x, Binary64.ofRatio negative num den = .finite x ∧ x.negative = negative ∧
      x.magnitude = rounded num den := by
  have bound : rounded (twoTo 53) 1 = twoTo 53 := by
    have exact : rounded (twoTo 53) 1 = (twoTo 53 : Nat) / (1 : Nat) :=
      rounded_exact (m := 1) (t := 53) Nat.one_pos (by decide) (by decide) (by norm_num)
    rw [exact, Nat.cast_one, div_one]
  have order := rounded_mono positive Nat.one_pos (show num * 1 ≤ twoTo 53 * den by rwa [Nat.mul_one])
  have small : rounded num den < 2 ^ (1024 : Int) := by
    calc rounded num den ≤ twoTo 53 := by rwa [bound] at order
      _ = 2 ^ (53 : Int) := by norm_num
      _ < 2 ^ (1024 : Int) := zpow_lt_zpow_right₀ (by norm_num) (by decide)
  have size : (Binary64.ofRatio negative num den).magnitude = rounded num den := by
    rw [magnitude_ofRatio negative positive, if_pos small]
  rcases ofRatio_cases negative num den with ⟨x, shape, sign⟩ | infinite
  · rw [shape] at size
    exact ⟨x, shape, sign, WithTop.coe_inj.1 size⟩
  · rw [infinite] at size
    cases size

/-- A whole number of few bits is held as it is. -/
theorem exists_ofWhole (negative : Bool) {n : Nat} (small : n < twoTo 53) :
    ∃ x, Binary64.ofRatio negative n 1 = .finite x ∧ x.negative = negative ∧ x.magnitude = n := by
  obtain ⟨x, shape, sign, size⟩ := exists_ofRatio negative Nat.one_pos
    (show n ≤ twoTo 53 * 1 by rw [Nat.mul_one]; exact small.le)
  have exact : rounded n 1 = (n : ℚ) / (1 : Nat) :=
    rounded_exact (m := n) (t := 0) Nat.one_pos small (by decide) (by simp)
  exact ⟨x, shape, sign, by rw [size, exact, Nat.cast_one, div_one]⟩

end Units

end Vitae.Number
