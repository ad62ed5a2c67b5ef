/-
Module: Vitae.Proofs.Number.Shortest
Layer: Proofs
Purpose: The shortest decimal text of a floating-point number. Every number covers the decimals that are rounded
  to it, the first grid with a point that is covered decides, and a number of tenths is written with one digit
  after the point at most.
Imports: Mathlib.Data.Nat.Factorization.Basic, Vitae.Number.Shortest, Vitae.Proofs.Number.Nearest
Main exports: Finite.Covers, covers_of_ofRatio, coarsest_eq, text_tenths
-/
import Mathlib.Data.Nat.Factorization.Basic
import Vitae.Number.Shortest
import Vitae.Proofs.Number.Nearest

namespace Vitae.Number

/-! ### What a number covers -/

/-- A magnitude lies between the ends of what is rounded to a number. The ends belong to even numbers. -/
def Finite.Covers (x : Finite) (q : ℚ) : Prop :=
  if x.significand % 2 = 0 then
    x.quarters.1 * (2 : ℚ) ^ (x.exponent - 2) ≤ q ∧ q ≤ x.quarters.2.2 * (2 : ℚ) ^ (x.exponent - 2)
  else x.quarters.1 * (2 : ℚ) ^ (x.exponent - 2) < q ∧ q < x.quarters.2.2 * (2 : ℚ) ^ (x.exponent - 2)

/-- A quarter of the last place. -/
theorem quarter_eq (e : Int) : (2 : ℚ) ^ e = 4 * 2 ^ (e - 2) := by
  rw [show e = e - 2 + 2 by omega, zpow_add₀ (by norm_num), show e - 2 + 2 - 2 = e - 2 by omega]
  norm_num
  ring

/-- The ends of what a number covers, and the number between them. -/
theorem quarters_bounds (x : Finite) :
    4 * (x.significand : ℚ) - 2 ≤ x.quarters.1 ∧ (x.quarters.1 : ℚ) ≤ 4 * x.significand ∧
      (x.quarters.2.2 : ℚ) = 4 * x.significand + 2 := by
  have least : 4 * x.significand ≤ x.quarters.1 + 2 ∧ x.quarters.1 ≤ 4 * x.significand := by
    unfold Finite.quarters
    dsimp only
    split <;> omega
  have greatest : x.quarters.2.2 = 4 * x.significand + 2 := rfl
  have cast : 4 * (x.significand : ℚ) ≤ x.quarters.1 + 2 := by exact_mod_cast least.1
  refine ⟨?_, by exact_mod_cast least.2, by rw [greatest]; push_cast; rfl⟩
  linarith

/-- Below an odd number something is covered. -/
theorem quarters_lt {x : Finite} (odd : ¬ x.significand % 2 = 0) : (x.quarters.1 : ℚ) < 4 * x.significand := by
  have least : x.quarters.1 < 4 * x.significand := by
    unfold Finite.quarters
    dsimp only
    split <;> omega
  exact_mod_cast least

theorem magnitude_eq_quarters (x : Finite) : x.magnitude = 4 * x.significand * 2 ^ (x.exponent - 2) := by
  rw [Finite.magnitude, quarter_eq x.exponent]
  ring

namespace Finite.Covers

variable {x : Finite} {q r : ℚ}

/-- What a number covers is at most half a unit of its last place away. -/
theorem near (h : x.Covers q) : |q - x.magnitude| ≤ 2 ^ x.exponent / 2 := by
  have unit : (0 : ℚ) < 2 ^ (x.exponent - 2) := zpow_pos (by norm_num) _
  obtain ⟨least, -, greatest⟩ := quarters_bounds x
  have inside : x.quarters.1 * (2 : ℚ) ^ (x.exponent - 2) ≤ q ∧ q ≤ x.quarters.2.2 * (2 : ℚ) ^ (x.exponent - 2) := by
    unfold Covers at h
    split at h
    · exact h
    · exact ⟨h.1.le, h.2.le⟩
  have low := mul_le_mul_of_nonneg_right least unit.le
  rw [greatest] at inside
  rw [magnitude_eq_quarters, quarter_eq x.exponent, abs_le]
  constructor <;> linarith [inside.1, inside.2]

/-- A number covers everything between it and what it covers. -/
theorem between (h : x.Covers q) (within : q ≤ r ∧ r ≤ x.magnitude ∨ x.magnitude ≤ r ∧ r ≤ q) : x.Covers r := by
  have unit : (0 : ℚ) < 2 ^ (x.exponent - 2) := zpow_pos (by norm_num) _
  obtain ⟨-, least, greatest⟩ := quarters_bounds x
  rw [magnitude_eq_quarters] at within
  unfold Covers at h ⊢
  rw [greatest] at h ⊢
  split at h
  case isTrue even =>
    have low := mul_le_mul_of_nonneg_right least unit.le
    rw [if_pos even]
    rcases within with ⟨below, above⟩ | ⟨below, above⟩ <;> constructor <;> linarith
  case isFalse odd =>
    have low := mul_lt_mul_of_pos_right (quarters_lt odd) unit
    rw [if_neg odd]
    rcases within with ⟨below, above⟩ | ⟨below, above⟩ <;> constructor <;> linarith

end Finite.Covers

/-- What is covered, in units of the last place. -/
theorem covers_iff (x : Finite) (u : ℚ) :
    x.Covers (u * 2 ^ x.exponent) ↔
      if x.significand % 2 = 0 then x.quarters.1 ≤ 4 * u ∧ 4 * u ≤ x.quarters.2.2
      else x.quarters.1 < 4 * u ∧ 4 * u < x.quarters.2.2 := by
  have unit : (0 : ℚ) < 2 ^ (x.exponent - 2) := zpow_pos (by norm_num) _
  have scaled : u * 2 ^ x.exponent = 4 * u * 2 ^ (x.exponent - 2) := by
    rw [quarter_eq x.exponent]
    ring
  rw [scaled, Finite.Covers, mul_le_mul_iff_of_pos_right unit, mul_le_mul_iff_of_pos_right unit,
    mul_lt_mul_iff_of_pos_right unit, mul_lt_mul_iff_of_pos_right unit]

/-- The form of a packed number. -/
theorem form_of_pack {negative : Bool} {significand : Nat} {exponent : Int} {x : Finite}
    (h : Binary64.pack negative significand exponent = .finite x) :
    x.significand = significand ∧ x.exponent = exponent := by
  unfold Binary64.pack at h
  split at h
  · cases h
    exact ⟨rfl, rfl⟩
  · cases h

/-- Where the numbers below lie as close as those above, a number covers half a unit on both sides. -/
theorem quarters_even {x : Finite} (h : ¬ (x.significand = twoTo 52 ∧ x.exponent ≠ -1074)) {u : ℚ} (nonneg : 0 ≤ u)
    (near : x.significand - 1 / 2 ≤ u) : (x.quarters.1 : ℚ) ≤ 4 * u := by
  have shape : x.quarters.1 = 4 * x.significand - 2 := by
    unfold Finite.quarters
    rw [if_neg h]
  rw [shape]
  rcases Nat.eq_zero_or_pos x.significand with none | some
  · rw [none]
    simpa using nonneg
  · rw [Nat.cast_sub (by omega)]
    push_cast
    linarith

theorem quarters_odd {x : Finite} (odd : ¬ x.significand % 2 = 0) : (x.quarters.1 : ℚ) = 4 * x.significand - 2 := by
  have shape : x.quarters.1 = 4 * x.significand - 2 := by
    unfold Finite.quarters
    rw [if_neg]
    rintro ⟨power, -⟩
    exact odd (by rw [power]; decide)
  rw [shape, Nat.cast_sub (by omega)]
  push_cast
  rfl

/-- Below a power of two they lie twice as close, and it covers a quarter. -/
theorem quarters_power {x : Finite} (h : x.significand = twoTo 52) (place : x.exponent ≠ -1074) {u : ℚ}
    (near : twoTo 52 - 1 / 4 ≤ u) : (x.quarters.1 : ℚ) ≤ 4 * u := by
  have shape : x.quarters.1 = 4 * x.significand - 1 := by
    unfold Finite.quarters
    rw [if_pos ⟨h, place⟩]
  rw [shape, h, Nat.cast_sub (by decide)]
  norm_num at near ⊢
  linarith

/-- A positive quotient is covered by the number nearest to it. -/
theorem covers_of_ofRatio {negative : Bool} {num den : Nat} {x : Finite} (some : 0 < num) (positive : 0 < den)
    (h : Binary64.ofRatio negative num den = .finite x) : x.Covers (num / den) := by
  have unit : (0 : ℚ) < 2 ^ lastPlace num den := zpow_pos (by norm_num) _
  obtain ⟨below, above⟩ := abs_le.1 (abs_roundedUnits_sub_le num positive)
  have odd := abs_roundedUnits_sub_lt num positive
  have fills := twoTo_le_scaled some positive
  have least : -1074 ≤ lastPlace num den := le_max_left _ _
  have quotient : (num : ℚ) / den = num / den / 2 ^ lastPlace num den * 2 ^ lastPlace num den :=
    (div_mul_cancel₀ _ unit.ne').symm
  have nonneg : (0 : ℚ) ≤ num / den / 2 ^ lastPlace num den := by positivity
  rw [ofRatio_eq_pack negative some] at h
  generalize lastPlace num den = e at *
  generalize roundedUnits num den = units at *
  rw [quotient] at fills ⊢
  generalize (num : ℚ) / den / 2 ^ e = u at *
  obtain ⟨-, -, greatest⟩ := quarters_bounds x
  split at h
  case isTrue full =>
    -- the carry makes the number the first one of the next place
    obtain ⟨significand, exponent⟩ := form_of_pack h
    have carried : u * 2 ^ e = u / 2 * 2 ^ x.exponent := by
      rw [exponent, zpow_add_one₀ (by norm_num)]
      ring
    have even : x.significand % 2 = 0 := by rw [significand]; decide
    rw [full] at below above
    norm_num at below above
    rw [carried, covers_iff, if_pos even, greatest, significand]
    constructor
    · apply quarters_power significand (by omega)
      norm_num
      linarith
    · norm_num
      linarith
  case isFalse notFull =>
    obtain ⟨significand, exponent⟩ := form_of_pack h
    subst significand exponent
    rw [covers_iff, greatest]
    split
    case isTrue even =>
      constructor
      · by_cases power : x.significand = twoTo 52 ∧ x.exponent ≠ -1074
        · have reached : (twoTo 52 : ℚ) ≤ u := le_of_mul_le_mul_right (fills power.2) unit
          apply quarters_power power.1 power.2
          linarith
        · apply quarters_even power nonneg
          linarith
      · linarith
    case isFalse uneven =>
      obtain ⟨below, above⟩ := abs_lt.1 (odd (by omega))
      rw [quarters_odd uneven]
      constructor <;> linarith

/-! ### Grids -/

theorem tenTo_eq (n : Nat) : tenTo n = 10 ^ n := rfl

theorem cast_tenTo (n : Nat) : (tenTo n : ℚ) = 10 ^ n := by
  rw [tenTo_eq, Nat.cast_pow, Nat.cast_ofNat]

/-- A power of ten as a quotient of whole powers. -/
theorem ten_zpow_eq_div (p : Int) : (10 : ℚ) ^ p = tenTo p.toNat / tenTo (-p).toNat := by
  rcases Int.le_total 0 p with up | down
  · have none : (-p).toNat = 0 := by omega
    obtain ⟨n, rfl⟩ := Int.eq_ofNat_of_zero_le up
    simp [none, cast_tenTo]
  · have none : p.toNat = 0 := by omega
    obtain ⟨n, shape⟩ := Int.eq_ofNat_of_zero_le (show 0 ≤ -p by omega)
    obtain rfl : p = -(n : Int) := by omega
    simp [none, cast_tenTo]

/-- Quarters of the last place and points of a grid are counted in a common unit. -/
theorem exists_unit (e p : Int) :
    ∃ c : ℚ, 0 < c ∧
      (∀ n : Nat, ((n * (twoTo (e - 2).toNat * tenTo (-p).toNat) : Nat) : ℚ) = n * 2 ^ (e - 2) * c) ∧
      ∀ n : Nat, ((n * (twoTo (2 - e).toNat * tenTo p.toNat) : Nat) : ℚ) = n * 10 ^ p * c := by
  have two : (0 : ℚ) < twoTo (2 - e).toNat := by exact_mod_cast twoTo_pos _
  have ten : (0 : ℚ) < tenTo (-p).toNat := by exact_mod_cast tenTo_pos _
  have turned : -(e - 2) = 2 - e := by omega
  refine ⟨twoTo (2 - e).toNat * tenTo (-p).toNat, mul_pos two ten, ?_, ?_⟩
  · intro n
    rw [zpow_eq_div (e - 2), turned]
    push_cast
    field_simp
  · intro n
    rw [ten_zpow_eq_div]
    push_cast
    field_simp

/-- A point of a grid is tried by whole numbers, once quarters and points are counted in a common unit. -/
theorem tried_eq_covers [∀ q, Decidable (Finite.Covers x q)] {p : Int} {c : ℚ} {unit step : Nat} (positive : 0 < c)
    (quarters : ∀ n : Nat, ((n * unit : Nat) : ℚ) = n * 2 ^ (x.exponent - 2) * c)
    (points : ∀ n : Nat, ((n * step : Nat) : ℚ) = n * 10 ^ p * c) (n : Nat) :
    (if x.significand % 2 = 0 then decide (x.quarters.1 * unit ≤ n * step) && decide (n * step ≤ x.quarters.2.2 * unit)
      else decide (x.quarters.1 * unit < n * step) && decide (n * step < x.quarters.2.2 * unit)) =
    decide (x.Covers (n * 10 ^ p)) := by
  have le (a b : Nat) : a * unit ≤ b * step ↔ (a : ℚ) * 2 ^ (x.exponent - 2) ≤ b * 10 ^ p := by
    rw [← mul_le_mul_iff_of_pos_right positive, ← quarters, ← points, Nat.cast_le]
  have ge (a b : Nat) : b * step ≤ a * unit ↔ (b : ℚ) * 10 ^ p ≤ a * 2 ^ (x.exponent - 2) := by
    rw [← mul_le_mul_iff_of_pos_right positive, ← quarters, ← points, Nat.cast_le]
  rw [Bool.eq_iff_iff, decide_eq_true_iff]
  unfold Finite.Covers
  split
  · rw [Bool.and_eq_true, decide_eq_true_iff, decide_eq_true_iff, le, ge]
  · rw [Bool.and_eq_true, decide_eq_true_iff, decide_eq_true_iff, ← not_le, ge, ← not_le, le, not_le, not_le]

/-- Only the points of a grid on both sides of a number are tried, and one of them is found where it is covered. -/
theorem onGrid_cases (x : Finite) (p : Int) :
    ∃ lower : Nat, (lower : ℚ) * 10 ^ p ≤ x.magnitude ∧ x.magnitude < (lower + 1 : Nat) * 10 ^ p ∧
      (x.onGrid p = some lower ∧ x.Covers (lower * 10 ^ p) ∨
        x.onGrid p = some (lower + 1) ∧ x.Covers ((lower + 1 : Nat) * 10 ^ p) ∨
          x.onGrid p = none ∧ ¬ x.Covers (lower * 10 ^ p) ∧ ¬ x.Covers ((lower + 1 : Nat) * 10 ^ p)) := by
  classical
  obtain ⟨c, positive, quarters, points⟩ := exists_unit x.exponent p
  unfold Finite.onGrid
  dsimp only
  have stepPos : 0 < twoTo (2 - x.exponent).toNat * tenTo p.toNat := Nat.mul_pos (twoTo_pos _) (tenTo_pos _)
  generalize twoTo (x.exponent - 2).toNat * tenTo (-p).toNat = unit at *
  generalize twoTo (2 - x.exponent).toNat * tenTo p.toNat = step at *
  have tried := tried_eq_covers positive quarters points
  have middle : ((x.quarters.2.1 * unit : Nat) : ℚ) = x.magnitude * c := by
    rw [quarters, magnitude_eq_quarters]
    push_cast [show x.quarters.2.1 = 4 * x.significand from rfl]
    rfl
  refine ⟨x.quarters.2.1 * unit / step, ?_, ?_, ?_⟩
  · rw [← mul_le_mul_iff_of_pos_right positive, ← points, ← middle, Nat.cast_le]
    exact Nat.div_mul_le_self _ _
  · rw [← mul_lt_mul_iff_of_pos_right positive, ← points, ← middle, Nat.cast_lt]
    exact Nat.lt_mul_of_div_lt (Nat.lt_succ_self _) stepPos
  · rw [tried, tried]
    generalize x.quarters.2.1 * unit / step = lower
    by_cases low : x.Covers (lower * 10 ^ p)
    · by_cases high : x.Covers ((lower + 1 : Nat) * 10 ^ p)
      · rw [decide_eq_true low, decide_eq_true high]
        dsimp only
        split
        · exact .inr (.inl ⟨rfl, high⟩)
        · exact .inl ⟨rfl, low⟩
      · rw [decide_eq_true low, decide_eq_false high]
        exact .inl ⟨rfl, low⟩
    · by_cases high : x.Covers ((lower + 1 : Nat) * 10 ^ p)
      · rw [decide_eq_false low, decide_eq_true high]
        exact .inr (.inl ⟨rfl, high⟩)
      · rw [decide_eq_false low, decide_eq_false high]
        exact .inr (.inr ⟨rfl, low, high⟩)

theorem onGrid_eq_none {x : Finite} {p : Int} (h : ∀ n : Nat, ¬ x.Covers (n * 10 ^ p)) : x.onGrid p = none := by
  obtain ⟨lower, -, -, ⟨-, low⟩ | ⟨-, high⟩ | ⟨none, -, -⟩⟩ := onGrid_cases x p
  · exact absurd low (h lower)
  · exact absurd high (h (lower + 1))
  · exact none

/-- The only point of a grid that is covered is found, since points between it and the number would be covered
with it. -/
theorem onGrid_eq_some {x : Finite} {p : Int} {m : Nat} (covered : x.Covers (m * 10 ^ p))
    (only : ∀ n : Nat, x.Covers (n * 10 ^ p) → n = m) : x.onGrid p = some m := by
  have unit : (0 : ℚ) < 10 ^ p := zpow_pos (by norm_num) _
  obtain ⟨lower, below, above, ⟨found, low⟩ | ⟨found, high⟩ | ⟨-, low, high⟩⟩ := onGrid_cases x p
  · rw [found, only lower low]
  · rw [found, only (lower + 1) high]
  · rcases Nat.lt_or_ge lower m with right | left
    · have order : ((lower + 1 : Nat) : ℚ) * 10 ^ p ≤ m * 10 ^ p :=
        mul_le_mul_of_nonneg_right (by exact_mod_cast right) unit.le
      exact absurd (covered.between (.inr ⟨above.le, order⟩)) high
    · have order : (m : ℚ) * 10 ^ p ≤ lower * 10 ^ p := mul_le_mul_of_nonneg_right (by exact_mod_cast left) unit.le
      exact absurd (covered.between (.inl ⟨order, below⟩)) low

/-- The search ends at the first grid that has a point, if there are steps enough to get there. -/
theorem coarsest_eq {x : Finite} {p : Int} {m : Nat} (found : x.onGrid p = some m) {steps gap : Nat}
    (before : ∀ i < gap, x.onGrid (p + 1 + i) = none) (h : gap < steps) : x.coarsest steps (p + gap) = ⟨m, p⟩ := by
  induction gap generalizing steps with
  | zero =>
      obtain ⟨steps, rfl⟩ := Nat.exists_eq_add_of_lt h
      rw [Nat.cast_zero, Int.add_zero, Finite.coarsest, found]
  | succ gap ih =>
      obtain ⟨steps, rfl⟩ : ∃ n, steps = n + 1 := ⟨steps - 1, by omega⟩
      have next : p + ((gap + 1 : Nat) : Int) = p + 1 + gap := by omega
      have back : p + ((gap + 1 : Nat) : Int) - 1 = p + gap := by omega
      rw [Finite.coarsest, next, before gap (Nat.lt_succ_self gap), ← next, back]
      exact ih (fun i less => before i (less.trans (Nat.lt_succ_self gap))) (by omega)

/-! ### Tenths -/

section Tenths

variable {x : Finite} {k : Nat}

/-- The last place of a number below a power of two. -/
theorem exponent_le {t : Int} (h : x.magnitude < 2 ^ t) : x.exponent ≤ max (-1074) (t - 53) := by
  obtain ⟨-, -, -, fills | least⟩ := x.representable
  · have power : (2 : ℚ) ^ (52 + x.exponent) < 2 ^ t := by
      calc (2 : ℚ) ^ (52 + x.exponent) = twoTo 52 * 2 ^ x.exponent := by
            rw [zpow_add₀ (by norm_num), cast_twoTo]
            norm_cast
        _ ≤ x.magnitude :=
            mul_le_mul_of_nonneg_right (by exact_mod_cast fills) (zpow_nonneg (by norm_num) _)
        _ < 2 ^ t := h
    have := (zpow_lt_zpow_iff_right₀ (by norm_num : (1 : ℚ) < 2)).1 power
    omega
  · rw [least]
    exact le_max_left _ _

/-- Of the decimals with one digit after the point or less, a number of moderate size covers one at most. -/
theorem eq_of_covers (size : x.exponent ≤ -4) (covered : x.Covers (k / 10)) {n j : Nat}
    (h : x.Covers (n * 10 ^ (j - 1 : Int))) : n * tenTo j = k := by
  have unit : (2 : ℚ) ^ x.exponent ≤ 2 ^ (-4 : Int) := zpow_le_zpow_right₀ (by norm_num) size
  norm_num at unit
  have point : (n : ℚ) * 10 ^ (j - 1 : Int) = (n * tenTo j : Nat) / 10 := by
    rw [zpow_sub_one₀ (by norm_num), zpow_natCast, Nat.cast_mul, cast_tenTo]
    ring
  rw [point] at h
  generalize n * tenTo j = i at h ⊢
  obtain ⟨low, high⟩ := abs_le.1 covered.near
  obtain ⟨low', high'⟩ := abs_le.1 h.near
  have below : (i : ℚ) < k + 1 := by linarith
  have above : (k : ℚ) < i + 1 := by linarith
  have : i < k + 1 := by exact_mod_cast below
  have : k < i + 1 := by exact_mod_cast above
  omega

/-- A number of tenths that does not end in zeros is the shortest decimal of the number nearest to it. -/
theorem shortest_tenths {m j : Nat} (size : x.exponent ≤ -4) (covered : x.Covers ((m * tenTo j : Nat) / 10))
    (ends : ¬ 10 ∣ m) (moderate : j ≤ 310) (filled : x.significand ≠ 0) : x.shortest = ⟨m, j - 1⟩ := by
  have point : (m : ℚ) * 10 ^ (j - 1 : Int) = (m * tenTo j : Nat) / 10 := by
    rw [zpow_sub_one₀ (by norm_num), zpow_natCast, Nat.cast_mul, cast_tenTo]
    ring
  have found : x.onGrid (j - 1) = some m := by
    refine onGrid_eq_some (point ▸ covered) ?_
    intro n other
    exact Nat.eq_of_mul_eq_mul_right (tenTo_pos j) (eq_of_covers size covered other)
  have before : ∀ i < 310 - j, x.onGrid ((j - 1 : Int) + 1 + i) = none := by
    intro i _
    apply onGrid_eq_none
    intro n coarse
    have place : (j - 1 : Int) + 1 + i = ((j + i + 1 : Nat) : Int) - 1 := by omega
    rw [place] at coarse
    have same : n * tenTo i * 10 * tenTo j = m * tenTo j := by
      rw [← eq_of_covers size covered coarse, tenTo_eq, tenTo_eq, tenTo_eq]
      ring
    exact ends ⟨n * tenTo i, by rw [← Nat.eq_of_mul_eq_mul_right (tenTo_pos j) same, Nat.mul_comm]⟩
  have start : (309 : Int) = (j - 1 : Int) + (310 - j : Nat) := by omega
  rw [Finite.shortest, if_neg filled, start]
  exact coarsest_eq found before (by omega)

/-- Zeros at the end of a number are digits of their own. -/
theorem toDigits_mul_tenTo {m : Nat} (some : 0 < m) (i : Nat) :
    Nat.toDigits 10 (m * tenTo i) = Nat.toDigits 10 m ++ List.replicate i '0' := by
  induction i with
  | zero => simp [tenTo]
  | succ i ih =>
      have whole : m * tenTo (i + 1) = m * tenTo i * 10 := by
        rw [tenTo_eq, tenTo_eq]
        ring
      have large : 10 ≤ m * tenTo i * 10 := Nat.le_mul_of_pos_left 10 (Nat.mul_pos some (tenTo_pos i))
      rw [whole, Nat.toDigits_of_base_le (by decide) large, Nat.mul_div_cancel _ (by decide), Nat.mul_mod_left, ih,
        List.replicate_succ', List.append_assoc]
      rfl

/-- A number of tenths with a point before its last digit. -/
theorem text_lastDigit (m : Nat) :
    (Decimal.mk m (-1)).text = Nat.toDigits 10 (m / 10) ++ '.' :: Nat.toDigits 10 (m % 10) := by
  have digit : Nat.toDigits 10 (m % 10) = [(m % 10).digitChar] := Nat.toDigits_of_lt_base (Nat.mod_lt m (by decide))
  rcases Nat.lt_or_ge m 10 with small | large
  · have alone : Nat.toDigits 10 m = [m.digitChar] := Nat.toDigits_of_lt_base small
    rw [Nat.div_eq_of_lt small, Nat.mod_eq_of_lt small, alone]
    simp [Decimal.text, Decimal.whole, Decimal.fraction, alone]
  · have split : Nat.toDigits 10 m = Nat.toDigits 10 (m / 10) ++ [(m % 10).digitChar] :=
      Nat.toDigits_of_base_le (by decide) large
    simp [Decimal.text, Decimal.whole, Decimal.fraction, split, digit]

/-- A number of tenths that ends in zeros needs no point. -/
theorem text_whole {m : Nat} (some : 0 < m) (i : Nat) :
    (Decimal.mk m i).text = Nat.toDigits 10 (m * tenTo i) := by
  have positive : ¬ m = 0 := some.ne'
  rw [toDigits_mul_tenTo some]
  simp [Decimal.text, Decimal.whole, Decimal.fraction, positive]

/-- Tenths as they are written, where zeros at the end move the last place. -/
theorem text_decimal {m j : Nat} (ends : ¬ 10 ∣ m) :
    String.ofList (Decimal.mk m (j - 1)).text =
      if m * tenTo j % 10 = 0 then toString (m * tenTo j / 10)
      else toString (m * tenTo j / 10) ++ "." ++ toString (m * tenTo j % 10) := by
  cases j with
  | zero =>
      have exponent : ((0 : Nat) : Int) - 1 = -1 := rfl
      have last : ¬ m * tenTo 0 % 10 = 0 := fun whole => ends (Nat.dvd_of_mod_eq_zero (Nat.mul_one m ▸ whole))
      have point : "." = String.ofList ['.'] := rfl
      rw [if_neg last, exponent, text_lastDigit, tenTo_eq, pow_zero, Nat.mul_one]
      change _ = String.ofList (Nat.toDigits 10 (m / 10)) ++ "." ++ String.ofList (Nat.toDigits 10 (m % 10))
      rw [point, ← String.ofList_append, ← String.ofList_append, List.append_assoc]
      rfl
  | succ i =>
      have exponent : ((i + 1 : Nat) : Int) - 1 = i := by omega
      have whole : m * tenTo (i + 1) = m * tenTo i * 10 := by
        rw [tenTo_eq, tenTo_eq]
        ring
      have positive : 0 < m := Nat.pos_of_ne_zero fun none => ends (none ▸ Nat.dvd_zero 10)
      rw [whole, if_pos (Nat.mul_mod_left _ _), Nat.mul_div_cancel _ (by decide), exponent, text_whole positive]
      rfl

/-- A number of tenths of moderate size, and the place of the number nearest to it. -/
theorem exists_nearest_tenths (some : 0 < k) (small : k < twoTo 48) :
    ∃ x, Binary64.ofRatio false k 10 = .finite x ∧ x.negative = false ∧ x.significand ≠ 0 ∧ x.exponent ≤ -4 := by
  have bound : (k : ℚ) < 281474976710656 := by exact_mod_cast (small : k < 281474976710656)
  have least : (1 : ℚ) ≤ k := by exact_mod_cast some
  have near := abs_rounded_sub_le (t := 48) k (by decide : 0 < 10) (by norm_num; linarith) (by decide)
  obtain ⟨x, shape, unsigned, size⟩ := exists_ofRatio false (by decide)
    (show k ≤ twoTo 53 * 10 from small.le.trans (by decide))
  rw [← size] at near
  norm_num [abs_le] at near
  refine ⟨x, shape, unsigned, ?_, ?_⟩
  · intro none
    rw [Finite.magnitude, none, Nat.cast_zero, zero_mul] at near
    linarith
  · have below : x.magnitude < 2 ^ (49 : Int) := by
      norm_num
      linarith
    exact (exponent_le below).trans (by decide)

/-- The number nearest to a number of tenths is written with one digit after the point, or without a point. -/
theorem text_tenths (small : k < twoTo 48) :
    (Binary64.ofRatio false k 10).text =
      if k % 10 = 0 then toString (k / 10) else toString (k / 10) ++ "." ++ toString (k % 10) := by
  rcases Nat.eq_zero_or_pos k with rfl | some
  · rfl
  obtain ⟨x, shape, unsigned, filled, place⟩ := exists_nearest_tenths some small
  obtain ⟨j, m, ends, factors⟩ := Nat.exists_eq_pow_mul_and_not_dvd some.ne' 10 (by decide)
  rw [Nat.mul_comm, ← tenTo_eq] at factors
  have moderate : j ≤ 310 := by
    have power : 10 ^ j < 10 ^ 15 := by
      calc 10 ^ j ≤ k := Nat.le_of_dvd some ⟨m, by rw [factors, Nat.mul_comm, tenTo_eq]⟩
        _ < twoTo 48 := small
        _ ≤ 10 ^ 15 := by decide
    have := (Nat.pow_lt_pow_iff_right (by decide)).1 power
    omega
  have digits : x.shortest = ⟨m, j - 1⟩ :=
    shortest_tenths place (factors ▸ covers_of_ofRatio some (by decide) shape) ends moderate filled
  rw [shape, Binary64.text, unsigned, digits, factors, ← text_decimal ends]
  rfl

end Tenths

end Vitae.Number
