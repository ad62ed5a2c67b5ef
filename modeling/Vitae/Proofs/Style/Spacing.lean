/-
Module: Vitae.Proofs.Style.Spacing
Layer: Proofs
Purpose: A greater number of millimetres never gives a smaller spacing, so a number beyond the bounds of the
  spacing gives the same as the bound.
Imports: Vitae.Proofs.Number.Rounding, Vitae.Style.Spacing
Main exports: Spacing.ofFinite_mono, Finite.clamp, Spacing.ofFinite_clamp
-/
import Vitae.Proofs.Number.Rounding
import Vitae.Style.Spacing

namespace Vitae.Number

/-- The number, or the bound that it lies beyond. -/
def Finite.clamp (x low high : Finite) : Finite :=
  if x.value < low.value then low else if high.value < x.value then high else x

/-- Ten, as a floating-point number. -/
def Finite.ten : Finite :=
  ⟨false, 10 * twoTo 49, -49, by decide⟩

/-- Twenty, as a floating-point number. -/
def Finite.twenty : Finite :=
  ⟨false, 20 * twoTo 48, -48, by decide⟩

theorem ofNat_ten : Binary64.ofNat 10 = .finite .ten := by
  decide

end Vitae.Number

namespace Vitae.Spacing

open Number

/-! ### Tenths -/

@[ext] theorem ext {s t : Spacing} (h : s.tenths = t.tenths) : s = t := by
  cases s
  cases t
  cases h
  rfl

theorem atMost_mono {a b : Nat} (h : a ≤ b) : (atMost a).tenths ≤ (atMost b).tenths :=
  min_le_min_right 200 h

/-- A number that is rounded keeps its sign, also where it becomes infinite. -/
theorem nearestTenths_negative (num den : Nat) : nearestTenths (.ofRatio true num den) = atMost 0 := by
  have packed : ∀ significand exponent, nearestTenths (.pack true significand exponent) = atMost 0 := by
    intro significand exponent
    unfold Binary64.pack
    split <;> rfl
  unfold Binary64.ofRatio
  dsimp only
  split
  · rfl
  · split
    · exact packed _ _
    · exact packed _ _

/-- A number without a sign, or an infinity. -/
def IsPositive : Binary64 → Prop
  | .finite x => x.negative = false
  | .infinite negative => negative = false
  | .nan => False

theorem isPositive_ofRatio (num den : Nat) : IsPositive (.ofRatio false num den) := by
  have packed : ∀ significand exponent, IsPositive (.pack false significand exponent) := by
    intro significand exponent
    unfold Binary64.pack
    split <;> rfl
  unfold Binary64.ofRatio
  dsimp only
  split
  · rfl
  · split
    · exact packed _ _
    · exact packed _ _

/-- A greater number of tenths is not rounded to a smaller one. -/
theorem nearestTenths_mono {x y : Binary64} (left : IsPositive x) (right : IsPositive y)
    (h : x.magnitude ≤ y.magnitude) : (nearestTenths x).tenths ≤ (nearestTenths y).tenths := by
  cases y with
  | nan => exact right.elim
  | infinite negative =>
      obtain rfl : negative = false := right
      exact (nearestTenths x).tenths_le
  | finite b =>
      cases x with
      | nan => exact left.elim
      | infinite => exact absurd h (WithTop.coe_lt_top _).not_ge
      | finite a =>
          have magnitudes : a.magnitude ≤ b.magnitude := WithTop.coe_le_coe.1 h
          rw [← ratio_eq_magnitude, ← ratio_eq_magnitude,
            div_le_div_iff₀ (by exact_mod_cast ratio_pos a) (by exact_mod_cast ratio_pos b)] at magnitudes
          have unsigned : a.negative = false := left
          have unsigned' : b.negative = false := right
          unfold nearestTenths
          dsimp only
          rw [unsigned, unsigned']
          exact atMost_mono (divNearest_mono (ratio_pos a) (ratio_pos b) (by exact_mod_cast magnitudes))

/-! ### Millimetres -/

/-- The spacing for a number of millimetres is a rounded product. -/
theorem ofFinite_eq (x : Finite) :
    ofFinite x =
      nearestTenths (.ofRatio x.negative (x.ratio.1 * Finite.ten.ratio.1) (x.ratio.2 * Finite.ten.ratio.2)) := by
  have sign : (x.negative != Finite.ten.negative) = x.negative := Bool.xor_false _
  rw [ofFinite, ofNat_ten]
  unfold Binary64.mul Binary64.mulFinite
  dsimp only
  rw [sign]

/-- Less than nothing gives no space. -/
theorem ofFinite_negative {x : Finite} (h : x.negative = true) : (ofFinite x).tenths = 0 := by
  rw [ofFinite_eq, h, nearestTenths_negative]
  rfl

/-- Without signs the order of magnitudes decides. -/
theorem ofFinite_magnitude {x y : Finite} (left : x.negative = false) (right : y.negative = false)
    (h : x.magnitude ≤ y.magnitude) : (ofFinite x).tenths ≤ (ofFinite y).tenths := by
  rw [ofFinite_eq, ofFinite_eq, left, right]
  refine nearestTenths_mono (isPositive_ofRatio _ _) (isPositive_ofRatio _ _) ?_
  have positive : ∀ z : Finite, 0 < z.ratio.2 * Finite.ten.ratio.2 :=
    fun z => Nat.mul_pos (ratio_pos z) (ratio_pos _)
  refine magnitude_ofRatio_mono false false (positive x) (positive y) ?_
  have order : x.ratio.1 * y.ratio.2 ≤ y.ratio.1 * x.ratio.2 := by
    rw [← ratio_eq_magnitude, ← ratio_eq_magnitude,
      div_le_div_iff₀ (by exact_mod_cast ratio_pos x) (by exact_mod_cast ratio_pos y)] at h
    exact_mod_cast h
  calc x.ratio.1 * Finite.ten.ratio.1 * (y.ratio.2 * Finite.ten.ratio.2)
      = x.ratio.1 * y.ratio.2 * (Finite.ten.ratio.1 * Finite.ten.ratio.2) := Nat.mul_mul_mul_comm ..
    _ ≤ y.ratio.1 * x.ratio.2 * (Finite.ten.ratio.1 * Finite.ten.ratio.2) := Nat.mul_le_mul_right _ order
    _ = y.ratio.1 * Finite.ten.ratio.1 * (x.ratio.2 * Finite.ten.ratio.2) := Nat.mul_mul_mul_comm ..

theorem ofFinite_zero : (ofFinite (.zero false)).tenths = 0 := by
  have none : (Finite.zero false).ratio.1 * Finite.ten.ratio.1 = 0 := Nat.zero_mul _
  rw [ofFinite_eq, Binary64.ofRatio, if_pos none]
  exact congrArg (min · 200) (divNearest_zero (ratio_pos (.zero false)))

/-- A greater number of millimetres never gives a smaller spacing. -/
theorem ofFinite_mono {x y : Finite} (h : x.value ≤ y.value) : (ofFinite x).tenths ≤ (ofFinite y).tenths := by
  unfold Finite.value at h
  cases left : x.negative with
  | true => exact (ofFinite_negative left).trans_le (Nat.zero_le _)
  | false =>
      rw [left] at h
      cases right : y.negative with
      | false =>
          rw [right] at h
          exact ofFinite_magnitude left right h
      | true =>
          -- nothing but zero lies below a number with a sign
          rw [right] at h
          have none : x.magnitude ≤ (Finite.zero false).magnitude := by
            have nonneg := y.magnitude_nonneg
            have zero : (Finite.zero false).magnitude = 0 := by simp [Finite.magnitude, Finite.zero]
            rw [zero]
            exact h.trans (by simpa using nonneg)
          exact ((ofFinite_magnitude left rfl none).trans_eq ofFinite_zero).trans (Nat.zero_le _)

theorem ofFinite_twenty : (ofFinite .twenty).tenths = 200 := by
  decide

/-- A number beyond the bounds gives the same spacing as the bound. -/
theorem ofFinite_clamp (x : Finite) : ofFinite (x.clamp (.zero false) .twenty) = ofFinite x := by
  apply ext
  unfold Finite.clamp
  split
  case isTrue below =>
    have least := ofFinite_mono below.le
    rw [ofFinite_zero] at least ⊢
    exact (Nat.le_zero.1 least).symm
  case isFalse =>
    split
    case isTrue beyond =>
      have greatest := ofFinite_mono beyond.le
      rw [ofFinite_twenty] at greatest ⊢
      exact le_antisymm greatest (ofFinite x).tenths_le
    case isFalse => rfl

end Vitae.Spacing
