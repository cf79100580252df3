/-
This file models the few `f64` operations the counter estimates pass through: the cast of
an integer counter, the mean of two values, and the cast back to an integer.

A finite value is a rational number and an operation rounds its exact result to 53 bits,
ties to even. The sign of a zero is left out: no comparison, sum or cast here depends on it.
-/

import Mathlib.Data.Int.Log
import Mathlib.Data.Rat.Floor
import AsapSketchlib.Saturating

namespace AsapSketchlib

def roundHalfEven (value : ℚ) : ℤ :=
  if value - ⌊value⌋ < 1 / 2 then ⌊value⌋
  else if 1 / 2 < value - ⌊value⌋ then ⌊value⌋ + 1
  else if ⌊value⌋ % 2 = 0 then ⌊value⌋ else ⌊value⌋ + 1

def unitInLastPlace (value : ℚ) : ℚ := 2 ^ (Int.log 2 |value| - 52)

/-- Rounding to the nearest value of 53 bits, ties to even. -/
def roundF64 (value : ℚ) : ℚ :=
  roundHalfEven (value / unitInLastPlace value) * unitInLastPlace value

/-- `n as f64` for an integer `n`. -/
def intAsF64 (value : ℤ) : ℚ := roundF64 value

/-- `(left + right) / 2.0`. The division only lowers the exponent, so it does not round. -/
def meanF64 (left right : ℚ) : ℚ := roundF64 (left + right) / 2

/-- `x as i64`: truncation towards zero, saturating. -/
def f64AsI64 (value : ℚ) : ℤ := max i64Min (min i64Max (if 0 ≤ value then ⌊value⌋ else ⌈value⌉))

/-! ### Rounding is odd and leaves small integers -/

theorem roundHalfEven_intCast (value : ℤ) : roundHalfEven value = value := by
  unfold roundHalfEven
  rw [Int.floor_intCast, sub_self, if_pos (by norm_num)]

theorem roundHalfEven_neg (value : ℚ) : roundHalfEven (-value) = -roundHalfEven value := by
  have nonneg : 0 ≤ value - ⌊value⌋ := sub_nonneg.mpr (Int.floor_le value)
  have small : value - ⌊value⌋ < 1 := by
    have upper := Int.lt_floor_add_one value
    linarith
  rcases nonneg.eq_or_lt with whole | broken
  · have exact : value = (⌊value⌋ : ℚ) := by linarith
    rw [exact, ← Int.cast_neg, roundHalfEven_intCast, roundHalfEven_intCast]
  · have floorNeg : ⌊-value⌋ = -⌊value⌋ - 1 := by
      rw [Int.floor_eq_iff]
      push_cast
      constructor <;> linarith
    have fractNeg : -value - (⌊-value⌋ : ℚ) = 1 - (value - ⌊value⌋) := by
      rw [floorNeg]
      push_cast
      ring
    unfold roundHalfEven
    rw [fractNeg, floorNeg]
    rcases lt_trichotomy (value - ⌊value⌋) (1 / 2) with below | tie | above
    · have notBelow : ¬1 - (value - ⌊value⌋) < 1 / 2 := by linarith
      have isAbove : 1 / 2 < 1 - (value - ⌊value⌋) := by linarith
      rw [if_neg notBelow, if_pos isAbove, if_pos below]
      omega
    · have half : ¬(1 / 2 : ℚ) < 1 / 2 := lt_irrefl _
      have mirrored : (1 : ℚ) - 1 / 2 = 1 / 2 := by norm_num
      rw [tie, mirrored, if_neg half, if_neg half, if_neg half, if_neg half]
      by_cases even : ⌊value⌋ % 2 = 0
      · have odd : ¬(-⌊value⌋ - 1) % 2 = 0 := by omega
        rw [if_pos even, if_neg odd]
        omega
      · have even' : (-⌊value⌋ - 1) % 2 = 0 := by omega
        rw [if_neg even, if_pos even']
        omega
    · have isBelow : 1 - (value - ⌊value⌋) < 1 / 2 := by linarith
      have notBelow : ¬value - ⌊value⌋ < 1 / 2 := by linarith
      rw [if_pos isBelow, if_neg notBelow, if_pos above]
      omega

theorem roundF64_neg (value : ℚ) : roundF64 (-value) = -roundF64 value := by
  have sameUnit : unitInLastPlace (-value) = unitInLastPlace value := by
    unfold unitInLastPlace
    rw [abs_neg]
  unfold roundF64
  rw [sameUnit, neg_div, roundHalfEven_neg, Int.cast_neg, neg_mul]

theorem intAsF64_neg (value : ℤ) : intAsF64 (-value) = -intAsF64 value := by
  unfold intAsF64
  rw [Int.cast_neg, roundF64_neg]

theorem intAsF64_of_small {value : ℤ} (small : |value| < 2 ^ 53) : intAsF64 value = value := by
  have low : Int.log 2 |(value : ℚ)| ≤ 52 := by
    by_cases zero : value = 0
    · rw [zero, Int.cast_zero, abs_zero, Int.log_zero_right]
      decide
    · have positive : 0 < |(value : ℚ)| := abs_pos.mpr (Int.cast_ne_zero.mpr zero)
      have bound : |(value : ℚ)| < ((2 : ℕ) : ℚ) ^ (53 : ℤ) := by
        rw [← Int.cast_abs]
        exact_mod_cast small
      exact Int.lt_add_one_iff.mp ((Int.lt_zpow_iff_log_lt (by decide) positive).mp bound)
  obtain ⟨shift, shiftEq⟩ := Int.le.dest low
  have unit : unitInLastPlace value = (((2 : ℤ) ^ shift : ℤ) : ℚ)⁻¹ := by
    have exponent : Int.log 2 |(value : ℚ)| - 52 = -(shift : ℤ) := by omega
    unfold unitInLastPlace
    rw [exponent, zpow_neg, zpow_natCast]
    push_cast
    rfl
  unfold intAsF64 roundF64
  rw [unit, div_inv_eq_mul, ← Int.cast_mul, roundHalfEven_intCast, Int.cast_mul]
  have nonzero : (((2 : ℤ) ^ shift : ℤ) : ℚ) ≠ 0 :=
    Int.cast_ne_zero.mpr (pow_ne_zero shift (by decide))
  rw [mul_assoc, mul_inv_cancel₀ nonzero, mul_one]

theorem meanF64_comm (left right : ℚ) : meanF64 left right = meanF64 right left := by
  unfold meanF64
  rw [add_comm]

end AsapSketchlib
