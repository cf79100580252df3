/-
This file shows that rounding to 53 bits keeps the order of values that are not negative. Values of
one size are rounded to multiples of one unit; values of different sizes stay on their sides of the
power of two between them.
-/

import AsapSketchlib.Float64

namespace AsapSketchlib

/-! ### Rounding to integers -/

theorem floor_le_roundHalfEven (value : ℚ) : ⌊value⌋ ≤ roundHalfEven value := by
  unfold roundHalfEven
  split_ifs <;> omega

theorem roundHalfEven_le_succ (value : ℚ) : roundHalfEven value ≤ ⌊value⌋ + 1 := by
  unfold roundHalfEven
  split_ifs <;> omega

theorem roundHalfEven_mono {left right : ℚ} (below : left ≤ right) :
    roundHalfEven left ≤ roundHalfEven right := by
  rcases (Int.floor_le_floor below).lt_or_eq with before | same
  · exact (roundHalfEven_le_succ left).trans
      ((Int.add_one_le_iff.mpr before).trans (floor_le_roundHalfEven right))
  · unfold roundHalfEven
    rw [same]
    split_ifs <;> first | omega | linarith

/-! ### Rounding to 53 bits -/

theorem unitInLastPlace_pos (value : ℚ) : 0 < unitInLastPlace value :=
  zpow_pos (by norm_num) _

theorem roundF64_zero : roundF64 0 = 0 := by decide +kernel

theorem zpow_eq_units {value : ℚ} (positive : 0 < value) :
    (2 : ℚ) ^ Int.log 2 value = 2 ^ 52 * unitInLastPlace value ∧
      (2 : ℚ) ^ (Int.log 2 value + 1) = 2 ^ 53 * unitInLastPlace value := by
  unfold unitInLastPlace
  rw [abs_of_pos positive, ← zpow_natCast, ← zpow_natCast, ← zpow_add₀ (by norm_num),
    ← zpow_add₀ (by norm_num)]
  refine ⟨congrArg ((2 : ℚ) ^ ·) ?_, congrArg ((2 : ℚ) ^ ·) ?_⟩
  · push_cast
    ring
  · push_cast
    ring

theorem roundF64_le_zpow {value : ℚ} (positive : 0 < value) :
    roundF64 value ≤ 2 ^ (Int.log 2 value + 1) := by
  have unit := unitInLastPlace_pos value
  have below : value ≤ 2 ^ 53 * unitInLastPlace value :=
    (zpow_eq_units positive).2 ▸ (Int.lt_zpow_succ_log_self (by norm_num) value).le
  have quotient : value / unitInLastPlace value ≤ ((2 ^ 53 : ℤ) : ℚ) := by
    rw [div_le_iff₀ unit]
    exact_mod_cast below
  have rounded := roundHalfEven_mono quotient
  rw [roundHalfEven_intCast] at rounded
  rw [(zpow_eq_units positive).2]
  refine mul_le_mul_of_nonneg_right ?_ unit.le
  exact_mod_cast rounded

theorem zpow_le_roundF64 {value : ℚ} (positive : 0 < value) :
    2 ^ Int.log 2 value ≤ roundF64 value := by
  have unit := unitInLastPlace_pos value
  have above : 2 ^ 52 * unitInLastPlace value ≤ value :=
    (zpow_eq_units positive).1 ▸ Int.zpow_log_le_self (by norm_num) positive
  have quotient : ((2 ^ 52 : ℤ) : ℚ) ≤ value / unitInLastPlace value := by
    rw [le_div_iff₀ unit]
    exact_mod_cast above
  have rounded := roundHalfEven_mono quotient
  rw [roundHalfEven_intCast] at rounded
  rw [(zpow_eq_units positive).1]
  refine mul_le_mul_of_nonneg_right ?_ unit.le
  exact_mod_cast rounded

theorem roundF64_nonneg {value : ℚ} (nonneg : 0 ≤ value) : 0 ≤ roundF64 value := by
  rcases nonneg.eq_or_lt with rfl | positive
  · exact roundF64_zero.ge
  · exact (zpow_pos (by norm_num) _).le.trans (zpow_le_roundF64 positive)

theorem roundF64_mono {left right : ℚ} (nonneg : 0 ≤ left) (below : left ≤ right) :
    roundF64 left ≤ roundF64 right := by
  rcases nonneg.eq_or_lt with rfl | positive
  · rw [roundF64_zero]
    exact roundF64_nonneg below
  have logs : Int.log 2 left ≤ Int.log 2 right := Int.log_mono_right positive below
  rcases logs.eq_or_lt with same | before
  · have units : unitInLastPlace left = unitInLastPlace right := by
      unfold unitInLastPlace
      rw [abs_of_pos positive, abs_of_pos (positive.trans_le below), same]
    have unit := unitInLastPlace_pos right
    unfold roundF64
    rw [units]
    refine mul_le_mul_of_nonneg_right ?_ unit.le
    exact_mod_cast roundHalfEven_mono (div_le_div_of_nonneg_right below unit.le)
  · calc
      roundF64 left ≤ 2 ^ (Int.log 2 left + 1) := roundF64_le_zpow positive
      _ ≤ 2 ^ Int.log 2 right := zpow_le_zpow_right₀ (by norm_num) (Int.add_one_le_iff.mpr before)
      _ ≤ roundF64 right := zpow_le_roundF64 (positive.trans_le below)

/-! ### Rounded values -/

theorem roundF64_of_units {value : ℚ} {count : ℤ} (units : value = count * unitInLastPlace value) :
    roundF64 value = value := by
  have whole : value / unitInLastPlace value = count :=
    (eq_div_of_mul_eq (unitInLastPlace_pos value).ne' units.symm).symm
  unfold roundF64
  rw [whole, roundHalfEven_intCast, ← units]

theorem unitInLastPlace_of_bounds {value : ℚ} {exponent : ℤ} (positive : 0 < value)
    (above : 2 ^ exponent ≤ value) (below : value < 2 ^ (exponent + 1)) :
    unitInLastPlace value = 2 ^ (exponent - 52) := by
  have atLeast : exponent ≤ Int.log 2 value :=
    (Int.zpow_le_iff_le_log (by decide) positive).mp above
  have atMost : Int.log 2 value < exponent + 1 :=
    (Int.lt_zpow_iff_log_lt (by decide) positive).mp below
  unfold unitInLastPlace
  rw [abs_of_pos positive, le_antisymm (Int.lt_add_one_iff.mp atMost) atLeast]

theorem roundF64_roundF64 {value : ℚ} (nonneg : 0 ≤ value) :
    roundF64 (roundF64 value) = roundF64 value := by
  rcases nonneg.eq_or_lt with rfl | positive
  · rw [roundF64_zero, roundF64_zero]
  have above := zpow_le_roundF64 positive
  have roundedPositive : 0 < roundF64 value := (zpow_pos (by norm_num) _).trans_le above
  rcases (roundF64_le_zpow positive).lt_or_eq with below | next
  · have unit := unitInLastPlace_of_bounds roundedPositive above below
    refine @roundF64_of_units _ (roundHalfEven (value / unitInLastPlace value)) ?_
    rw [unit, roundF64, unitInLastPlace, abs_of_pos positive]
  · have unit := unitInLastPlace_of_bounds roundedPositive next.ge
      (next.trans_lt (zpow_lt_zpow_right₀ (by norm_num) (lt_add_one _)))
    refine @roundF64_of_units _ (2 ^ 52) ?_
    rw [unit, next, Int.cast_pow, ← zpow_natCast, Int.cast_ofNat, ← zpow_add₀ (by norm_num)]
    congr 1
    push_cast
    ring

theorem exists_roundF64_natCast (value : ℕ) : ∃ whole : ℤ, roundF64 value = whole := by
  rcases Nat.lt_or_ge value (2 ^ 53) with small | large
  · refine ⟨value, @intAsF64_of_small value ?_⟩
    rw [Nat.abs_cast]
    exact_mod_cast small
  · have positive : 0 < (value : ℚ) := by
      exact_mod_cast Nat.lt_of_lt_of_le (Nat.two_pow_pos 53) large
    have size : 53 ≤ Int.log 2 (value : ℚ) :=
      (Int.zpow_le_iff_le_log (by decide) positive).mp (by exact_mod_cast large)
    obtain ⟨shift, shiftEq⟩ := Int.le.dest size
    refine ⟨roundHalfEven (value / unitInLastPlace value) * 2 ^ (shift + 1), ?_⟩
    have exponent : Int.log 2 (value : ℚ) - 52 = ((shift + 1 : ℕ) : ℤ) := by omega
    have unit : unitInLastPlace (value : ℚ) = ((2 ^ (shift + 1) : ℤ) : ℚ) := by
      rw [unitInLastPlace, abs_of_pos positive, exponent, zpow_natCast, Int.cast_pow,
        Int.cast_ofNat]
    rw [Int.cast_mul, ← unit]
    rfl

theorem roundF64_le_double {value : ℚ} (nonneg : 0 ≤ value) : roundF64 value ≤ 2 * value := by
  rcases nonneg.eq_or_lt with rfl | positive
  · rw [roundF64_zero, mul_zero]
  calc
    roundF64 value ≤ 2 ^ (Int.log 2 value + 1) := roundF64_le_zpow positive
    _ = 2 * 2 ^ Int.log 2 value := by rw [zpow_add_one₀ (by norm_num), mul_comm]
    _ ≤ 2 * value :=
      mul_le_mul_of_nonneg_left (Int.zpow_log_le_self (by norm_num) positive) (by norm_num)

end AsapSketchlib
