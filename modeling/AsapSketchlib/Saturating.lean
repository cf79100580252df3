/-
This file names the bounds of the 64-bit integers and models the saturating arithmetic of
`u64` on naturals: a sum that would pass `u64::MAX` is `u64::MAX`.
-/

import Mathlib.Order.Lattice

namespace AsapSketchlib

/-- `u64::MAX`. -/
def u64Max : ℕ := 18446744073709551615

/-- `i64::MAX`. -/
def i64Max : ℤ := 9223372036854775807

/-- `i64::MIN`. -/
def i64Min : ℤ := -9223372036854775808

/-- `u64::saturating_add`. -/
def saturatingAdd (left right : ℕ) : ℕ := min (left + right) u64Max

theorem saturatingAdd_le_max (left right : ℕ) : saturatingAdd left right ≤ u64Max :=
  min_le_right _ _

theorem min_add_le_saturatingAdd {left right leftBound rightBound : ℕ}
    (leftLe : min left u64Max ≤ leftBound) (rightLe : min right u64Max ≤ rightBound) :
    min (left + right) u64Max ≤ saturatingAdd leftBound rightBound := by
  unfold saturatingAdd
  omega

end AsapSketchlib
