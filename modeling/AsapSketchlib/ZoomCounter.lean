/-
This file develops counters that share an exponent: a pixel counts in units of a power of
the base, zooming out divides it with rounding and zooming in multiplies it back.

A settled pixel takes no more items. It stays a multiple of the units it was ever rounded
to, so only a zoom-out past its peak rounds it again, and its error stays below twice the
largest unit. A running pixel has a shutter beside it for the items below one unit.
-/

import Mathlib.Algebra.Order.Ring.Abs
import Mathlib.Tactic.Linarith
import Mathlib.Tactic.Ring

namespace AsapSketchlib

namespace ZoomCounter

/-- A quotient rounded down or up, and up only where the division leaves a remainder. -/
def Rounded (divisor value quotient : ℕ) : Prop :=
  quotient = value / divisor ∨ value % divisor ≠ 0 ∧ quotient = value / divisor + 1

variable {base : ℕ}

theorem Rounded.exact {value quotient : ℕ} (rounded : Rounded base value quotient)
    (divides : base ∣ value) : base * quotient = value := by
  rcases rounded with rfl | ⟨remains, -⟩
  · exact Nat.mul_div_cancel' divides
  · exact absurd (Nat.mod_eq_zero_of_dvd divides) remains

theorem Rounded.near {value quotient : ℕ} (rounded : Rounded base value quotient)
    (positive : 0 < base) : |(base : ℤ) * quotient - value| ≤ base - 1 := by
  have whole : (base : ℤ) * (value / base : ℕ) + (value % base : ℕ) = value := by
    exact_mod_cast Nat.div_add_mod value base
  have small : ((value % base : ℕ) : ℤ) < base := by exact_mod_cast Nat.mod_lt value positive
  rw [abs_le]
  rcases rounded with rfl | ⟨remains, rfl⟩
  · constructor <;> omega
  · have some : 0 < value % base := Nat.pos_of_ne_zero remains
    rw [Nat.cast_add, Nat.cast_one, mul_add, mul_one]
    constructor <;> omega

theorem Rounded.zero {quotient : ℕ} (rounded : Rounded base 0 quotient) : quotient = 0 := by
  rcases rounded with rfl | ⟨remains, -⟩
  · exact Nat.zero_div base
  · exact absurd (Nat.zero_mod base) remains

/-- A value after a number of rounded divisions. -/
inductive Rescaled (base : ℕ) : ℕ → ℕ → ℕ → Prop
  | still (value : ℕ) : Rescaled base 0 value value
  | down {steps value quotient last : ℕ} (rounded : Rounded base value quotient)
      (rest : Rescaled base steps quotient last) : Rescaled base (steps + 1) value last

section

variable {steps value last : ℕ} (rescaled : Rescaled base steps value last) (positive : 0 < base)

include rescaled positive

theorem Rescaled.near : |(base : ℤ) ^ steps * last - value| ≤ (base : ℤ) ^ steps - 1 := by
  induction rescaled with
  | still value => rw [pow_zero, one_mul, sub_self, sub_self, abs_zero]
  | @down steps value quotient last rounded rest hypothesis =>
    have unit : (0 : ℤ) ≤ base := Int.natCast_nonneg base
    calc
      |(base : ℤ) ^ (steps + 1) * last - value|
        = |(base : ℤ) * ((base : ℤ) ^ steps * last - quotient) +
            ((base : ℤ) * quotient - value)| := by ring_nf
      _ ≤ base * ((base : ℤ) ^ steps - 1) + (base - 1) := by
        refine (abs_add_le _ _).trans (add_le_add ?_ (rounded.near positive))
        rw [abs_mul, abs_of_nonneg unit]
        exact mul_le_mul_of_nonneg_left hypothesis unit
      _ = (base : ℤ) ^ (steps + 1) - 1 := by ring

theorem Rescaled.near_unit (fine : ℕ) :
    |(base : ℤ) ^ (fine + steps) * last - (base : ℤ) ^ fine * value| ≤
      (base : ℤ) ^ (fine + steps) - (base : ℤ) ^ fine := by
  have unit : (0 : ℤ) ≤ (base : ℤ) ^ fine := pow_nonneg (Int.natCast_nonneg base) fine
  have scaled : (base : ℤ) ^ (fine + steps) * last - (base : ℤ) ^ fine * value =
      (base : ℤ) ^ fine * ((base : ℤ) ^ steps * last - value) := by
    rw [pow_add]
    ring
  rw [scaled, abs_mul, abs_of_nonneg unit, pow_add, ← mul_sub_one]
  exact mul_le_mul_of_nonneg_left (rescaled.near positive) unit

end

/-! ### Settled pixels -/

/-- A pixel that took all its items, `count` of them, at a zoom of at most `peak`. -/
structure Settled (base zoom peak pixel count : ℕ) : Prop where
  zoomLe : zoom ≤ peak
  granular : base ^ (peak - zoom) ∣ pixel
  near : |(base : ℤ) ^ zoom * pixel - count| ≤ 2 * ((base : ℤ) ^ peak - 1)
  idle : count = 0 → pixel = 0

theorem Settled.fresh (positive : 0 < base) (zoom : ℕ) : Settled base zoom zoom 0 0 where
  zoomLe := le_rfl
  granular := dvd_zero _
  near := by
    have unit : (1 : ℤ) ≤ (base : ℤ) ^ zoom := by exact_mod_cast Nat.one_le_pow zoom base positive
    rw [Nat.cast_zero, mul_zero, sub_zero, abs_zero]
    linarith
  idle := fun _ => rfl

/-- Zooming out rounds a settled pixel only past its peak. -/
theorem Settled.zoomOut {zoom peak pixel pixel' count : ℕ}
    (settled : Settled base zoom peak pixel count) (positive : 0 < base)
    (rounded : Rounded base pixel pixel') :
    Settled base (zoom + 1) (max peak (zoom + 1)) pixel' count := by
  have idle : count = 0 → pixel' = 0 := fun none => Rounded.zero (settled.idle none ▸ rounded)
  rcases settled.zoomLe.eq_or_lt with atPeak | below
  · subst atPeak
    rw [max_eq_right (Nat.le_succ zoom)]
    refine ⟨le_rfl, ?_, ?_, idle⟩
    · rw [Nat.sub_self, pow_zero]
      exact one_dvd _
    · have unit : (1 : ℤ) ≤ (base : ℤ) ^ zoom := by exact_mod_cast Nat.one_le_pow zoom base positive
      have onePixel : (1 : ℤ) ≤ base := by exact_mod_cast positive
      have rounding : |(base : ℤ) ^ zoom * ((base : ℤ) * pixel' - pixel)| ≤
          (base : ℤ) ^ zoom * (base - 1) := by
        rw [abs_mul, abs_of_nonneg (le_trans zero_le_one unit)]
        exact mul_le_mul_of_nonneg_left (rounded.near positive) (le_trans zero_le_one unit)
      calc
        |(base : ℤ) ^ (zoom + 1) * pixel' - count|
          = |(base : ℤ) ^ zoom * ((base : ℤ) * pixel' - pixel) +
              ((base : ℤ) ^ zoom * pixel - count)| := by ring_nf
        _ ≤ (base : ℤ) ^ zoom * (base - 1) + 2 * ((base : ℤ) ^ zoom - 1) :=
          (abs_add_le _ _).trans (add_le_add rounding settled.near)
        _ ≤ 2 * ((base : ℤ) ^ (zoom + 1) - 1) := by
          rw [pow_succ]
          nlinarith [mul_nonneg (le_trans zero_le_one unit) (sub_nonneg.mpr onePixel)]
  · obtain ⟨above, rfl⟩ := Nat.exists_eq_add_of_lt below
    have granular : base * base ^ above ∣ pixel := by
      have exponent : zoom + above + 1 - zoom = above + 1 := by omega
      have divides := settled.granular
      rw [exponent, pow_succ, mul_comm] at divides
      exact divides
    have whole : base * pixel' = pixel := rounded.exact ((dvd_mul_right base _).trans granular)
    rw [max_eq_left (by omega)]
    refine ⟨by omega, ?_, ?_, idle⟩
    · have exponent : zoom + above + 1 - (zoom + 1) = above := by omega
      rw [exponent]
      rw [← whole] at granular
      exact Nat.dvd_of_mul_dvd_mul_left positive granular
    · have scaled : (base : ℤ) ^ (zoom + 1) * pixel' = (base : ℤ) ^ zoom * pixel := by
        rw [← whole, Nat.cast_mul, pow_succ, mul_assoc]
      rw [scaled]
      exact settled.near

theorem Settled.zoomIn {zoom peak pixel count : ℕ}
    (settled : Settled base (zoom + 1) peak pixel count) :
    Settled base zoom peak (pixel * base) count where
  zoomLe := (Nat.le_succ zoom).trans settled.zoomLe
  granular := by
    have exponent : peak - zoom = peak - (zoom + 1) + 1 := by
      have low := settled.zoomLe
      omega
    rw [exponent, pow_succ]
    exact Nat.mul_dvd_mul_right settled.granular base
  near := by
    have scaled : (base : ℤ) ^ zoom * (pixel * base : ℕ) = (base : ℤ) ^ (zoom + 1) * pixel := by
      rw [Nat.cast_mul, pow_succ]
      ring
    rw [scaled]
    exact settled.near
  idle := fun none => by rw [settled.idle none, zero_mul]

/-! ### The running pixel -/

/-- The pixel that takes items, with the shutter for those below one unit. Its zoom only rises. -/
structure Running (base zoom pixel shutter count : ℕ) : Prop where
  partialUnit : shutter < base ^ zoom
  near : |(base : ℤ) ^ zoom * pixel + shutter - count| ≤ (base : ℤ) ^ zoom - 1
  idle : count = 0 → pixel = 0 ∧ shutter = 0

theorem Running.fresh (positive : 0 < base) (zoom : ℕ) : Running base zoom 0 0 0 where
  partialUnit := Nat.pow_pos positive
  near := by
    have unit : (1 : ℤ) ≤ (base : ℤ) ^ zoom := by exact_mod_cast Nat.one_le_pow zoom base positive
    rw [Nat.cast_zero, mul_zero, add_zero, sub_zero, abs_zero]
    linarith
  idle := fun _ => ⟨rfl, rfl⟩

variable {zoom pixel shutter count : ℕ}

theorem Running.item (running : Running base zoom pixel shutter count)
    (room : shutter + 1 < base ^ zoom) : Running base zoom pixel (shutter + 1) (count + 1) where
  partialUnit := room
  near := by
    have same : (base : ℤ) ^ zoom * pixel + (shutter + 1 : ℕ) - (count + 1 : ℕ) =
        (base : ℤ) ^ zoom * pixel + shutter - count := by
      push_cast
      ring
    rw [same]
    exact running.near
  idle := fun none => absurd none (Nat.succ_ne_zero count)

theorem Running.unit (running : Running base zoom pixel shutter count) (positive : 0 < base)
    (complete : shutter + 1 = base ^ zoom) : Running base zoom (pixel + 1) 0 (count + 1) where
  partialUnit := Nat.pow_pos positive
  near := by
    have completeInt : (shutter : ℤ) + 1 = (base : ℤ) ^ zoom := by exact_mod_cast complete
    have same : (base : ℤ) ^ zoom * (pixel + 1 : ℕ) + (0 : ℕ) - (count + 1 : ℕ) =
        (base : ℤ) ^ zoom * pixel + shutter - count := by
      push_cast
      rw [mul_add, mul_one, ← completeInt]
      ring
    rw [same]
    exact running.near
  idle := fun none => absurd none (Nat.succ_ne_zero count)

theorem Running.zoomOut {pixel' : ℕ} (running : Running base zoom pixel 0 count)
    (positive : 0 < base) (rounded : Rounded base pixel pixel') :
    Running base (zoom + 1) pixel' 0 count where
  partialUnit := Nat.pow_pos positive
  near := by
    have unit : (1 : ℤ) ≤ (base : ℤ) ^ zoom := by exact_mod_cast Nat.one_le_pow zoom base positive
    have rounding : |(base : ℤ) ^ zoom * ((base : ℤ) * pixel' - pixel)| ≤
        (base : ℤ) ^ zoom * (base - 1) := by
      rw [abs_mul, abs_of_nonneg (le_trans zero_le_one unit)]
      exact mul_le_mul_of_nonneg_left (rounded.near positive) (le_trans zero_le_one unit)
    calc
      |(base : ℤ) ^ (zoom + 1) * pixel' + (0 : ℕ) - count|
        = |(base : ℤ) ^ zoom * ((base : ℤ) * pixel' - pixel) +
            ((base : ℤ) ^ zoom * pixel + (0 : ℕ) - count)| := by ring_nf
      _ ≤ (base : ℤ) ^ zoom * (base - 1) + ((base : ℤ) ^ zoom - 1) :=
        (abs_add_le _ _).trans (add_le_add rounding running.near)
      _ = (base : ℤ) ^ (zoom + 1) - 1 := by ring
  idle := fun none => ⟨Rounded.zero ((running.idle none).1 ▸ rounded), rfl⟩

theorem Running.closeDown (running : Running base zoom pixel shutter count) :
    Settled base zoom zoom pixel count where
  zoomLe := le_rfl
  granular := by
    rw [Nat.sub_self, pow_zero]
    exact one_dvd _
  near := by
    have small : (shutter : ℤ) < (base : ℤ) ^ zoom := by exact_mod_cast running.partialUnit
    have near := abs_le.mp running.near
    rw [abs_le]
    constructor <;> linarith [near.1, near.2, Int.natCast_nonneg shutter]
  idle := fun none => (running.idle none).1

theorem Running.closeUp (running : Running base zoom pixel shutter count)
    (some : 0 < shutter) : Settled base zoom zoom (pixel + 1) count where
  zoomLe := le_rfl
  granular := by
    rw [Nat.sub_self, pow_zero]
    exact one_dvd _
  near := by
    have small : (shutter : ℤ) < (base : ℤ) ^ zoom := by exact_mod_cast running.partialUnit
    have someInt : (0 : ℤ) < shutter := by exact_mod_cast some
    have near := abs_le.mp running.near
    rw [Nat.cast_add, Nat.cast_one, mul_add, mul_one, abs_le]
    constructor <;> linarith [near.1, near.2]
  idle := fun none => absurd (running.idle none).2 (Nat.ne_of_gt some)

end ZoomCounter

end AsapSketchlib
