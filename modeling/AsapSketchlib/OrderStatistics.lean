/-
This file develops order statistics over sorted lists of numbers: the value at a rank, and the
value at a rank between two others, which is interpolated linearly. Both grow with the rank, and
lists with close values have close order statistics.
-/

import Mathlib.Algebra.Order.Floor.Semiring
import Mathlib.Algebra.Order.Field.Basic
import Mathlib.Tactic.Linarith
import Mathlib.Tactic.Ring

namespace AsapSketchlib

namespace OrderStatistics

/-! ### Definitions -/

section Definitions

variable {Number : Type} [Field Number]

/-- The value at a fraction of the way from one to another. -/
def between (lower upper fraction : Number) : Number := lower * (1 - fraction) + upper * fraction

theorem between_eq (lower upper fraction : Number) :
    between lower upper fraction = lower + (upper - lower) * fraction := by
  rw [between]
  ring

theorem between_zero (lower upper : Number) : between lower upper 0 = lower := by
  rw [between_eq, mul_zero, add_zero]

variable [LinearOrder Number] [FloorSemiring Number]

/-- The value at a rank, between those of the whole ranks around it. -/
def interpolated (values : List Number) (rank : Number) : Option Number :=
  values[⌊rank⌋₊]?.bind fun lower =>
    values[⌈rank⌉₊]?.map fun upper => between lower upper (rank - ⌊rank⌋₊)

theorem interpolated_eq_some {values : List Number} {rank value : Number} :
    interpolated values rank = some value ↔ ∃ lower upper, values[⌊rank⌋₊]? = some lower ∧
      values[⌈rank⌉₊]? = some upper ∧ between lower upper (rank - ⌊rank⌋₊) = value := by
  rw [interpolated, Option.bind_eq_some_iff]
  refine exists_congr fun lower => ?_
  rw [Option.map_eq_some_iff]
  exact ⟨fun ⟨lowerEq, upper, upperEq, made⟩ => ⟨upper, lowerEq, upperEq, made⟩,
    fun ⟨upper, lowerEq, upperEq, made⟩ => ⟨lowerEq, upper, upperEq, made⟩⟩

end Definitions

theorem getElem?_le {Value : Type} [Preorder Value] {values : List Value}
    (sorted : values.Pairwise (· ≤ ·)) {place laterPlace : ℕ} {value laterValue : Value}
    (le : place ≤ laterPlace) (here : values[place]? = some value)
    (there : values[laterPlace]? = some laterValue) : value ≤ laterValue := by
  rcases le.eq_or_lt with rfl | less
  · exact (Option.some.inj (here.symm.trans there)).le
  · obtain ⟨placeLt, rfl⟩ := List.getElem?_eq_some_iff.mp here
    obtain ⟨laterLt, rfl⟩ := List.getElem?_eq_some_iff.mp there
    exact List.pairwise_iff_getElem.mp sorted _ _ placeLt laterLt less

/-! ### Between two values -/

variable {Number : Type} [Field Number] [LinearOrder Number] [IsStrictOrderedRing Number]

variable {lower upper other otherUpper fraction larger : Number}

theorem le_between (le : lower ≤ upper) (nonneg : 0 ≤ fraction) :
    lower ≤ between lower upper fraction := by
  rw [between_eq]
  exact le_add_of_nonneg_right (mul_nonneg (sub_nonneg.mpr le) nonneg)

theorem between_le (le : lower ≤ upper) (atMost : fraction ≤ 1) :
    between lower upper fraction ≤ upper := by
  have part := mul_le_mul_of_nonneg_left atMost (sub_nonneg.mpr le)
  rw [between_eq]
  linarith

theorem between_mono (le : lower ≤ upper) (further : fraction ≤ larger) :
    between lower upper fraction ≤ between lower upper larger := by
  rw [between_eq, between_eq]
  exact add_le_add_right (mul_le_mul_of_nonneg_left further (sub_nonneg.mpr le)) lower

theorem abs_between_sub_le {lowerError upperError : Number} (nonneg : 0 ≤ fraction)
    (atMost : fraction ≤ 1) (lowerClose : |lower - other| ≤ lowerError)
    (upperClose : |upper - otherUpper| ≤ upperError) :
    |between lower upper fraction - between other otherUpper fraction| ≤
      between lowerError upperError fraction := by
  have rest : 0 ≤ 1 - fraction := sub_nonneg.mpr atMost
  calc |between lower upper fraction - between other otherUpper fraction|
      = |(lower - other) * (1 - fraction) + (upper - otherUpper) * fraction| := by
        rw [between, between]
        congr 1
        ring
    _ ≤ |(lower - other) * (1 - fraction)| + |(upper - otherUpper) * fraction| := abs_add_le _ _
    _ = |lower - other| * (1 - fraction) + |upper - otherUpper| * fraction := by
        rw [abs_mul, abs_mul, abs_of_nonneg rest, abs_of_nonneg nonneg]
    _ ≤ between lowerError upperError fraction :=
        add_le_add (mul_le_mul_of_nonneg_right lowerClose rest)
          (mul_le_mul_of_nonneg_right upperClose nonneg)

/-! ### Interpolated order statistics -/

variable [FloorSemiring Number]

variable {values : List Number} {rank further value laterValue : Number}

theorem fraction_nonneg (nonneg : 0 ≤ rank) : 0 ≤ rank - ⌊rank⌋₊ :=
  sub_nonneg.mpr (Nat.floor_le nonneg)

theorem fraction_le_one (rank : Number) : rank - ⌊rank⌋₊ ≤ 1 := by
  have less := Nat.lt_floor_add_one rank
  linarith

theorem exists_interpolated (inside : ⌈rank⌉₊ < values.length) :
    ∃ value, interpolated values rank = some value := by
  have low := (Nat.floor_le_ceil rank).trans_lt inside
  exact ⟨_, interpolated_eq_some.mpr ⟨_, _, List.getElem?_eq_getElem low,
    List.getElem?_eq_getElem inside, rfl⟩⟩

section Sorted

variable (sorted : values.Pairwise (· ≤ ·))

include sorted

theorem getElem?_le_interpolated (nonneg : 0 ≤ rank) (here : values[⌊rank⌋₊]? = some lower)
    (there : interpolated values rank = some value) : lower ≤ value := by
  obtain ⟨start, upper, startEq, upperEq, rfl⟩ := interpolated_eq_some.mp there
  rw [Option.some.inj (here.symm.trans startEq)]
  exact le_between (getElem?_le sorted (Nat.floor_le_ceil rank) startEq upperEq)
    (fraction_nonneg nonneg)

theorem interpolated_le_getElem? (here : interpolated values rank = some value)
    (there : values[⌈rank⌉₊]? = some upper) : value ≤ upper := by
  obtain ⟨lower, last, lowerEq, lastEq, rfl⟩ := interpolated_eq_some.mp here
  rw [Option.some.inj (there.symm.trans lastEq)]
  exact between_le (getElem?_le sorted (Nat.floor_le_ceil rank) lowerEq lastEq)
    (fraction_le_one rank)

theorem interpolated_mono (nonneg : 0 ≤ rank) (le : rank ≤ further)
    (here : interpolated values rank = some value)
    (there : interpolated values further = some laterValue) : value ≤ laterValue := by
  obtain ⟨lower, upper, lowerEq, upperEq, made⟩ := interpolated_eq_some.mp here
  obtain ⟨laterLower, laterUpper, laterLowerEq, laterUpperEq, laterMade⟩ :=
    interpolated_eq_some.mp there
  rcases (Nat.floor_mono le).eq_or_lt with same | less
  · rw [same] at lowerEq made
    obtain rfl := Option.some.inj (lowerEq.symm.trans laterLowerEq)
    have rises := getElem?_le sorted (Nat.floor_le_ceil further) laterLowerEq laterUpperEq
    by_cases whole : rank = ⌊further⌋₊
    · -- The upper value is not that of the later rank here, but does not count.
      rw [whole, sub_self, between_zero] at made
      rw [← made, ← laterMade]
      exact le_between rises (fraction_nonneg (nonneg.trans le))
    · have ceilings : ⌈rank⌉₊ = ⌈further⌉₊ := by
        have above : (⌊further⌋₊ : Number) < rank :=
          lt_of_le_of_ne (same ▸ Nat.floor_le nonneg) (Ne.symm whole)
        have first := Nat.lt_ceil.mpr above
        have last := Nat.ceil_mono le
        have most := Nat.ceil_le_floor_add_one further
        omega
      rw [ceilings] at upperEq
      obtain rfl := Option.some.inj (upperEq.symm.trans laterUpperEq)
      rw [← made, ← laterMade]
      exact between_mono rises (sub_le_sub_right le _)
  · have reached : ⌈rank⌉₊ ≤ ⌊further⌋₊ := (Nat.ceil_le_floor_add_one rank).trans less
    calc value ≤ upper := interpolated_le_getElem? sorted here upperEq
      _ ≤ laterLower := getElem?_le sorted reached upperEq laterLowerEq
      _ ≤ laterValue := getElem?_le_interpolated sorted (nonneg.trans le) laterLowerEq there

end Sorted

end OrderStatistics

end AsapSketchlib
