/-
This file models the values of `f64` with infinities and NaN: a finite value is a rational
number, and an operation rounds its exact result to 53 bits. Integers up to 2^53 and their
sums and differences, as long as these stay there too, are exact.

The sign of a zero and the loss of precision below the smallest normal number are left out.
-/

import AsapSketchlib.Float64

namespace AsapSketchlib

/-- An `f64`. -/
inductive F64 where
  | finite (value : ℚ)
  | infinite (negative : Bool)
  | nan
  deriving DecidableEq, Repr

namespace F64

def round (value : ℚ) : F64 :=
  if 2 ^ 1024 ≤ |roundF64 value| then .infinite (roundF64 value < 0) else .finite (roundF64 value)

/-- `n as f64` for an integer `n`. -/
def ofInt (value : ℤ) : F64 := round value

def zero : F64 := .finite 0

def neg : F64 → F64
  | finite value => .finite (-value)
  | infinite negative => .infinite !negative
  | nan => .nan

def add : F64 → F64 → F64
  | finite left, finite right => round (left + right)
  | infinite left, infinite right => if left = right then .infinite left else .nan
  | infinite left, finite _ => .infinite left
  | finite _, infinite right => .infinite right
  | nan, _ => .nan
  | _, nan => .nan

def sub (left right : F64) : F64 := left.add right.neg

/-- The product of an infinity and a finite value. -/
def scaleInfinite (negative : Bool) (value : ℚ) : F64 :=
  if value = 0 then .nan else .infinite (negative != decide (value < 0))

def mul : F64 → F64 → F64
  | finite left, finite right => round (left * right)
  | infinite left, infinite right => .infinite (left != right)
  | infinite left, finite right => scaleInfinite left right
  | finite left, infinite right => scaleInfinite right left
  | nan, _ => .nan
  | _, nan => .nan

def div : F64 → F64 → F64
  | finite left, finite right =>
    if right = 0 then if left = 0 then .nan else .infinite (left < 0) else round (left / right)
  | infinite left, finite right => .infinite (left != decide (right < 0))
  | finite _, infinite _ => .finite 0
  | infinite _, infinite _ => .nan
  | nan, _ => .nan
  | _, nan => .nan

/-- `x / 2.0`. -/
def half : F64 → F64
  | finite value => .finite (value / 2)
  | infinite negative => .infinite negative
  | nan => .nan

def abs : F64 → F64
  | finite value => .finite |value|
  | infinite _ => .infinite false
  | nan => .nan

def partialCmp : F64 → F64 → Option Ordering
  | finite left, finite right => some (compare left right)
  | infinite left, infinite right => some (compare right left)
  | infinite left, finite _ => some (if left then .lt else .gt)
  | finite _, infinite right => some (if right then .gt else .lt)
  | nan, _ => none
  | _, nan => none

/-- `left < right`. -/
def Less (left right : F64) : Prop := left.partialCmp right = some .lt

/-- `left <= right`. -/
def AtMost (left right : F64) : Prop :=
  left.partialCmp right = some .lt ∨ left.partialCmp right = some .eq

instance (left right : F64) : Decidable (Less left right) :=
  inferInstanceAs (Decidable (_ = _))

instance (left right : F64) : Decidable (AtMost left right) :=
  inferInstanceAs (Decidable (_ ∨ _))

/-- `f64::min`, which ignores a NaN. -/
def min (left right : F64) : F64 :=
  if left = .nan then right
  else if right.Less left then right else left

/-- `f64::max`, which ignores a NaN. -/
def max (left right : F64) : F64 :=
  if left = .nan then right
  else if left.Less right then right else left

/-- A value below the lower bound becomes that bound, and one above the upper bound that one. -/
def clamp (value lower upper : F64) : F64 :=
  let raised := if value.Less lower then lower else value
  if upper.Less raised then upper else raised

def floor : F64 → F64
  | finite value => .finite ⌊value⌋
  | infinite negative => .infinite negative
  | nan => .nan

def ceil : F64 → F64
  | finite value => .finite ⌈value⌉
  | infinite negative => .infinite negative
  | nan => .nan

/-- `x as u64`, and `x as usize`. -/
def asU64 : F64 → ℕ
  | finite value => Nat.min ⌊value⌋.toNat u64Max
  | infinite negative => if negative then 0 else u64Max
  | nan => 0

/-- `x as i64`. -/
def asI64 : F64 → ℤ
  | finite value => f64AsI64 value
  | infinite negative => if negative then i64Min else i64Max
  | nan => 0

/-! ### Integers -/

/-- The integers that `f64` holds without gaps. -/
def Exact (value : ℤ) : Prop := |value| ≤ 2 ^ 53

instance (value : ℤ) : Decidable (Exact value) := inferInstanceAs (Decidable (_ ≤ _))

theorem roundF64_two_pow : roundF64 (2 ^ 53) = 2 ^ 53 := by decide +kernel

theorem roundF64_of_exact {value : ℤ} (exact : Exact value) : roundF64 value = value := by
  rcases lt_or_eq_of_le exact with small | boundary
  · exact intAsF64_of_small small
  · rcases (abs_eq (by decide)).mp boundary with rfl | rfl
    · rw [Int.cast_pow]
      exact roundF64_two_pow
    · rw [Int.cast_neg, roundF64_neg, Int.cast_pow]
      exact congrArg Neg.neg roundF64_two_pow

theorem round_of_exact {value : ℤ} (exact : Exact value) : round value = .finite value := by
  have bound : |(value : ℚ)| ≤ 2 ^ 53 := by
    rw [← Int.cast_abs]
    exact_mod_cast exact
  have large : ¬(2 : ℚ) ^ 1024 ≤ |(value : ℚ)| := by
    refine not_le.mpr (lt_of_le_of_lt bound ?_)
    exact pow_lt_pow_right₀ (by norm_num) (by norm_num)
  unfold round
  rw [roundF64_of_exact exact, if_neg large]

theorem ofInt_of_exact {value : ℤ} (exact : Exact value) : ofInt value = .finite value :=
  round_of_exact exact

theorem add_ofInt {left right : ℤ} (leftExact : Exact left) (rightExact : Exact right) :
    (ofInt left).add (ofInt right) = ofInt (left + right) := by
  rw [ofInt_of_exact leftExact, ofInt_of_exact rightExact]
  show round (left + right) = round (left + right : ℤ)
  rw [Int.cast_add]

theorem sub_ofInt {left right : ℤ} (leftExact : Exact left) (rightExact : Exact right) :
    (ofInt left).sub (ofInt right) = ofInt (left - right) := by
  rw [ofInt_of_exact leftExact, ofInt_of_exact rightExact]
  show round (left + -right) = round (left - right : ℤ)
  rw [Int.cast_sub, sub_eq_add_neg]

theorem asI64_ofInt {value : ℤ} (exact : Exact value) : (ofInt value).asI64 = value := by
  rw [ofInt_of_exact exact]
  have bound := abs_le.mp exact
  show f64AsI64 value = value
  unfold f64AsI64 i64Min i64Max
  rw [Int.floor_intCast, Int.ceil_intCast, ite_self]
  omega

theorem exact_abs {value : ℤ} (exact : Exact value) : Exact |value| := by
  unfold Exact
  rwa [abs_abs]

theorem abs_ofInt {value : ℤ} (exact : Exact value) : (ofInt value).abs = ofInt |value| := by
  rw [ofInt_of_exact exact, ofInt_of_exact (exact_abs exact), Int.cast_abs]
  rfl

theorem finite_atMost_ofInt_iff {bound : ℚ} {value : ℤ} (exact : Exact value) :
    (finite bound).AtMost (ofInt value) ↔ bound ≤ value := by
  rw [ofInt_of_exact exact]
  show some (compare bound (value : ℚ)) = _ ∨ some (compare bound (value : ℚ)) = _ ↔ _
  rw [Option.some.injEq, Option.some.injEq, compare_lt_iff_lt, compare_eq_iff_eq]
  exact le_iff_lt_or_eq.symm

theorem ofInt_less_finite_iff {bound : ℚ} {value : ℤ} (exact : Exact value) :
    (ofInt value).Less (finite bound) ↔ (value : ℚ) < bound := by
  rw [ofInt_of_exact exact]
  show some (compare (value : ℚ) bound) = _ ↔ _
  rw [Option.some.injEq, compare_lt_iff_lt]

end F64

end AsapSketchlib
