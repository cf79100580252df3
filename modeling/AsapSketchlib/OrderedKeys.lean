/-
This file models the keys of UnivMon-Q: the bits of an `f64` are encoded so that the order of the
keys as unsigned numbers is the total order of the values. The encoding has an inverse.
-/

import Mathlib.Algebra.Order.Group.Unbundled.Int

namespace AsapSketchlib

namespace UnivMonQ

/-! ### The encoding -/

/-- The sign bit of an `f64`. -/
def signBit : BitVec 64 := 1#64 <<< 63

/-- `float_to_ordered`, on the bits of a value. -/
def floatToOrdered (bits : BitVec 64) : BitVec 64 :=
  if bits >>> 63 = 0#64 then bits ^^^ signBit else ~~~bits

/-- `ordered_to_float`, into the bits of a value. -/
def orderedToFloat (key : BitVec 64) : BitVec 64 :=
  if key >>> 63 = 1#64 then key ^^^ signBit else ~~~key

/-- The signed number that `f64::total_cmp` compares: below the sign bit, the bits of a negative
value are flipped. -/
def totalOrderKey (bits : BitVec 64) : BitVec 64 := bits ^^^ ((bits.sshiftRight 63) >>> 1)

/-- `f64::total_cmp`. -/
def totalCmp (left right : BitVec 64) : Ordering :=
  compare (totalOrderKey left).toInt (totalOrderKey right).toInt

/-! ### Bits below the sign -/

theorem exists_cons (bits : BitVec 64) :
    ∃ (sign : Bool) (magnitude : BitVec 63), bits = BitVec.cons sign magnitude :=
  ⟨bits.msb, bits.setWidth 63, (BitVec.cons_msb_setWidth bits).symm⟩

theorem signBit_eq_cons : signBit = BitVec.cons true 0#63 := by decide

section

variable (sign : Bool) (magnitude : BitVec 63)

theorem shift_cons : BitVec.cons sign magnitude >>> 63 = if sign then 1#64 else 0#64 := by
  refine BitVec.eq_of_toNat_eq ?_
  rw [BitVec.toNat_ushiftRight, BitVec.toNat_cons', Nat.shiftRight_eq_div_pow,
    Nat.shiftLeft_eq, Nat.mul_comm, Nat.mul_add_div (by decide),
    Nat.div_eq_of_lt magnitude.isLt]
  cases sign <;> rfl

theorem floatToOrdered_cons :
    floatToOrdered (BitVec.cons sign magnitude) =
      if sign then BitVec.cons false (~~~magnitude) else BitVec.cons true magnitude := by
  rw [floatToOrdered, shift_cons, signBit_eq_cons]
  cases sign with
  | true => exact (if_neg (by decide)).trans (BitVec.not_cons magnitude true)
  | false =>
    refine (if_pos rfl).trans ?_
    rw [BitVec.cons_xor_cons, BitVec.xor_zero]
    rfl

theorem orderedToFloat_cons :
    orderedToFloat (BitVec.cons sign magnitude) =
      if sign then BitVec.cons false magnitude else BitVec.cons true (~~~magnitude) := by
  rw [orderedToFloat, shift_cons, signBit_eq_cons]
  cases sign with
  | true =>
    refine (if_pos rfl).trans ?_
    rw [BitVec.cons_xor_cons, BitVec.xor_zero]
    rfl
  | false => exact (if_neg (by decide)).trans (BitVec.not_cons magnitude false)

theorem totalOrderKey_cons :
    totalOrderKey (BitVec.cons sign magnitude) =
      if sign then BitVec.cons true (~~~magnitude) else BitVec.cons false magnitude := by
  unfold totalOrderKey
  cases sign with
  | true =>
    have ones : ~~~(0#64) >>> 1 = BitVec.cons false (BitVec.allOnes 63) := by decide
    rw [BitVec.sshiftRight_eq_of_msb_true BitVec.msb_cons, BitVec.not_cons, shift_cons]
    refine (congrArg (_ ^^^ ·) ones).trans ?_
    rw [BitVec.cons_xor_cons, BitVec.xor_allOnes]
    rfl
  | false =>
    rw [BitVec.sshiftRight_eq_of_msb_false BitVec.msb_cons, shift_cons]
    exact BitVec.xor_zero

end

/-! ### The bijection and the order -/

theorem orderedToFloat_floatToOrdered (bits : BitVec 64) :
    orderedToFloat (floatToOrdered bits) = bits := by
  obtain ⟨sign, magnitude, rfl⟩ := exists_cons bits
  rw [floatToOrdered_cons]
  cases sign with
  | true => exact (orderedToFloat_cons false _).trans (by rw [BitVec.not_not]; rfl)
  | false => exact orderedToFloat_cons true magnitude

theorem floatToOrdered_orderedToFloat (key : BitVec 64) :
    floatToOrdered (orderedToFloat key) = key := by
  obtain ⟨sign, magnitude, rfl⟩ := exists_cons key
  rw [orderedToFloat_cons]
  cases sign with
  | true => exact floatToOrdered_cons false magnitude
  | false => exact (floatToOrdered_cons true _).trans (by rw [BitVec.not_not]; rfl)

theorem toInt_totalOrderKey (bits : BitVec 64) :
    (totalOrderKey bits).toInt = (floatToOrdered bits).toNat - 2 ^ 63 := by
  obtain ⟨sign, magnitude, rfl⟩ := exists_cons bits
  rw [totalOrderKey_cons, floatToOrdered_cons]
  cases sign with
  | true =>
    show (BitVec.cons true (~~~magnitude)).toInt = (BitVec.cons false (~~~magnitude)).toNat - 2 ^ 63
    rw [BitVec.toInt_eq_msb_cond, BitVec.msb_cons, if_pos rfl, BitVec.toNat_cons',
      BitVec.toNat_cons', Nat.shiftLeft_eq, Nat.shiftLeft_eq, Bool.toNat_true, Bool.toNat_false]
    omega
  | false =>
    show (BitVec.cons false magnitude).toInt = (BitVec.cons true magnitude).toNat - 2 ^ 63
    rw [BitVec.toInt_eq_msb_cond, BitVec.msb_cons, if_neg (by decide), BitVec.toNat_cons',
      BitVec.toNat_cons', Nat.shiftLeft_eq, Nat.shiftLeft_eq, Bool.toNat_true, Bool.toNat_false]
    omega

theorem compare_floatToOrdered (left right : BitVec 64) :
    compare (floatToOrdered left).toNat (floatToOrdered right).toNat = totalCmp left right := by
  rw [totalCmp, toInt_totalOrderKey, toInt_totalOrderKey]
  generalize (floatToOrdered left).toNat = leftKey
  generalize (floatToOrdered right).toNat = rightKey
  rcases Nat.lt_trichotomy leftKey rightKey with less | same | greater
  · rw [compare_lt_iff_lt.mpr less, compare_lt_iff_lt.mpr (by omega)]
  · rw [compare_eq_iff_eq.mpr same, compare_eq_iff_eq.mpr (by omega)]
  · rw [compare_gt_iff_gt.mpr greater, compare_gt_iff_gt.mpr (by omega)]

end UnivMonQ

end AsapSketchlib
