/-
This file reads the shifts of the HyperLogLog sketches: the register of a hash is the number that
its top bits make, and the rank one more than the number of leading zeros among the bits behind
them. The guard behind the shifted bits keeps the count inside them, also where all are zero.
-/

import AsapSketchlib.HyperLogLog

namespace AsapSketchlib

namespace Hll

variable {precision : ℕ}

def topBits (precision : ℕ) (hashed : BitVec 64) : ℕ := hashed.toNat / 2 ^ (64 - precision)

/-- The bits of a hash behind the top ones. -/
def remaining (precision : ℕ) (hashed : BitVec 64) : BitVec (64 - precision) :=
  hashed.setWidth (64 - precision)

/-- One plus the number of leading zeros among the remaining bits. -/
def rank (precision : ℕ) (hashed : BitVec 64) : ℕ := 1 + (remaining precision hashed).clz.toNat

theorem toNat_remaining (precision : ℕ) (hashed : BitVec 64) :
    (remaining precision hashed).toNat = hashed.toNat % 2 ^ (64 - precision) :=
  BitVec.toNat_setWidth (64 - precision) hashed

/-! ### Leading zeros -/

theorem clz_unique {width : ℕ} {bits : BitVec width} {count : ℕ} (inside : count < width)
    (lower : 2 ^ (width - 1 - count) ≤ bits.toNat) (upper : bits.toNat < 2 ^ (width - count)) :
    bits.clz.toNat = count := by
  have some : 0 < width := (Nat.zero_le count).trans_lt inside
  have notZero : bits ≠ BitVec.ofNat width 0 := by
    rintro rfl
    rw [BitVec.toNat_ofNat, Nat.zero_mod] at lower
    exact absurd (Nat.two_pow_pos (width - 1 - count)) (not_lt.mpr lower)
  have ownLower := BitVec.two_pow_sub_clz_le_toNat_of_ne_zero some notZero
  have ownUpper := @BitVec.toNat_lt_two_pow_sub_clz width bits
  have first := (Nat.pow_lt_pow_iff_right (by decide)).mp (ownLower.trans_lt upper)
  have second := (Nat.pow_lt_pow_iff_right (by decide)).mp (lower.trans_lt ownUpper)
  omega

theorem clz_toNat_le {width : ℕ} (bits : BitVec width) : bits.clz.toNat ≤ width :=
  (BitVec.le_def.mp BitVec.clz_le).trans
    ((BitVec.toNat_ofNat width width).trans_le (Nat.mod_le _ _))

theorem clz_zero (width : ℕ) : (BitVec.ofNat width 0).clz.toNat = width := by
  rw [BitVec.clz_eq_iff_eq_zero.mpr rfl]
  exact (BitVec.toNat_ofNat width width).trans (Nat.mod_eq_of_lt Nat.lt_two_pow_self)

/-! ### The register and the rank of a hash -/

theorem bucketNum_eq (atMost : precision ≤ 64) (hashed : BitVec 64) :
    bucketNum precision hashed = topBits precision hashed := by
  have power : 2 ^ precision ≤ 2 ^ 64 := Nat.pow_le_pow_right (by decide) atMost
  have shifted : (hashed >>> (64 - precision)).toNat = topBits precision hashed := by
    rw [BitVec.toNat_ushiftRight, Nat.shiftRight_eq_div_pow]
    rfl
  have small : topBits precision hashed < 2 ^ precision := by
    refine Nat.div_lt_of_lt_mul ?_
    rw [← Nat.pow_add, Nat.sub_add_cancel atMost]
    exact hashed.isLt
  have mask : (2 ^ precision - 1) % 2 ^ 64 = 2 ^ precision - 1 :=
    Nat.mod_eq_of_lt ((Nat.sub_lt (Nat.two_pow_pos precision) Nat.one_pos).trans_le power)
  unfold bucketNum pMask
  rw [BitVec.toNat_and, BitVec.toNat_ofNat, mask, shifted, Nat.and_two_pow_sub_one_eq_mod,
    Nat.mod_eq_of_lt small]

theorem toNat_guarded (atMost : precision ≤ 63) (hashed : BitVec 64) :
    ((hashed <<< precision) + pMask precision).toNat =
      (remaining precision hashed).toNat * 2 ^ precision + (2 ^ precision - 1) := by
  have split : 2 ^ 64 = 2 ^ (64 - precision) * 2 ^ precision := by
    rw [← Nat.pow_add, Nat.sub_add_cancel (atMost.trans (by decide))]
  have small : (remaining precision hashed).toNat < 2 ^ (64 - precision) :=
    (remaining precision hashed).isLt
  have shifted : (hashed <<< precision).toNat =
      (remaining precision hashed).toNat * 2 ^ precision := by
    rw [BitVec.toNat_shiftLeft, Nat.shiftLeft_eq, split, Nat.mul_mod_mul_right, toNat_remaining]
  have fits : (remaining precision hashed).toNat * 2 ^ precision + (2 ^ precision - 1) <
      2 ^ 64 := by
    have positive := Nat.two_pow_pos precision
    calc
      _ < (remaining precision hashed).toNat * 2 ^ precision + 2 ^ precision :=
        Nat.add_lt_add_left (Nat.sub_lt positive Nat.one_pos) _
      _ = ((remaining precision hashed).toNat + 1) * 2 ^ precision := (Nat.succ_mul _ _).symm
      _ ≤ 2 ^ (64 - precision) * 2 ^ precision := Nat.mul_le_mul_right _ small
      _ = 2 ^ 64 := split.symm
  have mask : (2 ^ precision - 1) % 2 ^ 64 = 2 ^ precision - 1 :=
    Nat.mod_eq_of_lt ((Nat.le_add_left _ _).trans_lt fits)
  unfold pMask
  rw [BitVec.toNat_add, BitVec.toNat_ofNat, mask, shifted, Nat.mod_eq_of_lt fits]

/-- The guard keeps the leading zeros those of the remaining bits. -/
theorem leadingZero_eq (atLeast : 1 ≤ precision) (atMost : precision ≤ 63) (hashed : BitVec 64) :
    leadingZero precision hashed = rank precision hashed := by
  have guarded := toNat_guarded atMost hashed
  have positive : 1 < 2 ^ precision := Nat.one_lt_two_pow (Nat.one_le_iff_ne_zero.mp atLeast)
  have width : 0 < 64 - precision := Nat.sub_pos_of_lt (atMost.trans_lt (by decide))
  unfold leadingZero rank
  rw [Nat.add_comm]
  refine congrArg (1 + ·) ?_
  by_cases zero : remaining precision hashed = 0#(64 - precision)
  · rw [zero, clz_zero]
    rw [zero, BitVec.toNat_ofNat, Nat.zero_mod, Nat.zero_mul, Nat.zero_add] at guarded
    have half : 2 ^ precision = 2 * 2 ^ (precision - 1) := by
      rw [← Nat.pow_succ', Nat.succ_eq_add_one, Nat.sub_add_cancel atLeast]
    refine clz_unique (by omega) ?_ ?_
    · rw [guarded, show 64 - 1 - (64 - precision) = precision - 1 by omega]
      have lower := Nat.two_pow_pos (precision - 1)
      omega
    · rw [guarded, show 64 - (64 - precision) = precision by omega]
      exact Nat.sub_lt (Nat.zero_lt_of_lt positive) Nat.one_pos
  · have lower := BitVec.two_pow_sub_clz_le_toNat_of_ne_zero width zero
    have upper := @BitVec.toNat_lt_two_pow_sub_clz _ (remaining precision hashed)
    have inside : (remaining precision hashed).clz.toNat < 64 - precision := by
      refine lt_of_le_of_ne (clz_toNat_le _) fun full => zero ?_
      rw [full, Nat.sub_self, pow_zero] at upper
      exact BitVec.eq_of_toNat_eq (Nat.lt_one_iff.mp upper)
    generalize (remaining precision hashed).clz.toNat = count at lower upper inside
    refine clz_unique (by omega) ?_ ?_
    · rw [guarded, show 64 - 1 - count = 64 - precision - 1 - count + precision by omega,
        Nat.pow_add]
      exact (Nat.mul_le_mul_right _ lower).trans (Nat.le_add_right _ _)
    · rw [guarded, show 64 - count = 64 - precision - count + precision by omega, Nat.pow_add]
      calc
        _ < (remaining precision hashed).toNat * 2 ^ precision + 2 ^ precision :=
          Nat.add_lt_add_left (Nat.sub_lt (Nat.zero_lt_of_lt positive) Nat.one_pos) _
        _ = ((remaining precision hashed).toNat + 1) * 2 ^ precision := (Nat.succ_mul _ _).symm
        _ ≤ 2 ^ (64 - precision - count) * 2 ^ precision := Nat.mul_le_mul_right _ upper

theorem update_eq (atLeast : 1 ≤ precision) (atMost : precision ≤ 63) (hashed : BitVec 64) :
    update precision hashed = (topBits precision hashed, rank precision hashed) :=
  Prod.ext (bucketNum_eq (atMost.trans (by decide)) hashed) (leadingZero_eq atLeast atMost hashed)

theorem rank_le (atMost : precision ≤ 64) (hashed : BitVec 64) :
    rank precision hashed ≤ 65 - precision := by
  have few := clz_toNat_le (remaining precision hashed)
  unfold rank
  omega

theorem rank_lt_iff (atLeast : 1 ≤ precision) (atMost : precision ≤ 63) (hashed : BitVec 64) :
    rank precision hashed < 64 ↔ ¬(precision = 1 ∧ hashed.toNat % 2 ^ 63 = 0) := by
  constructor
  · rintro small ⟨rfl, zero⟩
    have zeros : remaining 1 hashed = 0#63 :=
      BitVec.eq_of_toNat_eq ((toNat_remaining 1 hashed).trans zero)
    unfold rank at small
    rw [zeros, clz_zero] at small
    exact absurd small (by decide)
  · intro notBoth
    have few := clz_toNat_le (remaining precision hashed)
    unfold rank
    by_cases one : precision = 1
    · subst one
      have differs : (remaining 1 hashed).clz.toNat ≠ 63 := by
        intro full
        refine notBoth ⟨rfl, ?_⟩
        have upper := @BitVec.toNat_lt_two_pow_sub_clz _ (remaining 1 hashed)
        rw [full] at upper
        exact (toNat_remaining 1 hashed).symm.trans (Nat.lt_one_iff.mp upper)
      omega
    · omega

end Hll

end AsapSketchlib
