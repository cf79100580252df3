/-
This file develops ranges of bits in a word: ranges that are apart share no bit, and what is read
from a range by a shift and a mask depends on the bits of the range only.
-/

import Mathlib.Data.List.Pairwise
import Mathlib.Data.Nat.Bitwise

namespace AsapSketchlib

structure BitRange where
  start : ℕ
  length : ℕ
  deriving DecidableEq

namespace BitRange

def Covers (range : BitRange) (bit : ℕ) : Prop :=
  range.start ≤ bit ∧ bit < range.start + range.length

def Inside (width : ℕ) (range : BitRange) : Prop := range.start + range.length ≤ width

/-- One of two ranges ends before the other begins. -/
def Apart (left right : BitRange) : Prop :=
  left.start + left.length ≤ right.start ∨ right.start + right.length ≤ left.start

/-- The ranges lie inside a word, and any two of them are apart. -/
structure Laid (width : ℕ) (ranges : List BitRange) : Prop where
  inside : ∀ range ∈ ranges, range.Inside width
  apart : ranges.Pairwise Apart

/-! ### Reading a range -/

def lowMask (width length : ℕ) : BitVec width :=
  (BitVec.ofNat width 1 <<< length) - BitVec.ofNat width 1

def Agree {width : ℕ} (range : BitRange) (left right : BitVec width) : Prop :=
  ∀ bit, range.Covers bit → left.getLsbD bit = right.getLsbD bit

def read {width : ℕ} (range : BitRange) (word : BitVec width) : BitVec width :=
  (word >>> range.start) &&& lowMask width range.length

theorem toNat_lowMask {width length : ℕ} (fits : length < width) :
    (lowMask width length).toNat = 2 ^ length - 1 := by
  have shifted : (BitVec.ofNat width 1 <<< length).toNat = 2 ^ length := by
    rw [BitVec.toNat_shiftLeft, BitVec.toNat_ofNat, Nat.one_mod_two_pow (by omega),
      Nat.one_shiftLeft, Nat.mod_eq_of_lt (Nat.pow_lt_pow_right (by decide) fits)]
  have positive : BitVec.ofNat width 1 ≤ BitVec.ofNat width 1 <<< length := by
    rw [BitVec.le_def, shifted, BitVec.toNat_ofNat, Nat.one_mod_two_pow (by omega)]
    exact Nat.one_le_two_pow
  rw [lowMask, BitVec.toNat_sub_of_le positive, shifted, BitVec.toNat_ofNat,
    Nat.one_mod_two_pow (by omega)]

theorem getLsbD_lowMask {width length : ℕ} (fits : length < width) (bit : ℕ) :
    (lowMask width length).getLsbD bit = decide (bit < length) := by
  rw [BitVec.getLsbD, toNat_lowMask fits, Nat.testBit_two_pow_sub_one]

variable {width : ℕ} {range : BitRange} (fits : range.length < width)

include fits

theorem getLsbD_read (word : BitVec width) (bit : ℕ) : (range.read word).getLsbD bit =
      (word.getLsbD (range.start + bit) && decide (bit < range.length)) := by
  rw [read, BitVec.getLsbD_and, BitVec.getLsbD_ushiftRight, getLsbD_lowMask fits]

theorem read_congr {left right : BitVec width} (agree : range.Agree left right) :
    range.read left = range.read right := by
  refine BitVec.eq_of_getLsbD_eq fun bit _ => ?_
  rw [getLsbD_read fits, getLsbD_read fits]
  by_cases inside : bit < range.length
  · rw [agree (range.start + bit) ⟨Nat.le_add_right _ _, Nat.add_lt_add_left inside _⟩]
  · rw [decide_eq_false inside, Bool.and_false, Bool.and_false]

theorem toNat_read (word : BitVec width) :
    (range.read word).toNat = (word >>> range.start).toNat % 2 ^ range.length := by
  rw [read, BitVec.toNat_and, toNat_lowMask fits, Nat.and_two_pow_sub_one_eq_mod]

end BitRange

end AsapSketchlib
