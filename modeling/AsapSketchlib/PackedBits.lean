/-
This file develops bits packed into 64-bit words: the bit at a position is set or cleared by a mask
on its word, the union of two arrays is taken word by word, and the number of bits set is added up
word by word.
-/

import Mathlib.Algebra.BigOperators.Group.List.Basic
import Mathlib.Data.List.GetD
import Mathlib.Data.List.Range
import Mathlib.Tactic.Ring

namespace AsapSketchlib

namespace PackedBits

def mask (position : ℕ) : BitVec 64 := 1#64 <<< (position % 64)

def bitAt (words : List (BitVec 64)) (position : ℕ) : Bool :=
  (words.getD (position / 64) 0).getLsbD (position % 64)

def setBit (words : List (BitVec 64)) (position : ℕ) : List (BitVec 64) :=
  words.modify (position / 64) (· ||| mask position)

/-- Sets every bit that is set in the other array. -/
def union (words other : List (BitVec 64)) : List (BitVec 64) := List.zipWith (· ||| ·) words other

def onesOf (word : BitVec 64) : ℕ := (List.range 64).countP word.getLsbD

def population (words : List (BitVec 64)) : ℕ := (words.map onesOf).sum

/-! ### Words and masks -/

theorem offset_lt (position : ℕ) : position % 64 < 64 := Nat.mod_lt position (by decide)

theorem getLsbD_mask (position offset : ℕ) :
    (mask position).getLsbD offset = decide (offset = position % 64) := by
  rw [mask, ← BitVec.twoPow_eq, BitVec.getLsbD_twoPow]
  by_cases same : position % 64 = offset
  · rw [decide_eq_true same, decide_eq_true same.symm, decide_eq_true (offset_lt position),
      Bool.and_self]
  · rw [decide_eq_false same, decide_eq_false (Ne.symm same), Bool.and_false]

theorem and_mask_ne_zero (word : BitVec 64) (position : ℕ) :
    (word &&& mask position ≠ 0) ↔ word.getLsbD (position % 64) = true := by
  rw [mask, ← BitVec.twoPow_eq, BitVec.and_twoPow]
  by_cases isSet : word.getLsbD (position % 64) = true
  · rw [if_pos isSet]
    refine ⟨fun _ => isSet, fun _ empty => ?_⟩
    have bit := congrArg (fun word : BitVec 64 => word.getLsbD (position % 64)) empty
    simp only [BitVec.getLsbD_twoPow, offset_lt position, decide_true, Bool.and_self] at bit
    exact Bool.noConfusion (bit.trans BitVec.getLsbD_zero)
  · rw [if_neg isSet]
    exact ⟨fun nonzero => absurd rfl nonzero, fun contrary => absurd contrary isSet⟩

theorem decide_and_mask (word : BitVec 64) (position : ℕ) :
    decide (word &&& mask position ≠ 0) = word.getLsbD (position % 64) := by
  rw [Bool.eq_iff_iff, decide_eq_true_iff]
  exact and_mask_ne_zero word position

theorem position_eq_iff {position other : ℕ} (sameWord : position / 64 = other / 64) :
    other % 64 = position % 64 ↔ other = position := by
  constructor
  · intro sameOffset
    rw [← Nat.div_add_mod other 64, ← Nat.div_add_mod position 64, sameWord, sameOffset]
  · rintro rfl
    rfl

/-! ### Bits after an operation -/

section Modified

variable {words : List (BitVec 64)} {position : ℕ}

theorem bitAt_modify (change : BitVec 64 → BitVec 64) (inside : position < 64 * words.length)
    (other : ℕ) : bitAt (words.modify (position / 64) change) other =
      if position / 64 = other / 64 then
        (change (words.getD (other / 64) 0)).getLsbD (other % 64)
      else bitAt words other := by
  have stored : position / 64 < words.length := Nat.div_lt_of_lt_mul inside
  unfold bitAt
  by_cases sameWord : position / 64 = other / 64
  · rw [if_pos sameWord, ← sameWord, List.getD_eq_getElem?_getD, List.getD_eq_getElem?_getD,
      List.getElem?_modify_eq, List.getElem?_eq_getElem stored]
    rfl
  · rw [if_neg sameWord, List.getD_eq_getElem?_getD, List.getD_eq_getElem?_getD,
      List.getElem?_modify_ne _ _ sameWord]

theorem bitAt_setBit (inside : position < 64 * words.length) (other : ℕ) :
    bitAt (setBit words position) other = (bitAt words other || decide (other = position)) := by
  rw [setBit, bitAt_modify _ inside]
  by_cases sameWord : position / 64 = other / 64
  · rw [if_pos sameWord, BitVec.getLsbD_or, getLsbD_mask position (other % 64),
      decide_eq_decide.mpr (position_eq_iff sameWord)]
    rfl
  · have different : other ≠ position := fun same => sameWord (by rw [same])
    rw [if_neg sameWord, decide_eq_false different, Bool.or_false]

@[simp] theorem length_setBit : (setBit words position).length = words.length :=
  List.length_modify ..

end Modified

theorem length_union {words other : List (BitVec 64)} (same : words.length = other.length) :
    (union words other).length = words.length := by
  rw [union, List.length_zipWith, same, min_self]

theorem bitAt_union {words other : List (BitVec 64)} (same : words.length = other.length)
    (position : ℕ) : bitAt (union words other) position =
      (bitAt words position || bitAt other position) := by
  have whole : (union words other).getD (position / 64) 0 =
      words.getD (position / 64) 0 ||| other.getD (position / 64) 0 := by
    by_cases stored : position / 64 < words.length
    · have storedOther : position / 64 < other.length := same ▸ stored
      have storedUnion : position / 64 < (union words other).length := by rwa [length_union same]
      rw [List.getD_eq_getElem _ _ stored, List.getD_eq_getElem _ _ storedOther,
        List.getD_eq_getElem _ _ storedUnion]
      exact List.getElem_zipWith
    · have beyond := Nat.le_of_not_lt stored
      rw [List.getD_eq_default words 0 beyond,
        List.getD_eq_default other 0 (same.symm.trans_le beyond),
        List.getD_eq_default (union words other) 0 ((length_union same).trans_le beyond)]
      rfl
  rw [bitAt, whole, BitVec.getLsbD_or]
  rfl

@[simp] theorem bitAt_clear (count position : ℕ) :
    bitAt (List.replicate count 0) position = false := by
  have clear : (List.replicate count (0 : BitVec 64)).getD (position / 64) 0 = 0 := by
    rw [List.getD_eq_getElem?_getD, List.getElem?_replicate]
    split <;> rfl
  rw [bitAt, clear]
  exact BitVec.getLsbD_zero

theorem eq_of_bitAt {words other : List (BitVec 64)} (sameLength : words.length = other.length)
    (same : ∀ position < 64 * words.length, bitAt words position = bitAt other position) :
    words = other := by
  refine List.ext_getElem sameLength fun index inside insideOther => ?_
  refine BitVec.eq_of_getLsbD_eq fun offset offsetLt => ?_
  have place : (64 * index + offset) / 64 = index := by
    rw [Nat.mul_add_div (by decide), Nat.div_eq_of_lt offsetLt, Nat.add_zero]
  have rest : (64 * index + offset) % 64 = offset := by
    rw [Nat.mul_add_mod, Nat.mod_eq_of_lt offsetLt]
  have here := same (64 * index + offset) (by omega)
  rwa [bitAt, bitAt, place, rest, List.getD_eq_getElem _ _ inside,
    List.getD_eq_getElem _ _ insideOther] at here

/-! ### Counting -/

theorem bitAt_cons_low (word : BitVec 64) (rest : List (BitVec 64)) {offset : ℕ}
    (low : offset < 64) : bitAt (word :: rest) offset = word.getLsbD offset := by
  rw [bitAt, Nat.div_eq_of_lt low, Nat.mod_eq_of_lt low]
  rfl

theorem bitAt_cons_high (word : BitVec 64) (rest : List (BitVec 64)) (position : ℕ) :
    bitAt (word :: rest) (64 + position) = bitAt rest position := by
  rw [bitAt, Nat.add_div_left position (by decide), Nat.add_mod_left, List.getD_cons_succ]
  rfl

theorem population_eq (words : List (BitVec 64)) :
    population words = (List.range (64 * words.length)).countP (bitAt words) := by
  induction words with
  | nil => rfl
  | cons word rest hypothesis =>
    have positions : List.range (64 * (word :: rest).length) =
        List.range 64 ++ (List.range (64 * rest.length)).map (64 + ·) := by
      rw [← List.range_add, List.length_cons, Nat.mul_succ, Nat.add_comm]
    have low : (List.range 64).countP (bitAt (word :: rest)) = onesOf word :=
      List.countP_congr fun offset inside => by
        rw [bitAt_cons_low word rest (List.mem_range.mp inside)]
    have high : ((List.range (64 * rest.length)).map (64 + ·)).countP (bitAt (word :: rest)) =
        population rest := by
      rw [List.countP_map, hypothesis]
      exact List.countP_congr fun position _ => by
        rw [Function.comp_apply, bitAt_cons_high]
    rw [positions, List.countP_append, low, high]
    exact List.sum_cons

end PackedBits

end AsapSketchlib
