/-
This file develops dense counts over the integers: a list holds the counts from an index on, and
every other index has the count zero. Zeros may be added on both sides, and a list of counts may
be laid over another that reaches further.
-/

import Mathlib.Algebra.BigOperators.Group.List.Basic
import Mathlib.Data.List.GetD

namespace AsapSketchlib

namespace Dense

variable {Count : Type}

/-! ### Counts by index -/

section Zero

variable [Zero Count]

def countAt (offset : ℤ) (counts : List Count) (index : ℤ) : Count :=
  if offset ≤ index then counts.getD (index - offset).toNat 0 else 0

theorem countAt_nil (offset index : ℤ) : countAt offset ([] : List Count) index = 0 := by
  rw [countAt, List.getD_nil, ite_self]

theorem countAt_prepend {start offset : ℤ} (before : start ≤ offset) (counts : List Count)
    (index : ℤ) :
    countAt start (List.replicate (offset - start).toNat 0 ++ counts) index =
      countAt offset counts index := by
  unfold countAt
  by_cases inside : offset ≤ index
  · rw [if_pos (Int.le_trans before inside), if_pos inside, List.getD_append_right]
    · rw [List.length_replicate]
      congr 1
      omega
    · rw [List.length_replicate]
      omega
  · rw [if_neg inside]
    split
    · rw [List.getD_append _ _ _ _ (by rw [List.length_replicate]; omega), List.getD_replicate]
      omega
    · rfl

theorem countAt_append (offset : ℤ) (counts : List Count) (more : ℕ) (index : ℤ) :
    countAt offset (counts ++ List.replicate more 0) index = countAt offset counts index := by
  unfold countAt
  split
  · by_cases inside : (index - offset).toNat < counts.length
    · exact List.getD_append _ _ _ _ inside
    · rw [List.getD_append_right _ _ _ _ (Nat.le_of_not_lt inside),
        List.getD_eq_default _ _ (Nat.le_of_not_lt inside)]
      by_cases new : (index - offset).toNat - counts.length < more
      · exact List.getD_replicate _ new
      · exact List.getD_eq_default _ _ (by rw [List.length_replicate]; exact Nat.le_of_not_lt new)
  · rfl

theorem countAt_replicate (offset : ℤ) (size : ℕ) (index : ℤ) :
    countAt offset (List.replicate size (0 : Count)) index = 0 :=
  (countAt_append offset [] size index).trans (countAt_nil offset index)

theorem countAt_modify {offset target : ℤ} {counts : List Count} (low : offset ≤ target)
    (high : target < offset + counts.length) (change : Count → Count) (index : ℤ) :
    countAt offset (counts.modify (target - offset).toNat change) index =
      if index = target then change (countAt offset counts index)
      else countAt offset counts index := by
  unfold countAt
  by_cases inside : offset ≤ index
  · rw [if_pos inside, if_pos inside, List.getD_eq_getElem?_getD, List.getElem?_modify,
      List.getD_eq_getElem?_getD]
    by_cases here : index = target
    · have bound : (index - offset).toNat < counts.length := by omega
      rw [if_pos here, ← here, List.getElem?_eq_getElem bound]
      simp only [if_true, Option.map_eq_map, Option.map_some, Option.getD_some]
    · have other : (target - offset).toNat ≠ (index - offset).toNat := by omega
      rw [if_neg here]
      simp only [other, if_false, Option.map_eq_map, Option.map_id']
  · have other : index ≠ target := by omega
    rw [if_neg inside, if_neg inside, if_neg other]

end Zero

/-! ### Laying counts over others -/

section Add

variable [AddCommMonoid Count]

/-- The counts of a list that begins at `index` are added to those of one that begins at
`start`. -/
def layOver (start : ℤ) : ℤ → List Count → List Count → List Count
  | _, [], merged => merged
  | index, count :: rest, merged =>
    layOver start (index + 1) rest (merged.modify (index - start).toNat (· + count))

@[simp] theorem length_layOver (start index : ℤ) (counts merged : List Count) :
    (layOver start index counts merged).length = merged.length := by
  induction counts generalizing index merged with
  | nil => rfl
  | cons count rest hypothesis =>
    rw [layOver, hypothesis, List.length_modify]

theorem countAt_cons (offset : ℤ) (count : Count) (rest : List Count) (index : ℤ) :
    countAt offset (count :: rest) index =
      (if index = offset then count else 0) + countAt (offset + 1) rest index := by
  unfold countAt
  by_cases here : index = offset
  · have behind : ¬offset + 1 ≤ index := by omega
    rw [here, if_pos (Int.le_refl offset), if_pos rfl, if_neg (here ▸ behind), add_zero,
      Int.sub_self]
    rfl
  · rw [if_neg here, zero_add]
    by_cases inside : offset ≤ index
    · have later : (index - offset).toNat = (index - (offset + 1)).toNat + 1 := by omega
      rw [if_pos inside, if_pos (by omega), later, List.getD_cons_succ]
    · rw [if_neg inside, if_neg (by omega)]

theorem countAt_layOver {start offset : ℤ} {counts merged : List Count} (low : start ≤ offset)
    (high : offset + counts.length ≤ start + merged.length) (index : ℤ) :
    countAt start (layOver start offset counts merged) index =
      countAt start merged index + countAt offset counts index := by
  induction counts generalizing offset merged with
  | nil => rw [layOver, countAt_nil, add_zero]
  | cons count rest hypothesis =>
    rw [List.length_cons] at high
    rw [layOver, hypothesis (by omega) (by rw [List.length_modify]; omega),
      countAt_modify low (by omega), countAt_cons]
    by_cases here : index = offset
    · rw [if_pos here, if_pos here, add_assoc]
    · rw [if_neg here, if_neg here, zero_add]

theorem sum_modify_add {counts : List Count} {place : ℕ} (inside : place < counts.length)
    (amount : Count) : (counts.modify place (· + amount)).sum = counts.sum + amount := by
  induction counts generalizing place with
  | nil => exact absurd inside (Nat.not_lt_zero place)
  | cons count rest hypothesis =>
    cases place with
    | zero => rw [List.modify_zero_cons, List.sum_cons, List.sum_cons, add_right_comm]
    | succ place =>
      rw [List.modify_succ_cons, List.sum_cons, List.sum_cons,
        hypothesis (Nat.lt_of_succ_lt_succ inside), add_assoc]

theorem sum_layOver {start offset : ℤ} {counts merged : List Count} (low : start ≤ offset)
    (high : offset + counts.length ≤ start + merged.length) :
    (layOver start offset counts merged).sum = merged.sum + counts.sum := by
  induction counts generalizing offset merged with
  | nil => exact (add_zero _).symm
  | cons count rest hypothesis =>
    rw [List.length_cons] at high
    rw [layOver, hypothesis (by omega) (by rw [List.length_modify]; omega),
      sum_modify_add (by omega), List.sum_cons, add_assoc]

end Add

end Dense

end AsapSketchlib
