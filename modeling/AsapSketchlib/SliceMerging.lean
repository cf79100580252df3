/-
This file shows that the two routines that work inside a slice are what they stand for: the merge of
two sorted runs is their stable merge, in whichever direction it runs, and halving a run moves its
survivors to the end without reading what was written before.
-/

import AsapSketchlib.SliceRuns
import Mathlib.Data.List.Sort

namespace AsapSketchlib

namespace Slice

variable {Value : Type}

/-! ### Merging by a comparison -/

section Merging

variable (totalCmp : Value → Value → Ordering)

/-- The loop that merges forwards: `buf` holds the first run. -/
def mergeForwardBy (buf : List Value) : ℕ → List Value → ℕ → ℕ → ℕ → List Value
  | 0, slice, i, _, k => copyInto slice k (buf.drop i)
  | rounds + 1, slice, i, j, k =>
    match buf[i]?, slice[j]? with
    | some left, some right =>
      if (totalCmp left right).isLE then
        mergeForwardBy buf rounds (slice.set k left) (i + 1) j (k + 1)
      else mergeForwardBy buf rounds (slice.set k right) i (j + 1) (k + 1)
    | _, _ => copyInto slice k (buf.drop i)

/-- The loop that merges backwards: `buf` holds the second run. -/
def mergeBackwardBy (buf : List Value) : ℕ → List Value → ℕ → ℕ → ℕ → List Value
  | 0, slice, _, j, _ => copyInto slice 0 (buf.take j)
  | rounds + 1, slice, i, j, k =>
    if 0 < i ∧ 0 < j then
      match buf[j - 1]?, slice[i - 1]? with
      | some right, some left =>
        if (totalCmp right left).isGE then
          mergeBackwardBy buf rounds (slice.set (k - 1) right) i (j - 1) (k - 1)
        else mergeBackwardBy buf rounds (slice.set (k - 1) left) (i - 1) j (k - 1)
      | _, _ => slice
    else copyInto slice 0 (buf.take j)

/-- `merge_sorted_runs`, by the `total_cmp` of the values. -/
def mergeSortedRunsBy (slice : List Value) (leftLen : ℕ) : List Value :=
  let total := slice.length
  if leftLen = 0 ∨ total ≤ leftLen then slice
  else
    match slice[leftLen - 1]?, slice[leftLen]? with
    | some last, some first =>
      if (totalCmp last first).isLE then slice
      else if leftLen ≤ total - leftLen then
        mergeForwardBy totalCmp (slice.take leftLen) total slice 0 leftLen 0
      else mergeBackwardBy totalCmp (slice.drop leftLen) total slice leftLen (total - leftLen) total
    | _, _ => slice

/-- The stable merge, which takes from the first run where values compare equal. -/
def stableMerge (left right : List Value) : List Value :=
  left.merge right fun first second => (totalCmp first second).isLE

def Sorted (run : List Value) : Prop :=
  run.Pairwise fun first second => (totalCmp first second).isLE

end Merging

/-! ### Values in a linear order -/

section LinearOrder

variable [LinearOrder Value]

theorem isLE_compare (left right : Value) : (compare left right).isLE = true ↔ left ≤ right := by
  rw [Ordering.isLE_iff_ne_gt]
  exact compare_le_iff_le

theorem isGE_compare (left right : Value) : (compare right left).isGE = true ↔ left ≤ right := by
  rw [Ordering.isGE_iff_ne_lt]
  exact compare_ge_iff_ge

section

variable (buf : List Value) (rounds : ℕ) (slice : List Value) (i j k : ℕ)

theorem mergeForwardBy_compare :
    mergeForwardBy compare buf rounds slice i j k = mergeForward buf rounds slice i j k := by
  induction rounds generalizing slice i j k with
  | zero => rfl
  | succ rounds hypothesis =>
    rw [mergeForwardBy, mergeForward]
    cases buf[i]? with
    | none => rfl
    | some left =>
      cases slice[j]? with
      | none => rfl
      | some right => simp only [isLE_compare, hypothesis]

theorem mergeBackwardBy_compare :
    mergeBackwardBy compare buf rounds slice i j k = mergeBackward buf rounds slice i j k := by
  induction rounds generalizing slice i j k with
  | zero => rfl
  | succ rounds hypothesis =>
    rw [mergeBackwardBy, mergeBackward]
    cases buf[j - 1]? with
    | none => rfl
    | some right =>
      cases slice[i - 1]? with
      | none => rfl
      | some left => simp only [isGE_compare, hypothesis]

end

theorem mergeSortedRunsBy_compare (slice : List Value) (leftLen : ℕ) :
    mergeSortedRunsBy compare slice leftLen = mergeSortedRuns slice leftLen := by
  unfold mergeSortedRunsBy mergeSortedRuns
  dsimp only
  by_cases oneRun : leftLen = 0 ∨ slice.length ≤ leftLen
  · rw [if_pos oneRun, if_pos oneRun]
  · rw [if_neg oneRun, if_neg oneRun]
    cases slice[leftLen - 1]? with
    | none => rfl
    | some last =>
      cases slice[leftLen]? with
      | none => rfl
      | some first => simp only [isLE_compare, mergeForwardBy_compare, mergeBackwardBy_compare]

end LinearOrder

/-! ### Both directions give the stable merge -/

theorem copyInto_eq {slice run : List Value} {start : ℕ}
    (fits : start + run.length ≤ slice.length) :
    copyInto slice start run = slice.take start ++ (run ++ slice.drop (start + run.length)) := by
  refine List.ext_getElem? fun place => ?_
  unfold copyInto
  rw [List.getElem?_mapIdx]
  by_cases before : place < start
  · have inside : place < (slice.take start).length := by
      rw [List.length_take]
      omega
    rw [List.getElem?_append_left inside, List.getElem?_take_of_lt before]
    simp only [if_pos before, Option.map_id']
  have length : (slice.take start).length = start := by
    rw [List.length_take]
    omega
  rw [List.getElem?_append_right (by omega), length]
  simp only [if_neg before]
  by_cases written : place - start < run.length
  · rw [List.getElem?_append_left written, List.getElem?_eq_getElem written,
      List.getElem?_eq_getElem (by omega)]
    rfl
  · rw [List.getElem?_append_right (by omega), List.getElem?_eq_none (by omega),
      List.getElem?_drop, show start + run.length + (place - start - run.length) = place by omega]
    exact Option.map_id'

section Stable

variable {totalCmp : Value → Value → Ordering}

theorem stableMerge_nil_left (run : List Value) : stableMerge totalCmp [] run = run :=
  List.nil_merge run

theorem stableMerge_nil_right (run : List Value) : stableMerge totalCmp run [] = run :=
  List.merge_right run

theorem copyInto_stableMerge {buf slice : List Value} {i j k : ℕ}
    (gap : k + (buf.length - i) = j) (inside : j ≤ slice.length)
    (done : buf[i]? = none ∨ slice[j]? = none) :
    copyInto slice k (buf.drop i) =
      slice.take k ++ stableMerge totalCmp (buf.drop i) (slice.drop j) := by
  have reach : k + (buf.drop i).length = j := by rw [List.length_drop, gap]
  rw [copyInto_eq (reach.trans_le inside), reach]
  refine congrArg (slice.take k ++ ·) ?_
  rcases done with first | second
  · rw [List.drop_eq_nil_of_le (List.getElem?_eq_none_iff.mp first), stableMerge_nil_left]
    rfl
  · rw [List.drop_eq_nil_of_le (List.getElem?_eq_none_iff.mp second), stableMerge_nil_right,
      List.append_nil]

/-- Forwards, the slice begins with what is merged, and then has room for what is left of the first
run before what is left of the second. -/
theorem mergeForwardBy_eq {buf : List Value} {rounds : ℕ} {slice : List Value} {i j k : ℕ}
    (gap : k + (buf.length - i) = j) (inside : j ≤ slice.length)
    (enough : buf.length - i + (slice.length - j) ≤ rounds) :
    mergeForwardBy totalCmp buf rounds slice i j k =
      slice.take k ++ stableMerge totalCmp (buf.drop i) (slice.drop j) := by
  induction rounds generalizing slice i j k with
  | zero =>
    refine copyInto_stableMerge gap inside (.inl (List.getElem?_eq_none ?_))
    omega
  | succ rounds hypothesis =>
    rw [mergeForwardBy]
    cases first : buf[i]? with
    | none => exact copyInto_stableMerge gap inside (.inl first)
    | some left =>
      cases second : slice[j]? with
      | none => exact copyInto_stableMerge gap inside (.inr second)
      | some right =>
        obtain ⟨leftInside, rfl⟩ := List.getElem?_eq_some_iff.mp first
        obtain ⟨rightInside, rfl⟩ := List.getElem?_eq_some_iff.mp second
        simp only
        rw [List.drop_eq_getElem_cons leftInside, List.drop_eq_getElem_cons rightInside]
        unfold stableMerge
        rw [List.cons_merge_cons]
        split
        · rw [hypothesis (by omega) (by rwa [List.length_set])
            (by rw [List.length_set]; omega), List.drop_set_of_lt (by omega),
            List.drop_eq_getElem_cons rightInside, List.take_add_one,
            List.take_set_of_le (le_refl k), List.getElem?_set_self (by omega), List.append_assoc]
          rfl
        · rw [hypothesis (by omega) (by rw [List.length_set]; omega)
            (by rw [List.length_set]; omega), List.drop_set_of_lt (by omega),
            List.drop_eq_getElem_cons leftInside, List.take_add_one,
            List.take_set_of_le (le_refl k), List.getElem?_set_self (by omega), List.append_assoc]
          rfl

theorem stableMerge_concat_right {left right : List Value} {last : Value}
    (above : ∀ value ∈ left, (totalCmp value last).isLE) :
    stableMerge totalCmp left (right ++ [last]) = stableMerge totalCmp left right ++ [last] := by
  induction left generalizing right with
  | nil => rw [stableMerge_nil_left, stableMerge_nil_left]
  | cons first rest leftHypothesis =>
    have later := fun right => @leftHypothesis right fun value member =>
      above value (List.mem_cons_of_mem first member)
    induction right with
    | nil =>
      have firstAbove := above first List.mem_cons_self
      have restMerged := later []
      rw [stableMerge_nil_right] at restMerged ⊢
      unfold stableMerge at restMerged ⊢
      rw [List.nil_append] at restMerged ⊢
      rw [List.cons_merge_cons, if_pos firstAbove, restMerged]
      rfl
    | cons value others rightHypothesis =>
      have restMerged := later (value :: others)
      unfold stableMerge at rightHypothesis restMerged ⊢
      rw [List.cons_append] at restMerged ⊢
      rw [List.cons_merge_cons, List.cons_merge_cons]
      split
      · rw [restMerged]
        rfl
      · rw [rightHypothesis]
        rfl

theorem stableMerge_concat_left {left right : List Value} {last : Value}
    (above : ∀ value ∈ right, ¬(totalCmp last value).isLE) :
    stableMerge totalCmp (left ++ [last]) right = stableMerge totalCmp left right ++ [last] := by
  induction left generalizing right with
  | nil =>
    rw [stableMerge_nil_left, List.nil_append]
    induction right with
    | nil => exact stableMerge_nil_right [last]
    | cons value others hypothesis =>
      have rest := hypothesis fun value member =>
        above value (List.mem_cons_of_mem _ member)
      unfold stableMerge at rest ⊢
      rw [List.cons_merge_cons, if_neg (above value List.mem_cons_self), rest]
      rfl
  | cons first rest leftHypothesis =>
    induction right with
    | nil => rw [stableMerge_nil_right, stableMerge_nil_right]
    | cons value others rightHypothesis =>
      have restMerged := leftHypothesis above
      have othersMerged := rightHypothesis fun value member =>
        above value (List.mem_cons_of_mem _ member)
      unfold stableMerge at restMerged othersMerged ⊢
      rw [List.cons_append] at othersMerged ⊢
      rw [List.cons_merge_cons, List.cons_merge_cons]
      split
      · rw [restMerged]
        rfl
      · rw [othersMerged]
        rfl

theorem isGE_iff [Std.TransCmp totalCmp] (left right : Value) :
    (totalCmp right left).isGE = true ↔ (totalCmp left right).isLE = true := by
  rw [@Std.OrientedCmp.eq_swap _ totalCmp, Ordering.isGE_swap]

theorem Sorted.concat [Std.TransCmp totalCmp] {run : List Value} {last : Value}
    (sorted : Sorted totalCmp (run ++ [last])) :
    Sorted totalCmp run ∧ ∀ value ∈ run ++ [last], (totalCmp value last).isLE := by
  obtain ⟨runSorted, -, ordered⟩ := List.pairwise_append.mp sorted
  refine ⟨runSorted, fun value member => ?_⟩
  rcases List.mem_append.mp member with before | here
  · exact ordered value before last List.mem_cons_self
  · rw [List.mem_singleton.mp here]
    exact Std.ReflCmp.isLE_rfl

theorem copyInto_stableMerge_front {buf slice : List Value} {i j k : ℕ} (reach : i + j = k)
    (inside : k ≤ slice.length) (bufInside : j ≤ buf.length) (done : i = 0 ∨ j = 0) :
    copyInto slice 0 (buf.take j) =
      stableMerge totalCmp (slice.take i) (buf.take j) ++ slice.drop k := by
  have length : (buf.take j).length = j := List.length_take_of_le bufInside
  rw [copyInto_eq (by omega), length]
  rcases done with rfl | rfl
  · rw [List.take_zero, stableMerge_nil_left, ← reach]
    rfl
  · rw [List.take_zero, List.take_zero, stableMerge_nil_right, ← reach]
    exact (List.take_append_drop i slice).symm

theorem drop_set_pred {slice : List Value} {k : ℕ} (positive : 0 < k) (inside : k ≤ slice.length)
    (value : Value) : (slice.set (k - 1) value).drop (k - 1) = value :: slice.drop k := by
  obtain ⟨k, rfl⟩ := Nat.exists_eq_succ_of_ne_zero positive.ne'
  have place : k < (slice.set k value).length := by rwa [List.length_set]
  rw [Nat.succ_sub_one, List.drop_eq_getElem_cons place, List.getElem_set_self,
    List.drop_set_of_lt (Nat.lt_succ_self k)]

/-- Backwards, what is left of both runs is still to be merged in front of what is merged. -/
theorem mergeBackwardBy_eq [Std.TransCmp totalCmp] {buf : List Value} {rounds : ℕ}
    {slice : List Value} {i j k : ℕ} (reach : i + j = k) (inside : k ≤ slice.length)
    (bufInside : j ≤ buf.length) (enough : i + j ≤ rounds)
    (leftSorted : Sorted totalCmp (slice.take i)) (rightSorted : Sorted totalCmp (buf.take j)) :
    mergeBackwardBy totalCmp buf rounds slice i j k =
      stableMerge totalCmp (slice.take i) (buf.take j) ++ slice.drop k := by
  induction rounds generalizing slice i j k with
  | zero => exact copyInto_stableMerge_front reach inside bufInside (.inl (by omega))
  | succ rounds hypothesis =>
    rw [mergeBackwardBy]
    split
    next some =>
      obtain ⟨i, rfl⟩ := Nat.exists_eq_succ_of_ne_zero some.1.ne'
      obtain ⟨j, rfl⟩ := Nat.exists_eq_succ_of_ne_zero some.2.ne'
      have leftInside : i < slice.length := by omega
      have rightInside : j < buf.length := by omega
      have leftRun : slice.take i.succ = slice.take i ++ [slice[i]] :=
        List.take_succ_eq_append_getElem leftInside
      have rightRun : buf.take j.succ = buf.take j ++ [buf[j]] :=
        List.take_succ_eq_append_getElem rightInside
      obtain ⟨restLeft, leftBelow⟩ := Sorted.concat (leftRun ▸ leftSorted)
      obtain ⟨restRight, rightBelow⟩ := Sorted.concat (rightRun ▸ rightSorted)
      rw [Nat.succ_sub_one, Nat.succ_sub_one, List.getElem?_eq_getElem leftInside,
        List.getElem?_eq_getElem rightInside]
      simp only [isGE_iff]
      split
      next below =>
        have kept : (slice.set (k - 1) buf[j]).take i.succ = slice.take i.succ :=
          List.take_set_of_le (by omega)
        rw [hypothesis (by omega) (by rw [List.length_set]; omega) (by omega) (by omega)
          (by rwa [kept]) restRight, kept, drop_set_pred (by omega) inside, rightRun,
          stableMerge_concat_right, List.append_assoc]
        · rfl
        · intro value member
          exact Std.TransCmp.isLE_trans (leftBelow value (leftRun ▸ member)) below
      next above =>
        have kept : (slice.set (k - 1) slice[i]).take i = slice.take i :=
          List.take_set_of_le (by omega)
        rw [hypothesis (by omega) (by rw [List.length_set]; omega) bufInside (by omega)
          (by rwa [kept]) rightSorted, kept, drop_set_pred (by omega) inside, leftRun,
          stableMerge_concat_left, List.append_assoc]
        · rfl
        · intro value member below
          exact above (Std.TransCmp.isLE_trans below (rightBelow value (rightRun ▸ member)))
    next none => exact copyInto_stableMerge_front reach inside bufInside (by omega)

/-- Two sorted runs are merged stably, whichever of them is the shorter. -/
theorem mergeSortedRunsBy_eq [Std.TransCmp totalCmp] {slice : List Value} {leftLen : ℕ}
    (leftSorted : Sorted totalCmp (slice.take leftLen))
    (rightSorted : Sorted totalCmp (slice.drop leftLen)) :
    mergeSortedRunsBy totalCmp slice leftLen =
      stableMerge totalCmp (slice.take leftLen) (slice.drop leftLen) := by
  unfold mergeSortedRunsBy
  simp only
  split
  next whole =>
    rcases whole with rfl | short
    · exact (stableMerge_nil_left slice).symm
    · rw [List.take_of_length_le short, List.drop_eq_nil_of_le short, stableMerge_nil_right]
  next parted =>
    obtain ⟨leftSome, rightSome⟩ := not_or.mp parted
    obtain ⟨last, rfl⟩ := Nat.exists_eq_succ_of_ne_zero leftSome
    have lastInside : last < slice.length := by omega
    have firstInside : last + 1 < slice.length := by omega
    rw [Nat.succ_sub_one, List.getElem?_eq_getElem lastInside,
      List.getElem?_eq_getElem firstInside]
    simp only
    split
    next ordered =>
      refine (List.take_append_drop (last + 1) slice).symm.trans (List.merge_of_le ?_).symm
      intro left right leftMember rightMember
      rw [Nat.succ_eq_add_one] at leftSorted rightSorted
      rw [List.take_succ_eq_append_getElem lastInside] at leftSorted leftMember
      rw [List.drop_eq_getElem_cons firstInside] at rightSorted rightMember
      have toLast := leftSorted.concat.2 left leftMember
      have fromFirst : (totalCmp slice[last + 1] right).isLE := by
        rcases List.mem_cons.mp rightMember with rfl | later
        · exact Std.ReflCmp.isLE_rfl
        · exact (List.pairwise_cons.mp rightSorted).1 right later
      exact Std.TransCmp.isLE_trans toLast (Std.TransCmp.isLE_trans ordered fromFirst)
    next =>
      split
      next =>
        have length : (slice.take (last + 1)).length = last + 1 := List.length_take_of_le (by omega)
        rw [mergeForwardBy_eq (by rw [length]; omega) (by omega) (by rw [length]; omega)]
        rfl
      next =>
        have length : (slice.drop (last + 1)).length = slice.length - (last + 1) :=
          List.length_drop
        have whole : (slice.drop (last + 1)).take (slice.length - (last + 1)) =
            slice.drop (last + 1) := List.take_of_length_le length.le
        rw [mergeBackwardBy_eq (by omega) le_rfl length.ge (by omega) leftSorted
          (by rwa [whole]), whole, List.drop_length, List.append_nil]

end Stable

/-! ### Halving reads what it has not written -/

/-- What halving a run does to a slice. The survivors stand at the end of the run in their order,
nothing else has changed, and before every round the slice still has the value that is read. -/
structure Halved (slice moved : List Value) (start pop offset : ℕ) : Prop where
  exhaustive : ∀ d, d < survivors pop offset ↔ offset + 2 * d < pop
  survivor : ∀ d < survivors pop offset,
    moved[start + pop - survivors pop offset + d]? = slice[start + offset + 2 * d]?
  kept : ∀ place, place < start + pop - survivors pop offset ∨ start + pop ≤ place →
    moved[place]? = slice[place]?
  unread : ∀ d < survivors pop offset, ∃ before,
    ((List.range (survivors pop offset)).drop (d + 1)).reverse.foldlM
      (fun slice d => moveUp slice (start + offset + 2 * d)
        (start + pop - survivors pop offset + d)) slice = some before ∧
      before[start + offset + 2 * d]? = slice[start + offset + 2 * d]?

theorem moveUp_eq {slice : List Value} {source dest : ℕ} (sourceInside : source < slice.length)
    (destInside : dest < slice.length) :
    moveUp slice source dest = some (slice.set dest slice[source]) := by
  unfold moveUp
  rw [List.getElem?_eq_getElem sourceInside]
  exact write_eq destInside _

/-- The rounds from the last survivor down to some place. -/
theorem halve_rounds {slice : List Value} {source dest first : ℕ} {count : ℕ}
    (sources : ∀ d, first ≤ d → d < first + count → source + 2 * d < slice.length)
    (dests : dest + first + count ≤ slice.length)
    (apart : ∀ d, first ≤ d → d < first + count → source + 2 * d ≤ dest + d) :
    ∃ moved, ((List.range' first count).reverse).foldlM
        (fun slice d => moveUp slice (source + 2 * d) (dest + d)) slice = some moved ∧
      (∀ d, first ≤ d → d < first + count → moved[dest + d]? = slice[source + 2 * d]?) ∧
      ∀ place, place < dest + first ∨ dest + first + count ≤ place →
        moved[place]? = slice[place]? := by
  induction count generalizing first with
  | zero =>
    exact ⟨slice, rfl, fun d above below => absurd (above.trans_lt below) (lt_irrefl first),
      fun place outside => rfl⟩
  | succ count hypothesis =>
    obtain ⟨before, ran, placed, kept⟩ := @hypothesis (first + 1)
      (fun d above below => sources d (by omega) (by omega)) (by omega)
      (fun d above below => apart d (by omega) (by omega))
    have sourceInside := sources first le_rfl (by omega)
    have unread : before[source + 2 * first]? = slice[source + 2 * first]? :=
      kept _ (.inl (by have := apart first le_rfl (by omega); omega))
    obtain ⟨sourceBefore, same⟩ := List.getElem?_eq_some_iff.mp
      (unread.trans (List.getElem?_eq_getElem sourceInside))
    have destBefore : dest + first < before.length := by
      by_contra outside
      have gone := List.getElem?_eq_none (not_lt.mp outside)
      rw [kept _ (.inl (by omega)), List.getElem?_eq_none_iff] at gone
      omega
    refine ⟨before.set (dest + first) before[source + 2 * first], ?_, fun d above below => ?_,
      fun place outside => ?_⟩
    · rw [List.range'_succ, List.reverse_cons, List.foldlM_append, ran, Option.bind_eq_bind,
        Option.bind_some, List.foldlM_cons, moveUp_eq sourceBefore destBefore]
      rfl
    · rcases above.eq_or_lt with rfl | later
      · rw [List.getElem?_set_self destBefore, same, List.getElem?_eq_getElem sourceInside]
      · rw [List.getElem?_set_ne (by omega), placed d later (by omega)]
    · rw [List.getElem?_set_ne (by omega), kept place (by omega)]

theorem halved_of_inside {slice : List Value} {start pop offset : ℕ} (few : offset ≤ pop)
    (inside : start + pop ≤ slice.length) :
    ∃ moved, randomlyHalveUp slice start pop offset = some (moved, survivors pop offset) ∧
      Halved slice moved start pop offset := by
  have bound : 2 * survivors pop offset ≤ pop - offset + 1 := by
    unfold survivors
    omega
  have rounds : ∀ first count, first + count = survivors pop offset →
      ∃ moved, ((List.range' first count).reverse).foldlM (fun slice d =>
          moveUp slice (start + offset + 2 * d) (start + pop - survivors pop offset + d)) slice =
          some moved ∧
        (∀ d, first ≤ d → d < first + count →
          moved[start + pop - survivors pop offset + d]? = slice[start + offset + 2 * d]?) ∧
        ∀ place, place < start + pop - survivors pop offset + first ∨
          start + pop - survivors pop offset + first + count ≤ place →
          moved[place]? = slice[place]? := fun first count whole =>
    halve_rounds (fun d above below => by omega) (by omega) (fun d above below => by omega)
  obtain ⟨moved, ran, placed, kept⟩ := rounds 0 (survivors pop offset) (Nat.zero_add _)
  refine ⟨moved, ?_, fun d => ?_, fun d below => placed d (Nat.zero_le d) (by omega),
    fun place outside => kept place (by omega), fun d below => ?_⟩
  · unfold randomlyHalveUp
    simp only [minus_of_le few, Option.bind_eq_bind, Option.bind_some]
    rw [show (pop - offset + 1) / 2 = survivors pop offset from rfl, minus_of_le (by omega),
      List.range_eq_range', Option.bind_some, ran]
    rfl
  · unfold survivors
    omega
  · obtain ⟨before, beforeRan, -, beforeKept⟩ := rounds (d + 1) (survivors pop offset - (d + 1))
      (by omega)
    refine ⟨before, ?_, beforeKept _ (.inl (by omega))⟩
    rw [List.range_eq_range', List.drop_range', Nat.mul_one, Nat.zero_add]
    exact beforeRan

/-! ### The result -/

/-- Two runs that are each sorted are merged into the stable merge of both, a sorted permutation of
the slice; and a run inside of a slice is halved in its place. -/
theorem runs_in_place (totalCmp : Value → Value → Ordering) [Std.TransCmp totalCmp] :
    (∀ (slice : List Value) (leftLen : ℕ), Sorted totalCmp (slice.take leftLen) →
      Sorted totalCmp (slice.drop leftLen) →
      mergeSortedRunsBy totalCmp slice leftLen =
          stableMerge totalCmp (slice.take leftLen) (slice.drop leftLen) ∧
        (mergeSortedRunsBy totalCmp slice leftLen).Perm slice ∧
        Sorted totalCmp (mergeSortedRunsBy totalCmp slice leftLen)) ∧
    ∀ (slice : List Value) (start pop offset : ℕ), offset ≤ pop → start + pop ≤ slice.length →
      ∃ moved, randomlyHalveUp slice start pop offset = some (moved, survivors pop offset) ∧
        Halved slice moved start pop offset := by
  refine ⟨fun slice leftLen leftSorted rightSorted => ?_, fun slice start pop offset =>
    halved_of_inside⟩
  have merged := mergeSortedRunsBy_eq leftSorted rightSorted
  refine ⟨merged, ?_, ?_⟩
  · rw [merged]
    exact (List.merge_perm_append _).trans (List.Perm.of_eq (List.take_append_drop leftLen slice))
  · rw [merged]
    refine List.pairwise_merge (fun first second third before after => ?_)
      (fun first second => ?_) _ _ leftSorted rightSorted
    · exact Std.TransCmp.isLE_trans before after
    · rw [Bool.or_eq_true, ← isGE_iff second first]
      cases totalCmp first second
      · exact .inl rfl
      · exact .inl rfl
      · exact .inr rfl

/-- Numbers that are merged backwards, and a run of five that is halved. -/
theorem runs_in_place_numbers :
    stableMerge compare [2, 4, 7] [3] = [2, 3, 4, 7] ∧
      ∃ moved, randomlyHalveUp [9, 1, 2, 3, 4, 5, 8] 1 5 1 = some (moved, 2) ∧
        Halved [9, 1, 2, 3, 4, 5, 8] moved 1 5 1 := by
  have both := runs_in_place (compare : ℕ → ℕ → Ordering)
  refine ⟨?_, both.2 _ 1 5 1 (by decide) (by decide)⟩
  have merged := both.1 [2, 4, 7, 3] 3 (by unfold Sorted; decide) (by unfold Sorted; decide)
  exact merged.1.symm.trans (by decide)

end Slice

end AsapSketchlib
