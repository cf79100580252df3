/-
This file develops the median of a list of values from a linear order: by sorting, and by
the comparison networks used for lists of at most five values.

A value that splits the others into equally many below and above is the middle of the
sorted list. Each network is read as producing such a split: it discards one value below and
one above at a time.
-/

import Mathlib.Data.List.Sort
import Mathlib.Order.MinMax

namespace AsapSketchlib

namespace Median

variable {Value : Type} [LinearOrder Value]

/-! ### The middle of a sorted list -/

/-- The middle of the sorted values, the mean of the two middle ones where their number is even,
and `zero` for no values. -/
def sortMedian (mean : Value → Value → Value) (zero : Value) (values : List Value) : Value :=
  if values = [] then zero
  else
    let ordered := values.mergeSort
    let mid := values.length / 2
    if values.length % 2 = 1 then ordered.getD mid zero
    else mean (ordered.getD (mid - 1) zero) (ordered.getD mid zero)

omit [LinearOrder Value] in
theorem getD_append {front : List Value} {place : ℕ} (whole : front.length = place)
    (rest : List Value) (offset : ℕ) (zero : Value) :
    (front ++ rest).getD (place + offset) zero = rest.getD offset zero := by
  rw [← whole, List.getD_eq_getElem?_getD, List.getElem?_append_right (Nat.le_add_right _ _),
    Nat.add_sub_cancel_left, List.getD_eq_getElem?_getD]

theorem mergeSort_of_split {values below middle above : List Value}
    (perm : values.Perm (below ++ (middle ++ above))) (ordered : middle.Pairwise (· ≤ ·))
    (lower : ∀ low ∈ below, ∀ mid ∈ middle, low ≤ mid)
    (upper : ∀ mid ∈ middle, ∀ high ∈ above, mid ≤ high)
    (apart : ∀ low ∈ below, ∀ high ∈ above, low ≤ high) :
    values.mergeSort = below.mergeSort ++ (middle ++ above.mergeSort) := by
  have shuffled : values.mergeSort.Perm (below.mergeSort ++ (middle ++ above.mergeSort)) := by
    refine (List.mergeSort_perm _ _).trans (perm.trans ?_)
    refine ((List.mergeSort_perm below _).symm.append ?_)
    exact (List.mergeSort_perm above _).symm.append_left middle
  refine shuffled.eq_of_pairwise' (List.pairwise_mergeSort' (· ≤ ·) values) ?_
  refine List.pairwise_append.mpr ⟨List.pairwise_mergeSort' (· ≤ ·) below, ?_, ?_⟩
  · refine List.pairwise_append.mpr ⟨ordered, List.pairwise_mergeSort' (· ≤ ·) above, ?_⟩
    intro mid midMember high highMember
    exact upper mid midMember high (List.mem_mergeSort.mp highMember)
  · intro low lowMember other otherMember
    rcases List.mem_append.mp otherMember with inMiddle | inAbove
    · exact lower low (List.mem_mergeSort.mp lowMember) other inMiddle
    · exact apart low (List.mem_mergeSort.mp lowMember) other (List.mem_mergeSort.mp inAbove)

variable (mean : Value → Value → Value) (zero : Value)

theorem sortMedian_of_split {values below above : List Value} {middle : Value}
    (perm : values.Perm (below ++ middle :: above)) (balanced : below.length = above.length)
    (lower : ∀ low ∈ below, low ≤ middle) (upper : ∀ high ∈ above, middle ≤ high) :
    sortMedian mean zero values = middle := by
  have sorted := mergeSort_of_split perm (List.pairwise_singleton _ _)
    (fun low member mid same => List.mem_singleton.mp same ▸ lower low member)
    (fun mid same high member => (List.mem_singleton.mp same).symm ▸ upper high member)
    (fun low lowMember high highMember => (lower low lowMember).trans (upper high highMember))
  have length : values.length = 2 * below.length + 1 := by
    rw [perm.length_eq, List.length_append, List.length_cons, ← balanced]
    omega
  have nonempty : values ≠ [] := List.ne_nil_of_length_pos (by omega)
  have half : values.length / 2 = below.length := by omega
  unfold sortMedian
  rw [if_neg nonempty]
  simp only
  rw [if_pos (by omega), half, sorted]
  exact getD_append (List.length_mergeSort below) _ 0 zero

theorem sortMedian_of_split_two {values below above : List Value} {first second : Value}
    (perm : values.Perm (below ++ first :: second :: above)) (ordered : first ≤ second)
    (balanced : below.length = above.length) (lower : ∀ low ∈ below, low ≤ first)
    (upper : ∀ high ∈ above, second ≤ high) :
    sortMedian mean zero values = mean first second := by
  have sorted := mergeSort_of_split perm
    (List.pairwise_pair.mpr ordered)
    (by
      intro low member mid inPair
      rcases List.mem_pair.mp inPair with rfl | rfl
      · exact lower low member
      · exact (lower low member).trans ordered)
    (by
      intro mid inPair high member
      rcases List.mem_pair.mp inPair with rfl | rfl
      · exact ordered.trans (upper high member)
      · exact upper high member)
    (fun low lowMember high highMember =>
      (lower low lowMember).trans (ordered.trans (upper high highMember)))
  have length : values.length = 2 * below.length + 2 := by
    rw [perm.length_eq, List.length_append, List.length_cons, List.length_cons, ← balanced]
    omega
  have nonempty : values ≠ [] := List.ne_nil_of_length_pos (by omega)
  have half : values.length / 2 = below.length + 1 := by omega
  unfold sortMedian
  rw [if_neg nonempty]
  simp only
  rw [if_neg (by omega), half, sorted, Nat.add_sub_cancel,
    getD_append (List.length_mergeSort below) _ 1 zero]
  exact congrArg (mean · second) (getD_append (List.length_mergeSort below) _ 0 zero)

theorem sortMedian_replicate {value : Value} (idempotent : mean value value = value) {count : ℕ}
    (positive : 0 < count) : sortMedian mean zero (List.replicate count value) = value := by
  have sorted : (List.replicate count value).mergeSort = List.replicate count value :=
    List.mergeSort_eq_self (· ≤ ·) (List.pairwise_replicate.mpr (Or.inr le_rfl))
  have nonempty : List.replicate count value ≠ [] := by
    rw [Ne, List.replicate_eq_nil_iff]
    exact Nat.ne_of_gt positive
  have read : ∀ place, place < count → (List.replicate count value).getD place zero = value := by
    intro place inside
    rw [List.getD_eq_getElem?_getD, List.getElem?_replicate, if_pos inside, Option.getD_some]
  unfold sortMedian
  rw [if_neg nonempty]
  simp only
  rw [sorted, List.length_replicate, read _ (by omega), read _ (by omega), idempotent, ite_self]

theorem le_sortMedian {values : List Value} {bound : Value} (nonempty : values ≠ [])
    (each : ∀ value ∈ values, bound ≤ value)
    (means : ∀ left ∈ values, ∀ right ∈ values, bound ≤ mean left right) :
    bound ≤ sortMedian mean zero values := by
  have length := List.length_pos_of_ne_nil nonempty
  have member : ∀ place, place < values.length → values.mergeSort.getD place zero ∈ values := by
    intro place inside
    have within : place < values.mergeSort.length := by rwa [List.length_mergeSort]
    rw [List.getD_eq_getElem?_getD, List.getElem?_eq_getElem within, Option.getD_some]
    exact List.mem_mergeSort.mp (List.getElem_mem within)
  unfold sortMedian
  rw [if_neg nonempty]
  simp only
  split
  · exact each _ (member _ (by omega))
  · exact means _ (member _ (by omega)) _ (member _ (by omega))

/-! ### The networks -/

def middleOfThree (v0 v1 v2 : Value) : Value :=
  let (v0, v1) := if v0 > v1 then (v1, v0) else (v0, v1)
  let v1 := if v1 > v2 then v2 else v1
  if v0 > v1 then v0 else v1

def middleOfFour (v0 v1 v2 v3 : Value) : Value :=
  let (v0, v1) := if v0 > v1 then (v1, v0) else (v0, v1)
  let (v2, v3) := if v2 > v3 then (v3, v2) else (v2, v3)
  let v2 := if v0 > v2 then v0 else v2
  let v1 := if v1 > v3 then v3 else v1
  mean v1 v2

/-- The network for five values, whose last three steps are those for three. -/
def middleOfFive (v0 v1 v2 v3 v4 : Value) : Value :=
  let (v0, v1) := if v0 > v1 then (v1, v0) else (v0, v1)
  let (v3, v4) := if v3 > v4 then (v4, v3) else (v3, v4)
  let v3 := if v0 > v3 then v0 else v3
  let v1 := if v1 > v4 then v4 else v1
  middleOfThree v1 v2 v3

/-- `compute_median_inline_f64`. -/
def computeMedianInline : List Value → Value
  | [] => zero
  | [v0] => v0
  | [v0, v1] => mean v0 v1
  | [v0, v1, v2] => middleOfThree v0 v1 v2
  | [v0, v1, v2, v3] => middleOfFour mean v0 v1 v2 v3
  | [v0, v1, v2, v3, v4] => middleOfFive v0 v1 v2 v3 v4
  | values =>
    let ordered := values.mergeSort
    let mid := values.length / 2
    if values.length % 2 = 1 then ordered.getD mid zero
    else mean (ordered.getD (mid - 1) zero) (ordered.getD mid zero)

/-! ### The networks as exchanges -/

theorem exchange_eq (left right : Value) :
    (if left > right then (right, left) else (left, right)) = (min left right, max left right) := by
  by_cases swapped : left > right
  · rw [if_pos swapped, min_eq_right swapped.le, max_eq_left swapped.le]
  · rw [if_neg swapped, min_eq_left (not_lt.mp swapped), max_eq_right (not_lt.mp swapped)]

theorem keepSmaller_eq (left right : Value) :
    (if left > right then right else left) = min left right := by
  by_cases swapped : left > right
  · rw [if_pos swapped, min_eq_right swapped.le]
  · rw [if_neg swapped, min_eq_left (not_lt.mp swapped)]

theorem keepLarger_eq (left right : Value) :
    (if left > right then left else right) = max left right := by
  by_cases swapped : left > right
  · rw [if_pos swapped, max_eq_left swapped.le]
  · rw [if_neg swapped, max_eq_right (not_lt.mp swapped)]

theorem middleOfThree_eq (v0 v1 v2 : Value) :
    middleOfThree v0 v1 v2 = max (min v0 v1) (min (max v0 v1) v2) := by
  simp only [middleOfThree, exchange_eq, keepSmaller_eq, keepLarger_eq]

theorem middleOfFour_eq (v0 v1 v2 v3 : Value) :
    middleOfFour mean v0 v1 v2 v3 =
      mean (min (max v0 v1) (max v2 v3)) (max (min v0 v1) (min v2 v3)) := by
  simp only [middleOfFour, exchange_eq, keepSmaller_eq, keepLarger_eq]

theorem middleOfFive_eq (v0 v1 v2 v3 v4 : Value) :
    middleOfFive v0 v1 v2 v3 v4 =
      middleOfThree (min (max v0 v1) (max v3 v4)) v2 (max (min v0 v1) (min v3 v4)) := by
  simp only [middleOfFive, exchange_eq, keepSmaller_eq, keepLarger_eq]

theorem perm_exchange (left right : Value) (rest : List Value) :
    (left :: right :: rest).Perm (min left right :: max left right :: rest) := by
  rcases le_total left right with ordered | ordered
  · rw [min_eq_left ordered, max_eq_right ordered]
  · rw [min_eq_right ordered, max_eq_left ordered]
    exact List.Perm.swap right left rest

theorem perm_exchange_four (v0 v1 v2 v3 : Value) (rest : List Value) :
    (v0 :: v1 :: v2 :: v3 :: rest).Perm
      (min (min v0 v1) (min v2 v3) :: max (min v0 v1) (min v2 v3) ::
        min (max v0 v1) (max v2 v3) :: max (max v0 v1) (max v2 v3) :: rest) := by
  have pairs : (v0 :: v1 :: v2 :: v3 :: rest).Perm
      (min v0 v1 :: max v0 v1 :: min v2 v3 :: max v2 v3 :: rest) :=
    (perm_exchange v0 v1 _).trans (((perm_exchange v2 v3 rest).cons _).cons _)
  have regrouped : (min v0 v1 :: max v0 v1 :: min v2 v3 :: max v2 v3 :: rest).Perm
      (min v0 v1 :: min v2 v3 :: max v0 v1 :: max v2 v3 :: rest) :=
    (List.Perm.swap (min v2 v3) (max v0 v1) _).cons _
  exact (pairs.trans regrouped).trans
    ((perm_exchange (min v0 v1) (min v2 v3) _).trans
      (((perm_exchange (max v0 v1) (max v2 v3) rest).cons _).cons _))

/-- The lower of the two higher values is above the lowest, and the higher of the two lower ones
is below the highest. -/
theorem middle_bounds (v0 v1 v2 v3 : Value) :
    min (min v0 v1) (min v2 v3) ≤ min (max v0 v1) (max v2 v3) ∧
      max (min v0 v1) (min v2 v3) ≤ max (max v0 v1) (max v2 v3) :=
  ⟨min_le_min min_le_max min_le_max, max_le_max min_le_max min_le_max⟩

theorem middleOfThree_split (v0 v1 v2 : Value) :
    ∃ low high, [v0, v1, v2].Perm [low, middleOfThree v0 v1 v2, high] ∧
      low ≤ middleOfThree v0 v1 v2 ∧ middleOfThree v0 v1 v2 ≤ high := by
  rw [middleOfThree_eq]
  refine ⟨min (min v0 v1) (min (max v0 v1) v2), max (max v0 v1) v2, ?_, min_le_max, ?_⟩
  · have first := perm_exchange v0 v1 [v2]
    have second := (perm_exchange (max v0 v1) v2 []).cons (min v0 v1)
    exact (first.trans second).trans (perm_exchange (min v0 v1) (min (max v0 v1) v2) _)
  · exact max_le (min_le_max.trans (le_max_left _ _)) min_le_max

theorem middleOfThree_bounds {v0 v1 v2 bound : Value} :
    (bound ≤ v0 → bound ≤ v2 → bound ≤ middleOfThree v0 v1 v2) ∧
      (v0 ≤ bound → v2 ≤ bound → middleOfThree v0 v1 v2 ≤ bound) := by
  rw [middleOfThree_eq]
  refine ⟨fun first last => ?_, fun first last => ?_⟩
  · exact le_max_of_le_right (le_min (le_max_of_le_left first) last)
  · exact max_le (min_le_of_left_le first) (min_le_of_right_le last)

/-- The networks agree with sorting, for a mean that does not depend on the order. -/
theorem computeMedianInline_eq (symmetric : ∀ left right, mean left right = mean right left)
    (values : List Value) :
    computeMedianInline mean zero values = sortMedian mean zero values := by
  have mean_min_max : ∀ left right, mean (min left right) (max left right) = mean left right := by
    intro left right
    rcases le_total left right with ordered | ordered
    · rw [min_eq_left ordered, max_eq_right ordered]
    · rw [min_eq_right ordered, max_eq_left ordered, symmetric]
  unfold computeMedianInline
  split
  · rfl
  · rename_i v0
    exact (sortMedian_of_split mean zero (List.Perm.refl [v0]) rfl (fun _ member => absurd member
      List.not_mem_nil) (fun _ member => absurd member List.not_mem_nil)).symm
  · rename_i v0 v1
    rw [← mean_min_max]
    exact (sortMedian_of_split_two mean zero (perm_exchange v0 v1 []) min_le_max rfl
      (fun _ member => absurd member List.not_mem_nil)
      (fun _ member => absurd member List.not_mem_nil)).symm
  · rename_i v0 v1 v2
    obtain ⟨low, high, perm, below, above⟩ := middleOfThree_split v0 v1 v2
    have split : [v0, v1, v2].Perm ([low] ++ middleOfThree v0 v1 v2 :: [high]) := perm
    exact (sortMedian_of_split mean zero split rfl
      (fun _ member => (List.mem_singleton.mp member).symm ▸ below)
      (fun _ member => (List.mem_singleton.mp member).symm ▸ above)).symm
  · rename_i v0 v1 v2 v3
    have perm := perm_exchange_four v0 v1 v2 v3 []
    obtain ⟨lowest, highest⟩ := middle_bounds v0 v1 v2 v3
    rw [middleOfFour_eq, symmetric, ← mean_min_max]
    have split : [v0, v1, v2, v3].Perm ([min (min v0 v1) (min v2 v3)] ++
        min (max (min v0 v1) (min v2 v3)) (min (max v0 v1) (max v2 v3)) ::
          max (max (min v0 v1) (min v2 v3)) (min (max v0 v1) (max v2 v3)) ::
            [max (max v0 v1) (max v2 v3)]) := perm.trans ((perm_exchange _ _ _).cons _)
    refine (sortMedian_of_split_two mean zero split min_le_max rfl ?_ ?_).symm
    · intro low member
      rw [List.mem_singleton.mp member]
      exact le_min min_le_max lowest
    · intro high member
      rw [List.mem_singleton.mp member]
      exact max_le highest min_le_max
  · rename_i v0 v1 v2 v3 v4
    have rotated : [v0, v1, v2, v3, v4].Perm [v0, v1, v3, v4, v2] :=
      ((List.perm_append_comm : ([v2] ++ [v3, v4]).Perm ([v3, v4] ++ [v2])).cons v1).cons v0
    have exchanged := rotated.trans (perm_exchange_four v0 v1 v3 v4 [v2])
    obtain ⟨lowest, highest⟩ := middle_bounds v0 v1 v3 v4
    have lowestLast : min (min v0 v1) (min v3 v4) ≤ max (min v0 v1) (min v3 v4) := min_le_max
    have firstHighest : min (max v0 v1) (max v3 v4) ≤ max (max v0 v1) (max v3 v4) := min_le_max
    rw [middleOfFive_eq]
    generalize min (max v0 v1) (max v3 v4) = first at exchanged lowest firstHighest
    generalize max (min v0 v1) (min v3 v4) = last at exchanged highest lowestLast
    generalize min (min v0 v1) (min v3 v4) = bottom at exchanged lowest lowestLast
    generalize max (max v0 v1) (max v3 v4) = top at exchanged highest firstHighest
    obtain ⟨low, high, perm, below, above⟩ := middleOfThree_split first v2 last
    have gathered : [bottom, last, first, top, v2].Perm (bottom :: ([first, v2, last] ++ [top])) :=
      ((List.Perm.swap first last [top, v2]).trans
        ((List.perm_append_comm : ([last, top] ++ [v2]).Perm ([v2] ++ [last, top])).cons first)).cons
        bottom
    have split : [v0, v1, v2, v3, v4].Perm
        ([bottom, low] ++ middleOfThree first v2 last :: [high, top]) :=
      (exchanged.trans gathered).trans ((perm.append_right [top]).cons bottom)
    refine (sortMedian_of_split mean zero split rfl ?_ ?_).symm
    · intro other member
      rcases List.mem_pair.mp member with rfl | rfl
      · exact middleOfThree_bounds.1 lowest lowestLast
      · exact below
    · intro other member
      rcases List.mem_pair.mp member with rfl | rfl
      · exact above
      · exact middleOfThree_bounds.2 firstHighest highest
  · rename_i nonempty _ _ _ _ _
    rw [sortMedian, if_neg nonempty]

end Median

end AsapSketchlib
