/-
This file proves the accuracy of the quantiles of portable DDSketches over exact arithmetic. The
estimates of a sketch, one for each element, stand in order, and each is close to the sample of
its rank; a quantile is one of them, and an interpolated quantile lies between two.
-/

import AsapSketchlib.OrderStatistics
import AsapSketchlib.PortableDdSketchSamples

namespace AsapSketchlib

/-! ### Samples in order -/

namespace BucketIndex

variable {index : BucketIndex} {alpha x y : ℚ}

/-- The samples in order, those too small to index as 0. -/
def ordered (index : BucketIndex) (alpha : ℚ) (samples : List ℚ) : List ℚ :=
  (samples.map (index.counted alpha)).insertionSort (· ≤ ·)

theorem counted_eq_or (index : BucketIndex) (alpha x : ℚ) :
    (|x| < (index.bounds alpha).1 ∧ index.counted alpha x = 0) ∨
      (¬|x| < (index.bounds alpha).1 ∧ index.counted alpha x = x) := by
  by_cases tiny : |x| < (index.bounds alpha).1
  · exact Or.inl ⟨tiny, if_pos tiny⟩
  · exact Or.inr ⟨tiny, if_neg tiny⟩

namespace Exact

variable (exact : index.Exact alpha)

include exact

theorem bucketOf_counted (x : ℚ) :
    index.bucketOf alpha (index.counted alpha x) = index.bucketOf alpha x := by
  rcases counted_eq_or index alpha x with ⟨tiny, zero⟩ | ⟨-, same⟩
  · rw [zero, bucketOf, bucketOf, SignedBucket.ofSample_zero tiny,
      SignedBucket.ofSample_zero (abs_zero.trans_lt exact.positive)]
  · rw [same]

theorem bucketOf_le (le : x ≤ y) (xIndexed : |x| ≤ (index.bounds alpha).2)
    (yIndexed : |y| ≤ (index.bounds alpha).2) :
    index.bucketOf alpha x ≤ index.bucketOf alpha y :=
  SignedBucket.ofSample_le le
    (fun large further => Int32.le_iff_toInt_le.mp (exact.monotone large further yIndexed))
    (fun large further => Int32.le_iff_toInt_le.mp (exact.monotone large further xIndexed))

end Exact

end BucketIndex

namespace Portable

namespace DdSketch

/-! ### Estimates in order -/

section

variable {alpha : ℚ} (inside : 0 < alpha ∧ alpha < 1)

include inside

theorem representative_mono {k l : ℤ} (le : k ≤ l) :
    representative alpha k ≤ representative alpha l := by
  obtain ⟨positive, less⟩ := inside
  have gamma : 1 ≤ (1 + alpha) / (1 - alpha) := by
    rw [one_le_div (sub_pos.mpr less)]
    linarith
  exact mul_le_mul_of_nonneg_right (zpow_le_zpow_right₀ gamma le) (by linarith)

theorem representative_pos (k : ℤ) : 0 < representative alpha k := by
  obtain ⟨positive, less⟩ := inside
  exact mul_pos (zpow_pos (div_pos (by linarith) (sub_pos.mpr less)) k) (by linarith)

theorem representativeOf_mono {left right : SignedBucket} (le : left ≤ right) :
    representativeOf alpha left ≤ representativeOf alpha right := by
  have positive := representative_pos inside
  cases left with
  | negative k =>
    cases right with
    | negative l =>
      refine neg_le_neg (representative_mono inside (not_lt.mp fun less => ?_))
      exact absurd le (not_le.mpr (SignedBucket.negative_lt_negative less))
    | zero => exact neg_nonpos.mpr (positive k).le
    | positive l => exact (neg_nonpos.mpr (positive k).le).trans (positive l).le
  | zero =>
    cases right with
    | negative l => exact absurd le (not_le.mpr (SignedBucket.negative_lt_zero l))
    | zero => exact le_rfl
    | positive l => exact (positive l).le
  | positive k =>
    cases right with
    | negative l =>
      exact absurd le (not_le.mpr
        ((SignedBucket.negative_lt_zero l).trans (SignedBucket.zero_lt_positive k)))
    | zero => exact absurd le (not_le.mpr (SignedBucket.zero_lt_positive k))
    | positive l =>
      refine representative_mono inside (not_lt.mp fun less => ?_)
      exact absurd le (not_le.mpr (SignedBucket.positive_lt_positive less))

end

theorem abs_representativeOf_sub_le {index : BucketIndex} {alpha : ℚ} (exact : index.Exact alpha)
    {x : ℚ} (indexed : |x| ≤ (index.bounds alpha).2) :
    |representativeOf alpha (index.bucketOf alpha x) - index.counted alpha x| ≤
      alpha * |index.counted alpha x| := by
  rcases BucketIndex.counted_eq_or index alpha x with ⟨tiny, zero⟩ | ⟨large, same⟩
  · rw [zero, BucketIndex.bucketOf, SignedBucket.ofSample_zero tiny, representativeOf, sub_zero,
      abs_zero, mul_zero]
  · rw [same]
    have accurate := exact.accurate (not_lt.mp large) indexed
    rw [BucketIndex.bucketOf]
    by_cases negative : x < 0
    · rw [SignedBucket.ofSample_negative large negative, representativeOf]
      rw [abs_of_neg negative] at accurate ⊢
      rw [← abs_neg, neg_sub, sub_neg_eq_add, add_comm, ← sub_neg_eq_add]
      exact accurate
    · rw [SignedBucket.ofSample_positive large negative, representativeOf]
      rw [abs_of_nonneg (not_lt.mp negative)] at accurate ⊢
      exact accurate

def estimates (sketch : DdSketch) : List ℚ :=
  sketch.elements.map (representativeOf sketch.alphaValue)

theorem length_estimates (sketch : DdSketch) :
    sketch.estimates.length = sketch.elements.length := List.length_map _

theorem pairwise_estimates {sketch : DdSketch}
    (inside : 0 < sketch.alphaValue ∧ sketch.alphaValue < 1) :
    sketch.estimates.Pairwise (· ≤ ·) :=
  List.pairwise_map.mpr ((pairwise_elements sketch).imp fun le => representativeOf_mono inside le)

theorem valueAtRank_estimates {sketch : DdSketch} (few : sketch.elements.length ≤ u64Max)
    {target : ℕ} (inside : target < sketch.elements.length) :
    sketch.valueAtRank target = sketch.estimates[target]? := by
  have found := List.getElem?_eq_getElem inside
  rw [valueAtRank_eq few found, estimates, List.getElem?_map, found, Option.map_some]

/-! ### Quantiles as order statistics -/

section Rank

variable {count : ℕ} {q : ℚ}

theorem ceil_rank_lt (occupied : 0 < count) (atMost : q ≤ 1) :
    ⌈q * ((count - 1 : ℕ) : ℚ)⌉₊ < count := by
  have last : q * ((count - 1 : ℕ) : ℚ) ≤ (count - 1 : ℕ) :=
    mul_le_of_le_one_left (Nat.cast_nonneg _) atMost
  exact (Nat.ceil_le.mpr last).trans_lt (Nat.sub_lt occupied Nat.one_pos)

theorem rank_nonneg (nonneg : 0 ≤ q) : 0 ≤ q * ((count - 1 : ℕ) : ℚ) :=
  mul_nonneg nonneg (Nat.cast_nonneg _)

end Rank

variable {sketch : DdSketch} {q : ℚ}

theorem quantile_eq (few : sketch.elements.length ≤ u64Max) (occupied : 0 < sketch.elements.length)
    (atMost : q ≤ 1) :
    sketch.quantile q =
      sketch.estimates[⌊q * ((sketch.elements.length - 1 : ℕ) : ℚ)⌋₊]? := by
  have inside := (Nat.floor_le_ceil _).trans_lt (ceil_rank_lt occupied atMost)
  rw [quantile, totalCount_eq few, if_neg occupied.ne', Int.floor_toNat]
  have small : ⌊q * ((sketch.elements.length - 1 : ℕ) : ℚ)⌋₊ ≤ u64Max := inside.le.trans few
  rw [show Nat.min _ u64Max = _ from min_eq_left small, valueAtRank_estimates few inside]

theorem quantileInterpolated_eq (few : sketch.elements.length ≤ 9007199254740992)
    (occupied : 0 < sketch.elements.length)
    (inside : 0 < sketch.alphaValue ∧ sketch.alphaValue < 1) (nonneg : 0 ≤ q) (atMost : q ≤ 1) :
    sketch.quantileInterpolated q =
      OrderStatistics.interpolated sketch.estimates
        (q * ((sketch.elements.length - 1 : ℕ) : ℚ)) := by
  have fits : sketch.elements.length ≤ u64Max := few.trans (by decide)
  have upper := ceil_rank_lt occupied atMost
  have lower := (Nat.floor_le_ceil _).trans_lt upper
  have valid : ¬(¬(0 ≤ q ∧ q ≤ 1) ∨ ¬(0 ≤ sketch.alphaValue ∧ sketch.alphaValue < 1) ∨
      sketch.alphaValue = 0) := by
    rintro (invalid | invalid | zero)
    · exact invalid ⟨nonneg, atMost⟩
    · exact invalid ⟨inside.1.le, inside.2⟩
    · exact inside.1.ne' zero
  rw [quantileInterpolated, if_neg valid, checkedCount_eq fits, Option.bind_some, if_neg]
  · simp only [Int.floor_toNat, Int.ceil_toNat]
    rw [valueAtRank_estimates fits upper, valueAtRank_estimates fits lower,
      OrderStatistics.interpolated]
    refine Option.bind_congr fun low _ => ?_
    exact (Option.map_eq_bind).symm
  · rintro (zero | large)
    · exact occupied.ne' zero
    · exact absurd few (not_le.mpr large)

/-! ### Estimates of samples -/

section Samples

variable {index : BucketIndex} {alpha : ℚ} {samples : List ℚ}

theorem pairwise_ordered (index : BucketIndex) (alpha : ℚ) (samples : List ℚ) :
    (index.ordered alpha samples).Pairwise (· ≤ ·) := List.pairwise_insertionSort _ _

theorem exists_counted {x : ℚ} (member : x ∈ index.ordered alpha samples) :
    ∃ sample ∈ samples, index.counted alpha sample = x :=
  List.mem_map.mp ((List.perm_insertionSort _ _).mem_iff.mp member)

namespace Holds

variable (holds : Holds index alpha sketch samples) (exact : index.Exact alpha)

include holds exact

theorem elements_ordered :
    sketch.elements = (index.ordered alpha samples).map (index.bucketOf alpha) := by
  have counted : ∀ x ∈ samples, |index.counted alpha x| ≤ (index.bounds alpha).2 := by
    intro x member
    rcases BucketIndex.counted_eq_or index alpha x with ⟨-, zero⟩ | ⟨-, same⟩
    · rw [zero, abs_zero]
      exact (abs_nonneg x).trans (holds.indexed x member)
    · rw [same]
      exact holds.indexed x member
  refine elements_eq (List.pairwise_map.mpr ?_) fun bucket => ?_
  · refine (pairwise_ordered index alpha samples).imp_of_mem fun leftMember rightMember le => ?_
    obtain ⟨left, leftSample, rfl⟩ := exists_counted leftMember
    obtain ⟨right, rightSample, rfl⟩ := exists_counted rightMember
    exact exact.bucketOf_le le (counted left leftSample) (counted right rightSample)
  · rw [holds.counts, BucketIndex.ordered, ((List.perm_insertionSort _ _).map _).count_eq,
      List.map_map]
    refine congrArg (List.count bucket) (List.map_congr_left fun x _ => ?_)
    exact exact.bucketOf_counted x

theorem exists_sample {rank : ℕ} {estimate : ℚ} (found : sketch.estimates[rank]? = some estimate) :
    ∃ x, (index.ordered alpha samples)[rank]? = some x ∧ |estimate - x| ≤ alpha * |x| := by
  rw [estimates, holds.elements_ordered exact, holds.alphaValue, List.map_map,
    List.getElem?_map] at found
  obtain ⟨x, xEq, rfl⟩ := Option.map_eq_some_iff.mp found
  refine ⟨x, xEq, ?_⟩
  obtain ⟨sample, member, rfl⟩ := exists_counted (List.mem_of_getElem? xEq)
  have close := abs_representativeOf_sub_le exact (holds.indexed sample member)
  rwa [← exact.bucketOf_counted] at close

end Holds

end Samples

/-! ### The quantiles of a tree -/

def RanksAnswered (sketch : DdSketch) : Prop :=
  sketch.totalCount = sketch.elements.length ∧
    ∀ rank < sketch.totalCount, ∃ bucket, sketch.elements[rank]? = some bucket ∧
      sketch.valueAtRank rank = some (representativeOf sketch.alphaValue bucket)

/-- The quantiles of a sketch are accurate for its samples. No interpolated quantile is given for
more samples than doubles count exactly. -/
structure QuantilesAccurate (index : BucketIndex) (alpha : ℚ) (sketch : DdSketch)
    (samples : List ℚ) : Prop where
  isSome : ∀ q, 0 ≤ q → q ≤ 1 → ((sketch.quantile q).isSome ↔ samples ≠ [])
  interpolated_isSome : ∀ q, 0 ≤ q → q ≤ 1 →
    ((sketch.quantileInterpolated q).isSome ↔ samples ≠ [] ∧ samples.length ≤ 2 ^ 53)
  close : ∀ q estimate, 0 ≤ q → q ≤ 1 → sketch.quantile q = some estimate →
    ∃ x, (index.ordered alpha samples)[⌊q * ((samples.length - 1 : ℕ) : ℚ)⌋₊]? = some x ∧
      |estimate - x| ≤ alpha * |x|
  interpolated_close : ∀ q estimate, 0 ≤ q → q ≤ 1 →
    sketch.quantileInterpolated q = some estimate →
      ∃ lower upper,
        (index.ordered alpha samples)[⌊q * ((samples.length - 1 : ℕ) : ℚ)⌋₊]? = some lower ∧
        (index.ordered alpha samples)[⌈q * ((samples.length - 1 : ℕ) : ℚ)⌉₊]? = some upper ∧
          |estimate - OrderStatistics.between lower upper
              (Int.fract (q * ((samples.length - 1 : ℕ) : ℚ)))| ≤
            alpha * OrderStatistics.between |lower| |upper|
              (Int.fract (q * ((samples.length - 1 : ℕ) : ℚ)))
  le_interpolated : ∀ q estimate between, 0 ≤ q → q ≤ 1 → sketch.quantile q = some estimate →
    sketch.quantileInterpolated q = some between → estimate ≤ between
  monotone : ∀ q larger estimate later, 0 ≤ q → q ≤ larger → larger ≤ 1 →
    sketch.quantile q = some estimate → sketch.quantile larger = some later → estimate ≤ later
  interpolated_monotone : ∀ q larger estimate later, 0 ≤ q → q ≤ larger → larger ≤ 1 →
    sketch.quantileInterpolated q = some estimate →
      sketch.quantileInterpolated larger = some later → estimate ≤ later

theorem quantile_of_empty (empty : sketch.elements.length = 0) :
    sketch.quantile q = none := by
  rw [quantile, totalCount_eq (empty.trans_le (Nat.zero_le _)), empty]
  rfl

theorem elements_of_quantileInterpolated (few : sketch.elements.length ≤ u64Max)
    (given : (sketch.quantileInterpolated q).isSome) :
    0 < sketch.elements.length ∧ sketch.elements.length ≤ 9007199254740992 := by
  rw [quantileInterpolated, checkedCount_eq few] at given
  by_contra outside
  rw [not_and_or, Nat.pos_iff_ne_zero, not_not, not_le] at outside
  simp only [Option.bind_some, if_pos outside, ite_self] at given
  exact Bool.noConfusion given

namespace Holds

variable {index : BucketIndex} {alpha : ℚ} {samples : List ℚ}

theorem quantilesAccurate (holds : Holds index alpha sketch samples) (exact : index.Exact alpha) :
    QuantilesAccurate index alpha sketch samples := by
  have length := holds.length_elements
  have few : sketch.elements.length ≤ u64Max := length.trans_le holds.few
  have inside : 0 < sketch.alphaValue ∧ sketch.alphaValue < 1 :=
    holds.alphaValue.symm ▸ exact.inside
  have sorted := pairwise_estimates inside
  have nonempty : samples ≠ [] ↔ 0 < sketch.elements.length := by
    rw [length]
    exact List.length_pos_iff.symm
  have given : ∀ {q estimate : ℚ}, q ≤ 1 → sketch.quantile q = some estimate →
      sketch.estimates[⌊q * ((samples.length - 1 : ℕ) : ℚ)⌋₊]? = some estimate := by
    intro q estimate atMost found
    rcases Nat.eq_zero_or_pos sketch.elements.length with empty | occupied
    · rw [quantile_of_empty empty] at found
      exact absurd found.symm (Option.some_ne_none estimate)
    · rwa [quantile_eq few occupied atMost, length] at found
  have interpolated : ∀ {q estimate : ℚ}, 0 ≤ q → q ≤ 1 →
      sketch.quantileInterpolated q = some estimate →
        OrderStatistics.interpolated sketch.estimates (q * ((samples.length - 1 : ℕ) : ℚ)) =
          some estimate := by
    intro q estimate nonneg atMost found
    obtain ⟨occupied, countable⟩ :=
      elements_of_quantileInterpolated few (Option.isSome_iff_exists.mpr ⟨estimate, found⟩)
    rwa [quantileInterpolated_eq countable occupied inside nonneg atMost, length] at found
  have fraction : ∀ {q : ℚ}, 0 ≤ q → q * ((samples.length - 1 : ℕ) : ℚ) -
      ⌊q * ((samples.length - 1 : ℕ) : ℚ)⌋₊ = Int.fract (q * ((samples.length - 1 : ℕ) : ℚ)) := by
    intro q nonneg
    rw [natCast_floor_eq_intCast_floor (rank_nonneg nonneg)]
    rfl
  refine ⟨fun q nonneg atMost => ?_, fun q nonneg atMost => ?_,
    fun q estimate nonneg atMost found => ?_, fun q estimate nonneg atMost found => ?_,
    fun q estimate between nonneg atMost found betweenFound => ?_,
    fun q larger estimate later nonneg le atMost found laterFound => ?_,
    fun q larger estimate later nonneg le atMost found laterFound => ?_⟩
  · rw [nonempty]
    refine ⟨fun some => Nat.pos_of_ne_zero fun empty => ?_, fun occupied => ?_⟩
    · rw [quantile_of_empty empty] at some
      exact Bool.noConfusion some
    · have here := (Nat.floor_le_ceil _).trans_lt (ceil_rank_lt occupied atMost)
      rw [quantile_eq few occupied atMost,
        List.getElem?_eq_getElem (here.trans_eq (length_estimates sketch).symm)]
      rfl
  · rw [nonempty, ← length]
    refine ⟨elements_of_quantileInterpolated few, fun ⟨occupied, countable⟩ => ?_⟩
    obtain ⟨value, valueEq⟩ := OrderStatistics.exists_interpolated
      ((ceil_rank_lt occupied atMost).trans_eq (length_estimates sketch).symm)
    rw [quantileInterpolated_eq countable occupied inside nonneg atMost, valueEq]
    rfl
  · exact holds.exists_sample exact (given atMost found)
  · obtain ⟨low, high, lowEq, highEq, rfl⟩ :=
      OrderStatistics.interpolated_eq_some.mp (interpolated nonneg atMost found)
    obtain ⟨lower, lowerEq, lowerClose⟩ := holds.exists_sample exact lowEq
    obtain ⟨upper, upperEq, upperClose⟩ := holds.exists_sample exact highEq
    refine ⟨lower, upper, lowerEq, upperEq, ?_⟩
    rw [fraction nonneg]
    refine (OrderStatistics.abs_between_sub_le (Int.fract_nonneg _) (Int.fract_lt_one _).le
      lowerClose upperClose).trans_eq ?_
    rw [OrderStatistics.between, OrderStatistics.between, mul_add, mul_assoc, mul_assoc]
  · exact OrderStatistics.getElem?_le_interpolated sorted (rank_nonneg nonneg) (given atMost found)
      (interpolated nonneg atMost betweenFound)
  · refine OrderStatistics.getElem?_le sorted (Nat.floor_mono ?_) (given (le.trans atMost) found)
      (given atMost laterFound)
    exact mul_le_mul_of_nonneg_right le (Nat.cast_nonneg _)
  · exact OrderStatistics.interpolated_mono sorted (rank_nonneg nonneg)
      (mul_le_mul_of_nonneg_right le (Nat.cast_nonneg _))
      (interpolated nonneg (le.trans atMost) found)
      (interpolated (nonneg.trans le) atMost laterFound)

end Holds

/-- Every rank of a sketch is answered with the representative of its element, and the quantiles
of a sketch made by updates, merges and deltas are accurate for the samples it took. -/
theorem portable_quantiles (index : BucketIndex) (alpha : ℚ) (exact : index.Exact alpha) :
    (∀ sketch : DdSketch,
      sketch.zeroCount.toNat +
          ((sketch.positive.counts ++ sketch.negative.counts).map UInt64.toNat).sum < 2 ^ 64 →
        sketch.RanksAnswered) ∧
      ∀ sketch samples, Fed index alpha sketch samples →
        QuantilesAccurate index alpha sketch samples := by
  refine ⟨fun sketch small => ?_, fun sketch samples fed => fed.holds.quantilesAccurate exact⟩
  rw [← length_elements] at small
  have few : sketch.elements.length ≤ u64Max := Nat.le_sub_one_of_lt small
  refine ⟨totalCount_eq few, fun rank inside => ?_⟩
  rw [totalCount_eq few] at inside
  have found := List.getElem?_eq_getElem inside
  exact ⟨_, found, valueAtRank_eq few found⟩

/-! ### Buckets of powers of two -/

theorem thirds_exact : Machine.thirds.Exact (1 / 3) where
  inside := Machine.third_inside
  positive := by
    show (0 : ℚ) < 1 / 2 ^ 1021
    positivity
  monotone := Machine.log_le
  accurate {magnitude} low high := by
    have positive := (show (0 : ℚ) < 1 / 2 ^ 1021 by positivity).trans_le low
    show |representative (1 / 3) (Int32.ofInt (Int.log 2 magnitude)).toInt - magnitude| ≤ _
    rw [Machine.log_range low high, representative]
    have below : (2 : ℚ) ^ Int.log 2 magnitude ≤ magnitude :=
      Int.zpow_log_le_self (by decide) positive
    have above : magnitude < (2 : ℚ) ^ (Int.log 2 magnitude + 1) :=
      Int.lt_zpow_succ_log_self (by decide) magnitude
    rw [zpow_add_one₀ two_ne_zero] at above
    have base : (1 + 1 / 3 : ℚ) / (1 - 1 / 3) = 2 := by norm_num
    rw [base, abs_le]
    constructor <;> linarith

def oneIn (k : ℤ) : DdStore := ⟨List.replicate 64 0 ++ 1 :: List.replicate 63 0, k - 64⟩

def units : DdSketch := ⟨.finite (1 / 3), oneIn 0, oneIn 0, 0⟩

def four : DdSketch := ⟨.finite (1 / 3), oneIn 2, ⟨[], 0⟩, 0⟩

theorem fed_units : Fed Machine.thirds (1 / 3) units [1, -1] :=
  have first : Fed Machine.thirds (1 / 3) { units with negative := ⟨[], 0⟩ } ([] ++ taken (.finite 1)
      .ok) := Fed.tryUpdate .new (by decide +kernel) (by decide)
  @Fed.tryUpdate _ _ _ units _ (.finite (-1)) .ok first (by decide +kernel) (by decide)

theorem fed_four : Fed Machine.thirds (1 / 3) four [4] :=
  @Fed.tryUpdate _ _ _ four _ (.finite 4) .ok .new (by decide +kernel) (by decide)

/-- Two sketches are merged, and one of them passes on a delta as well. -/
theorem portable_quantiles_small : units.RanksAnswered ∧
    ∃ carried, Carried Machine.thirds (1 / 3) (four.delta units 1) [4] carried ∧
      QuantilesAccurate Machine.thirds (1 / 3)
        ((units.merge four).1.applyDelta (four.delta units 1)).1 ([1, -1, 4] ++ carried) := by
  obtain ⟨ranks, accurate⟩ := portable_quantiles Machine.thirds (1 / 3) thirds_exact
  obtain ⟨carried, carries⟩ := fed_four.exists_carried units 1
  refine ⟨ranks units (by decide +kernel), carried, carries, accurate _ _ ?_⟩
  have merged := Fed.merge fed_units fed_four (by decide)
  rw [if_pos (by decide +kernel)] at merged
  have few : carried.length ≤ 1 := carries.among.length_le
  have applied := Fed.applyDelta merged fed_four fed_units carries
    ((Nat.add_le_add_left few _).trans (by decide))
  rwa [if_pos (by decide +kernel)] at applied

end DdSketch

end Portable

end AsapSketchlib
