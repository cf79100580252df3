/-
This file proves the round trip of the deltas of the portable DDSketch. A delta of a store
carries the growth of some buckets, each once and within the span of the current store. The
snapshot grows on both sides to take them up, and has the current count at each of them.
-/

import AsapSketchlib.PortableHllDeltas
import AsapSketchlib.DenseCounts

namespace AsapSketchlib

namespace Portable

/-! ### Counts -/

section

variable {left right : UInt64} (le : right ≤ left)

include le

theorem saturatingSubU64_of_le :
    saturatingSubU64 left right = left - right := if_neg (UInt64.not_lt.mpr le)

theorem saturatingAddU64_sub : saturatingAddU64 right (left - right) = left := by
  have bound := UInt64.toNat_lt left
  have natLe := UInt64.le_iff_toNat_le.mp le
  unfold saturatingAddU64 saturatingAdd
  rw [UInt64.toNat_sub_of_le _ _ le, Nat.add_sub_cancel' natLe, min_eq_left]
  · exact UInt64.ofNat_toNat
  · unfold u64Max
    omega

theorem sub_eq_zero_iff : left - right = 0 ↔ left = right := by
  rw [← UInt64.toNat_inj, UInt64.toNat_sub_of_le _ _ le, ← UInt64.toNat_inj]
  have natLe := UInt64.le_iff_toNat_le.mp le
  show left.toNat - right.toNat = 0 ↔ _
  omega

end

theorem eq_of_sub_lt {left right threshold : UInt64} (le : right ≤ left)
    (less : left - right < threshold) (small : threshold ≤ 1) : right = left := by
  refine ((sub_eq_zero_iff le).mp ?_).symm
  have below := UInt64.lt_iff_toNat_lt.mp less
  have atMost := UInt64.le_iff_toNat_le.mp small
  have one : (1 : UInt64).toNat = 1 := rfl
  rw [← UInt64.toNat_inj]
  show _ = 0
  omega

namespace DdStore

/-! ### Growing a store -/

theorem countAt_of_empty {store : DdStore} (empty : store.counts = []) (index : ℤ) :
    store.countAt index = 0 := by
  unfold countAt
  rw [empty, List.getD_nil, ite_self]

theorem countAt_prepend {store : DdStore} {start : ℤ} (before : start ≤ store.offset) (index : ℤ) :
    countAt ⟨List.replicate (store.offset - start).toNat 0 ++ store.counts, start⟩ index =
      store.countAt index :=
  Dense.countAt_prepend before store.counts index

theorem countAt_append (store : DdStore) (more : ℕ) (index : ℤ) :
    countAt ⟨store.counts ++ List.replicate more 0, store.offset⟩ index = store.countAt index :=
  Dense.countAt_append store.offset store.counts more index

theorem grow_spec (store : DdStore) (index : ℤ) :
    (∀ other, (store.grow index).countAt other = store.countAt other) ∧
      (store.grow index).offset ≤ index ∧ index < (store.grow index).stop := by
  unfold grow
  by_cases empty : store.counts = []
  · have isEmpty : store.counts.isEmpty = true := List.isEmpty_iff.mpr empty
    have single : ∀ other, countAt ⟨[0], index⟩ other = 0 := by
      intro other
      unfold countAt
      split
      · cases (other - (⟨[0], index⟩ : DdStore).offset).toNat <;> rfl
      · rfl
    simp only [isEmpty, if_true, stop, lt_irrefl, if_false, List.length_singleton, Nat.cast_one]
    rw [if_neg (by omega)]
    exact ⟨fun other => (single other).trans (countAt_of_empty empty other).symm, le_refl index,
      by simp⟩
  · have occupied : store.counts.isEmpty = false := List.isEmpty_eq_false_iff.mpr empty
    have length := List.length_pos_iff.mpr empty
    simp only [occupied, Bool.false_eq_true, if_false]
    by_cases low : index < store.offset
    · rw [if_pos low]
      refine ⟨countAt_prepend (le_of_lt low), le_refl index, ?_⟩
      unfold stop
      dsimp only
      rw [List.length_append, List.length_replicate]
      omega
    · rw [if_neg low]
      by_cases high : store.stop ≤ index
      · rw [if_pos high]
        refine ⟨countAt_append store _, not_lt.mp low, ?_⟩
        unfold stop at high ⊢
        dsimp only
        rw [List.length_append, List.length_replicate]
        omega
      · rw [if_neg high]
        exact ⟨fun other => rfl, not_lt.mp low, not_le.mp high⟩

theorem countAt_addBucket (store : DdStore) (bucket : ℤ × UInt64) (index : ℤ) :
    (store.addBucket bucket).countAt index =
      if index = bucket.1 then saturatingAddU64 (store.countAt index) bucket.2
      else store.countAt index := by
  obtain ⟨same, low, high⟩ := store.grow_spec bucket.1
  unfold addBucket
  rw [← same index]
  exact Dense.countAt_modify low high _ index

/-! ### The buckets of a delta -/

/-- The buckets carry the growth from a snapshot to the current store: each at most once, inside
the current store and with the difference of the counts; a bucket left out did not grow, or
grew by less than the threshold. -/
structure Carries (current snapshot : DdStore) (threshold : UInt64)
    (buckets : List (ℤ × UInt64)) : Prop where
  ascending : buckets.Pairwise fun earlier later => earlier.1 < later.1
  inside : ∀ bucket ∈ buckets, current.offset ≤ bucket.1 ∧ bucket.1 < current.stop
  growth : ∀ bucket ∈ buckets,
    bucket.2 = current.countAt bucket.1 - snapshot.countAt bucket.1
  dropped : ∀ index, (∀ bucket ∈ buckets, bucket.1 ≠ index) →
    current.countAt index = snapshot.countAt index ∨
      current.countAt index - snapshot.countAt index < threshold

/-- All indexes of the store are `i32`. -/
def InI32 (store : DdStore) : Prop := -2 ^ 31 ≤ store.offset ∧ store.stop ≤ 2 ^ 31

/-- The buckets that a rule picks by their index, each with its growth, are a delta if what the
rule does not pick did not grow, or by less than the threshold. -/
theorem carries_filterMap {current snapshot : DdStore} {threshold : UInt64}
    {pick : UInt64 × ℕ → Option (ℤ × UInt64)} (Picked : ℤ → Prop) [DecidablePred Picked]
    (grown : ∀ index, snapshot.countAt index ≤ current.countAt index)
    (picks : ∀ i count, current.counts[i]? = some count →
      pick (count, i) = if Picked (current.offset + i) then
        some (current.offset + i,
          current.countAt (current.offset + i) - snapshot.countAt (current.offset + i)) else none)
    (others : ∀ index, ¬Picked index → current.countAt index = snapshot.countAt index ∨
      current.countAt index - snapshot.countAt index < threshold) :
    Carries current snapshot threshold (current.counts.zipIdx.filterMap pick) := by
  have origin : ∀ entry ∈ current.counts.zipIdx, ∀ bucket, pick entry = some bucket →
      bucket.1 = current.offset + entry.2 ∧ entry.2 < current.counts.length ∧
        bucket.2 = current.countAt bucket.1 - snapshot.countAt bucket.1 := by
    intro entry member bucket picked
    have found := List.mem_zipIdx_iff_getElem?.mp member
    rw [picks entry.2 entry.1 found] at picked
    split at picked
    · obtain rfl := Option.some.inj picked
      exact ⟨rfl, (List.getElem?_eq_some_iff.mp found).1, rfl⟩
    · exact absurd picked.symm (Option.some_ne_none bucket)
  refine ⟨?_, ?_, ?_, ?_⟩
  · refine List.pairwise_filterMap.mpr ((pairwise_zipIdx current.counts).imp_of_mem ?_)
    intro earlier later earlierMember laterMember less first firstEq second secondEq
    rw [(origin _ earlierMember _ firstEq).1, (origin _ laterMember _ secondEq).1]
    omega
  · intro bucket member
    obtain ⟨entry, entryMember, picked⟩ := List.mem_filterMap.mp member
    obtain ⟨index, bound, -⟩ := origin entry entryMember bucket picked
    unfold stop
    omega
  · intro bucket member
    obtain ⟨entry, entryMember, picked⟩ := List.mem_filterMap.mp member
    exact (origin entry entryMember bucket picked).2.2
  · intro index left
    by_cases picked : Picked index
    · by_cases inside : current.offset ≤ index ∧ index < current.stop
      · obtain ⟨low, high⟩ := inside
        unfold stop at high
        have bound : (index - current.offset).toNat < current.counts.length := by omega
        have found := List.getElem?_eq_getElem bound
        have place : current.offset + (index - current.offset).toNat = index := by omega
        have chosen := picks _ _ found
        rw [place, if_pos picked] at chosen
        exact absurd rfl (left _ (List.mem_filterMap.mpr
          ⟨_, List.mem_zipIdx_iff_getElem?.mpr found, chosen⟩))
      · have outside : current.countAt index = 0 := by
          unfold countAt
          split
          · refine List.getD_eq_default _ _ ?_
            unfold stop at inside
            omega
          · rfl
        refine Or.inl (UInt64.le_antisymm ?_ (grown index))
        rw [outside]
        exact UInt64.zero_le
    · exact others index picked

theorem asI32_of_mem {value : ℤ} (low : -2 ^ 31 ≤ value) (high : value < 2 ^ 31) :
    asI32 value = value := by
  unfold asI32
  omega

theorem asI32_index {store : DdStore} (inI32 : store.InI32) {i : ℕ}
    (bound : i < store.counts.length) :
    asI32 (store.offset + i) = store.offset + i ∧
      asI32 (store.offset + asI32 i) = store.offset + i := by
  obtain ⟨low, high⟩ := inI32
  unfold stop at high
  have index : asI32 (store.offset + i) = store.offset + i :=
    asI32_of_mem (by omega) (by omega)
  refine ⟨index, Eq.trans ?_ index⟩
  unfold asI32
  omega

theorem countAt_index {store : DdStore} {i : ℕ} {count : UInt64}
    (found : store.counts[i]? = some count) : store.countAt (store.offset + i) = count := by
  have index : (store.offset + i - store.offset).toNat = i := by omega
  unfold countAt
  rw [if_pos (by omega), index, List.getD_eq_getElem?_getD, found, Option.getD_some]

theorem snapCount_eq (snapshot : DdStore) (index : ℤ) :
    snapshot.snapCount index = snapshot.countAt index := by
  unfold snapCount
  by_cases empty : snapshot.counts = []
  · rw [countAt_of_empty empty, empty]
    rfl
  · have occupied : snapshot.counts.isEmpty = false := List.isEmpty_eq_false_iff.mpr empty
    rw [occupied]
    unfold countAt
    by_cases low : snapshot.offset ≤ index
    · by_cases high : (index - snapshot.offset).toNat < snapshot.counts.length
      · rw [if_pos low, if_pos (by decide), if_pos ⟨by omega, high⟩]
      · rw [if_pos low, if_pos (by decide), if_neg fun inside => high inside.2,
          List.getD_eq_default _ _ (not_lt.mp high)]
    · rw [if_neg low, if_pos (by decide), if_neg fun inside => low (by omega)]

section

variable {current snapshot : DdStore} (threshold : UInt64) (inI32 : current.InI32)
  (grown : ∀ index, snapshot.countAt index ≤ current.countAt index)

include inI32 grown

theorem carries_grownBuckets :
    Carries current snapshot threshold (current.grownBuckets snapshot threshold) := by
  refine carries_filterMap (fun index => current.countAt index ≠ 0 ∧
    threshold ≤ current.countAt index - snapshot.countAt index) grown ?_ ?_
  · intro i count found
    obtain ⟨-, index⟩ := asI32_index inI32 (List.getElem?_eq_some_iff.mp found).1
    dsimp only
    rw [index, snapCount_eq, ← countAt_index found, saturatingSubU64_of_le (grown _)]
    by_cases empty : current.countAt (current.offset + i) = 0
    · rw [if_pos empty, if_neg fun picked => picked.1 empty]
    · rw [if_neg empty]
      by_cases reached : threshold ≤
          current.countAt (current.offset + i) - snapshot.countAt (current.offset + i)
      · rw [if_pos reached, if_pos ⟨empty, reached⟩]
      · rw [if_neg reached, if_neg fun picked => reached picked.2]
  · intro index left
    by_cases empty : current.countAt index = 0
    · refine Or.inl (UInt64.le_antisymm ?_ (grown index))
      rw [empty]
      exact UInt64.zero_le
    · exact Or.inr (UInt64.not_le.mp fun reached => left ⟨empty, reached⟩)

theorem carries_sparseDifference :
    Carries current snapshot threshold (current.sparseDifference snapshot threshold) := by
  refine carries_filterMap (fun index =>
    0 < current.countAt index - snapshot.countAt index ∧
      threshold ≤ current.countAt index - snapshot.countAt index) grown ?_ ?_
  · intro i count found
    obtain ⟨index, -⟩ := asI32_index inI32 (List.getElem?_eq_some_iff.mp found).1
    have old : (if 0 ≤ current.offset + i - snapshot.offset then
        snapshot.counts.getD (current.offset + i - snapshot.offset).toNat 0 else 0) =
          snapshot.countAt (current.offset + i) := by
      unfold countAt
      simp only [sub_nonneg]
    dsimp only
    rw [old, ← countAt_index found, saturatingSubU64_of_le (grown _), index]
  · intro index left
    by_cases same : current.countAt index - snapshot.countAt index = 0
    · exact Or.inl ((sub_eq_zero_iff (grown index)).mp same)
    · refine Or.inr (UInt64.not_le.mp fun reached => left ⟨?_, reached⟩)
      exact UInt64.pos_iff_ne_zero.mpr same

end

/-! ### Applying a delta -/

theorem countAt_foldl_addBucket {buckets : List (ℤ × UInt64)} (store : DdStore)
    (ascending : buckets.Pairwise fun earlier later => earlier.1 < later.1) :
    (∀ bucket ∈ buckets, (buckets.foldl addBucket store).countAt bucket.1 =
        saturatingAddU64 (store.countAt bucket.1) bucket.2) ∧
      ∀ index, (∀ bucket ∈ buckets, bucket.1 ≠ index) →
        (buckets.foldl addBucket store).countAt index = store.countAt index := by
  induction buckets generalizing store with
  | nil => exact ⟨fun _ member => absurd member List.not_mem_nil, fun _ _ => rfl⟩
  | cons bucket rest hypothesis =>
    obtain ⟨earlier, ascendingRest⟩ := List.pairwise_cons.mp ascending
    obtain ⟨added, kept⟩ := hypothesis (store.addBucket bucket) ascendingRest
    refine ⟨List.forall_mem_cons.mpr ⟨?_, fun other member => ?_⟩, fun index left => ?_⟩
    · rw [List.foldl_cons, kept bucket.1 fun other member => (earlier other member).ne',
        countAt_addBucket, if_pos rfl]
    · rw [List.foldl_cons, added other member, countAt_addBucket,
        if_neg (earlier other member).ne']
    · obtain ⟨notFirst, notLater⟩ := List.forall_mem_cons.mp left
      rw [List.foldl_cons, kept index notLater, countAt_addBucket, if_neg notFirst.symm]

def unionSpan (left right : DdStore) : ℤ :=
  if right.counts.isEmpty then left.counts.length
  else if left.counts.isEmpty then right.counts.length
  else max left.stop right.stop - min left.offset right.offset

theorem le_foldl_min {bound first : ℤ} {rest : List ℤ} (atFirst : bound ≤ first)
    (atRest : ∀ value ∈ rest, bound ≤ value) : bound ≤ rest.foldl min first := by
  induction rest generalizing first with
  | nil => exact atFirst
  | cons value rest hypothesis =>
    obtain ⟨here, later⟩ := List.forall_mem_cons.mp atRest
    exact hypothesis (le_min atFirst here) later

theorem foldl_max_lt {bound first : ℤ} {rest : List ℤ} (atFirst : first < bound)
    (atRest : ∀ value ∈ rest, value < bound) : rest.foldl max first < bound := by
  induction rest generalizing first with
  | nil => exact atFirst
  | cons value rest hypothesis =>
    obtain ⟨here, later⟩ := List.forall_mem_cons.mp atRest
    exact hypothesis (max_lt atFirst here) later

theorem Carries.spanError_eq_none {current snapshot : DdStore} {threshold : UInt64}
    {buckets : List (ℤ × UInt64)} (carries : Carries current snapshot threshold buckets)
    (span : unionSpan current snapshot ≤ maxApplyDeltaSpanBuckets) :
    snapshot.spanError buckets = none := by
  unfold spanError
  cases indexes : buckets.map Prod.fst with
  | nil => rfl
  | cons first rest =>
    have inside : ∀ index ∈ first :: rest, current.offset ≤ index ∧ index < current.stop := by
      rw [← indexes]
      intro index member
      obtain ⟨bucket, bucketMember, rfl⟩ := List.mem_map.mp member
      exact carries.inside bucket bucketMember
    obtain ⟨atFirst, atRest⟩ := List.forall_mem_cons.mp inside
    have least := le_foldl_min atFirst.1 fun value member => (atRest value member).1
    have greatest := foldl_max_lt atFirst.2 fun value member => (atRest value member).2
    have nonempty : current.counts.isEmpty = false := by
      refine List.isEmpty_eq_false_iff.mpr fun empty => ?_
      obtain ⟨low, high⟩ := atFirst
      unfold stop at high
      rw [empty, List.length_nil] at high
      omega
    unfold unionSpan at span
    dsimp only
    refine if_neg (not_lt.mpr ?_)
    by_cases empty : snapshot.counts.isEmpty = true
    · rw [if_pos empty] at span
      have length := List.length_eq_zero_iff.mpr (List.isEmpty_iff.mp empty)
      rw [if_pos empty, length]
      unfold stop at greatest
      omega
    · rw [if_neg empty, nonempty, if_neg (by decide)] at span
      rw [if_neg empty]
      have snapStop : snapshot.offset + snapshot.counts.length = snapshot.stop := rfl
      rw [snapStop]
      omega

/-- A store that has the current count at every bucket, or that of the snapshot where the two
differ by less than the threshold. -/
def WithinThreshold (threshold : UInt64) (result current snapshot : DdStore) : Prop :=
  ∀ index, result.countAt index = current.countAt index ∨
    result.countAt index = snapshot.countAt index ∧
      snapshot.countAt index ≤ current.countAt index ∧
        current.countAt index - snapshot.countAt index < threshold

theorem Carries.applyPositiveDelta {current snapshot : DdStore} {threshold : UInt64}
    {buckets : List (ℤ × UInt64)} (carries : Carries current snapshot threshold buckets)
    (grown : ∀ index, snapshot.countAt index ≤ current.countAt index)
    (span : unionSpan current snapshot ≤ maxApplyDeltaSpanBuckets) :
    ∃ result, snapshot.applyPositiveDelta buckets = .ok result ∧
      WithinThreshold threshold result current snapshot := by
  refine ⟨buckets.foldl addBucket snapshot, ?_, fun index => ?_⟩
  · unfold DdStore.applyPositiveDelta
    rw [carries.spanError_eq_none span]
  · obtain ⟨added, kept⟩ := countAt_foldl_addBucket snapshot carries.ascending
    by_cases carried : ∃ bucket ∈ buckets, bucket.1 = index
    · obtain ⟨bucket, member, rfl⟩ := carried
      refine Or.inl ?_
      rw [added bucket member, carries.growth bucket member, saturatingAddU64_sub (grown _)]
    · have left : ∀ bucket ∈ buckets, bucket.1 ≠ index :=
        fun bucket member same => carried ⟨bucket, member, same⟩
      rw [kept index left]
      exact (carries.dropped index left).imp Eq.symm fun less => ⟨rfl, grown index, less⟩

theorem WithinThreshold.countAt_eq {threshold : UInt64} {result current snapshot : DdStore}
    (within : WithinThreshold threshold result current snapshot) (small : threshold ≤ 1)
    (index : ℤ) : result.countAt index = current.countAt index := by
  rcases within index with same | ⟨same, grown, less⟩
  · exact same
  · rw [same, eq_of_sub_lt grown less small]

/-- Two stores of which the current one has grown, with `i32` indexes and a union of bounded
span. -/
structure Pair (current snapshot : DdStore) : Prop where
  inI32 : current.InI32
  grown : ∀ index, snapshot.countAt index ≤ current.countAt index
  span : unionSpan current snapshot ≤ maxApplyDeltaSpanBuckets

end DdStore

namespace DdSketch

variable {sketch snapshot : DdSketch}

/-- Two sketches of which the current one has grown. -/
structure Pair (sketch snapshot : DdSketch) : Prop where
  positive : DdStore.Pair sketch.positive snapshot.positive
  negative : DdStore.Pair sketch.negative snapshot.negative
  zeroCount : snapshot.zeroCount ≤ sketch.zeroCount

/-- A result has the current counts up to differences below the threshold. -/
structure WithinThreshold (threshold : UInt64) (result sketch snapshot : DdSketch) : Prop where
  alpha : result.alpha = snapshot.alpha
  positive : DdStore.WithinThreshold threshold result.positive sketch.positive snapshot.positive
  negative : DdStore.WithinThreshold threshold result.negative sketch.negative snapshot.negative
  zeroCount : result.zeroCount = sketch.zeroCount ∨ result.zeroCount = snapshot.zeroCount ∧
    snapshot.zeroCount ≤ sketch.zeroCount ∧ sketch.zeroCount - snapshot.zeroCount < threshold

theorem WithinThreshold.equal {threshold : UInt64} {result : DdSketch}
    (within : WithinThreshold threshold result sketch snapshot) (small : threshold ≤ 1) :
    (∀ index, result.positive.countAt index = sketch.positive.countAt index ∧
      result.negative.countAt index = sketch.negative.countAt index) ∧
        result.zeroCount = sketch.zeroCount := by
  refine ⟨fun index => ⟨within.positive.countAt_eq small index,
    within.negative.countAt_eq small index⟩, ?_⟩
  rcases within.zeroCount with same | ⟨same, grown, less⟩
  · exact same
  · rw [same, eq_of_sub_lt grown less small]

theorem checkedAddU64_sub {left right : UInt64} (le : right ≤ left) :
    checkedAddU64 right (left - right) = some left := by
  have bound := UInt64.toNat_lt left
  have natLe := UInt64.le_iff_toNat_le.mp le
  have sum : right.toNat + (left - right).toNat = left.toNat := by
    rw [UInt64.toNat_sub_of_le _ _ le]
    omega
  unfold checkedAddU64
  rw [if_pos (by rw [sum]; exact bound)]
  refine congrArg some (UInt64.toNat_inj.mp ?_)
  rw [UInt64.toNat_add, sum, Nat.mod_eq_of_lt bound]

theorem checkedAddU64_delta (pair : Pair sketch snapshot) (threshold : UInt64) :
    ∃ zeroCount, checkedAddU64 snapshot.zeroCount (sketch.delta snapshot threshold).zeroCount =
        some zeroCount ∧
      (zeroCount = sketch.zeroCount ∨ zeroCount = snapshot.zeroCount ∧
        snapshot.zeroCount ≤ sketch.zeroCount ∧
          sketch.zeroCount - snapshot.zeroCount < threshold) := by
  unfold delta
  dsimp only
  rw [saturatingSubU64_of_le pair.zeroCount]
  by_cases less : sketch.zeroCount - snapshot.zeroCount < threshold
  · rw [if_pos less]
    have kept := checkedAddU64_sub (UInt64.le_refl snapshot.zeroCount)
    rw [UInt64.sub_self] at kept
    exact ⟨_, kept, Or.inr ⟨rfl, pair.zeroCount, less⟩⟩
  · rw [if_neg less]
    exact ⟨_, checkedAddU64_sub pair.zeroCount, Or.inl rfl⟩

theorem applyDelta_delta (pair : Pair sketch snapshot) (threshold : UInt64) :
    ∃ result, snapshot.applyDelta (sketch.delta snapshot threshold) = (result, .ok) ∧
      WithinThreshold threshold result sketch snapshot := by
  obtain ⟨positive, positiveEq, positiveWithin⟩ :=
    (DdStore.carries_grownBuckets threshold pair.positive.inI32
      pair.positive.grown).applyPositiveDelta pair.positive.grown pair.positive.span
  obtain ⟨negative, negativeEq, negativeWithin⟩ :=
    (DdStore.carries_sparseDifference threshold pair.negative.inI32
      pair.negative.grown).applyPositiveDelta pair.negative.grown pair.negative.span
  obtain ⟨zeroCount, zeroEq, zeroWithin⟩ := checkedAddU64_delta pair threshold
  refine ⟨⟨snapshot.alpha, positive, negative, zeroCount⟩, ?_,
    ⟨rfl, positiveWithin, negativeWithin, zeroWithin⟩⟩
  unfold applyDelta
  rw [zeroEq]
  unfold delta
  dsimp only
  rw [positiveEq, negativeEq]
  rfl

theorem ofDeltaWire_deltaWire (delta : DdSketchDelta) :
    ofDeltaWire (deltaWire delta) = .ok delta := by
  obtain ⟨buckets, negativeBuckets, zeroCount⟩ := delta
  have zipped : ∀ buckets : List (ℤ × UInt64),
      (buckets.map Prod.fst).zip (buckets.map Prod.snd) = buckets :=
    fun buckets => (List.zip_of_prod rfl rfl).symm
  unfold ofDeltaWire deltaWire
  dsimp only
  by_cases unsigned : negativeBuckets.isEmpty = true ∧ zeroCount = 0
  · obtain ⟨empty, rfl⟩ := unsigned
    obtain rfl := List.isEmpty_iff.mp empty
    simp [zipped]
  · rw [if_neg unsigned]
    simp [zipped]

theorem delta_round_trip {prost : Prost DdSketchDelta} {rmp : RmpSerde DeltaWire}
    {threshold : UInt64} (pair : Pair sketch snapshot)
    (prostTrips : prost.RoundTrips (sketch.delta snapshot threshold))
    (rmpTrips : RoundTrips rmp (deltaWire (sketch.delta snapshot threshold))) :
    ∃ result, WithinThreshold threshold result sketch snapshot ∧
      snapshot.applyDeltaBytes prost (sketch.computeDelta prost snapshot threshold) =
        (result, .ok) ∧
      ∃ bytes, sketch.computeDeltaMsgpack rmp snapshot threshold = .ok bytes ∧
        snapshot.applyDeltaMsgpackBytes rmp bytes = (result, .ok) := by
  obtain ⟨result, applied, within⟩ := applyDelta_delta pair threshold
  refine ⟨result, within, ?_, ?_⟩
  · unfold applyDeltaBytes computeDelta
    rw [prostTrips]
    exact applied
  · obtain ⟨bytes, written, read⟩ := fromMsgpack_of_roundTrips rmpTrips
    refine ⟨bytes, ?_, ?_⟩
    · unfold computeDeltaMsgpack
      rw [written]
      rfl
    · unfold applyDeltaMsgpackBytes decodeDeltaMsgpack
      rw [read]
      show applyDecoded applyDelta snapshot (ofDeltaWire _) = _
      rw [ofDeltaWire_deltaWire]
      exact applied

end DdSketch

end Portable

end AsapSketchlib
