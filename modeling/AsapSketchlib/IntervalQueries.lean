/-
This file proves when an interval query covers its interval. Both histograms merge the buckets
from the one selected for the start to the one selected for the end, so for ordered updates a
result covers the interval exactly where the end points lie well: an end point in a gap
between two buckets is taken for one in the first bucket.
-/

import AsapSketchlib.EHUnivPartition

namespace AsapSketchlib

open EHSketchKind

/-! ### Rules of location -/

namespace TimeRanges

def LastContaining (ranges : TimeRanges) (i time : ℕ) : Prop :=
  i < ranges.count ∧ ranges.Contains i time ∧
    ∀ j, i < j → j < ranges.count → ¬ranges.Contains j time

/-- The first range from `tier` on that contains a time, or else the first of all. -/
def FirstOfTier (tier : ℕ) (ranges : TimeRanges) (i time : ℕ) : Prop :=
  i < ranges.count ∧ ranges.Contains i time ∧
    (∀ j < i, i < tier ∨ tier ≤ j → ¬ranges.Contains j time) ∧
    (i < tier → ∀ j, tier ≤ j → j < ranges.count → ¬ranges.Contains j time)

end TimeRanges

open TimeRanges

/-! ### The exponential histogram -/

namespace ExponentialHistogram

variable {Sketch Input : Type}

def ranges (eh : ExponentialHistogram Sketch) : TimeRanges :=
  .ofBuckets EHBucket.minTime EHBucket.maxTime eh.payload

def locate (time : ℕ) (payload : List (EHBucket Sketch)) : Option ℕ :=
  payload.zipIdx.foldl (fun found entry =>
    if entry.1.minTime ≤ time ∧ time ≤ entry.1.maxTime then some entry.2 else found) none

theorem locate_append_singleton (time : ℕ) (front : List (EHBucket Sketch))
    (last : EHBucket Sketch) : locate time (front ++ [last]) =
      if last.minTime ≤ time ∧ time ≤ last.maxTime then some front.length
      else locate time front := by
  unfold locate
  rw [List.zipIdx_append, List.foldl_append, Nat.zero_add]
  rfl

theorem locateVolumes_eq (t1 t2 : ℕ) (payload : List (EHBucket Sketch)) :
    locateVolumes t1 t2 payload =
      ((locate t1 payload).getD 0, (locate t2 payload).getD 0) := by
  induction payload using List.reverseRecOn with
  | nil => rfl
  | append_singleton front last hypothesis =>
    have step : locateVolumes t1 t2 (front ++ [last]) =
        (if last.minTime ≤ t1 ∧ t1 ≤ last.maxTime then front.length
          else (locateVolumes t1 t2 front).1,
        if last.minTime ≤ t2 ∧ t2 ≤ last.maxTime then front.length
          else (locateVolumes t1 t2 front).2) := by
      unfold locateVolumes
      rw [List.zipIdx_append, List.foldl_append, Nat.zero_add]
      rfl
    rw [step, hypothesis, locate_append_singleton, locate_append_singleton]
    refine Prod.ext ?_ ?_
    · dsimp only
      split <;> rfl
    · dsimp only
      split <;> rfl

theorem locate_eq_some_iff (time : ℕ) (payload : List (EHBucket Sketch)) (i : ℕ) :
    locate time payload = some i ↔
      (ofBuckets EHBucket.minTime EHBucket.maxTime payload).LastContaining i time := by
  induction payload using List.reverseRecOn generalizing i with
  | nil =>
    refine ⟨fun found => absurd found.symm (Option.some_ne_none i), fun last => ?_⟩
    exact absurd last.1 (Nat.not_lt_zero i)
  | append_singleton front last hypothesis =>
    have count : (ofBuckets EHBucket.minTime EHBucket.maxTime (front ++ [last])).count =
        front.length + 1 := List.length_append
    have atLast : (ofBuckets EHBucket.minTime EHBucket.maxTime (front ++ [last])).Contains
        front.length time ↔ last.minTime ≤ time ∧ time ≤ last.maxTime :=
      contains_ofBuckets_iff (List.getElem?_concat_length)
    rw [locate_append_singleton]
    by_cases contains : last.minTime ≤ time ∧ time ≤ last.maxTime
    · rw [if_pos contains]
      constructor
      · rintro ⟨⟩
        refine ⟨count ▸ Nat.lt_succ_self _, atLast.mpr contains, fun j behind bound => ?_⟩
        rw [count] at bound
        exact absurd (Nat.lt_succ_iff.mp bound) (not_le.mpr behind)
      · rintro ⟨bound, _, none⟩
        rw [count] at bound none
        rcases Nat.lt_or_eq_of_le (Nat.lt_succ_iff.mp bound) with earlier | rfl
        · exact absurd (atLast.mpr contains) (none _ earlier (Nat.lt_succ_self _))
        · rfl
    · rw [if_neg contains, hypothesis]
      constructor
      · rintro ⟨bound, inside, none⟩
        refine ⟨count ▸ Nat.lt_succ_of_lt bound, (contains_ofBuckets_append bound).mpr inside, ?_⟩
        intro j behind boundJ
        rw [count] at boundJ
        rcases Nat.lt_or_eq_of_le (Nat.lt_succ_iff.mp boundJ) with earlier | rfl
        · exact fun containsJ => none j behind earlier
            ((contains_ofBuckets_append earlier).mp containsJ)
        · exact fun containsJ => contains (atLast.mp containsJ)
      · rintro ⟨bound, inside, none⟩
        rw [count] at bound none
        rcases Nat.lt_or_eq_of_le (Nat.lt_succ_iff.mp bound) with earlier | rfl
        · refine ⟨earlier, (contains_ofBuckets_append earlier).mp inside, ?_⟩
          exact fun j behind boundJ containsJ => none j behind (Nat.lt_succ_of_lt boundJ)
            ((contains_ofBuckets_append boundJ).mpr containsJ)
        · exact absurd (atLast.mp inside) contains

theorem not_contains_of_locate {time : ℕ} {payload : List (EHBucket Sketch)}
    (unfound : locate time payload = none) :
    ∀ bucket ∈ payload, ¬(bucket.minTime ≤ time ∧ time ≤ bucket.maxTime) := by
  induction payload using List.reverseRecOn with
  | nil => exact fun _ member => absurd member List.not_mem_nil
  | append_singleton front last hypothesis =>
    rw [locate_append_singleton] at unfound
    split at unfound
    · exact absurd unfound (Option.some_ne_none _)
    · next outside =>
      intro bucket member
      rcases List.mem_append.mp member with earlier | newest
      · exact hypothesis unfound bucket earlier
      · rwa [List.mem_singleton.mp newest]

section

variable (eh : ExponentialHistogram Sketch)

theorem locating : eh.ranges.Locating eh.ranges.LastContaining := by
  have finds : ∀ time,
      Locating.Finds eh.ranges.LastContaining (locate time eh.payload) time :=
    fun time => locate_eq_some_iff time eh.payload
  refine Locating.of_locate finds (fun i time last => ⟨last.1, last.2.1⟩) ?_
  intro i bound time contains unfound
  have bucketEq := List.getElem?_eq_getElem (l := eh.payload) bound
  exact not_contains_of_locate unfound _ (List.mem_of_getElem? bucketEq)
    ((contains_ofBuckets_iff bucketEq).mp contains)

theorem fromVolume_eq (t1 t2 : ℕ) :
    fromVolume eh.payload t1 t2 = eh.ranges.selectFrom (locate t1 eh.payload) t1 := by
  simp only [fromVolume, locateVolumes_eq]
  rfl

theorem toVolume_eq (t1 t2 : ℕ) :
    toVolume eh.payload t1 t2 =
      eh.ranges.selectTo (locate t2 eh.payload) True t2 := by
  have within : eh.ranges.selectTo (locate t2 eh.payload) True t2 ≤ eh.payload.length - 1 := by
    unfold selectTo
    split
    · exact le_refl _
    · cases found : locate t2 eh.payload with
      | none => exact Nat.zero_le _
      | some i => exact Nat.le_sub_one_of_lt ((locate_eq_some_iff t2 eh.payload i).mp found).1
  have unclamped : toVolume eh.payload t1 t2 =
      if eh.payload.length ≤ eh.ranges.selectTo (locate t2 eh.payload) True t2 then
        eh.payload.length - 1
      else eh.ranges.selectTo (locate t2 eh.payload) True t2 := by
    simp only [toVolume, locateVolumes_eq, selectTo, true_and]
    rfl
  rw [unclamped]
  split
  · next beyond => exact le_antisymm (by omega) within
  · rfl

end

variable {kind : EHSketchKind Sketch Input}

theorem mergeRange_of_query {eh : ExponentialHistogram Sketch} {t1 t2 : ℕ} {answer : Sketch}
    (query : kind.queryIntervalMerge eh t1 t2 = some answer) :
    0 < eh.ranges.count ∧ kind.mergeRange eh.payload (fromVolume eh.payload t1 t2)
      (max (fromVolume eh.payload t1 t2)
        (toVolume eh.payload t1 t2)) = some answer := by
  unfold queryIntervalMerge at query
  split at query
  · exact absurd query.symm (Option.some_ne_none answer)
  · next nonempty =>
    refine ⟨List.length_pos_iff.mpr fun empty => nonempty (List.isEmpty_iff.mpr empty), ?_⟩
    dsimp only at query
    split at query
    · next less => rwa [max_eq_right (le_of_lt less)]
    · next notLess =>
      obtain ⟨bucket, bucketEq, rfl⟩ := Option.map_eq_some_iff.mp query
      rw [max_eq_left (not_lt.mp notLess)]
      unfold mergeRange
      rw [bucketEq, Option.bind_some, List.drop_eq_nil_of_le (List.length_take_le _ _)]
      rfl

def QueryCovers (eh : ExponentialHistogram Sketch) (t1 t2 : ℕ) : Prop :=
  eh.ranges.Covers t1 t2 (EHSketchKind.fromVolume eh.payload t1 t2)
    (max (EHSketchKind.fromVolume eh.payload t1 t2) (EHSketchKind.toVolume eh.payload t1 t2))

/-- The end points lie well: an end point is located in the last bucket that contains it. -/
def EndsWell (eh : ExponentialHistogram Sketch) (t1 t2 : ℕ) : Prop :=
  eh.ranges.WellCovered eh.ranges.LastContaining True t1 t2

theorem queryCovers_iff {eh : ExponentialHistogram Sketch} (ordered : eh.ranges.Ordered)
    (nonempty : 0 < eh.ranges.count) (t1 t2 : ℕ) :
    eh.QueryCovers t1 t2 ↔ eh.EndsWell t1 t2 := by
  unfold QueryCovers EndsWell
  rw [fromVolume_eq, toVolume_eq]
  exact covers_iff ordered (locating eh) (locate_eq_some_iff t1 eh.payload)
    (locate_eq_some_iff t2 eh.payload) nonempty

end ExponentialHistogram

/-! ### The hybrid histogram -/

theorem findIdx?_eq_some_iff {Entry : Type} {entries : List Entry} {satisfies : Entry → Bool}
    {i : ℕ} : entries.findIdx? satisfies = some i ↔
      (∃ entry, entries[i]? = some entry ∧ satisfies entry = true) ∧
        ∀ j < i, ∀ entry, entries[j]? = some entry → satisfies entry = false := by
  rw [List.findIdx?_eq_some_iff_getElem]
  constructor
  · rintro ⟨bound, holds, earlier⟩
    refine ⟨⟨_, List.getElem?_eq_getElem bound, holds⟩, fun j less entry found => ?_⟩
    obtain ⟨_, rfl⟩ := List.getElem?_eq_some_iff.mp found
    exact eq_false_of_ne_true (earlier j less)
  · rintro ⟨⟨entry, found, holds⟩, earlier⟩
    obtain ⟨bound, rfl⟩ := List.getElem?_eq_some_iff.mp found
    refine ⟨bound, holds, fun j less => ?_⟩
    exact ne_true_of_eq_false (earlier j less _ (List.getElem?_eq_getElem _))

namespace EHUnivOptimized

variable {Sketch : Type} (eh : EHUnivOptimized Sketch)

def ranges : TimeRanges := .ofBuckets tierMin tierMax eh.tiers

theorem count_ranges : eh.ranges.count = eh.umBuckets.length + eh.mapBuckets.length := by
  show (eh.umBuckets.map Sum.inl ++ eh.mapBuckets.map Sum.inr).length = _
  rw [List.length_append, List.length_map, List.length_map]

variable {eh}

theorem tiers_sketch {i : ℕ} {bucket : EHUnivMonBucket Sketch}
    (found : eh.umBuckets[i]? = some bucket) : eh.tiers[i]? = some (.inl bucket) := by
  obtain ⟨bound, -⟩ := List.getElem?_eq_some_iff.mp found
  unfold tiers
  rw [List.getElem?_append_left (by rwa [List.length_map]), List.getElem?_map, found]
  rfl

theorem tiers_map {i : ℕ} {bucket : EHMapBucket} (found : eh.mapBuckets[i]? = some bucket) :
    eh.tiers[i + eh.umBuckets.length]? = some (.inr bucket) := by
  unfold tiers
  rw [List.getElem?_append_right (by rw [List.length_map]; exact Nat.le_add_left _ _),
    List.length_map, Nat.add_sub_cancel, List.getElem?_map, found]
  rfl

theorem contains_sketch_iff {i time : ℕ} {bucket : EHUnivMonBucket Sketch}
    (found : eh.umBuckets[i]? = some bucket) :
    eh.ranges.Contains i time ↔ bucket.minTime ≤ time ∧ time ≤ bucket.maxTime :=
  contains_ofBuckets_iff (tiers_sketch found)

theorem contains_map_iff {i time : ℕ} {bucket : EHMapBucket}
    (found : eh.mapBuckets[i]? = some bucket) :
    eh.ranges.Contains (i + eh.umBuckets.length) time ↔
      bucket.minTime ≤ time ∧ time ≤ bucket.maxTime :=
  contains_ofBuckets_iff (tiers_map found)

theorem index_cases {i : ℕ} (bound : i < eh.ranges.count) :
    (∃ bucket, eh.umBuckets[i]? = some bucket) ∨
      ∃ j bucket, i = j + eh.umBuckets.length ∧ eh.mapBuckets[j]? = some bucket := by
  rw [count_ranges] at bound
  rcases Nat.lt_or_ge i eh.umBuckets.length with inSketches | inMaps
  · exact Or.inl ⟨_, List.getElem?_eq_getElem inSketches⟩
  · have inside : i - eh.umBuckets.length < eh.mapBuckets.length := by omega
    exact Or.inr ⟨i - eh.umBuckets.length, _, (Nat.sub_add_cancel inMaps).symm,
      List.getElem?_eq_getElem inside⟩

/-- Where a map bucket contains a time, the first such bucket is located. -/
theorem firstOfTier_iff_of_map {time k : ℕ} (found : (eh.mapBuckets.findIdx? fun bucket =>
    bucket.minTime ≤ time ∧ time ≤ bucket.maxTime) = some k) (i : ℕ) :
    FirstOfTier eh.umBuckets.length eh.ranges i time ↔ i = k + eh.umBuckets.length := by
  obtain ⟨⟨bucket, bucketEq, contains⟩, earlier⟩ := findIdx?_eq_some_iff.mp found
  have containsK : eh.ranges.Contains (k + eh.umBuckets.length) time :=
    (contains_map_iff bucketEq).mpr (of_decide_eq_true contains)
  have earlierK : ∀ j < k, ¬eh.ranges.Contains (j + eh.umBuckets.length) time := by
    intro j less containsJ
    have bound := less.trans (List.getElem?_eq_some_iff.mp bucketEq).1
    have other := List.getElem?_eq_getElem (l := eh.mapBuckets) bound
    exact of_decide_eq_false (earlier j less _ other) ((contains_map_iff other).mp containsJ)
  have boundK : k + eh.umBuckets.length < eh.ranges.count := by
    have bound := (List.getElem?_eq_some_iff.mp bucketEq).1
    rw [count_ranges]
    omega
  constructor
  · rintro ⟨bound, inside, none, noneMap⟩
    rcases index_cases bound with ⟨sketch, sketchEq⟩ | ⟨j, other, rfl, otherEq⟩
    · exact absurd containsK (noneMap (List.getElem?_eq_some_iff.mp sketchEq).1 _
        (Nat.le_add_left _ _) boundK)
    · rcases Nat.lt_trichotomy j k with less | rfl | behind
      · exact absurd inside (earlierK j less)
      · rfl
      · exact absurd containsK (none _ (Nat.add_lt_add_right behind _)
          (Or.inr (Nat.le_add_left _ _)))
  · rintro rfl
    refine ⟨boundK, containsK, fun j less tier => ?_, fun below => ?_⟩
    · have inMaps : eh.umBuckets.length ≤ j :=
        tier.resolve_left (not_lt.mpr (Nat.le_add_left _ _))
      rw [← Nat.sub_add_cancel inMaps]
      exact earlierK _ (by omega)
    · exact absurd below (not_lt.mpr (Nat.le_add_left _ _))

theorem firstOfTier_iff_of_sketch {time : ℕ} (unfound : (eh.mapBuckets.findIdx? fun bucket =>
    bucket.minTime ≤ time ∧ time ≤ bucket.maxTime) = none) (i : ℕ) :
    FirstOfTier eh.umBuckets.length eh.ranges i time ↔ (eh.umBuckets.findIdx? fun bucket =>
      bucket.minTime ≤ time ∧ time ≤ bucket.maxTime) = some i := by
  have noMap : ∀ j, eh.umBuckets.length ≤ j → j < eh.ranges.count →
      ¬eh.ranges.Contains j time := by
    intro j behind bound containsJ
    rcases index_cases bound with ⟨sketch, sketchEq⟩ | ⟨j, other, rfl, otherEq⟩
    · exact absurd (List.getElem?_eq_some_iff.mp sketchEq).1 (not_lt.mpr behind)
    · have outside := List.findIdx?_eq_none_iff.mp unfound other (List.mem_of_getElem? otherEq)
      exact of_decide_eq_false outside ((contains_map_iff otherEq).mp containsJ)
  rw [findIdx?_eq_some_iff]
  constructor
  · rintro ⟨bound, inside, none, -⟩
    rcases index_cases bound with ⟨sketch, sketchEq⟩ | ⟨j, other, rfl, otherEq⟩
    · refine ⟨⟨sketch, sketchEq, decide_eq_true ((contains_sketch_iff sketchEq).mp inside)⟩, ?_⟩
      intro j less other otherEq
      refine decide_eq_false fun containsJ => ?_
      exact none j less (Or.inl (List.getElem?_eq_some_iff.mp sketchEq).1)
        ((contains_sketch_iff otherEq).mpr containsJ)
    · exact absurd inside (noMap _ (Nat.le_add_left _ _) bound)
  · rintro ⟨⟨sketch, sketchEq, contains⟩, earlier⟩
    have bound := (List.getElem?_eq_some_iff.mp sketchEq).1
    refine ⟨by rw [count_ranges]; omega,
      (contains_sketch_iff sketchEq).mpr (of_decide_eq_true contains), fun j less _ containsJ => ?_,
      fun _ => noMap⟩
    have other := List.getElem?_eq_getElem (l := eh.umBuckets) (less.trans bound)
    exact of_decide_eq_false (earlier j less _ other) ((contains_sketch_iff other).mp containsJ)

theorem locateBucket_eq_some_iff (time i : ℕ) : eh.locateBucket time = some i ↔
    FirstOfTier eh.umBuckets.length eh.ranges i time := by
  unfold locateBucket
  split
  · next k found =>
    rw [firstOfTier_iff_of_map found, Option.some.injEq, eq_comm]
  · next unfound => exact (firstOfTier_iff_of_sketch unfound i).symm

theorem locating : eh.ranges.Locating (FirstOfTier eh.umBuckets.length eh.ranges) := by
  refine Locating.of_locate (fun time => locateBucket_eq_some_iff time)
    (fun i time first => ⟨first.1, first.2.1⟩) ?_
  intro i bound time contains unfound
  unfold locateBucket at unfound
  split at unfound
  · exact absurd unfound (Option.some_ne_none _)
  · next noMap =>
    rcases index_cases bound with ⟨sketch, sketchEq⟩ | ⟨j, other, rfl, otherEq⟩
    · have outside := List.findIdx?_eq_none_iff.mp unfound sketch (List.mem_of_getElem? sketchEq)
      exact of_decide_eq_false outside ((contains_sketch_iff sketchEq).mp contains)
    · have outside := List.findIdx?_eq_none_iff.mp noMap other (List.mem_of_getElem? otherEq)
      exact of_decide_eq_false outside ((contains_map_iff otherEq).mp contains)

/-! ### The selection in the tiers -/

theorem times_sketch {i : ℕ} {bucket : EHUnivMonBucket Sketch}
    (found : eh.umBuckets[i]? = some bucket) :
    eh.ranges.minTime i = bucket.minTime ∧ eh.ranges.maxTime i = bucket.maxTime := by
  simp only [ranges, ofBuckets, tiers_sketch found]
  exact ⟨rfl, rfl⟩

theorem times_map {i : ℕ} {bucket : EHMapBucket} (found : eh.mapBuckets[i]? = some bucket) :
    eh.ranges.minTime (i + eh.umBuckets.length) = bucket.minTime ∧
      eh.ranges.maxTime (i + eh.umBuckets.length) = bucket.maxTime := by
  simp only [ranges, ofBuckets, tiers_map found]
  exact ⟨rfl, rfl⟩

theorem beforeOldest_iff (nonempty : 0 < eh.ranges.count) (t1 : ℕ) :
    eh.BeforeOldest t1 ↔ t1 < eh.ranges.minTime 0 := by
  unfold BeforeOldest
  cases sketches : eh.umBuckets with
  | cons oldest newer =>
    have found : eh.umBuckets[0]? = some oldest := by rw [sketches]; rfl
    rw [(times_sketch found).1]
    simp
  | nil =>
    cases maps : eh.mapBuckets with
    | nil =>
      rw [count_ranges, sketches, maps] at nonempty
      exact absurd nonempty (lt_irrefl 0)
    | cons oldest newer =>
      have found : eh.mapBuckets[0]? = some oldest := by rw [maps]; rfl
      have times := (times_map found).1
      rw [sketches] at times
      rw [show (0 : ℕ) = 0 + ([] : List (EHUnivMonBucket Sketch)).length from rfl, times]
      simp

theorem afterNewestMap_iff (t2 : ℕ) :
    eh.AfterNewestMap t2 ↔
      eh.mapBuckets ≠ [] ∧ eh.ranges.maxTime (eh.ranges.count - 1) < t2 := by
  unfold AfterNewestMap
  rcases List.eq_nil_or_concat eh.mapBuckets with empty | ⟨front, newest, maps⟩
  · rw [empty]
    simp
  · have found : eh.mapBuckets[front.length]? = some newest := by
      rw [maps, List.concat_eq_append]
      exact List.getElem?_concat_length
    have last : eh.ranges.count - 1 = front.length + eh.umBuckets.length := by
      rw [count_ranges, maps, List.length_concat]
      omega
    rw [last, (times_map found).2, maps, List.concat_eq_append]
    simp

theorem snapBucket_eq (t1 i : ℕ) :
    eh.snapBucket t1 i (eh.ranges.minTime i) (eh.ranges.maxTime i) = eh.ranges.snap t1 i := by
  unfold snapBucket snap
  rw [count_ranges]
  rfl

theorem fromBucket_eq (nonempty : 0 < eh.ranges.count) (t1 : ℕ) :
    eh.fromBucket t1 = eh.ranges.selectFrom (eh.locateBucket t1) t1 := by
  have bound : eh.ranges.selectFrom (eh.locateBucket t1) t1 < eh.ranges.count :=
    selectFrom_lt locating (locateBucket_eq_some_iff t1) nonempty
  have startBound := start_lt locating (locateBucket_eq_some_iff t1) nonempty
  unfold selectFrom at bound ⊢
  unfold fromBucket
  simp only [beforeOldest_iff nonempty, ← count_ranges]
  generalize (if t1 < eh.ranges.minTime 0 then 0 else (eh.locateBucket t1).getD 0) = i
    at bound startBound ⊢
  rcases index_cases startBound with ⟨sketch, found⟩ | ⟨j, map, rfl, found⟩
  · obtain ⟨minEq, maxEq⟩ := times_sketch found
    simp only [if_pos (List.getElem?_eq_some_iff.mp found).1, found, ← minEq, ← maxEq,
      snapBucket_eq]
    exact if_neg (not_le.mpr bound)
  · obtain ⟨minEq, maxEq⟩ := times_map found
    simp only [if_neg (not_lt.mpr (Nat.le_add_left eh.umBuckets.length j)), Nat.add_sub_cancel,
      found, ← minEq, ← maxEq, snapBucket_eq]
    exact if_neg (not_le.mpr bound)

/-- The last bucket merged is the one selected for the end, if that is not in front of the
first. -/
theorem toBucket_eq (nonempty : 0 < eh.ranges.count) (t1 t2 : ℕ) :
    eh.toBucket t1 t2 = max (eh.ranges.selectFrom (eh.locateBucket t1) t1)
      (eh.ranges.selectTo (eh.locateBucket t2) (eh.mapBuckets ≠ []) t2) := by
  have within : eh.ranges.selectTo (eh.locateBucket t2) (eh.mapBuckets ≠ []) t2 <
      eh.ranges.count := by
    unfold selectTo
    split
    · exact Nat.sub_one_lt_of_lt nonempty
    · cases found : eh.locateBucket t2 with
      | none => exact nonempty
      | some i => exact ((locateBucket_eq_some_iff t2 i).mp found).1
  have selected : (if eh.AfterNewestMap t2 then eh.mapBuckets.length - 1 + eh.umBuckets.length
      else (eh.locateBucket t2).getD 0) =
        eh.ranges.selectTo (eh.locateBucket t2) (eh.mapBuckets ≠ []) t2 := by
    unfold selectTo
    simp only [afterNewestMap_iff]
    split
    · next after =>
      have some := List.length_pos_iff.mpr after.1
      rw [count_ranges]
      omega
    · rfl
  unfold toBucket
  simp only [selected, ← count_ranges, if_neg (not_le.mpr within), fromBucket_eq nonempty]
  split
  · next less => exact (max_eq_left (le_of_lt less)).symm
  · next notLess => exact (max_eq_right (not_lt.mp notLess)).symm

variable (eh)

def QueryCovers (t1 t2 : ℕ) : Prop := eh.ranges.Covers t1 t2 (eh.fromBucket t1) (eh.toBucket t1 t2)

/-- The end points lie well: an end point is located in the first map bucket that contains it,
or else in the first sketch bucket, and the end of the histogram is known from the maps only. -/
def EndsWell (t1 t2 : ℕ) : Prop :=
  eh.ranges.WellCovered (FirstOfTier eh.umBuckets.length eh.ranges) (eh.mapBuckets ≠ []) t1 t2

variable {eh}

theorem queryCovers_iff (ordered : eh.ranges.Ordered) (nonempty : 0 < eh.ranges.count)
    (t1 t2 : ℕ) : eh.QueryCovers t1 t2 ↔ eh.EndsWell t1 t2 := by
  unfold QueryCovers EndsWell
  rw [fromBucket_eq nonempty, toBucket_eq nonempty]
  exact covers_iff ordered locating (locateBucket_eq_some_iff t1) (locateBucket_eq_some_iff t2)
    nonempty

end EHUnivOptimized

/-! ### Queries of reached histograms -/

def UnivObservation.nothing {Sketch : Type} (kind : UnivKind Sketch) : UnivObservation kind ℕ where
  valid := fun _ => True
  observe := fun _ => 0
  weight := fun _ _ => 0
  additive := fun _ _ _ => rfl
  fresh := fun _ _ => ⟨trivial, rfl⟩
  insert := fun _ _ _ _ _ _ => ⟨trivial, rfl⟩
  merge := fun _ _ _ _ _ _ => ⟨trivial, rfl⟩
  free := fun _ _ => ⟨trivial, rfl⟩

/-- For ordered updates a query that returns a result merges the buckets selected, and these
cover its interval exactly where the end points lie well. -/
theorem interval_query_covers_iff (arith : MassArith) (k window t1 t2 : ℕ) :
    (∀ {Sketch Input : Type} (kind : EHSketchKind Sketch Input) (prototype : Sketch)
        (stream : List (ℕ × Input)) (eh : ExponentialHistogram Sketch) (answer : Sketch),
      (stream.Pairwise fun earlier later => earlier.1 ≤ later.1) →
      eh = kind.updateAll arith (kind.new k window prototype) stream →
      kind.queryIntervalMerge eh t1 t2 = some answer →
        kind.mergeRange eh.payload (EHSketchKind.fromVolume eh.payload t1 t2)
          (max (EHSketchKind.fromVolume eh.payload t1 t2)
            (EHSketchKind.toVolume eh.payload t1 t2)) = some answer ∧
        (eh.QueryCovers t1 t2 ↔ eh.EndsWell t1 t2)) ∧
    (∀ {Sketch : Type} (kind : UnivKind Sketch) (sketchRow sketchCol layerSize poolCap : ℕ)
        (start eh : EHUnivOptimized Sketch) (stream : List TimedUpdate)
        (tables : ℕ → HashTable HeapItem HeapItem.eqItem) (answer : EHUnivQueryResult Sketch),
      (stream.Pairwise fun earlier later => earlier.time ≤ later.time) →
      kind.newHistogram k window sketchRow sketchCol layerSize poolCap = some start →
      kind.Reaches arith start stream eh →
      kind.queryInterval tables eh t1 t2 = some answer →
        kind.mergeRange tables eh (eh.fromBucket t1) (eh.toBucket t1 t2) = some answer ∧
        (eh.QueryCovers t1 t2 ↔ eh.EndsWell t1 t2)) := by
  constructor
  · rintro Sketch Input kind prototype stream eh answer sorted rfl query
    have partitions := EHSketchKind.partitions_updateAll kind arith k window prototype sorted
    obtain ⟨within, ordered⟩ := partitions.ordered (fun _ _ held => held.spans) sorted
    obtain ⟨nonempty, merged⟩ := ExponentialHistogram.mergeRange_of_query query
    exact ⟨merged, ExponentialHistogram.queryCovers_iff (ordered_ofBuckets within ordered) nonempty
      t1 t2⟩
  · intro Sketch kind sketchRow sketchCol layerSize poolCap start eh stream tables answer sorted
      created reached query
    have sound := (UnivObservation.nothing kind).sound_of_reaches created reached sorted
    obtain ⟨within, ordered⟩ := sound.partitions.ordered
      (fun _ _ holds => UnivObservation.TierHolds.spans holds) sorted
    unfold UnivKind.queryInterval at query
    split at query
    · exact absurd query.symm (Option.some_ne_none answer)
    · next nonempty =>
      rw [← EHUnivOptimized.count_ranges] at nonempty
      exact ⟨query, EHUnivOptimized.queryCovers_iff (ordered_ofBuckets within ordered)
        (Nat.pos_of_ne_zero nonempty) t1 t2⟩

/-! ### An end point in a gap -/

def gapHistogram : ExponentialHistogram CountMin :=
  (EHSketchKind.countMin collidingHasher).updateAll .exact
    ((EHSketchKind.countMin collidingHasher).new 10 100 (CountMin.withDimensions 1 2))
    [(1, DataInput.u64 1), (5, .u64 2), (9, .u64 3)]

def smallUnivKind : UnivKind UnivMon :=
  UnivMon.kind plainXxHash (fun _ => HashTable.searching HeapItem.eqItem) 4 1 8 2

def gapRun : Option (EHUnivOptimized UnivMon × EHUnivOptimized UnivMon) := do
  let start ← smallUnivKind.newHistogram 2 100 1 8 2 0
  let first ← smallUnivKind.update .exact (fun _ => HashTable.searching HeapItem.eqItem)
    ⟨1, .u64 1, 1⟩ start
  let second ← smallUnivKind.update .exact (fun _ => HashTable.searching HeapItem.eqItem)
    ⟨5, .u64 2, 1⟩ first
  let third ← smallUnivKind.update .exact (fun _ => HashTable.searching HeapItem.eqItem)
    ⟨9, .u64 3, 1⟩ second
  return (start, third)

theorem gapRun_reaches : ∃ start eh, smallUnivKind.newHistogram 2 100 1 8 2 0 = some start ∧
    smallUnivKind.Reaches .exact start [⟨1, .u64 1, 1⟩, ⟨5, .u64 2, 1⟩, ⟨9, .u64 3, 1⟩] eh ∧
    (eh.ranges.count, eh.ranges.minTime 1, eh.ranges.maxTime 1, eh.fromBucket 1, eh.toBucket 1 7) =
      (3, 5, 5, 0, 0) ∧
    (smallUnivKind.queryInterval (fun _ => HashTable.searching HeapItem.eqItem) eh 1 7).isSome := by
  have run : (gapRun.map fun states => ((states.2.ranges.count, states.2.ranges.minTime 1,
      states.2.ranges.maxTime 1, states.2.fromBucket 1, states.2.toBucket 1 7),
      (smallUnivKind.queryInterval (fun _ => HashTable.searching HeapItem.eqItem) states.2 1
        7).isSome)) = some ((3, 5, 5, 0, 0), true) := by decide +kernel
  obtain ⟨⟨start, eh⟩, reached, selected⟩ := Option.map_eq_some_iff.mp run
  simp only [gapRun, Option.bind_eq_bind, Option.bind_eq_some_iff] at reached
  obtain ⟨fresh, created, first, firstStep, second, secondStep, third, thirdStep, equal⟩ := reached
  obtain ⟨rfl, rfl⟩ := Prod.mk.inj (Option.some.inj equal)
  obtain ⟨times, answered⟩ := Prod.mk.inj selected
  exact ⟨fresh, third, created,
    .update _ (.update _ (.update _ .start firstStep) secondStep) thirdStep, times, answered⟩

/-- A query from 1 to 7 gives a result that misses the bucket of time 5, in either histogram. -/
theorem interval_query_misses :
    (∃ answer, (EHSketchKind.countMin collidingHasher).queryIntervalMerge gapHistogram 1 7 =
      some answer ∧ ¬gapHistogram.QueryCovers 1 7) ∧
    ∃ start eh answer, smallUnivKind.newHistogram 2 100 1 8 2 0 = some start ∧
      smallUnivKind.Reaches .exact start [⟨1, .u64 1, 1⟩, ⟨5, .u64 2, 1⟩, ⟨9, .u64 3, 1⟩] eh ∧
      smallUnivKind.queryInterval (fun _ => HashTable.searching HeapItem.eqItem) eh 1 7 =
        some answer ∧ ¬eh.QueryCovers 1 7 := by
  constructor
  · have answered : ((EHSketchKind.countMin collidingHasher).queryIntervalMerge gapHistogram 1
        7).isSome = true := by decide +kernel
    obtain ⟨answer, query⟩ := Option.isSome_iff_exists.mp answered
    refine ⟨answer, query, fun covers => ?_⟩
    have selected : max (EHSketchKind.fromVolume gapHistogram.payload 1 7)
        (EHSketchKind.toVolume gapHistogram.payload 1 7) = 0 := by decide +kernel
    have times : (gapHistogram.ranges.count, gapHistogram.ranges.minTime 1,
        gapHistogram.ranges.maxTime 1) = (3, 5, 5) := by decide +kernel
    obtain ⟨count, times⟩ := Prod.mk.inj times
    obtain ⟨minTime, maxTime⟩ := Prod.mk.inj times
    have missed := (covers.inside 1 (by rw [count]; decide)
      ⟨by rw [minTime]; decide, by rw [maxTime]; decide⟩).2
    rw [selected] at missed
    exact absurd missed (by decide)
  · obtain ⟨start, eh, created, reached, selected, answered⟩ := gapRun_reaches
    obtain ⟨answer, query⟩ := Option.isSome_iff_exists.mp answered
    refine ⟨start, eh, answer, created, reached, query, fun covers => ?_⟩
    simp only [Prod.mk.injEq] at selected
    obtain ⟨count, minTime, maxTime, -, last⟩ := selected
    have missed := (covers.inside 1 (by rw [count]; decide)
      ⟨by rw [minTime]; decide, by rw [maxTime]; decide⟩).2
    rw [last] at missed
    exact absurd missed (by decide)

/-- The same queries under the condition, which they do not meet. -/
theorem interval_query_covers_iff_gap :
    (gapHistogram.QueryCovers 1 7 ↔ gapHistogram.EndsWell 1 7) ∧
    ∃ eh : EHUnivOptimized UnivMon, (eh.QueryCovers 1 7 ↔ eh.EndsWell 1 7) := by
  constructor
  · have answered : ((EHSketchKind.countMin collidingHasher).queryIntervalMerge gapHistogram 1
        7).isSome = true := by decide +kernel
    obtain ⟨answer, query⟩ := Option.isSome_iff_exists.mp answered
    exact ((interval_query_covers_iff .exact 10 100 1 7).1 _ _ _ gapHistogram answer (by decide)
      rfl query).2
  · obtain ⟨start, eh, created, reached, -, answered⟩ := gapRun_reaches
    obtain ⟨answer, query⟩ := Option.isSome_iff_exists.mp answered
    exact ⟨eh, ((interval_query_covers_iff .exact 2 100 1 7).2 smallUnivKind 1 8 2 0 start eh _ _
      answer (by decide) created reached query).2⟩

end AsapSketchlib
