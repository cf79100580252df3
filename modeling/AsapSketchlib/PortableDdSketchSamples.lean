/-
This file follows the samples of portable DDSketches through trees of updates, merges and deltas,
over exact arithmetic. Whatever the layout of the stores, the count of a bucket is the number of
the samples in it, so that the elements of a sketch are the buckets of its sorted samples.
-/

import AsapSketchlib.PortableDdSketchRanks

namespace AsapSketchlib

namespace Portable

/-! ### Stores -/

namespace DdStore

def natural (store : DdStore) : Buckets := ⟨store.counts.map UInt64.toNat, store.offset⟩

theorem sameStore_natural (store : DdStore) : SameStore store.natural store := ⟨rfl, rfl⟩

theorem toNat_countAt (store : DdStore) (k : ℤ) :
    (store.countAt k).toNat = store.natural.countAt k := by
  rw [countAt, Buckets.countAt, natural, Dense.countAt]
  split
  · rw [List.getD_eq_getElem?_getD, List.getD_eq_getElem?_getD, List.getElem?_map]
    cases store.counts[(k - store.offset).toNat]? <;> rfl
  · rfl

theorem asI32_wraps (length : ℕ) : ∃ wraps : ℕ, Machine.asI32 length = length - 2 ^ 32 * wraps := by
  refine ⟨((length + 2 ^ 31) / 2 ^ 32 : ℕ), ?_⟩
  rw [Machine.asI32, Int32.toInt_ofNat', Int.bmod_def]
  have size : (Int32.size : ℤ) = 2 ^ 32 := rfl
  rw [size]
  split <;> omega

theorem offset_of_low {offset start k : ℤ} {grow : ℕ} (before : k < start)
    (reaches : grow = max (start - k).toNat ddsketchGrowChunk)
    (moved : start - Machine.asI32 grow = offset) (low : offset ≤ k) : offset = start - grow := by
  obtain ⟨wraps, wrapped⟩ := asI32_wraps grow
  have none : wraps = 0 := by
    by_contra some
    have chunk : ddsketchGrowChunk = 128 := rfl
    rw [chunk] at reaches
    omega
  rw [← moved, wrapped, none]
  omega

variable {store other after grown : DdStore} {k : ℤ}

theorem countAt_ensureBucket (ensured : store.ensureBucket k = some grown)
    (low : grown.offset ≤ k) (index : ℤ) : grown.countAt index = store.countAt index := by
  unfold ensureBucket at ensured
  by_cases empty : store.counts.isEmpty
  · rw [if_pos empty] at ensured
    obtain ⟨offset, -, made⟩ := Option.bind_eq_some_iff.mp ensured
    obtain rfl := Option.some.inj made
    rw [countAt_of_empty (List.isEmpty_iff.mp empty)]
    exact Dense.countAt_replicate offset ddsketchGrowChunk index
  · rw [if_neg empty] at ensured
    by_cases below : k < store.offset
    · rw [if_pos below] at ensured
      obtain ⟨offset, offsetEq, made⟩ := Option.bind_eq_some_iff.mp ensured
      obtain rfl := Option.some.inj made
      have moved : store.offset - Machine.asI32 _ = offset := (Option.ite_some_none_eq_some.mp
        offsetEq).2
      have offsetIs := offset_of_low below rfl moved low
      have size : (store.offset - offset).toNat =
          max (store.offset - k).toNat ddsketchGrowChunk := by omega
      have prepended : Dense.countAt offset (List.replicate (store.offset - offset).toNat 0 ++
          store.counts) index = store.countAt index := countAt_prepend (by omega) index
      rwa [size] at prepended
    · rw [if_neg below] at ensured
      by_cases high : store.stop ≤ k
      · rw [if_pos high] at ensured
        obtain rfl := Option.some.inj ensured
        exact countAt_append store _ index
      · rw [if_neg high] at ensured
        rw [Option.some.inj ensured]

theorem countAt_increment (ensured : store.ensureBucket k = some grown)
    (incremented : grown.increment k = some after) (index : ℤ) :
    after.countAt index =
      if index = k then saturatingAddU64 (store.countAt index) 1 else store.countAt index := by
  obtain ⟨slot, slotEq, rest⟩ := Option.bind_eq_some_iff.mp incremented
  have low : grown.offset ≤ k := by
    by_contra above
    rw [Machine.usize, if_neg (by omega)] at slotEq
    exact absurd slotEq (Option.some_ne_none slot).symm
  have slotIs : slot = (k - grown.offset).toNat := by
    rw [Machine.usize, if_pos (by omega)] at slotEq
    exact (Option.some.inj slotEq).symm
  by_cases inside : slot < grown.counts.length
  · rw [if_pos inside] at rest
    obtain rfl := Option.some.inj rest
    rw [← countAt_ensureBucket ensured low index, slotIs]
    exact Dense.countAt_modify low (by omega) _ index
  · rw [if_neg inside] at rest
    exact absurd rest (Option.some_ne_none after).symm

theorem toNat_countAt_increment (ensured : store.ensureBucket k = some grown)
    (incremented : grown.increment k = some after) (room : (store.countAt k).toNat < u64Max)
    (index : ℤ) : (after.countAt index).toNat =
      (store.countAt index).toNat + if index = k then 1 else 0 := by
  rw [countAt_increment ensured incremented]
  by_cases here : index = k
  · rw [if_pos here, if_pos here, here]
    exact SameStore.toNat_saturatingAdd room
  · rw [if_neg here, if_neg here, Nat.add_zero]

theorem toNat_countAt_merge (merged : store.merge other = .ok after)
    (room : (store.counts.map UInt64.toNat).sum + (other.counts.map UInt64.toNat).sum ≤ u64Max)
    (index : ℤ) :
    (after.countAt index).toNat = (store.countAt index).toNat + (other.countAt index).toNat := by
  have same := store.sameStore_natural.merge_ok other.sameStore_natural merged room
  have equal : after.natural = store.natural.merge other.natural := by
    rw [natural, ← same.counts, ← same.offset]
  rw [toNat_countAt, toNat_countAt, toNat_countAt, equal]
  exact (store.natural.merge_spec other.natural).1 index

def added (buckets : List (ℤ × UInt64)) (index : ℤ) : ℕ :=
  (buckets.map fun bucket => if bucket.1 = index then bucket.2.toNat else 0).sum

theorem toNat_countAt_foldl_addBucket {buckets : List (ℤ × UInt64)} {index : ℤ}
    (room : (store.countAt index).toNat + added buckets index ≤ u64Max) :
    ((buckets.foldl addBucket store).countAt index).toNat =
      (store.countAt index).toNat + added buckets index := by
  induction buckets generalizing store with
  | nil => rfl
  | cons bucket rest hypothesis =>
    rw [added, List.map_cons, List.sum_cons, ← Nat.add_assoc] at room ⊢
    have step : ((store.addBucket bucket).countAt index).toNat =
        (store.countAt index).toNat + if bucket.1 = index then bucket.2.toNat else 0 := by
      rw [countAt_addBucket]
      by_cases here : bucket.1 = index
      · rw [if_pos here] at room ⊢
        rw [if_pos here.symm]
        exact SameStore.toNat_saturatingAdd ((Nat.le_add_right _ _).trans room)
      · rw [if_neg here, if_neg (Ne.symm here), Nat.add_zero]
    rw [← step] at room ⊢
    exact hypothesis room

end DdStore

end Portable

/-! ### Buckets of samples -/

namespace BucketIndex

/-- Of the magnitudes that are indexed, larger ones have larger indexes, and the representative
of a bucket has the relative error alpha. -/
structure Exact (index : BucketIndex) (alpha : ℚ) : Prop where
  inside : 0 < alpha ∧ alpha < 1
  positive : 0 < (index.bounds alpha).1
  monotone : ∀ {magnitude larger : ℚ}, (index.bounds alpha).1 ≤ magnitude → magnitude ≤ larger →
    larger ≤ (index.bounds alpha).2 → index.keyFor alpha magnitude ≤ index.keyFor alpha larger
  accurate : ∀ {magnitude : ℚ}, (index.bounds alpha).1 ≤ magnitude →
    magnitude ≤ (index.bounds alpha).2 →
      |Portable.DdSketch.representative alpha (index.keyFor alpha magnitude).toInt - magnitude| ≤
        alpha * magnitude

def bucketOf (index : BucketIndex) (alpha x : ℚ) : SignedBucket :=
  .ofSample (index.bounds alpha).1 (fun magnitude => (index.keyFor alpha magnitude).toInt) x

def counted (index : BucketIndex) (alpha x : ℚ) : ℚ :=
  if |x| < (index.bounds alpha).1 then 0 else x

end BucketIndex

namespace Portable

/-! ### Trees of updates, merges and deltas -/

namespace DdSketchDelta

def countOf (delta : DdSketchDelta) : SignedBucket → ℕ
  | .negative k => DdStore.added delta.negativeBuckets k
  | .zero => delta.zeroCount.toNat
  | .positive k => DdStore.added delta.buckets k

end DdSketchDelta

namespace DdSketch

def taken : F64 → Returned → List ℚ
  | .finite value, .ok => [value]
  | _, _ => []

/-- Samples of a sketch that a delta carries: as many of each bucket as the delta says. -/
structure Carried (index : BucketIndex) (alpha : ℚ) (delta : DdSketchDelta)
    (samples carried : List ℚ) : Prop where
  among : carried.Subperm samples
  counts : ∀ bucket, (carried.map (index.bucketOf alpha)).count bucket = delta.countOf bucket

/-- A sketch and the samples it took, through updates, merges and deltas between sketches that
were made alike. What returns an error takes none. No sketch takes 2^64 samples. -/
inductive Fed (index : BucketIndex) (alpha : ℚ) : DdSketch → List ℚ → Prop where
  | new : Fed index alpha (.new alpha) []
  | tryUpdate {sketch after : DdSketch} {samples : List ℚ} {value : F64} {returned : Returned}
    (before : Fed index alpha sketch samples)
    (ran : sketch.tryUpdate index value = some (after, returned))
    (few : samples.length < u64Max) : Fed index alpha after (samples ++ taken value returned)
  | merge {sketch other : DdSketch} {samples otherSamples : List ℚ}
    (before : Fed index alpha sketch samples) (another : Fed index alpha other otherSamples)
    (few : samples.length + otherSamples.length ≤ u64Max) :
    Fed index alpha (sketch.merge other).1
      (samples ++ if (sketch.merge other).2 = .ok then otherSamples else [])
  | applyDelta {sketch current snapshot : DdSketch} {threshold : UInt64}
    {samples currentSamples snapshotSamples carried : List ℚ}
    (before : Fed index alpha sketch samples) (ofCurrent : Fed index alpha current currentSamples)
    (ofSnapshot : Fed index alpha snapshot snapshotSamples)
    (carries : Carried index alpha (current.delta snapshot threshold) currentSamples carried)
    (few : samples.length + carried.length ≤ u64Max) :
    Fed index alpha (sketch.applyDelta (current.delta snapshot threshold)).1
      (samples ++
        if (sketch.applyDelta (current.delta snapshot threshold)).2 = .ok then carried else [])

theorem merge_cases (sketch other : DdSketch) :
    (∃ message, sketch.merge other = (sketch, .err message)) ∨
      ∃ positive negative zeroCount,
        mergePositive sketch.alpha other.alpha sketch.positive other.positive = .ok positive ∧
          mergePositive sketch.alpha other.alpha sketch.negative other.negative = .ok negative ∧
            checkedAddU64 sketch.zeroCount other.zeroCount = some zeroCount ∧
              sketch.merge other = (⟨sketch.alpha, positive, negative, zeroCount⟩, .ok) := by
  unfold merge
  cases mergePositive sketch.alpha other.alpha sketch.positive other.positive with
  | error message => exact Or.inl ⟨message, rfl⟩
  | ok positive =>
    cases mergePositive sketch.alpha other.alpha sketch.negative other.negative with
    | error message => exact Or.inl ⟨message, rfl⟩
    | ok negative =>
      cases checkedAddU64 sketch.zeroCount other.zeroCount with
      | none => exact Or.inl ⟨_, rfl⟩
      | some zeroCount => exact Or.inr ⟨positive, negative, zeroCount, rfl, rfl, rfl, rfl⟩

theorem applyDelta_cases (sketch : DdSketch) (delta : DdSketchDelta) :
    (∃ message, sketch.applyDelta delta = (sketch, .err message)) ∨
      ∃ zeroCount, checkedAddU64 sketch.zeroCount delta.zeroCount = some zeroCount ∧
        sketch.applyDelta delta =
          (⟨sketch.alpha, delta.buckets.foldl DdStore.addBucket sketch.positive,
            delta.negativeBuckets.foldl DdStore.addBucket sketch.negative, zeroCount⟩, .ok) := by
  unfold applyDelta DdStore.applyPositiveDelta
  cases sketch.positive.spanError delta.buckets with
  | some message => exact Or.inl ⟨message, rfl⟩
  | none =>
    cases sketch.negative.spanError delta.negativeBuckets with
    | some message => exact Or.inl ⟨message, rfl⟩
    | none =>
      cases checkedAddU64 sketch.zeroCount delta.zeroCount with
      | none => exact Or.inl ⟨_, rfl⟩
      | some zeroCount => exact Or.inr ⟨zeroCount, rfl, rfl⟩

/-- What a sketch holds of its samples: their number in every bucket. -/
structure Holds (index : BucketIndex) (alpha : ℚ) (sketch : DdSketch) (samples : List ℚ) :
    Prop where
  sameAlpha : sketch.alpha = .finite alpha
  counts : ∀ bucket, sketch.countOf bucket = (samples.map (index.bucketOf alpha)).count bucket
  indexed : ∀ x ∈ samples, |x| ≤ (index.bounds alpha).2
  few : samples.length ≤ u64Max

namespace Holds

variable {index : BucketIndex} {alpha : ℚ} {sketch other after : DdSketch}
  {samples otherSamples : List ℚ}

theorem perm (holds : Holds index alpha sketch samples) :
    sketch.elements.Perm (samples.map (index.bucketOf alpha)) :=
  List.perm_iff_count.mpr fun bucket => (count_elements sketch bucket).trans (holds.counts bucket)

theorem length_elements (holds : Holds index alpha sketch samples) :
    sketch.elements.length = samples.length := by
  rw [holds.perm.length_eq, List.length_map]

theorem sum_eq (holds : Holds index alpha sketch samples) :
    sketch.zeroCount.toNat + (sketch.positive.counts.map UInt64.toNat).sum +
      (sketch.negative.counts.map UInt64.toNat).sum = samples.length := by
  rw [← holds.length_elements, DdSketch.length_elements, List.map_append, List.sum_append,
    Nat.add_assoc]

theorem countOf_le (holds : Holds index alpha sketch samples) (bucket : SignedBucket) :
    sketch.countOf bucket ≤ samples.length := by
  rw [holds.counts, ← List.length_map (index.bucketOf alpha)]
  exact List.count_le_length

theorem alphaValue (holds : Holds index alpha sketch samples) : sketch.alphaValue = alpha := by
  rw [DdSketch.alphaValue, holds.sameAlpha]

theorem new (index : BucketIndex) (alpha : ℚ) : Holds index alpha (.new alpha) [] where
  sameAlpha := rfl
  counts bucket := by
    have none : ∀ k, ((⟨[], 0⟩ : DdStore).countAt k).toNat = 0 := fun k =>
      congrArg UInt64.toNat (DdStore.countAt_of_empty rfl k)
    cases bucket with
    | negative k => exact none k
    | zero => rfl
    | positive k => exact none k
  indexed _ member := absurd member List.not_mem_nil
  few := Nat.zero_le _

theorem append (holds : Holds index alpha sketch samples) (sameAlpha : after.alpha = sketch.alpha)
    (few : samples.length + otherSamples.length ≤ u64Max)
    (indexed : ∀ x ∈ otherSamples, |x| ≤ (index.bounds alpha).2)
    (counts : ∀ bucket, after.countOf bucket =
      sketch.countOf bucket + (otherSamples.map (index.bucketOf alpha)).count bucket) :
    Holds index alpha after (samples ++ otherSamples) where
  sameAlpha := sameAlpha.trans holds.sameAlpha
  counts bucket := by
    rw [counts, holds.counts, List.map_append, List.count_append]
  indexed x member := (List.mem_append.mp member).elim (holds.indexed x) (indexed x)
  few := by
    rw [List.length_append]
    exact few

theorem push {value : ℚ} (holds : Holds index alpha sketch samples)
    (sameAlpha : after.alpha = sketch.alpha) (few : samples.length < u64Max)
    (indexed : |value| ≤ (index.bounds alpha).2)
    (counts : ∀ bucket, after.countOf bucket =
      sketch.countOf bucket + if bucket = index.bucketOf alpha value then 1 else 0) :
    Holds index alpha after (samples ++ [value]) := by
  refine holds.append sameAlpha few (fun x member => List.mem_singleton.mp member ▸ indexed) ?_
  intro bucket
  rw [counts, List.map_singleton, List.count_singleton]
  exact congrArg (_ + ·) (if_congr (eq_comm.trans beq_iff_eq.symm) rfl rfl)

theorem tryUpdate {value : F64} {returned : Returned} (holds : Holds index alpha sketch samples)
    (ran : sketch.tryUpdate index value = some (after, returned))
    (few : samples.length < u64Max) :
    Holds index alpha after (samples ++ taken value returned) := by
  have kept : ∀ message, some (sketch, Returned.err message) = some (after, returned) →
      Holds index alpha after (samples ++ taken value returned) := by
    intro message refused
    obtain ⟨rfl, rfl⟩ := Prod.mk.inj (Option.some.inj refused)
    cases value <;> exact (List.append_nil samples).symm ▸ holds
  cases value with
  | finite value =>
    simp only [DdSketch.tryUpdate, holds.alphaValue] at ran
    by_cases large : (index.bounds alpha).2 < |value|
    · rw [if_pos large] at ran
      exact kept _ ran
    · rw [if_neg large] at ran
      by_cases tiny : |value| < (index.bounds alpha).1
      · rw [if_pos tiny] at ran
        cases added : checkedAddU64 sketch.zeroCount 1 with
        | none =>
          rw [added] at ran
          exact kept _ ran
        | some zeroCount =>
          rw [added] at ran
          obtain ⟨rfl, rfl⟩ := Prod.mk.inj (Option.some.inj ran)
          have zeros := Twins.zeros_bound added
          refine holds.push rfl few (not_lt.mp large) fun bucket => ?_
          rw [BucketIndex.bucketOf, SignedBucket.ofSample_zero tiny]
          cases bucket with
          | negative k => rfl
          | zero => exact zeros
          | positive k => rfl
      · rw [if_neg tiny] at ran
        obtain ⟨grown, ensured, rest⟩ := Option.bind_eq_some_iff.mp ran
        obtain ⟨positive, incremented, made⟩ := Option.bind_eq_some_iff.mp rest
        obtain ⟨rfl, rfl⟩ := Prod.mk.inj (Option.some.inj made)
        by_cases negative : value < 0
        · simp only [if_pos negative] at ensured ⊢
          have room := (holds.countOf_le (.negative (index.keyFor alpha |value|).toInt)).trans_lt few
          have counts := DdStore.toNat_countAt_increment ensured incremented room
          refine holds.push rfl few (not_lt.mp large) fun bucket => ?_
          rw [BucketIndex.bucketOf, SignedBucket.ofSample_negative tiny negative]
          cases bucket with
          | negative k =>
            simp only [SignedBucket.negative.injEq]
            exact counts k
          | zero => rfl
          | positive k => rfl
        · simp only [if_neg negative] at ensured ⊢
          have room := (holds.countOf_le (.positive (index.keyFor alpha |value|).toInt)).trans_lt few
          have counts := DdStore.toNat_countAt_increment ensured incremented room
          refine holds.push rfl few (not_lt.mp large) fun bucket => ?_
          rw [BucketIndex.bucketOf, SignedBucket.ofSample_positive tiny negative]
          cases bucket with
          | negative k => rfl
          | zero => rfl
          | positive k =>
            simp only [SignedBucket.positive.injEq]
            exact counts k
  | infinite negative => exact kept _ ran
  | nan => exact kept _ ran

theorem merge (holds : Holds index alpha sketch samples)
    (otherHolds : Holds index alpha other otherSamples)
    (few : samples.length + otherSamples.length ≤ u64Max) :
    Holds index alpha (sketch.merge other).1
      (samples ++ if (sketch.merge other).2 = .ok then otherSamples else []) := by
  rcases merge_cases sketch other with ⟨message, refused⟩ |
    ⟨positive, negative, zeroCount, positiveMerged, negativeMerged, zerosAdded, accepted⟩
  · rw [refused, if_neg Returned.noConfusion, List.append_nil]
    exact holds
  · rw [accepted, if_pos rfl]
    rw [holds.sameAlpha, otherHolds.sameAlpha, Twins.mergePositive_eq] at positiveMerged
    rw [holds.sameAlpha, otherHolds.sameAlpha, Twins.mergePositive_eq] at negativeMerged
    have sum := holds.sum_eq
    have otherSum := otherHolds.sum_eq
    refine holds.append rfl few otherHolds.indexed fun bucket => ?_
    rw [← otherHolds.counts]
    cases bucket with
    | negative k => exact DdStore.toNat_countAt_merge negativeMerged (by omega) k
    | zero => exact Twins.zeros_bound zerosAdded
    | positive k => exact DdStore.toNat_countAt_merge positiveMerged (by omega) k

theorem applyDelta {delta : DdSketchDelta} (holds : Holds index alpha sketch samples)
    (indexed : ∀ x ∈ otherSamples, |x| ≤ (index.bounds alpha).2)
    (carries : ∀ bucket,
      (otherSamples.map (index.bucketOf alpha)).count bucket = delta.countOf bucket)
    (few : samples.length + otherSamples.length ≤ u64Max) :
    Holds index alpha (sketch.applyDelta delta).1
      (samples ++ if (sketch.applyDelta delta).2 = .ok then otherSamples else []) := by
  rcases applyDelta_cases sketch delta with ⟨message, refused⟩ | ⟨zeroCount, zerosAdded, accepted⟩
  · rw [refused, if_neg Returned.noConfusion, List.append_nil]
    exact holds
  · rw [accepted, if_pos rfl]
    have room : ∀ bucket, sketch.countOf bucket + delta.countOf bucket ≤ u64Max := by
      intro bucket
      have carried : delta.countOf bucket ≤ otherSamples.length := by
        rw [← carries, ← List.length_map (index.bucketOf alpha)]
        exact List.count_le_length
      exact (Nat.add_le_add (holds.countOf_le bucket) carried).trans few
    refine holds.append rfl few indexed fun bucket => ?_
    rw [carries]
    cases bucket with
    | negative k => exact DdStore.toNat_countAt_foldl_addBucket (room (.negative k))
    | zero => exact Twins.zeros_bound zerosAdded
    | positive k => exact DdStore.toNat_countAt_foldl_addBucket (room (.positive k))

end Holds

theorem Fed.holds {index : BucketIndex} {alpha : ℚ} {sketch : DdSketch} {samples : List ℚ}
    (fed : Fed index alpha sketch samples) : Holds index alpha sketch samples := by
  induction fed with
  | new => exact .new index alpha
  | tryUpdate _ ran few hypothesis => exact hypothesis.tryUpdate ran few
  | merge _ _ few hypothesis otherHypothesis =>
    exact hypothesis.merge otherHypothesis few
  | applyDelta _ _ _ carries few hypothesis currentHypothesis _ =>
    exact hypothesis.applyDelta
      (fun x member => currentHypothesis.indexed x (carries.among.subset member)) carries.counts few

/-! ### A delta carries samples of its sketch -/

/-- Of any list, as many elements of each image can be chosen as are wanted and there. -/
theorem exists_sublist_counts {Elem Image : Type} [DecidableEq Image] (image : Elem → Image)
    (elems : List Elem) (wanted : Image → ℕ)
    (there : ∀ key, wanted key ≤ (elems.map image).count key) :
    ∃ chosen : List Elem, chosen.Sublist elems ∧ ∀ key, (chosen.map image).count key = wanted key := by
  induction elems generalizing wanted with
  | nil => exact ⟨[], .slnil, fun key => (Nat.le_zero.mp (there key)).symm⟩
  | cons elem rest hypothesis =>
    by_cases unwanted : wanted (image elem) = 0
    · obtain ⟨chosen, sublist, counts⟩ := hypothesis wanted fun key => by
        by_cases here : image elem = key
        · rw [← here, unwanted]
          exact Nat.zero_le _
        · have enough := there key
          rwa [List.map_cons, List.count_cons_of_ne here] at enough
      exact ⟨chosen, sublist.cons elem, counts⟩
    · obtain ⟨chosen, sublist, counts⟩ := hypothesis
        (Function.update wanted (image elem) (wanted (image elem) - 1)) fun key => by
          have enough := there key
          rw [List.map_cons] at enough
          by_cases here : image elem = key
          · rw [← here, List.count_cons_self] at enough
            rw [← here, Function.update_self]
            exact Nat.sub_le_of_le_add enough
          · rw [List.count_cons_of_ne here] at enough
            rwa [Function.update_of_ne (Ne.symm here)]
      refine ⟨elem :: chosen, sublist.cons_cons elem, fun key => ?_⟩
      rw [List.map_cons]
      by_cases here : image elem = key
      · rw [← here, List.count_cons_self, counts, Function.update_self]
        exact Nat.sub_add_cancel (Nat.one_le_iff_ne_zero.mpr unwanted)
      · rw [List.count_cons_of_ne here, counts, Function.update_of_ne (Ne.symm here)]

theorem added_filterMap_le (store : DdStore) {pick : UInt64 × ℕ → Option (ℤ × UInt64)}
    (picks : ∀ entry ∈ store.counts.zipIdx, ∀ bucket, pick entry = some bucket →
      bucket.1 = store.offset + entry.2 ∧ bucket.2 ≤ entry.1) (k : ℤ) :
    DdStore.added (store.counts.zipIdx.filterMap pick) k ≤ (store.countAt k).toNat := by
  rw [← sum_indexed, DdStore.indexed, List.map_map]
  generalize store.counts.zipIdx = entries at picks ⊢
  induction entries with
  | nil => exact Nat.le_refl 0
  | cons entry rest hypothesis =>
    obtain ⟨here, later⟩ := List.forall_mem_cons.mp picks
    rw [List.map_cons, List.sum_cons]
    cases picked : pick entry with
    | none =>
      rw [List.filterMap_cons_none picked]
      exact (hypothesis later).trans (Nat.le_add_left _ _)
    | some bucket =>
      obtain ⟨key, atMost⟩ := here bucket picked
      rw [List.filterMap_cons_some picked, DdStore.added, List.map_cons, List.sum_cons, key]
      refine Nat.add_le_add ?_ (hypothesis later)
      show (if store.offset + (entry.2 : ℤ) = k then bucket.2.toNat else 0) ≤
        if store.offset + (entry.2 : ℤ) = k then entry.1.toNat else 0
      split
      · exact UInt64.le_iff_toNat_le.mp atMost
      · exact Nat.le_refl 0

theorem saturatingSubU64_le (left right : UInt64) : saturatingSubU64 left right ≤ left := by
  rw [saturatingSubU64]
  split
  · exact UInt64.zero_le
  · next notLess =>
    have le := UInt64.le_iff_toNat_le.mp (UInt64.not_lt.mp notLess)
    rw [UInt64.le_iff_toNat_le, UInt64.toNat_sub_of_le _ _ (UInt64.not_lt.mp notLess)]
    exact Nat.sub_le _ _

variable {index : BucketIndex} {alpha : ℚ} {sketch : DdSketch} {samples : List ℚ}

theorem Holds.index_range (holds : Holds index alpha sketch samples) {k : ℤ}
    (occupied : 0 < sketch.countOf (.positive k) ∨ 0 < sketch.countOf (.negative k)) :
    -2 ^ 31 ≤ k ∧ k < 2 ^ 31 := by
  have key : ∀ x, (index.bucketOf alpha x = .positive k ∨ index.bucketOf alpha x = .negative k) →
      (index.keyFor alpha |x|).toInt = k := by
    intro x same
    rw [BucketIndex.bucketOf, SignedBucket.ofSample] at same
    split at same
    · rcases same with same | same <;> exact SignedBucket.noConfusion same
    · split at same
      · rcases same with same | same
        · exact SignedBucket.noConfusion same
        · exact SignedBucket.negative.inj same
      · rcases same with same | same
        · exact SignedBucket.positive.inj same
        · exact SignedBucket.noConfusion same
  have found : ∃ x, (index.keyFor alpha |x|).toInt = k := by
    rcases occupied with some | some <;> rw [holds.counts] at some
    all_goals
      obtain ⟨x, -, same⟩ := List.mem_map.mp (List.count_pos_iff.mp some)
      exact ⟨x, key x (by first | exact Or.inl same | exact Or.inr same)⟩
  obtain ⟨x, rfl⟩ := found
  have range := Machine.int32_range (index.keyFor alpha |x|)
  unfold i32Min i32Max at range
  omega

theorem Holds.countOf_delta_le (holds : Holds index alpha sketch samples) (snapshot : DdSketch)
    (threshold : UInt64) (bucket : SignedBucket) :
    (sketch.delta snapshot threshold).countOf bucket ≤ sketch.countOf bucket := by
  have counted : ∀ (store : DdStore) (entry : UInt64 × ℕ), entry ∈ store.counts.zipIdx →
      entry.1 = store.countAt (store.offset + entry.2) := fun store entry member =>
    (DdStore.countAt_index (List.mem_zipIdx_iff_getElem?.mp member)).symm
  cases bucket with
  | negative k =>
    refine added_filterMap_le sketch.negative (fun entry member bucket picked => ?_) k
    obtain ⟨⟨grew, -⟩, rfl⟩ := Option.ite_some_none_eq_some.mp picked
    refine ⟨?_, saturatingSubU64_le entry.1 _⟩
    have some : 0 < sketch.countOf (.negative (sketch.negative.offset + entry.2)) := by
      show 0 < UInt64.toNat _
      rw [← counted sketch.negative entry member]
      exact (UInt64.lt_iff_toNat_lt.mp grew).trans_le
        (UInt64.le_iff_toNat_le.mp (saturatingSubU64_le entry.1 _))
    obtain ⟨low, high⟩ := holds.index_range (Or.inr some)
    exact DdStore.asI32_of_mem low high
  | zero =>
    show UInt64.toNat (if _ < threshold then 0 else _) ≤ _
    split
    · exact Nat.zero_le _
    · exact UInt64.le_iff_toNat_le.mp (saturatingSubU64_le _ _)
  | positive k =>
    refine added_filterMap_le sketch.positive (fun entry member bucket picked => ?_) k
    simp only at picked
    split at picked
    · exact absurd picked.symm (Option.some_ne_none bucket)
    · next nonzero =>
      obtain ⟨-, rfl⟩ := Option.ite_some_none_eq_some.mp picked
      refine ⟨?_, saturatingSubU64_le entry.1 _⟩
      have some : 0 < sketch.countOf (.positive (sketch.positive.offset + entry.2)) := by
        show 0 < UInt64.toNat _
        rw [← counted sketch.positive entry member]
        exact UInt64.lt_iff_toNat_lt.mp (UInt64.pos_iff_ne_zero.mpr nonzero)
      obtain ⟨low, high⟩ := holds.index_range (Or.inl some)
      show asI32 (sketch.positive.offset + asI32 entry.2) = _
      unfold asI32
      omega

theorem Fed.exists_carried (fed : Fed index alpha sketch samples) (snapshot : DdSketch)
    (threshold : UInt64) :
    ∃ carried, Carried index alpha (sketch.delta snapshot threshold) samples carried := by
  obtain ⟨carried, sublist, counts⟩ := exists_sublist_counts (index.bucketOf alpha) samples
    (sketch.delta snapshot threshold).countOf fun bucket =>
      (fed.holds.countOf_delta_le snapshot threshold bucket).trans_eq (fed.holds.counts bucket)
  exact ⟨carried, sublist.subperm, counts⟩

end DdSketch

end Portable

end AsapSketchlib
