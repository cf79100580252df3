/-
This file proves the mass invariant of the L2 rule: after one backward scan every two
neighbouring map buckets together outweigh a fraction of all newer ones. A merge can only make
the older of two buckets heavier, since the square of a sum of frequencies is at least the sum
of their squares, so the pairs that the scan has passed stay heavy.
-/

import AsapSketchlib.EHUnivPartition
import AsapSketchlib.HistogramSizes

namespace AsapSketchlib

/-! ### Heavy pairs -/

section Heavy

variable {Bucket : Type} (k : ℕ) (massOf : Bucket → ℚ)

/-- Every two neighbours together outweigh a fraction of all that is newer. -/
def HeavyPairs : List Bucket → Prop
  | bucket :: next :: newer =>
    (newer.map massOf).sum / k < massOf bucket + massOf next ∧ HeavyPairs (next :: newer)
  | _ => True

variable {k massOf}

theorem HeavyPairs.tail {bucket : Bucket} {newer : List Bucket}
    (heavy : HeavyPairs k massOf (bucket :: newer)) : HeavyPairs k massOf newer := by
  cases newer with
  | nil => trivial
  | cons next rest => exact heavy.2

theorem HeavyPairs.replace {bucket heavier : Bucket} {newer : List Bucket}
    (heavy : HeavyPairs k massOf (bucket :: newer)) (le : massOf bucket ≤ massOf heavier) :
    HeavyPairs k massOf (heavier :: newer) := by
  cases newer with
  | nil => trivial
  | cons next rest => exact ⟨heavy.1.trans_le (add_le_add_left le _), heavy.2⟩

theorem HeavyPairs.pair {front newer : List Bucket} {bucket next : Bucket}
    (heavy : HeavyPairs k massOf (front ++ bucket :: next :: newer)) :
    (newer.map massOf).sum / k < massOf bucket + massOf next := by
  induction front with
  | nil => exact heavy.1
  | cons first rest hypothesis => exact hypothesis heavy.tail

end Heavy

/-! ### The scan -/

namespace MassScan

variable {Bucket : Type} {k : ℕ} {massOf : Bucket → ℚ}
  {join : ℕ → Bucket → Bucket → Option Bucket} {valid : Bucket → Prop}

/-- Left of index `count` nothing is known; from there on all pairs are heavy, and the mass
passed is that of all buckets but the one at `count`. -/
structure Passed (k : ℕ) (massOf : Bucket → ℚ) (valid : Bucket → Prop) (count : ℕ)
    (scan : MassScan Bucket) : Prop where
  valid : ∀ bucket ∈ scan.buckets, valid bucket
  mass : scan.sumL22 = ((scan.buckets.drop (count + 1)).map massOf).sum
  heavy : HeavyPairs k massOf (scan.buckets.drop count)

/-- Merging keeps buckets valid, and only makes them heavier. -/
def Grows (massOf : Bucket → ℚ) (valid : Bucket → Prop)
    (join : ℕ → Bucket → Bucket → Option Bucket) : Prop :=
  ∀ i older newer merged, valid older → valid newer → join i older newer = some merged →
    valid merged ∧ massOf newer ≤ massOf merged

theorem passed_visit {i : ℕ} {scan visited : MassScan Bucket}
    (grows : Grows massOf valid join) (passed : Passed k massOf valid (i + 1) scan)
    (step : visit .exact k massOf join i scan = some visited) :
    Passed k massOf valid i visited := by
  obtain ⟨front, bucket, next, back, cut, rfl, ⟨outweighs, rfl⟩ | ⟨merged, joined, rfl⟩⟩ :=
    visit_cases step
  · have mass := passed.mass
    have heavy := passed.heavy
    have dropOne : scan.buckets.drop (front.length + 1) = next :: back := by
      rw [cut, List.drop_length_add_append]
      rfl
    have dropTwo : scan.buckets.drop (front.length + 1 + 1) = back := by
      rw [cut, Nat.add_assoc, List.drop_length_add_append]
      rfl
    rw [dropTwo] at mass
    rw [dropOne] at heavy
    refine ⟨passed.valid, ?_, ?_⟩
    · show scan.sumL22 + massOf next = ((scan.buckets.drop (front.length + 1)).map massOf).sum
      rw [dropOne, mass, List.map_cons, List.sum_cons, add_comm]
    · show HeavyPairs k massOf (scan.buckets.drop front.length)
      rw [cut, List.drop_left]
      refine ⟨?_, heavy⟩
      rw [← mass]
      have above : scan.sumL22 / k + 1 / 10 ^ 9 < massOf bucket + massOf next := outweighs
      have positive : (0 : ℚ) < 1 / 10 ^ 9 := by norm_num
      linarith
  · have mass := passed.mass
    have heavy := passed.heavy
    have all := passed.valid
    rw [cut] at mass heavy all
    rw [Nat.add_assoc, List.drop_length_add_append] at mass
    rw [List.drop_length_add_append] at heavy
    obtain ⟨mergedValid, heavier⟩ := grows front.length bucket next merged
      (all bucket (List.mem_append_right _ List.mem_cons_self))
      (all next (List.mem_append_right _ (List.mem_cons_of_mem _ List.mem_cons_self))) joined
    refine ⟨?_, ?_, ?_⟩
    · intro other member
      rcases List.mem_append.mp member with inFront | inRest
      · exact all other (List.mem_append_left _ inFront)
      · rcases List.mem_cons.mp inRest with rfl | inBack
        · exact mergedValid
        · exact all other (List.mem_append_right _
            (List.mem_cons_of_mem _ (List.mem_cons_of_mem _ inBack)))
    · show scan.sumL22 = (((front ++ merged :: back).drop (front.length + 1)).map massOf).sum
      rw [List.drop_length_add_append, mass]
      rfl
    · show HeavyPairs k massOf ((front ++ merged :: back).drop front.length)
      rw [List.drop_left]
      exact HeavyPairs.replace heavy heavier

theorem passed_below {count : ℕ} {scan final : MassScan Bucket}
    (grows : Grows massOf valid join) (passed : Passed k massOf valid count scan)
    (run : below .exact k massOf join count scan = some final) :
    Passed k massOf valid 0 final := by
  induction count generalizing scan with
  | zero => exact Option.some.inj run ▸ passed
  | succ i hypothesis =>
    obtain ⟨visited, step, later⟩ := Option.bind_eq_some_iff.mp run
    exact hypothesis (passed_visit grows passed step) later

theorem heavy_run {buckets : List Bucket} {final : MassScan Bucket}
    (grows : Grows massOf valid join) (all : ∀ bucket ∈ buckets, valid bucket)
    (run : MassScan.run .exact k massOf join buckets 0 = some final) :
    (∀ bucket ∈ final.buckets, valid bucket) ∧ HeavyPairs k massOf final.buckets := by
  have start : Passed k massOf valid (buckets.length - 1) ⟨buckets, 0, []⟩ := by
    refine ⟨all, ?_, ?_⟩
    · rw [List.drop_of_length_le (by show buckets.length ≤ _; omega)]
      rfl
    · show HeavyPairs k massOf (buckets.drop (buckets.length - 1))
      rcases List.eq_nil_or_concat buckets with rfl | ⟨front, last, rfl⟩
      · trivial
      · rw [List.concat_eq_append, List.length_append, List.length_singleton,
          Nat.add_sub_cancel, List.drop_left]
        trivial
  have final := passed_below grows start run
  exact ⟨final.valid, final.heavy⟩

end MassScan

/-! ### Maps -/

def squares (freqMap : List (HeapItem × ℤ)) : ℚ :=
  HashTable.weigh (fun _ (value : ℤ) => (value : ℚ) * value) freqMap

/-- A map bucket whose mass is that of its map, which has no negative frequency. -/
structure Weighed (bucket : EHMapBucket) : Prop where
  mass : bucket.l22 = squares bucket.freqMap
  nonneg : ∀ entry ∈ bucket.freqMap, 0 ≤ entry.2

theorem calcMapL22_exact (table : HashTable HeapItem HeapItem.eqItem)
    (freqMap : List (HeapItem × ℤ)) : calcMapL22 .exact table freqMap = squares freqMap := by
  have total : ∀ (rest : List (HeapItem × ℤ)) (sum : ℚ),
      rest.foldl (fun sum entry => MassArith.exact.add sum (MassArith.exact.square entry.2)) sum =
        sum + squares rest := by
    intro rest
    induction rest with
    | nil => exact fun sum => (add_zero sum).symm
    | cons first rest hypothesis =>
      intro sum
      rw [List.foldl_cons, hypothesis]
      exact add_assoc _ _ _
  unfold calcMapL22
  rw [total, zero_add]
  exact HashTable.weigh_perm _ (table.iterate_perm freqMap)

theorem le_squares_addFrequencies (table : HashTable HeapItem HeapItem.eqItem)
    {freqMap entries : List (HeapItem × ℤ)} (nonneg : ∀ entry ∈ freqMap, 0 ≤ entry.2)
    (entriesNonneg : ∀ entry ∈ entries, 0 ≤ entry.2) :
    (∀ entry ∈ addFrequencies table freqMap entries, 0 ≤ entry.2) ∧
      squares freqMap + squares entries ≤ squares (addFrequencies table freqMap entries) := by
  induction entries generalizing freqMap with
  | nil => exact ⟨nonneg, (add_zero _).le⟩
  | cons first rest hypothesis =>
    obtain ⟨firstNonneg, restNonneg⟩ := List.forall_mem_cons.mp entriesNonneg
    have superadditive : ∀ old new : ℤ, 0 ≤ old → 0 ≤ new →
        (old : ℚ) * old + (new : ℚ) * new ≤ ((old + new : ℤ) : ℚ) * ((old + new : ℤ) : ℚ) := by
      intro old new oldNonneg newNonneg
      have cross : 0 ≤ (old : ℚ) * new :=
        mul_nonneg (Int.cast_nonneg oldNonneg) (Int.cast_nonneg newNonneg)
      push_cast
      nlinarith only [cross]
    have grown : squares freqMap + (first.2 : ℚ) * first.2 ≤
        squares (table.upsert (fun old => old + first.2) freqMap first.1 first.2) :=
      HashTable.add_le_weigh_upsert (fun old new => old + new) superadditive nonneg firstNonneg
    have still : ∀ entry ∈ table.upsert (fun old => old + first.2) freqMap first.1 first.2,
        0 ≤ entry.2 :=
      HashTable.forall_upsert (fun old => old + first.2) nonneg firstNonneg
        fun old oldNonneg => add_nonneg oldNonneg firstNonneg
    obtain ⟨all, total⟩ := hypothesis still restNonneg
    refine ⟨all, le_trans ?_ total⟩
    show squares freqMap + ((first.2 : ℚ) * first.2 + squares rest) ≤ _
    rw [← add_assoc]
    exact add_le_add_left grown _

theorem squares_nonneg (freqMap : List (HeapItem × ℤ)) : 0 ≤ squares freqMap := by
  refine List.sum_nonneg fun value member => ?_
  obtain ⟨entry, -, rfl⟩ := List.mem_map.mp member
  exact mul_self_nonneg _

theorem weighed_single {entry : TimedUpdate} (nonneg : 0 ≤ entry.value) :
    Weighed (EHMapBucket.single .exact entry) where
  mass := (add_zero _).symm
  nonneg := List.forall_mem_singleton.mpr nonneg

theorem grows_join (tables : ℕ → HashTable HeapItem HeapItem.eqItem) :
    MassScan.Grows EHMapBucket.l22 Weighed fun i bucket next =>
      some (EHMapBucket.join .exact (tables i) (tables (i + 1)) bucket next) := by
  intro i older newer merged olderWeighed newerWeighed joined
  obtain rfl := Option.some.inj joined
  have visited := (tables (i + 1)).iterate_perm newer.freqMap
  obtain ⟨nonneg, grown⟩ := le_squares_addFrequencies (tables i) olderWeighed.nonneg
    fun entry member => newerWeighed.nonneg entry (visited.mem_iff.mp member)
  have iterated : squares ((tables (i + 1)).iterate newer.freqMap) = newer.l22 :=
    (HashTable.weigh_perm _ visited).trans newerWeighed.mass.symm
  refine ⟨⟨calcMapL22_exact _ _, nonneg⟩, ?_⟩
  have square := squares_nonneg older.freqMap
  show newer.l22 ≤ calcMapL22 .exact (tables i) _
  rw [calcMapL22_exact]
  linarith

/-! ### Runs -/

namespace UnivKind

variable {Sketch : Type} {kind : UnivKind Sketch}

theorem mapBuckets_mergeSketchBuckets {arith : MassArith} {eh eh' : EHUnivOptimized Sketch}
    {sumL22 : ℚ} (merged : kind.mergeSketchBuckets arith sumL22 eh = some eh') :
    eh'.mapBuckets = eh.mapBuckets := by
  obtain ⟨scan, -, rfl⟩ := Option.map_eq_some_iff.mp merged
  rfl

theorem mapBuckets_promoteOldestMap {arith : MassArith}
    {tables : ℕ → HashTable HeapItem HeapItem.eqItem} {eh eh' : EHUnivOptimized Sketch}
    {sumL22 : ℚ} (promoted : kind.promoteOldestMap arith tables sumL22 eh = some eh') :
    ∃ oldest, eh.mapBuckets = oldest :: eh'.mapBuckets := by
  unfold promoteOldestMap at promoted
  cases maps : eh.mapBuckets with
  | nil =>
    rw [maps] at promoted
    exact absurd promoted.symm (Option.some_ne_none _)
  | cons oldest newer =>
    simp only [maps] at promoted
    obtain ⟨taken, -, promoted⟩ := Option.bind_eq_some_iff.mp promoted
    obtain ⟨sketch, -, promoted⟩ := Option.bind_eq_some_iff.mp promoted
    exact ⟨oldest, by rw [mapBuckets_mergeSketchBuckets promoted]⟩

theorem heavy_update {k window : ℕ} {tables : ℕ → HashTable HeapItem HeapItem.eqItem}
    {eh eh' : EHUnivOptimized Sketch} {entry : TimedUpdate} (nonneg : 0 ≤ entry.value)
    (configured : Configured k window eh) (weighed : ∀ bucket ∈ eh.mapBuckets, Weighed bucket)
    (step : kind.update .exact tables entry eh = some eh') :
    (∀ bucket ∈ eh'.mapBuckets, Weighed bucket) ∧
      HeavyPairs k EHMapBucket.l22 eh'.mapBuckets := by
  obtain ⟨rfl, -⟩ := configured
  obtain ⟨scan, run, step⟩ := Option.bind_eq_some_iff.mp step
  have pushed : ∀ bucket ∈ (kind.expire entry.time eh).mapBuckets ++
      [EHMapBucket.single .exact entry], Weighed bucket := by
    refine List.forall_mem_append.mpr ⟨fun bucket member => ?_,
      List.forall_mem_singleton.mpr (weighed_single nonneg)⟩
    exact weighed bucket ((List.dropWhile_sublist _).subset member)
  have scanned := MassScan.heavy_run (grows_join tables) pushed run
  dsimp only at step
  split at step
  · obtain ⟨oldest, cut⟩ := mapBuckets_promoteOldestMap step
    rw [show scan.buckets = oldest :: eh'.mapBuckets from cut] at scanned
    exact ⟨fun bucket member => scanned.1 bucket (List.mem_cons_of_mem oldest member),
      scanned.2.tail⟩
  · obtain rfl := Option.some.inj step
    exact scanned

theorem heavy_of_reaches {k window sketchRow sketchCol layerSize poolCap : ℕ}
    {start eh : EHUnivOptimized Sketch} {stream : List TimedUpdate}
    (created : kind.newHistogram k window sketchRow sketchCol layerSize poolCap = some start)
    (nonneg : ∀ entry ∈ stream, 0 ≤ entry.value)
    (reached : kind.Reaches .exact start stream eh) :
    (∀ bucket ∈ eh.mapBuckets, Weighed bucket) ∧
      HeavyPairs (max k 1) EHMapBucket.l22 eh.mapBuckets := by
  induction reached with
  | start =>
    obtain ⟨pool, -, rfl⟩ := Option.map_eq_some_iff.mp created
    exact ⟨fun bucket member => absurd member List.not_mem_nil, trivial⟩
  | update tables before step hypothesis =>
    obtain ⟨earlier, last⟩ := List.forall_mem_append.mp nonneg
    exact heavy_update (last _ List.mem_cons_self) (configured_of_reaches created before)
      (hypothesis earlier).1 step

end UnivKind

/-! ### The invariants -/

/-- The size invariants of the L1 rule hold after every run whose merges succeed, and the mass
invariant of the L2 rule after every run of the hybrid histogram. -/
theorem histogram_invariants :
    (∀ {Sketch Input : Type} (kind : EHSketchKind Sketch Input) (arith : MassArith)
        (k window : ℕ) (prototype : Sketch) (stream : List (ℕ × Input)),
      kind.inferMergeNorm prototype = .l1 →
      kind.MergesSucceed arith (kind.new k window prototype) stream →
        EHSketchKind.L1Invariant (max k 1) (EHSketchKind.sizes
          (kind.updateAll arith (kind.new k window prototype) stream).payload)) ∧
    (∀ {Sketch : Type} (kind : UnivKind Sketch)
        (k window sketchRow sketchCol layerSize poolCap : ℕ) (start eh : EHUnivOptimized Sketch)
        (stream : List TimedUpdate),
      kind.newHistogram k window sketchRow sketchCol layerSize poolCap = some start →
      kind.Reaches .exact start stream eh →
      (∀ entry ∈ stream, 0 ≤ entry.value) →
        ∀ older bucket next newer, eh.mapBuckets = older ++ bucket :: next :: newer →
          (newer.map EHMapBucket.l22).sum / (max k 1 : ℕ) < bucket.l22 + next.l22) := by
  constructor
  · intro Sketch Input kind arith k window prototype stream rule success
    have start : EHSketchKind.SizesSettled (max k 1) (kind.new k window prototype) :=
      ⟨rfl, rule, [], rfl, BinaryRuns.balanced_nil _⟩
    exact (EHSketchKind.sizesSettled_updateAll (Nat.le_max_right k 1) start success).settled.invariant
  · intro Sketch kind k window sketchRow sketchCol layerSize poolCap start eh stream created reached
      nonneg older bucket next newer cut
    have heavy := (UnivKind.heavy_of_reaches created nonneg reached).2
    rw [cut] at heavy
    exact heavy.pair

theorem ok_of_isOk {result : Except String Unit} (success : result.isOk = true) :
    result = .ok () := by
  cases result with
  | ok _ => rfl
  | error refusal => exact absurd success Bool.false_ne_true

/-- Three inserts, of which the last one makes the first two merge, and two map buckets that
stay apart. -/
theorem histogram_invariants_small :
    EHSketchKind.L1Invariant 1 (EHSketchKind.sizes
      ((EHSketchKind.countMin collidingHasher).updateAll .exact
        ((EHSketchKind.countMin collidingHasher).new 1 10 (CountMin.withDimensions 1 2))
        [(0, .u64 1), (1, .u64 1), (2, .u64 1)]).payload) ∧
    ∃ eh : EHUnivOptimized UnivMon, eh.mapBuckets.length = 2 ∧
      ∀ older bucket next newer, eh.mapBuckets = older ++ bucket :: next :: newer →
        (newer.map EHMapBucket.l22).sum / (2 : ℕ) < bucket.l22 + next.l22 := by
  constructor
  · refine histogram_invariants.1 (EHSketchKind.countMin collidingHasher) .exact 1 10 _
      [(0, DataInput.u64 1), (1, DataInput.u64 1), (2, DataInput.u64 1)] (by decide) ?_
    exact ⟨ok_of_isOk (by decide +kernel), ok_of_isOk (by decide +kernel),
      ok_of_isOk (by decide +kernel), trivial⟩
  · have run : (((UnivMon.kind plainXxHash (fun _ => HashTable.searching HeapItem.eqItem) 4 1 8 2
        ).newHistogram 2 10 1 8 2 0).bind fun start =>
        ((UnivMon.kind plainXxHash (fun _ => HashTable.searching HeapItem.eqItem) 4 1 8 2
          ).update .exact (fun _ => HashTable.searching HeapItem.eqItem) ⟨0, .u64 1, 3⟩
            start).bind fun first =>
        ((UnivMon.kind plainXxHash (fun _ => HashTable.searching HeapItem.eqItem) 4 1 8 2
          ).update .exact (fun _ => HashTable.searching HeapItem.eqItem) ⟨5, .u64 2, 2⟩
            first).map fun second => second.mapBuckets.length) = some 2 := by decide +kernel
    obtain ⟨start, created, run⟩ := Option.bind_eq_some_iff.mp run
    obtain ⟨first, firstStep, run⟩ := Option.bind_eq_some_iff.mp run
    obtain ⟨second, secondStep, length⟩ := Option.map_eq_some_iff.mp run
    exact ⟨second, length, histogram_invariants.2 _ 2 10 1 8 2 0 start second
      [⟨0, .u64 1, 3⟩, ⟨5, .u64 2, 2⟩] created (.update _ (.update _ .start firstStep) secondStep)
      (by decide)⟩

end AsapSketchlib
