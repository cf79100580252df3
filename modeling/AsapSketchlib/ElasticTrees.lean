/-
This file proves that the Elastic sketch never underestimates: over every tree of inserts,
merges, expansions and compressions, the estimate of a flow is at least the number of its
occurrences, and no report lists a flow twice. Copies that an expansion leaves behind might as
well be dropped at once: no operation tells the difference.
-/

import AsapSketchlib.ElasticResizing

namespace AsapSketchlib

namespace Elastic

variable {hasher : SketchHasher} {sketch other : Elastic} {total otherTotal : String → ℤ}

/-! ### Stale copies are not read -/

theorem eq_of_bucketAt {left right : Elastic} (sameLength : left.heavy.length = right.heavy.length)
    (sameBuckets : ∀ idx, bucketAt left idx = bucketAt right idx)
    (sameLight : left.light = right.light) (sameCount : left.bktlen = right.bktlen)
    (sameCopies : left.staleCopies = right.staleCopies) : left = right := by
  obtain ⟨heavy, light, bktlen, staleCopies⟩ := left
  obtain ⟨heavy', light', bktlen', staleCopies'⟩ := right
  obtain rfl : light = light' := sameLight
  obtain rfl : bktlen = bktlen' := sameCount
  obtain rfl : staleCopies = staleCopies' := sameCopies
  have sameHeavy : heavy = heavy' := by
    refine List.ext_getElem sameLength fun idx inside inside' => ?_
    have same := sameBuckets idx
    simp only [bucketAt, List.getElem?_eq_getElem inside, List.getElem?_eq_getElem inside',
      Option.getD_some] at same
    exact same
  rw [sameHeavy]

theorem staleAt_dropStaleCopies (sketch : Elastic) (idx : ℕ) :
    staleAt hasher (dropStaleCopies hasher sketch) idx = false := by
  unfold staleAt
  rw [dropStaleCopies_staleCopies, Bool.false_and]

theorem dropStaleCopies_setBucket {idx : ℕ} (inside : idx < sketch.heavy.length)
    {bucket : HeavyBucket}
    (live : sketch.staleCopies = true → bucketIndex hasher sketch bucket.flowId = idx) :
    dropStaleCopies hasher (setBucket sketch idx bucket) =
      setBucket (dropStaleCopies hasher sketch) idx bucket := by
  have lengths : (dropStaleCopies hasher sketch).heavy.length = sketch.heavy.length :=
    length_dropStaleCopies sketch
  have readAt := bucketAt_setBucket inside bucket
  have readDropped := bucketAt_setBucket
    (lengths ▸ inside : idx < (dropStaleCopies hasher sketch).heavy.length) bucket
  refine eq_of_bucketAt ?_ (fun place => ?_) ?_ ?_ ?_
  · rw [length_dropStaleCopies]
    show (sketch.heavy.set idx bucket).length =
      ((dropStaleCopies hasher sketch).heavy.set idx bucket).length
    rw [List.length_set, List.length_set, length_dropStaleCopies]
  · rw [bucketAt_dropStaleCopies, readDropped, bucketAt_dropStaleCopies, readAt]
    by_cases here : idx = place
    · rw [if_pos here, if_pos here, if_neg]
      intro stale
      obtain ⟨copies, -, elsewhere⟩ := (staleAt_iff place).mp stale
      rw [readAt, if_pos here] at elsewhere
      exact elsewhere ((live copies).trans here)
    · have sameStale : staleAt hasher (setBucket sketch idx bucket) place =
          staleAt hasher sketch place := by
        unfold staleAt
        rw [readAt, if_neg here]
        rfl
      rw [if_neg here, if_neg here, sameStale]
  · rw [dropStaleCopies_light]
    exact (dropStaleCopies_light sketch).symm
  · rw [dropStaleCopies_bktlen]
    exact (dropStaleCopies_bktlen sketch).symm
  · rw [dropStaleCopies_staleCopies]
    exact (dropStaleCopies_staleCopies sketch).symm

theorem dropStaleCopies_insertLight (sketch : Elastic) (id : String) (votes : ℤ) :
    dropStaleCopies hasher (insertLight hasher sketch id votes) =
      insertLight hasher (dropStaleCopies hasher sketch) id votes := by
  unfold dropStaleCopies
  by_cases copies : sketch.staleCopies = true
  · rw [if_pos copies, if_pos (show (insertLight hasher sketch id votes).staleCopies = true from
      copies)]
    rfl
  · rw [if_neg copies, if_neg (show ¬(insertLight hasher sketch id votes).staleCopies = true from
      copies)]

theorem dropStaleCopies_insertMany (sized : sketch.heavy.length = sketch.bktlen)
    (someBucket : 0 < sketch.bktlen) (id : String) (count : ℤ) :
    dropStaleCopies hasher (insertMany hasher sketch id count) =
      insertMany hasher (dropStaleCopies hasher sketch) id count := by
  have inside : bucketIndex hasher sketch id < sketch.heavy.length :=
    sized.symm ▸ Nat.mod_lt _ someBucket
  unfold insertMany
  by_cases empty : count ≤ 0
  · rw [if_pos empty, if_pos empty]
  · rw [if_neg empty, if_neg empty]
    simp only [bucketIndex_dropStaleCopies, staleAt_dropStaleCopies, Bool.false_eq_true, if_false,
      bucketAt_dropStaleCopies]
    by_cases stale : staleAt hasher sketch (bucketIndex hasher sketch id) = true
    · rw [if_pos stale, if_pos stale]
      exact dropStaleCopies_setBucket inside fun _ => rfl
    · rw [if_neg stale, if_neg stale]
      simp only [HeavyBucket.isVacant, decide_eq_true_eq]
      by_cases vacant : (bucketAt sketch (bucketIndex hasher sketch id)).votePos = 0
      · rw [if_pos vacant, if_pos vacant]
        exact dropStaleCopies_setBucket inside fun _ => rfl
      · rw [if_neg vacant, if_neg vacant]
        have placed : sketch.staleCopies = true → bucketIndex hasher sketch
            (bucketAt sketch (bucketIndex hasher sketch id)).flowId =
              bucketIndex hasher sketch id := fun copies => by
          by_contra elsewhere
          exact stale ((staleAt_iff _).mpr ⟨copies, vacant, elsewhere⟩)
        by_cases resident : (bucketAt sketch (bucketIndex hasher sketch id)).flowId = id
        · rw [if_pos resident, if_pos resident]
          refine dropStaleCopies_setBucket inside ?_
          exact placed
        · rw [if_neg resident, if_neg resident]
          split
          · rw [dropStaleCopies_insertLight, dropStaleCopies_setBucket inside]
            exact placed
          · rw [dropStaleCopies_insertLight, dropStaleCopies_setBucket inside]
            exact fun _ => rfl

theorem contender_dropStaleCopies (sketch : Elastic) (idx : ℕ) :
    contender hasher (dropStaleCopies hasher sketch) idx = contender hasher sketch idx := by
  unfold contender
  rw [staleAt_dropStaleCopies, bucketAt_dropStaleCopies]
  by_cases stale : staleAt hasher sketch idx = true
  · rw [if_pos stale, stale]
    simp [HeavyBucket.emptied, HeavyBucket.isVacant]
  · rw [if_neg stale, Bool.eq_false_iff.mpr stale]

theorem contest_dropStaleCopies (sketch other : Elastic) (idx : ℕ) :
    contest hasher (dropStaleCopies hasher sketch) other idx = contest hasher sketch other idx ∧
      contest hasher sketch (dropStaleCopies hasher other) idx =
        contest hasher sketch other idx := by
  unfold contest
  simp only [contender_dropStaleCopies, query_dropStaleCopies, and_self]

theorem merge_dropStaleCopies (sketch other : Elastic) :
    merge hasher (dropStaleCopies hasher sketch) other = merge hasher sketch other ∧
      merge hasher sketch (dropStaleCopies hasher other) = merge hasher sketch other := by
  have mine : contest hasher (dropStaleCopies hasher sketch) other = contest hasher sketch other :=
    funext fun idx => (contest_dropStaleCopies sketch other idx).1
  have theirs : contest hasher sketch (dropStaleCopies hasher other) =
      contest hasher sketch other := funext fun idx => (contest_dropStaleCopies sketch other idx).2
  unfold merge contestHeavyAgainst
  simp only [dropStaleCopies_bktlen, dropStaleCopies_light, length_dropStaleCopies,
    mine, theirs, and_self]

/-- Expanding leaves the same live buckets where stale copies were dropped before. -/
theorem dropStaleCopies_expandedTable (sized : sketch.heavy.length = sketch.bktlen) :
    dropStaleCopies hasher (expandedTable (dropStaleCopies hasher sketch)) =
      dropStaleCopies hasher (expandedTable sketch) := by
  have settledSized : (dropStaleCopies hasher sketch).heavy.length =
      (dropStaleCopies hasher sketch).bktlen := by
    rw [length_dropStaleCopies, dropStaleCopies_bktlen, sized]
  have doubled : (dropStaleCopies hasher sketch).bktlen * 2 = sketch.bktlen * 2 := by
    rw [dropStaleCopies_bktlen]
  refine eq_of_bucketAt ?_ (fun idx => ?_) ?_ ?_ ?_
  · rw [length_dropStaleCopies, length_dropStaleCopies, length_expandedTable sized,
      length_expandedTable settledSized, doubled]
  · rw [bucketAt_dropStaleCopies, bucketAt_dropStaleCopies]
    by_cases inside : idx < sketch.bktlen * 2
    · have read : bucketAt (expandedTable sketch) idx = _ := bucketAt_expandedTable sized inside
      have settledRead := bucketAt_expandedTable settledSized (doubled.symm ▸ inside)
      rw [bucketAt_dropStaleCopies, dropStaleCopies_bktlen] at settledRead
      by_cases stale : staleAt hasher sketch (idx % sketch.bktlen) = true
      · rw [if_pos stale] at settledRead
        obtain ⟨-, seated, elsewhere⟩ := (staleAt_iff _).mp stale
        have staleNow : staleAt hasher (expandedTable sketch) idx = true := by
          refine (staleAt_iff idx).mpr ⟨rfl, read ▸ seated, fun here => elsewhere ?_⟩
          rw [read] at here
          rw [← bucketIndex_expandedTable, here]
        rw [if_pos staleNow, settledRead, ite_self]
      · rw [if_neg stale] at settledRead
        have sameStale : staleAt hasher (expandedTable (dropStaleCopies hasher sketch)) idx =
            staleAt hasher (expandedTable sketch) idx := by
          have sameIndex : ∀ id, bucketIndex hasher (expandedTable
              (dropStaleCopies hasher sketch)) id = bucketIndex hasher (expandedTable sketch) id :=
            fun id => congrArg (_ % ·) doubled
          unfold staleAt
          rw [read, settledRead, sameIndex]
          rfl
        rw [sameStale, read, settledRead]
    · have outside : (expandedTable sketch).heavy.length ≤ idx :=
        (length_expandedTable sized).trans_le (not_lt.mp inside)
      have settledOutside : (expandedTable (dropStaleCopies hasher sketch)).heavy.length ≤ idx :=
        ((length_expandedTable settledSized).trans doubled).trans_le (not_lt.mp inside)
      have vacant : ∀ {table : Elastic}, table.heavy.length ≤ idx →
          ¬staleAt hasher table idx = true := fun beyond stale =>
        ((staleAt_iff idx).mp stale).2.1 (by rw [bucketAt_of_length_le beyond]; rfl)
      rw [if_neg (vacant outside), if_neg (vacant settledOutside), bucketAt_of_length_le outside,
        bucketAt_of_length_le settledOutside]
  · rw [dropStaleCopies_light, dropStaleCopies_light, expandedTable, dropStaleCopies_light]
    rfl
  · rw [dropStaleCopies_bktlen, dropStaleCopies_bktlen]
    exact doubled
  · rw [dropStaleCopies_staleCopies, dropStaleCopies_staleCopies]

theorem expandHeavy_dropStaleCopies (sized : sketch.heavy.length = sketch.bktlen) :
    (expandHeavy (dropStaleCopies hasher sketch)).map (dropStaleCopies hasher) =
      (expandHeavy sketch).map (dropStaleCopies hasher) := by
  rw [expandHeavy_eq, expandHeavy_eq, dropStaleCopies_bktlen]
  split
  · rw [Option.map_some, Option.map_some, dropStaleCopies_expandedTable sized]
  · rfl

theorem compressHeavy_dropStaleCopies (sketch : Elastic) (ratio : ℕ) :
    (compressHeavy hasher (dropStaleCopies hasher sketch) ratio).map (dropStaleCopies hasher) =
      (compressHeavy hasher sketch ratio).map (dropStaleCopies hasher) := by
  have again : dropStaleCopies hasher (dropStaleCopies hasher sketch) =
      dropStaleCopies hasher sketch := by
    rw [dropStaleCopies.eq_1 hasher (dropStaleCopies hasher sketch), dropStaleCopies_staleCopies]
    rfl
  unfold compressHeavy
  rw [dropStaleCopies_bktlen, again]
  by_cases unchanged : ratio = 1
  · simp only [if_pos unchanged]
    split
    · rw [Option.map_some, Option.map_some, again]
    · rfl
  · simp only [if_neg unchanged]

theorem residentFlows_dropStaleCopies (sketch : Elastic) :
    residentFlows hasher (dropStaleCopies hasher sketch) = residentFlows hasher sketch := by
  have sameLive : ∀ idx,
      (!(bucketAt (dropStaleCopies hasher sketch) idx).isVacant &&
        !staleAt hasher (dropStaleCopies hasher sketch) idx) =
      (!(bucketAt sketch idx).isVacant && !staleAt hasher sketch idx) := by
    intro idx
    rw [staleAt_dropStaleCopies, bucketAt_dropStaleCopies]
    by_cases stale : staleAt hasher sketch idx = true
    · rw [if_pos stale, stale]
      simp [HeavyBucket.emptied, HeavyBucket.isVacant]
    · rw [if_neg stale, Bool.eq_false_iff.mpr stale]
  unfold residentFlows
  simp only [sameLive, length_dropStaleCopies, query_dropStaleCopies]
  refine congrArg (List.mergeSort · flowLe) (List.map_congr_left fun idx member => ?_)
  have live := (List.mem_filter.mp member).2
  simp only [Bool.and_eq_true, Bool.not_eq_true'] at live
  rw [bucketAt_dropStaleCopies, if_neg (Bool.eq_false_iff.mp live.2)]

/-- Copies left behind by an expansion might as well be dropped at once: no query reads one, no
contest meets one, and every operation ends with the same live buckets. -/
structure StaleUnread (hasher : SketchHasher) (sketch : Elastic) : Prop where
  query : ∀ id, query hasher (dropStaleCopies hasher sketch) id = query hasher sketch id
  contender : ∀ idx, staleAt hasher sketch idx = true → contender hasher sketch idx = none
  insertMany : ∀ id count, dropStaleCopies hasher (insertMany hasher sketch id count) =
    insertMany hasher (dropStaleCopies hasher sketch) id count
  merge : ∀ other, merge hasher (dropStaleCopies hasher sketch) other = merge hasher sketch other
  mergeInto : ∀ other,
    Elastic.merge hasher other (dropStaleCopies hasher sketch) = Elastic.merge hasher other sketch
  expandHeavy : (expandHeavy (dropStaleCopies hasher sketch)).map (dropStaleCopies hasher) =
    (expandHeavy sketch).map (dropStaleCopies hasher)
  compressHeavy : ∀ ratio,
    (compressHeavy hasher (dropStaleCopies hasher sketch) ratio).map (dropStaleCopies hasher) =
      (compressHeavy hasher sketch ratio).map (dropStaleCopies hasher)
  residentFlows : residentFlows hasher (dropStaleCopies hasher sketch) =
    residentFlows hasher sketch

theorem Covers.staleUnread (covers : Covers hasher sketch total) : StaleUnread hasher sketch where
  query := query_dropStaleCopies sketch
  contender idx stale := by
    simp only [Elastic.contender, stale, Bool.not_true, Bool.and_false]
    rfl
  insertMany := dropStaleCopies_insertMany covers.sized covers.someBucket
  merge other := (merge_dropStaleCopies sketch other).1
  mergeInto other := (merge_dropStaleCopies other sketch).2
  expandHeavy := expandHeavy_dropStaleCopies covers.sized
  compressHeavy := compressHeavy_dropStaleCopies sketch
  residentFlows := residentFlows_dropStaleCopies sketch

/-! ### Reports -/

theorem Covers.nodup_residentFlows (covers : Covers hasher sketch total) :
    ((residentFlows hasher sketch).map Prod.fst).Nodup := by
  unfold residentFlows
  refine ((List.mergeSort_perm _ flowLe).map Prod.fst).nodup_iff.mpr ?_
  rw [List.map_map]
  refine List.Nodup.map_on (fun idx member idx' member' same => ?_)
    (List.nodup_range.filter _)
  have placed : ∀ place, place ∈ (List.range sketch.heavy.length).filter (fun place =>
      !(bucketAt sketch place).isVacant && !staleAt hasher sketch place) →
        bucketIndex hasher sketch (bucketAt sketch place).flowId = place := by
    intro place inTable
    obtain ⟨inRange, live⟩ := List.mem_filter.mp inTable
    simp only [Bool.and_eq_true, Bool.not_eq_true', HeavyBucket.isVacant,
      decide_eq_false_iff_not] at live
    exact covers.placed_of_not_staleAt (covers.sized ▸ List.mem_range.mp inRange)
      (Bool.eq_false_iff.mp live.2) live.1
  rw [← placed idx member, ← placed idx' member']
  exact congrArg (bucketIndex hasher sketch) same

theorem Covers.nodup_heavyHitters (covers : Covers hasher sketch total) (threshold : ℤ) :
    ((heavyHitters hasher sketch threshold).map Prod.fst).Nodup :=
  covers.nodup_residentFlows.sublist (List.filter_sublist.map Prod.fst)

end Elastic

/-! ### Trees of operations -/

/-- How a sketch is built. -/
inductive ElasticTree where
  | empty (bucketCount lightRows lightCols : ℕ)
  | insertMany (tree : ElasticTree) (id : String) (count : ℤ)
  | merge (tree other : ElasticTree)
  | expandHeavy (tree : ElasticTree)
  | compressHeavy (tree : ElasticTree) (ratio : ℕ)

namespace ElasticTree

def build (hasher : SketchHasher) : ElasticTree → Option Elastic
  | empty bucketCount lightRows lightCols =>
    Elastic.initWithDimensions bucketCount lightRows lightCols
  | insertMany tree id count => (build hasher tree).map fun sketch =>
    Elastic.insertMany hasher sketch id count
  | merge tree other => (build hasher tree).bind fun sketch =>
    (build hasher other).bind (Elastic.merge hasher sketch)
  | expandHeavy tree => (build hasher tree).bind Elastic.expandHeavy
  | compressHeavy tree ratio => (build hasher tree).bind fun sketch =>
    Elastic.compressHeavy hasher sketch ratio

/-- The occurrences of a flow in a tree. An insert records a positive count only. -/
def total : ElasticTree → String → ℤ
  | empty _ _ _, _ => 0
  | insertMany tree id count, flow => total tree flow + if id = flow then max count 0 else 0
  | merge tree other, flow => total tree flow + total other flow
  | expandHeavy tree, flow => total tree flow
  | compressHeavy tree _, flow => total tree flow

variable {hasher : SketchHasher}

theorem covers_empty {bucketCount lightRows lightCols : ℕ} {sketch : Elastic}
    (accepted : Elastic.initWithDimensions bucketCount lightRows lightCols = some sketch) :
    Elastic.Covers hasher sketch fun _ => 0 := by
  unfold Elastic.initWithDimensions at accepted
  split at accepted
  case isFalse => exact absurd accepted (by simp)
  rename_i dimensions
  obtain rfl := Option.some.inj accepted
  have allNew : ∀ idx, Elastic.bucketAt (Elastic.mk (List.replicate bucketCount HeavyBucket.new)
      (CountMin.withDimensions lightRows lightCols) bucketCount false) idx = HeavyBucket.new := by
    intro idx
    simp only [Elastic.bucketAt, List.getElem?_replicate]
    split <;> rfl
  have accruing := CountMin.accruing_withDimensions dimensions.2.1 dimensions.2.2
  refine ⟨List.length_replicate, dimensions.1, accruing, fun idx => ?_,
    fun _ idx _ seated => ?_, fun id => ?_⟩
  · rw [allNew]
    exact le_rfl
  · rw [allNew] at seated
    exact absurd rfl seated
  · rw [allNew]
    refine ⟨?_, fun _ _ => le_rfl⟩
    rw [HeavyBucket.answer_of_not_seats fun seats => seats.1 rfl]
    exact accruing.estimate_nonneg _

theorem covers_build {tree : ElasticTree} {sketch : Elastic}
    (built : build hasher tree = some sketch) : Elastic.Covers hasher sketch (total tree) := by
  induction tree generalizing sketch with
  | empty bucketCount lightRows lightCols => exact covers_empty built
  | insertMany tree id count hypothesis =>
    obtain ⟨before, beforeBuilt, rfl⟩ := Option.map_eq_some_iff.mp built
    have covers := hypothesis beforeBuilt
    by_cases positive : 0 < count
    · have inserted := covers.insertMany id positive
      simp only [Elastic.arrival] at inserted
      show Elastic.Covers hasher _ fun flow => total tree flow + if id = flow then max count 0 else 0
      rw [max_eq_left positive.le]
      exact inserted
    · have ignored : Elastic.insertMany hasher before id count = before :=
        if_pos (not_lt.mp positive)
      have noneCounted : total (insertMany tree id count) = total tree := by
        funext flow
        show total tree flow + (if id = flow then max count 0 else 0) = total tree flow
        rw [max_eq_right (not_lt.mp positive), ite_self, add_zero]
      rw [ignored, noneCounted]
      exact covers
  | merge tree other treeHypothesis otherHypothesis =>
    obtain ⟨left, leftBuilt, rest⟩ := Option.bind_eq_some_iff.mp built
    obtain ⟨right, rightBuilt, merged⟩ := Option.bind_eq_some_iff.mp rest
    exact (treeHypothesis leftBuilt).merge (otherHypothesis rightBuilt) merged
  | expandHeavy tree hypothesis =>
    obtain ⟨before, beforeBuilt, expanded⟩ := Option.bind_eq_some_iff.mp built
    exact (hypothesis beforeBuilt).expandHeavy expanded
  | compressHeavy tree ratio hypothesis =>
    obtain ⟨before, beforeBuilt, compressed⟩ := Option.bind_eq_some_iff.mp built
    exact (hypothesis beforeBuilt).compressHeavy compressed

end ElasticTree

open Elastic in
/-- Over every tree of inserts, merges, expansions and compressions no estimate is below the
occurrences of its flow: an unflagged resident has them all as votes, a flagged one as votes and
in the light layer, and any other flow in the light layer. No report lists a flow twice, and no
operation tells stale copies from buckets that were emptied. -/
theorem elastic_never_underestimates {hasher : SketchHasher} {tree : ElasticTree}
    {sketch : Elastic} (built : tree.build hasher = some sketch) :
    (∀ flow, tree.total flow ≤ query hasher sketch flow) ∧
    (∀ flow, (bucketAt sketch (bucketIndex hasher sketch flow)).Seats flow →
      if (bucketAt sketch (bucketIndex hasher sketch flow)).eviction then
        tree.total flow ≤ (bucketAt sketch (bucketIndex hasher sketch flow)).votePos +
          lightEstimate hasher sketch flow
      else tree.total flow ≤ (bucketAt sketch (bucketIndex hasher sketch flow)).votePos) ∧
    (∀ flow, ¬(bucketAt sketch (bucketIndex hasher sketch flow)).Seats flow →
      tree.total flow ≤ lightEstimate hasher sketch flow) ∧
    ((residentFlows hasher sketch).map Prod.fst).Nodup ∧
    (∀ threshold, ((heavyHitters hasher sketch threshold).map Prod.fst).Nodup) ∧
    StaleUnread hasher sketch := by
  have covers := ElasticTree.covers_build built
  refine ⟨fun flow => (covers.owed flow).covered, fun flow seats => ?_,
    fun flow absent => (covers.owed flow).le_estimate absent, covers.nodup_residentFlows,
    covers.nodup_heavyHitters, covers.staleUnread⟩
  have covered := (covers.owed flow).covered
  rw [HeavyBucket.answer_of_seats seats] at covered
  split at covered
  · rename_i flagged
    rw [if_pos flagged]
    exact covered
  · rename_i clear
    rw [if_neg clear]
    exact covered

/-- Two flows that share their bucket in both parts of a merge, resized afterwards. -/
def collidingTree : ElasticTree :=
  .compressHeavy (.insertMany (.expandHeavy (.merge
    (.insertMany (.insertMany (.empty 1 1 1) "first" 2) "second" 1)
    (.insertMany (.empty 1 1 1) "second" 3))) "first" 1) 2

theorem elastic_never_underestimates_colliding : ∃ sketch,
    collidingTree.build collidingHasher = some sketch ∧
      3 ≤ Elastic.query collidingHasher sketch "first" ∧
      4 ≤ Elastic.query collidingHasher sketch "second" := by
  have built : collidingTree.build collidingHasher = some _ := rfl
  have covered := (elastic_never_underestimates built).1
  exact ⟨_, built, covered "first", covered "second"⟩

end AsapSketchlib
