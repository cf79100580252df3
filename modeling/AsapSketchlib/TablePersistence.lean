/-
This file proves that every Elastic and every Coco sketch that its operations build survives its
wire form. No operation of the Elastic sketch leaves a name in a bucket without a vote: votes stay
non-negative, and what empties a bucket clears its name.
-/

import AsapSketchlib.CocoWire
import AsapSketchlib.ElasticReach
import AsapSketchlib.ElasticWire

namespace AsapSketchlib

namespace Elastic

open ElasticWire (Tidy)

variable {hasher : SketchHasher} {sketch other : Elastic}

/-- What the operations keep of what the wire asks: the light layer is not empty, and a bucket that
holds no flow names none. -/
structure Neat (sketch : Elastic) : Prop where
  someRow : 0 < sketch.light.counts.rows
  someCol : 0 < sketch.light.counts.cols
  tidy : ∀ bucket ∈ sketch.heavy, Tidy bucket

theorem tidy_new : Tidy HeavyBucket.new := ⟨le_rfl, fun _ => rfl⟩

theorem tidy_of_pos {bucket : HeavyBucket} (seated : 0 < bucket.votePos) : Tidy bucket :=
  ⟨seated.le, fun vacant => absurd vacant seated.ne'⟩

theorem Neat.bucketAt (neat : Neat sketch) (idx : ℕ) : Tidy (bucketAt sketch idx) := by
  unfold Elastic.bucketAt
  cases found : sketch.heavy[idx]? with
  | none => exact tidy_new
  | some bucket => exact neat.tidy bucket (List.mem_of_getElem? found)

theorem Neat.pos (neat : Neat sketch) {idx : ℕ}
    (seated : ¬(Elastic.bucketAt sketch idx).isVacant = true) :
    0 < (Elastic.bucketAt sketch idx).votePos := by
  refine lt_of_le_of_ne (neat.bucketAt idx).1 fun vacant => seated ?_
  exact decide_eq_true vacant.symm

/-! ### Operations on one bucket -/

section

variable (neat : Neat sketch)

include neat

theorem Neat.setBucket (idx : ℕ) {bucket : HeavyBucket} (tidy : Tidy bucket) :
    Neat (setBucket sketch idx bucket) := by
  refine ⟨neat.someRow, neat.someCol, fun other member => ?_⟩
  rcases List.mem_or_eq_of_mem_set member with inTable | rfl
  · exact neat.tidy other inTable
  · exact tidy

theorem Neat.insertLight (id : String) (votes : ℤ) : Neat (insertLight hasher sketch id votes) :=
  ⟨neat.someRow, neat.someCol, neat.tidy⟩

theorem Neat.insertMany (id : String) (count : ℤ) : Neat (insertMany hasher sketch id count) := by
  unfold Elastic.insertMany
  by_cases empty : count ≤ 0
  · rw [if_pos empty]
    exact neat
  have positive : 0 < count := not_le.mp empty
  rw [if_neg empty]
  by_cases stale : staleAt hasher sketch (bucketIndex hasher sketch id) = true
  · rw [if_pos stale]
    exact neat.setBucket _ (tidy_of_pos positive)
  rw [if_neg stale]
  by_cases vacant : (Elastic.bucketAt sketch (bucketIndex hasher sketch id)).isVacant = true
  · rw [if_pos vacant]
    exact neat.setBucket _ (tidy_of_pos positive)
  have seated := neat.pos vacant
  rw [if_neg vacant]
  by_cases own : (Elastic.bucketAt sketch (bucketIndex hasher sketch id)).flowId = id
  · rw [if_pos own]
    exact neat.setBucket _ (tidy_of_pos (add_pos seated positive))
  · rw [if_neg own]
    simp only
    split
    · refine Neat.insertLight (neat.setBucket _ ?_) _ _
      exact tidy_of_pos seated
    · refine Neat.insertLight (neat.setBucket _ ?_) _ _
      exact tidy_of_pos positive

theorem Neat.insertHeavyOnly (id : String) : Neat (insertHeavyOnly hasher sketch id) := by
  unfold Elastic.insertHeavyOnly
  by_cases stale : staleAt hasher sketch (bucketIndex hasher sketch id) = true
  · simp only [if_pos stale]
    exact neat.setBucket _ (tidy_of_pos one_pos)
  simp only [if_neg stale]
  by_cases vacant : (Elastic.bucketAt sketch (bucketIndex hasher sketch id)).isVacant = true
  · rw [if_pos vacant]
    exact neat.setBucket _ (tidy_of_pos one_pos)
  have seated := neat.pos vacant
  rw [if_neg vacant]
  split
  · exact neat.setBucket _ (tidy_of_pos (add_pos seated one_pos))
  · split
    · exact neat.setBucket _ (tidy_of_pos seated)
    · exact neat.setBucket _ (tidy_of_pos seated)

theorem Neat.flagIfResident (idx : ℕ) (id : String) : Neat (flagIfResident sketch idx id) := by
  unfold Elastic.flagIfResident
  simp only
  split
  · exact neat.setBucket idx (neat.bucketAt idx)
  · exact neat

theorem Neat.mergeHeavy (id : String) (votes : ℤ) (eviction : Bool) :
    Neat (mergeHeavy hasher sketch id votes eviction) := by
  unfold Elastic.mergeHeavy
  split
  · exact neat
  · split
    · exact (neat.insertMany id votes).flagIfResident _ id
    · exact neat.insertMany id votes

theorem Neat.absorbEvicted (id : String) (votes : ℤ) :
    Neat (absorbEvicted hasher sketch id votes) := by
  refine Neat.flagIfResident ?_ _ id
  split
  · exact neat.insertLight id votes
  · exact neat

end

/-! ### Merges and resizing -/

theorem Neat.contender (neat : Neat sketch) {idx : ℕ} {bucket : HeavyBucket}
    (found : contender hasher sketch idx = some bucket) : 0 < bucket.votePos := by
  unfold Elastic.contender at found
  simp only [Bool.and_eq_true, Bool.not_eq_true'] at found
  split at found
  · next live =>
    rw [← Option.some.inj found]
    exact neat.pos (Bool.eq_false_iff.mp live.1)
  · cases found

theorem tidy_mergedBucket {kept : HeavyBucket} (seated : 0 < kept.votePos) :
    Tidy (mergedBucket (some kept)) := tidy_of_pos seated

section

variable (neat : Neat sketch)

include neat

theorem Neat.contest (otherNeat : Neat other) (idx : ℕ) :
    Tidy (mergedBucket (contest hasher sketch other idx).1) := by
  unfold Elastic.contest
  cases mine : Elastic.contender hasher sketch idx with
  | none =>
    cases theirs : Elastic.contender hasher other idx with
    | none => exact ⟨le_rfl, fun _ => rfl⟩
    | some peer => exact tidy_mergedBucket (otherNeat.contender theirs)
  | some bucket =>
    have seated := neat.contender mine
    cases theirs : Elastic.contender hasher other idx with
    | none => exact tidy_mergedBucket seated
    | some peer =>
      have otherSeated := otherNeat.contender theirs
      simp only
      split
      · exact tidy_mergedBucket (add_pos seated otherSeated)
      · split
        · exact tidy_mergedBucket seated
        · exact tidy_mergedBucket otherSeated

theorem Neat.contestHeavyAgainst (otherNeat : Neat other) :
    Neat (contestHeavyAgainst hasher sketch other).1 := by
  refine ⟨neat.someRow, neat.someCol, fun bucket member => ?_⟩
  obtain ⟨outcome, contested, rfl⟩ := List.mem_map.mp member
  obtain ⟨idx, -, rfl⟩ := List.mem_map.mp contested
  exact neat.contest otherNeat idx

theorem Neat.spill (flows : List (String × ℤ)) : Neat (spill hasher sketch flows) := by
  unfold Elastic.spill
  induction flows generalizing sketch with
  | nil => exact neat
  | cons flow rest hypothesis => exact hypothesis (neat.insertLight flow.1 flow.2)

theorem Neat.joined (otherNeat : Neat other) {light : CountMin}
    (rows : light.counts.rows = sketch.light.counts.rows)
    (cols : light.counts.cols = sketch.light.counts.cols) (flows : List (String × ℤ)) :
    Neat (Elastic.spill hasher
      { (Elastic.contestHeavyAgainst hasher sketch other).1 with light := light } flows) := by
  refine Neat.spill ?_ flows
  exact ⟨neat.someRow.trans_eq rows.symm, neat.someCol.trans_eq cols.symm,
    (neat.contestHeavyAgainst otherNeat).tidy⟩

theorem Neat.merge (otherNeat : Neat other) {merged : Elastic}
    (accepted : merge hasher sketch other = some merged) : Neat merged := by
  unfold Elastic.merge at accepted
  split at accepted
  · obtain ⟨light, added, rfl⟩ := Option.map_eq_some_iff.mp accepted
    unfold CountMin.merge at added
    split at added
    · rw [← Option.some.inj added]
      refine neat.joined otherNeat ?_ ?_ _
      · rfl
      · rfl
    · cases added
  · cases accepted

theorem Neat.mergeMax (otherNeat : Neat other) {merged : Elastic}
    (accepted : mergeMax hasher sketch other = some merged) : Neat merged := by
  unfold Elastic.mergeMax at accepted
  split at accepted
  · obtain ⟨light, added, rfl⟩ := Option.map_eq_some_iff.mp accepted
    unfold CountMin.mergeMax at added
    split at added
    · rw [← Option.some.inj added]
      refine neat.joined otherNeat ?_ ?_ _
      · rfl
      · rfl
    · cases added
  · cases accepted

theorem Neat.expandHeavy {expanded : Elastic} (accepted : expandHeavy sketch = some expanded) :
    Neat expanded := by
  unfold Elastic.expandHeavy at accepted
  split at accepted
  · rw [← Option.some.inj accepted]
    refine ⟨neat.someRow, neat.someCol, fun bucket member => ?_⟩
    exact (List.mem_append.mp member).elim (neat.tidy bucket) (neat.tidy bucket)
  · cases accepted

theorem Neat.dropStaleCopies : Neat (dropStaleCopies hasher sketch) := by
  unfold Elastic.dropStaleCopies
  split
  · refine ⟨neat.someRow, neat.someCol, fun bucket member => ?_⟩
    obtain ⟨idx, inside, rfl⟩ := List.mem_mapIdx.mp member
    split
    · exact ⟨le_rfl, fun _ => rfl⟩
    · exact neat.tidy _ (List.getElem_mem inside)
  · exact neat

theorem Neat.compressedBucket (group : Group) : Tidy (compressedBucket sketch group) := by
  unfold Elastic.compressedBucket
  split
  · exact neat.bucketAt _
  · exact ⟨le_rfl, fun _ => rfl⟩

theorem Neat.compressHeavy {ratio : ℕ} {compressed : Elastic}
    (accepted : compressHeavy hasher sketch ratio = some compressed) : Neat compressed := by
  unfold Elastic.compressHeavy at accepted
  split at accepted
  · split at accepted
    · rw [← Option.some.inj accepted]
      exact neat
    · rw [← Option.some.inj accepted]
      have settled : Neat (Elastic.dropStaleCopies hasher sketch) := neat.dropStaleCopies
      refine Neat.spill ?_ _
      refine ⟨settled.someRow, settled.someCol, fun bucket member => ?_⟩
      obtain ⟨group, -, rfl⟩ := List.mem_map.mp member
      exact settled.compressedBucket _
  · cases accepted

end

/-! ### Reachable sketches -/

theorem neat_init {bucketCount lightRows lightCols : ℕ}
    (built : initWithDimensions bucketCount lightRows lightCols = some sketch) : Neat sketch := by
  unfold initWithDimensions at built
  split at built
  · next allowed =>
    rw [← Option.some.inj built]
    exact ⟨allowed.2.1, allowed.2.2, fun bucket member =>
      List.eq_of_mem_replicate member ▸ tidy_new⟩
  · cases built

theorem Reachable.neat (reachable : Reachable hasher sketch) : Neat sketch := by
  induction reachable with
  | init built => exact neat_init built
  | insertMany id count _ hypothesis => exact hypothesis.insertMany id count
  | insertHeavyOnly id _ hypothesis => exact hypothesis.insertHeavyOnly id
  | mergeHeavy id votes eviction _ hypothesis => exact hypothesis.mergeHeavy id votes eviction
  | absorbEvicted id votes _ hypothesis => exact hypothesis.absorbEvicted id votes
  | lightDelta row col value _ hypothesis =>
    exact ⟨hypothesis.someRow, hypothesis.someCol, hypothesis.tidy⟩
  | merge _ _ accepted left right => exact left.merge right accepted
  | mergeMax _ _ accepted left right => exact left.mergeMax right accepted
  | expandHeavy _ accepted hypothesis => exact hypothesis.expandHeavy accepted
  | compressHeavy ratio _ accepted hypothesis => exact hypothesis.compressHeavy accepted

theorem Reachable.sendable (reachable : Reachable hasher sketch) :
    ElasticWire.Sendable sketch where
  sized := reachable.placed.sized
  someBucket := reachable.placed.someBucket
  someRow := reachable.neat.someRow
  someCol := reachable.neat.someCol
  tidy := reachable.neat.tidy

end Elastic

/-! ### The round trips -/

/-- Every Elastic sketch that the operations build, and every Coco sketch that inserts and merges
build under any draws, passes the checks of its encoder. What is written is read back as the very
same sketch, so that it answers, goes on and is written again as the original. -/
theorem tables_survive (hasher : SketchHasher) :
    (∀ (profile : MatrixHashProfile) (rmp : ElasticWire.ElasticRmp) (sketch : Elastic),
      Elastic.Reachable hasher sketch → ElasticWire.Fits sketch →
      Portable.RoundTrips rmp.metadata (ElasticWire.elasticMetadata profile sketch.bktlen
        sketch.light.counts.rows sketch.light.counts.cols) →
      Portable.RoundTrips rmp.payload (ElasticWire.elasticPayload sketch) →
      Envelope.Survives ElasticWire.elasticKind rmp.metadata rmp.payload
        (ElasticWire.serializeToBytes profile rmp) (ElasticWire.deserializeFromBytes profile rmp)
        (ElasticWire.elasticMetadata profile sketch.bktlen sketch.light.counts.rows
          sketch.light.counts.cols) (ElasticWire.elasticPayload sketch) sketch) ∧
    ∀ (profile : HashProfile) (rmp : CocoWire.CocoRmp) (history : Coco.History) (coco : Coco),
      history.Positive → history.outcome hasher = some coco →
      coco.d ≤ matrixMaxRows → coco.w < 2 ^ 32 →
      Portable.RoundTrips rmp.metadata (CocoWire.cocoMetadata profile coco.d coco.w) →
      Portable.RoundTrips rmp.payload (CocoWire.cocoPayload coco) →
      Envelope.Survives CocoWire.cocoKind rmp.metadata rmp.payload
        (CocoWire.serializeToBytes hasher profile rmp)
        (CocoWire.deserializeFromBytes hasher profile rmp)
        (CocoWire.cocoMetadata profile coco.d coco.w) (CocoWire.cocoPayload coco) coco := by
  refine ⟨fun profile rmp sketch reachable fits metadataTrips payloadTrips => ?_,
    fun profile rmp history coco positive reached few narrow metadataTrips payloadTrips => ?_⟩
  · exact ElasticWire.survives profile rmp reachable.sendable fits metadataTrips payloadTrips
  · obtain ⟨w, d, sizes, sound, -⟩ := history.sound hasher positive reached
    obtain rfl := sound.width
    obtain rfl := sound.depth
    exact CocoWire.survives profile rmp sound sizes.1 sizes.2 few narrow metadataTrips payloadTrips

def emptyFlow : Elastic :=
  Elastic.insertMany collidingHasher
    ⟨List.replicate 2 HeavyBucket.new, CountMin.withDimensions 1 4, 2, false⟩ "" 1

def emptyKey : Coco where
  table := Vector2D.filled 1 1 ⟨some "", 3⟩

def defaultMatrixProfile : MatrixHashProfile := { defaultHashProfile with matrixSeedIndex := 0 }

theorem tables_survive_empty :
    (∃ rmp bytes, ElasticWire.serializeToBytes defaultMatrixProfile rmp emptyFlow = .ok (.ok bytes) ∧
      ElasticWire.deserializeFromBytes defaultMatrixProfile rmp bytes = .ok emptyFlow) ∧
    ∃ rmp bytes, CocoWire.serializeToBytes collidingHasher defaultHashProfile rmp emptyKey =
        .ok (.ok bytes) ∧
      CocoWire.deserializeFromBytes collidingHasher defaultHashProfile rmp bytes = .ok emptyKey := by
  have short : ([] : List UInt8).length < 2 ^ 32 := by decide
  have trips : ∀ {Block : Type} (block : Block),
      Portable.RoundTrips (Portable.singleRmp block []) block :=
    fun block => Portable.roundTrips_singleRmp block []
  have held : ElasticWire.Fits emptyFlow := ⟨by decide, by decide, by decide⟩
  have flow := (tables_survive collidingHasher).1 defaultMatrixProfile
    ⟨Portable.singleRmp _ [], Portable.singleRmp _ []⟩ emptyFlow
    (.insertMany "" 1 (.init (if_pos (by decide)))) held (trips _) (trips _)
  have key := (tables_survive collidingHasher).2 defaultHashProfile
    ⟨Portable.singleRmp _ [], Portable.singleRmp _ []⟩
    (.insert (.initWithSize 1 1) "" 3 ⟨fun _ => 0, 0⟩) emptyKey ⟨Nat.one_pos, Nat.one_pos⟩
    rfl (by decide) (by decide) (trips _) (trips _)
  obtain ⟨flowBytes, flowWritten⟩ :=
    flow.written (Envelope.short_singleRmp _ short) (Envelope.short_singleRmp _ short)
  obtain ⟨keyBytes, keyWritten⟩ :=
    key.written (Envelope.short_singleRmp _ short) (Envelope.short_singleRmp _ short)
  exact ⟨⟨_, flowBytes, flowWritten, flow.restored _ flowWritten⟩,
    ⟨_, keyBytes, keyWritten, key.restored _ keyWritten⟩⟩

end AsapSketchlib
