/-
This file follows the heavy table of the Elastic sketch through every operation: a bucket that
holds no stale copy is vacant, or holds a flow that hashes to it. The votes play no part.
-/

import AsapSketchlib.ElasticOcto
import AsapSketchlib.ElasticResizing

namespace AsapSketchlib

namespace Elastic

variable {hasher : SketchHasher} {sketch other : Elastic}

/-- The table has a bucket for every index, and only an expansion leaves one whose resident hashes
elsewhere. -/
structure Placed (hasher : SketchHasher) (sketch : Elastic) : Prop where
  sized : sketch.heavy.length = sketch.bktlen
  someBucket : 0 < sketch.bktlen
  placed : sketch.staleCopies = false → ∀ idx < sketch.bktlen,
    (bucketAt sketch idx).votePos ≠ 0 → bucketIndex hasher sketch (bucketAt sketch idx).flowId = idx

theorem Placed.bucketIndex_lt (placed : Placed hasher sketch) (id : String) :
    bucketIndex hasher sketch id < sketch.bktlen := Nat.mod_lt _ placed.someBucket

theorem Placed.of_not_staleAt (placed : Placed hasher sketch) {idx : ℕ}
    (inside : idx < sketch.bktlen) (live : ¬staleAt hasher sketch idx = true)
    (seated : (bucketAt sketch idx).votePos ≠ 0) :
    bucketIndex hasher sketch (bucketAt sketch idx).flowId = idx := by
  by_contra elsewhere
  by_cases copies : sketch.staleCopies = true
  · exact live ((staleAt_iff idx).mpr ⟨copies, seated, elsewhere⟩)
  · exact elsewhere (placed.placed (Bool.eq_false_iff.mpr copies) idx inside seated)

/-! ### Operations on one bucket -/

section

variable (placed : Placed hasher sketch)

include placed

theorem Placed.setBucket {idx : ℕ} (inside : idx < sketch.bktlen) {bucket : HeavyBucket}
    (live : sketch.staleCopies = false → bucket.votePos ≠ 0 →
      bucketIndex hasher sketch bucket.flowId = idx) :
    Placed hasher (setBucket sketch idx bucket) := by
  refine ⟨List.length_set.trans placed.sized, placed.someBucket, fun settled place here seated => ?_⟩
  have read := bucketAt_setBucket (inside.trans_eq placed.sized.symm) bucket place
  rw [read] at seated ⊢
  by_cases same : idx = place
  · rw [if_pos same] at seated ⊢
    exact (live settled seated).trans same
  · rw [if_neg same] at seated ⊢
    exact placed.placed settled place here seated

theorem Placed.light (light : CountMin) : Placed hasher { sketch with light := light } :=
  ⟨placed.sized, placed.someBucket, placed.placed⟩

theorem Placed.insertMany (id : String) (count : ℤ) :
    Placed hasher (insertMany hasher sketch id count) := by
  have inside := placed.bucketIndex_lt id
  unfold Elastic.insertMany
  by_cases empty : count ≤ 0
  · rw [if_pos empty]
    exact placed
  rw [if_neg empty]
  by_cases stale : staleAt hasher sketch (bucketIndex hasher sketch id) = true
  · rw [if_pos stale]
    exact placed.setBucket inside fun _ _ => rfl
  rw [if_neg stale]
  by_cases vacant : (bucketAt sketch (bucketIndex hasher sketch id)).isVacant = true
  · rw [if_pos vacant]
    exact placed.setBucket inside fun _ _ => rfl
  have seated : (bucketAt sketch (bucketIndex hasher sketch id)).votePos ≠ 0 := by
    simpa [HeavyBucket.isVacant] using vacant
  have resident := placed.of_not_staleAt inside stale seated
  rw [if_neg vacant]
  by_cases own : (bucketAt sketch (bucketIndex hasher sketch id)).flowId = id
  · rw [if_pos own]
    exact placed.setBucket inside fun _ _ => resident
  · rw [if_neg own]
    simp only
    split
    · refine Placed.light (placed.setBucket inside ?_) _
      exact fun _ _ => resident
    · refine Placed.light (placed.setBucket inside ?_) _
      exact fun _ _ => rfl

theorem Placed.insertHeavyOnly (id : String) :
    Placed hasher (insertHeavyOnly hasher sketch id) := by
  have inside := placed.bucketIndex_lt id
  unfold Elastic.insertHeavyOnly
  by_cases stale : staleAt hasher sketch (bucketIndex hasher sketch id) = true
  · simp only [if_pos stale]
    exact placed.setBucket inside fun _ _ => rfl
  simp only [if_neg stale]
  by_cases vacant : (bucketAt sketch (bucketIndex hasher sketch id)).isVacant = true
  · rw [if_pos vacant]
    exact placed.setBucket inside fun _ _ => rfl
  have seated : (bucketAt sketch (bucketIndex hasher sketch id)).votePos ≠ 0 := by
    simpa [HeavyBucket.isVacant] using vacant
  have resident := placed.of_not_staleAt inside stale seated
  rw [if_neg vacant]
  by_cases own : (bucketAt sketch (bucketIndex hasher sketch id)).flowId = id
  · rw [if_pos own]
    exact placed.setBucket inside fun _ _ => resident
  · rw [if_neg own]
    split
    · exact placed.setBucket inside fun _ _ => resident
    · exact placed.setBucket inside fun _ _ => rfl

theorem Placed.flagIfResident (idx : ℕ) (id : String) :
    Placed hasher (flagIfResident sketch idx id) := by
  unfold Elastic.flagIfResident
  simp only
  split
  · by_cases inside : idx < sketch.bktlen
    · exact placed.setBucket inside fun settled seated => placed.placed settled idx inside seated
    · have outside : sketch.heavy.length ≤ idx := placed.sized.trans_le (not_lt.mp inside)
      have same : ∀ bucket, Elastic.setBucket sketch idx bucket = sketch := fun bucket => by
        unfold Elastic.setBucket
        rw [List.set_eq_of_length_le outside]
      rw [same]
      exact placed
  · exact placed

theorem Placed.mergeHeavy (id : String) (votes : ℤ) (eviction : Bool) :
    Placed hasher (mergeHeavy hasher sketch id votes eviction) := by
  unfold Elastic.mergeHeavy
  split
  · exact placed
  · split
    · exact (placed.insertMany id votes).flagIfResident _ id
    · exact placed.insertMany id votes

theorem Placed.absorbEvicted (id : String) (votes : ℤ) :
    Placed hasher (absorbEvicted hasher sketch id votes) := by
  refine Placed.flagIfResident ?_ _ id
  split
  · exact placed.light _
  · exact placed

end

/-! ### Merges and resizing -/

section

variable (placed : Placed hasher sketch)

include placed

theorem Placed.contender {idx : ℕ} (inside : idx < sketch.bktlen) {bucket : HeavyBucket}
    (found : contender hasher sketch idx = some bucket) :
    bucketIndex hasher sketch bucket.flowId = idx := by
  unfold Elastic.contender at found
  simp only [Bool.and_eq_true, Bool.not_eq_true'] at found
  split at found
  · next live =>
    rw [← Option.some.inj found]
    refine placed.of_not_staleAt inside (Bool.eq_false_iff.mp live.2) ?_
    simpa [HeavyBucket.isVacant] using live.1
  · cases found

theorem Placed.contest (otherPlaced : Placed hasher other)
    (sameCount : sketch.bktlen = other.bktlen) {idx : ℕ} (inside : idx < sketch.bktlen)
    {kept : HeavyBucket} (won : (contest hasher sketch other idx).1 = some kept) :
    bucketIndex hasher sketch kept.flowId = idx := by
  have sameIndex : ∀ id, bucketIndex hasher sketch id = bucketIndex hasher other id := fun id => by
    unfold bucketIndex
    rw [sameCount]
  unfold Elastic.contest at won
  split at won
  · cases won
  · next _ bucket mine _ =>
    rw [← Option.some.inj won]
    exact placed.contender inside mine
  · next _ bucket _ theirs =>
    rw [← Option.some.inj won, sameIndex]
    exact otherPlaced.contender (inside.trans_eq sameCount) theirs
  · next _ _ mine theirs isMine isTheirs =>
    have own := placed.contender inside isMine
    have foreign := otherPlaced.contender (inside.trans_eq sameCount) isTheirs
    split at won
    · rw [← Option.some.inj won]
      exact own
    · split at won
      · rw [← Option.some.inj won]
        exact own
      · rw [← Option.some.inj won, sameIndex]
        exact foreign

theorem Placed.contestHeavyAgainst (otherPlaced : Placed hasher other)
    (sameCount : sketch.bktlen = other.bktlen) :
    Placed hasher (contestHeavyAgainst hasher sketch other).1 := by
  refine ⟨?_, placed.someBucket, fun _ idx inside seated => ?_⟩
  · show (((List.range sketch.heavy.length).map _).map _).length = sketch.bktlen
    rw [List.length_map, List.length_map, List.length_range, placed.sized]
  · have read : bucketAt (Elastic.contestHeavyAgainst hasher sketch other).1 idx =
        mergedBucket (Elastic.contest hasher sketch other idx).1 :=
      bucketAt_contestHeavyAgainst (inside.trans_eq placed.sized.symm)
    rw [read] at seated ⊢
    cases won : (Elastic.contest hasher sketch other idx).1 with
    | none =>
      rw [won] at seated
      exact absurd rfl seated
    | some kept =>
      have here := placed.contest otherPlaced sameCount inside won
      exact here

theorem Placed.spill (flows : List (String × ℤ)) : Placed hasher (spill hasher sketch flows) := by
  rw [spill_eq]
  exact placed.light _

theorem Placed.merge (otherPlaced : Placed hasher other) {merged : Elastic}
    (accepted : merge hasher sketch other = some merged) : Placed hasher merged := by
  unfold Elastic.merge at accepted
  split at accepted
  · next sameCount =>
    obtain ⟨light, -, rfl⟩ := Option.map_eq_some_iff.mp accepted
    exact ((placed.contestHeavyAgainst otherPlaced sameCount).light light).spill _
  · cases accepted

theorem Placed.mergeMax (otherPlaced : Placed hasher other) {merged : Elastic}
    (accepted : mergeMax hasher sketch other = some merged) : Placed hasher merged := by
  unfold Elastic.mergeMax at accepted
  split at accepted
  · next sameCount =>
    obtain ⟨light, -, rfl⟩ := Option.map_eq_some_iff.mp accepted
    exact ((placed.contestHeavyAgainst otherPlaced sameCount).light light).spill _
  · cases accepted

theorem Placed.expandHeavy {expanded : Elastic} (accepted : expandHeavy sketch = some expanded) :
    Placed hasher expanded := by
  rw [expandHeavy_eq] at accepted
  split at accepted
  · rw [← Option.some.inj accepted]
    exact ⟨length_expandedTable placed.sized, Nat.mul_pos placed.someBucket (by decide),
      fun settled => absurd settled (by simp [expandedTable])⟩
  · cases accepted

theorem Placed.dropStaleCopies : Placed hasher (dropStaleCopies hasher sketch) := by
  refine ⟨?_, ?_, fun _ idx inside seated => ?_⟩
  · rw [length_dropStaleCopies, dropStaleCopies_bktlen]
    exact placed.sized
  · rw [dropStaleCopies_bktlen]
    exact placed.someBucket
  · rw [bucketAt_dropStaleCopies] at seated ⊢
    rw [dropStaleCopies_bktlen] at inside
    rw [bucketIndex_dropStaleCopies]
    split at seated
    · exact absurd rfl seated
    · next live =>
      rw [if_neg live]
      exact placed.of_not_staleAt inside live seated

theorem Placed.compressedTable (settled : sketch.staleCopies = false) {width ratio : ℕ}
    {groups : ℕ → Group} (divides : sketch.bktlen = width * ratio)
    (scanned : Scanned sketch width (List.range sketch.heavy.length) groups) :
    Placed hasher (compressedTable sketch width groups) := by
  have someBucket : 0 < width := Nat.pos_of_mul_pos_right (divides ▸ placed.someBucket)
  refine ⟨(List.length_map _).trans List.length_range, someBucket, fun _ idx inside seated => ?_⟩
  change idx < width at inside
  rw [bucketAt_compressedTable inside] at seated ⊢
  have hashesTo : ∀ id, bucketIndex hasher sketch id % width =
      bucketIndex hasher (Elastic.compressedTable sketch width groups) id := by
    intro id
    unfold bucketIndex
    rw [divides]
    exact Nat.mod_mul_right_mod _ _ _
  rw [← hashesTo]
  unfold compressedBucket at seated ⊢
  cases won : (groups idx).winner with
  | none =>
    simp only [won] at seated
    exact absurd rfl seated
  | some place =>
    obtain ⟨member, inGroup, holds⟩ := scanned.winner idx place won
    have placeInside := (List.mem_range.mp member).trans_eq placed.sized
    simp only
    rw [placed.placed settled place placeInside holds]
    exact inGroup

theorem Placed.compressHeavy {ratio : ℕ} {compressed : Elastic}
    (accepted : compressHeavy hasher sketch ratio = some compressed) :
    Placed hasher compressed := by
  unfold Elastic.compressHeavy at accepted
  split at accepted
  case isFalse => cases accepted
  next allowed =>
  split at accepted
  · rw [← Option.some.inj accepted]
    exact placed
  · rw [← Option.some.inj accepted]
    have divides : (Elastic.dropStaleCopies hasher sketch).bktlen =
        (Elastic.dropStaleCopies hasher sketch).bktlen / ratio * ratio := by
      rw [dropStaleCopies_bktlen]
      exact (Nat.div_mul_cancel (Nat.dvd_of_mod_eq_zero allowed.2)).symm
    exact (placed.dropStaleCopies.compressedTable (dropStaleCopies_staleCopies sketch) divides
      (scanned_scanGroups _ _)).spill _

end

/-! ### Reachable sketches -/

/-- The sketches that the operations build, in any order and from any number of sketches. -/
inductive Reachable (hasher : SketchHasher) : Elastic → Prop where
  | init {bucketCount lightRows lightCols : ℕ} {sketch : Elastic}
      (built : initWithDimensions bucketCount lightRows lightCols = some sketch) :
      Reachable hasher sketch
  | insertMany {sketch : Elastic} (id : String) (count : ℤ) (before : Reachable hasher sketch) :
      Reachable hasher (insertMany hasher sketch id count)
  | insertHeavyOnly {sketch : Elastic} (id : String) (before : Reachable hasher sketch) :
      Reachable hasher (insertHeavyOnly hasher sketch id)
  | mergeHeavy {sketch : Elastic} (id : String) (votes : ℤ) (eviction : Bool)
      (before : Reachable hasher sketch) :
      Reachable hasher (mergeHeavy hasher sketch id votes eviction)
  | absorbEvicted {sketch : Elastic} (id : String) (votes : ℤ)
      (before : Reachable hasher sketch) : Reachable hasher (absorbEvicted hasher sketch id votes)
  | lightDelta {sketch : Elastic} (row col : ℕ) (value : ℤ) (before : Reachable hasher sketch) :
      Reachable hasher { sketch with light := sketch.light.applyDelta row col value }
  | merge {sketch other merged : Elastic} (before : Reachable hasher sketch)
      (otherBefore : Reachable hasher other)
      (accepted : merge hasher sketch other = some merged) : Reachable hasher merged
  | mergeMax {sketch other merged : Elastic} (before : Reachable hasher sketch)
      (otherBefore : Reachable hasher other)
      (accepted : mergeMax hasher sketch other = some merged) : Reachable hasher merged
  | expandHeavy {sketch expanded : Elastic} (before : Reachable hasher sketch)
      (accepted : expandHeavy sketch = some expanded) : Reachable hasher expanded
  | compressHeavy {sketch compressed : Elastic} (ratio : ℕ) (before : Reachable hasher sketch)
      (accepted : compressHeavy hasher sketch ratio = some compressed) :
      Reachable hasher compressed

theorem placed_init {bucketCount lightRows lightCols : ℕ}
    (built : initWithDimensions bucketCount lightRows lightCols = some sketch) :
    Placed hasher sketch := by
  unfold initWithDimensions at built
  split at built
  · next allowed =>
    rw [← Option.some.inj built]
    refine ⟨List.length_replicate, allowed.1, fun _ idx inside seated => absurd ?_ seated⟩
    unfold bucketAt
    rw [List.getElem?_replicate, if_pos inside]
    rfl
  · cases built

theorem Reachable.placed (reachable : Reachable hasher sketch) : Placed hasher sketch := by
  induction reachable with
  | init built => exact placed_init built
  | insertMany id count _ hypothesis => exact hypothesis.insertMany id count
  | insertHeavyOnly id _ hypothesis => exact hypothesis.insertHeavyOnly id
  | mergeHeavy id votes eviction _ hypothesis =>
    exact hypothesis.mergeHeavy id votes eviction
  | absorbEvicted id votes _ hypothesis =>
    exact hypothesis.absorbEvicted id votes
  | lightDelta row col value _ hypothesis => exact hypothesis.light _
  | merge _ _ accepted left right => exact left.merge right accepted
  | mergeMax _ _ accepted left right => exact left.mergeMax right accepted
  | expandHeavy _ accepted hypothesis => exact hypothesis.expandHeavy accepted
  | compressHeavy ratio _ accepted hypothesis =>
    exact hypothesis.compressHeavy accepted

end Elastic

end AsapSketchlib
