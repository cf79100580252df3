/-
This file proves that resizing the Elastic sketch is transparent. An expansion changes no answer,
and a compression by as much as the table was expanded, with nothing inserted in between, finds one
live copy of every resident, so that it spills none and changes no answer either.
-/

import AsapSketchlib.ElasticReach
import Mathlib.Data.String.Basic

namespace AsapSketchlib

namespace Elastic

variable {hasher : SketchHasher} {sketch other : Elastic}

/-- Both sketches answer every query and every report alike. -/
structure SameAnswers (hasher : SketchHasher) (sketch other : Elastic) : Prop where
  query : ∀ id, query hasher sketch id = query hasher other id
  heavyHitters : ∀ threshold,
    heavyHitters hasher sketch threshold = heavyHitters hasher other threshold

/-! ### Reports -/

def Live (hasher : SketchHasher) (sketch : Elastic) (idx : ℕ) : Prop :=
  idx < sketch.heavy.length ∧ (bucketAt sketch idx).votePos ≠ 0 ∧ staleAt hasher sketch idx = false

theorem Placed.live_iff (placed : Placed hasher sketch) (idx : ℕ) :
    Live hasher sketch idx ↔ idx < sketch.bktlen ∧ (bucketAt sketch idx).votePos ≠ 0 ∧
      bucketIndex hasher sketch (bucketAt sketch idx).flowId = idx := by
  unfold Live
  rw [placed.sized]
  refine and_congr_right fun inside => and_congr_right fun seated => ?_
  constructor
  · exact fun live => placed.of_not_staleAt inside (Bool.eq_false_iff.mp live) seated
  · intro here
    refine Bool.eq_false_iff.mpr fun stale => ?_
    exact ((staleAt_iff idx).mp stale).2.2 here

/-- What the reports list, before it is sorted. -/
def unsorted (hasher : SketchHasher) (sketch : Elastic) : List (String × ℤ) :=
  ((List.range sketch.heavy.length).filter fun idx =>
    !(bucketAt sketch idx).isVacant && !staleAt hasher sketch idx).map fun idx =>
      ((bucketAt sketch idx).flowId, query hasher sketch (bucketAt sketch idx).flowId)

theorem residentFlows_eq (sketch : Elastic) :
    residentFlows hasher sketch = (unsorted hasher sketch).mergeSort flowLe := rfl

theorem mem_live_iff (idx : ℕ) :
    idx ∈ ((List.range sketch.heavy.length).filter fun idx =>
      !(bucketAt sketch idx).isVacant && !staleAt hasher sketch idx) ↔
      Live hasher sketch idx := by
  unfold Live
  simp [HeavyBucket.isVacant]

theorem mem_unsorted_iff (entry : String × ℤ) :
    entry ∈ unsorted hasher sketch ↔ ∃ idx, Live hasher sketch idx ∧
      ((bucketAt sketch idx).flowId, query hasher sketch (bucketAt sketch idx).flowId) = entry := by
  unfold unsorted
  rw [List.mem_map]
  exact exists_congr fun idx => and_congr_left' (mem_live_iff idx)

theorem Placed.mem_unsorted (placed : Placed hasher sketch) (entry : String × ℤ) :
    entry ∈ unsorted hasher sketch ↔
      (bucketAt sketch (bucketIndex hasher sketch entry.1)).Seats entry.1 ∧
        entry.2 = query hasher sketch entry.1 := by
  rw [mem_unsorted_iff]
  constructor
  · rintro ⟨idx, live, rfl⟩
    obtain ⟨-, seated, here⟩ := (placed.live_iff idx).mp live
    simp only
    rw [here]
    exact ⟨⟨seated, rfl⟩, trivial⟩
  · rintro ⟨⟨seated, own⟩, size⟩
    refine ⟨bucketIndex hasher sketch entry.1, (placed.live_iff _).mpr
      ⟨placed.bucketIndex_lt _, seated, ?_⟩, ?_⟩
    · rw [own]
    · rw [own, ← size]

theorem Placed.nodup_unsorted (placed : Placed hasher sketch) :
    (unsorted hasher sketch).Nodup := by
  refine List.Nodup.map_on (fun idx member idx' member' same => ?_) (List.nodup_range.filter _)
  have here := ((placed.live_iff idx).mp ((mem_live_iff idx).mp member)).2.2
  have here' := ((placed.live_iff idx').mp ((mem_live_iff idx').mp member')).2.2
  rw [← here, ← here']
  exact congrArg (bucketIndex hasher sketch) (Prod.mk.inj same).1

theorem flowLe_iff (left right : String × ℤ) :
    flowLe left right = true ↔ toLex left ≤ toLex right := by
  unfold flowLe
  rw [Prod.Lex.le_iff]
  exact decide_eq_true_iff

theorem mergeSort_congr {left right : List (String × ℤ)} (same : left.Perm right) :
    left.mergeSort flowLe = right.mergeSort flowLe := by
  have trans : ∀ first second third : String × ℤ, flowLe first second = true →
      flowLe second third = true → flowLe first third = true := by
    intro first second third
    simp only [flowLe_iff]
    exact le_trans
  have total : ∀ first second : String × ℤ,
      (flowLe first second || flowLe second first) = true := by
    intro first second
    rw [Bool.or_eq_true, flowLe_iff, flowLe_iff]
    exact le_total _ _
  have perm : (left.mergeSort flowLe).Perm (right.mergeSort flowLe) :=
    (List.mergeSort_perm left flowLe).trans (same.trans (List.mergeSort_perm right flowLe).symm)
  refine perm.eq_of_pairwise (fun first second _ _ below above => ?_)
    (List.pairwise_mergeSort trans total left) (List.pairwise_mergeSort trans total right)
  rw [flowLe_iff] at below above
  exact toLex_inj.mp (le_antisymm below above)

/-- Sketches in place whose flows find the same in their buckets, over the same light layer,
answer alike. -/
theorem Placed.sameAnswers (placed : Placed hasher sketch) (otherPlaced : Placed hasher other)
    (sameLight : sketch.light = other.light)
    (sameSeats : ∀ id, (bucketAt sketch (bucketIndex hasher sketch id)).Seats id ↔
      (bucketAt other (bucketIndex hasher other id)).Seats id)
    (sameBucket : ∀ id, (bucketAt sketch (bucketIndex hasher sketch id)).Seats id →
      bucketAt sketch (bucketIndex hasher sketch id) =
        bucketAt other (bucketIndex hasher other id)) :
    SameAnswers hasher sketch other := by
  have sameQuery : ∀ id, query hasher sketch id = query hasher other id := by
    intro id
    have estimate : lightEstimate hasher sketch id = lightEstimate hasher other id :=
      congrArg (fun light => CountMin.estimate hasher light (.string id)) sameLight
    rw [query_eq_answer, query_eq_answer, estimate]
    by_cases seats : (bucketAt sketch (bucketIndex hasher sketch id)).Seats id
    · rw [sameBucket id seats]
    · rw [HeavyBucket.answer_of_not_seats seats,
        HeavyBucket.answer_of_not_seats (fun there => seats ((sameSeats id).mpr there))]
  have sameFlows : residentFlows hasher sketch = residentFlows hasher other := by
    rw [residentFlows_eq, residentFlows_eq]
    refine mergeSort_congr ((List.perm_ext_iff_of_nodup placed.nodup_unsorted
      otherPlaced.nodup_unsorted).mpr fun entry => ?_)
    rw [placed.mem_unsorted, otherPlaced.mem_unsorted, sameSeats, sameQuery]
  refine ⟨sameQuery, fun threshold => ?_⟩
  unfold heavyHitters
  rw [sameFlows]

/-! ### Expanding -/

/-- A table that holds copies of the buckets of another, as many as a ratio says, with the same
light layer. -/
structure Copies (sketch expanded : Elastic) (ratio : ℕ) : Prop where
  light : expanded.light = sketch.light
  bktlen : expanded.bktlen = sketch.bktlen * ratio
  bucketAt : ∀ idx < sketch.bktlen * ratio,
    bucketAt expanded idx = bucketAt sketch (idx % sketch.bktlen)

variable {expanded : Elastic} {ratio : ℕ}

theorem copies_self (sketch : Elastic) : Copies sketch sketch 1 := by
  refine ⟨rfl, (Nat.mul_one _).symm, fun idx inside => ?_⟩
  rw [Nat.mul_one] at inside
  rw [Nat.mod_eq_of_lt inside]

section

variable (copies : Copies sketch expanded ratio)

include copies

theorem Copies.expandHeavy (placed : Placed hasher expanded) {doubled : Elastic}
    (accepted : expandHeavy expanded = some doubled) : Copies sketch doubled (ratio * 2) := by
  rw [expandHeavy_eq] at accepted
  split at accepted
  case isFalse => cases accepted
  obtain rfl := Option.some.inj accepted
  have doubledCount : sketch.bktlen * (ratio * 2) = expanded.bktlen * 2 := by
    rw [copies.bktlen, Nat.mul_assoc]
  refine ⟨copies.light, doubledCount.symm, fun idx inside => ?_⟩
  rw [bucketAt_expandedTable placed.sized (inside.trans_eq doubledCount),
    copies.bucketAt _ ((Nat.mod_lt _ placed.someBucket).trans_eq copies.bktlen), copies.bktlen,
    Nat.mod_mul_right_mod]

theorem Copies.bucketIndex_mod (id : String) :
    bucketIndex hasher expanded id % sketch.bktlen = bucketIndex hasher sketch id := by
  unfold bucketIndex
  rw [copies.bktlen]
  exact Nat.mod_mul_right_mod _ _ _

theorem Copies.bucketAt_bucketIndex (placed : Placed hasher expanded) (id : String) :
    Elastic.bucketAt expanded (bucketIndex hasher expanded id) =
      Elastic.bucketAt sketch (bucketIndex hasher sketch id) := by
  rw [copies.bucketAt _ ((placed.bucketIndex_lt id).trans_eq copies.bktlen),
    copies.bucketIndex_mod]

theorem Copies.sameAnswers (placed : Placed hasher sketch)
    (expandedPlaced : Placed hasher expanded) :
    SameAnswers hasher sketch expanded := by
  refine placed.sameAnswers expandedPlaced copies.light.symm (fun id => ?_) fun id _ => ?_
  · rw [copies.bucketAt_bucketIndex expandedPlaced]
  · rw [copies.bucketAt_bucketIndex expandedPlaced]

end

/-- Expansions, one after another, unless the bucket count overflows. -/
def expandTimes : ℕ → Elastic → Option Elastic
  | 0, sketch => some sketch
  | times + 1, sketch => (expandTimes times sketch).bind expandHeavy

theorem copies_expandTimes (placed : Placed hasher sketch) {times : ℕ}
    (accepted : expandTimes times sketch = some expanded) :
    Placed hasher expanded ∧ Copies sketch expanded (2 ^ times) := by
  induction times generalizing expanded with
  | zero =>
    obtain rfl := Option.some.inj accepted
    exact ⟨placed, copies_self _⟩
  | succ times hypothesis =>
    obtain ⟨before, first, last⟩ := Option.bind_eq_some_iff.mp accepted
    obtain ⟨beforePlaced, copies⟩ := hypothesis first
    rw [Nat.pow_succ]
    exact ⟨beforePlaced.expandHeavy last, copies.expandHeavy beforePlaced last⟩

/-! ### Compressing copies -/

theorem Copies.settled_live (copies : Copies sketch expanded ratio)
    (placed : Placed hasher expanded) {idx : ℕ} (inside : idx < expanded.bktlen)
    (seated : (Elastic.bucketAt (dropStaleCopies hasher expanded) idx).votePos ≠ 0) :
    Elastic.bucketAt (dropStaleCopies hasher expanded) idx =
        Elastic.bucketAt sketch (idx % sketch.bktlen) ∧
      bucketIndex hasher expanded (Elastic.bucketAt sketch (idx % sketch.bktlen)).flowId = idx := by
  rw [bucketAt_dropStaleCopies] at seated ⊢
  split at seated
  · exact absurd rfl seated
  · next live =>
    have resident := placed.of_not_staleAt inside live seated
    rw [if_neg live]
    rw [copies.bucketAt idx (inside.trans_eq copies.bktlen)] at resident ⊢
    exact ⟨rfl, resident⟩

variable {groups : ℕ → Group}

theorem Copies.winner (copies : Copies sketch expanded ratio) (placed : Placed hasher expanded)
    (scanned : Scanned (dropStaleCopies hasher expanded) sketch.bktlen
      (List.range (dropStaleCopies hasher expanded).heavy.length) groups) {idx : ℕ}
    (inside : idx < expanded.bktlen)
    (seated : (Elastic.bucketAt (dropStaleCopies hasher expanded) idx).votePos ≠ 0) :
    (groups (idx % sketch.bktlen)).winner = some idx := by
  have inTable : ∀ place, place ∈ List.range (dropStaleCopies hasher expanded).heavy.length ↔
      place < expanded.bktlen := fun place => by
    rw [List.mem_range, length_dropStaleCopies, placed.sized]
  cases won : (groups (idx % sketch.bktlen)).winner with
  | none => exact absurd (scanned.vacant idx ((inTable idx).mpr inside) won) seated
  | some place =>
    obtain ⟨member, sameGroup, holds⟩ := scanned.winner _ place won
    have own := (copies.settled_live placed inside seated).2
    have theirs := (copies.settled_live placed ((inTable place).mp member) holds).2
    rw [sameGroup] at theirs
    rw [← own, ← theirs]

/-- Compressing copies by as much leaves every resident in its bucket, and spills none. -/
theorem Copies.compressHeavy (copies : Copies sketch expanded ratio) (placed : Placed hasher sketch)
    (expandedPlaced : Placed hasher expanded) (several : 1 < ratio) :
    ∃ compressed, compressHeavy hasher expanded ratio = some compressed ∧
      SameAnswers hasher sketch compressed ∧ compressed.light = sketch.light := by
  have some : 0 < ratio := Nat.zero_lt_of_lt several
  have allowed : 1 ≤ ratio ∧ expanded.bktlen % ratio = 0 := by
    rw [copies.bktlen, Nat.mul_mod_left]
    exact ⟨some, rfl⟩
  have width : (dropStaleCopies hasher expanded).bktlen / ratio = sketch.bktlen := by
    rw [dropStaleCopies_bktlen, copies.bktlen, Nat.mul_div_cancel _ some]
  have result : Elastic.compressHeavy hasher expanded ratio = Option.some (spill hasher
      (compressedTable (dropStaleCopies hasher expanded) sketch.bktlen
        (scanGroups hasher (dropStaleCopies hasher expanded) sketch.bktlen))
      (losersOf (dropStaleCopies hasher expanded) sketch.bktlen
        (scanGroups hasher (dropStaleCopies hasher expanded) sketch.bktlen))) := by
    unfold Elastic.compressHeavy
    rw [if_pos allowed, if_neg several.ne']
    simp only [width]
    rfl
  have scanned := @scanned_scanGroups hasher (dropStaleCopies hasher expanded) sketch.bktlen
  generalize scanGroups hasher (dropStaleCopies hasher expanded) sketch.bktlen = groups
    at result scanned
  have noLosers : losersOf (dropStaleCopies hasher expanded) sketch.bktlen groups = [] := by
    refine List.filterMap_eq_nil_iff.mpr fun idx member => ?_
    rw [List.mem_range, length_dropStaleCopies, expandedPlaced.sized] at member
    by_cases vacant : (Elastic.bucketAt (dropStaleCopies hasher expanded) idx).votePos = 0
    · simp [HeavyBucket.isVacant, vacant]
    · simp [copies.winner expandedPlaced scanned member vacant]
  rw [noLosers] at result
  refine ⟨_, result, ?_, ?_⟩
  · have compressedPlaced : Placed hasher
        (compressedTable (dropStaleCopies hasher expanded) sketch.bktlen groups) := by
      have divides : (dropStaleCopies hasher expanded).bktlen = sketch.bktlen * ratio := by
        rw [dropStaleCopies_bktlen, copies.bktlen]
      exact expandedPlaced.dropStaleCopies.compressedTable (dropStaleCopies_staleCopies _) divides
        scanned
    have read : ∀ id, Elastic.bucketAt (compressedTable (dropStaleCopies hasher expanded)
        sketch.bktlen groups) (bucketIndex hasher sketch id) =
          compressedBucket (dropStaleCopies hasher expanded)
            (groups (bucketIndex hasher sketch id)) := fun id =>
      bucketAt_compressedTable (placed.bucketIndex_lt id) groups
    have seatedHere : ∀ id, (Elastic.bucketAt sketch (bucketIndex hasher sketch id)).Seats id →
        compressedBucket (dropStaleCopies hasher expanded)
            (groups (bucketIndex hasher sketch id)) =
          Elastic.bucketAt sketch (bucketIndex hasher sketch id) := by
      rintro id ⟨seated, own⟩
      have inside := expandedPlaced.bucketIndex_lt id
      have copied := copies.bucketAt_bucketIndex expandedPlaced id
      have live : ¬staleAt hasher expanded (bucketIndex hasher expanded id) = true := fun stale =>
        ((staleAt_iff _).mp stale).2.2 (by rw [copied, own])
      have kept : Elastic.bucketAt (dropStaleCopies hasher expanded)
          (bucketIndex hasher expanded id) =
            Elastic.bucketAt sketch (bucketIndex hasher sketch id) := by
        rw [bucketAt_dropStaleCopies, if_neg live, copied]
      have won := copies.winner expandedPlaced scanned inside (by rw [kept]; exact seated)
      rw [copies.bucketIndex_mod] at won
      unfold compressedBucket
      simp only [won, kept]
    have sameLight : sketch.light = (compressedTable (dropStaleCopies hasher expanded)
        sketch.bktlen groups).light :=
      copies.light.symm.trans (dropStaleCopies_light expanded).symm
    refine placed.sameAnswers compressedPlaced sameLight (fun id => ?_) fun id seats => ?_
    · show _ ↔ (Elastic.bucketAt (compressedTable (dropStaleCopies hasher expanded) sketch.bktlen
        groups) (bucketIndex hasher sketch id)).Seats id
      rw [read]
      constructor
      · intro seats
        rw [seatedHere id seats]
        exact seats
      · intro seats
        unfold compressedBucket at seats
        cases won : (groups (bucketIndex hasher sketch id)).winner with
        | none =>
          simp only [won] at seats
          exact absurd rfl seats.1
        | some place =>
          simp only [won] at seats
          obtain ⟨member, sameGroup, holds⟩ := scanned.winner _ place won
          rw [List.mem_range, length_dropStaleCopies, expandedPlaced.sized] at member
          rw [(copies.settled_live expandedPlaced member holds).1, sameGroup] at seats
          exact seats
    · exact ((read id).trans (seatedHere id seats)).symm
  · show (dropStaleCopies hasher expanded).light = sketch.light
    rw [dropStaleCopies_light, copies.light]

/-! ### Resizing -/

/-- An expansion changes no answer. Any number of expansions and a compression by as much, with
nothing inserted in between, change none either, and leave the light layer as it was, so that no
resident is spilled. -/
theorem resizing_transparent (reachable : Reachable hasher sketch) :
    (∀ expanded, Elastic.expandHeavy sketch = some expanded →
      SameAnswers hasher sketch expanded) ∧
    ∀ times expanded, expandTimes times sketch = some expanded →
      ∃ compressed, Elastic.compressHeavy hasher expanded (2 ^ times) = some compressed ∧
        SameAnswers hasher sketch compressed ∧ compressed.light = sketch.light := by
  have placed := reachable.placed
  constructor
  · intro expanded accepted
    exact ((copies_self sketch).expandHeavy placed accepted).sameAnswers placed
      (placed.expandHeavy accepted)
  · intro times expanded accepted
    cases times with
    | zero =>
      obtain rfl := Option.some.inj accepted
      refine ⟨sketch, ?_, ⟨fun _ => rfl, fun _ => rfl⟩, rfl⟩
      have allowed : 1 ≤ 2 ^ 0 ∧ sketch.bktlen % 2 ^ 0 = 0 := ⟨le_refl 1, Nat.mod_one _⟩
      unfold Elastic.compressHeavy
      rw [if_pos allowed, if_pos (pow_zero 2)]
    | succ times =>
      obtain ⟨expandedPlaced, copies⟩ := copies_expandTimes placed accepted
      exact copies.compressHeavy placed expandedPlaced (Nat.one_lt_two_pow (Nat.succ_ne_zero times))

def oneBucket : Elastic := ⟨[HeavyBucket.new], CountMin.withDimensions 1 1, 1, false⟩

/-- A sketch of one bucket that was expanded once, so that its resident has a stale copy, and then
twice more. -/
theorem resizing_transparent_stale : ∃ sketch expanded, sketch.staleCopies = true ∧
    expandTimes 2 sketch = some expanded ∧
    ∃ compressed, Elastic.compressHeavy collidingHasher expanded (2 ^ 2) = some compressed ∧
      SameAnswers collidingHasher sketch compressed ∧ compressed.light = sketch.light := by
  have empty : initWithDimensions 1 1 1 = some oneBucket := rfl
  have doubled : Elastic.expandHeavy (Elastic.insertMany collidingHasher oneBucket "first" 2) =
    some (expandedTable (Elastic.insertMany collidingHasher oneBucket "first" 2)) := rfl
  have reachable := Reachable.expandHeavy
    (.insertMany "first" 2 (Reachable.init empty)) doubled
  have again : expandTimes 2 (expandedTable
    (Elastic.insertMany collidingHasher oneBucket "first" 2)) = some _ := rfl
  exact ⟨_, _, rfl, again, (resizing_transparent reachable).2 2 _ again⟩

end Elastic

end AsapSketchlib
