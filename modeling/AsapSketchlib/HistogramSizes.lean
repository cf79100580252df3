/-
This file proves the size invariants of the L1 rule: bucket sizes are powers of two, largest
first, and every size but the largest occurs one of two neighbouring numbers of times. One
backward scan restores this after an append, because a merge only ever lengthens the run that
the scan counts next.
-/

import AsapSketchlib.BinaryRuns
import AsapSketchlib.HistogramPartition
import Mathlib.Data.List.GetD

namespace AsapSketchlib

namespace EHSketchKind

open BinaryRuns

variable {Sketch Input : Type} {kind : EHSketchKind Sketch Input} {arith : MassArith}

/-! ### Sizes of merged buckets -/

def sizes (payload : List (EHBucket Sketch)) : List ℕ := payload.map EHBucket.size

theorem sizeAt_eq (payload : List (EHBucket Sketch)) (index : ℕ) :
    sizeAt payload index = (sizes payload)[index]? := (List.getElem?_map ..).symm

theorem sizes_mergeAtIndex {payload merged : List (EHBucket Sketch)} {front back : List ℕ}
    {kept next : ℕ} (sizesEq : sizes payload = front ++ kept :: next :: back)
    (success : kind.mergeAtIndex payload front.length = (merged, .ok ())) :
    sizes merged = front ++ (kept + next) :: back := by
  obtain ⟨older, rest, rfl, olderEq, restEq⟩ := List.map_eq_append_iff.mp sizesEq
  obtain ⟨keptBucket, rest, rfl, rfl, moreEq⟩ := List.map_eq_cons_iff.mp restEq
  obtain ⟨nextBucket, newer, rfl, rfl, rfl⟩ := List.map_eq_cons_iff.mp moreEq
  subst olderEq
  rw [List.length_map, mergeAtIndex_append] at success
  unfold toMerge at success
  cases union : kind.merge keptBucket.bucket nextBucket.bucket with
  | error refusal =>
    rw [union] at success
    exact absurd (congrArg Prod.snd success) (by simp [Except.map])
  | ok sketch =>
    simp only [union, Except.map] at success
    obtain rfl := (Prod.mk.inj success).1
    unfold sizes
    rw [List.map_append, List.map_cons]

theorem crowded_iff (k sameSizeVol : ℕ) : Crowded k sameSizeVol ↔ (k + 1) / 2 + 2 ≤ sameSizeVol := by
  have cleared : Crowded k sameSizeVol ↔ k + 4 ≤ 2 * sameSizeVol := by
    unfold Crowded
    rw [← @Nat.cast_le ℚ]
    push_cast
    constructor <;> intro bound <;> linarith
  rw [cleared]
  omega

theorem sizes_mergeCrowded {payload merged : List (EHBucket Sketch)} {front back : List ℕ}
    {k sameSizeVol kept next : ℕ} (sizesEq : sizes payload = front ++ kept :: next :: back)
    (success : kind.mergeCrowded k sameSizeVol payload front.length = (merged, .ok ())) :
    sizes merged = if (k + 1) / 2 + 2 ≤ sameSizeVol then front ++ (kept + next) :: back
      else sizes payload := by
  unfold mergeCrowded at success
  by_cases crowded : Crowded k sameSizeVol
  · rw [if_pos crowded] at success
    rw [if_pos ((crowded_iff k sameSizeVol).mp crowded)]
    exact sizes_mergeAtIndex sizesEq success
  · rw [if_neg crowded] at success
    rw [if_neg fun many => crowded ((crowded_iff k sameSizeVol).mpr many),
      (Prod.mk.inj success).1]

/-! ### The scan -/

/-- The scan stands at index `i`: of the run of `2 ^ level`, `same` buckets are counted and `more`
are still to the left, with the larger runs. What is newer is finished. -/
structure Scanning (low level i same more : ℕ) (counts newest entries : List ℕ) : Prop where
  entries : entries =
    expand (level + 1) counts ++ List.replicate (more + same) (2 ^ level) ++ newest
  place : i + 1 = (expand (level + 1) counts).length + more
  counted : 1 ≤ same
  room : more + same ≤ low + 2
  full : counts ≠ [] → low ≤ more + same
  larger : Balanced low counts

theorem getElem?_run (front back : List ℕ) (value : ℕ) {count index : ℕ}
    (left : front.length ≤ index) (right : index < front.length + count) :
    (front ++ List.replicate count value ++ back)[index]? = some value := by
  rw [List.append_assoc, List.getElem?_append_right left, List.getElem?_append_left,
    List.getElem?_replicate, if_pos (by omega)]
  rw [List.length_replicate]
  omega

theorem visitL1_inside {k low level i same more : ℕ} {counts newest : List ℕ}
    {payload : List (EHBucket Sketch)}
    (scanning : Scanning low level i same (more + 1) counts newest (sizes payload)) :
    kind.visitL1 k i same payload = (payload, .ok (same + 1)) := by
  have place := scanning.place
  have counted := scanning.counted
  have here : (sizes payload)[i]? = some (2 ^ level) := by
    rw [scanning.entries]
    exact getElem?_run _ _ _ (by omega) (by omega)
  have next : (sizes payload)[i + 1]? = some (2 ^ level) := by
    rw [scanning.entries]
    exact getElem?_run _ _ _ (by omega) (by omega)
  unfold visitL1
  rw [sizeAt_eq, sizeAt_eq, here, next, if_pos rfl]

/-- At the boundary of a run the scan merges its two oldest buckets if the run is crowded, and
goes on with the next larger run. -/
theorem visitL1_boundary {k level i same same' count : ℕ} {counts newest : List ℕ}
    {payload visited : List (EHBucket Sketch)}
    (scanning : Scanning ((k + 1) / 2) level i same 0 ((count + 1) :: counts) newest
      (sizes payload))
    (visit : kind.visitL1 k i same payload = (visited, .ok same')) :
    ∃ finished, (k + 1) / 2 ≤ finished ∧ finished ≤ (k + 1) / 2 + 1 ∧
      sizes visited = expand (level + 2) counts ++
        List.replicate (count + (if finished = same then 1 else 2)) (2 ^ (level + 1)) ++
          (List.replicate finished (2 ^ level) ++ newest) ∧
      same' = if finished = same ∨ i = 0 then 1 else 2 := by
  obtain ⟨entries, place, counted, room, full, -⟩ := scanning
  have enough := full (List.cons_ne_nil _ _)
  rw [Nat.zero_add] at entries room enough
  have unfolded : expand (level + 1) ((count + 1) :: counts) =
      expand (level + 2) counts ++ List.replicate count (2 ^ (level + 1)) ++ [2 ^ (level + 1)] := by
    rw [List.append_assoc, ← List.replicate_succ']
    rfl
  rw [unfolded] at entries place
  generalize older : expand (level + 2) counts ++ List.replicate count (2 ^ (level + 1)) = front
    at entries place
  have index : i = front.length := by
    rw [List.length_append, List.length_singleton] at place
    omega
  subst index
  have double : 2 ^ level + 2 ^ level = 2 ^ (level + 1) := by rw [pow_succ, Nat.mul_two]
  have powerPositive : 0 < 2 ^ level := Nat.two_pow_pos level
  have here : (sizes payload)[front.length]? = some (2 ^ (level + 1)) := by
    rw [entries, List.append_assoc, List.append_assoc, List.getElem?_append_right (Nat.le_refl _),
      Nat.sub_self]
    rfl
  have next : (sizes payload)[front.length + 1]? = some (2 ^ level) := by
    rw [entries]
    refine getElem?_run _ _ _ ?_ ?_ <;> rw [List.length_append, List.length_singleton]
    omega
  have different : some (2 ^ (level + 1)) ≠ some (2 ^ level) := fun same => by
    have equal := Option.some.inj same
    omega
  unfold visitL1 at visit
  rw [sizeAt_eq, sizeAt_eq, here, next, if_neg different] at visit
  obtain ⟨visitedEq, countEq⟩ := Prod.mk.inj visit
  have success : kind.mergeCrowded k same payload (front.length + 1) = (visited, .ok ()) := by
    refine Prod.ext visitedEq ?_
    cases result : (kind.mergeCrowded k same payload (front.length + 1)).2 with
    | error refusal =>
      rw [result] at countEq
      exact absurd countEq (by simp only [Except.map, reduceCtorEq, not_false_eq_true])
    | ok _ => rfl
  rw [success] at countEq
  have sameEq := Except.ok.inj countEq
  have atBoundary : kind.mergeCrowded k same payload (front ++ [2 ^ (level + 1)]).length =
      (visited, .ok ()) := by
    rw [List.length_append, List.length_singleton]
    exact success
  by_cases crowded : same = (k + 1) / 2 + 2
  · have run : List.replicate same (2 ^ level) ++ newest =
        2 ^ level :: 2 ^ level :: (List.replicate ((k + 1) / 2) (2 ^ level) ++ newest) := by
      rw [crowded, List.replicate_succ, List.replicate_succ]
      rfl
    have merged := sizes_mergeCrowded (entries.trans (by rw [List.append_assoc, run])) atBoundary
    rw [if_pos (Nat.le_of_eq crowded.symm), double] at merged
    have mergedHere : (sizes visited)[front.length]? = some (2 ^ (level + 1)) := by
      rw [merged, List.append_assoc, List.getElem?_append_right (Nat.le_refl _), Nat.sub_self]
      rfl
    have mergedNext : (sizes visited)[front.length + 1]? = some (2 ^ (level + 1)) := by
      rw [merged, List.append_assoc, List.getElem?_append_right (Nat.le_succ _),
        Nat.succ_sub (Nat.le_refl _), Nat.sub_self]
      rfl
    have inside : front.length + 1 < visited.length := by
      have found := (List.getElem?_eq_some_iff.mp mergedNext).1
      rwa [sizes, List.length_map] at found
    have unequal : ¬(k + 1) / 2 = same := by omega
    refine ⟨(k + 1) / 2, Nat.le_refl _, Nat.le_succ _, ?_, ?_⟩
    · have pair : List.replicate (count + 2) (2 ^ (level + 1)) =
          List.replicate count (2 ^ (level + 1)) ++ [2 ^ (level + 1), 2 ^ (level + 1)] :=
        List.replicate_add _ _ _
      rw [merged, if_neg unequal, pair, ← older]
      simp only [List.append_assoc, List.cons_append, List.nil_append]
    · rw [← sameEq]
      dsimp only
      rw [sizeAt_eq, sizeAt_eq, mergedHere, mergedNext]
      by_cases first : front.length = 0
      · rw [if_neg fun again => absurd again.2.1 (by omega), if_pos (Or.inr first)]
      · rw [if_pos ⟨inside, Nat.pos_of_ne_zero first, rfl⟩, if_neg fun either =>
          either.elim unequal first]
  · have small : ¬(k + 1) / 2 + 2 ≤ same := by omega
    obtain ⟨second, rfl⟩ := Nat.exists_eq_succ_of_ne_zero (Nat.one_le_iff_ne_zero.mp counted)
    have unmerged : sizes visited = sizes payload := by
      unfold mergeCrowded at success
      rw [if_neg fun many => small ((crowded_iff k _).mp many)] at success
      rw [(Prod.mk.inj success).1]
    refine ⟨second + 1, enough, by omega, ?_, ?_⟩
    · have one : List.replicate (count + 1) (2 ^ (level + 1)) =
          List.replicate count (2 ^ (level + 1)) ++ [2 ^ (level + 1)] := List.replicate_succ'
      rw [unmerged, entries, if_pos rfl, one, ← older]
      simp only [List.append_assoc]
    · rw [← sameEq]
      dsimp only
      rw [sizeAt_eq, sizeAt_eq, unmerged, here, next, if_pos (Or.inl rfl),
        if_neg fun again => different again.2.2.symm]

theorem length_expand_cons (level count : ℕ) (counts : List ℕ) :
    (expand level (count :: counts)).length = (expand (level + 1) counts).length + count := by
  show (expand (level + 1) counts ++ List.replicate count (2 ^ level)).length = _
  rw [List.length_append, List.length_replicate]

/-- What the scan leaves, below the finished part. -/
def Settled (low level : ℕ) (newest entries : List ℕ) : Prop :=
  ∃ counts, entries = expand level counts ++ newest ∧ Balanced low counts

theorem Settled.cons {low level finished : ℕ} {newest entries : List ℕ}
    (settled : Settled low (level + 1) (List.replicate finished (2 ^ level) ++ newest) entries)
    (positive : 1 ≤ low) (enough : low ≤ finished) (small : finished ≤ low + 1) :
    Settled low level newest entries := by
  obtain ⟨counts, entriesEq, balanced⟩ := settled
  refine ⟨finished :: counts, ?_, balanced.cons (positive.trans enough) small fun _ => enough⟩
  rw [entriesEq, ← List.append_assoc]
  rfl

theorem settled_finishL1 {k level run : ℕ} {newest : List ℕ}
    {payload final : List (EHBucket Sketch)} (positive : 1 ≤ k)
    (entries : sizes payload = List.replicate (run + 2) (2 ^ level) ++ newest)
    (room : run ≤ (k + 1) / 2) (success : kind.finishL1 k (run + 2) payload = (final, .ok ())) :
    Settled ((k + 1) / 2) level newest (sizes final) := by
  have front : sizes payload =
      [] ++ 2 ^ level :: 2 ^ level :: (List.replicate run (2 ^ level) ++ newest) := entries
  have long : 2 ≤ payload.length := by
    have length := congrArg List.length front
    rw [sizes, List.length_map] at length
    rw [length]
    exact Nat.le_add_left _ _
  unfold finishL1 at success
  rw [if_pos long] at success
  have merged := sizes_mergeCrowded front success
  have low : 1 ≤ (k + 1) / 2 := by omega
  have double : 2 ^ level + 2 ^ level = 2 ^ (level + 1) := by rw [pow_succ, Nat.mul_two]
  by_cases crowded : (k + 1) / 2 + 2 ≤ run + 2
  · rw [if_pos crowded, double] at merged
    have exact : run = (k + 1) / 2 := by omega
    subst exact
    refine ⟨[(k + 1) / 2, 1], merged, ?_⟩
    exact ((balanced_nil _).cons (Nat.le_refl 1) (Nat.le_add_left _ _) (absurd rfl)).cons low
      (Nat.le_succ _) fun _ => Nat.le_refl _
  · rw [if_neg crowded] at merged
    refine ⟨[run + 2], merged.trans entries, ?_⟩
    exact (balanced_nil _).cons (Nat.le_add_left _ _) (by omega) (absurd rfl)

/-- At the front there are only a few shapes left. -/
theorem settled_scanL1_zero {k level same more : ℕ} {counts newest : List ℕ}
    {payload final : List (EHBucket Sketch)} (positive : 1 ≤ k)
    (scanning : Scanning ((k + 1) / 2) level 0 same more counts newest (sizes payload))
    (run : kind.scanL1 k 0 same payload = (final, .ok ())) :
    Settled ((k + 1) / 2) level newest (sizes final) := by
  have place := scanning.place
  have counted := scanning.counted
  have room := scanning.room
  unfold scanL1 at run
  cases more with
  | succ more =>
    have none : counts = [] := by
      cases counts with
      | nil => rfl
      | cons count counts =>
        have positive := scanning.larger.head.1
        rw [length_expand_cons] at place
        omega
    subst none
    obtain rfl : more = 0 := by omega
    rw [visitL1_inside scanning] at run
    obtain ⟨second, rfl⟩ := Nat.exists_eq_succ_of_ne_zero (Nat.one_le_iff_ne_zero.mp counted)
    refine settled_finishL1 positive ?_ (by omega) run
    rw [scanning.entries]
    show List.replicate (0 + 1 + (second + 1)) (2 ^ level) ++ newest = _
    rw [show 0 + 1 + (second + 1) = second + 2 by omega]
  | zero =>
    cases counts with
    | nil => exact absurd place (by simp only [expand, List.length_nil]; decide)
    | cons count counts =>
      obtain ⟨countPositive, -, -⟩ := scanning.larger.head
      obtain ⟨count, rfl⟩ := Nat.exists_eq_succ_of_ne_zero (Nat.one_le_iff_ne_zero.mp countPositive)
      have none : counts = [] := by
        cases counts with
        | nil => rfl
        | cons other counts =>
          have otherPositive := scanning.larger.tail.head.1
          rw [length_expand_cons, length_expand_cons] at place
          omega
      subst none
      obtain rfl : count = 0 := by
        rw [length_expand_cons] at place
        omega
      split at run
      · next visited same' visit =>
        obtain ⟨finished, enough, small, entries, sameEq⟩ := visitL1_boundary scanning visit
        rw [if_pos (Or.inr rfl)] at sameEq
        subst sameEq
        have kept : final = visited := by
          unfold finishL1 mergeCrowded at run
          rw [if_neg fun crowded => absurd ((crowded_iff k 1).mp crowded) (by omega)] at run
          split at run <;> exact (Prod.mk.inj run).1.symm
        subst kept
        refine Settled.cons ⟨[0 + if finished = same then 1 else 2], entries, ?_⟩ (by omega) enough
          small
        refine (balanced_nil _).cons ?_ ?_ (absurd rfl) <;> split <;> omega
      · exact absurd (congrArg Prod.snd run) (by simp)

theorem settled_scanL1 {k i level same more : ℕ} {counts newest : List ℕ}
    {payload final : List (EHBucket Sketch)} (positive : 1 ≤ k)
    (scanning : Scanning ((k + 1) / 2) level i same more counts newest (sizes payload))
    (run : kind.scanL1 k i same payload = (final, .ok ())) :
    Settled ((k + 1) / 2) level newest (sizes final) := by
  induction i generalizing level same more counts newest payload with
  | zero => exact settled_scanL1_zero positive scanning run
  | succ i hypothesis =>
    have place := scanning.place
    have counted := scanning.counted
    have room := scanning.room
    unfold scanL1 at run
    cases more with
    | succ more =>
      rw [visitL1_inside scanning] at run
      have next : Scanning ((k + 1) / 2) level i (same + 1) more counts newest (sizes payload) := by
        refine ⟨?_, by omega, by omega, by omega, fun larger => ?_, scanning.larger⟩
        · rw [scanning.entries, show more + 1 + same = more + (same + 1) by omega]
        · have full := scanning.full larger
          omega
      exact hypothesis next run
    | zero =>
      cases counts with
      | nil => exact absurd place (by simp only [expand, List.length_nil]; omega)
      | cons count counts =>
        obtain ⟨countPositive, countSmall, countFull⟩ := scanning.larger.head
        obtain ⟨count, rfl⟩ :=
          Nat.exists_eq_succ_of_ne_zero (Nat.one_le_iff_ne_zero.mp countPositive)
        split at run
        · next visited same' visit =>
          obtain ⟨finished, enough, small, entries, sameEq⟩ := visitL1_boundary scanning visit
          have sameCases : same' = if finished = same then 1 else 2 := by
            rw [sameEq]
            by_cases equal : finished = same
            · rw [if_pos equal, if_pos (Or.inl equal)]
            · rw [if_neg equal, if_neg fun either => either.elim equal (Nat.succ_ne_zero i)]
          have sameRange : 1 ≤ same' ∧ same' ≤ 2 := by
            rw [sameCases]
            split <;> omega
          rw [← sameCases] at entries
          rw [length_expand_cons] at place
          have next : Scanning ((k + 1) / 2) (level + 1) i same' count counts
              (List.replicate finished (2 ^ level) ++ newest) (sizes visited) := by
            refine ⟨entries, by omega, sameRange.1, by omega, fun larger => ?_,
              scanning.larger.tail⟩
            have full := countFull larger
            omega
          exact (hypothesis next run).cons (by omega) enough small
        · exact absurd (congrArg Prod.snd run) (by simp)

/-! ### Runs -/

/-- Every merge that an update of the stream attempts succeeds. -/
def MergesSucceed (kind : EHSketchKind Sketch Input) (arith : MassArith) :
    ExponentialHistogram Sketch → List (ℕ × Input) → Prop
  | _, [] => True
  | eh, entry :: rest =>
    (kind.mergeVolumes arith eh
      (retained eh entry.1 ++ [kind.newBucket eh entry.1 entry.2])).2 = .ok () ∧
        MergesSucceed kind arith (kind.update arith eh entry.1 entry.2) rest

/-- A histogram under the L1 rule whose sizes are settled. -/
structure SizesSettled (k : ℕ) (eh : ExponentialHistogram Sketch) : Prop where
  parameter : eh.k = k
  rule : eh.mergeNorm = .l1
  settled : Settled ((k + 1) / 2) 0 [] (sizes eh.payload)

theorem settled_mergeVolumesL1 {k : ℕ} {payload final : List (EHBucket Sketch)}
    {newest : EHBucket Sketch} (positive : 1 ≤ k) (single : newest.size = 1)
    (settled : Settled ((k + 1) / 2) 0 [] (sizes payload))
    (run : kind.mergeVolumesL1 k (payload ++ [newest]) = (final, .ok ())) :
    Settled ((k + 1) / 2) 0 [] (sizes final) := by
  obtain ⟨counts, entries, balanced⟩ := settled
  rw [List.append_nil] at entries
  have length : payload.length = (expand 0 counts).length := by
    rw [← entries, sizes, List.length_map]
  have appended : sizes (payload ++ [newest]) = expand 0 counts ++ [1] := by
    rw [← entries, ← single]
    exact List.map_append
  unfold mergeVolumesL1 at run
  cases counts with
  | nil =>
    have short : (payload ++ [newest]).length < 2 := by
      rw [List.length_append, length]
      exact Nat.lt_succ_self 1
    rw [if_pos short] at run
    rw [← (Prod.mk.inj run).1, appended]
    exact ⟨[1], rfl, (balanced_nil _).cons (Nat.le_refl 1) (Nat.le_add_left _ _) (absurd rfl)⟩
  | cons count counts =>
    obtain ⟨countPositive, small, full⟩ := balanced.head
    rw [length_expand_cons] at length
    have long : ¬(payload ++ [newest]).length < 2 := by
      rw [List.length_append, length, List.length_singleton]
      omega
    rw [if_neg long] at run
    have scanning : Scanning ((k + 1) / 2) 0 ((payload ++ [newest]).length - 2) 1 count counts []
        (sizes (payload ++ [newest])) := by
      refine ⟨?_, ?_, Nat.le_refl 1, by omega, fun larger => ?_, balanced.tail⟩
      · rw [appended, List.replicate_succ', List.append_nil, ← List.append_assoc]
        rfl
      · rw [List.length_append, length, List.length_singleton]
        omega
      · exact (full larger).trans (Nat.le_succ count)
    exact settled_scanL1 positive scanning run

theorem sizesSettled_update {k : ℕ} {eh : ExponentialHistogram Sketch} {time : ℕ} {input : Input}
    (positive : 1 ≤ k) (sizesSettled : SizesSettled k eh)
    (success : (kind.mergeVolumes arith eh
      (retained eh time ++ [kind.newBucket eh time input])).2 = .ok ()) :
    SizesSettled k (kind.update arith eh time input) := by
  obtain ⟨parameter, rule, counts, entries, balanced⟩ := sizesSettled
  refine ⟨parameter, rule, ?_⟩
  obtain ⟨front, cut⟩ := List.dropWhile_suffix (l := eh.payload)
    (fun bucket => decide (bucket.maxTime < time - eh.window))
  have left : Settled ((k + 1) / 2) 0 [] (sizes (retained eh time)) := by
    have split : expand 0 counts = sizes front ++ sizes (retained eh time) := by
      rw [← List.append_nil (expand 0 counts), ← entries, ← cut]
      exact List.map_append
    obtain ⟨counts', restEq, balanced'⟩ := suffix_expand balanced split
    exact ⟨counts', by rw [restEq, List.append_nil], balanced'⟩
  unfold mergeVolumes at success
  rw [rule] at success
  have updated : (kind.update arith eh time input).payload = (kind.mergeVolumesL1 eh.k
      (retained eh time ++ [kind.newBucket eh time input])).1 := by
    unfold update mergeVolumes
    rw [rule]
  rw [updated, parameter]
  rw [parameter] at success
  exact settled_mergeVolumesL1 positive rfl left (Prod.ext rfl success)

theorem sizesSettled_updateAll {k : ℕ} {eh : ExponentialHistogram Sketch}
    {stream : List (ℕ × Input)} (positive : 1 ≤ k) (sizesSettled : SizesSettled k eh)
    (success : MergesSucceed kind arith eh stream) :
    SizesSettled k (kind.updateAll arith eh stream) := by
  induction stream generalizing eh with
  | nil => exact sizesSettled
  | cons entry rest hypothesis =>
    exact hypothesis (sizesSettled_update positive sizesSettled success.1) success.2

/-! ### The invariants -/

/-- The size invariants of the L1 rule, for the sizes from oldest to newest. -/
structure L1Invariant (k : ℕ) (entries : List ℕ) : Prop where
  powers : ∀ size ∈ entries, ∃ exponent, size = 2 ^ exponent
  ordered : entries.Pairwise fun older newer => newer ≤ older
  few : ∀ size, (entries.count size : ℚ) < k / 2 + 2
  many : ∀ oldest rest, entries = oldest :: rest → ∀ exponent, 2 ^ exponent < oldest →
    ⌈(k : ℚ) / 2⌉₊ ≤ entries.count (2 ^ exponent)
  bounded : ∀ oldest rest, entries = oldest :: rest → ⌈(k : ℚ) / 2⌉₊ * (oldest - 1) ≤ rest.sum

theorem ceil_half (k : ℕ) : ⌈(k : ℚ) / 2⌉₊ = (k + 1) / 2 := by
  refine eq_of_forall_ge_iff fun bound => ?_
  have cleared : (k : ℚ) / 2 ≤ bound ↔ k ≤ 2 * bound := by
    rw [← @Nat.cast_le ℚ]
    push_cast
    constructor <;> intro le <;> linarith
  rw [Nat.ceil_le, cleared]
  omega

theorem Settled.invariant {k : ℕ} {entries : List ℕ}
    (settled : Settled ((k + 1) / 2) 0 [] entries) : L1Invariant k entries := by
  obtain ⟨counts, rfl, balanced⟩ := settled
  rw [List.append_nil]
  have countPower : ∀ exponent, (expand 0 counts).count (2 ^ exponent) = counts.getD exponent 0 := by
    intro exponent
    have count := count_expand 0 exponent counts
    rwa [Nat.zero_add] at count
  refine ⟨?_, pairwise_expand 0 counts, ?_, ?_, ?_⟩
  · intro size member
    obtain ⟨place, -, rfl⟩ := mem_expand member
    exact ⟨0 + place, rfl⟩
  · intro size
    have small : (expand 0 counts).count size ≤ (k + 1) / 2 + 1 := by
      by_cases member : size ∈ expand 0 counts
      · obtain ⟨place, inside, rfl⟩ := mem_expand member
        rw [countPower, List.getD_eq_getElem _ _ (by omega)]
        exact (balanced.range _ (List.getElem_mem _)).2
      · rw [List.count_eq_zero_of_not_mem member]
        exact Nat.zero_le _
    have cleared : 2 * (expand 0 counts).count size < k + 4 := by omega
    have cast : (2 * (expand 0 counts).count size : ℚ) < k + 4 := by exact_mod_cast cleared
    linarith
  · intro oldest rest equal exponent smaller
    obtain ⟨some, rfl⟩ := head_expand balanced equal
    have positive := List.length_pos_of_ne_nil some
    have below := (Nat.pow_lt_pow_iff_right (by decide : 1 < 2)).mp smaller
    rw [ceil_half, countPower, List.getD_eq_getElem _ _ (by omega)]
    have inside : exponent < counts.dropLast.length := by
      rw [List.length_dropLast]
      omega
    rw [← List.getElem_dropLast inside]
    exact balanced.full _ (List.getElem_mem _)
  · intro oldest rest equal
    obtain ⟨some, first⟩ := head_expand balanced equal
    have total : (k + 1) / 2 * (2 ^ (0 + (counts.length - 1)) - 2 ^ 0) +
        2 ^ (0 + (counts.length - 1)) ≤ (expand 0 counts).sum := sum_expand balanced some
    rw [equal, List.sum_cons, ← first, pow_zero] at total
    rw [ceil_half]
    omega

end EHSketchKind

end AsapSketchlib
