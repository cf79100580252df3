/-
This file says what merging does to flat summaries. The union pairs the counters both
sides hold and raises the others by the ceiling of the side that lacks them; it is put in
order, trimmed to the capacity and seated again.

The linked summaries are shown to merge in this way, with no fault, and the result is
again represented.
-/

import AsapSketchlib.FallibleMaps
import AsapSketchlib.FlatSummary

namespace AsapSketchlib

open Arena

namespace SpaceSaving

def MergeEntry.toCounter (entry : MergeEntry) : Counter :=
  { key := entry.key, digest := entry.digest, count := entry.count, error := entry.error }

def MergeEntry.ofCounter (counter : Counter) : MergeEntry :=
  { key := counter.key, digest := counter.digest, count := counter.count, error := counter.error,
    paired := false }

/-! ### The empty summary -/

theorem Structured.empty {summary : SpaceSaving} (monitored : summary.monitored = [])
    (buckets : summary.buckets = []) (bucketFree : summary.bucketFree = [])
    (bucketHead : summary.bucketHead = none) (bucketTail : summary.bucketTail = none)
    (index : summary.index = fun _ => none) : Structured summary := by
  refine ⟨⟨[], fun _ => [], ⟨⟨?_, trivial, bucketHead, bucketTail, List.Pairwise.nil, ?_, ?_⟩, ?_, ?_⟩⟩,
    ?_⟩
  · rw [bucketFree, buckets]
    exact List.Perm.refl _
  · simp
  · simp
  · rw [monitored]
    exact ⟨List.Perm.refl _, List.nodup_range, by simp, by simp, by simp, by simp⟩
  · simp
  · rw [index]
    have nothing : digestAt summary = fun _ => none := funext fun cid => by
      rw [digestAt, monitored]
      rfl
    rw [nothing]
    exact .empty

theorem withCapacity_represented (capacity : ℕ) : Represented (withCapacity capacity) := by
  refine ⟨Structured.empty rfl rfl rfl rfl rfl rfl, ⟨?_, ?_, ?_, ?_, ?_, ?_⟩⟩
  · exact lt_of_lt_of_le Nat.zero_lt_one (le_max_right _ _)
  all_goals simp [flatten, counters, withCapacity]

theorem clear_structured (summary : SpaceSaving) : Structured (clear summary) :=
  Structured.empty rfl rfl rfl rfl rfl rfl

theorem clear_represented {summary : SpaceSaving} (represented : Represented summary) :
    Represented (clear summary) := by
  refine ⟨clear_structured summary, ⟨represented.bounded.positive, ?_, ?_, ?_, ?_, ?_⟩⟩
  all_goals simp [flatten, counters, clear]

/-! ### Seating a list of entries -/

theorem seatAll_spec {summary : SpaceSaving} (structured : Structured summary)
    {entries : List MergeEntry} (counts : ∀ entry ∈ entries, 0 < entry.count ∧ entry.count ≤ u64Max) :
    ∃ summary', seatAll summary entries = .ok summary' ∧ Structured summary' ∧
      counters summary' = counters summary ++ entries.map MergeEntry.toCounter ∧
      summary'.capacity = summary.capacity ∧ summary'.total = summary.total ∧
      summary'.discardedMax = summary.discardedMax := by
  induction entries generalizing summary with
  | nil => exact ⟨summary, rfl, structured, by simp, rfl, rfl, rfl⟩
  | cons entry rest hypothesis =>
    obtain ⟨positive, capped⟩ := counts entry List.mem_cons_self
    obtain ⟨seated, seating, structured', counters', capacity, total, discardedMax⟩ :=
      seat_spec structured entry.digest entry.key entry.error positive capped
    obtain ⟨last, seatingRest, structured'', counters'', capacity', total', discardedMax'⟩ :=
      hypothesis structured' fun other member => counts other (List.mem_cons_of_mem _ member)
    refine ⟨last, ?_, structured'', ?_, capacity'.trans capacity, total'.trans total,
      discardedMax'.trans discardedMax⟩
    · simp only [seatAll, seating, bind, Except.bind]
      exact seatingRest
    · rw [counters'', counters', List.map_cons, List.append_assoc]
      rfl

/-! ### The union -/

theorem mergeEntries_spec {summary : SpaceSaving} (structured : Structured summary) :
    mergeEntries summary = .ok ((counters summary).map MergeEntry.ofCounter) := by
  rw [mergeEntries, counters, List.map_map]
  refine mapM_ok fun counter member => ?_
  obtain ⟨cid, found⟩ := List.mem_iff_getElem?.mp member
  obtain ⟨bucket, reading, seen⟩ := structured.readBucket found
  rw [counters, List.getElem?_map, found, Option.map_some] at seen
  have same := congrArg Counter.count (Option.some.inj seen)
  simp only [reading, bind, Except.bind, pure, Except.pure]
  refine congrArg Except.ok ?_
  simp only [Function.comp_apply, MergeEntry.ofCounter, Counter.ofLabel, label] at same ⊢
  rw [same]

/-- What is known of an entry of a union under way: an entry that has not been paired is still
above the ceiling of its own side, a paired one is above both ceilings. -/
structure MergeBound (mineMin theirsMin : ℕ) (entry : MergeEntry) : Prop where
  errors : entry.error ≤ entry.count
  positive : 0 < entry.count
  capped : entry.count ≤ u64Max
  unpaired : entry.paired = false → mineMin ≤ entry.count
  paired : entry.paired = true → saturatingAdd mineMin theirsMin ≤ entry.count

theorem absorb_bound {mineMin theirsMin : ℕ} (incoming : MergeEntry) {entries : List MergeEntry}
    (errors : incoming.error ≤ incoming.count) (positive : 0 < incoming.count)
    (above : theirsMin ≤ incoming.count)
    (bounds : ∀ entry ∈ entries, MergeBound mineMin theirsMin entry) :
    ∀ entry ∈ absorb mineMin incoming entries, MergeBound mineMin theirsMin entry := by
  induction entries with
  | nil =>
    intro entry member
    rw [List.mem_singleton.mp member]
    refine ⟨?_, ?_, saturatingAdd_le_max _ _, by simp, fun _ => ?_⟩
    all_goals
      simp only [saturatingAdd, u64Max]
      omega
  | cons first rest hypothesis =>
    have firstBound := bounds first List.mem_cons_self
    have restBounds := fun entry member => bounds entry (List.mem_cons_of_mem first member)
    unfold absorb
    split
    · intro entry member
      rcases List.mem_cons.mp member with rfl | member
      · have own : first.paired = true ∧ saturatingAdd mineMin theirsMin ≤ first.count ∨
            mineMin ≤ first.count := by
          cases paired : first.paired with
          | true => exact Or.inl ⟨rfl, firstBound.paired paired⟩
          | false => exact Or.inr (firstBound.unpaired paired)
        have bounded := firstBound.errors
        have some_weight := firstBound.positive
        refine ⟨?_, ?_, saturatingAdd_le_max _ _, by simp, fun _ => ?_⟩
        all_goals
          simp only [saturatingAdd, u64Max] at own ⊢
          omega
      · exact restBounds entry member
    · intro entry member
      rcases List.mem_cons.mp member with rfl | member
      · exact firstBound
      · exact hypothesis restBounds entry member

/-- Every entry of the union is bounded and above both ceilings together. -/
theorem mergeUnion_bound {mine theirs : List Counter} {mineMin theirsMin : ℕ}
    (mineBounds : ∀ counter ∈ mine, counter.error ≤ counter.count ∧ 0 < counter.count ∧
      counter.count ≤ u64Max ∧ mineMin ≤ counter.count)
    (theirsBounds : ∀ counter ∈ theirs, counter.error ≤ counter.count ∧ 0 < counter.count ∧
      theirsMin ≤ counter.count) :
    ∀ entry ∈ mergeUnion (mine.map MergeEntry.ofCounter) (theirs.map MergeEntry.ofCounter) mineMin
      theirsMin, entry.error ≤ entry.count ∧ 0 < entry.count ∧ entry.count ≤ u64Max ∧
        saturatingAdd mineMin theirsMin ≤ entry.count := by
  have folded : ∀ (incoming : List Counter) (entries : List MergeEntry),
      (∀ counter ∈ incoming, counter.error ≤ counter.count ∧ 0 < counter.count ∧
        theirsMin ≤ counter.count) →
      (∀ entry ∈ entries, MergeBound mineMin theirsMin entry) →
      ∀ entry ∈ (incoming.map MergeEntry.ofCounter).foldl
        (fun merged next => absorb mineMin next merged) entries,
        MergeBound mineMin theirsMin entry := by
    intro incoming
    induction incoming with
    | nil => exact fun entries _ bounds => bounds
    | cons counter rest hypothesis =>
      intro entries incomingBounds bounds
      obtain ⟨errors, positive, above⟩ := incomingBounds counter List.mem_cons_self
      exact hypothesis _
        (fun other member => incomingBounds other (List.mem_cons_of_mem _ member))
        (absorb_bound (MergeEntry.ofCounter counter) errors positive above bounds)
  have start : ∀ entry ∈ mine.map MergeEntry.ofCounter, MergeBound mineMin theirsMin entry := by
    intro entry member
    obtain ⟨counter, memberCounter, rfl⟩ := List.mem_map.mp member
    obtain ⟨errors, positive, capped, above⟩ := mineBounds counter memberCounter
    exact ⟨errors, positive, capped, fun _ => above, fun paired => Bool.noConfusion paired⟩
  intro entry member
  obtain ⟨merged, memberMerged, rfl⟩ := List.mem_map.mp member
  have bound := folded theirs _ theirsBounds start merged memberMerged
  unfold raiseUnpaired
  cases paired : merged.paired with
  | true => exact ⟨bound.errors, bound.positive, bound.capped, bound.paired paired⟩
  | false =>
    have errors := bound.errors
    have positive := bound.positive
    have above := bound.unpaired paired
    refine ⟨?_, ?_, saturatingAdd_le_max _ _, ?_⟩
    all_goals
      simp only [Bool.false_eq_true, if_false, saturatingAdd, u64Max]
      omega

/-! ### The order -/

theorem mergeLe_iff (left right : MergeEntry) :
    mergeLe left right = true ↔ right.count < left.count ∨
      right.count = left.count ∧ keyOrder left.key ≤ keyOrder right.key := by
  simp only [mergeLe, decide_eq_true_eq]

theorem mergeLe_trans (first second third : MergeEntry) (left : mergeLe first second = true)
    (right : mergeLe second third = true) : mergeLe first third = true := by
  rw [mergeLe_iff] at left right ⊢
  rcases left with left | ⟨leftCount, leftKey⟩
  · rcases right with right | ⟨rightCount, -⟩
    · exact Or.inl (right.trans left)
    · exact Or.inl (rightCount ▸ left)
  · rcases right with right | ⟨rightCount, rightKey⟩
    · exact Or.inl (leftCount ▸ right)
    · exact Or.inr ⟨rightCount.trans leftCount, leftKey.trans rightKey⟩

theorem mergeLe_total (left right : MergeEntry) : (mergeLe left right || mergeLe right left) = true := by
  rw [Bool.or_eq_true, mergeLe_iff, mergeLe_iff]
  rcases Nat.lt_trichotomy left.count right.count with less | same | more
  · exact Or.inr (Or.inl less)
  · rcases le_total (keyOrder left.key) (keyOrder right.key) with below | above
    · exact Or.inl (Or.inr ⟨same.symm, below⟩)
    · exact Or.inr (Or.inr ⟨same, above⟩)
  · exact Or.inl (Or.inl more)

theorem count_le_of_mergeLe {left right : MergeEntry} (ordered : mergeLe left right = true) :
    right.count ≤ left.count := by
  rcases (mergeLe_iff left right).mp ordered with less | ⟨same, -⟩
  · exact less.le
  · exact same.le

end SpaceSaving

namespace FlatSummary

open SpaceSaving (MergeEntry)

def union (mine theirs : FlatSummary) : List MergeEntry :=
  SpaceSaving.mergeUnion (mine.counters.map MergeEntry.ofCounter)
    (theirs.counters.map MergeEntry.ofCounter) mine.minCount theirs.minCount

/-- The result of a merge: the union from the largest count down, trimmed to the capacity; the
ceiling covers both ceilings and the first count trimmed away. -/
structure Merged (mine theirs after : FlatSummary) (sorted : List MergeEntry) : Prop where
  perm : sorted.Perm (union mine theirs)
  descending : sorted.Pairwise fun left right => right.count ≤ left.count
  capacity : after.capacity = mine.capacity
  counters : after.counters = (sorted.take mine.capacity).map MergeEntry.toCounter
  total : after.total = saturatingAdd mine.total theirs.total
  floor : saturatingAdd mine.minCount theirs.minCount ≤ after.discardedMax
  trimmed : ∀ dropped ∈ sorted.drop mine.capacity, dropped.count ≤ after.discardedMax
  ceiling : ∀ kept ∈ sorted.take mine.capacity, after.discardedMax ≤ kept.count

theorem minCount_le {flat : FlatSummary} (bounded : flat.Bounded) {counter : Counter}
    (member : counter ∈ flat.counters) : flat.minCount ≤ counter.count := by
  refine max_le (bounded.ceiling counter member) ?_
  by_cases full : flat.counters.length = flat.capacity
  · rw [if_pos full, lowest]
    cases least : (flat.counters.map Counter.count).min? with
    | none =>
      rw [Option.getD_none]
      exact Nat.zero_le _
    | some count =>
      exact (List.min?_eq_some_iff.mp least).2 _ (List.mem_map_of_mem member)
  · rw [if_neg full]
    exact Nat.zero_le _

theorem union_bound {mine theirs : FlatSummary} (mineBounded : mine.Bounded)
    (theirsBounded : theirs.Bounded) :
    ∀ entry ∈ union mine theirs, entry.error ≤ entry.count ∧ 0 < entry.count ∧
      entry.count ≤ u64Max ∧ saturatingAdd mine.minCount theirs.minCount ≤ entry.count :=
  SpaceSaving.mergeUnion_bound
    (fun counter member => ⟨mineBounded.errors counter member, (mineBounded.counts counter member).1,
      (mineBounded.counts counter member).2, minCount_le mineBounded member⟩)
    fun counter member => ⟨theirsBounded.errors counter member,
      (theirsBounded.counts counter member).1, minCount_le theirsBounded member⟩

end FlatSummary

namespace SpaceSaving

theorem merge_spec (iter : IterOrder) {summary other : SpaceSaving}
    (represented : Represented summary) (otherRepresented : Represented other) :
    ∃ summary' sorted, merge iter summary other = .ok summary' ∧ Represented summary' ∧
      (flatten summary).Merged (flatten other) (flatten summary') sorted ∧
      summary'.discardedMax = mergeCeiling
        (saturatingAdd (flatten summary).minCount (flatten other).minCount)
        sorted[summary.capacity]? ∧
      sorted.Pairwise fun left right => mergeLe left right = true := by
  let mineMin := (flatten summary).minCount
  let theirsMin := (flatten other).minCount
  let union := (flatten summary).union (flatten other)
  let sorted := (iter.order union).mergeSort mergeLe
  let floor := saturatingAdd mineMin theirsMin
  let discardedMax := mergeCeiling floor sorted[summary.capacity]?
  have bounds := FlatSummary.union_bound represented.bounded otherRepresented.bounded
  have perm : sorted.Perm union := (List.mergeSort_perm _ _).trans (iter.perm _)
  have ordered : sorted.Pairwise fun left right => mergeLe left right = true :=
    List.pairwise_mergeSort mergeLe_trans mergeLe_total _
  have descending : sorted.Pairwise fun left right => right.count ≤ left.count :=
    ordered.imp count_le_of_mergeLe
  have kept : ∀ entry ∈ sorted.take summary.capacity, entry ∈ union := fun entry member =>
    perm.subset (List.mem_of_mem_take member)
  have keptCounts : ∀ entry ∈ sorted.take summary.capacity,
      0 < entry.count ∧ entry.count ≤ u64Max := fun entry member =>
    ⟨(bounds entry (kept entry member)).2.1, (bounds entry (kept entry member)).2.2.1⟩
  have structuredClear : Structured { clear summary with
      total := saturatingAdd summary.total other.total, discardedMax := discardedMax } :=
    Structured.empty rfl rfl rfl rfl rfl rfl
  obtain ⟨seated, seating, structured', counters', capacity, total, discarded⟩ :=
    seatAll_spec structuredClear keptCounts
  have floor_le : floor ≤ discardedMax := by
    simp only [discardedMax]
    cases sorted[summary.capacity]? with
    | none => exact le_rfl
    | some dropped => exact le_max_left _ _
  have split : sorted = sorted.take summary.capacity ++ sorted.drop summary.capacity :=
    (List.take_append_drop _ _).symm
  have between : ∀ left ∈ sorted.take summary.capacity, ∀ right ∈ sorted.drop summary.capacity,
      right.count ≤ left.count := by
    rw [split] at descending
    exact (List.pairwise_append.mp descending).2.2
  have trimmed : ∀ dropped ∈ sorted.drop summary.capacity, dropped.count ≤ discardedMax := by
    intro dropped member
    cases first : sorted[summary.capacity]? with
    | none =>
      rw [List.drop_eq_nil_of_le (List.getElem?_eq_none_iff.mp first)] at member
      exact absurd member List.not_mem_nil
    | some head =>
      simp only [discardedMax, first, mergeCeiling]
      refine le_trans ?_ (le_max_right _ _)
      have inside := lt_of_getElem? first
      rw [List.drop_eq_getElem_cons inside, (List.getElem?_eq_some_iff.mp first).2] at member
      rcases List.mem_cons.mp member with rfl | member
      · exact le_rfl
      · have tail := descending.sublist (List.drop_sublist summary.capacity sorted)
        rw [List.drop_eq_getElem_cons inside, (List.getElem?_eq_some_iff.mp first).2] at tail
        exact List.rel_of_pairwise_cons tail member
  have ceiling : ∀ entry ∈ sorted.take summary.capacity, discardedMax ≤ entry.count := by
    intro entry member
    have above := (bounds entry (kept entry member)).2.2.2
    cases first : sorted[summary.capacity]? with
    | none =>
      simp only [discardedMax, first, mergeCeiling]
      exact above
    | some head =>
      simp only [discardedMax, first, mergeCeiling]
      refine max_le above (between entry member head ?_)
      have inside := lt_of_getElem? first
      rw [List.drop_eq_getElem_cons inside, (List.getElem?_eq_some_iff.mp first).2]
      exact List.mem_cons_self
  have cappedMax : discardedMax ≤ u64Max := by
    cases first : sorted[summary.capacity]? with
    | none =>
      simp only [discardedMax, first, mergeCeiling]
      exact saturatingAdd_le_max _ _
    | some head =>
      simp only [discardedMax, first, mergeCeiling]
      have member : head ∈ union := perm.subset (List.mem_of_getElem? first)
      exact max_le (saturatingAdd_le_max _ _) (bounds head member).2.2.1
  have merged : (flatten summary).Merged (flatten other) (flatten seated) sorted := by
    refine ⟨perm, descending, capacity, ?_, total, ?_, ?_, ?_⟩
    · show counters seated = _
      rw [counters']
      rfl
    · show floor ≤ seated.discardedMax
      rw [discarded]
      exact floor_le
    · show ∀ dropped ∈ sorted.drop summary.capacity, dropped.count ≤ seated.discardedMax
      rw [discarded]
      exact trimmed
    · show ∀ entry ∈ sorted.take summary.capacity, seated.discardedMax ≤ entry.count
      rw [discarded]
      exact ceiling
  refine ⟨seated, sorted, ?_, ⟨structured', ?_⟩, merged, discarded, ordered⟩
  · simp only [merge, minCount_spec represented.structured represented.bounded.positive,
      minCount_spec otherRepresented.structured otherRepresented.bounded.positive,
      mergeEntries_spec represented.structured, mergeEntries_spec otherRepresented.structured,
      bind, Except.bind]
    exact seating
  · have shape : ∀ counter ∈ (flatten seated).counters,
        ∃ entry ∈ sorted.take summary.capacity, counter = entry.toCounter := by
      intro counter member
      rw [merged.counters] at member
      obtain ⟨entry, memberEntry, same⟩ := List.mem_map.mp member
      exact ⟨entry, memberEntry, same.symm⟩
    refine ⟨?_, ?_, ?_, ?_, ?_, ?_⟩
    · rw [merged.capacity]
      exact represented.bounded.positive
    · rw [merged.counters, merged.capacity, List.length_map]
      exact List.length_take_le _ _
    · intro counter member
      obtain ⟨entry, memberEntry, rfl⟩ := shape counter member
      exact (bounds entry (kept entry memberEntry)).1
    · intro counter member
      obtain ⟨entry, memberEntry, rfl⟩ := shape counter member
      exact merged.ceiling entry memberEntry
    · intro counter member
      obtain ⟨entry, memberEntry, rfl⟩ := shape counter member
      exact ⟨(bounds entry (kept entry memberEntry)).2.1, (bounds entry (kept entry memberEntry)).2.2.1⟩
    · show seated.discardedMax ≤ u64Max
      rw [discarded]
      exact cappedMax

end SpaceSaving

end AsapSketchlib
