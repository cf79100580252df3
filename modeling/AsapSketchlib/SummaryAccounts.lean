/-
This file proves what a Space-Saving summary accounts for on every tree of operations: each
counter is filed under the digest of a value it is the owned form of, and the weights the
counters record, each a count less its error, are together within the total, saturation
included. A merge only pools the weights of the two sides, so no slack is needed for it. A
summary that monitors nothing has a ceiling of zero.
-/

import AsapSketchlib.SpaceSavingSoundness
import Mathlib.Algebra.Order.BigOperators.Group.List
import Mathlib.Algebra.Order.Ring.Nat

namespace AsapSketchlib

open SpaceSaving (MergeEntry absorb raiseUnpaired mergeUnion flatten Represented)

def Counter.recorded (counter : Counter) : ℕ := counter.count - counter.error

namespace FlatSummary

def recordedWeight (flat : FlatSummary) : ℕ := (flat.counters.map Counter.recorded).sum

structure Accounted (H : SketchHasher) (flat : FlatSummary) : Prop where
  labelled : ∀ counter ∈ flat.counters, ∃ value,
    counter.digest = H.hash64Seeded 0 value ∧ counter.key = inputToOwned value
  capped : flat.total ≤ u64Max
  covered : min flat.recordedWeight u64Max ≤ flat.total
  quiet : flat.counters = [] → flat.discardedMax = 0

variable {H : SketchHasher}

theorem Accounted.empty {flat : FlatSummary} (nothing : flat.counters = [])
    (capped : flat.total ≤ u64Max) (quiet : flat.discardedMax = 0) : Accounted H flat := by
  refine ⟨?_, capped, ?_, fun _ => quiet⟩
  · rw [nothing]
    exact fun counter member => absurd member List.not_mem_nil
  · rw [recordedWeight, nothing]
    exact Nat.zero_le _

theorem Recorded.recordedWeight_le {before after : FlatSummary} {digest : BitVec 64}
    {value : DataInput} {weight : ℕ} (recorded : Recorded before digest value weight after) :
    after.recordedWeight ≤ before.recordedWeight + weight := by
  cases recorded with
  | raised front back counter split monitors =>
    have own : (counter.raise weight).recorded ≤ counter.recorded + weight := by
      simp only [Counter.recorded, Counter.raise, saturatingAdd]
      omega
    simp only [recordedWeight, split, List.map_append, List.map_cons, List.sum_append, List.sum_cons]
    omega
  | seated absent room =>
    simp only [recordedWeight, List.map_append, List.map_singleton, List.sum_append,
      List.sum_singleton, Counter.recorded, saturatingAdd]
    omega
  | displaced front back victim absent full split smallest =>
    simp only [recordedWeight, split, List.map_append, List.map_cons, List.sum_append, List.sum_cons,
      Counter.recorded, saturatingAdd]
    omega

theorem Recorded.labelled (Labelled : HeapItem → BitVec 64 → Prop) {before after : FlatSummary}
    {digest : BitVec 64} {value : DataInput} {weight : ℕ}
    (recorded : Recorded before digest value weight after)
    (own : Labelled (inputToOwned value) digest)
    (others : ∀ counter ∈ before.counters, Labelled counter.key counter.digest) :
    ∀ counter ∈ after.counters, Labelled counter.key counter.digest := by
  intro other member
  cases recorded with
  | raised front back counter split monitors =>
    rcases List.mem_append.mp member with member | member
    · exact others other (split ▸ List.mem_append_left _ member)
    rcases List.mem_cons.mp member with rfl | member
    · exact others counter (by simp [split])
    · exact others other (split ▸ List.mem_append_right _ (List.mem_cons_of_mem _ member))
  | seated absent room =>
    rcases List.mem_append.mp member with member | member
    · exact others other member
    · rw [List.mem_singleton.mp member]
      exact own
  | displaced front back victim absent full split smallest =>
    rcases List.mem_append.mp member with member | member
    · exact others other (split ▸ List.mem_append_left _ member)
    rcases List.mem_cons.mp member with rfl | member
    · exact own
    · exact others other (split ▸ List.mem_append_right _ (List.mem_cons_of_mem _ member))

/-- A recording touches the counters and the total in one of three ways, each of which keeps the
accounts. -/
theorem Recorded.accounted {before after : FlatSummary} {value : DataInput} {weight : ℕ}
    (recorded : Recorded before (H.hash64Seeded 0 value) value weight after)
    (accounted : Accounted H before) : Accounted H after := by
  have weights := recorded.recordedWeight_le
  have covered := accounted.covered
  have totals : min after.recordedWeight u64Max ≤ saturatingAdd before.total weight := by
    simp only [saturatingAdd]
    omega
  have capped := saturatingAdd_le_max before.total weight
  have labels := recorded.labelled (fun key digest =>
    ∃ value, digest = H.hash64Seeded 0 value ∧ key = inputToOwned value) ⟨value, rfl, rfl⟩
    accounted.labelled
  cases recorded with
  | raised front back counter split monitors =>
    exact ⟨labels, capped, totals, fun none_held => absurd none_held (by simp)⟩
  | seated absent room =>
    exact ⟨labels, capped, totals, fun none_held => absurd none_held (by simp)⟩
  | displaced front back victim absent full split smallest =>
    exact ⟨labels, capped, totals, fun none_held => absurd none_held (by simp)⟩

/-! ### The union of a merge -/

def entryWeight (entries : List MergeEntry) : ℕ :=
  (entries.map fun entry => entry.toCounter.recorded).sum

theorem entryWeight_absorb (mineMin : ℕ) (incoming : MergeEntry) (entries : List MergeEntry) :
    entryWeight (absorb mineMin incoming entries) ≤
      entryWeight entries + incoming.toCounter.recorded := by
  induction entries with
  | nil =>
    simp only [absorb, entryWeight, List.map_nil, List.map_singleton, List.sum_nil,
      List.sum_singleton, MergeEntry.toCounter, Counter.recorded, saturatingAdd]
    omega
  | cons entry rest hypothesis =>
    unfold absorb
    split
    · simp only [entryWeight, List.map_cons, List.sum_cons, MergeEntry.toCounter, Counter.recorded,
        saturatingAdd]
      omega
    · simp only [entryWeight, List.map_cons, List.sum_cons] at hypothesis ⊢
      omega

theorem labels_absorb {Labelled : HeapItem → BitVec 64 → Prop} (mineMin : ℕ) {incoming : MergeEntry}
    {entries : List MergeEntry} (own : Labelled incoming.key incoming.digest)
    (others : ∀ entry ∈ entries, Labelled entry.key entry.digest) :
    ∀ entry ∈ absorb mineMin incoming entries, Labelled entry.key entry.digest := by
  induction entries with
  | nil =>
    intro entry member
    rw [List.mem_singleton.mp member]
    exact own
  | cons first rest hypothesis =>
    have restLabels := fun entry member => others entry (List.mem_cons_of_mem first member)
    have firstLabel := others first List.mem_cons_self
    unfold absorb
    split
    · intro entry member
      rcases List.mem_cons.mp member with rfl | member
      · exact firstLabel
      · exact restLabels entry member
    · intro entry member
      rcases List.mem_cons.mp member with rfl | member
      · exact firstLabel
      · exact hypothesis restLabels entry member

theorem foldl_absorb {motive : List MergeEntry → ℕ → Prop} (mineMin : ℕ) {theirs : List Counter}
    (absorbed : ∀ incoming ∈ theirs, ∀ entries weight, motive entries weight →
      motive (absorb mineMin (MergeEntry.ofCounter incoming) entries) (weight + incoming.recorded))
    {entries : List MergeEntry} {weight : ℕ} (start : motive entries weight) :
    motive ((theirs.map MergeEntry.ofCounter).foldl
      (fun merged incoming => absorb mineMin incoming merged) entries)
      (weight + (theirs.map Counter.recorded).sum) := by
  induction theirs generalizing entries weight with
  | nil => exact start
  | cons incoming rest hypothesis =>
    rw [List.map_cons, List.foldl_cons, List.map_cons, List.sum_cons, ← Nat.add_assoc]
    exact hypothesis (fun other member => absorbed other (List.mem_cons_of_mem _ member))
      (absorbed incoming List.mem_cons_self entries weight start)

theorem union_labelled (Labelled : HeapItem → BitVec 64 → Prop) {mine theirs : FlatSummary}
    (mineLabels : ∀ counter ∈ mine.counters, Labelled counter.key counter.digest)
    (theirsLabels : ∀ counter ∈ theirs.counters, Labelled counter.key counter.digest) :
    ∀ entry ∈ union mine theirs, Labelled entry.key entry.digest := by
  intro entry member
  obtain ⟨before, memberBefore, rfl⟩ := List.mem_map.mp member
  have start : ∀ entry ∈ mine.counters.map MergeEntry.ofCounter,
      Labelled entry.key entry.digest := by
    intro entry memberEntry
    obtain ⟨counter, memberCounter, rfl⟩ := List.mem_map.mp memberEntry
    exact mineLabels counter memberCounter
  have known := @foldl_absorb (fun entries _ => ∀ entry ∈ entries, Labelled entry.key entry.digest)
    mine.minCount theirs.counters (fun incoming memberIncoming entries _ labels =>
      labels_absorb _ (theirsLabels incoming memberIncoming) labels) _ 0 start before memberBefore
  unfold raiseUnpaired
  split <;> exact known

theorem entryWeight_union_le (mine theirs : FlatSummary) :
    entryWeight (union mine theirs) ≤ mine.recordedWeight + theirs.recordedWeight := by
  let folded := (theirs.counters.map MergeEntry.ofCounter).foldl
    (fun merged incoming => absorb mine.minCount incoming merged)
    (mine.counters.map MergeEntry.ofCounter)
  have known : entryWeight folded ≤ mine.recordedWeight + theirs.recordedWeight := by
    refine foldl_absorb (motive := fun entries weight => entryWeight entries ≤ weight)
      mine.minCount ?_ ?_
    · intro incoming member entries weight within
      exact (entryWeight_absorb _ _ _).trans (Nat.add_le_add_right within _)
    · rw [entryWeight, List.map_map]
      exact le_rfl
  have raised : ∀ entry : MergeEntry,
      (raiseUnpaired theirs.minCount entry).toCounter.recorded ≤ entry.toCounter.recorded := by
    intro entry
    unfold raiseUnpaired
    split
    · exact le_rfl
    · simp only [MergeEntry.toCounter, Counter.recorded, saturatingAdd]
      omega
  have unionEq : union mine theirs = folded.map (raiseUnpaired theirs.minCount) := rfl
  refine le_trans ?_ known
  rw [unionEq, entryWeight, entryWeight, List.map_map]
  exact List.sum_le_sum fun entry _ => raised entry

theorem union_eq_nil {mine theirs : FlatSummary} (nothing : union mine theirs = []) :
    mine.counters = [] ∧ theirs.counters = [] := by
  have occupied : ∀ incoming entries, absorb mine.minCount incoming entries ≠ [] := by
    intro incoming entries
    cases entries with
    | nil => exact List.cons_ne_nil _ _
    | cons entry rest =>
      unfold absorb
      split <;> exact List.cons_ne_nil _ _
  have folded := List.map_eq_nil_iff.mp nothing
  have theirsEmpty : theirs.counters = [] := by
    rcases List.eq_nil_or_concat theirs.counters with empty | ⟨front, last, split⟩
    · exact empty
    · rw [split, List.concat_eq_append, List.map_append, List.foldl_append] at folded
      exact absurd folded (occupied _ _)
  rw [theirsEmpty] at folded
  exact ⟨List.map_eq_nil_iff.mp folded, theirsEmpty⟩

theorem Merged.labelled (Labelled : HeapItem → BitVec 64 → Prop) {mine theirs after : FlatSummary}
    {sorted : List MergeEntry} (merged : Merged mine theirs after sorted)
    (mineLabels : ∀ counter ∈ mine.counters, Labelled counter.key counter.digest)
    (theirsLabels : ∀ counter ∈ theirs.counters, Labelled counter.key counter.digest) :
    ∀ counter ∈ after.counters, Labelled counter.key counter.digest := by
  intro counter member
  rw [merged.counters] at member
  obtain ⟨entry, memberEntry, rfl⟩ := List.mem_map.mp member
  exact union_labelled Labelled mineLabels theirsLabels entry
    (merged.perm.subset (List.mem_of_mem_take memberEntry))

theorem Merged.accounted {mine theirs after : FlatSummary} {sorted : List MergeEntry}
    (merged : Merged mine theirs after sorted) (positive : 0 < mine.capacity)
    (ceiling : after.discardedMax = SpaceSaving.mergeCeiling
      (saturatingAdd mine.minCount theirs.minCount) sorted[mine.capacity]?)
    (mineAccounted : Accounted H mine) (theirsAccounted : Accounted H theirs) :
    Accounted H after := by
  have weights := entryWeight_union_le mine theirs
  have mineCovered := mineAccounted.covered
  have theirsCovered := theirsAccounted.covered
  refine ⟨?_, merged.total ▸ saturatingAdd_le_max _ _, ?_, ?_⟩
  · exact merged.labelled (fun key digest =>
      ∃ value, digest = H.hash64Seeded 0 value ∧ key = inputToOwned value)
      mineAccounted.labelled theirsAccounted.labelled
  · have kept : after.recordedWeight ≤ entryWeight (union mine theirs) := by
      rw [recordedWeight, merged.counters, List.map_map]
      have sublist := (List.take_sublist mine.capacity sorted).map
        fun entry => entry.toCounter.recorded
      exact (sublist.sum_le_sum fun _ _ => Nat.zero_le _).trans_eq (merged.perm.map _).sum_eq
    rw [merged.total]
    simp only [saturatingAdd]
    omega
  · intro nothing
    rw [merged.counters, List.map_eq_nil_iff, List.take_eq_nil_iff] at nothing
    have sortedEmpty : sorted = [] := nothing.resolve_left positive.ne'
    have unionEmpty : union mine theirs = [] := (sortedEmpty ▸ merged.perm).nil_eq.symm
    obtain ⟨mineEmpty, theirsEmpty⟩ := union_eq_nil unionEmpty
    have zero : ∀ {flat : FlatSummary}, Accounted H flat → flat.counters = [] → flat.minCount = 0 := by
      intro flat accounted empty
      rw [minCount, accounted.quiet empty, lowest, empty]
      simp
    rw [ceiling, sortedEmpty, zero mineAccounted mineEmpty, zero theirsAccounted theirsEmpty]
    rfl

end FlatSummary

open FlatSummary (Accounted)

theorem SummaryTree.run_accounted (H : SketchHasher) (tree : SummaryTree) :
    ∃ summary, tree.run H = .ok summary ∧ Represented summary ∧ Accounted H (flatten summary) :=
  run_induction H (fun _ => .empty rfl (Nat.zero_le _) rfl) (fun _ => id)
    (fun _ accounted step => step.accounted accounted) id
    (fun _ mineRepresented _ mineAccounted theirsAccounted union ceiling =>
      union.accounted mineRepresented.bounded.positive ceiling mineAccounted theirsAccounted)
    (fun _ _ => .empty rfl (Nat.zero_le _) rfl) tree

end AsapSketchlib
