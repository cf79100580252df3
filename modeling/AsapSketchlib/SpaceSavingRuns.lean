/-
This file proves the representation invariant of the Space-Saving summary over runs: it
holds of every summary that the constructors, recording, merging, clearing and a
successful rebuild can produce, and on every such summary each of these operations ends
without a fault.
-/

import AsapSketchlib.SummaryMerge

namespace AsapSketchlib

open Arena

namespace SpaceSaving

/-! ### Rebuilding -/

theorem checkEntry_forM {entries : List (HeapItem × ℕ × ℕ)}
    (passed : entries.forM checkEntry = .ok ()) :
    ∀ entry ∈ entries, 0 < entry.2.1 ∧ entry.2.2 ≤ entry.2.1 := by
  induction entries with
  | nil => simp
  | cons first rest hypothesis =>
    rw [List.forM] at passed
    have checked : checkEntry first = .ok () ∧ rest.forM checkEntry = .ok () := by
      cases check : checkEntry first with
      | error message =>
        rw [check] at passed
        exact absurd passed (by simp [bind, Except.bind])
      | ok done =>
        rw [check] at passed
        exact ⟨rfl, passed⟩
    have own : 0 < first.2.1 ∧ first.2.2 ≤ first.2.1 := by
      have check := checked.1
      unfold checkEntry at check
      split at check
      · exact absurd check (by simp)
      · rename_i nonzero
        split at check
        · exact absurd check (by simp)
        · rename_i within
          exact ⟨Nat.pos_of_ne_zero nonzero, Nat.le_of_not_lt within⟩
    intro entry member
    rcases List.mem_cons.mp member with rfl | member
    · exact own
    · exact hypothesis checked.2 entry member

def decodedCounter (H : SketchHasher) (entry : HeapItem × ℕ × ℕ) : Counter :=
  { key := entry.1, digest := H.hashItem64Seeded 0 entry.1, count := entry.2.1, error := entry.2.2 }

/-- Two counters of which no key finds both: their digests differ, or their stored forms do not
compare equal. -/
def Apart (left right : Counter) : Prop :=
  ¬(left.digest = right.digest ∧ left.key.eqItem right.key = true)

/-- Seating decoded triples ends without a fault, and where no key is held twice it appends their
counters, each apart from those before it. -/
theorem seatDecoded_spec (H : SketchHasher) {summary : SpaceSaving} (structured : Structured summary)
    {entries : List (HeapItem × ℕ × ℕ)}
    (counts : ∀ entry ∈ entries, 0 < entry.2.1 ∧ entry.2.1 ≤ u64Max) :
    ∃ outcome, seatDecoded H summary entries = .ok outcome ∧
      ∀ summary', outcome = .ok summary' → Structured summary' ∧
        counters summary' = counters summary ++ entries.map (decodedCounter H) ∧
        summary'.capacity = summary.capacity ∧ summary'.discardedMax = summary.discardedMax ∧
        ((counters summary).Pairwise Apart → (counters summary').Pairwise Apart) := by
  induction entries generalizing summary with
  | nil =>
    refine ⟨.ok summary, rfl, ?_⟩
    rintro summary' same
    obtain rfl := Except.ok.inj same
    exact ⟨structured, by simp, rfl, rfl, id⟩
  | cons entry rest hypothesis =>
    obtain ⟨key, count, error⟩ := entry
    obtain ⟨found, searching, -, missed⟩ :=
      structured.search (H.hashItem64Seeded 0 key) fun other => other.eqItem key
    have finding : findKey summary (H.hashItem64Seeded 0 key) key = .ok found := searching
    simp only [seatDecoded, finding, bind, Except.bind]
    cases found with
    | some cid => exact ⟨_, rfl, fun summary' same => absurd same (by simp)⟩
    | none =>
      obtain ⟨positive, capped⟩ := counts (key, count, error) List.mem_cons_self
      obtain ⟨seated, seating, structured', counters', capacity, -, discardedMax⟩ :=
        seat_spec structured (H.hashItem64Seeded 0 key) key error positive capped
      obtain ⟨outcome, seatingRest, rebuilt⟩ :=
        hypothesis structured' fun other member => counts other (List.mem_cons_of_mem _ member)
      refine ⟨outcome, by simp only [seating]; exact seatingRest, ?_⟩
      intro summary' same
      obtain ⟨structured'', counters'', capacity', discardedMax', apart'⟩ := rebuilt summary' same
      refine ⟨structured'', ?_, capacity'.trans capacity, discardedMax'.trans discardedMax,
        fun apart => apart' ?_⟩
      · rw [counters'', counters', List.map_cons, List.append_assoc]
        rfl
      · rw [counters']
        refine List.pairwise_append.mpr ⟨apart, List.pairwise_singleton _ _, ?_⟩
        intro counter member fresh isFresh
        rw [List.mem_singleton.mp isFresh]
        exact missed rfl counter member

theorem entries_spec {summary : SpaceSaving} (structured : Structured summary) :
    entries summary =
      .ok ((counters summary).map fun counter => (counter.key, counter.count, counter.error)) := by
  rw [entries, counters, List.map_map]
  refine mapM_ok fun counter member => ?_
  obtain ⟨cid, found⟩ := List.mem_iff_getElem?.mp member
  obtain ⟨bucket, reading, seen⟩ := structured.readBucket found
  rw [counters, List.getElem?_map, found, Option.map_some] at seen
  have same := congrArg Counter.count (Option.some.inj seen)
  simp only [reading, bind, Except.bind, pure, Except.pure]
  refine congrArg Except.ok ?_
  simp only [Function.comp_apply, Counter.ofLabel, label] at same ⊢
  rw [same]

theorem counts_spec {summary : SpaceSaving} (structured : Structured summary) :
    (List.range summary.monitored.length).mapM (countOf summary) =
      .ok ((List.range summary.monitored.length).map (countAt summary)) := by
  refine mapM_ok fun cid member => ?_
  have inside : cid < (counters summary).length := by
    rw [length_counters]
    exact List.mem_range.mp member
  have found := List.getElem?_eq_getElem inside
  rw [countOf_spec structured found, countAt_eq_count found]

/-- A summary rebuilt from a decoded state. -/
structure Rebuilt (H : SketchHasher) (state : State) (summary : SpaceSaving) : Prop where
  represented : Represented summary
  held : (counters summary).Perm (state.entries.map (decodedCounter H))
  discardedMax : summary.discardedMax = state.discardedMax
  apart : (counters summary).Pairwise Apart

theorem Rebuilt.digest_eq {H : SketchHasher} {state : State} {summary : SpaceSaving}
    (rebuilt : Rebuilt H state summary) : ∀ counter ∈ counters summary,
      counter.digest = H.hashItem64Seeded 0 counter.key := by
  intro counter member
  obtain ⟨entry, -, rfl⟩ := List.mem_map.mp (rebuilt.held.subset member)
  rfl

/-- Rebuilding ends without a fault on every decoded state, and what it accepts is represented. -/
theorem rebuild_spec (H : SketchHasher) (state : State) :
    ∃ outcome, rebuild H state = .ok outcome ∧
      ∀ summary, outcome = .ok summary → Rebuilt H state summary := by
  have refused : ∀ message : String,
      ∃ outcome : Except String SpaceSaving, (Except.ok (.error message) :
        Except Fault (Except String SpaceSaving)) = .ok outcome ∧
        ∀ summary, outcome = .ok summary → Rebuilt H state summary :=
    fun message => ⟨.error message, rfl, fun summary same => absurd same (by simp)⟩
  unfold rebuild
  by_cases empty : state.capacity = 0
  · rw [if_pos empty]
    exact refused _
  rw [if_neg empty]
  by_cases exceeds : state.capacity < state.entries.length
  · rw [if_pos exceeds]
    exact refused _
  rw [if_neg exceeds]
  cases check : state.entries.forM checkEntry with
  | error message => exact refused message
  | ok done =>
    have checked := checkEntry_forM check
    let sorted := state.entries.mergeSort fun left right => decide (right.2.1 ≤ left.2.1)
    have perm : sorted.Perm state.entries := List.mergeSort_perm _ _
    have sortedCounts : ∀ entry ∈ sorted, 0 < entry.2.1 ∧ entry.2.1 ≤ u64Max := fun entry member =>
      ⟨(checked entry (perm.subset member)).1, state.entries_le entry (perm.subset member)⟩
    have structuredEmpty : Structured { withCapacity state.capacity with
        capacity := state.capacity, total := state.total, discardedMax := state.discardedMax } :=
      Structured.empty rfl rfl rfl rfl rfl rfl
    obtain ⟨outcome, seating, rebuilt⟩ := seatDecoded_spec H structuredEmpty sortedCounts
    simp only [bind, Except.bind]
    rw [show seatDecoded H _ (state.entries.mergeSort _) = _ from seating]
    cases outcome with
    | error message => exact refused message
    | ok summary =>
      obtain ⟨structured, countersEq, capacity, discardedMax, apart⟩ := rebuilt summary rfl
      simp only [counts_spec structured]
      let smallest := ((List.range summary.monitored.length).map (countAt summary)).min?.getD 0
      by_cases high : smallest < summary.discardedMax
      · rw [if_pos high]
        exact refused _
      rw [if_neg high, entries_spec structured]
      simp only
      split
      · exact refused _
      refine ⟨.ok summary, rfl, fun summary' same => ?_⟩
      obtain rfl := Except.ok.inj same
      have shape : ∀ counter ∈ counters summary, ∃ entry ∈ sorted, counter = decodedCounter H entry := by
        intro counter member
        rw [show counters summary = sorted.map (decodedCounter H) from countersEq] at member
        obtain ⟨entry, memberEntry, same⟩ := List.mem_map.mp member
        exact ⟨entry, memberEntry, same.symm⟩
      have held : counters summary = sorted.map (decodedCounter H) := countersEq
      refine ⟨⟨structured, ⟨?_, ?_, ?_, ?_, ?_, ?_⟩⟩, held ▸ perm.map _, discardedMax,
        apart List.Pairwise.nil⟩
      · show 0 < summary.capacity
        rw [capacity]
        exact Nat.pos_of_ne_zero empty
      · show (counters summary).length ≤ summary.capacity
        rw [held, capacity, List.length_map, perm.length_eq]
        exact Nat.le_of_not_lt exceeds
      · intro counter member
        obtain ⟨entry, memberEntry, rfl⟩ := shape counter member
        exact (checked entry (perm.subset memberEntry)).2
      · intro counter member
        have notHigh : summary.discardedMax ≤ smallest := Nat.le_of_not_lt high
        refine notHigh.trans ?_
        obtain ⟨cid, found⟩ := List.mem_iff_getElem?.mp member
        have inside : cid < summary.monitored.length := by
          rw [← length_counters]
          exact lt_of_getElem? found
        have own : countAt summary cid = counter.count := countAt_eq_count found
        have listed : counter.count ∈ (List.range summary.monitored.length).map (countAt summary) :=
          own ▸ List.mem_map_of_mem (List.mem_range.mpr inside)
        cases least : ((List.range summary.monitored.length).map (countAt summary)).min? with
        | none =>
          rw [List.min?_eq_none_iff.mp least] at listed
          exact absurd listed List.not_mem_nil
        | some count =>
          show ((List.range summary.monitored.length).map (countAt summary)).min?.getD 0 ≤ _
          rw [least]
          exact (List.min?_eq_some_iff.mp least).2 _ listed
      · intro counter member
        obtain ⟨entry, memberEntry, rfl⟩ := shape counter member
        exact sortedCounts entry memberEntry
      · show summary.discardedMax ≤ u64Max
        rw [discardedMax]
        exact state.discardedMax_le

/-! ### Runs -/

/-- The summaries that the operations can produce. -/
inductive Reachable (H : SketchHasher) : SpaceSaving → Prop where
  | withCapacity (capacity : ℕ) : Reachable H (withCapacity capacity)
  | insert {before after : SpaceSaving} (reached : Reachable H before) (value : DataInput)
      (step : insert H before value = .ok after) : Reachable H after
  | insertMany {before after : SpaceSaving} (reached : Reachable H before) (value : DataInput)
      (count : ℕ) (step : insertMany H before value count = .ok after) : Reachable H after
  | merge {before other after : SpaceSaving} (reached : Reachable H before)
      (otherReached : Reachable H other) (iter : IterOrder)
      (step : merge iter before other = .ok after) : Reachable H after
  | clear {before : SpaceSaving} (reached : Reachable H before) : Reachable H (clear before)
  | rebuild {after : SpaceSaving} (state : State) (step : rebuild H state = .ok (.ok after)) :
      Reachable H after

theorem insertMany_represented (H : SketchHasher) {summary : SpaceSaving}
    (represented : Represented summary) (value : DataInput) (count : ℕ) :
    ∃ summary', insertMany H summary value count = .ok summary' ∧ Represented summary' := by
  by_cases none_recorded : count = 0
  · exact ⟨summary, by rw [insertMany, if_pos none_recorded]; rfl, represented⟩
  · obtain ⟨summary', inserting, represented', -⟩ :=
      insertMany_spec H represented value (Nat.pos_of_ne_zero none_recorded)
    exact ⟨summary', inserting, represented'⟩

theorem Reachable.represented {H : SketchHasher} {summary : SpaceSaving}
    (reached : Reachable H summary) : Represented summary := by
  have of_step : ∀ {act : Except Fault SpaceSaving} {after : SpaceSaving},
      (∃ summary', act = .ok summary' ∧ Represented summary') → act = .ok after →
        Represented after := by
    rintro act after ⟨summary', acting, represented'⟩ step
    rw [acting] at step
    exact Except.ok.inj step ▸ represented'
  induction reached with
  | withCapacity capacity => exact withCapacity_represented capacity
  | insert reached value step hypothesis =>
    exact of_step (insertMany_represented H hypothesis value 1) step
  | insertMany reached value count step hypothesis =>
    exact of_step (insertMany_represented H hypothesis value count) step
  | merge reached otherReached iter step mine theirs =>
    obtain ⟨summary', sorted, merging, represented', -⟩ := merge_spec iter mine theirs
    exact of_step ⟨summary', merging, represented'⟩ step
  | clear reached hypothesis => exact clear_represented hypothesis
  | rebuild state step =>
    obtain ⟨outcome, rebuilding, rebuilt⟩ := rebuild_spec H state
    rw [rebuilding] at step
    exact (rebuilt _ (Except.ok.inj step)).represented

/-- The representation invariant holds after every operation of every run, and no operation on a
reachable summary reads through an absent or stray index or trips a debug assertion. -/
theorem reachable_represented (H : SketchHasher) {summary : SpaceSaving}
    (reached : Reachable H summary) :
    Represented summary ∧
      (∀ value count, ∃ after, insertMany H summary value count = .ok after) ∧
      (∀ value, ∃ after, insert H summary value = .ok after) ∧
      (∀ iter other, Reachable H other → ∃ after, merge iter summary other = .ok after) ∧
      ∀ state, ∃ outcome, rebuild H state = .ok outcome := by
  have represented := reached.represented
  refine ⟨represented, ?_, ?_, ?_, ?_⟩
  · intro value count
    obtain ⟨after, inserting, -⟩ := insertMany_represented H represented value count
    exact ⟨after, inserting⟩
  · intro value
    obtain ⟨after, inserting, -⟩ := insertMany_represented H represented value 1
    exact ⟨after, inserting⟩
  · intro iter other otherReached
    obtain ⟨after, sorted, merging, -⟩ := merge_spec iter represented otherReached.represented
    exact ⟨after, merging⟩
  · intro state
    obtain ⟨outcome, rebuilding, -⟩ := rebuild_spec H state
    exact ⟨outcome, rebuilding⟩

/-- A run that displaces a key whose digest is that of the key displacing it. -/
theorem reachable_represented_displacing :
    ∃ first second, insert collidingHasher (withCapacity 1) (.i64 7) = .ok first ∧
      insertMany collidingHasher first (.i64 8) 5 = .ok second ∧ Represented second := by
  refine ⟨_, _, rfl, rfl, ?_⟩
  exact (reachable_represented collidingHasher
    (.insertMany (.insert (.withCapacity 1) (.i64 7) rfl) (.i64 8) 5 rfl)).1

end SpaceSaving

end AsapSketchlib
