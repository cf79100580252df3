/-
This file proves that the rebuild takes back the triples of a summary: where the keys are
exact and distinct, the counts positive and above the errors and the ceiling, and the
recorded weight within the total, nothing is refused and the counters are those of the
triples. Two summaries with the same counters answer every query alike.
-/

import AsapSketchlib.SummaryAccounts

namespace AsapSketchlib

open FlatSummary (Accounted)

namespace SpaceSaving

/-! ### Acceptance -/

theorem checkEntry_forM_ok {entries : List (HeapItem × ℕ × ℕ)}
    (checked : ∀ entry ∈ entries, 0 < entry.2.1 ∧ entry.2.2 ≤ entry.2.1) :
    entries.forM checkEntry = .ok () := by
  induction entries with
  | nil => rfl
  | cons entry rest hypothesis =>
    obtain ⟨positive, within⟩ := checked entry List.mem_cons_self
    have own : checkEntry entry = .ok () := by
      rw [checkEntry, if_neg positive.ne', if_neg (Nat.not_lt.mpr within)]
    rw [List.forM, own]
    exact hypothesis fun other member => checked other (List.mem_cons_of_mem _ member)

/-- Seating decoded triples of distinct exact keys refuses none of them. -/
theorem seatDecoded_accepts (H : SketchHasher) {summary : SpaceSaving}
    (structured : Structured summary) {entries : List (HeapItem × ℕ × ℕ)}
    (counts : ∀ entry ∈ entries, 0 < entry.2.1 ∧ entry.2.1 ≤ u64Max)
    (exact : ∀ entry ∈ entries, entry.1.isExact = true)
    (distinct : (entries.map Prod.fst).Nodup)
    (fresh : ∀ entry ∈ entries, ∀ counter ∈ counters summary, counter.key ≠ entry.1) :
    ∃ summary', seatDecoded H summary entries = .ok (.ok summary') ∧ Structured summary' ∧
      counters summary' = counters summary ++ entries.map (decodedCounter H) ∧
      summary'.capacity = summary.capacity ∧ summary'.total = summary.total ∧
      summary'.discardedMax = summary.discardedMax := by
  induction entries generalizing summary with
  | nil => exact ⟨summary, rfl, structured, by simp, rfl, rfl, rfl⟩
  | cons entry rest hypothesis =>
    obtain ⟨key, count, error⟩ := entry
    obtain ⟨positive, capped⟩ := counts (key, count, error) List.mem_cons_self
    rw [List.map_cons, List.nodup_cons] at distinct
    obtain ⟨found, searching, hit, -⟩ :=
      structured.search (H.hashItem64Seeded 0 key) fun other => other.eqItem key
    have absent : found = none := by
      cases found with
      | none => rfl
      | some cid =>
        obtain ⟨counter, there, -, same⟩ := hit cid rfl
        have sameKey := (HeapItem.eqItem_of_isExact _ _
          (exact (key, count, error) List.mem_cons_self)).mp same
        exact absurd sameKey (fresh _ List.mem_cons_self counter (List.mem_of_getElem? there))
    have finding : findKey summary (H.hashItem64Seeded 0 key) key = .ok none := absent ▸ searching
    obtain ⟨seated, seating, structured', counters', capacity, total, discardedMax⟩ :=
      seat_spec structured (H.hashItem64Seeded 0 key) key error positive capped
    have freshRest : ∀ other ∈ rest, ∀ counter ∈ counters seated, counter.key ≠ other.1 := by
      intro other memberOther counter member
      rw [counters'] at member
      rcases List.mem_append.mp member with member | member
      · exact fresh other (List.mem_cons_of_mem _ memberOther) counter member
      · rw [List.mem_singleton.mp member]
        exact fun same => distinct.1 (List.mem_map.mpr ⟨other, memberOther, same.symm⟩)
    obtain ⟨last, seatingRest, structured'', counters'', capacity', total', discardedMax'⟩ :=
      hypothesis structured'
        (fun other member => counts other (List.mem_cons_of_mem _ member))
        (fun other member => exact other (List.mem_cons_of_mem _ member)) distinct.2 freshRest
    refine ⟨last, ?_, structured'', ?_, capacity'.trans capacity, total'.trans total,
      discardedMax'.trans discardedMax⟩
    · simp only [seatDecoded, finding, seating, bind, Except.bind]
      exact seatingRest
    · rw [counters'', counters', List.map_cons, List.append_assoc]
      rfl

theorem foldl_recorded (entries : List (HeapItem × ℕ × ℕ)) {start : ℕ} (capped : start ≤ u64Max) :
    entries.foldl (fun sum entry => saturatingAdd sum (entry.2.1 - entry.2.2)) start =
      min (start + (entries.map fun entry => entry.2.1 - entry.2.2).sum) u64Max := by
  induction entries generalizing start with
  | nil => simp [capped]
  | cons entry rest hypothesis =>
    rw [List.foldl_cons, hypothesis (saturatingAdd_le_max _ _), List.map_cons,
      List.sum_cons]
    unfold saturatingAdd
    omega

/-- The triples that a rebuild takes back. -/
structure Acceptable (state : State) : Prop where
  positive : 0 < state.capacity
  room : state.entries.length ≤ state.capacity
  checked : ∀ entry ∈ state.entries, 0 < entry.2.1 ∧ entry.2.2 ≤ entry.2.1
  exact : ∀ entry ∈ state.entries, entry.1.isExact = true
  distinct : (state.entries.map Prod.fst).Nodup
  ceiling : ∀ entry ∈ state.entries, state.discardedMax ≤ entry.2.1
  quiet : state.entries = [] → state.discardedMax = 0
  covered : min (state.entries.map fun entry => entry.2.1 - entry.2.2).sum u64Max ≤ state.total

/-- Rebuilding refuses no acceptable triples and monitors exactly them. -/
theorem rebuild_accepts (H : SketchHasher) {state : State} (acceptable : Acceptable state) :
    ∃ summary, rebuild H state = .ok (.ok summary) ∧ Represented summary ∧
      (counters summary).Perm (state.entries.map (decodedCounter H)) ∧
      summary.capacity = state.capacity ∧ summary.total = state.total ∧
      summary.discardedMax = state.discardedMax := by
  let sorted := state.entries.mergeSort fun left right => decide (right.2.1 ≤ left.2.1)
  have perm : sorted.Perm state.entries := List.mergeSort_perm _ _
  have structuredEmpty : Structured { withCapacity state.capacity with
      capacity := state.capacity, total := state.total, discardedMax := state.discardedMax } :=
    Structured.empty rfl rfl rfl rfl rfl rfl
  have counts : ∀ entry ∈ sorted, 0 < entry.2.1 ∧ entry.2.1 ≤ u64Max := fun entry member =>
    ⟨(acceptable.checked entry (perm.subset member)).1, state.entries_le entry (perm.subset member)⟩
  obtain ⟨summary, seating, structured, countersEq, capacity, total, discardedMax⟩ :=
    seatDecoded_accepts H structuredEmpty counts
      (fun entry member => acceptable.exact entry (perm.subset member))
      ((perm.map Prod.fst).nodup_iff.mpr acceptable.distinct)
      (fun entry _ counter member => absurd member List.not_mem_nil)
  have held : counters summary = sorted.map (decodedCounter H) := countersEq
  have low : ¬((List.range summary.monitored.length).map (countAt summary)).min?.getD 0 <
      summary.discardedMax := by
    rw [discardedMax, Nat.not_lt]
    cases least : ((List.range summary.monitored.length).map (countAt summary)).min? with
    | none =>
      rw [List.min?_eq_none_iff, List.map_eq_nil_iff, List.range_eq_nil, ← length_counters, held,
        List.length_map, perm.length_eq, List.length_eq_zero_iff] at least
      rw [acceptable.quiet least]
      exact Nat.zero_le _
    | some count =>
      obtain ⟨cid, inside, countEq⟩ := List.mem_map.mp (List.min?_eq_some_iff.mp least).1
      rw [List.mem_range, ← length_counters] at inside
      have found := List.getElem?_eq_getElem inside
      have member : (counters summary)[cid] ∈ sorted.map (decodedCounter H) :=
        held ▸ List.getElem_mem inside
      obtain ⟨entry, memberEntry, same⟩ := List.mem_map.mp member
      rw [Option.getD_some, ← countEq, countAt_eq_count found, ← same]
      exact acceptable.ceiling entry (perm.subset memberEntry)
  have recorded : ¬summary.total < ((counters summary).map fun counter =>
      (counter.key, counter.count, counter.error)).foldl
        (fun sum triple => saturatingAdd sum (triple.2.1 - triple.2.2)) 0 := by
    have triples : ((counters summary).map fun counter =>
        (counter.key, counter.count, counter.error)) = sorted := by
      rw [held, List.map_map]
      exact List.map_id _
    rw [triples, foldl_recorded sorted (Nat.zero_le _), Nat.zero_add, (perm.map _).sum_eq, total]
    exact Nat.not_lt.mpr acceptable.covered
  have rebuilding : rebuild H state = .ok (.ok summary) := by
    unfold rebuild
    rw [if_neg acceptable.positive.ne', if_neg (Nat.not_lt.mpr acceptable.room),
      checkEntry_forM_ok acceptable.checked]
    simp only [bind, Except.bind]
    rw [show seatDecoded H _ (state.entries.mergeSort _) = _ from seating]
    simp only [counts_spec structured, if_neg low, entries_spec structured, if_neg recorded]
    rfl
  obtain ⟨outcome, rebuilt, accepted⟩ := rebuild_spec H state
  have represented := (accepted summary (Except.ok.inj (rebuilt.symm.trans rebuilding))).represented
  refine ⟨summary, rebuilding, represented,
    ?_, capacity, total, discardedMax⟩
  rw [held]
  exact perm.map _

/-! ### Equal counters answer alike -/

theorem min?_perm {left right : List ℕ} (perm : left.Perm right) : left.min? = right.min? := by
  cases least : left.min? with
  | none =>
    rw [List.min?_eq_none_iff] at least
    rw [least] at perm
    rw [← perm.nil_eq]
    rfl
  | some count =>
    obtain ⟨member, below⟩ := List.min?_eq_some_iff.mp least
    exact (List.min?_eq_some_iff.mpr
      ⟨perm.subset member, fun other memberOther => below other (perm.symm.subset memberOther)⟩).symm

theorem key_of_monitors {counter : Counter} {digest : BitVec 64} {value : DataInput}
    (exact : counter.key.isExact = true) (monitors : counter.Monitors digest value) :
    counter.key = inputToOwned value := by
  have same := monitors.2
  rw [HeapItem.eqInput_eq_eqItem] at same
  exact ((HeapItem.eqItem_of_isExact _ _ exact).mp (HeapItem.eqItem_symm _ _ same)).symm

variable {H : SketchHasher} {left right : SpaceSaving}

theorem minCount_congr (perm : (counters left).Perm (counters right))
    (capacity : left.capacity = right.capacity)
    (discardedMax : left.discardedMax = right.discardedMax) :
    (flatten left).minCount = (flatten right).minCount := by
  show max left.discardedMax (if (counters left).length = left.capacity then
      ((counters left).map Counter.count).min?.getD 0 else 0) =
    max right.discardedMax (if (counters right).length = right.capacity then
      ((counters right).map Counter.count).min?.getD 0 else 0)
  rw [discardedMax, capacity, perm.length_eq, min?_perm (perm.map Counter.count)]

/-- Summaries of the same distinct exact counters, capacity and ceiling answer every query about
every value alike. -/
theorem queries_congr (leftRepresented : Represented left) (rightRepresented : Represented right)
    (perm : (counters left).Perm (counters right)) (capacity : left.capacity = right.capacity)
    (discardedMax : left.discardedMax = right.discardedMax)
    (exact : ∀ counter ∈ counters left, counter.key.isExact = true)
    (distinct : ((counters left).map Counter.key).Nodup) (value : DataInput) :
    estimate H left value = estimate H right value ∧ error H left value = error H right value ∧
      upperBound H left value = upperBound H right value ∧
      isGuaranteed H left value = isGuaranteed H right value := by
  have ceiling := minCount_congr perm capacity discardedMax
  by_cases leftMonitored : Monitored H left value
  · obtain ⟨counter, member, monitors, estimating, bounding, erring, guaranteeing⟩ :=
      monitored_queries leftRepresented leftMonitored
    by_cases rightMonitored : Monitored H right value
    · obtain ⟨other, memberOther, monitorsOther, estimating', bounding', erring', guaranteeing'⟩ :=
        monitored_queries rightRepresented rightMonitored
      have memberLeft := perm.symm.subset memberOther
      have sameKey : counter.key = other.key :=
        (key_of_monitors (exact counter member) monitors).trans
          (key_of_monitors (exact other memberLeft) monitorsOther).symm
      obtain rfl := List.inj_on_of_nodup_map distinct member memberLeft sameKey
      rw [estimating, estimating', bounding, bounding', erring, erring', guaranteeing,
        guaranteeing', ceiling]
      exact ⟨rfl, rfl, rfl, rfl⟩
    · exact absurd monitors
        ((unmonitored_queries rightRepresented rightMonitored).1 counter (perm.subset member))
  · obtain ⟨absent, bounding, guaranteeing, estimating, erring⟩ :=
      unmonitored_queries leftRepresented leftMonitored
    by_cases rightMonitored : Monitored H right value
    · obtain ⟨other, memberOther, monitorsOther, -⟩ :=
        monitored_queries rightRepresented rightMonitored
      exact absurd monitorsOther (absent other (perm.symm.subset memberOther))
    · obtain ⟨-, bounding', guaranteeing', estimating', erring'⟩ :=
        unmonitored_queries rightRepresented rightMonitored
      rw [estimating, estimating', bounding, bounding', erring, erring', guaranteeing,
        guaranteeing', ceiling]
      exact ⟨rfl, rfl, rfl, rfl⟩

end SpaceSaving

end AsapSketchlib
