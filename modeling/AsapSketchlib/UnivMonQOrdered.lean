/-
This file shows what a UnivMon-Q sketch retains of its observations themselves, however it was made
by updates, merges and clears: as many occurrences of the lowest priorities as it has room for, the
least and the greatest key, and the saturated number. None depends on the shape of the merges.
-/

import AsapSketchlib.Largest
import AsapSketchlib.UnivMonQSketch

namespace AsapSketchlib

namespace UnivMonQ

/-! ### The ordered sample -/

namespace OrderedOccurrence

theorem rank_injective : Function.Injective rank := by
  rintro ⟨high, low, key⟩ ⟨otherHigh, otherLow, otherKey⟩ same
  obtain ⟨rfl, rest⟩ := Prod.mk.inj (toLex.injective same)
  obtain ⟨rfl, rfl⟩ := Prod.mk.inj (toLex.injective rest)
  rfl

/-- Occurrences in the order in which a heap has the lowest last. -/
instance : LinearOrder OrderedOccurrenceᵒᵈ :=
  LinearOrder.lift' (fun occurrence => OrderDual.toDual (rank (OrderDual.ofDual occurrence)))
    fun _ _ same => rank_injective same

/-- A heap has the lowest of the occurrences that it was offered. -/
def Lowest (capacity : ℕ) (offered heap lost : List OrderedOccurrence) : Prop :=
  @Largest OrderedOccurrenceᵒᵈ _ capacity offered heap lost

theorem greatest_spec (first : OrderedOccurrence) (rest : List OrderedOccurrence) :
    greatest first rest ∈ first :: rest ∧
      ∀ other ∈ first :: rest, other.rank ≤ (greatest first rest).rank := by
  induction rest generalizing first with
  | nil => exact ⟨List.mem_cons_self, fun other member => by rw [List.mem_singleton.mp member]; rfl⟩
  | cons second rest hypothesis =>
    rw [greatest, List.foldl_cons, ← greatest]
    split
    next below =>
      obtain ⟨held, above⟩ := hypothesis second
      exact ⟨List.mem_cons_of_mem first held, List.forall_mem_cons.mpr
        ⟨below.le.trans (above second List.mem_cons_self), above⟩⟩
    next most =>
      obtain ⟨held, above⟩ := hypothesis first
      obtain ⟨own, others⟩ := List.forall_mem_cons.mp above
      refine ⟨(List.mem_cons.mp held).elim (fun same => ?_) fun later =>
        List.mem_cons_of_mem first (List.mem_cons_of_mem second later), ?_⟩
      · rw [same]
        exact List.mem_cons_self
      · exact List.forall_mem_cons.mpr
          ⟨own, List.forall_mem_cons.mpr ⟨(not_lt.mp most).trans own, others⟩⟩

theorem Lowest.sample {capacity : ℕ} {offered heap lost : List OrderedOccurrence}
    (lowest : Lowest capacity offered heap lost) (occurrence : OrderedOccurrence) :
    ∃ lost, Lowest capacity (occurrence :: offered) (sample capacity heap occurrence) lost := by
  unfold OrderedOccurrence.sample
  by_cases none : capacity = 0
  · have empty : heap = [] := List.eq_nil_of_length_eq_zero (Nat.le_zero.mp (none ▸ lowest.fits))
    rw [if_pos none]
    subst empty
    exact ⟨_, Largest.refuse lowest none.symm fun _ member => absurd member List.not_mem_nil⟩
  · rw [if_neg none]
    by_cases room : heap.length < capacity
    · rw [if_pos room]
      exact ⟨_, Largest.grow lowest occurrence room⟩
    · rw [if_neg room]
      have full : heap.length = capacity := le_antisymm lowest.fits (not_lt.mp room)
      cases heap with
      | nil => exact absurd full.symm none
      | cons first rest =>
        obtain ⟨held, above⟩ := greatest_spec first rest
        have perm := List.perm_cons_erase held
        simp only
        split
        next below =>
          exact ⟨_, Largest.displace (Largest.of_perm lowest perm.symm)
            (perm.length_eq.symm.trans full) below
            fun other member => above other (List.mem_of_mem_erase member)⟩
        next most =>
          exact ⟨_, Largest.refuse lowest full
            fun other member => (above other member).trans (not_lt.mp most)⟩

theorem Lowest.foldl_sample {capacity : ℕ} {offered heap lost : List OrderedOccurrence}
    (lowest : Lowest capacity offered heap lost) (more : List OrderedOccurrence) :
    ∃ lost, Lowest capacity (more ++ offered) (more.foldl (OrderedOccurrence.sample capacity) heap)
      lost := by
  induction more generalizing offered heap lost with
  | nil => exact ⟨lost, lowest⟩
  | cons first rest hypothesis =>
    obtain ⟨gone, sampled⟩ := lowest.sample first
    obtain ⟨last, result⟩ := hypothesis sampled
    exact ⟨last, Largest.of_offered result List.perm_middle.symm⟩

end OrderedOccurrence

/-! ### Extrema -/

theorem min?_append (keys others : List ℕ) :
    (keys ++ others).min? = eitherKey Nat.min keys.min? others.min? := by
  induction keys with
  | nil => rfl
  | cons key rest hypothesis =>
    rw [List.cons_append, List.min?_cons, hypothesis, List.min?_cons]
    cases rest.min? <;> cases others.min? <;> simp [eitherKey, Nat.min_assoc]

theorem max?_append (keys others : List ℕ) :
    (keys ++ others).max? = eitherKey Nat.max keys.max? others.max? := by
  induction keys with
  | nil => rfl
  | cons key rest hypothesis =>
    rw [List.cons_append, List.max?_cons, hypothesis, List.max?_cons]
    cases rest.max? <;> cases others.max? <;> simp [eitherKey, Nat.max_assoc]

/-! ### Whole histories -/

section

variable {hasher : SketchHasher}

/-- Sketches, with the occurrences that were recorded in them since the last clear. -/
inductive Recorded (hasher : SketchHasher) : UnivMonQ → List OrderedOccurrence → Prop
  | new {sketch : UnivMonQ} (config : Config) (sourceId : ℕ)
      (made : UnivMonQ.new config sourceId = .ok sketch) : Recorded hasher sketch []
  | update {sketch next : UnivMonQ} {occurrences : List OrderedOccurrence}
      (before : Recorded hasher sketch occurrences) (value : BitVec 64)
      (ran : sketch.updateValue hasher value = some next) :
      Recorded hasher next (occurrences ++
        [sketch.occurrence hasher (floatToOrdered value).toNat sketch.nextSequence])
  | merge {sketch other merged : UnivMonQ} {occurrences others : List OrderedOccurrence}
      (left : Recorded hasher sketch occurrences) (right : Recorded hasher other others)
      (ran : sketch.merge hasher other = some (.ok merged)) :
      Recorded hasher merged (occurrences ++ others)
  | clear {sketch : UnivMonQ} {occurrences : List OrderedOccurrence}
      (before : Recorded hasher sketch occurrences) : Recorded hasher sketch.clear []

/-- What is retained of occurrences. -/
structure Retains (sketch : UnivMonQ) (occurrences : List OrderedOccurrence) : Prop where
  count : sketch.count = min occurrences.length u64Max
  minKey : sketch.minKey = (occurrences.map OrderedOccurrence.key).min?
  maxKey : sketch.maxKey = (occurrences.map OrderedOccurrence.key).max?
  ordered : ∃ lost, OrderedOccurrence.Lowest sketch.config.orderedSamples occurrences
    sketch.orderedHeap lost

theorem Recorded.retains {sketch : UnivMonQ} {occurrences : List OrderedOccurrence}
    (recorded : Recorded hasher sketch occurrences) : Retains sketch occurrences := by
  induction recorded with
  | new config sourceId made =>
    obtain ⟨hashLayout, -, -, rfl⟩ := new_eq made
    exact ⟨rfl, rfl, rfl, [], Largest.empty _⟩
  | @update sketch next occurrences before value ran hypothesis =>
    unfold updateValue at ran
    simp only at ran
    split at ran
    · cases ran
    · obtain ⟨level, -, rest⟩ := Option.bind_eq_some_iff.mp ran
      obtain ⟨updated, -, made⟩ := Option.bind_eq_some_iff.mp rest
      obtain rfl := Option.some.inj made
      generalize (floatToOrdered value).toNat = key
      obtain ⟨lost, lowest⟩ := hypothesis.ordered
      obtain ⟨gone, sampled⟩ := lowest.sample (sketch.occurrence hasher key sketch.nextSequence)
      refine ⟨?_, ?_, ?_, gone, ?_⟩
      · show saturatingAdd sketch.count 1 = _
        rw [hypothesis.count, List.length_append, List.length_singleton]
        unfold saturatingAdd u64Max
        omega
      · rw [List.map_append, min?_append, ← hypothesis.minKey]
        cases sketch.minKey <;> rfl
      · rw [List.map_append, max?_append, ← hypothesis.maxKey]
        cases sketch.maxKey <;> rfl
      · show OrderedOccurrence.Lowest _ _ (if 0 < sketch.config.orderedSamples then _ else _) _
        have same : (if 0 < sketch.config.orderedSamples then
            OrderedOccurrence.sample sketch.config.orderedSamples sketch.orderedHeap
              (sketch.occurrence hasher key sketch.nextSequence) else sketch.orderedHeap) =
            OrderedOccurrence.sample sketch.config.orderedSamples sketch.orderedHeap
              (sketch.occurrence hasher key sketch.nextSequence) := by
          split
          · rfl
          next none => exact (if_pos (Nat.eq_zero_of_not_pos none)).symm
        rw [same]
        exact Largest.of_offered sampled List.perm_append_comm
  | @merge sketch other merged occurrences others left right ran hypothesis otherHypothesis =>
    obtain ⟨config, levels, -, rfl⟩ := merge_eq ran
    obtain ⟨lost, lowest⟩ := hypothesis.ordered
    obtain ⟨otherLost, otherLowest⟩ := otherHypothesis.ordered
    rw [← config] at otherLowest
    obtain ⟨gone, sampled⟩ := lowest.foldl_sample other.orderedHeap
    refine ⟨?_, ?_, ?_, _, Largest.of_offered (Largest.absorb sampled otherLowest)
      List.perm_append_comm⟩
    · show saturatingAdd sketch.count other.count = _
      rw [hypothesis.count, otherHypothesis.count, List.length_append]
      unfold saturatingAdd u64Max
      omega
    · rw [List.map_append, min?_append, ← hypothesis.minKey, ← otherHypothesis.minKey]
    · rw [List.map_append, max?_append, ← hypothesis.maxKey, ← otherHypothesis.maxKey]
  | clear before hypothesis => exact ⟨rfl, rfl, rfl, [], Largest.empty _⟩

/-- However a sketch was made, the ordered sample is made of the occurrences of the lowest
priorities since the last clear, as many as it has room for, the extrema are the least and the
greatest key of all of them, and the count is how many there were, up to its largest value. -/
theorem recorded_retained {sketch : UnivMonQ} {occurrences : List OrderedOccurrence}
    (recorded : Recorded hasher sketch occurrences) :
    sketch.orderedHeap.Perm ((occurrences.mergeSort fun left right => left.rank ≤ right.rank).take
      sketch.config.orderedSamples) ∧
    sketch.minKey = (occurrences.map OrderedOccurrence.key).min? ∧
    sketch.maxKey = (occurrences.map OrderedOccurrence.key).max? ∧
    sketch.count = min occurrences.length u64Max := by
  obtain ⟨count, minKey, maxKey, lost, lowest⟩ := recorded.retains
  exact ⟨Largest.perm_take lowest, minKey, maxKey, count⟩

/-- Two observations, of which there is room for one occurrence. -/
theorem recorded_retained_two : ∃ (sketch : UnivMonQ) (occurrences : List OrderedOccurrence),
    occurrences.length = 2 ∧ sketch.orderedHeap.Perm ((occurrences.mergeSort
      fun left right => left.rank ≤ right.rank).take sketch.config.orderedSamples) := by
  have made : ∃ sketch, new ⟨2, 1, 0, 1, 64, 1, 1, 0⟩ 7 = .ok sketch ∧
      ((sketch.updateValue collidingHasher 0#64).bind
        (·.updateValue collidingHasher 1#64)).isSome = true := ⟨_, rfl, by decide +kernel⟩
  obtain ⟨sketch, fresh, updates⟩ := made
  obtain ⟨last, ran⟩ := Option.isSome_iff_exists.mp updates
  obtain ⟨next, first, second⟩ := Option.bind_eq_some_iff.mp ran
  exact ⟨last, _, rfl,
    (recorded_retained (((Recorded.new _ 7 fresh).update 0#64 first).update 1#64 second)).1⟩

end

end UnivMonQ

end AsapSketchlib
