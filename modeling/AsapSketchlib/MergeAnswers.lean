/-
This file says what merging Space-Saving summaries does in terms of their answers alone: the
capacity, the monitored triples, the total and the ceiling. The answers of a merge are computed from
those of the two sides, so the order in which counters were seated, the links between them and the
iteration order of the hash map leave no trace, and two sides of one capacity can be swapped.
-/

import AsapSketchlib.KeyIdentity
import AsapSketchlib.Largest
import AsapSketchlib.SpaceSavingPersistence
import Mathlib.Data.Finset.Max
import Mathlib.Data.Finset.Prod

namespace AsapSketchlib

/-! ### Answers and their merge -/

/-- A monitored key with its count and its error. -/
abbrev Triple := HeapItem × ℕ × ℕ

structure Answers where
  capacity : ℕ
  triples : Finset Triple
  total : ℕ
  minCount : ℕ
  deriving DecidableEq

namespace Answers

/-- A triple with more count and more error. -/
def raise (count error : ℕ) (triple : Triple) : Triple :=
  (triple.1, saturatingAdd triple.2.1 count, saturatingAdd triple.2.2 error)

/-- The keys both sides hold, with their counts and errors added up. -/
def shared (mine theirs : Answers) : Finset Triple :=
  ((mine.triples ×ˢ theirs.triples).filter fun pair => pair.1.1 = pair.2.1).image
    fun pair => raise pair.2.2.1 pair.2.2.2 pair.1

/-- The keys only one side holds, which take the ceiling of the other as count and as error. -/
def lone (mine theirs : Answers) : Finset Triple :=
  (mine.triples.filter fun triple => triple.1 ∉ theirs.triples.image Prod.fst).image
    (raise theirs.minCount theirs.minCount)

def pool (mine theirs : Answers) : Finset Triple :=
  shared mine theirs ∪ (lone mine theirs ∪ lone theirs mine)

/-- The order of a merge: a larger count first, then a smaller key. -/
def Precedes (left right : Triple) : Prop :=
  right.2.1 < left.2.1 ∨ right.2.1 = left.2.1 ∧ keyOrder left.1 < keyOrder right.1

instance (left right : Triple) : Decidable (Precedes left right) :=
  inferInstanceAs (Decidable (_ ∨ _))

/-- The triples that fewer than `capacity` others precede. -/
def first (capacity : ℕ) (triples : Finset Triple) : Finset Triple :=
  triples.filter fun triple => (triples.filter fun other => Precedes other triple).card < capacity

def lowest (triples : Finset Triple) : ℕ := (triples.image fun triple => triple.2.1).min.untopD 0

def merge (mine theirs : Answers) : Answers where
  capacity := mine.capacity
  triples := first mine.capacity (pool mine theirs)
  total := saturatingAdd mine.total theirs.total
  minCount := max (saturatingAdd mine.minCount theirs.minCount)
    (if mine.capacity ≤ (pool mine theirs).card then lowest (first mine.capacity (pool mine theirs))
      else 0)

theorem saturatingAdd_comm (left right : ℕ) : saturatingAdd left right = saturatingAdd right left := by
  rw [saturatingAdd, saturatingAdd, Nat.add_comm]

theorem mem_shared {mine theirs : Answers} {triple : Triple} :
    triple ∈ shared mine theirs ↔ ∃ left ∈ mine.triples, ∃ right ∈ theirs.triples,
      left.1 = right.1 ∧ raise right.2.1 right.2.2 left = triple := by
  simp only [shared, Finset.mem_image, Finset.mem_filter, Finset.mem_product]
  constructor
  · rintro ⟨⟨left, right⟩, ⟨⟨memberLeft, memberRight⟩, same⟩, rfl⟩
    exact ⟨left, memberLeft, right, memberRight, same, rfl⟩
  · rintro ⟨left, memberLeft, right, memberRight, same, rfl⟩
    exact ⟨(left, right), ⟨⟨memberLeft, memberRight⟩, same⟩, rfl⟩

theorem mem_lone {mine theirs : Answers} {triple : Triple} :
    triple ∈ lone mine theirs ↔ ∃ held ∈ mine.triples, (∀ other ∈ theirs.triples, other.1 ≠ held.1) ∧
      raise theirs.minCount theirs.minCount held = triple := by
  simp only [lone, Finset.mem_image, Finset.mem_filter, not_exists, not_and, and_assoc]

theorem shared_comm (mine theirs : Answers) : shared mine theirs = shared theirs mine := by
  have turned : ∀ mine theirs : Answers, shared mine theirs ⊆ shared theirs mine := by
    intro mine theirs triple member
    obtain ⟨left, memberLeft, right, memberRight, same, rfl⟩ := mem_shared.mp member
    refine mem_shared.mpr ⟨right, memberRight, left, memberLeft, same.symm, ?_⟩
    rw [raise, raise, same, saturatingAdd_comm right.2.1, saturatingAdd_comm right.2.2]
  exact Finset.Subset.antisymm (turned mine theirs) (turned theirs mine)

theorem pool_comm (mine theirs : Answers) : pool mine theirs = pool theirs mine := by
  rw [pool, pool, shared_comm, Finset.union_comm (lone mine theirs)]

theorem merge_comm {mine theirs : Answers} (capacity : mine.capacity = theirs.capacity) :
    merge mine theirs = merge theirs mine := by
  rw [merge, merge, pool_comm, capacity, saturatingAdd_comm mine.total,
    saturatingAdd_comm mine.minCount]

theorem not_precedes_of_precedes (left right : Triple) (precedes : Precedes left right) :
    ¬Precedes right left := by
  rintro (less | ⟨same, below⟩)
  · rcases precedes with more | ⟨equal, -⟩
    · exact absurd more (Nat.lt_asymm less)
    · exact absurd equal (Nat.ne_of_gt less)
  · rcases precedes with more | ⟨-, above⟩
    · exact absurd same (Nat.ne_of_gt more)
    · exact absurd above (lt_asymm below)

theorem first_toFinset {listed : List Triple} (ordered : listed.Pairwise Precedes) (capacity : ℕ) :
    first capacity listed.toFinset = (listed.take capacity).toFinset := by
  have distinct : listed.Nodup := by
    refine ordered.imp ?_
    rintro left right precedes rfl
    exact not_precedes_of_precedes left left precedes precedes
  ext triple
  have counted : (listed.toFinset.filter fun other => Precedes other triple).card =
      listed.countP fun other => Precedes other triple := by
    rw [List.countP_eq_length_filter, ← List.toFinset_card_of_nodup (distinct.filter _)]
    refine congrArg Finset.card ?_
    ext other
    simp only [Finset.mem_filter, List.mem_toFinset, List.mem_filter, decide_eq_true_eq]
  rw [first, Finset.mem_filter, List.mem_toFinset, List.mem_toFinset, counted]
  constructor
  · rintro ⟨member, few⟩
    exact (mem_take_iff_countP not_precedes_of_precedes ordered member capacity).mpr few
  · intro early
    have member := List.mem_of_mem_take early
    exact ⟨member, (mem_take_iff_countP not_precedes_of_precedes ordered member capacity).mp early⟩

theorem lowest_toFinset (listed : List Triple) :
    lowest listed.toFinset = (listed.map fun triple => triple.2.1).min?.getD 0 := by
  have image : listed.toFinset.image (fun triple => triple.2.1) =
      (listed.map fun triple => triple.2.1).toFinset := by
    ext count
    simp only [Finset.mem_image, List.mem_toFinset, List.mem_map]
  rw [lowest, image]
  cases least : (listed.map fun triple => triple.2.1).min? with
  | none =>
    rw [List.min?_eq_none_iff.mp least]
    rfl
  | some count =>
    obtain ⟨member, below⟩ := List.min?_eq_some_iff.mp least
    have smallest : (listed.map fun triple => triple.2.1).toFinset.min = (count : WithTop ℕ) := by
      refine le_antisymm (Finset.min_le (List.mem_toFinset.mpr member)) ?_
      exact Finset.le_min fun other memberOther =>
        WithTop.coe_le_coe.mpr (below other (List.mem_toFinset.mp memberOther))
    rw [smallest]
    rfl

end Answers

/-! ### The answers of a summary -/

namespace FlatSummary

def answers (flat : FlatSummary) : Answers where
  capacity := flat.capacity
  triples := (flat.counters.map SpaceSaving.asTriple).toFinset
  total := flat.total
  minCount := flat.minCount

/-- A summary of distinct exact keys, filed under digests of their stored forms. -/
structure Keyed (H : SketchHasher) (flat : FlatSummary) : Prop where
  labelled : ∀ counter ∈ flat.counters,
    counter.digest = H.hashItem64Seeded 0 counter.key ∧ counter.key.isExact = true
  distinct : (flat.counters.map Counter.key).Nodup

def held (flat : FlatSummary) (key : HeapItem) : Option Counter :=
  flat.counters.find? fun counter => counter.key = key

variable {H : SketchHasher} {flat : FlatSummary}

theorem held_some {key : HeapItem} {counter : Counter} (found : flat.held key = some counter) :
    counter ∈ flat.counters ∧ counter.key = key := by
  unfold held at found
  have passes := List.find?_some found
  exact ⟨List.mem_of_find?_eq_some found, of_decide_eq_true passes⟩

theorem Keyed.held_eq_some (keyed : Keyed H flat) {key : HeapItem} {counter : Counter} :
    flat.held key = some counter ↔ counter ∈ flat.counters ∧ counter.key = key := by
  refine ⟨held_some, ?_⟩
  rintro ⟨member, same⟩
  cases found : flat.held key with
  | none => exact absurd same (by simpa using List.find?_eq_none.mp found counter member)
  | some other =>
    obtain ⟨otherMember, otherKey⟩ := held_some found
    rw [List.inj_on_of_nodup_map keyed.distinct otherMember member (otherKey.trans same.symm)]

theorem held_eq_none {key : HeapItem} :
    flat.held key = none ↔ ∀ counter ∈ flat.counters, counter.key ≠ key := by
  rw [held, List.find?_eq_none]
  simp only [decide_eq_true_eq, ne_eq]

theorem monitors_iff_key {counter : Counter} {key : HeapItem}
    (labelled : counter.digest = H.hashItem64Seeded 0 counter.key ∧ counter.key.isExact = true) :
    counter.Monitors (H.hashItem64Seeded 0 key) (heapItemToSketchInput key) ↔ counter.key = key := by
  rw [Counter.monitors_iff_eqItem, inputToOwned_heapItemToSketchInput]
  constructor
  · rintro ⟨-, equal⟩
    exact ((HeapItem.eqItem_of_isExact _ _ labelled.2).mp (HeapItem.eqItem_symm _ _ equal)).symm
  · rintro rfl
    exact ⟨labelled.1, (HeapItem.eqItem_of_isExact _ _ labelled.2).mpr rfl⟩

theorem Keyed.holding_eq (keyed : Keyed H flat) (key : HeapItem) :
    flat.holding (H.hashItem64Seeded 0 key) (heapItemToSketchInput key) = (flat.held key).toList := by
  have sameTest : flat.holding (H.hashItem64Seeded 0 key) (heapItemToSketchInput key) =
      flat.counters.filter fun counter => counter.key = key := by
    refine List.filter_congr fun counter member => ?_
    rw [Bool.eq_iff_iff, decide_eq_true_eq, decide_eq_true_eq,
      monitors_iff_key (keyed.labelled counter member)]
  have few : (flat.counters.filter fun counter => counter.key = key).length ≤ 1 := by
    have once := List.nodup_iff_count_le_one.mp keyed.distinct key
    rw [List.count, List.countP_map, List.countP_eq_length_filter] at once
    refine le_of_eq_of_le (congrArg List.length (List.filter_congr fun counter _ => ?_)) once
    rw [Bool.eq_iff_iff, decide_eq_true_eq]
    exact beq_iff_eq.symm
  rw [sameTest, held, ← List.head?_filter]
  cases only : flat.counters.filter fun counter => counter.key = key with
  | nil => rfl
  | cons counter rest =>
    rw [only, List.length_cons] at few
    rw [List.eq_nil_of_length_eq_zero (Nat.le_zero.mp (Nat.le_of_succ_le_succ few))]
    rfl

/-! ### The union as a pool -/

open SpaceSaving (MergeEntry)

def entryTriple (entry : MergeEntry) : Triple := SpaceSaving.asTriple entry.toCounter

section Union

variable {mine theirs : FlatSummary}

section

variable (mineKeyed : Keyed H mine) (theirsKeyed : Keyed H theirs)

include mineKeyed theirsKeyed

theorem union_keyed :
    ∀ entry ∈ union mine theirs,
      entry.digest = H.hashItem64Seeded 0 entry.key ∧ entry.key.isExact = true :=
  union_labelled (fun key digest => digest = H.hashItem64Seeded 0 key ∧ key.isExact = true)
    mineKeyed.labelled theirsKeyed.labelled

theorem filter_union (key : HeapItem) :
    (union mine theirs).filter (fun entry => entry.key = key) =
      (pairUp mine.minCount theirs.minCount (mine.held key) (theirs.held key)).toList := by
  rw [← entriesFor_union (mineKeyed.holding_eq key) (theirsKeyed.holding_eq key)]
  refine List.filter_congr fun entry member => ?_
  have labelled := union_keyed mineKeyed theirsKeyed entry member
  rw [Bool.eq_iff_iff, decide_eq_true_eq, decide_eq_true_eq]
  have monitors : entry.toCounter.Monitors (H.hashItem64Seeded 0 key) (heapItemToSketchInput key) ↔
      entry.key = key := monitors_iff_key labelled
  exact monitors.symm

theorem union_distinct : ((union mine theirs).map MergeEntry.key).Nodup := by
  rw [List.nodup_iff_count_le_one]
  intro key
  rw [List.count, List.countP_map, List.countP_eq_length_filter]
  have same : (union mine theirs).filter ((fun other => other == key) ∘ MergeEntry.key) =
      (union mine theirs).filter (fun entry => entry.key = key) :=
    List.filter_congr fun entry _ => by
      rw [Bool.eq_iff_iff, decide_eq_true_eq]
      exact beq_iff_eq
  rw [same, filter_union mineKeyed theirsKeyed]
  cases pairUp mine.minCount theirs.minCount (mine.held key) (theirs.held key) with
  | none => exact Nat.zero_le _
  | some entry => exact le_rfl

theorem mem_union {entry : MergeEntry} :
    entry ∈ union mine theirs ↔ ∃ key, pairUp mine.minCount theirs.minCount (mine.held key)
      (theirs.held key) = some entry := by
  constructor
  · intro member
    have own : entry ∈ (union mine theirs).filter (fun other => other.key = entry.key) :=
      List.mem_filter.mpr ⟨member, decide_eq_true rfl⟩
    rw [filter_union mineKeyed theirsKeyed, Option.mem_toList] at own
    exact ⟨entry.key, own⟩
  · rintro ⟨key, paired⟩
    have listed : entry ∈ (union mine theirs).filter (fun other => other.key = key) := by
      rw [filter_union mineKeyed theirsKeyed, Option.mem_toList]
      exact paired
    exact (List.mem_filter.mp listed).1

end

theorem mem_triples {triple : Triple} :
    triple ∈ flat.answers.triples ↔ ∃ counter ∈ flat.counters, SpaceSaving.asTriple counter = triple := by
  rw [answers, List.mem_toFinset, List.mem_map]

theorem mem_lone_answers {mine theirs : FlatSummary} {counter : Counter}
    (member : counter ∈ mine.counters) (absent : theirs.held counter.key = none) :
    Answers.raise theirs.minCount theirs.minCount (SpaceSaving.asTriple counter) ∈
      Answers.lone mine.answers theirs.answers := by
  refine Answers.mem_lone.mpr ⟨_, mem_triples.mpr ⟨counter, member, rfl⟩, ?_, rfl⟩
  intro other memberOther
  obtain ⟨otherCounter, otherMember, rfl⟩ := mem_triples.mp memberOther
  exact held_eq_none.mp absent otherCounter otherMember

theorem exists_of_mem_lone (mineKeyed : Keyed H mine) {triple : Triple}
    (member : triple ∈ Answers.lone mine.answers theirs.answers) :
    ∃ counter, mine.held counter.key = some counter ∧ theirs.held counter.key = none ∧
      Answers.raise theirs.minCount theirs.minCount (SpaceSaving.asTriple counter) = triple := by
  obtain ⟨held, memberHeld, absent, raised⟩ := Answers.mem_lone.mp member
  obtain ⟨counter, memberCounter, rfl⟩ := mem_triples.mp memberHeld
  refine ⟨counter, mineKeyed.held_eq_some.mpr ⟨memberCounter, rfl⟩, ?_, raised⟩
  exact held_eq_none.mpr fun other memberOther =>
    absent (SpaceSaving.asTriple other) (mem_triples.mpr ⟨other, memberOther, rfl⟩)

theorem toFinset_union (mineKeyed : Keyed H mine) (theirsKeyed : Keyed H theirs) :
    ((union mine theirs).map entryTriple).toFinset = Answers.pool mine.answers theirs.answers := by
  ext triple
  rw [List.mem_toFinset, List.mem_map, Answers.pool, Finset.mem_union, Finset.mem_union]
  constructor
  · rintro ⟨entry, member, rfl⟩
    obtain ⟨key, paired⟩ := (mem_union mineKeyed theirsKeyed).mp member
    cases mineHeld : mine.held key with
    | none =>
      cases theirsHeld : theirs.held key with
      | none =>
        rw [mineHeld, theirsHeld] at paired
        exact absurd paired.symm (Option.some_ne_none entry)
      | some other =>
        rw [mineHeld, theirsHeld] at paired
        obtain rfl := Option.some.inj paired
        obtain ⟨otherMember, rfl⟩ := held_some theirsHeld
        exact Or.inr (Or.inr (mem_lone_answers otherMember mineHeld))
    | some counter =>
      obtain ⟨memberCounter, rfl⟩ := held_some mineHeld
      cases theirsHeld : theirs.held counter.key with
      | none =>
        rw [mineHeld, theirsHeld] at paired
        obtain rfl := Option.some.inj paired
        exact Or.inr (Or.inl (mem_lone_answers memberCounter theirsHeld))
      | some other =>
        rw [mineHeld, theirsHeld] at paired
        obtain rfl := Option.some.inj paired
        obtain ⟨otherMember, sameKey⟩ := held_some theirsHeld
        exact Or.inl (Answers.mem_shared.mpr ⟨_, mem_triples.mpr ⟨counter, memberCounter, rfl⟩, _,
          mem_triples.mpr ⟨other, otherMember, rfl⟩, sameKey.symm, rfl⟩)
  · rintro (both | mineOnly | theirsOnly)
    · obtain ⟨left, memberLeft, right, memberRight, same, rfl⟩ := Answers.mem_shared.mp both
      obtain ⟨counter, memberCounter, rfl⟩ := mem_triples.mp memberLeft
      obtain ⟨other, otherMember, rfl⟩ := mem_triples.mp memberRight
      have theirsHeld : theirs.held counter.key = some other :=
        theirsKeyed.held_eq_some.mpr ⟨otherMember, same.symm⟩
      refine ⟨(pairUp mine.minCount theirs.minCount (some counter) (some other)).get rfl,
        (mem_union mineKeyed theirsKeyed).mpr ⟨counter.key, ?_⟩, rfl⟩
      rw [mineKeyed.held_eq_some.mpr ⟨memberCounter, rfl⟩, theirsHeld]
      rfl
    · obtain ⟨counter, mineHeld, theirsHeld, rfl⟩ := exists_of_mem_lone mineKeyed mineOnly
      refine ⟨(pairUp mine.minCount theirs.minCount (some counter) none).get rfl,
        (mem_union mineKeyed theirsKeyed).mpr ⟨counter.key, ?_⟩, rfl⟩
      rw [mineHeld, theirsHeld]
      rfl
    · obtain ⟨counter, theirsHeld, mineHeld, rfl⟩ := exists_of_mem_lone theirsKeyed theirsOnly
      refine ⟨(pairUp mine.minCount theirs.minCount none (some counter)).get rfl,
        (mem_union mineKeyed theirsKeyed).mpr ⟨counter.key, ?_⟩, rfl⟩
      rw [mineHeld, theirsHeld]
      rfl

end Union

end FlatSummary

/-! ### The answers of a merge -/

namespace SpaceSaving

def answers (summary : SpaceSaving) : Except Fault Answers := do
  let listed ← entries summary
  let least ← minCount summary
  return { capacity := summary.capacity, triples := listed.toFinset, total := summary.total,
           minCount := least }

theorem answers_spec {summary : SpaceSaving} (represented : Represented summary) :
    answers summary = .ok (flatten summary).answers := by
  simp only [answers, entries_spec represented.structured,
    minCount_spec represented.structured represented.bounded.positive, bind, Except.bind]
  rfl

end SpaceSaving

namespace FlatSummary

open SpaceSaving (MergeEntry mergeLe mergeCeiling)

variable {H : SketchHasher} {mine theirs after : FlatSummary} {sorted : List MergeEntry}

theorem pairwise_precedes (mineKeyed : Keyed H mine) (theirsKeyed : Keyed H theirs)
    (perm : sorted.Perm (union mine theirs))
    (ordered : sorted.Pairwise fun left right => mergeLe left right = true) :
    (sorted.map entryTriple).Pairwise Answers.Precedes := by
  have distinct : (sorted.map MergeEntry.key).Nodup :=
    (perm.map MergeEntry.key).nodup_iff.mpr (union_distinct mineKeyed theirsKeyed)
  refine List.pairwise_map.mpr ((ordered.and (List.pairwise_map.mp distinct)).imp ?_)
  rintro left right ⟨below, different⟩
  rcases (SpaceSaving.mergeLe_iff left right).mp below with more | ⟨same, keys⟩
  · exact Or.inl more
  · exact Or.inr ⟨same, lt_of_le_of_ne keys fun equal => different (keyOrder_injective equal)⟩

section

variable (merged : Merged mine theirs after sorted) (mineKeyed : Keyed H mine)
  (theirsKeyed : Keyed H theirs)

include merged mineKeyed theirsKeyed

theorem Merged.triples (ordered : sorted.Pairwise fun left right => mergeLe left right = true) :
    after.answers.triples =
      Answers.first mine.capacity (Answers.pool mine.answers theirs.answers) := by
  have pooled : Answers.pool mine.answers theirs.answers = (sorted.map entryTriple).toFinset := by
    rw [← toFinset_union mineKeyed theirsKeyed]
    exact (List.toFinset_eq_of_perm _ _ (merged.perm.map entryTriple)).symm
  rw [pooled, Answers.first_toFinset
    (pairwise_precedes mineKeyed theirsKeyed merged.perm ordered), answers, merged.counters,
    List.map_map, List.map_take]
  rfl

theorem Merged.card_pool : (Answers.pool mine.answers theirs.answers).card = sorted.length := by
  have distinct : ((union mine theirs).map entryTriple).Nodup := by
    refine List.Nodup.of_map Prod.fst ?_
    rw [List.map_map]
    exact union_distinct mineKeyed theirsKeyed
  rw [← toFinset_union mineKeyed theirsKeyed, List.toFinset_card_of_nodup distinct, List.length_map,
    merged.perm.length_eq]

end

variable (merged : Merged mine theirs after sorted) (positive : 0 < mine.capacity)

include merged positive

/-- The ceiling of a merge: the two ceilings together, or the lowest count of a full summary. -/
theorem Merged.minCount_eq
    (ceiling : after.discardedMax =
      mergeCeiling (saturatingAdd mine.minCount theirs.minCount) sorted[mine.capacity]?) :
    after.minCount = max (saturatingAdd mine.minCount theirs.minCount)
      (if mine.capacity ≤ sorted.length then after.lowest else 0) := by
  have length : after.counters.length = min mine.capacity sorted.length := by
    rw [merged.counters, List.length_map, List.length_take]
  rw [minCount, merged.capacity, length]
  cases cut : sorted[mine.capacity]? with
  | none =>
    have fits : sorted.length ≤ mine.capacity := List.getElem?_eq_none_iff.mp cut
    rw [ceiling, cut]
    refine congrArg (max _) (if_congr ?_ rfl rfl)
    rw [min_eq_right fits]
    exact ⟨fun same => same.ge, fun full => Nat.le_antisymm fits full⟩
  | some dropped =>
    have exceeds : mine.capacity < sorted.length := (List.getElem?_eq_some_iff.mp cut).1
    rw [if_pos (min_eq_left exceeds.le), if_pos exceeds.le, ceiling, cut]
    have covered : dropped.count ≤ after.lowest := by
      have inDropped : dropped ∈ sorted.drop mine.capacity := by
        rw [List.drop_eq_getElem_cons exceeds, (List.getElem?_eq_some_iff.mp cut).2]
        exact List.mem_cons_self
      have between : ∀ kept ∈ sorted.take mine.capacity, dropped.count ≤ kept.count := by
        have falling := merged.descending
        rw [← List.take_append_drop mine.capacity sorted] at falling
        exact fun kept member => (List.pairwise_append.mp falling).2.2 kept member dropped inDropped
      rw [lowest, merged.counters]
      cases least : (((sorted.take mine.capacity).map MergeEntry.toCounter).map Counter.count).min? with
      | none =>
        rw [List.min?_eq_none_iff, List.map_eq_nil_iff, List.map_eq_nil_iff,
          List.take_eq_nil_iff] at least
        rcases least with zero | empty
        · exact absurd zero positive.ne'
        · rw [empty] at exceeds
          exact absurd exceeds (Nat.not_lt_zero _)
      | some count =>
        have member := (List.min?_eq_some_iff.mp least).1
        rw [List.map_map, List.mem_map] at member
        obtain ⟨kept, memberKept, rfl⟩ := member
        exact between kept memberKept
    show max (max _ dropped.count) after.lowest = max _ after.lowest
    rw [max_assoc, max_eq_right covered]

theorem Merged.answers_eq (mineKeyed : Keyed H mine) (theirsKeyed : Keyed H theirs)
    (ordered : sorted.Pairwise fun left right => mergeLe left right = true)
    (ceiling : after.discardedMax =
      mergeCeiling (saturatingAdd mine.minCount theirs.minCount) sorted[mine.capacity]?) :
    after.answers = Answers.merge mine.answers theirs.answers := by
  have triples := merged.triples mineKeyed theirsKeyed ordered
  have lowestEq : after.lowest =
      Answers.lowest (Answers.first mine.capacity (Answers.pool mine.answers theirs.answers)) := by
    rw [← triples, answers, Answers.lowest_toFinset, List.map_map]
    rfl
  rw [Answers.merge, show mine.answers.capacity = mine.capacity from rfl, ← triples,
    merged.card_pool mineKeyed theirsKeyed, triples, ← lowestEq]
  rw [answers, merged.capacity, merged.total, merged.minCount_eq positive ceiling]
  exact congrArg (fun held => Answers.mk mine.capacity held _ _) triples

end FlatSummary

namespace SpaceSaving

variable {H : SketchHasher} {summary : SpaceSaving} {weight : DataInput → ℕ}

theorem Kept.keyed (kept : Kept H summary weight) (coherent : H.Coherent)
    (exact : ∀ counter ∈ counters summary, counter.key.isExact = true) :
    FlatSummary.Keyed H (flatten summary) := by
  have labelled : ∀ counter ∈ counters summary,
      counter.digest = H.hashItem64Seeded 0 counter.key ∧ counter.key.isExact = true :=
    fun counter member => ⟨kept.labelled coherent counter member, exact counter member⟩
  refine ⟨labelled, List.nodup_iff_count_le_one.mpr fun key => ?_⟩
  obtain ⟨total, -, tracks⟩ := kept.tracks (heapItemToSketchInput key)
  rw [coherent, inputToOwned_heapItemToSketchInput] at tracks
  rw [List.count, List.countP_map]
  refine (List.countP_mono_left fun counter member same => ?_).trans tracks.once
  exact decide_eq_true ((FlatSummary.monitors_iff_key (labelled counter member)).mpr
    (beq_iff_eq.mp same))

theorem Reachable.exists_fed (coherent : H.Coherent) (reached : Reachable H summary) :
    ∃ weight, Fed H summary weight := by
  induction reached with
  | withCapacity capacity => exact ⟨_, .withCapacity capacity⟩
  | insert reached value step hypothesis =>
    obtain ⟨weight, fed⟩ := hypothesis
    exact ⟨_, fed.insertMany value 1 step⟩
  | insertMany reached value count step hypothesis =>
    obtain ⟨weight, fed⟩ := hypothesis
    exact ⟨_, fed.insertMany value count step⟩
  | merge reached otherReached iter step mine theirs =>
    obtain ⟨mineWeight, mineFed⟩ := mine
    obtain ⟨theirsWeight, theirsFed⟩ := theirs
    exact ⟨_, mineFed.merge theirsFed iter step⟩
  | clear reached hypothesis =>
    obtain ⟨weight, fed⟩ := hypothesis
    exact ⟨_, fed.clear⟩
  | rebuild state step => exact ⟨_, .decode coherent state step⟩

theorem merge_answers {mine theirs : SpaceSaving} (mineRepresented : Represented mine)
    (theirsRepresented : Represented theirs) (mineKeyed : FlatSummary.Keyed H (flatten mine))
    (theirsKeyed : FlatSummary.Keyed H (flatten theirs)) (iter : IterOrder) :
    ∃ after, merge iter mine theirs = .ok after ∧
      answers after = .ok ((flatten mine).answers.merge (flatten theirs).answers) := by
  obtain ⟨after, sorted, merging, represented, merged, ceiling, ordered⟩ :=
    merge_spec iter mineRepresented theirsRepresented
  refine ⟨after, merging, ?_⟩
  rw [answers_spec represented, merged.answers_eq mineRepresented.bounded.positive mineKeyed
    theirsKeyed ordered ceiling]

end SpaceSaving

open SpaceSaving (Reachable counters)

/-- A merge of two reachable summaries is a function of their answers, whatever the order in which
the hash map hands out its entries; for sides of one capacity it is the same either way round. -/
theorem space_saving_merge_reproducible (H : SketchHasher) (coherent : H.Coherent)
    {mine theirs : SpaceSaving} (mineReached : Reachable H mine) (theirsReached : Reachable H theirs)
    (mineExact : ∀ counter ∈ counters mine, counter.key.isExact = true)
    (theirsExact : ∀ counter ∈ counters theirs, counter.key.isExact = true) :
    ∃ left right, SpaceSaving.answers mine = .ok left ∧ SpaceSaving.answers theirs = .ok right ∧
      (∀ iter, ∃ after, SpaceSaving.merge iter mine theirs = .ok after ∧
        SpaceSaving.answers after = .ok (left.merge right)) ∧
      (mine.capacity = theirs.capacity → ∀ iter, ∃ after,
        SpaceSaving.merge iter theirs mine = .ok after ∧
          SpaceSaving.answers after = .ok (left.merge right)) := by
  obtain ⟨mineWeight, mineFed⟩ := mineReached.exists_fed coherent
  obtain ⟨theirsWeight, theirsFed⟩ := theirsReached.exists_fed coherent
  have mineKeyed := mineFed.kept.keyed coherent mineExact
  have theirsKeyed := theirsFed.kept.keyed coherent theirsExact
  refine ⟨_, _, SpaceSaving.answers_spec mineFed.kept.represented,
    SpaceSaving.answers_spec theirsFed.kept.represented, ?_, fun capacity => ?_⟩
  · exact SpaceSaving.merge_answers mineFed.kept.represented theirsFed.kept.represented mineKeyed
      theirsKeyed
  · rw [Answers.merge_comm (show (SpaceSaving.flatten mine).answers.capacity =
      (SpaceSaving.flatten theirs).answers.capacity from capacity)]
    exact SpaceSaving.merge_answers theirsFed.kept.represented mineFed.kept.represented theirsKeyed
      mineKeyed

/-- Two keys of one digest tie for one counter, and the smaller one keeps it either way round. -/
theorem space_saving_merge_reproducible_tie :
    ∃ mine theirs, SpaceSaving.insert collidingHasher (SpaceSaving.withCapacity 1) (.i64 8) =
        .ok mine ∧
      SpaceSaving.insert collidingHasher (SpaceSaving.withCapacity 1) (.i64 7) = .ok theirs ∧
      (∀ iter, ∃ after, SpaceSaving.merge iter mine theirs = .ok after ∧
        SpaceSaving.answers after = .ok ⟨1, {(.i64 7, 2, 1)}, 2, 2⟩) ∧
      ∀ iter, ∃ after, SpaceSaving.merge iter theirs mine = .ok after ∧
        SpaceSaving.answers after = .ok ⟨1, {(.i64 7, 2, 1)}, 2, 2⟩ := by
  refine ⟨_, _, rfl, rfl, ?_⟩
  obtain ⟨left, right, leftEq, rightEq, forward, backward⟩ :=
    space_saving_merge_reproducible collidingHasher (fun _ _ => rfl)
      (.insert (.withCapacity 1) (.i64 8) rfl) (.insert (.withCapacity 1) (.i64 7) rfl)
      (by decide +kernel) (by decide +kernel)
  obtain rfl : ⟨1, {(.i64 8, 1, 0)}, 1, 1⟩ = left := Except.ok.inj leftEq
  obtain rfl : ⟨1, {(.i64 7, 1, 0)}, 1, 1⟩ = right := Except.ok.inj rightEq
  have evaluated : Answers.merge ⟨1, {(.i64 8, 1, 0)}, 1, 1⟩ ⟨1, {(.i64 7, 1, 0)}, 1, 1⟩ =
      ⟨1, {(.i64 7, 2, 1)}, 2, 2⟩ := by
    decide +kernel
  rw [evaluated] at forward backward
  exact ⟨forward, backward rfl⟩

end AsapSketchlib
