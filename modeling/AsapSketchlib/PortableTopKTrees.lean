/-
This file follows the portable composites of a sketch and a heap through trees of updates and
merges. A merge takes the smaller heap size but keeps the capacity of the receiver's heap, so
that the top-k items outgrow the heap size exactly where a step seats more keys than it allows.
-/

import AsapSketchlib.PortableTopK
import AsapSketchlib.TopKCompleteness

namespace AsapSketchlib

open MatrixStorage

/-! ### Offering texts to a heap -/

namespace HHHeap

theorem Offered.length_eq {before after : HHHeap} {key : HeapItem} {count : ℤ} {flag : Bool}
    (offered : Offered before key count after flag) (number : key.isNan = false) :
    after.heap.length = if key ∈ keys before ∨ before.heap.length = before.k then
      before.heap.length else before.heap.length + 1 := by
  cases offered with
  | rescored idx item resident same perm =>
    have held : key ∈ keys before := same ▸ List.mem_map_of_mem (List.mem_of_getElem? resident)
    rw [if_pos (Or.inl held), perm.length_eq, List.length_set]
  | seated absent room perm =>
    have apart : ¬(key ∈ keys before ∨ before.heap.length = before.k) :=
      not_or.mpr ⟨absent number, Nat.ne_of_lt room⟩
    rw [if_neg apart, perm.length_eq, List.length_cons]
  | displaced _ full root rest split _ perm =>
    rw [if_pos (Or.inr full), perm.length_eq, split, List.length_cons, List.length_cons]
  | refused _ full unchanged _ => rw [if_pos (Or.inr full), unchanged]

variable {xxh : XxHash3} {heap : HHHeap}

structure OfTexts (xxh : XxHash3) (heap : HHHeap) : Prop where
  kept : Kept (slotForItem xxh) heap.k heap
  texts : ∀ key ∈ keys heap, ∃ text, key = HeapItem.string text

theorem ofTexts_new (k : ℕ) : OfTexts xxh (new k) :=
  ⟨kept_new k, fun _ member => absurd member List.not_mem_nil⟩

/-- What an offer of a text does. -/
structure TextOffered (xxh : XxHash3) (before : HHHeap) (text : String) (count : ℤ)
    (after : HHHeap) : Prop where
  ofTexts : OfTexts xxh after
  capacity : after.k = before.k
  offered : ∃ flag, Offered before (HeapItem.string text) count after flag

theorem OfTexts.update (ofTexts : OfTexts xxh heap) {input : DataInput} {text : String}
    (owned : inputToOwned input = HeapItem.string text) (count : ℤ) :
    TextOffered xxh heap text count (HHHeap.update xxh heap input count).1 := by
  obtain ⟨offered, -, capacity⟩ := ofTexts.kept.indexed.offer_spec tellsApart_slotForItem
    (HeapItem.string text) count
  have kept : Kept (slotForItem xxh) heap.k
      (perform (slotForItem xxh) heap (.updateHeapItem (HeapItem.string text) count)) :=
    ofTexts.kept.offer tellsApart_slotForItem rfl count
  rw [update_eq_updateHeapItem, owned]
  refine ⟨⟨?_, fun key member => ?_⟩, capacity, _, offered⟩
  · have same : (updateHeapItem xxh heap (HeapItem.string text) count).1.k = heap.k := capacity
    rw [same]
    exact kept
  · obtain ⟨item, resident, rfl⟩ := List.mem_map.mp member
    have single : Single heap := fun other _ => List.nodup_iff_count_le_one.mp
      ofTexts.kept.distinct other
    rcases offered.mem_cases single resident with rfl | ⟨old, -⟩
    · exact ⟨text, rfl⟩
    · exact ofTexts.texts item.key (List.mem_map_of_mem old)

theorem ofTexts_updateAll (k : ℕ) (estimate : HeapItem → ℤ) {candidates : List HeapItem}
    (texts : ∀ key ∈ candidates, ∃ text, key = HeapItem.string text) :
    let after := candidates.foldl (fun heap key =>
      (HHHeap.update xxh heap (heapItemToSketchInput key) (estimate key)).1) (new k)
    OfTexts xxh after ∧ after.k = k ∧ HoldsLargest estimate candidates after := by
  intro after
  have numbers : ∀ key ∈ candidates, key.isNan = false := by
    intro key member
    obtain ⟨text, rfl⟩ := texts key member
    rfl
  have start : Watched xxh k estimate estimate [] (new k) := watched_new k
  have watched := start.updateAll numbers
  have holds : HoldsLargest estimate candidates after :=
    CMSHeap.holdsLargest_reverse watched.holdsLargest
  have capacity : after.k = k := watched.kept.capacity
  exact ⟨⟨capacity.symm ▸ watched.kept, fun key member => texts key (holds.known key member)⟩,
    capacity, holds⟩

end HHHeap

/-! ### The sketches -/

/-- What the composites rely on. -/
structure Counting.Lawful (counting : Counting) (numRows numCols : ℕ) : Prop where
  inserts : ∀ counts key many, Shaped numRows numCols counts →
    ∃ after, counting.insertMany counts key many = some after ∧ Shaped numRows numCols after
  merges : ∀ mine theirs, Shaped numRows numCols mine → Shaped numRows numCols theirs →
    ∃ merged, counting.mergeCounts mine theirs = some merged ∧ Shaped numRows numCols merged
  counted : ∀ counts key, Shaped numRows numCols counts → 0 < numRows →
    ∃ est, counting.heapCount counts key = some est
  /-- An estimate reads the counters. -/
  reads : ∀ mine theirs, Shaped numRows numCols mine → Shaped numRows numCols theirs →
    (∀ row < numRows, ∀ col < numCols,
      mine.queryOneCounter row col = theirs.queryOneCounter row col) →
    ∀ key, counting.estimate mine key = counting.estimate theirs key

namespace Counting

variable {numRows numCols : ℕ}

theorem lawful_cmsHeap (xxh : XxHash3) (numRows : ℕ) (positive : 0 < numCols) :
    (cmsHeap xxh).Lawful numRows numCols where
  inserts := by
    intro counts key many shaped
    obtain ⟨after, inserting, afterShaped, -⟩ :=
      (Stored.CountMin.linear (.regular (defaultXxHasher xxh)) .vector2D numRows
        positive).insert_spec ⟨counts⟩ key many shaped rfl
    exact ⟨after.counts, congrArg (Option.map _) inserting, afterShaped⟩
  merges := by
    intro mine theirs shaped otherShaped
    obtain ⟨merged, merging, mergedShaped, -⟩ :=
      @Stored.CountMin.merge_spec ⟨mine⟩ ⟨theirs⟩ _ _ shaped otherShaped
    exact ⟨merged.counts, congrArg (Option.map _) merging, mergedShaped⟩
  counted := by
    intro counts key shaped some
    have estimating := @Stored.CountMin.estimate_eq (.regular (defaultXxHasher xxh)) ⟨counts⟩ _ _
      shaped positive key
    rw [if_pos ⟨rfl, some⟩] at estimating
    exact ⟨_, estimating⟩
  reads := by
    intro mine theirs shaped otherShaped same key
    refine congrArg (Option.map _) ?_
    rw [@Stored.CountMin.estimate_eq (.regular (defaultXxHasher xxh)) ⟨mine⟩ _ _ shaped positive,
      @Stored.CountMin.estimate_eq (.regular (defaultXxHasher xxh)) ⟨theirs⟩ _ _ otherShaped
        positive]
    by_cases possible :
        (UpdatePath.regular (defaultXxHasher xxh)).compatible numRows numCols = true ∧ 0 < numRows
    · have counters : ∀ row < numRows,
          Stored.CountMin.addressed (.regular (defaultXxHasher xxh)) ⟨mine⟩ numRows numCols key row =
          Stored.CountMin.addressed (.regular (defaultXxHasher xxh)) ⟨theirs⟩ numRows numCols key
            row :=
        fun row inside => same row inside _ (UpdatePath.address_lt _ numRows positive key row)
      rw [if_pos possible, if_pos possible, counters 0 possible.2]
      refine congrArg some (runningMin_congr _ fun row member => counters row ?_)
      obtain ⟨-, inside⟩ := List.mem_range'_1.mp member
      rwa [Nat.add_sub_cancel' possible.2] at inside
    · rw [if_neg possible, if_neg possible]

theorem lawful_csHeap (xxh : XxHash3) (numRows : ℕ) (positive : 0 < numCols) :
    (csHeap xxh).Lawful numRows numCols where
  inserts := by
    intro counts key many shaped
    obtain ⟨after, inserting, afterShaped, -⟩ :=
      (Stored.Count.linear (.regular (defaultXxHasher xxh)) .vector2D numRows
        positive).insert_spec ⟨counts⟩ key many shaped rfl
    exact ⟨after.counts, congrArg (Option.map _) inserting, afterShaped⟩
  merges := by
    intro mine theirs shaped otherShaped
    obtain ⟨merged, merging, mergedShaped, -⟩ :=
      @Stored.Count.merge_spec ⟨mine⟩ ⟨theirs⟩ _ _ shaped otherShaped
    exact ⟨merged.counts, congrArg (Option.map _) merging, mergedShaped⟩
  counted := fun _ _ _ _ => ⟨_, rfl⟩
  reads := by
    intro mine theirs shaped otherShaped same key
    have estimates : Stored.Count.estimate (.regular (defaultXxHasher xxh)) ⟨mine⟩ key =
        Stored.Count.estimate (.regular (defaultXxHasher xxh)) ⟨theirs⟩ key := by
      rw [@Stored.Count.estimate_eq (.regular (defaultXxHasher xxh)) ⟨mine⟩ _ _ shaped,
        @Stored.Count.estimate_eq (.regular (defaultXxHasher xxh)) ⟨theirs⟩ _ _ otherShaped]
      refine if_congr Iff.rfl (congrArg some (congrArg (Median.sortMedian meanF64 0) ?_)) rfl
      refine List.map_congr_left fun row member => ?_
      have inside : row < numRows := List.mem_range.mp member
      show intAsF64 (_ * mine.queryOneCounter row _) = intAsF64 (_ * theirs.queryOneCounter row _)
      rw [same row inside _ (UpdatePath.address_lt _ numRows positive key row)]
    exact congrArg (Option.map F64.finite) estimates

end Counting

/-! ### Trees -/

/-- How a composite was built from new ones. -/
inductive WithHeapTree where
  | new (heapSize : ℕ)
  | update (tree : WithHeapTree) (key : String) (value : F64)
  | merge (left right : WithHeapTree)

namespace WithHeapTree

def smallest : WithHeapTree → ℕ
  | new heapSize => heapSize
  | update tree _ _ => tree.smallest
  | merge left right => Nat.min left.smallest right.smallest

variable (counting : Counting) (xxh : XxHash3) (rows cols : ℕ)

def run : WithHeapTree → Option WithHeap
  | new heapSize => WithHeap.new rows cols heapSize
  | update tree key value => tree.run.bind fun sketch => sketch.update counting xxh key value
  | merge left right =>
    left.run.bind fun sketch => right.run.bind fun other =>
      (sketch.merge counting xxh other).bind Except.toOption

/-- No composite that the tree passes through has more top-k items than its heap size. -/
def Bounded : WithHeapTree → Prop
  | new _ => True
  | update tree key value => tree.Bounded ∧ ∀ sketch,
    run counting xxh rows cols (update tree key value) = some sketch →
      sketch.heap.heap.length ≤ sketch.heapSize
  | merge left right => left.Bounded ∧ right.Bounded ∧ ∀ sketch,
    run counting xxh rows cols (merge left right) = some sketch →
      sketch.heap.heap.length ≤ sketch.heapSize

/-- The condition on the composite before an update: its weight is not positive, its key is among
the items, there are fewer items than the heap size, or the heap has no more room than that. -/
def FitsUpdate (before : WithHeap) (key : String) (value : F64) : Prop :=
  WithHeap.weightOf value ≤ 0 ∨ HeapItem.string key ∈ HHHeap.keys before.heap ∨
    before.heap.heap.length < before.heapSize ∨ before.heap.k ≤ before.heapSize

/-- The condition on the operands of a merge: the receiver's heap has no more room than the smaller
heap size, or the operands have no more keys. -/
def FitsMerge (mine theirs : WithHeap) : Prop :=
  mine.heap.k ≤ Nat.min mine.heapSize theirs.heapSize ∨
    (HHHeap.keys mine.heap ++ HHHeap.keys theirs.heap).dedup.length ≤
      Nat.min mine.heapSize theirs.heapSize

def Fitting : WithHeapTree → Prop
  | new _ => True
  | update tree key value => tree.Fitting ∧ ∀ before,
    run counting xxh rows cols tree = some before → FitsUpdate before key value
  | merge left right => left.Fitting ∧ right.Fitting ∧ ∀ mine theirs,
    run counting xxh rows cols left = some mine → run counting xxh rows cols right = some theirs →
      FitsMerge mine theirs

end WithHeapTree

/-! ### What every step does -/

namespace WithHeap

/-- What holds of every composite of a tree. -/
structure Held (xxh : XxHash3) (numRows numCols smallest : ℕ) (sketch : WithHeap) : Prop where
  rows : sketch.rows = numRows
  cols : sketch.cols = numCols
  reservable : Reservable numRows numCols
  shaped : Shaped numRows numCols sketch.counts
  ofTexts : HHHeap.OfTexts xxh sketch.heap
  smallest : sketch.heapSize = smallest
  capacity : sketch.heapSize ≤ sketch.heap.k

/-- What an update with a positive weight does. -/
structure Updated (counting : Counting) (xxh : XxHash3) (numRows numCols : ℕ) (sketch : WithHeap)
    (key : String) (many : ℤ) (after : WithHeap) (counts : MatrixStorage) (count : ℤ) : Prop where
  inserted : counting.insertMany sketch.counts (.string key) many = some counts
  shaped : Shaped numRows numCols counts
  counted : counting.heapCount counts (.string key) = some count
  outcome : after = { sketch with counts := counts, heap := after.heap }
  offered : HHHeap.TextOffered xxh sketch.heap key count after.heap

structure Merged (counting : Counting) (xxh : XxHash3) (numRows numCols : ℕ)
    (sketch other after : WithHeap) (counts : MatrixStorage) (estimate : HeapItem → ℤ) : Prop where
  merged : counting.mergeCounts sketch.counts other.counts = some counts
  shaped : Shaped numRows numCols counts
  counted : ∀ key ∈ HHHeap.keys sketch.heap ++ HHHeap.keys other.heap,
    counting.heapCount counts (heapItemToSketchInput key) = some (estimate key)
  outcome : after = { sketch with
    heapSize := Nat.min sketch.heapSize other.heapSize, counts := counts, heap := after.heap }
  ofTexts : HHHeap.OfTexts xxh after.heap
  capacity : after.heap.k = sketch.heap.k
  holds : HHHeap.HoldsLargest estimate (HHHeap.keys sketch.heap ++ HHHeap.keys other.heap)
    after.heap

variable {counting : Counting} {xxh : XxHash3} {numRows numCols smallest smallest' : ℕ}
  {sketch other after : WithHeap}

theorem held_new (xxh : XxHash3) {heapSize : ℕ} (ran : new numRows numCols heapSize = some sketch) :
    Held xxh numRows numCols heapSize sketch ∧ sketch.heap = HHHeap.new heapSize ∧
      sketch.counts = newVector2D numRows numCols := by
  unfold new at ran
  by_cases reservable : Reservable numRows numCols
  · rw [if_pos reservable] at ran
    obtain rfl := Option.some.inj ran
    exact ⟨⟨rfl, rfl, reservable, shaped_newVector2D numRows numCols, HHHeap.ofTexts_new heapSize,
      rfl, le_rfl⟩, rfl, rfl⟩
  · rw [if_neg reservable] at ran
    exact absurd ran (Option.some_ne_none sketch).symm

theorem Held.update_cases (lawful : counting.Lawful numRows numCols)
    (held : Held xxh numRows numCols smallest sketch) {key : String} {value : F64}
    (ran : sketch.update counting xxh key value = some after) :
    weightOf value ≤ 0 ∧ after = sketch ∨ 0 < weightOf value ∧ ∃ counts count,
      Updated counting xxh numRows numCols sketch key (weightOf value) after counts count := by
  unfold update at ran
  dsimp only at ran
  by_cases ignored : weightOf value ≤ 0
  · rw [if_pos ignored] at ran
    exact Or.inl ⟨ignored, (Option.some.inj ran).symm⟩
  · rw [if_neg ignored] at ran
    obtain ⟨counts, inserted, rest⟩ := Option.bind_eq_some_iff.mp ran
    obtain ⟨heap, offering, rfl⟩ := Option.map_eq_some_iff.mp rest
    obtain ⟨count, counted, rfl⟩ := Option.map_eq_some_iff.mp offering
    obtain ⟨_, inserting, shaped⟩ := lawful.inserts sketch.counts (.string key) (weightOf value)
      held.shaped
    obtain rfl := Option.some.inj (inserting.symm.trans inserted)
    exact Or.inr ⟨not_le.mp ignored, _, count, inserted, shaped, counted, rfl,
      held.ofTexts.update rfl count⟩

theorem foldlM_offerEstimate {counts : MatrixStorage} {candidates : List HeapItem}
    {heap result : HHHeap}
    (ran : candidates.foldlM (fun heap key =>
      offerEstimate counting xxh counts heap (heapItemToSketchInput key)) heap = some result)
    {estimate : HeapItem → ℤ}
    (estimateEq : ∀ key, estimate key =
      (counting.heapCount counts (heapItemToSketchInput key)).getD 0) :
    (∀ key ∈ candidates,
      counting.heapCount counts (heapItemToSketchInput key) = some (estimate key)) ∧
    result = candidates.foldl (fun heap key =>
      (HHHeap.update xxh heap (heapItemToSketchInput key) (estimate key)).1) heap := by
  induction candidates generalizing heap with
  | nil => exact ⟨fun _ member => absurd member List.not_mem_nil, (Option.some.inj ran).symm⟩
  | cons key rest hypothesis =>
    rw [List.foldlM_cons] at ran
    obtain ⟨next, offering, later⟩ := Option.bind_eq_some_iff.mp ran
    obtain ⟨count, counted, rfl⟩ := Option.map_eq_some_iff.mp offering
    have same : estimate key = count := by
      rw [estimateEq, counted, Option.getD_some]
    obtain ⟨others, resultEq⟩ := hypothesis later
    refine ⟨List.forall_mem_cons.mpr ⟨same ▸ counted, others⟩, ?_⟩
    rw [resultEq, List.foldl_cons, same]

section

variable (lawful : counting.Lawful numRows numCols)
  (held : Held xxh numRows numCols smallest sketch)

include lawful held

theorem Held.merge_cases (otherHeld : Held xxh numRows numCols smallest' other)
    (ran : (sketch.merge counting xxh other).bind Except.toOption = some after) :
    ∃ counts estimate, Merged counting xxh numRows numCols sketch other after counts estimate := by
  unfold merge at ran
  have same : ¬(sketch.rows ≠ other.rows ∨ sketch.cols ≠ other.cols) := by
    rw [held.rows, held.cols, otherHeld.rows, otherHeld.cols]
    exact fun differ => differ.elim (fun rows => rows rfl) fun cols => cols rfl
  rw [if_neg same] at ran
  obtain ⟨result, merging, taken⟩ := Option.bind_eq_some_iff.mp ran
  obtain ⟨backend, backendEq, rfl⟩ := Option.map_eq_some_iff.mp merging
  obtain rfl := Option.some.inj taken
  obtain ⟨counts, merged, asking⟩ := Option.bind_eq_some_iff.mp backendEq
  obtain ⟨heap, asked, rfl⟩ := Option.map_eq_some_iff.mp asking
  obtain ⟨_, mergedEq, shaped⟩ := lawful.merges _ _ held.shaped otherHeld.shaped
  obtain rfl := Option.some.inj (mergedEq.symm.trans merged)
  obtain ⟨counted, heapEq⟩ := @foldlM_offerEstimate counting xxh _ _ _ _ asked
    (fun key => (counting.heapCount _ (heapItemToSketchInput key)).getD 0) fun _ => rfl
  have texts : ∀ key ∈ HHHeap.keys sketch.heap ++ HHHeap.keys other.heap,
      ∃ text, key = HeapItem.string text := by
    intro key member
    rcases List.mem_append.mp member with mine | theirs
    · exact held.ofTexts.texts key mine
    · exact otherHeld.ofTexts.texts key theirs
  rw [HHHeap.clear_eq_new] at heapEq
  obtain ⟨ofTexts, capacity, holds⟩ := @HHHeap.ofTexts_updateAll xxh sketch.heap.k
    (fun key => (counting.heapCount _ (heapItemToSketchInput key)).getD 0) _ texts
  rw [← heapEq] at ofTexts capacity holds
  exact ⟨_, _, merged, shaped, counted, rfl, ofTexts, capacity, holds⟩

theorem Held.update {key : String} {value : F64}
    (ran : sketch.update counting xxh key value = some after) :
    Held xxh numRows numCols smallest after := by
  rcases held.update_cases lawful ran with ⟨-, rfl⟩ | ⟨-, counts, count, updated⟩
  · exact held
  · rw [updated.outcome]
    exact ⟨held.rows, held.cols, held.reservable, updated.shaped, updated.offered.ofTexts,
      held.smallest, updated.offered.capacity.symm ▸ held.capacity⟩

theorem Held.merge (otherHeld : Held xxh numRows numCols smallest' other)
    (ran : (sketch.merge counting xxh other).bind Except.toOption = some after) :
    Held xxh numRows numCols (Nat.min smallest smallest') after := by
  obtain ⟨counts, estimate, merged⟩ := held.merge_cases lawful otherHeld ran
  rw [merged.outcome]
  refine ⟨held.rows, held.cols, held.reservable, merged.shaped, merged.ofTexts, ?_, ?_⟩
  · exact congrArg₂ Nat.min held.smallest otherHeld.smallest
  · rw [merged.capacity]
    exact (Nat.min_le_left _ _).trans held.capacity

end

/-! ### When a step stays within the heap size -/

section

variable (lawful : counting.Lawful numRows numCols)
  (held : Held xxh numRows numCols smallest sketch)

include lawful held

theorem Held.update_bounded_iff (before : sketch.heap.heap.length ≤ sketch.heapSize) {key : String}
    {value : F64} (ran : sketch.update counting xxh key value = some after) :
    after.heap.heap.length ≤ after.heapSize ↔ WithHeapTree.FitsUpdate sketch key value := by
  rcases held.update_cases lawful ran with ⟨ignored, rfl⟩ | ⟨counted, counts, count, updated⟩
  · exact iff_of_true before (Or.inl ignored)
  · obtain ⟨flag, offered⟩ := updated.offered.offered
    have size : after.heapSize = sketch.heapSize := by rw [updated.outcome]
    have lengthEq := offered.length_eq rfl
    rw [size]
    refine ⟨fun bounded => ?_, fun fits => ?_⟩
    · by_contra unfit
      simp only [WithHeapTree.FitsUpdate, not_or, not_lt, not_le] at unfit
      obtain ⟨-, absent, full, room⟩ := unfit
      have apart : sketch.heap.heap.length ≠ sketch.heap.k :=
        Nat.ne_of_lt (before.trans_lt room)
      rw [if_neg (not_or.mpr ⟨absent, apart⟩)] at lengthEq
      rw [lengthEq] at bounded
      exact absurd (full.trans_lt (Nat.lt_of_succ_le bounded)) (lt_irrefl _)
    · rcases fits with ignored | held | room | small
      · exact absurd counted (not_lt.mpr ignored)
      · rw [lengthEq, if_pos (Or.inl held)]
        exact before
      · exact offered.length_le.trans room
      · have within := updated.offered.ofTexts.kept.indexed.bounded
        rw [updated.offered.capacity] at within
        exact within.trans small

theorem Held.merge_bounded_iff (otherHeld : Held xxh numRows numCols smallest' other)
    (ran : (sketch.merge counting xxh other).bind Except.toOption = some after) :
    after.heap.heap.length ≤ after.heapSize ↔ WithHeapTree.FitsMerge sketch other := by
  obtain ⟨counts, estimate, merged⟩ := held.merge_cases lawful otherHeld ran
  have size : after.heapSize = Nat.min sketch.heapSize other.heapSize := by rw [merged.outcome]
  rw [size, merged.holds.size, merged.capacity]
  exact min_le_iff

end

/-! ### Where a step runs -/

variable (lawful : counting.Lawful numRows numCols) (rows : 0 < numRows)

include lawful rows

theorem exists_foldlM_offerEstimate {counts : MatrixStorage}
    (shaped : Shaped numRows numCols counts) (candidates : List HeapItem) (heap : HHHeap) :
    ∃ result, candidates.foldlM (fun heap key =>
      offerEstimate counting xxh counts heap (heapItemToSketchInput key)) heap = some result := by
  induction candidates generalizing heap with
  | nil => exact ⟨heap, rfl⟩
  | cons key rest hypothesis =>
    obtain ⟨count, counted⟩ := lawful.counted counts (heapItemToSketchInput key) shaped rows
    rw [List.foldlM_cons, offerEstimate, counted]
    exact hypothesis _

theorem Held.exists_update (held : Held xxh numRows numCols smallest sketch) (key : String)
    (value : F64) : ∃ after, sketch.update counting xxh key value = some after := by
  unfold WithHeap.update
  dsimp only
  by_cases ignored : weightOf value ≤ 0
  · exact ⟨sketch, if_pos ignored⟩
  · obtain ⟨counts, inserted, shaped⟩ := lawful.inserts sketch.counts (.string key)
      (weightOf value) held.shaped
    obtain ⟨count, counted⟩ := lawful.counted counts (.string key) shaped rows
    rw [if_neg ignored, inserted, Option.bind_some, offerEstimate, counted]
    exact ⟨_, rfl⟩

theorem Held.exists_merge (held : Held xxh numRows numCols smallest sketch)
    (otherHeld : Held xxh numRows numCols smallest' other) :
    ∃ after, (sketch.merge counting xxh other).bind Except.toOption = some after := by
  have same : ¬(sketch.rows ≠ other.rows ∨ sketch.cols ≠ other.cols) := by
    rw [held.rows, held.cols, otherHeld.rows, otherHeld.cols]
    exact fun differ => differ.elim (fun rows => rows rfl) fun cols => cols rfl
  obtain ⟨counts, merged, shaped⟩ := lawful.merges _ _ held.shaped otherHeld.shaped
  obtain ⟨heap, asked⟩ := @exists_foldlM_offerEstimate counting xxh _ _ lawful rows counts shaped
    (HHHeap.keys sketch.heap ++ HHHeap.keys other.heap) (HHHeap.clear sketch.heap)
  rw [WithHeap.merge, if_neg same, mergeBackend, merged, Option.bind_some, asked]
  exact ⟨_, rfl⟩

end WithHeap

/-! ### Runs -/

namespace WithHeapTree

variable {counting : Counting} {xxh : XxHash3} {rows cols : ℕ}

theorem reservable_of_run {tree : WithHeapTree} {sketch : WithHeap}
    (ran : run counting xxh rows cols tree = some sketch) : Reservable rows cols := by
  induction tree generalizing sketch with
  | new heapSize => exact (WithHeap.held_new xxh ran).1.reservable
  | update tree key value hypothesis =>
    obtain ⟨before, ranBefore, -⟩ := Option.bind_eq_some_iff.mp ran
    exact hypothesis ranBefore
  | merge left right leftHypothesis _ =>
    obtain ⟨mine, ranLeft, -⟩ := Option.bind_eq_some_iff.mp ran
    exact leftHypothesis ranLeft

section Lawful

variable (lawful : counting.Lawful rows cols)
include lawful

theorem held_of_run {tree : WithHeapTree} {sketch : WithHeap}
    (ran : run counting xxh rows cols tree = some sketch) :
    WithHeap.Held xxh rows cols tree.smallest sketch := by
  induction tree generalizing sketch with
  | new heapSize => exact (WithHeap.held_new xxh ran).1
  | update tree key value hypothesis =>
    obtain ⟨before, ranBefore, updating⟩ := Option.bind_eq_some_iff.mp ran
    exact (hypothesis ranBefore).update lawful updating
  | merge left right leftHypothesis rightHypothesis =>
    obtain ⟨mine, ranLeft, rest⟩ := Option.bind_eq_some_iff.mp ran
    obtain ⟨theirs, ranRight, merging⟩ := Option.bind_eq_some_iff.mp rest
    exact (leftHypothesis ranLeft).merge lawful (rightHypothesis ranRight) merging

theorem exists_run (row : 0 < rows) (reservable : Reservable rows cols) (tree : WithHeapTree) :
    ∃ sketch, run counting xxh rows cols tree = some sketch := by
  induction tree with
  | new heapSize => exact ⟨_, if_pos reservable⟩
  | update tree key value hypothesis =>
    obtain ⟨before, ranBefore⟩ := hypothesis
    obtain ⟨after, updating⟩ := (held_of_run lawful ranBefore).exists_update lawful row key value
    exact ⟨after, Option.bind_eq_some_iff.mpr ⟨before, ranBefore, updating⟩⟩
  | merge left right leftHypothesis rightHypothesis =>
    obtain ⟨mine, ranLeft⟩ := leftHypothesis
    obtain ⟨theirs, ranRight⟩ := rightHypothesis
    obtain ⟨after, merging⟩ := (held_of_run lawful ranLeft).exists_merge lawful row
      (held_of_run lawful ranRight)
    exact ⟨after, Option.bind_eq_some_iff.mpr ⟨mine, ranLeft,
      Option.bind_eq_some_iff.mpr ⟨theirs, ranRight, merging⟩⟩⟩

omit lawful in
theorem Bounded.length_le {tree : WithHeapTree} (bounded : Bounded counting xxh rows cols tree)
    {sketch : WithHeap} (ran : run counting xxh rows cols tree = some sketch) :
    sketch.heap.heap.length ≤ sketch.heapSize := by
  cases tree with
  | new heapSize =>
    rw [(WithHeap.held_new xxh ran).2.1]
    exact Nat.zero_le _
  | update tree key value => exact bounded.2 sketch ran
  | merge left right => exact bounded.2.2 sketch ran

theorem Fitting.bounded {tree : WithHeapTree} (fitting : Fitting counting xxh rows cols tree) :
    Bounded counting xxh rows cols tree := by
  induction tree with
  | new heapSize => exact trivial
  | update tree key value hypothesis =>
    have earlier := hypothesis fitting.1
    refine ⟨earlier, fun sketch ran => ?_⟩
    obtain ⟨before, ranBefore, updating⟩ := Option.bind_eq_some_iff.mp ran
    exact ((held_of_run lawful ranBefore).update_bounded_iff lawful (earlier.length_le ranBefore)
      updating).mpr (fitting.2 before ranBefore)
  | merge left right leftHypothesis rightHypothesis =>
    refine ⟨leftHypothesis fitting.1, rightHypothesis fitting.2.1, fun sketch ran => ?_⟩
    obtain ⟨mine, ranLeft, rest⟩ := Option.bind_eq_some_iff.mp ran
    obtain ⟨theirs, ranRight, merging⟩ := Option.bind_eq_some_iff.mp rest
    exact ((held_of_run lawful ranLeft).merge_bounded_iff lawful (held_of_run lawful ranRight)
      merging).mpr (fitting.2.2 mine theirs ranLeft ranRight)

theorem Bounded.fitting (row : 0 < rows) {tree : WithHeapTree}
    (bounded : Bounded counting xxh rows cols tree) : Fitting counting xxh rows cols tree := by
  induction tree with
  | new heapSize => exact trivial
  | update tree key value hypothesis =>
    refine ⟨hypothesis bounded.1, fun before ranBefore => ?_⟩
    have held := held_of_run lawful ranBefore
    obtain ⟨after, updating⟩ := held.exists_update lawful row key value
    exact (held.update_bounded_iff lawful (bounded.1.length_le ranBefore) updating).mp
      (bounded.2 after (Option.bind_eq_some_iff.mpr ⟨before, ranBefore, updating⟩))
  | merge left right leftHypothesis rightHypothesis =>
    refine ⟨leftHypothesis bounded.1, rightHypothesis bounded.2.1,
      fun mine theirs ranLeft ranRight => ?_⟩
    have held := held_of_run lawful ranLeft
    have otherHeld := held_of_run lawful ranRight
    obtain ⟨after, merging⟩ := held.exists_merge lawful row otherHeld
    exact (held.merge_bounded_iff lawful otherHeld merging).mp
      (bounded.2.2 after (Option.bind_eq_some_iff.mpr ⟨mine, ranLeft,
        Option.bind_eq_some_iff.mpr ⟨theirs, ranRight, merging⟩⟩))

end Lawful

end WithHeapTree

end AsapSketchlib
