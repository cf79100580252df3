/-
This file proves which counts of the heavy-hitter heap are fresh after two folded sketches are
merged. The merge asks again for the keys of the other heap only, so a key that is resident in the
receiving heap alone keeps the count it had.
-/

import AsapSketchlib.FoldTrees
import AsapSketchlib.HeapOffers

namespace AsapSketchlib

namespace FoldSketch

open HHHeap

/-! ### Reachable sketches -/

section Reach

variable (xxh : XxHash3) (query : FoldSketch → DataInput → ℤ)
  (feed : FoldSketch → DataInput → ℤ → FoldSketch) (rows fullCols : ℕ)

/-- The sketches of these dimensions that the operations build. -/
inductive Reached : FoldSketch → Prop
  | new {foldLevel topK : ℕ} {sketch : FoldSketch}
    (accepted : FoldSketch.new rows fullCols foldLevel topK = some sketch) : Reached sketch
  | insert {sketch : FoldSketch} (reached : Reached sketch) (key : DataInput) (delta : ℤ) :
    Reached (feed sketch key delta)
  | mergeSameLevel {sketch other merged : FoldSketch} (reached : Reached sketch)
    (otherReached : Reached other)
    (accepted : FoldSketch.mergeSameLevel xxh query sketch other = some merged) : Reached merged
  | unfoldMerge {sketch other merged : FoldSketch} (reached : Reached sketch)
    (otherReached : Reached other)
    (accepted : FoldSketch.unfoldMerge xxh query sketch other = some merged) : Reached merged
  | unfoldTo {sketch unfolded : FoldSketch} {targetLevel : ℕ} (reached : Reached sketch)
    (accepted : FoldSketch.unfoldTo xxh query sketch targetLevel = some unfolded) : Reached unfolded
  | hierarchicalMerge {sketches : List FoldSketch} {merged : FoldSketch}
    (reached : ∀ sketch ∈ sketches, Reached sketch)
    (accepted : FoldSketch.hierarchicalMerge xxh query sketches = some merged) : Reached merged
  | clear {sketch : FoldSketch} (reached : Reached sketch) : Reached (FoldSketch.clear sketch)

end Reach

section Invariant

variable {hasher : SketchHasher} {xxh : XxHash3} {query : FoldSketch → DataInput → ℤ}
  {deltaOf : ℕ → DataInput → ℤ → ℤ} {feed : FoldSketch → DataInput → ℤ → FoldSketch}
  {rows fullCols : ℕ}

def Offers (xxh : XxHash3) (feed : FoldSketch → DataInput → ℤ → FoldSketch) : Prop :=
  ∀ sketch key delta, ∃ count, (feed sketch key delta).heap = (update xxh sketch.heap key count).1

theorem wellFormed_reconcileHeapFrom {sketch : FoldSketch} (wellFormed : WellFormed xxh sketch.heap)
    (source : FoldSketch) : WellFormed xxh (reconcileHeapFrom xxh query sketch source).heap := by
  unfold reconcileHeapFrom
  generalize source.heap.heap = items
  induction items generalizing sketch with
  | nil => exact wellFormed
  | cons item rest hypothesis =>
    refine hypothesis ?_
    show WellFormed xxh (update xxh sketch.heap (heapItemToSketchInput item.key) _).1
    rw [update_eq_updateHeapItem]
    exact wellFormed.updateHeapItem _ _

theorem wellFormed_foldl_reconcile {sketch : FoldSketch} (wellFormed : WellFormed xxh sketch.heap)
    (sources : List FoldSketch) :
    WellFormed xxh (sources.foldl (reconcileHeapFrom xxh query) sketch).heap := by
  induction sources generalizing sketch with
  | nil => exact wellFormed
  | cons source rest hypothesis =>
    exact hypothesis (wellFormed_reconcileHeapFrom wellFormed source)

theorem heap_scatterInto (source target : FoldSketch) :
    (scatterInto source target).heap = target.heap := rfl

theorem heap_foldlM_scatterChecked {sources : List FoldSketch} {target result : FoldSketch}
    (accepted : sources.foldlM scatterChecked target = some result) : result.heap = target.heap := by
  induction sources generalizing target with
  | nil => exact congrArg FoldSketch.heap (Option.some.inj accepted).symm
  | cons source rest hypothesis =>
    obtain ⟨next, scattered, later⟩ := Option.bind_eq_some_iff.mp accepted
    rw [hypothesis later]
    unfold scatterChecked at scattered
    split at scattered
    · rw [← Option.some.inj scattered, heap_scatterInto]
    · exact absurd scattered (Option.some_ne_none _).symm

theorem clear_eq_emptyAt {sketch : FoldSketch} (placed : WellPlaced sketch) :
    FoldSketch.clear sketch =
      emptyAt sketch.rows sketch.fullCols sketch.foldLevel sketch.heap.k := by
  unfold FoldSketch.clear emptyAt
  rw [placed.shaped.sized, placed.width, HHHeap.clear_eq_new]

/-- What holds of every reachable sketch. -/
structure Tended (xxh : XxHash3) (rows fullCols : ℕ) (sketch : FoldSketch) : Prop where
  fits : Fits rows fullCols sketch
  wellFormed : WellFormed xxh sketch.heap

theorem Tended.of_new {foldLevel topK : ℕ} {sketch : FoldSketch}
    (accepted : FoldSketch.new rows fullCols foldLevel topK = some sketch) :
    Tended xxh rows fullCols sketch := by
  refine ⟨(holds_new accepted).fits, ?_⟩
  unfold FoldSketch.new at accepted
  split at accepted
  case isFalse => exact absurd accepted (Option.some_ne_none _).symm
  split at accepted
  case isFalse => exact absurd accepted (Option.some_ne_none _).symm
  rw [← Option.some.inj accepted]
  exact wellFormed_new topK

section

variable {sketch other merged : FoldSketch} (tended : Tended xxh rows fullCols sketch)
  (otherTended : Tended xxh rows fullCols other)

include tended otherTended

theorem Tended.mergeSameLevel
    (accepted : FoldSketch.mergeSameLevel xxh query sketch other = some merged) :
    Tended xxh rows fullCols merged ∧
      ∀ row < rows, ∀ col, held merged row col = held sketch row col + held other row col := by
  have kept := accepted
  unfold FoldSketch.mergeSameLevel at kept
  split at kept
  case isFalse => exact absurd kept (Option.some_ne_none _).symm
  rename_i same
  have otherHolds := otherTended.fits.holds
  rw [← same.2.2.1] at otherHolds
  obtain ⟨result, run, holds⟩ := tended.fits.holds.mergeSameLevel xxh query otherHolds
  obtain rfl := Option.some.inj (run.symm.trans accepted)
  refine ⟨⟨holds.fits, ?_⟩, holds.answers⟩
  rw [← Option.some.inj kept]
  refine wellFormed_reconcileHeapFrom ?_ other
  exact tended.wellFormed

theorem Tended.unfoldMerge
    (accepted : FoldSketch.unfoldMerge xxh query sketch other = some merged) :
    Tended xxh rows fullCols merged := by
  have kept := accepted
  unfold FoldSketch.unfoldMerge at kept
  split at kept
  case isFalse => exact absurd kept (Option.some_ne_none _).symm
  rename_i same
  obtain ⟨level, levelEq⟩ := Nat.exists_eq_succ_of_ne_zero (Nat.ne_of_gt same.2.2.2)
  have holds := tended.fits.holds
  have otherHolds := otherTended.fits.holds
  rw [← same.2.2.1] at otherHolds
  rw [levelEq] at holds otherHolds
  obtain ⟨result, run, merges⟩ := holds.unfoldMerge xxh query otherHolds
  obtain rfl := Option.some.inj (run.symm.trans accepted)
  refine ⟨merges.fits, ?_⟩
  rw [← Option.some.inj kept]
  exact wellFormed_foldl_reconcile (wellFormed_new _) [sketch, other]

end

theorem Tended.unfoldTo {sketch unfolded : FoldSketch} {targetLevel : ℕ}
    (tended : Tended xxh rows fullCols sketch)
    (accepted : FoldSketch.unfoldTo xxh query sketch targetLevel = some unfolded) :
    Tended xxh rows fullCols unfolded := by
  have kept := accepted
  unfold FoldSketch.unfoldTo at kept
  split at kept
  case isFalse => exact absurd kept (Option.some_ne_none _).symm
  rename_i low
  obtain ⟨result, run, holds⟩ := tended.fits.holds.unfoldTo xxh query low
  obtain rfl := Option.some.inj (run.symm.trans accepted)
  refine ⟨holds.fits, ?_⟩
  split at kept
  · rw [← Option.some.inj kept]
    exact tended.wellFormed
  · rw [← Option.some.inj kept]
    exact wellFormed_reconcileHeapFrom (wellFormed_new _) sketch

theorem Tended.hierarchicalMerge {sketches : List FoldSketch} {merged : FoldSketch}
    (tended : ∀ sketch ∈ sketches, Tended xxh rows fullCols sketch)
    (accepted : FoldSketch.hierarchicalMerge xxh query sketches = some merged) :
    Tended xxh rows fullCols merged := by
  have nonempty : sketches ≠ [] := by
    rintro rfl
    exact absurd accepted (Option.some_ne_none _).symm
  obtain ⟨result, run, holds⟩ := hierarchicalMerge_holds xxh query nonempty
    fun sketch member => (tended sketch member).fits
  obtain rfl := Option.some.inj (run.symm.trans accepted)
  refine ⟨holds.fits, ?_⟩
  cases sketches with
  | nil => exact absurd rfl nonempty
  | cons first others =>
    cases others with
    | nil => exact ((tended first List.mem_cons_self).unfoldTo accepted).wellFormed
    | cons second rest =>
      unfold FoldSketch.hierarchicalMerge at accepted
      obtain ⟨scattered, scatteredEq, reconciled⟩ := Option.bind_eq_some_iff.mp accepted
      rw [← Option.some.inj reconciled]
      refine wellFormed_foldl_reconcile ?_ _
      rw [heap_foldlM_scatterChecked scatteredEq]
      exact wellFormed_new _

theorem Tended.clear {sketch : FoldSketch} (tended : Tended xxh rows fullCols sketch) :
    Tended xxh rows fullCols (FoldSketch.clear sketch) := by
  refine ⟨?_, wellFormed_new _⟩
  rw [clear_eq_emptyAt tended.fits.placed, tended.fits.rowsEq, tended.fits.colsEq]
  exact (tended.fits.holds.emptyAt le_rfl sketch.heap.k).fits

theorem Reached.tended (inserts : InsertsAs hasher deltaOf feed) (offers : Offers xxh feed)
    {sketch : FoldSketch} (reached : Reached xxh query feed rows fullCols sketch) :
    Tended xxh rows fullCols sketch := by
  induction reached with
  | new accepted => exact Tended.of_new accepted
  | @insert sketch _ key delta tended =>
    refine ⟨(tended.fits.holds.insert inserts key delta).fits, ?_⟩
    obtain ⟨count, offered⟩ := offers sketch key delta
    rw [offered, update_eq_updateHeapItem]
    exact tended.wellFormed.updateHeapItem _ _
  | mergeSameLevel _ _ accepted tended otherTended => exact (tended.mergeSameLevel otherTended accepted).1
  | unfoldMerge _ _ accepted tended otherTended => exact tended.unfoldMerge otherTended accepted
  | unfoldTo _ accepted tended => exact tended.unfoldTo accepted
  | hierarchicalMerge _ accepted tended => exact Tended.hierarchicalMerge tended accepted
  | clear _ tended => exact tended.clear

/-! ### Fresh counts -/

/-- Every item of the heap carries the estimate of its key. -/
def Fresh (query : FoldSketch → DataInput → ℤ) (sketch : FoldSketch) : Prop :=
  ∀ item ∈ sketch.heap.heap, item.count = query sketch (heapItemToSketchInput item.key)

/-- The estimate of a heap key over the added counters of two sketches. -/
def combined (hasher : SketchHasher) (estimate : DataInput → (ℕ → ℤ) → ℤ)
    (sketch other : FoldSketch) (key : HeapItem) : ℤ :=
  estimate (heapItemToSketchInput key) fun row =>
    rowCount hasher sketch (heapItemToSketchInput key) row +
      rowCount hasher other (heapItemToSketchInput key) row

/-- A key that no offered key equals already carries its estimate. -/
def Current (estimate : HeapItem → ℤ) (heap : HHHeap) (offered : List HeapItem) : Prop :=
  ∀ item ∈ heap.heap, Untouched offered item → item.count = estimate item.key

/-- A key that no offered key equals already carries its estimate, or the offers push it out. -/
def CurrentOrOut (xxh : XxHash3) (estimate : HeapItem → ℤ) (heap : HHHeap)
    (offered : List HeapItem) : Prop :=
  ∀ item ∈ heap.heap, Untouched offered item →
    item.count = estimate item.key ∨ item ∉ (offerAll xxh estimate heap offered).heap

/-- What a query reads: the estimate over what the rows answer. -/
def Reads (hasher : SketchHasher) (query : FoldSketch → DataInput → ℤ) (rows : ℕ)
    (estimate : DataInput → (ℕ → ℤ) → ℤ) : Prop :=
  (∀ sketch : FoldSketch, sketch.rows = rows → ∀ key,
      query sketch key = estimate key (rowCount hasher sketch key)) ∧
    ∀ key valueOf valueOf', (∀ row < rows, valueOf row = valueOf' row) →
      estimate key valueOf = estimate key valueOf'

variable {estimate : DataInput → (ℕ → ℤ) → ℤ}

theorem Reads.query_sameGrid (reads : Reads hasher query rows estimate) {sketch other : FoldSketch}
    (rowsEq : sketch.rows = rows) (same : SameGrid sketch other) :
    query other = query sketch := by
  funext key
  rw [reads.1 sketch rowsEq, reads.1 other (same.rows ▸ rowsEq)]
  refine congrArg (estimate key) (funext fun row => ?_)
  simp only [rowCount, fullColFor, cellAt, foldColOf, same.foldCols, same.fullCols, same.cells]

theorem Reads.heap_reconcileHeapFrom (reads : Reads hasher query rows estimate)
    {sketch : FoldSketch} (rowsEq : sketch.rows = rows) (source : FoldSketch) :
    (reconcileHeapFrom xxh query sketch source).heap =
      offerAll xxh (fun key => query sketch (heapItemToSketchInput key)) sketch.heap
        (keys source.heap) := by
  unfold reconcileHeapFrom keys
  generalize source.heap.heap = items
  induction items generalizing sketch with
  | nil => rfl
  | cons item rest hypothesis =>
    have same : SameGrid sketch (offerItem xxh query sketch item) := ⟨rfl, rfl, rfl, rfl, rfl⟩
    have offered : (offerItem xxh query sketch item).heap =
        (updateHeapItem xxh sketch.heap item.key
          (query sketch (heapItemToSketchInput item.key))).1 := by
      show (update xxh sketch.heap _ _).1 = _
      rw [update_eq_updateHeapItem, inputToOwned_heapItemToSketchInput]
    rw [List.foldl_cons, hypothesis (same.rows ▸ rowsEq),
      reads.query_sameGrid rowsEq same, offered]
    rfl

variable (reads : Reads hasher query rows estimate) {sketch other merged : FoldSketch}
  (tended : Tended xxh rows fullCols sketch) (otherTended : Tended xxh rows fullCols other)
  (accepted : FoldSketch.mergeSameLevel xxh query sketch other = some merged)

include reads tended otherTended accepted

theorem Reads.query_merged (key : HeapItem) :
    query merged (heapItemToSketchInput key) = combined hasher estimate sketch other key := by
  obtain ⟨mergedTended, added⟩ := tended.mergeSameLevel otherTended accepted
  rw [reads.1 merged mergedTended.fits.rowsEq]
  refine reads.2 _ _ _ fun row rowInside => ?_
  have column : ∀ {some : FoldSketch}, some.fullCols = fullCols →
      rowCount hasher some (heapItemToSketchInput key) row = held some row
        (lower32Col (hasher.hash64Seeded row (heapItemToSketchInput key)) fullCols % 65536) := by
    rintro some rfl
    rfl
  rw [column mergedTended.fits.colsEq, column tended.fits.colsEq, column otherTended.fits.colsEq]
  exact added row rowInside _

/-- The merged heap is the receiving one after the keys of the other were offered with the estimates
over both sketches. -/
theorem Reads.heap_merged :
    merged.heap = offerAll xxh (combined hasher estimate sketch other) sketch.heap
      (keys other.heap) := by
  have queried := reads.query_merged tended otherTended accepted
  unfold FoldSketch.mergeSameLevel at accepted
  split at accepted
  case isFalse => exact absurd accepted (Option.some_ne_none _).symm
  obtain ⟨zipped, zippedEq⟩ : ∃ zipped : FoldSketch, zipped =
    { sketch with cells := List.zipWith FoldCell.mergeFrom sketch.cells other.cells } := ⟨_, rfl⟩
  rw [← zippedEq] at accepted
  have rowsEq : zipped.rows = rows := by
    rw [zippedEq]
    exact tended.fits.rowsEq
  have heapEq : zipped.heap = sketch.heap := by
    rw [zippedEq]
  have same : SameGrid zipped merged := by
    rw [← Option.some.inj accepted]
    exact sameGrid_reconcileHeapFrom xxh query zipped other
  have estimates : (fun key => query zipped (heapItemToSketchInput key)) =
      combined hasher estimate sketch other := by
    funext key
    rw [← queried key, reads.query_sameGrid rowsEq same]
  rw [← Option.some.inj accepted, reads.heap_reconcileHeapFrom rowsEq other, heapEq, estimates]

/-- The counts are fresh after a merge exactly where those of the keys are that only the receiving
heap holds, unless they are pushed out. -/
theorem Reads.fresh_iff :
    (Fresh query merged ↔ CurrentOrOut xxh (combined hasher estimate sketch other) sketch.heap
      (keys other.heap)) ∧
    (sketch.heap.heap.length + other.heap.heap.length ≤ sketch.heap.k →
      (Fresh query merged ↔ Current (combined hasher estimate sketch other) sketch.heap
        (keys other.heap))) := by
  have general := offerAll_fresh_iff (combined hasher estimate sketch other) tended.wellFormed
    (keys other.heap)
  rw [← reads.heap_merged tended otherTended accepted] at general
  have asked : Fresh query merged ↔
      ∀ item ∈ merged.heap.heap, item.count = combined hasher estimate sketch other item.key :=
    forall₂_congr fun item _ => by rw [reads.query_merged tended otherTended accepted]
  rw [asked, general]
  refine ⟨?_, fun room => ?_⟩
  · refine forall₃_congr fun item _ _ => ?_
    rw [← reads.heap_merged tended otherTended accepted, or_comm, imp_iff_not_or]
  · refine forall₃_congr fun item member untouched => ?_
    have stays : item ∈ merged.heap.heap := by
      rw [reads.heap_merged tended otherTended accepted]
      refine mem_offerAll_of_room tended.wellFormed ?_ member untouched
      rw [keys, List.length_map]
      exact room
    exact ⟨fun current => current stays, fun current _ => current⟩

end Invariant

end FoldSketch

/-! ### Both sketches -/

open FoldSketch HHHeap

theorem FoldCMS.reads (hasher : SketchHasher) (rows : ℕ) :
    Reads hasher (FoldCMS.query hasher) rows (FoldCMS.minimumOf rows) :=
  ⟨FoldCMS.query_eq_minimumOf hasher, FoldCMS.minimumOf_congr rows⟩

theorem FoldCS.reads (hasher : SketchHasher) (rows : ℕ) :
    Reads hasher (FoldCS.query hasher) rows (FoldCS.medianOf hasher rows) :=
  ⟨FoldCS.query_eq_medianOf hasher, FoldCS.medianOf_congr hasher rows⟩

/-- After a merge of two reachable sketches every heap item carries the estimate of its key exactly
where every key that only the receiving heap holds does already, over the added counters, or is
pushed out; where both heaps fit side by side, none is pushed out. -/
theorem fold_merge_fresh_iff (hasher : SketchHasher) (xxh : XxHash3) (rows fullCols : ℕ) :
    (∀ sketch other merged : FoldCMS,
      Reached xxh (FoldCMS.query hasher) (FoldCMS.insert hasher xxh) rows fullCols sketch →
      Reached xxh (FoldCMS.query hasher) (FoldCMS.insert hasher xxh) rows fullCols other →
      FoldCMS.mergeSameLevel hasher xxh sketch other = some merged →
        (Fresh (FoldCMS.query hasher) merged ↔ CurrentOrOut xxh
          (combined hasher (FoldCMS.minimumOf rows) sketch other) sketch.heap (keys other.heap)) ∧
        (sketch.heap.heap.length + other.heap.heap.length ≤ sketch.heap.k →
          (Fresh (FoldCMS.query hasher) merged ↔ Current
            (combined hasher (FoldCMS.minimumOf rows) sketch other) sketch.heap
            (keys other.heap)))) ∧
    ∀ sketch other merged : FoldCS,
      Reached xxh (FoldCS.query hasher) (FoldCS.insert hasher xxh) rows fullCols sketch →
      Reached xxh (FoldCS.query hasher) (FoldCS.insert hasher xxh) rows fullCols other →
      FoldCS.mergeSameLevel hasher xxh sketch other = some merged →
        (Fresh (FoldCS.query hasher) merged ↔ CurrentOrOut xxh
          (combined hasher (FoldCS.medianOf hasher rows) sketch other) sketch.heap
          (keys other.heap)) ∧
        (sketch.heap.heap.length + other.heap.heap.length ≤ sketch.heap.k →
          (Fresh (FoldCS.query hasher) merged ↔ Current
            (combined hasher (FoldCS.medianOf hasher rows) sketch other) sketch.heap
            (keys other.heap))) := by
  refine ⟨fun sketch other merged reached otherReached accepted => ?_,
    fun sketch other merged reached otherReached accepted => ?_⟩
  · have offers : Offers xxh (FoldCMS.insert hasher xxh) := fun _ _ _ => ⟨_, rfl⟩
    exact (FoldCMS.reads hasher rows).fresh_iff
      (reached.tended (FoldCMS.insertsAs hasher xxh) offers)
      (otherReached.tended (FoldCMS.insertsAs hasher xxh) offers) accepted
  · have offers : Offers xxh (FoldCS.insert hasher xxh) := fun _ _ _ => ⟨_, rfl⟩
    exact (FoldCS.reads hasher rows).fresh_iff
      (reached.tended (FoldCS.insertsAs hasher xxh) offers)
      (otherReached.tended (FoldCS.insertsAs hasher xxh) offers) accepted

/-- Sketches of one cell, each fed one key, where all keys share the counter. -/
def oneCell (feed : FoldSketch → DataInput → ℤ → FoldSketch) (key : DataInput) : FoldSketch :=
  feed (emptyAt 1 1 0 4) key 1

theorem reached_oneCell {xxh : XxHash3} {query : FoldSketch → DataInput → ℤ}
    {feed : FoldSketch → DataInput → ℤ → FoldSketch} (key : DataInput) :
    Reached xxh query feed 1 1 (oneCell feed key) :=
  Reached.insert (Reached.new (show FoldSketch.new 1 1 0 4 = some (emptyAt 1 1 0 4) from rfl)) key 1

/-- Where the keys of both heaps are the same, the counts are fresh. -/
theorem fold_merge_fresh_iff_same :
    ∃ merged, FoldCMS.mergeSameLevel collidingHasher plainXxHash
        (oneCell (FoldCMS.insert collidingHasher plainXxHash) (.u64 1))
        (oneCell (FoldCMS.insert collidingHasher plainXxHash) (.u64 1)) = some merged ∧
      Fresh (FoldCMS.query collidingHasher) merged := by
  refine ⟨_, rfl, ?_⟩
  have both := (fold_merge_fresh_iff collidingHasher plainXxHash 1 1).1 _ _ _
    (reached_oneCell (.u64 1)) (reached_oneCell (.u64 1)) rfl
  refine (both.2 (by decide +kernel)).mpr fun item member untouched => ?_
  have residents : (oneCell (FoldCMS.insert collidingHasher plainXxHash) (.u64 1)).heap.heap =
      [⟨.u64 1, 1⟩] := by decide +kernel
  rw [residents] at member
  obtain rfl := List.mem_singleton.mp member
  rcases untouched with nan | absent
  · exact absurd nan (by decide)
  · exact absurd (by decide +kernel) absent

/-- A key in the receiving heap only keeps the count it had. -/
theorem fold_merge_leaves_stale :
    (∃ merged, FoldCMS.mergeSameLevel collidingHasher plainXxHash
        (oneCell (FoldCMS.insert collidingHasher plainXxHash) (.u64 1))
        (oneCell (FoldCMS.insert collidingHasher plainXxHash) (.u64 2)) = some merged ∧
      ⟨.u64 1, 1⟩ ∈ merged.heap.heap ∧ FoldCMS.query collidingHasher merged (.u64 1) = 2) ∧
    ∃ merged, FoldCS.mergeSameLevel collidingHasher plainXxHash
        (oneCell (FoldCS.insert collidingHasher plainXxHash) (.u64 1))
        (oneCell (FoldCS.insert collidingHasher plainXxHash) (.u64 2)) = some merged ∧
      ⟨.u64 1, 1⟩ ∈ merged.heap.heap ∧ FoldCS.query collidingHasher merged (.u64 1) = 2 :=
  ⟨⟨_, rfl, by decide +kernel, by decide +kernel⟩, _, rfl, by decide +kernel, by decide +kernel⟩

end AsapSketchlib
