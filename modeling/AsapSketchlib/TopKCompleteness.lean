/-
This file proves that the Count-Min heaps report every heavy key. Over every stream of inserts with
non-negative counts, on both paths and in the folding sketch, the estimates of all keys only grow
and cover their weights, so the heap that is offered each key with its estimate stays complete.
-/

import AsapSketchlib.CountMinHeap

namespace AsapSketchlib

open HHHeap FoldSketch

/-! ### Count-Min with a heap -/

namespace CMSHeap

variable {path : UpdatePath} {xxh : XxHash3} {kind : Storage} {numRows numCols topK : ℕ}

/-- A fresh sketch after a stream of inserts, the latest first, of keys other than NaNs. A single
observation is an insert of one. -/
inductive Fed (path : UpdatePath) (xxh : XxHash3) (kind : Storage) (numRows numCols topK : ℕ) :
    List (DataInput × ℤ) → CMSHeap → Prop
  | new : Fed path xxh kind numRows numCols topK [] (new kind numRows numCols topK)
  | insertMany {stream : List (DataInput × ℤ)} {sketch after : CMSHeap}
    (fed : Fed path xxh kind numRows numCols topK stream sketch) (key : DataInput) (many : ℤ)
    (number : (inputToOwned key).isNan = false) (nonnegative : 0 ≤ many)
    (inserting : CMSHeap.insertMany path xxh sketch key many = some after) :
    Fed path xxh kind numRows numCols topK ((key, many) :: stream) after

def readRows (numRows : ℕ) (valueOf : ℕ → ℤ) : ℤ :=
  runningMin valueOf (List.range' 1 (numRows - 1)) (valueOf 0)

def columnOf (path : UpdatePath) (numRows numCols : ℕ) (key : DataInput) : ℕ → ℕ :=
  (path.address numRows numCols key).column

theorem estimate_of_sums (positive : 0 < numCols) {stream : List (DataInput × ℤ)}
    {cms : Stored.CountMin}
    (sums : UpdateTree.Sums numRows numCols Stored.CountMin.counts
      (countMinTerm path numRows numCols) stream cms) (key : DataInput) :
    Stored.CountMin.estimate path cms key =
      if path.compatible numRows numCols = true ∧ 0 < numRows then
        some (readRows numRows (collected (columnOf path numRows numCols) stream key))
      else none := by
  obtain ⟨shaped, cells⟩ := sums
  rw [Stored.CountMin.estimate_eq shaped positive]
  by_cases possible : path.compatible numRows numCols = true ∧ 0 < numRows
  · have counters : ∀ row < numRows, Stored.CountMin.addressed path cms numRows numCols key row =
        collected (columnOf path numRows numCols) stream key row := by
      intro row inside
      rw [Stored.CountMin.addressed,
        cells row inside _ (path.address_lt numRows positive key row)]
      rfl
    rw [if_pos possible, if_pos possible, readRows, counters 0 possible.2]
    refine congrArg some (runningMin_congr _ fun row member => counters row ?_)
    obtain ⟨-, inside⟩ := List.mem_range'_1.mp member
    rwa [Nat.add_sub_cancel' possible.2] at inside
  · rw [if_neg possible, if_neg possible]

/-- What holds after a stream. -/
structure Sound (path : UpdatePath) (xxh : XxHash3) (numRows numCols topK : ℕ)
    (stream : List (DataInput × ℤ)) (sketch : CMSHeap) : Prop where
  nonnegative : Nonnegative stream
  sums : UpdateTree.Sums numRows numCols Stored.CountMin.counts
    (countMinTerm path numRows numCols) stream sketch.cms
  hashed : stream ≠ [] → path.compatible numRows numCols = true ∧ 0 < numRows
  watched : Watched xxh topK (ownedWeight stream)
    (reading (columnOf path numRows numCols) (readRows numRows) stream) (ownedInputs stream)
    sketch.heap

section

variable (positive : 0 < numCols) (byKey : path.ByKey numRows numCols)

include positive byKey

theorem Fed.sound {stream : List (DataInput × ℤ)} {sketch : CMSHeap}
    (fed : Fed path xxh kind numRows numCols topK stream sketch) :
    Sound path xxh numRows numCols topK stream sketch := by
  have columns : ∀ left right, inputToOwned left = inputToOwned right →
      columnOf path numRows numCols left = columnOf path numRows numCols right :=
    fun left right same => congrArg RowAddress.column (byKey left right same)
  have linear := Stored.CountMin.linear path kind numRows positive
  induction fed with
  | new =>
    exact ⟨fun _ member => absurd member List.not_mem_nil,
      ⟨linear.start_shaped, fun row _ col _ => linear.start_zero row col⟩,
      fun nonempty => absurd rfl nonempty, watched_new topK⟩
  | @insertMany stream sketch after fed key many number nonnegative inserting sound =>
    have streamNonnegative : Nonnegative ((key, many) :: stream) :=
      List.forall_mem_cons.mpr ⟨nonnegative, sound.nonnegative⟩
    obtain ⟨cms, insertEq, rest⟩ := Option.bind_eq_some_iff.mp inserting
    obtain ⟨est, estimating, rfl⟩ := Option.map_eq_some_iff.mp rest
    have sums := linear.insert_sums sound.sums insertEq
    rw [estimate_of_sums positive sums] at estimating
    split at estimating
    case isFalse => exact absurd estimating (Option.some_ne_none est).symm
    rename_i possible
    obtain rfl := Option.some.inj estimating
    exact ⟨streamNonnegative, sums, fun _ => possible, sound.watched.update key number
      ((rowReading_countMin numRows).step columns streamNonnegative trivial)⟩

theorem Fed.exists_insert (compatible : path.compatible numRows numCols = true)
    (nonempty : 0 < numRows) {stream : List (DataInput × ℤ)} {sketch : CMSHeap}
    (fed : Fed path xxh kind numRows numCols topK stream sketch) (key : DataInput) (many : ℤ) :
    ∃ after, CMSHeap.insertMany path xxh sketch key many = some after := by
  have sums := (fed.sound positive byKey).sums
  obtain ⟨cms, inserting, shaped, cells⟩ :=
    (Stored.CountMin.linear path kind numRows positive).insert_spec sketch.cms key many sums.1
      compatible
  have inserted : UpdateTree.Sums numRows numCols Stored.CountMin.counts
      (countMinTerm path numRows numCols) ((key, many) :: stream) cms :=
    (Stored.CountMin.linear path kind numRows positive).insert_sums sums inserting
  have estimating := estimate_of_sums positive inserted key
  rw [if_pos ⟨compatible, nonempty⟩] at estimating
  rw [CMSHeap.insertMany, inserting, Option.bind_some, estimating]
  exact ⟨_, rfl⟩

theorem Fed.reports {stream : List (DataInput × ℤ)} {sketch : CMSHeap}
    (fed : Fed path xxh kind numRows numCols topK stream sketch) :
    Reports (ownedWeight stream) (ownedInputs stream)
      (fun key => estimate path sketch (heapItemToSketchInput key)) topK sketch.heap := by
  have sound := fed.sound positive byKey
  refine reports_of_watched sound.watched sound.nonnegative fun item member => ?_
  have inserted := sound.watched.tracks.known item.key (List.mem_map_of_mem member)
  have nonempty : stream ≠ [] := fun empty => by
    rw [empty] at inserted
    exact List.not_mem_nil inserted
  rw [estimate, estimate_of_sums positive sound.sums, if_pos (sound.hashed nonempty)]
  rfl

end

/-! ### Merging -/

theorem reconcile_eq {cms : Stored.CountMin} {estimateOf : HeapItem → ℤ}
    {candidateKeys : List HeapItem}
    (estimates : ∀ key ∈ candidateKeys,
      Stored.CountMin.estimate path cms (heapItemToSketchInput key) = some (estimateOf key))
    (heap : HHHeap) :
    reconcile path xxh cms heap candidateKeys =
      some (candidateKeys.foldl (fun heap key =>
        (HHHeap.update xxh heap (heapItemToSketchInput key) (estimateOf key)).1) heap) := by
  unfold reconcile
  induction candidateKeys generalizing heap with
  | nil => rfl
  | cons key rest hypothesis =>
    obtain ⟨first, others⟩ := List.forall_mem_cons.mp estimates
    rw [List.foldlM_cons, first]
    exact hypothesis others _

theorem estimates_of_reconcile {cms : Stored.CountMin} {candidateKeys : List HeapItem}
    {heap after : HHHeap} (reconciling : reconcile path xxh cms heap candidateKeys = some after) :
    ∀ key ∈ candidateKeys,
      ∃ est, Stored.CountMin.estimate path cms (heapItemToSketchInput key) = some est := by
  unfold reconcile at reconciling
  induction candidateKeys generalizing heap with
  | nil => exact fun _ member => absurd member List.not_mem_nil
  | cons key rest hypothesis =>
    rw [List.foldlM_cons] at reconciling
    obtain ⟨offered, offering, later⟩ := Option.bind_eq_some_iff.mp reconciling
    obtain ⟨est, estimating, -⟩ := Option.map_eq_some_iff.mp offering
    exact List.forall_mem_cons.mpr ⟨⟨est, estimating⟩, hypothesis later⟩

def candidates (sketch other : CMSHeap) : List HeapItem := keys sketch.heap ++ keys other.heap

/-- What a merge leaves: the merged counters, and the largest merged estimates. -/
structure MergedTop (path : UpdatePath) (sketch other merged : CMSHeap) : Prop where
  counters : Stored.CountMin.merge sketch.cms other.cms = some merged.cms
  capacity : merged.heap.k = sketch.heap.k
  largest : ∃ estimateOf : HeapItem → ℤ,
    (∀ key ∈ candidates sketch other,
      estimate path merged (heapItemToSketchInput key) = some (estimateOf key)) ∧
    HoldsLargest estimateOf (candidates sketch other) merged.heap

def estimateOf (path : UpdatePath) (cms : Stored.CountMin) (key : HeapItem) : ℤ :=
  (Stored.CountMin.estimate path cms (heapItemToSketchInput key)).getD 0

theorem holdsLargest_reverse {estimateOf : HeapItem → ℤ} {offered : List HeapItem} {heap : HHHeap}
    (holds : HoldsLargest estimateOf (offered.reverse ++ []) heap) :
    HoldsLargest estimateOf offered heap := by
  rw [List.append_nil] at holds
  have size : offered.reverse.dedup.length = offered.dedup.length :=
    (List.Perm.dedup (List.reverse_perm offered)).length_eq
  exact ⟨holds.distinct, fun key member => List.mem_reverse.mp (holds.known key member),
    holds.counted, size ▸ holds.size,
    fun key member => holds.largest key (List.mem_reverse.mpr member)⟩

theorem merge_top {sketch other merged : CMSHeap}
    (numbers : ∀ key ∈ candidates sketch other, key.isNan = false)
    (merging : merge path xxh sketch other = some merged) :
    MergedTop path sketch other merged := by
  obtain ⟨cms, counters, rest⟩ := Option.bind_eq_some_iff.mp merging
  obtain ⟨heap, reconciling, rfl⟩ := Option.map_eq_some_iff.mp rest
  have asked : reconcile path xxh cms (HHHeap.clear sketch.heap) (candidates sketch other) =
      some heap := reconciling
  have estimates : ∀ key ∈ candidates sketch other,
      Stored.CountMin.estimate path cms (heapItemToSketchInput key) =
        some (estimateOf path cms key) := by
    intro key member
    obtain ⟨est, estimating⟩ := estimates_of_reconcile asked key member
    rw [estimateOf, estimating, Option.getD_some]
  have start : Watched xxh sketch.heap.k (estimateOf path cms) (estimateOf path cms) []
      (HHHeap.clear sketch.heap) := watched_new sketch.heap.k
  have watched := start.updateAll numbers
  rw [reconcile_eq estimates] at asked
  obtain rfl := Option.some.inj asked
  exact ⟨counters, watched.kept.capacity, estimateOf path cms, estimates,
    holdsLargest_reverse watched.holdsLargest⟩

theorem exists_merge (positive : 0 < numCols) (byKey : path.ByKey numRows numCols) {topK' : ℕ}
    {stream stream' : List (DataInput × ℤ)} {sketch other : CMSHeap}
    (fed : Fed path xxh kind numRows numCols topK stream sketch)
    (otherFed : Fed path xxh kind numRows numCols topK' stream' other) :
    ∃ merged, merge path xxh sketch other = some merged := by
  have sound := fed.sound positive byKey
  have otherSound := otherFed.sound positive byKey
  obtain ⟨cms, counters, shaped, -⟩ :=
    Stored.CountMin.merge_spec sound.sums.1 otherSound.sums.1
  have possible : ∀ key ∈ candidates sketch other,
      path.compatible numRows numCols = true ∧ 0 < numRows := by
    intro key member
    rcases List.mem_append.mp member with mine | theirs
    · refine sound.hashed fun empty => ?_
      have inserted := sound.watched.tracks.known key mine
      rw [empty] at inserted
      exact List.not_mem_nil inserted
    · refine otherSound.hashed fun empty => ?_
      have inserted := otherSound.watched.tracks.known key theirs
      rw [empty] at inserted
      exact List.not_mem_nil inserted
  have estimates : ∀ key ∈ candidates sketch other,
      Stored.CountMin.estimate path cms (heapItemToSketchInput key) =
        some (estimateOf path cms key) := by
    intro key member
    rw [estimateOf, Stored.CountMin.estimate_eq shaped positive, if_pos (possible key member)]
    rfl
  have reconciled : reconcile path xxh cms (HHHeap.clear sketch.heap) (candidates sketch other) =
      some _ := reconcile_eq estimates _
  exact ⟨⟨cms, _⟩, Option.bind_eq_some_iff.mpr
    ⟨cms, counters, Option.map_eq_some_iff.mpr ⟨_, reconciled, rfl⟩⟩⟩

end CMSHeap

/-! ### The folding sketch -/

namespace FoldCMS

variable {hasher : SketchHasher} {xxh : XxHash3} {numRows fullCols foldLevel topK : ℕ}

/-- A fresh sketch after a stream of inserts, the latest first, of keys other than NaNs, whose
weights fit `i64`. -/
inductive Fed (hasher : SketchHasher) (xxh : XxHash3) (numRows fullCols foldLevel topK : ℕ) :
    List (DataInput × ℤ) → FoldCMS → Prop
  | new {sketch : FoldCMS} (accepted : new numRows fullCols foldLevel topK = some sketch) :
    Fed hasher xxh numRows fullCols foldLevel topK [] sketch
  | insert {stream : List (DataInput × ℤ)} {sketch : FoldCMS}
    (fed : Fed hasher xxh numRows fullCols foldLevel topK stream sketch) (key : DataInput)
    (delta : ℤ) (number : (inputToOwned key).isNan = false) (nonnegative : 0 ≤ delta)
    (fits : ownedWeight ((key, delta) :: stream) (inputToOwned key) ≤ i64Max) :
    Fed hasher xxh numRows fullCols foldLevel topK ((key, delta) :: stream)
      (insert hasher xxh sketch key delta)

def tagOf (hasher : SketchHasher) (fullCols : ℕ) (key : DataInput) (row : ℕ) : ℕ :=
  lower32Col (hasher.hash64Seeded row key) fullCols % 65536

def readRows (numRows : ℕ) (valueOf : ℕ → ℤ) : ℤ :=
  runningMin valueOf (List.range numRows) i64Max

/-- What holds after a stream. -/
structure Sound (hasher : SketchHasher) (xxh : XxHash3) (numRows fullCols topK : ℕ)
    (stream : List (DataInput × ℤ)) (sketch : FoldCMS) : Prop where
  nonnegative : Nonnegative stream
  rows : sketch.rows = numRows
  cols : sketch.fullCols = fullCols
  shaped : FoldSketch.Shaped sketch
  counts : ∀ key, ∀ row < numRows, FoldSketch.rowCount hasher sketch key row =
    collected (tagOf hasher fullCols) stream key row
  watched : Watched xxh topK (ownedWeight stream)
    (reading (tagOf hasher fullCols) (readRows numRows) stream) (ownedInputs stream) sketch.heap

theorem Sound.query_eq {stream : List (DataInput × ℤ)} {sketch : FoldCMS}
    (rows : sketch.rows = numRows)
    (counts : ∀ key, ∀ row < numRows, rowCount hasher sketch key row =
      collected (tagOf hasher fullCols) stream key row) (key : DataInput) :
    query hasher sketch key = readRows numRows (collected (tagOf hasher fullCols) stream key) := by
  unfold query readRows
  rw [rows]
  exact runningMin_congr _ fun row member => counts key row (List.mem_range.mp member)

theorem rowCount_insertCells {stream : List (DataInput × ℤ)} {sketch : FoldCMS}
    (shaped : FoldSketch.Shaped sketch) (rows : sketch.rows = numRows)
    (cols : sketch.fullCols = fullCols)
    (counts : ∀ key, ∀ row < numRows, rowCount hasher sketch key row =
      collected (tagOf hasher fullCols) stream key row) (key : DataInput) (delta : ℤ)
    (asked : DataInput) {row : ℕ} (inside : row < numRows) :
    rowCount hasher (insertCells hasher sketch key fun _ => delta) asked row =
      collected (tagOf hasher fullCols) ((key, delta) :: stream) asked row := by
  have tag : ∀ other, fullColFor hasher sketch row other =
      tagOf hasher fullCols other row := by
    intro other
    rw [fullColFor, cols]
    rfl
  have before := counts asked row inside
  have step : rowCount hasher (insertCells hasher sketch key fun _ => delta)
      asked row = rowCount hasher sketch asked row +
        if fullColFor hasher sketch row key =
          fullColFor hasher sketch row asked then delta else 0 :=
    query_insertCells shaped key (fun _ => delta) (rows.symm ▸ inside) _
  rw [collected_cons, add_comm, ← before, ← tag key, ← tag asked]
  exact step

variable (byKey : hasher.ByKey) {stream : List (DataInput × ℤ)} {sketch : FoldCMS}
  (fed : Fed hasher xxh numRows fullCols foldLevel topK stream sketch)

include byKey fed

theorem Fed.sound : Sound hasher xxh numRows fullCols topK stream sketch := by
  have tags : ∀ left right, inputToOwned left = inputToOwned right →
      tagOf hasher fullCols left = tagOf hasher fullCols right := by
    intro left right same
    funext row
    rw [tagOf, tagOf, byKey row left right same]
  induction fed with
  | @new sketch accepted =>
    obtain ⟨rows, cols, -, shaped, empty⟩ := new_eq_some accepted
    have heapEq : sketch.heap = HHHeap.new topK := by
      unfold FoldCMS.new FoldSketch.new at accepted
      split at accepted
      · split at accepted
        · rw [← Option.some.inj accepted]
        · exact absurd accepted (Option.some_ne_none sketch).symm
      · exact absurd accepted (Option.some_ne_none sketch).symm
    refine ⟨fun _ member => absurd member List.not_mem_nil, rows, cols, shaped,
      fun key row _ => ?_, heapEq ▸ watched_new topK⟩
    rw [rowCount, empty]
    rfl
  | @insert stream sketch fed key delta number nonnegative fits sound =>
    have streamNonnegative : Nonnegative ((key, delta) :: stream) :=
      List.forall_mem_cons.mpr ⟨nonnegative, sound.nonnegative⟩
    have counts : ∀ asked, ∀ row < numRows,
        rowCount hasher (insertCells hasher sketch key fun _ => delta) asked
          row = collected (tagOf hasher fullCols) ((key, delta) :: stream) asked row :=
      fun asked row inside =>
        rowCount_insertCells sound.shaped sound.rows sound.cols sound.counts key delta asked
          inside
    have inserted : FoldSketch.Shaped
        (insertCells hasher sketch key fun _ => delta) :=
      sound.shaped.insertCells key fun _ => delta
    have rows : (insertCells hasher sketch key fun _ => delta).rows = numRows :=
      sound.rows
    have estimating := Sound.query_eq rows counts key
    refine ⟨streamNonnegative, sound.rows, sound.cols, ⟨inserted.sized, inserted.folded⟩, counts,
      ?_⟩
    show Watched xxh topK _ _ _ (HHHeap.update xxh sketch.heap key
      (query hasher (insertCells hasher sketch key fun _ => delta) key)).1
    rw [estimating]
    exact sound.watched.update key number
      ((rowReading_fold numRows).step tags streamNonnegative fits)

theorem Fed.reports :
    Reports (ownedWeight stream) (ownedInputs stream)
      (fun key => some (query hasher sketch (heapItemToSketchInput key))) topK sketch.heap := by
  have sound := fed.sound byKey
  refine reports_of_watched sound.watched sound.nonnegative fun item _ => ?_
  rw [Sound.query_eq sound.rows sound.counts]
  rfl

end FoldCMS

/-! ### All Count-Min heaps -/

/-- Every heap of a Count-Min sketch and of a folding one reports its stream, for every hash of
keys, and merging two Count-Min heaps keeps the largest merged estimates of their keys. -/
theorem top_k_complete (xxh : XxHash3) :
    (∀ (path : UpdatePath) (kind : Storage) (numRows numCols topK : ℕ), 0 < numCols →
      path.ByKey numRows numCols → ∀ stream sketch,
        CMSHeap.Fed path xxh kind numRows numCols topK stream sketch →
          Reports (ownedWeight stream) (ownedInputs stream)
            (fun key => CMSHeap.estimate path sketch (heapItemToSketchInput key)) topK
            sketch.heap) ∧
    (∀ (hasher : SketchHasher) (numRows fullCols foldLevel topK : ℕ), hasher.ByKey →
      ∀ stream sketch, FoldCMS.Fed hasher xxh numRows fullCols foldLevel topK stream sketch →
        Reports (ownedWeight stream) (ownedInputs stream)
          (fun key => some (FoldCMS.query hasher sketch (heapItemToSketchInput key))) topK
          sketch.heap) ∧
    (∀ (path : UpdatePath) (kind : Storage) (numRows numCols topK topK' : ℕ), 0 < numCols →
      path.ByKey numRows numCols → ∀ stream stream' sketch other,
        CMSHeap.Fed path xxh kind numRows numCols topK stream sketch →
        CMSHeap.Fed path xxh kind numRows numCols topK' stream' other →
          ∃ merged, CMSHeap.merge path xxh sketch other = some merged) ∧
    ∀ (path : UpdatePath) (sketch other merged : CMSHeap),
      (∀ key ∈ CMSHeap.candidates sketch other, key.isNan = false) →
      CMSHeap.merge path xxh sketch other = some merged →
        CMSHeap.MergedTop path sketch other merged :=
  ⟨fun _ _ _ _ _ positive byKey _ _ fed => fed.reports positive byKey,
    fun _ _ _ _ _ byKey _ _ fed => fed.reports byKey,
    fun _ _ _ _ _ _ positive byKey _ _ _ _ fed otherFed =>
      CMSHeap.exists_merge positive byKey fed otherFed,
    fun _ _ _ _ numbers merging => CMSHeap.merge_top numbers merging⟩

/-- Two colliding keys of one weight and a heap of one place. -/
theorem top_k_complete_collision :
    ∃ sketch, CMSHeap.Fed (.regular collidingHasher) plainXxHash .vector2D 1 2 1
        [(.u64 2, 5), (.u64 1, 5)] sketch ∧
      Reports (ownedWeight [(.u64 2, 5), (.u64 1, 5)]) [.u64 2, .u64 1]
        (fun key => CMSHeap.estimate (.regular collidingHasher) sketch (heapItemToSketchInput key))
        1 sketch.heap ∧
      ∃ merged,
        CMSHeap.merge (.regular collidingHasher) plainXxHash sketch sketch = some merged := by
  have byKey : (UpdatePath.regular collidingHasher).ByKey 1 2 := fun _ _ _ => rfl
  have start : CMSHeap.Fed (.regular collidingHasher) plainXxHash .vector2D 1 2 1 [] _ :=
    CMSHeap.Fed.new
  obtain ⟨one, oneEq⟩ := start.exists_insert (by decide) byKey rfl (by decide) (.u64 1) 5
  have fedOne := start.insertMany (.u64 1) 5 rfl (by decide) oneEq
  obtain ⟨two, twoEq⟩ := fedOne.exists_insert (by decide) byKey rfl (by decide) (.u64 2) 5
  have fedTwo := fedOne.insertMany (.u64 2) 5 rfl (by decide) twoEq
  obtain ⟨reports, -, merges, -⟩ := top_k_complete plainXxHash
  exact ⟨two, fedTwo, reports _ .vector2D 1 2 1 (by decide) byKey _ _ fedTwo,
    merges _ .vector2D 1 2 1 1 (by decide) byKey _ _ _ _ fedTwo fedTwo⟩

end AsapSketchlib
