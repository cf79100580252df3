/-
This file models the portable composites of a sketch and a heap of its heaviest keys, the
Count-Min sketch with heap and the Count sketch with heap, which differ only in the sketch, and
their MessagePack form. `none` stands for a panic.

A reservation of more than `isize::MAX` bytes panics, so that a matrix of `i64` has fewer than
2^60 counters. Sorting compares every element of two or more, so that a NaN among them panics.
-/

import AsapSketchlib.CountMinHeap
import AsapSketchlib.PortableHll
import AsapSketchlib.UnivMonQQueries

namespace AsapSketchlib

open MatrixStorage

/-! ### The sketches under a composite -/

/-- `cs_heap_count`: the count a `CSHeap` entry carries for an estimate. -/
def csHeapCount (estimate : ℚ) : ℤ := f64AsI64 estimate

/-- A sketch over a matrix of `i64` on the regular path. -/
structure Counting where
  /-- The name of the composite. -/
  name : String
  insertMany : MatrixStorage → DataInput → ℤ → Option MatrixStorage
  mergeCounts : MatrixStorage → MatrixStorage → Option MatrixStorage
  /-- The estimate of a key, as the composite answers it. -/
  estimate : MatrixStorage → DataInput → Option F64
  /-- The count that the heap entry of a key carries. -/
  heapCount : MatrixStorage → DataInput → Option ℤ

namespace Counting

variable (xxh : XxHash3)

/-- `CMSHeap<Vector2D<i64>, RegularPath>`. -/
def cmsHeap : Counting where
  name := "CountMinSketchWithHeap"
  insertMany counts key many :=
    (Stored.CountMin.insertMany (.regular (defaultXxHasher xxh)) ⟨counts⟩ key many).map
      Stored.CountMin.counts
  mergeCounts mine theirs := (Stored.CountMin.merge ⟨mine⟩ ⟨theirs⟩).map Stored.CountMin.counts
  estimate counts key :=
    (Stored.CountMin.estimate (.regular (defaultXxHasher xxh)) ⟨counts⟩ key).map F64.ofInt
  heapCount counts key := Stored.CountMin.estimate (.regular (defaultXxHasher xxh)) ⟨counts⟩ key

/-- `CSHeap<Vector2D<i64>, RegularPath>`. -/
def csHeap : Counting where
  name := "CountSketchWithHeap"
  insertMany counts key many :=
    (Stored.Count.insertMany (.regular (defaultXxHasher xxh)) ⟨counts⟩ key many).map
      Stored.Count.counts
  mergeCounts mine theirs := (Stored.Count.merge ⟨mine⟩ ⟨theirs⟩).map Stored.Count.counts
  estimate counts key :=
    (Stored.Count.estimate (.regular (defaultXxHasher xxh)) ⟨counts⟩ key).map F64.finite
  heapCount counts key :=
    (Stored.Count.estimate (.regular (defaultXxHasher xxh)) ⟨counts⟩ key).map csHeapCount

end Counting

/-! ### The matrix -/

/-- Whether `Vector2D::init` and `from_fn` make a matrix: there is a column to mask, and the
counters can be reserved. -/
def Reservable (rows cols : ℕ) : Prop := cols ≠ 0 ∧ rows * cols < 2 ^ 60

instance (rows cols : ℕ) : Decidable (Reservable rows cols) :=
  inferInstanceAs (Decidable (_ ∧ _))

section FromFn

variable {Cell : Type} {cols : ℕ} {line : ℕ → List Cell}

theorem length_flatMap_range (each : ∀ r, (line r).length = cols) (rows : ℕ) :
    ((List.range rows).flatMap line).length = rows * cols := by
  induction rows with
  | zero => rw [Nat.zero_mul]; rfl
  | succ rows hypothesis =>
    rw [List.range_succ, List.flatMap_append, List.length_append, hypothesis,
      List.flatMap_singleton, each, Nat.succ_mul]

theorem getElem?_flatMap_range (each : ∀ r, (line r).length = cols) {rows r c : ℕ}
    (rowInside : r < rows) (colInside : c < cols) :
    ((List.range rows).flatMap line)[r * cols + c]? = (line r)[c]? := by
  induction rows with
  | zero => exact absurd rowInside (Nat.not_lt_zero r)
  | succ rows hypothesis =>
    have before : ((List.range rows).flatMap line).length = rows * cols :=
      length_flatMap_range each rows
    rw [List.range_succ, List.flatMap_append, List.flatMap_singleton]
    rcases Nat.lt_succ_iff_lt_or_eq.mp rowInside with earlier | rfl
    · rw [List.getElem?_append_left (before ▸ Grid.position_lt earlier colInside)]
      exact hypothesis earlier
    · rw [List.getElem?_append_right (before ▸ Nat.le_add_right _ _), before,
        Nat.add_sub_cancel_left]

end FromFn

theorem length_fromFn (rows cols : ℕ) (f : ℕ → ℕ → ℤ) :
    ((List.range rows).flatMap fun r => (List.range cols).map fun c => f r c).length =
      rows * cols :=
  length_flatMap_range (fun _ => (List.length_map _).trans List.length_range) rows

/-- `Vector2D::from_fn`. -/
def fromFn (rows cols : ℕ) (f : ℕ → ℕ → ℤ) : Option MatrixStorage :=
  if Reservable rows cols then
    some (.vector2D ⟨(List.range rows).flatMap fun r => (List.range cols).map fun c => f r c,
      rows, cols, length_fromFn rows cols f⟩ (colsMaskBits cols))
  else none

/-! ### The composite -/

/-- `WireHeapItem`, `CmsHeapItem` and `CsHeapItem`: a key with its value. -/
structure WireHeapItem where
  key : String
  value : F64
  deriving DecidableEq

/-- `CountMinSketchInnerWire` and `CountSketchInnerWire`. -/
structure InnerWire where
  sketch : List (List F64)
  rows : ℕ
  cols : ℕ

/-- `CountMinSketchWithHeapWire` and `CountSketchWithHeapWire`. -/
structure WithHeapWire where
  sketch : InnerWire
  topkHeap : List WireHeapItem
  heapSize : ℕ

/-- `CountMinSketchWithHeap` and `CountSketchWithHeap`: the declared dimensions and heap size, and
the backend of a matrix and a heap. -/
structure WithHeap where
  rows : ℕ
  cols : ℕ
  heapSize : ℕ
  counts : MatrixStorage
  heap : HHHeap

namespace WithHeap

variable (counting : Counting) (xxh : XxHash3)

def new (rows cols heapSize : ℕ) : Option WithHeap :=
  if Reservable rows cols then
    some ⟨rows, cols, heapSize, newVector2D rows cols, HHHeap.new heapSize⟩
  else none

def offerEstimate (counts : MatrixStorage) (heap : HHHeap) (key : DataInput) : Option HHHeap :=
  (counting.heapCount counts key).map fun est => (HHHeap.update xxh heap key est).1

/-- The weight of a value: `value.round() as i64`. -/
def weightOf (value : F64) : ℤ := value.roundAway.asI64

/-- Inserts a key, unless its weight is not positive. -/
def update (sketch : WithHeap) (key : String) (value : F64) : Option WithHeap :=
  let many := weightOf value
  if many ≤ 0 then some sketch
  else
    (counting.insertMany sketch.counts (.string key) many).bind fun counts =>
      (offerEstimate counting xxh counts sketch.heap (.string key)).map fun heap =>
        { sketch with counts := counts, heap := heap }

def estimate (sketch : WithHeap) (key : String) : Option F64 :=
  counting.estimate sketch.counts (.string key)

/-- The backend merge: adds the counters and asks again for the keys of both heaps, into the emptied
heap of the receiver. -/
def mergeBackend (sketch other : WithHeap) : Option (MatrixStorage × HHHeap) :=
  (counting.mergeCounts sketch.counts other.counts).bind fun counts =>
    ((HHHeap.keys sketch.heap ++ HHHeap.keys other.heap).foldlM
      (fun heap key => offerEstimate counting xxh counts heap (heapItemToSketchInput key))
      (HHHeap.clear sketch.heap)).map fun heap => (counts, heap)

/-- Merges a composite of the same dimensions and takes the smaller heap size. -/
def merge (sketch other : WithHeap) : Option (Except String WithHeap) :=
  if sketch.rows ≠ other.rows ∨ sketch.cols ≠ other.cols then
    some (.error (s!"{counting.name} dimension mismatch: self={sketch.rows}x{sketch.cols}, " ++
      s!"other={other.rows}x{other.cols}"))
  else
    (mergeBackend counting xxh sketch other).map fun backend =>
      .ok { sketch with
        heapSize := Nat.min sketch.heapSize other.heapSize
        counts := backend.1
        heap := backend.2 }

def cmsBackend (sketch : WithHeap) : CMSHeap := ⟨⟨sketch.counts⟩, sketch.heap⟩

theorem update_cmsHeap (sketch : WithHeap) (key : String) {value : F64}
    (counted : 0 < weightOf value) :
    (sketch.update (Counting.cmsHeap xxh) xxh key value).map cmsBackend =
      CMSHeap.insertMany (.regular (defaultXxHasher xxh)) xxh sketch.cmsBackend (.string key)
        (weightOf value) := by
  unfold update
  dsimp only
  rw [if_neg (not_le.mpr counted), CMSHeap.insertMany, Counting.cmsHeap, cmsBackend]
  simp only [offerEstimate, Option.map_map]
  cases Stored.CountMin.insertMany (.regular (defaultXxHasher xxh)) ⟨sketch.counts⟩ (.string key)
    (weightOf value) with
  | none => rfl
  | some cms =>
    rw [Option.map_some, Option.bind_some, Option.bind_some, Option.map_map]
    rfl

theorem mergeBackend_cmsHeap (sketch other : WithHeap) :
    (mergeBackend (Counting.cmsHeap xxh) xxh sketch other).map
        (fun backend => (⟨⟨backend.1⟩, backend.2⟩ : CMSHeap)) =
      CMSHeap.merge (.regular (defaultXxHasher xxh)) xxh sketch.cmsBackend other.cmsBackend := by
  rw [mergeBackend, CMSHeap.merge, Counting.cmsHeap, cmsBackend, cmsBackend]
  dsimp only
  cases Stored.CountMin.merge ⟨sketch.counts⟩ ⟨other.counts⟩ with
  | none => rfl
  | some cms =>
    rw [Option.map_some, Option.bind_some, Option.bind_some, Option.map_map]
    rfl

/-! ### The MessagePack form -/

def sketchMatrix (sketch : WithHeap) : List (List F64) :=
  (List.range sketch.counts.rows).map fun r => (List.range sketch.counts.cols).map fun c =>
    match sketch.counts.queryOneCounter? r c with
    | some counter => F64.ofInt counter
    | none => F64.zero

/-- The text of a key; `debug` is the `{:?}` of a key that is none. -/
def wireKey (debug : HeapItem → String) : HeapItem → String
  | .string text => text
  | other => debug other

def wireItem (debug : HeapItem → String) (item : HHItem) : WireHeapItem :=
  ⟨wireKey debug item.key, F64.ofInt item.count⟩

def heapToWire (debug : HeapItem → String) (heap : HHHeap) : List WireHeapItem :=
  heap.heap.map (wireItem debug)

def topkHeapItems (debug : HeapItem → String) (sketch : WithHeap) : List WireHeapItem :=
  heapToWire debug sketch.heap

def toWire (debug : HeapItem → String) (sketch : WithHeap) : WithHeapWire where
  sketch := ⟨sketch.sketchMatrix, sketch.rows, sketch.cols⟩
  topkHeap := sketch.topkHeapItems debug
  heapSize := sketch.heapSize

def toMsgpack (debug : HeapItem → String) (rmp : RmpSerde WithHeapWire) (sketch : WithHeap) :
    Except RmpEncodeError (List UInt8) :=
  rmp.toVec (sketch.toWire debug)

def wireCell (matrix : List (List F64)) (r c : ℕ) : F64 :=
  (matrix[r]?.bind fun row => row[c]?).getD F64.zero

def offerItem (heap : HHHeap) (item : WireHeapItem) : HHHeap :=
  let count := weightOf item.value
  if 0 < count then (HHHeap.update xxh heap (.str item.key) count).1 else heap

/-- `sketchlib_cms_heap_from_matrix_and_heap` and `sketchlib_cs_heap_from_matrix_and_heap`. -/
def fromMatrixAndHeap (rows cols heapSize : ℕ) (matrix : List (List F64))
    (topkHeap : List WireHeapItem) : Option (MatrixStorage × HHHeap) :=
  (fromFn rows cols fun r c => weightOf (wireCell matrix r c)).map fun counts =>
    (counts, topkHeap.foldl (offerItem xxh) (HHHeap.new heapSize))

/-- `sort_by(|a, b| b.value.partial_cmp(&a.value).unwrap())`. -/
def sortedByValue (items : List WireHeapItem) : Option (List WireHeapItem) :=
  if 2 ≤ items.length ∧ ∃ item ∈ items, item.value = F64.nan then none
  else some (items.insertionSort fun left right => right.value.AtMost left.value)

def fromWire (wire : WithHeapWire) : Option WithHeap :=
  (sortedByValue wire.topkHeap).bind fun sorted =>
    (fromMatrixAndHeap xxh wire.sketch.rows wire.sketch.cols wire.heapSize wire.sketch.sketch
      sorted).map fun backend =>
        ⟨wire.sketch.rows, wire.sketch.cols, wire.heapSize, backend.1, backend.2⟩

def fromMsgpack (rmp : RmpSerde WithHeapWire) (bytes : List UInt8) :
    Option (Except RmpDecodeError WithHeap) :=
  match rmp.fromSlice bytes with
  | .error error => some (.error error)
  | .ok wire => (fromWire xxh wire).map .ok

end WithHeap

end AsapSketchlib
