/-
This file models the two portable matrix sketches, the signed Count Sketch and Count-Min, with
their merges and deltas. They are written apart in the code: the Count Sketch adds up the cells
of a delta one by one, where Count-Min looks at all of them first.

An index outside a matrix panics. In the hash of a Count Sketch all rows are packed.
-/

import AsapSketchlib.FastPath
import AsapSketchlib.PortableHll

namespace AsapSketchlib

namespace Portable

/-! ### Matrices -/

def cellAt (matrix : List (List F64)) (row col : ℕ) : Option F64 :=
  matrix[row]?.bind fun cells => cells[col]?

/-- `matrix[row][col] += value`. -/
def addAt (matrix : List (List F64)) (row col : ℕ) (value : F64) : Option (List (List F64)) :=
  (cellAt matrix row col).map fun _ =>
    matrix.modify row fun cells => cells.modify col fun cell => cell.add value

def places (rows cols : ℕ) : List (ℕ × ℕ) :=
  (List.range rows).flatMap fun row => (List.range cols).map fun col => (row, col)

theorem length_places (rows cols : ℕ) : (places rows cols).length = rows * cols := by
  unfold places
  rw [List.length_flatMap]
  simp only [List.length_map, List.length_range, List.map_const', List.sum_replicate_nat]

/-- The signed count deltas of all cells, with their indexes as `u32`. -/
def cellDeltas (rows cols : ℕ) (current snapshot : List (List F64)) : Option (List (ℕ × ℕ × ℤ)) :=
  (places rows cols).mapM fun place => do
    let cv ← cellAt current place.1 place.2
    let sv ← cellAt snapshot place.1 place.2
    return (place.1 % 2 ^ 32, place.2 % 2 ^ 32, (cv.sub sv).asI64)

def rowNorms (norm : F64 → F64) (rows cols : ℕ) (current snapshot : List (List F64)) :
    Option (List F64) :=
  (List.range rows).mapM fun row => do
    let total := fun matrix => (List.range cols).foldlM
      (fun sum col => (cellAt matrix row col).map fun cell => sum.add (norm cell)) F64.zero
    let cur ← total current
    let snap ← total snapshot
    return cur.sub snap

/-- `-x` of an `i64`, which wraps at the minimum. -/
def negI64 (value : ℤ) : ℤ := if value = i64Min then i64Min else -value

/-- The cells of a delta in its packed arrays, or in the records of older producers. -/
def packedCells (cellRows cellCols : List ℕ) (dCounts : List ℤ) (cellsLegacy : List (ℕ × ℕ × F64)) :
    List (ℕ × ℕ × ℤ) :=
  if !cellRows.isEmpty then
    ((cellRows.zip cellCols).zip dCounts).map fun cell => (cell.1.1, cell.1.2, cell.2)
  else cellsLegacy.map fun cell => (cell.1, cell.2.1, cell.2.2.asI64)

/-- The five-element MessagePack array of a delta. -/
structure MatrixWire where
  rows : ℕ
  cols : ℕ
  rowIdx : List ℕ
  colIdx : List ℕ
  dCount : List ℤ
  deriving DecidableEq

def MatrixWire.ofCells (rows cols : ℕ) (cells : List (ℕ × ℕ × ℤ)) : MatrixWire where
  rows := rows
  cols := cols
  rowIdx := cells.map fun cell => cell.1
  colIdx := cells.map fun cell => cell.2.1
  dCount := cells.map fun cell => cell.2.2

def MatrixWire.cells (wire : MatrixWire) : List (ℕ × ℕ × ℤ) :=
  ((wire.rowIdx.zip wire.colIdx).zip wire.dCount).map fun cell => (cell.1.1, cell.1.2, cell.2)

/-! ### Count Sketch -/

/-- Sparse delta between two Count Sketch snapshots. -/
structure CountSketchDelta where
  rows : ℕ
  cols : ℕ
  cells : List (ℕ × ℕ × ℤ)
  l2 : List F64
  hhKeys : List String

/-- Minimal Count Sketch state. -/
structure CountSketch where
  rows : ℕ
  cols : ℕ
  matrix : List (List F64)
  topk : List (String × F64)
  deriving DecidableEq

/-- `CountSketchDelta` of the protobuf schema. Of the entries of `topk` the keys are read. -/
structure CountSketchProtoDelta where
  rows : ℕ
  cols : ℕ
  cellsLegacy : List (ℕ × ℕ × F64)
  l2Legacy : List F64
  topk : Option (List String)
  hhKeys : List String
  cellRows : List ℕ
  cellCols : List ℕ
  dCounts : List ℤ
  l2 : List F64
  deriving DecidableEq

/-- `sign_for_row` of a packed hash: the bits from the highest down. -/
def signForRow (hashed : BitVec 64) (row : ℕ) : ℤ :=
  if (hashed >>> (63 - row)).getLsbD 0 then 1 else -1

namespace CountSketch

/-- `COUNT_SKETCH_TOPK_CAPACITY`. -/
def topkCapacity : ℕ := 100

variable (hash64 : String → BitVec 64)

def estimate (sketch : CountSketch) (key : String) : Option F64 :=
  if sketch.rows = 0 ∨ sketch.cols = 0 then some F64.zero
  else do
    let hashed := hash64 key
    let estimates ← (List.range sketch.rows).mapM fun row =>
      (cellAt sketch.matrix row ((MatrixHashType.packed64 hashed).colForRow row sketch.cols)).map
        fun cell => (F64.ofInt (signForRow hashed row)).mul cell
    let sorted := estimates.mergeSort fun left right => left.partialCmp right != some .gt
    let mid := sorted.length / 2
    if sorted.length % 2 = 1 then sorted[mid]?
    else
      let low ← sorted[mid - 1]?
      let high ← sorted[mid]?
      return (low.add high).half

def leastEntry (topk : List (String × F64)) : Option (ℕ × F64) :=
  topk.zipIdx.foldl (fun least entry =>
    match least with
    | some (_, count) => if entry.1.2.Less count then some (entry.2, entry.1.2) else least
    | none => some (entry.2, entry.1.2)) none

def topkUpdate (sketch : CountSketch) (key : String) (count : F64) : CountSketch :=
  match sketch.topk.findIdx? fun entry => entry.1 = key with
  | some place =>
    { sketch with
      topk := sketch.topk.modify place fun entry =>
        if entry.2.Less count then (entry.1, count) else entry }
  | none =>
    if sketch.topk.length < topkCapacity then { sketch with topk := sketch.topk ++ [(key, count)] }
    else
      match leastEntry sketch.topk with
      | some (place, least) =>
        if least.Less count then { sketch with topk := sketch.topk.set place (key, count) }
        else sketch
      | none => sketch

def merge (sketch other : CountSketch) : CountSketch × Returned :=
  if sketch.rows ≠ other.rows ∨ sketch.cols ≠ other.cols then
    let r := sketch.rows
    let c := sketch.cols
    let otherRows := other.rows
    let otherCols := other.cols
    (sketch, .err s!"CountSketch dimension mismatch: self={r}x{c}, other={otherRows}x{otherCols}")
  else
    let added := (places sketch.rows sketch.cols).foldlM (fun matrix place =>
      (cellAt other.matrix place.1 place.2).bind (addAt matrix place.1 place.2)) sketch.matrix
    match added with
    | some matrix => ({ sketch with matrix := matrix }, .ok)
    | none => (sketch, .panicked)

/-- The loop over the cells of a delta. Each is checked just before it is added. -/
def addCells (sketch : CountSketch) : List (ℕ × ℕ × ℤ) → CountSketch × Returned
  | [] => (sketch, .ok)
  | (r, c, dCount) :: rest =>
    let rows := sketch.rows
    let cols := sketch.cols
    if rows ≤ r ∨ cols ≤ c then
      (sketch, .err s!"CountSketchDelta cell ({r},{c}) out of range (matrix={rows}x{cols})")
    else
      match addAt sketch.matrix r c (F64.ofInt dCount) with
      | some matrix => addCells { sketch with matrix := matrix } rest
      | none => (sketch, .panicked)

def rebuildTopk (sketch : CountSketch) : List String → CountSketch × Returned
  | [] => (sketch, .ok)
  | key :: rest =>
    match estimate hash64 sketch key with
    | some est => rebuildTopk (sketch.topkUpdate key est) rest
    | none => (sketch, .panicked)

def applyDelta (sketch : CountSketch) (delta : CountSketchDelta) : CountSketch × Returned :=
  match sketch.addCells delta.cells with
  | (sketch, .ok) => rebuildTopk hash64 sketch delta.hhKeys
  | stopped => stopped

/-- A cell is carried if its delta is not zero and reaches the truncated threshold. -/
def Carried (threshold : F64) (dc : ℤ) : Prop :=
  dc ≠ 0 ∧ (dc ≤ negI64 threshold.asI64 ∨ threshold.asI64 ≤ dc)

instance (threshold : F64) (dc : ℤ) : Decidable (Carried threshold dc) :=
  inferInstanceAs (Decidable (_ ∧ _))

/-- The check of the dimensions at the head of both computations. -/
def mismatch (sketch snapshot : CountSketch) : Option String :=
  let r := sketch.rows
  let c := sketch.cols
  let snapRows := snapshot.rows
  let snapCols := snapshot.cols
  if r ≠ snapRows ∨ c ≠ snapCols then
    some s!"CountSketch dimension mismatch: self={r}x{c}, snapshot={snapRows}x{snapCols}"
  else none

def carriedCells (sketch snapshot : CountSketch) (threshold : F64) :
    Option (List (ℕ × ℕ × ℤ)) :=
  (cellDeltas sketch.rows sketch.cols sketch.matrix snapshot.matrix).map fun deltas =>
    deltas.filter fun cell => Carried threshold cell.2.2

/-- The message of `compute_delta`. -/
def protoDelta (sketch snapshot : CountSketch) (threshold : F64) :
    Option CountSketchProtoDelta := do
  let cells ← sketch.carriedCells snapshot threshold
  let l2 ← rowNorms (fun cell => cell.mul cell) sketch.rows sketch.cols sketch.matrix
    snapshot.matrix
  return {
    rows := sketch.rows % 2 ^ 32
    cols := sketch.cols % 2 ^ 32
    cellsLegacy := []
    l2Legacy := []
    topk := none
    hhKeys := []
    cellRows := cells.map fun cell => cell.1
    cellCols := cells.map fun cell => cell.2.1
    dCounts := cells.map fun cell => cell.2.2
    l2 := l2 }

/-- The delta over a snapshot, or nothing where the call panics. -/
def computeDelta (prost : Prost CountSketchProtoDelta) (sketch snapshot : CountSketch)
    (threshold : F64) : Option (Except String (List UInt8)) :=
  match sketch.mismatch snapshot with
  | some message => some (.error message)
  | none => (sketch.protoDelta snapshot threshold).map fun message =>
    .ok (prost.encodeToVec message)

/-- The delta in the bytes of `apply_delta_bytes`. -/
def decodeDelta (prost : Prost CountSketchProtoDelta) (bytes : List UInt8) :
    Except String CountSketchDelta :=
  (prost.decode bytes).map fun proto =>
    { rows := proto.rows
      cols := proto.cols
      cells := packedCells proto.cellRows proto.cellCols proto.dCounts proto.cellsLegacy
      l2 := if !proto.l2.isEmpty then proto.l2 else proto.l2Legacy
      hhKeys := if !proto.hhKeys.isEmpty then proto.hhKeys else proto.topk.getD [] }

def applyDeltaBytes (prost : Prost CountSketchProtoDelta) (sketch : CountSketch)
    (bytes : List UInt8) : CountSketch × Returned :=
  applyDecoded (applyDelta hash64) sketch (decodeDelta prost bytes)

/-- The message of `compute_delta_msgpack`. -/
def msgpackDelta (sketch snapshot : CountSketch) (threshold : F64) : Option MatrixWire :=
  (sketch.carriedCells snapshot threshold).map
    (MatrixWire.ofCells (sketch.rows % 2 ^ 32) (sketch.cols % 2 ^ 32))

def computeDeltaMsgpack (rmp : RmpSerde MatrixWire) (sketch snapshot : CountSketch)
    (threshold : F64) : Option (Except String (List UInt8)) :=
  match sketch.mismatch snapshot with
  | some message => some (.error message)
  | none => (sketch.msgpackDelta snapshot threshold).map fun message =>
    (rmp.toVec message).mapError encodeErrorText

/-- The delta in the bytes of `apply_delta_msgpack_bytes`. -/
def decodeDeltaMsgpack (rmp : RmpSerde MatrixWire) (bytes : List UInt8) :
    Except String CountSketchDelta :=
  (fromMsgpack rmp bytes).map fun wire =>
    { rows := wire.rows % 2 ^ 32, cols := wire.cols % 2 ^ 32, cells := wire.cells, l2 := [],
      hhKeys := [] }

def applyDeltaMsgpackBytes (rmp : RmpSerde MatrixWire) (sketch : CountSketch)
    (bytes : List UInt8) : CountSketch × Returned :=
  applyDecoded (applyDelta hash64) sketch (decodeDeltaMsgpack rmp bytes)

end CountSketch

/-! ### Count-Min -/

/-- Sparse delta between two Count-Min snapshots. -/
structure CountMinSketchDelta where
  rows : ℕ
  cols : ℕ
  cells : List (ℕ × ℕ × ℤ)
  l1 : List F64
  l2 : List F64
  hhKeys : List String

/-- Count-Min over its in-process backend. -/
structure CountMinSketch where
  rows : ℕ
  cols : ℕ
  backend : Vector2D F64

/-- `CountMinDelta` of the protobuf schema. -/
structure CountMinProtoDelta where
  rows : ℕ
  cols : ℕ
  cellsLegacy : List (ℕ × ℕ × F64)
  l1 : List F64
  l2 : List F64
  hhKeys : List String
  cellRows : List ℕ
  cellCols : List ℕ
  dCounts : List ℤ
  deriving DecidableEq

/-- Builds a backend from a matrix. Cells that the matrix does not have are zero. -/
def sketchlibCmsFromMatrix (rows cols : ℕ) (matrix : List (List F64)) : Vector2D F64 where
  data := (places rows cols).map fun place => (cellAt matrix place.1 place.2).getD F64.zero
  rows := rows
  cols := cols
  sized := (List.length_map _).trans (length_places rows cols)

def matrixFromSketchlibCms (backend : Vector2D F64) : List (List F64) :=
  (List.range backend.rows).map fun row =>
    (List.range backend.cols).map fun col =>
      (backend.data[row * backend.cols + col]?).getD F64.zero

namespace CountMinSketch

def sketch (cms : CountMinSketch) : List (List F64) := matrixFromSketchlibCms cms.backend

def merge (cms other : CountMinSketch) : CountMinSketch × Returned :=
  if cms.rows ≠ other.rows ∨ cms.cols ≠ other.cols then
    let r := cms.rows
    let c := cms.cols
    let otherRows := other.rows
    let otherCols := other.cols
    (cms, .err s!"CountMinSketch dimension mismatch: self={r}x{c}, other={otherRows}x{otherCols}")
  else if cms.backend.rows ≠ other.backend.rows ∨ cms.backend.cols ≠ other.backend.cols then
    (cms, .panicked)
  else
    ({ cms with
      backend :=
        { data := cms.backend.data.mapIdx fun place counter =>
            counter.add (other.backend.data.getD place F64.zero)
          rows := cms.backend.rows
          cols := cms.backend.cols
          sized := List.length_mapIdx.trans cms.backend.sized } }, .ok)

def checkCells (cms : CountMinSketch) (cells : List (ℕ × ℕ × ℤ)) : Option String :=
  cells.findSome? fun (r, c, _) =>
    let rows := cms.rows
    let cols := cms.cols
    if rows ≤ r ∨ cols ≤ c then
      some s!"CountMinSketchDelta cell ({r},{c}) out of range (matrix={rows}x{cols})"
    else none

def applyDelta (cms : CountMinSketch) (delta : CountMinSketchDelta) : CountMinSketch × Returned :=
  match cms.checkCells delta.cells with
  | some message => (cms, .err message)
  | none =>
    let added := delta.cells.foldlM (fun matrix cell =>
      addAt matrix cell.1 cell.2.1 (F64.ofInt cell.2.2)) cms.sketch
    match added with
    | some matrix =>
      ({ cms with backend := sketchlibCmsFromMatrix cms.rows cms.cols matrix }, .ok)
    | none => (cms, .panicked)

/-- A cell is carried if its delta is not zero and its magnitude reaches the threshold. -/
def Carried (threshold : F64) (dc : ℤ) : Prop := dc ≠ 0 ∧ threshold.AtMost (F64.ofInt |dc|)

instance (threshold : F64) (dc : ℤ) : Decidable (Carried threshold dc) :=
  inferInstanceAs (Decidable (_ ∧ _))

/-- The check of the dimensions at the head of both computations. -/
def mismatch (cms snapshot : CountMinSketch) : Option String :=
  let r := cms.rows
  let c := cms.cols
  let snapRows := snapshot.rows
  let snapCols := snapshot.cols
  if r ≠ snapRows ∨ c ≠ snapCols then
    some s!"CountMinSketch dimension mismatch: self={r}x{c}, snapshot={snapRows}x{snapCols}"
  else none

def carriedCells (cms snapshot : CountMinSketch) (threshold : F64) :
    Option (List (ℕ × ℕ × ℤ)) :=
  (cellDeltas cms.rows cms.cols cms.sketch snapshot.sketch).map fun deltas =>
    deltas.filter fun cell => Carried threshold cell.2.2

/-- The message of `compute_delta`. -/
def protoDelta (cms snapshot : CountMinSketch) (threshold : F64) : Option CountMinProtoDelta := do
  let cells ← cms.carriedCells snapshot threshold
  let l1 ← rowNorms id cms.rows cms.cols cms.sketch snapshot.sketch
  let l2 ← rowNorms (fun cell => cell.mul cell) cms.rows cms.cols cms.sketch snapshot.sketch
  return {
    rows := cms.rows % 2 ^ 32
    cols := cms.cols % 2 ^ 32
    cellsLegacy := []
    l1 := l1
    l2 := l2
    hhKeys := []
    cellRows := cells.map fun cell => cell.1
    cellCols := cells.map fun cell => cell.2.1
    dCounts := cells.map fun cell => cell.2.2 }

/-- The delta over a snapshot, or nothing where the call panics. -/
def computeDelta (prost : Prost CountMinProtoDelta) (cms snapshot : CountMinSketch)
    (threshold : F64) : Option (Except String (List UInt8)) :=
  match cms.mismatch snapshot with
  | some message => some (.error message)
  | none => (cms.protoDelta snapshot threshold).map fun message =>
    .ok (prost.encodeToVec message)

/-- The delta in the bytes of `apply_delta_bytes`. -/
def decodeDelta (prost : Prost CountMinProtoDelta) (bytes : List UInt8) :
    Except String CountMinSketchDelta :=
  (prost.decode bytes).map fun proto =>
    { rows := proto.rows
      cols := proto.cols
      cells := packedCells proto.cellRows proto.cellCols proto.dCounts proto.cellsLegacy
      l1 := proto.l1
      l2 := proto.l2
      hhKeys := proto.hhKeys }

def applyDeltaBytes (prost : Prost CountMinProtoDelta) (cms : CountMinSketch)
    (bytes : List UInt8) : CountMinSketch × Returned :=
  applyDecoded applyDelta cms (decodeDelta prost bytes)

/-- The message of `compute_delta_msgpack`. -/
def msgpackDelta (cms snapshot : CountMinSketch) (threshold : F64) : Option MatrixWire :=
  (cms.carriedCells snapshot threshold).map
    (MatrixWire.ofCells (cms.rows % 2 ^ 32) (cms.cols % 2 ^ 32))

def computeDeltaMsgpack (rmp : RmpSerde MatrixWire) (cms snapshot : CountMinSketch)
    (threshold : F64) : Option (Except String (List UInt8)) :=
  match cms.mismatch snapshot with
  | some message => some (.error message)
  | none => (cms.msgpackDelta snapshot threshold).map fun message =>
    (rmp.toVec message).mapError encodeErrorText

/-- The delta in the bytes of `apply_delta_msgpack_bytes`. -/
def decodeDeltaMsgpack (rmp : RmpSerde MatrixWire) (bytes : List UInt8) :
    Except String CountMinSketchDelta :=
  (fromMsgpack rmp bytes).map fun wire =>
    { rows := wire.rows % 2 ^ 32, cols := wire.cols % 2 ^ 32, cells := wire.cells, l1 := [],
      l2 := [], hhKeys := [] }

def applyDeltaMsgpackBytes (rmp : RmpSerde MatrixWire) (cms : CountMinSketch)
    (bytes : List UInt8) : CountMinSketch × Returned :=
  applyDecoded applyDelta cms (decodeDeltaMsgpack rmp bytes)

end CountMinSketch

end Portable

end AsapSketchlib
