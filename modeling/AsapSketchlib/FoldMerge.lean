/-
This file models the merges of the folding sketches: cell by cell at one fold level, and by
scattering the tagged entries of a sketch into a wider grid at any lower level. After each of
them the keys of the heaps are asked again against the merged cells.

Both sketches run the same code and differ in the query, which is a parameter here.
-/

import AsapSketchlib.Fold

namespace AsapSketchlib

namespace FoldCell

def iter : FoldCell → List FoldEntry
  | .empty => []
  | .single fullCol count => [⟨fullCol, count⟩]
  | .collided entries => entries

def mergeFrom (cell : FoldCell) : FoldCell → FoldCell
  | .empty => cell
  | .single fullCol count => insert fullCol count cell
  | .collided entries =>
    entries.foldl (fun cell entry => insert entry.fullCol entry.count cell) cell

end FoldCell

namespace FoldSketch

/-- The entries of the grid with the row of each, in the order the nested loops over rows,
physical columns and entries meet them. -/
def rowEntries (sketch : FoldSketch) : List (ℕ × FoldEntry) :=
  (List.range sketch.rows).flatMap fun row =>
    (List.range sketch.foldCols).flatMap fun foldCol =>
      (FoldCell.iter (cellAt sketch row foldCol)).map fun entry => (row, entry)

/-- Scatters all entries into a target at any lower or equal fold level. -/
def scatterInto (source target : FoldSketch) : FoldSketch :=
  { target with
    cells := (rowEntries source).foldl (fun cells tagged =>
      cells.modify (tagged.1 * target.foldCols + foldColOf target tagged.2.fullCol)
        (FoldCell.insert tagged.2.fullCol tagged.2.count)) target.cells }

/-- Extracts the flat counter array of the full-width sketch, at any fold level. -/
def toFlatCounters (sketch : FoldSketch) : List ℤ :=
  (rowEntries sketch).foldl (fun out tagged =>
    out.modify (tagged.1 * sketch.fullCols + tagged.2.fullCol) (· + tagged.2.count))
    (List.replicate (sketch.rows * sketch.fullCols) 0)

def clear (sketch : FoldSketch) : FoldSketch :=
  { sketch with
    cells := List.replicate sketch.cells.length FoldCell.empty
    heap := HHHeap.clear sketch.heap }

def emptyAt (rows fullCols foldLevel capacity : ℕ) : FoldSketch where
  rows := rows
  foldCols := fullCols >>> foldLevel
  fullCols := fullCols
  foldLevel := foldLevel
  cells := List.replicate (rows * (fullCols >>> foldLevel)) FoldCell.empty
  heap := HHHeap.new capacity

section Merges

variable (xxh : XxHash3) (query : FoldSketch → DataInput → ℤ)

/-- Asks for one heap item again and offers it with its new estimate. -/
def offerItem (sketch : FoldSketch) (item : HHItem) : FoldSketch :=
  let key := heapItemToSketchInput item.key
  { sketch with heap := (HHHeap.update xxh sketch.heap key (query sketch key)).1 }

/-- Asks for all heap items of a source again. -/
def reconcileHeapFrom (sketch source : FoldSketch) : FoldSketch :=
  source.heap.heap.foldl (offerItem xxh query) sketch

/-- Merges `other` into `sketch` without unfolding; the assertions stop it. -/
def mergeSameLevel (sketch other : FoldSketch) : Option FoldSketch :=
  if sketch.rows = other.rows ∧ sketch.fullCols = other.fullCols ∧
      sketch.foldLevel = other.foldLevel ∧ sketch.foldCols = other.foldCols then
    some (reconcileHeapFrom xxh query
      { sketch with cells := List.zipWith FoldCell.mergeFrom sketch.cells other.cells } other)
  else none

/-- Merges two sketches of one level into a new sketch one fold level lower. -/
def unfoldMerge (left right : FoldSketch) : Option FoldSketch :=
  if left.rows = right.rows ∧ left.fullCols = right.fullCols ∧
      left.foldLevel = right.foldLevel ∧ 0 < left.foldLevel then
    let result := emptyAt left.rows left.fullCols (left.foldLevel - 1)
      (max left.heap.k right.heap.k)
    let result := scatterInto right (scatterInto left result)
    some ([left, right].foldl (reconcileHeapFrom xxh query) result)
  else none

def unfoldTo (sketch : FoldSketch) (targetLevel : ℕ) : Option FoldSketch :=
  if targetLevel ≤ sketch.foldLevel then
    if targetLevel = sketch.foldLevel then some sketch
    else
      let result := emptyAt sketch.rows sketch.fullCols targetLevel sketch.heap.k
      some (reconcileHeapFrom xxh query (scatterInto sketch result) sketch)
  else none

/-- Scatters one source of the N-way merge, after its two assertions. -/
def scatterChecked (result source : FoldSketch) : Option FoldSketch :=
  if source.rows = result.rows ∧ source.fullCols = result.fullCols then
    some (scatterInto source result)
  else none

def hierarchicalMerge : List FoldSketch → Option FoldSketch
  | [] => none
  | [sketch] => unfoldTo xxh query sketch 0
  | first :: second :: rest => do
    let sketches := first :: second :: rest
    let capacity := sketches.foldl (fun most sketch => max most sketch.heap.k) 0
    let result ← sketches.foldlM scatterChecked (emptyAt first.rows first.fullCols 0 capacity)
    some (sketches.foldl (reconcileHeapFrom xxh query) result)

end Merges

end FoldSketch

namespace FoldCMS

variable (hasher : SketchHasher) (xxh : XxHash3)

/-- `FoldCMS::merge_same_level`. -/
def mergeSameLevel : FoldCMS → FoldCMS → Option FoldCMS :=
  FoldSketch.mergeSameLevel xxh (query hasher)

/-- `FoldCMS::unfold_merge`. -/
def unfoldMerge : FoldCMS → FoldCMS → Option FoldCMS :=
  FoldSketch.unfoldMerge xxh (query hasher)

/-- `FoldCMS::unfold_to`. -/
def unfoldTo : FoldCMS → ℕ → Option FoldCMS := FoldSketch.unfoldTo xxh (query hasher)

/-- `FoldCMS::hierarchical_merge`. -/
def hierarchicalMerge : List FoldCMS → Option FoldCMS :=
  FoldSketch.hierarchicalMerge xxh (query hasher)

end FoldCMS

namespace FoldCS

variable (hasher : SketchHasher) (xxh : XxHash3)

/-- `FoldCS::merge_same_level`. -/
def mergeSameLevel : FoldCS → FoldCS → Option FoldCS :=
  FoldSketch.mergeSameLevel xxh (query hasher)

/-- `FoldCS::unfold_merge`. -/
def unfoldMerge : FoldCS → FoldCS → Option FoldCS :=
  FoldSketch.unfoldMerge xxh (query hasher)

/-- `FoldCS::unfold_to`. -/
def unfoldTo : FoldCS → ℕ → Option FoldCS := FoldSketch.unfoldTo xxh (query hasher)

/-- `FoldCS::hierarchical_merge`. -/
def hierarchicalMerge : List FoldCS → Option FoldCS :=
  FoldSketch.hierarchicalMerge xxh (query hasher)

end FoldCS

end AsapSketchlib
