/-
This file models the folding sketches: Count-Min and Count sketches that keep a fraction of
the columns of a full-width sketch and tag each counter of a cell with the full-width column
it belongs to.
-/

import AsapSketchlib.HHHeap
import AsapSketchlib.MatrixSketch

namespace AsapSketchlib

/-! ### Cells -/

/-- A single tagged counter in a folded cell. `fullCol` is a `u16`. -/
structure FoldEntry where
  fullCol : ℕ
  count : ℤ
  deriving DecidableEq

/-- Cell of a folded sketch, which expands only when a real column collision occurs. -/
inductive FoldCell where
  | empty
  | single (fullCol : ℕ) (count : ℤ)
  | collided (entries : List FoldEntry)
  deriving DecidableEq

namespace FoldCell

def addEntry (fullCol : ℕ) (delta : ℤ) : List FoldEntry → List FoldEntry
  | [] => [⟨fullCol, delta⟩]
  | entry :: rest =>
    if entry.fullCol = fullCol then { entry with count := entry.count + delta } :: rest
    else entry :: addEntry fullCol delta rest

def entryCount (fullCol : ℕ) : List FoldEntry → ℤ
  | [] => 0
  | entry :: rest => if entry.fullCol = fullCol then entry.count else entryCount fullCol rest

/-- Inserts `delta` for the given full column. -/
def insert (fullCol : ℕ) (delta : ℤ) : FoldCell → FoldCell
  | .empty => .single fullCol delta
  | .single existingCol count =>
    if existingCol = fullCol then .single existingCol (count + delta)
    else .collided [⟨existingCol, count⟩, ⟨fullCol, delta⟩]
  | .collided entries => .collided (addEntry fullCol delta entries)

/-- Looks up the counter for a full column, 0 when absent. -/
def query (fullCol : ℕ) : FoldCell → ℤ
  | .empty => 0
  | .single col count => if col = fullCol then count else 0
  | .collided entries => entryCount fullCol entries

theorem entryCount_addEntry (fullCol asked : ℕ) (delta : ℤ) (entries : List FoldEntry) :
    entryCount asked (addEntry fullCol delta entries) =
      entryCount asked entries + if fullCol = asked then delta else 0 := by
  induction entries with
  | nil =>
    show (if fullCol = asked then delta else 0) = 0 + _
    rw [zero_add]
  | cons entry rest hypothesis =>
    unfold addEntry
    by_cases tagged : entry.fullCol = fullCol
    · rw [if_pos tagged]
      simp only [entryCount, tagged]
      by_cases same : fullCol = asked
      · rw [if_pos same, if_pos same, if_pos same]
      · rw [if_neg same, if_neg same, if_neg same, add_zero]
    · rw [if_neg tagged, entryCount, entryCount, hypothesis]
      by_cases here : entry.fullCol = asked
      · have different : ¬fullCol = asked := fun same => tagged (here.trans same.symm)
        rw [if_pos here, if_pos here, if_neg different, add_zero]
      · rw [if_neg here, if_neg here]

theorem query_insert (fullCol asked : ℕ) (delta : ℤ) (cell : FoldCell) :
    query asked (insert fullCol delta cell) =
      query asked cell + if fullCol = asked then delta else 0 := by
  cases cell with
  | empty => exact (zero_add _).symm
  | single existingCol count =>
    rw [insert]
    by_cases tagged : existingCol = fullCol
    · rw [if_pos tagged]
      simp only [query, tagged]
      by_cases same : fullCol = asked
      · rw [if_pos same, if_pos same, if_pos same]
      · rw [if_neg same, if_neg same, if_neg same, add_zero]
    · rw [if_neg tagged]
      simp only [query, entryCount]
      by_cases here : existingCol = asked
      · have different : ¬fullCol = asked := fun same => tagged (here.trans same.symm)
        rw [if_pos here, if_pos here, if_neg different, add_zero]
      · rw [if_neg here, if_neg here, zero_add]
  | collided entries => exact entryCount_addEntry fullCol asked delta entries

end FoldCell

/-! ### Sketches -/

/-- `usize::trailing_zeros`. -/
def trailingZeros (value : ℕ) : ℕ := ((List.range 64).find? value.testBit).getD 64

/-- `usize::is_power_of_two`. -/
def isPowerOfTwo (value : ℕ) : Prop := ∃ exponent < 64, value = 1 <<< exponent

instance (value : ℕ) : Decidable (isPowerOfTwo value) :=
  inferInstanceAs (Decidable (∃ exponent < 64, value = 1 <<< exponent))

/-- The state `FoldCMS` and `FoldCS` share. `foldCols` is `fullCols >> foldLevel`. -/
structure FoldSketch where
  rows : ℕ
  foldCols : ℕ
  fullCols : ℕ
  foldLevel : ℕ
  cells : List FoldCell
  heap : HHHeap

namespace FoldSketch

/-- The constructor of both sketches; its two assertions stop it. -/
def new (rows fullCols foldLevel topK : ℕ) : Option FoldSketch :=
  if isPowerOfTwo fullCols then
    if foldLevel ≤ trailingZeros fullCols then
      some {
        rows := rows
        foldCols := fullCols >>> foldLevel
        fullCols := fullCols
        foldLevel := foldLevel
        cells := List.replicate (rows * (fullCols >>> foldLevel)) FoldCell.empty
        heap := HHHeap.new topK }
    else none
  else none

variable (hasher : SketchHasher)

/-- The full-width column of a key in a row, cast to `u16`. -/
def fullColFor (sketch : FoldSketch) (row : ℕ) (key : DataInput) : ℕ :=
  lower32Col (hasher.hash64Seeded row key) sketch.fullCols % 65536

/-- The physical column of a full column. -/
def foldColOf (sketch : FoldSketch) (fullCol : ℕ) : ℕ := fullCol &&& (sketch.foldCols - 1)

def cellAt (sketch : FoldSketch) (row foldCol : ℕ) : FoldCell :=
  (sketch.cells[row * sketch.foldCols + foldCol]?).getD FoldCell.empty

/-- The loop over the rows that adds a delta to the cell of the key in each. -/
def insertCells (sketch : FoldSketch) (key : DataInput) (deltaOf : ℕ → ℤ) : FoldSketch :=
  { sketch with
    cells := Grid.updateRows sketch.foldCols
      (fun row => foldColOf sketch (fullColFor hasher sketch row key))
      (fun row => FoldCell.insert (fullColFor hasher sketch row key) (deltaOf row))
      sketch.rows sketch.cells }

def rowCount (sketch : FoldSketch) (key : DataInput) (row : ℕ) : ℤ :=
  let fullCol := fullColFor hasher sketch row key
  FoldCell.query fullCol (cellAt sketch row (foldColOf sketch fullCol))

end FoldSketch

abbrev FoldCMS := FoldSketch

namespace FoldCMS

def new (rows fullCols foldLevel topK : ℕ) : Option FoldCMS :=
  FoldSketch.new rows fullCols foldLevel topK

variable (hasher : SketchHasher) (xxh : XxHash3)

/-- Returns the frequency estimate: the minimum across rows. -/
def query (sketch : FoldCMS) (key : DataInput) : ℤ :=
  runningMin (FoldSketch.rowCount hasher sketch key) (List.range sketch.rows) i64Max

/-- Inserts `key` with count `delta` and offers it to the heap with its estimate. -/
def insert (sketch : FoldCMS) (key : DataInput) (delta : ℤ) : FoldCMS :=
  let sketch := FoldSketch.insertCells hasher sketch key fun _ => delta
  { sketch with heap := (HHHeap.update xxh sketch.heap key (query hasher sketch key)).1 }

def insertAll (sketch : FoldCMS) (stream : List (DataInput × ℤ)) : FoldCMS :=
  stream.foldl (fun sketch entry => insert hasher xxh sketch entry.1 entry.2) sketch

end FoldCMS

abbrev FoldCS := FoldSketch

namespace FoldCS

def new (rows fullCols foldLevel topK : ℕ) : Option FoldCS :=
  FoldSketch.new rows fullCols foldLevel topK

variable (hasher : SketchHasher) (xxh : XxHash3)

/-- The full-width column and the sign of a key in a row. -/
def hashFor (sketch : FoldCS) (row : ℕ) (key : DataInput) : ℕ × ℤ :=
  (FoldSketch.fullColFor hasher sketch row key, rowSign (hasher.hash64Seeded row key))

def rowEstimate (sketch : FoldCS) (key : DataInput) (row : ℕ) : ℚ :=
  intAsF64 ((hashFor hasher sketch row key).2 * FoldSketch.rowCount hasher sketch key row)

/-- Returns the frequency estimate: the median of the row estimates, cast to `i64`. -/
def query (sketch : FoldCS) (key : DataInput) : ℤ :=
  f64AsI64 (Median.computeMedianInline meanF64 0
    ((List.range sketch.rows).map (rowEstimate hasher sketch key)))

/-- Inserts `key` with count `delta` and offers it to the heap with its estimate. -/
def insert (sketch : FoldCS) (key : DataInput) (delta : ℤ) : FoldCS :=
  let sketch := FoldSketch.insertCells hasher sketch key fun row =>
    (hashFor hasher sketch row key).2 * delta
  { sketch with heap := (HHHeap.update xxh sketch.heap key (query hasher sketch key)).1 }

def insertAll (sketch : FoldCS) (stream : List (DataInput × ℤ)) : FoldCS :=
  stream.foldl (fun sketch entry => insert hasher xxh sketch entry.1 entry.2) sketch

end FoldCS

end AsapSketchlib
