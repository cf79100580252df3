/-
This file models the packed bit grid of the membership sketches. Its rows are padded to whole
words, so a cell is the bit at a position of a row-major grid whose rows are as wide as their words,
and every operation changes or reads one such bit.
-/

import AsapSketchlib.EmittedDeltas
import AsapSketchlib.PackedBits
import Mathlib.Algebra.BigOperators.Group.Finset.Sigma

namespace AsapSketchlib

/-- `cols.div_ceil(BITS_PER_WORD)`. -/
def wordsForCols (cols : ℕ) : ℕ := (cols + 63) / 64

/-- A grid of single bits packed into words, one row after another. The word stride and the bits of
the fold mask are functions of the columns. -/
@[ext] structure BitMatrix where
  words : List (BitVec 64)
  rows : ℕ
  cols : ℕ
  wordsPerRow : ℕ
  maskBits : ℕ
  rowsPositive : 0 < rows
  colsPositive : 0 < cols
  stride : wordsPerRow = wordsForCols cols
  masked : maskBits = colsMaskBits cols
  sized : words.length = rows * wordsPerRow

namespace BitMatrix

/-- `from_words`: builds a grid from packed words. -/
def fromWords (rows cols : ℕ) (words : List (BitVec 64)) : Except String BitMatrix :=
  if empty : rows = 0 ∨ cols = 0 then
    .error s!"a bit matrix needs both dimensions, got {rows}x{cols}"
  else
    let wordsPerRow := wordsForCols cols
    let expected := rows * wordsPerRow
    if 2 ^ 64 ≤ expected then .error "bit matrix dimensions overflow"
    else if sized : words.length = expected then
      .ok {
        words := words
        rows := rows
        cols := cols
        wordsPerRow := wordsPerRow
        maskBits := colsMaskBits cols
        rowsPositive := Nat.pos_of_ne_zero (not_or.mp empty).1
        colsPositive := Nat.pos_of_ne_zero (not_or.mp empty).2
        stride := rfl
        masked := rfl
        sized := sized }
    else .error s!"bit matrix of {rows}x{cols} needs {expected} words, got {words.length}"

/-- `new`: every bit is clear. Nothing is returned where a dimension is zero. -/
def new (rows cols : ℕ) : Option BitMatrix :=
  if positive : 0 < rows ∧ 0 < cols then
    some {
      words := List.replicate (rows * wordsForCols cols) 0
      rows := rows
      cols := cols
      wordsPerRow := wordsForCols cols
      maskBits := colsMaskBits cols
      rowsPositive := positive.1
      colsPositive := positive.2
      stride := rfl
      masked := rfl
      sized := List.length_replicate }
  else none

variable (matrix : BitMatrix)

def countOnes : ℕ := (matrix.words.map PackedBits.onesOf).sum

def withWords (words : List (BitVec 64)) (sameLength : words.length = matrix.words.length) :
    BitMatrix :=
  { matrix with words := words, sized := sameLength.trans matrix.sized }

/-- Sets every bit that is set in `other`. The dimensions have to match. -/
def unionFrom (other : BitMatrix) : Option BitMatrix :=
  if same : matrix.rows = other.rows ∧ matrix.cols = other.cols then
    some (matrix.withWords (List.zipWith (· ||| ·) matrix.words other.words)
      (PackedBits.length_union (by
        rw [matrix.sized, other.sized, matrix.stride, other.stride, same.1, same.2])))
  else none

def locate (row col : ℕ) : ℕ × BitVec 64 :=
  (row * matrix.wordsPerRow + col / 64, 1#64 <<< (col % 64))

/-- Reads a bit. Nothing is returned outside of the grid. -/
def get (row col : ℕ) : Option Bool :=
  if row < matrix.rows ∧ col < matrix.cols then
    let (index, bit) := matrix.locate row col
    some (decide (matrix.words.getD index 0 &&& bit ≠ 0))
  else none

def set (row col : ℕ) : Option BitMatrix :=
  if row < matrix.rows ∧ col < matrix.cols then
    let (index, bit) := matrix.locate row col
    some (matrix.withWords (matrix.words.modify index (· ||| bit)) (List.length_modify ..))
  else none

def put (row col : ℕ) (value : Bool) : Option BitMatrix :=
  if row < matrix.rows ∧ col < matrix.cols then
    let (index, bit) := matrix.locate row col
    if value then
      some (matrix.withWords (matrix.words.modify index (· ||| bit)) (List.length_modify ..))
    else some (matrix.withWords (matrix.words.modify index (· &&& ~~~bit)) (List.length_modify ..))
  else none

section Fast

variable {HashType Value Result : Type} (fast : MatrixFastHash HashType)

def colForRow (hashed : HashType) (row : ℕ) : ℕ :=
  MatrixHashType.foldToCol (fast.rowHash hashed row matrix.maskBits) matrix.cols

/-- `fast_insert`: each row reads one cell, applies the operation and writes the cell back. -/
def fastInsert (op : Bool → Value → ℕ → Bool) (value : Value) (hashed : HashType) :
    Option BitMatrix :=
  (List.range matrix.rows).foldlM (fun matrix row =>
    let col := matrix.colForRow fast hashed row
    (matrix.get row col).bind fun cell => matrix.put row col (op cell value row)) matrix

/-- `fast_query_min`: the least result of the operation over the rows. -/
def fastQueryMin [LT Result] [DecidableLT Result] (hashed : HashType)
    (op : Bool → ℕ → HashType → Result) : Option Result :=
  (matrix.get 0 (matrix.colForRow fast hashed 0)).bind fun cell =>
    (List.range' 1 (matrix.rows - 1)).foldlM (fun low row =>
      (matrix.get row (matrix.colForRow fast hashed row)).map fun cell =>
        let candidate := op cell row hashed
        if candidate < low then candidate else low) (op cell 0 hashed)

end Fast

/-! ### Cells -/

def width : ℕ := matrix.wordsPerRow * 64

def cellAt (row col : ℕ) : Bool := PackedBits.bitAt matrix.words (row * matrix.width + col)

theorem cols_le_width : matrix.cols ≤ matrix.width := by
  have enough := Nat.div_add_mod (matrix.cols + 63) 64
  have rest := Nat.mod_lt (matrix.cols + 63) (show 0 < 64 by decide)
  rw [width, matrix.stride, wordsForCols]
  omega

theorem positions : 64 * matrix.words.length = matrix.rows * matrix.width := by
  rw [matrix.sized, width]
  ring

variable {matrix}

theorem position_lt {row col : ℕ} (rowInside : row < matrix.rows) (colInside : col < matrix.width) :
    row * matrix.width + col < 64 * matrix.words.length := by
  rw [positions]
  exact Grid.position_lt rowInside colInside

theorem cellAt_eq (row col : ℕ) : matrix.cellAt row col =
    (matrix.words.getD (row * matrix.wordsPerRow + col / 64) 0).getLsbD (col % 64) := by
  have whole : row * matrix.width + col = 64 * (row * matrix.wordsPerRow) + col := by
    rw [width]
    ring
  rw [cellAt, PackedBits.bitAt, whole, Nat.mul_add_div (by decide), Nat.mul_add_mod]

theorem exists_new {rows cols : ℕ} (rowsPositive : 0 < rows) (colsPositive : 0 < cols) :
    ∃ matrix, new rows cols = some matrix ∧ matrix.rows = rows ∧ matrix.cols = cols ∧
      ∀ row col, matrix.cellAt row col = false := by
  rw [new, dif_pos ⟨rowsPositive, colsPositive⟩]
  exact ⟨_, rfl, rfl, rfl, fun row col => PackedBits.bitAt_clear _ _⟩

theorem locate_eq (row col : ℕ) : matrix.locate row col =
    ((row * matrix.width + col) / 64, PackedBits.mask (row * matrix.width + col)) := by
  have whole : row * matrix.width + col = 64 * (row * matrix.wordsPerRow) + col := by
    rw [width]
    ring
  rw [locate, PackedBits.mask, whole, Nat.mul_add_div (by decide), Nat.mul_add_mod]

theorem get_eq {row col : ℕ} (rowInside : row < matrix.rows) (colInside : col < matrix.cols) :
    matrix.get row col = some (matrix.cellAt row col) := by
  rw [get, if_pos ⟨rowInside, colInside⟩, locate_eq]
  refine congrArg some ?_
  show decide (matrix.words.getD ((row * matrix.width + col) / 64) 0 &&&
    PackedBits.mask (row * matrix.width + col) ≠ 0) = _
  exact PackedBits.decide_and_mask _ _

variable (matrix) in
def mark (row col : ℕ) : BitMatrix :=
  matrix.withWords (PackedBits.setBit matrix.words (row * matrix.width + col))
    PackedBits.length_setBit

theorem set_eq {row col : ℕ} (rowInside : row < matrix.rows) (colInside : col < matrix.cols) :
    matrix.set row col = some (matrix.mark row col) := by
  rw [set, if_pos ⟨rowInside, colInside⟩]
  simp only [locate_eq]
  rfl

theorem put_true {row col : ℕ} (rowInside : row < matrix.rows) (colInside : col < matrix.cols) :
    matrix.put row col true = some (matrix.mark row col) := by
  rw [put, if_pos ⟨rowInside, colInside⟩]
  simp only [locate_eq]
  rfl

theorem cellAt_mark {row col other otherCol : ℕ} (rowInside : row < matrix.rows)
    (colInside : col < matrix.width) (otherInside : otherCol < matrix.width) :
    (matrix.mark row col).cellAt other otherCol =
      (matrix.cellAt other otherCol || decide (other = row ∧ otherCol = col)) := by
  have bit := PackedBits.bitAt_setBit (position_lt rowInside colInside)
    (other * matrix.width + otherCol)
  have sameCell : other * matrix.width + otherCol = row * matrix.width + col ↔
      other = row ∧ otherCol = col := by
    constructor
    · exact Grid.position_inj otherInside colInside
    · rintro ⟨rfl, rfl⟩
      rfl
  rw [← decide_eq_decide.mpr sameCell]
  exact bit

theorem cellAt_unionFrom {other union : BitMatrix} (united : matrix.unionFrom other = some union)
    (row col : ℕ) : union.cellAt row col = (matrix.cellAt row col || other.cellAt row col) := by
  unfold unionFrom at united
  split at united
  · rename_i same
    have sameLength : matrix.words.length = other.words.length := by
      rw [matrix.sized, other.sized, matrix.stride, other.stride, same.1, same.2]
    have sameWidth : other.width = matrix.width := by
      rw [width, width, matrix.stride, other.stride, same.2]
    rw [← Option.some.inj united, cellAt, cellAt, cellAt, sameWidth]
    exact PackedBits.bitAt_union sameLength _
  · exact absurd united.symm (Option.some_ne_none union)

theorem eq_of_cellAt {other : BitMatrix} (sameRows : matrix.rows = other.rows)
    (sameCols : matrix.cols = other.cols) (same : ∀ row < matrix.rows, ∀ col < matrix.width,
      matrix.cellAt row col = other.cellAt row col) : matrix = other := by
  have sameStride : matrix.wordsPerRow = other.wordsPerRow := by
    rw [matrix.stride, other.stride, sameCols]
  have sameWidth : other.width = matrix.width := by
    rw [width, width, sameStride]
  have sameLength : matrix.words.length = other.words.length := by
    rw [matrix.sized, other.sized, sameRows, sameStride]
  refine BitMatrix.ext ?_ sameRows sameCols sameStride ?_
  · refine PackedBits.eq_of_bitAt sameLength fun position inside => ?_
    rw [positions] at inside
    have wide : 0 < matrix.width := Nat.pos_of_ne_zero fun empty => by
      rw [empty, Nat.mul_zero] at inside
      exact Nat.not_lt_zero _ inside
    have here := same (position / matrix.width) (Nat.div_lt_of_lt_mul (by rwa [Nat.mul_comm]))
      (position % matrix.width) (Nat.mod_lt _ wide)
    rwa [cellAt, cellAt, sameWidth, Nat.div_add_mod'] at here
  · rw [matrix.masked, other.masked, sameCols]

theorem fromWords_words (addressable : matrix.rows * matrix.wordsPerRow < 2 ^ 64) :
    fromWords matrix.rows matrix.cols matrix.words = .ok matrix := by
  have positive : ¬(matrix.rows = 0 ∨ matrix.cols = 0) := by
    rintro (empty | empty)
    · exact absurd empty matrix.rowsPositive.ne'
    · exact absurd empty matrix.colsPositive.ne'
  rw [matrix.stride] at addressable
  have sized : matrix.words.length = matrix.rows * wordsForCols matrix.cols := by
    rw [matrix.sized, matrix.stride]
  unfold fromWords
  rw [dif_neg positive]
  dsimp only
  rw [if_neg (Nat.not_le_of_lt addressable), dif_pos sized]
  refine congrArg Except.ok (BitMatrix.ext rfl rfl rfl matrix.stride.symm matrix.masked.symm)

theorem countP_range_eq_sum (holds : ℕ → Bool) (count : ℕ) : (List.range count).countP holds =
    ∑ index ∈ Finset.range count, if holds index = true then 1 else 0 := by
  induction count with
  | zero => rfl
  | succ count hypothesis =>
    rw [List.range_succ, List.countP_append, hypothesis, Finset.sum_range_succ,
      List.countP_singleton]

theorem countP_row {row : ℕ} (padded : ∀ col, matrix.cols ≤ col → col < matrix.width →
      matrix.cellAt row col = false) :
    (List.range matrix.width).countP (matrix.cellAt row) =
      ∑ col ∈ Finset.range matrix.cols, if matrix.cellAt row col = true then 1 else 0 := by
  obtain ⟨spare, filled⟩ := Nat.exists_eq_add_of_le matrix.cols_le_width
  have clear : ((List.range spare).map (matrix.cols + ·)).countP (matrix.cellAt row) = 0 := by
    rw [List.countP_eq_zero]
    intro col member
    obtain ⟨offset, inSpare, rfl⟩ := List.mem_map.mp member
    rw [padded (matrix.cols + offset) (Nat.le_add_right _ _)
      (filled ▸ Nat.add_lt_add_left (List.mem_range.mp inSpare) _)]
    exact Bool.false_ne_true
  rw [filled, List.range_add, List.countP_append, clear, Nat.add_zero, countP_range_eq_sum]

theorem countOnes_eq (padded : ∀ row < matrix.rows, ∀ col, matrix.cols ≤ col → col < matrix.width →
      matrix.cellAt row col = false) :
    matrix.countOnes = ((Finset.range matrix.rows ×ˢ Finset.range matrix.cols).filter fun cell =>
      matrix.cellAt cell.1 cell.2 = true).card := by
  have upTo : ∀ rows ≤ matrix.rows, (List.range (rows * matrix.width)).countP
      (PackedBits.bitAt matrix.words) = ∑ row ∈ Finset.range rows,
        ∑ col ∈ Finset.range matrix.cols, if matrix.cellAt row col = true then 1 else 0 := by
    intro rows within
    induction rows with
    | zero => simp only [Nat.zero_mul, List.range_zero, List.countP_nil, Finset.sum_range_zero]
    | succ row hypothesis =>
      have positions : List.range ((row + 1) * matrix.width) =
          List.range (row * matrix.width) ++
            (List.range matrix.width).map (row * matrix.width + ·) := by
        rw [← List.range_add, Nat.succ_mul]
      rw [positions, List.countP_append, List.countP_map, Finset.sum_range_succ,
        hypothesis (Nat.le_of_succ_le within), ← countP_row (padded row within)]
      rfl
  rw [Finset.card_filter, Finset.sum_product, ← upTo matrix.rows le_rfl, ← matrix.positions]
  exact PackedBits.population_eq matrix.words

end BitMatrix

end AsapSketchlib
