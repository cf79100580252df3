/-
This file develops row-major storage: a grid of cells kept in one flat list, with the loop
every matrix sketch runs over it, which changes one cell of each row.

The cell at a row and a column of the grid is changed by such a loop exactly where the loop
visits that column in that row.
-/

import Mathlib.Data.List.Basic
import Mathlib.Tactic.Ring

namespace AsapSketchlib

/-! ### Flat grids -/

namespace Grid

variable {Cell : Type}

theorem position_inj {cols row col row' col' : ℕ} (inside : col < cols) (inside' : col' < cols)
    (same : row * cols + col = row' * cols + col') : row = row' ∧ col = col' := by
  have positive : 0 < cols := Nat.zero_lt_of_lt inside
  have rowOf : ∀ row col, col < cols → (row * cols + col) / cols = row := by
    intro row col inside
    rw [Nat.add_comm, Nat.add_mul_div_right _ _ positive, Nat.div_eq_of_lt inside, Nat.zero_add]
  have sameRow : row = row' := by
    rw [← rowOf row col inside, ← rowOf row' col' inside', same]
  subst sameRow
  exact ⟨rfl, Nat.add_left_cancel same⟩

theorem position_lt {rows cols row col : ℕ} (rowInside : row < rows) (colInside : col < cols) :
    row * cols + col < rows * cols :=
  calc
    row * cols + col < row * cols + cols := Nat.add_lt_add_left colInside _
    _ = (row + 1) * cols := by ring
    _ ≤ rows * cols := Nat.mul_le_mul_right cols rowInside

/-- The loop `for row in 0..rows` that changes one cell of each row. -/
def updateRows (cols : ℕ) (colOf : ℕ → ℕ) (change : ℕ → Cell → Cell) :
    ℕ → List Cell → List Cell
  | 0, cells => cells
  | row + 1, cells =>
    (updateRows cols colOf change row cells).modify (row * cols + colOf row) (change row)

variable (cols : ℕ) (colOf : ℕ → ℕ) (change : ℕ → Cell → Cell)

@[simp] theorem length_updateRows (rows : ℕ) (cells : List Cell) :
    (updateRows cols colOf change rows cells).length = cells.length := by
  induction rows with
  | zero => rfl
  | succ row hypothesis => rw [updateRows, List.length_modify, hypothesis]

variable {cols colOf}

theorem getElem?_updateRows (colsInside : ∀ row, colOf row < cols) (rows : ℕ) (cells : List Cell)
    {row col : ℕ} (colInside : col < cols) :
    (updateRows cols colOf change rows cells)[row * cols + col]? =
      if row < rows ∧ colOf row = col then (cells[row * cols + col]?).map (change row)
      else cells[row * cols + col]? := by
  induction rows with
  | zero => rw [if_neg (fun visited => Nat.not_lt_zero _ visited.1), updateRows]
  | succ last hypothesis =>
    rw [updateRows]
    by_cases here : row = last ∧ colOf row = col
    · obtain ⟨rfl, rfl⟩ := here
      rw [List.getElem?_modify_eq, hypothesis, if_neg (fun visited => Nat.lt_irrefl _ visited.1),
        if_pos ⟨Nat.lt_succ_self row, rfl⟩]
      rfl
    · have elsewhere : last * cols + colOf last ≠ row * cols + col := fun same => by
        obtain ⟨rfl, rfl⟩ := position_inj (colsInside last) colInside same
        exact here ⟨rfl, rfl⟩
      have sameVisits : (row < last + 1 ∧ colOf row = col) ↔ (row < last ∧ colOf row = col) := by
        constructor
        · rintro ⟨inside, sameCol⟩
          rcases Nat.lt_succ_iff_lt_or_eq.mp inside with below | rfl
          · exact ⟨below, sameCol⟩
          · exact absurd ⟨rfl, sameCol⟩ here
        · rintro ⟨inside, sameCol⟩
          exact ⟨Nat.lt_succ_of_lt inside, sameCol⟩
      rw [List.getElem?_modify_ne _ _ elsewhere, hypothesis]
      simp only [sameVisits]

end Grid

/-! ### The matrix of the sketches -/

/-- A matrix in row-major order. -/
structure Vector2D (Counter : Type) where
  data : List Counter
  rows : ℕ
  cols : ℕ
  sized : data.length = rows * cols

namespace Vector2D

variable {Counter : Type}

/-- `Vector2D::init` followed by `fill`. -/
def filled (rows cols : ℕ) (value : Counter) : Vector2D Counter where
  data := List.replicate (rows * cols) value
  rows := rows
  cols := cols
  sized := List.length_replicate

/-- `update_one_counter`: the counter at a row and a column under an operation. -/
def updateOneCounter (matrix : Vector2D Counter) (row col : ℕ) (change : Counter → Counter) :
    Vector2D Counter where
  data := matrix.data.modify (row * matrix.cols + col) change
  rows := matrix.rows
  cols := matrix.cols
  sized := (List.length_modify _ _ _).trans matrix.sized

/-- The loop over all rows that updates one counter of each. -/
def updateRows (matrix : Vector2D Counter) (colOf : ℕ → ℕ) (change : ℕ → Counter → Counter) :
    Vector2D Counter where
  data := Grid.updateRows matrix.cols colOf change matrix.rows matrix.data
  rows := matrix.rows
  cols := matrix.cols
  sized := (Grid.length_updateRows _ _ _ _ _).trans matrix.sized

/-- Adds the counters of another matrix of the same shape. -/
def add (matrix other : Vector2D ℤ) : Vector2D ℤ where
  data := matrix.data.mapIdx fun place counter => counter + other.data.getD place 0
  rows := matrix.rows
  cols := matrix.cols
  sized := List.length_mapIdx.trans matrix.sized

/-- Keeps the larger of each pair of counters of another matrix of the same shape. -/
def maximum (matrix other : Vector2D ℤ) : Vector2D ℤ where
  data := matrix.data.mapIdx fun place counter =>
    if counter < other.data.getD place 0 then other.data.getD place 0 else counter
  rows := matrix.rows
  cols := matrix.cols
  sized := List.length_mapIdx.trans matrix.sized

def queryOneCounter (matrix : Vector2D ℤ) (row col : ℕ) : ℤ :=
  (matrix.data[row * matrix.cols + col]?).getD 0

@[simp] theorem queryOneCounter_filled (rows cols row col : ℕ) :
    queryOneCounter (filled rows cols 0) row col = 0 := by
  unfold queryOneCounter filled
  rw [List.getElem?_replicate]
  split <;> rfl

theorem queryOneCounter_updateRows (matrix : Vector2D ℤ) (colOf : ℕ → ℕ) (delta : ℕ → ℤ)
    (colsInside : ∀ row, colOf row < matrix.cols) {row col : ℕ} (rowInside : row < matrix.rows)
    (colInside : col < matrix.cols) :
    queryOneCounter (matrix.updateRows colOf fun row counter => counter + delta row) row col =
      queryOneCounter matrix row col + if colOf row = col then delta row else 0 := by
  have inside : row * matrix.cols + col < matrix.data.length := by
    rw [matrix.sized]
    exact Grid.position_lt rowInside colInside
  simp only [queryOneCounter, updateRows, Grid.getElem?_updateRows _ colsInside _ _ colInside,
    List.getElem?_eq_getElem inside, rowInside, true_and]
  by_cases visited : colOf row = col
  · rw [if_pos visited, if_pos visited]
    rfl
  · rw [if_neg visited, if_neg visited, add_zero]

theorem queryOneCounter_updateOneCounter (matrix : Vector2D ℤ) (change : ℤ → ℤ)
    {row col target targetCol : ℕ} (rowInside : row < matrix.rows) (colInside : col < matrix.cols)
    (targetInside : targetCol < matrix.cols) :
    queryOneCounter (matrix.updateOneCounter target targetCol change) row col =
      if (target, targetCol) = (row, col) then change (queryOneCounter matrix row col)
      else queryOneCounter matrix row col := by
  have inside : row * matrix.cols + col < matrix.data.length := by
    rw [matrix.sized]
    exact Grid.position_lt rowInside colInside
  by_cases same : (target, targetCol) = (row, col)
  · obtain ⟨rfl, rfl⟩ := Prod.mk.inj same
    simp only [queryOneCounter, updateOneCounter, List.getElem?_modify_eq, if_true,
      List.getElem?_eq_getElem inside, Option.map_eq_map, Option.map_some, Option.getD_some]
  · have elsewhere : target * matrix.cols + targetCol ≠ row * matrix.cols + col := fun equal => by
      obtain ⟨rfl, rfl⟩ := Grid.position_inj targetInside colInside equal
      exact same rfl
    rw [if_neg same]
    simp only [queryOneCounter, updateOneCounter, List.getElem?_modify_ne _ _ elsewhere]

theorem queryOneCounter_add {matrix other : Vector2D ℤ} (sameRows : matrix.rows = other.rows)
    (sameCols : matrix.cols = other.cols) {row col : ℕ} (rowInside : row < matrix.rows)
    (colInside : col < matrix.cols) :
    (matrix.add other).queryOneCounter row col =
      matrix.queryOneCounter row col + other.queryOneCounter row col := by
  have inside : row * matrix.cols + col < matrix.data.length := by
    rw [matrix.sized]
    exact Grid.position_lt rowInside colInside
  have otherInside : row * matrix.cols + col < other.data.length := by
    rw [other.sized, ← sameRows, ← sameCols, ← matrix.sized]
    exact inside
  simp only [queryOneCounter, add, List.getElem?_mapIdx, List.getElem?_eq_getElem inside]
  rw [← sameCols, List.getElem?_eq_getElem otherInside, List.getD_eq_getElem?_getD,
    List.getElem?_eq_getElem otherInside]
  rfl

theorem eq_of_queryOneCounter {left right : Vector2D ℤ} (sameRows : left.rows = right.rows)
    (sameCols : left.cols = right.cols)
    (same : ∀ row col, row < left.rows → col < left.cols →
      queryOneCounter left row col = queryOneCounter right row col) : left = right := by
  obtain ⟨leftData, rows, cols, leftSized⟩ := left
  obtain ⟨rightData, rightRows, rightCols, rightSized⟩ := right
  obtain rfl : rows = rightRows := sameRows
  obtain rfl : cols = rightCols := sameCols
  have sameData : leftData = rightData := by
    refine List.ext_getElem (leftSized.trans rightSized.symm) fun place inLeft inRight => ?_
    have inside : place < rows * cols := leftSized ▸ inLeft
    have positive : 0 < cols := Nat.pos_of_ne_zero fun empty => by
      rw [empty, Nat.mul_zero] at inside
      exact Nat.not_lt_zero _ inside
    have atPlace := same (place / cols) (place % cols)
      (Nat.div_lt_of_lt_mul (Nat.mul_comm rows cols ▸ inside)) (Nat.mod_lt _ positive)
    simp only [queryOneCounter, Nat.div_add_mod' place cols, List.getElem?_eq_getElem inLeft,
      List.getElem?_eq_getElem inRight, Option.getD_some] at atPlace
    exact atPlace
  subst sameData
  rfl

def cellAt (matrix : Vector2D ℤ) (cell : ℕ × ℕ) : ℤ :=
  if cell.1 < matrix.rows ∧ cell.2 < matrix.cols then queryOneCounter matrix cell.1 cell.2 else 0

theorem cellAt_of_inside (matrix : Vector2D ℤ) (cell : ℕ × ℕ) (rowInside : cell.1 < matrix.rows)
    (colInside : cell.2 < matrix.cols) :
    matrix.cellAt cell = queryOneCounter matrix cell.1 cell.2 := if_pos ⟨rowInside, colInside⟩

@[simp] theorem cellAt_filled (rows cols : ℕ) (cell : ℕ × ℕ) :
    (filled rows cols 0).cellAt cell = 0 := by
  rw [cellAt, queryOneCounter_filled, ite_self]

theorem cellAt_updateOneCounter (matrix : Vector2D ℤ) (change : ℤ → ℤ) (target : ℕ × ℕ)
    (rowInside : target.1 < matrix.rows) (colInside : target.2 < matrix.cols) (cell : ℕ × ℕ) :
    (matrix.updateOneCounter target.1 target.2 change).cellAt cell =
      if target = cell then change (matrix.cellAt cell) else matrix.cellAt cell := by
  show (if cell.1 < matrix.rows ∧ cell.2 < matrix.cols then
    queryOneCounter (matrix.updateOneCounter target.1 target.2 change) cell.1 cell.2 else 0) = _
  by_cases inside : cell.1 < matrix.rows ∧ cell.2 < matrix.cols
  · rw [if_pos inside, cellAt_of_inside matrix cell inside.1 inside.2]
    exact queryOneCounter_updateOneCounter matrix change inside.1 inside.2 colInside
  · have elsewhere : target ≠ cell := fun same => inside (same ▸ ⟨rowInside, colInside⟩)
    rw [if_neg inside, if_neg elsewhere, cellAt, if_neg inside]

end Vector2D

end AsapSketchlib
