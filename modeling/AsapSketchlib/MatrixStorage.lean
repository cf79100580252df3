/-
This file models the storages of the matrix sketches behind the trait they share: `Vector2D`,
which decodes the columns of a hash with the mask it cached, and the matrices a macro generates
for fixed dimensions, which decode them anew. On both paths a loop over the rows reaches one
counter of each, and a counter changes exactly where the loop reaches it.

Counters are integers, so the model is of runs that overflow no counter.
-/

import AsapSketchlib.EmittedDeltas

namespace AsapSketchlib

/-! ### Hashes of the fast path -/

/-- What the fast path asks of a hasher: `SketchHasher::HashType` with its `assert_compatible`,
and `hash_for_matrix_seeded` for a seed index and the dimensions. -/
structure MatrixHasher (HashType : Type) where
  decode : MatrixFastHash HashType
  assertCompatible : ℕ → ℕ → Bool
  hashForMatrixSeeded : ℕ → ℕ → ℕ → DataInput → HashType

namespace MatrixHasher

/-- A hasher whose hash type is the one of the crate, which is compatible with every matrix. -/
def ofSketchHasher (hasher : SketchHasher) : MatrixHasher MatrixHashType where
  decode := MatrixHashType.fastHash
  assertCompatible := fun _ _ => true
  hashForMatrixSeeded := AsapSketchlib.hashForMatrixSeeded hasher

end MatrixHasher

/-! ### The storages -/

/-- A matrix of `impl_fixed_matrix!`: a boxed array of the size its literals give. -/
structure FixedMatrix where
  rows : ℕ
  cols : ℕ
  data : List ℤ
  sized : data.length = rows * cols

/-- A matrix storage. A `Vector2D` carries the number of mask bits it computed when it was built. -/
inductive MatrixStorage where
  | vector2D (matrix : Vector2D ℤ) (maskBits : ℕ)
  | fixedMatrix (matrix : FixedMatrix)

namespace MatrixStorage

/-- `Vector2D::init` followed by `fill`. -/
def newVector2D (rows cols : ℕ) : MatrixStorage :=
  .vector2D (Vector2D.filled rows cols 0) (colsMaskBits cols)

/-- The `Default` of a fixed matrix. -/
def newFixedMatrix (rows cols : ℕ) : MatrixStorage :=
  .fixedMatrix ⟨rows, cols, List.replicate (rows * cols) 0, List.length_replicate⟩

def rows : MatrixStorage → ℕ
  | .vector2D matrix _ => matrix.rows
  | .fixedMatrix matrix => matrix.rows

def cols : MatrixStorage → ℕ
  | .vector2D matrix _ => matrix.cols
  | .fixedMatrix matrix => matrix.cols

/-- `query_one_counter`, which stops outside the array. -/
def queryOneCounter? (storage : MatrixStorage) (row col : ℕ) : Option ℤ :=
  match storage with
  | .vector2D matrix _ => matrix.data[row * matrix.cols + col]?
  | .fixedMatrix matrix => matrix.data[row * matrix.cols + col]?

/-- `query_one_counter` inside the array. -/
def queryOneCounter (storage : MatrixStorage) (row col : ℕ) : ℤ :=
  (storage.queryOneCounter? row col).getD 0

def updateOneCounter (storage : MatrixStorage) (row col : ℕ) (op : ℤ → ℤ) : MatrixStorage :=
  match storage with
  | .vector2D matrix maskBits => .vector2D (matrix.updateOneCounter row col op) maskBits
  | .fixedMatrix matrix => .fixedMatrix
    { matrix with
      data := matrix.data.modify (row * matrix.cols + col) op
      sized := (List.length_modify _ _ _).trans matrix.sized }

def incrementByRow (storage : MatrixStorage) (row col : ℕ) (value : ℤ) : MatrixStorage :=
  storage.updateOneCounter row col fun counter => counter + value

section FastPath

variable {HashType : Type} (decode : MatrixFastHash HashType)

/-- The column of a hash in a row: decoded with the cached mask by `Vector2D::col_for_row`, and by
`MatrixFastHash::col_for_row` for a fixed matrix. -/
def colForRow (storage : MatrixStorage) (hashed : HashType) (row : ℕ) : ℕ :=
  match storage with
  | .vector2D matrix maskBits =>
    MatrixHashType.foldToCol (decode.rowHash hashed row maskBits) matrix.cols
  | .fixedMatrix matrix => decode.colForRow hashed row matrix.cols

/-- `fast_insert`: the loop over the rows. -/
def fastInsert (storage : MatrixStorage) (op : ℕ → ℤ → ℤ) (hashed : HashType) : MatrixStorage :=
  (List.range storage.rows).foldl
    (fun current row => current.updateOneCounter row (colForRow decode current hashed row) (op row))
    storage

def counterForRow (storage : MatrixStorage) (hashed : HashType) (row : ℕ) : ℤ :=
  storage.queryOneCounter row (colForRow decode storage hashed row)

/-- `fast_query_min` of the counters. The first read stops where there is no row. -/
def fastQueryMin (storage : MatrixStorage) (hashed : HashType) : Option ℤ :=
  (storage.queryOneCounter? 0 (colForRow decode storage hashed 0)).map fun first =>
    runningMin (counterForRow decode storage hashed) (List.range' 1 (storage.rows - 1)) first

/-- `fast_query_median` under an operation on the counters. -/
def fastQueryMedian (storage : MatrixStorage) (hashed : HashType) (op : ℕ → ℤ → ℚ) : ℚ :=
  Median.computeMedianInline meanF64 0 ((List.range storage.rows).map fun row =>
    op row (counterForRow decode storage hashed row))

end FastPath

/-- `hash_for_matrix`, which stops where the hash type cannot encode the dimensions. -/
def hashForMatrix {HashType : Type} (hasher : MatrixHasher HashType) (storage : MatrixStorage)
    (value : DataInput) : Option HashType :=
  if hasher.assertCompatible storage.rows storage.cols = true then
    some (hasher.hashForMatrixSeeded 0 storage.rows storage.cols value)
  else none

/-! ### What the operations do to a counter -/

/-- A storage of these dimensions whose cached mask is the one of its columns. -/
structure Shaped (numRows numCols : ℕ) (storage : MatrixStorage) : Prop where
  rows : storage.rows = numRows
  cols : storage.cols = numCols
  cached : ∀ matrix maskBits, storage = .vector2D matrix maskBits → maskBits = colsMaskBits numCols

variable {numRows numCols : ℕ} {storage : MatrixStorage}

theorem shaped_newVector2D (numRows numCols : ℕ) :
    Shaped numRows numCols (newVector2D numRows numCols) :=
  ⟨rfl, rfl, fun _ _ same => (MatrixStorage.vector2D.inj same).2.symm⟩

theorem shaped_newFixedMatrix (numRows numCols : ℕ) :
    Shaped numRows numCols (newFixedMatrix numRows numCols) :=
  ⟨rfl, rfl, fun _ _ same => nomatch same⟩

theorem Shaped.updateOneCounter (shaped : Shaped numRows numCols storage) (row col : ℕ)
    (op : ℤ → ℤ) : Shaped numRows numCols (storage.updateOneCounter row col op) := by
  cases storage with
  | vector2D matrix maskBits =>
    refine ⟨shaped.rows, shaped.cols, fun other bits same => ?_⟩
    rw [← (MatrixStorage.vector2D.inj same).2]
    exact shaped.cached matrix maskBits rfl
  | fixedMatrix matrix => exact ⟨shaped.rows, shaped.cols, fun _ _ same => nomatch same⟩

theorem queryOneCounter_newVector2D (numRows numCols row col : ℕ) :
    (newVector2D numRows numCols).queryOneCounter row col = 0 :=
  Vector2D.queryOneCounter_filled numRows numCols row col

theorem queryOneCounter_newFixedMatrix (numRows numCols row col : ℕ) :
    (newFixedMatrix numRows numCols).queryOneCounter row col = 0 :=
  Vector2D.queryOneCounter_filled numRows numCols row col

section

variable (shaped : Shaped numRows numCols storage)

include shaped

theorem Shaped.queryOneCounter?_eq {row col : ℕ} (rowInside : row < numRows)
    (colInside : col < numCols) :
    storage.queryOneCounter? row col = some (storage.queryOneCounter row col) := by
  have read : ∀ {data : List ℤ}, data.length = numRows * numCols →
      data[row * numCols + col]? = some ((data[row * numCols + col]?).getD 0) := by
    intro data sized
    rw [List.getElem?_eq_getElem (sized ▸ Grid.position_lt rowInside colInside), Option.getD_some]
  obtain ⟨rowsEq, colsEq, -⟩ := shaped
  cases storage with
  | vector2D matrix maskBits =>
    obtain rfl : matrix.rows = numRows := rowsEq
    obtain rfl : matrix.cols = numCols := colsEq
    exact read matrix.sized
  | fixedMatrix matrix =>
    obtain rfl : matrix.rows = numRows := rowsEq
    obtain rfl : matrix.cols = numCols := colsEq
    exact read matrix.sized

theorem Shaped.first_read {col : ℕ} (colInside : col < numCols) :
    storage.queryOneCounter? 0 col =
      if 0 < numRows then some (storage.queryOneCounter 0 col) else none := by
  by_cases nonempty : 0 < numRows
  · rw [if_pos nonempty, shaped.queryOneCounter?_eq nonempty colInside]
  · rw [if_neg nonempty]
    have noRow : storage.rows = 0 := shaped.rows.trans (Nat.eq_zero_of_not_pos nonempty)
    have empty : ∀ {data : List ℤ} {cols : ℕ}, data.length = storage.rows * cols → data = [] := by
      intro data cols sized
      rw [noRow, Nat.zero_mul] at sized
      exact List.eq_nil_of_length_eq_zero sized
    cases storage with
    | vector2D matrix maskBits =>
      rw [queryOneCounter?, empty matrix.sized, List.getElem?_nil]
    | fixedMatrix matrix => rw [queryOneCounter?, empty matrix.sized, List.getElem?_nil]

theorem Shaped.queryOneCounter_updateOneCounter (op : ℤ → ℤ) {row col target targetCol : ℕ}
    (rowInside : row < numRows) (colInside : col < numCols) (targetInside : targetCol < numCols) :
    (storage.updateOneCounter target targetCol op).queryOneCounter row col =
      if (target, targetCol) = (row, col) then op (storage.queryOneCounter row col)
      else storage.queryOneCounter row col := by
  obtain ⟨rowsEq, colsEq, -⟩ := shaped
  cases storage with
  | vector2D matrix maskBits =>
    obtain rfl : matrix.rows = numRows := rowsEq
    obtain rfl : matrix.cols = numCols := colsEq
    exact matrix.queryOneCounter_updateOneCounter op rowInside colInside targetInside
  | fixedMatrix matrix =>
    obtain rfl : matrix.rows = numRows := rowsEq
    obtain rfl : matrix.cols = numCols := colsEq
    exact Vector2D.queryOneCounter_updateOneCounter
      ⟨matrix.data, matrix.rows, matrix.cols, matrix.sized⟩ op rowInside colInside targetInside

theorem Shaped.colForRow_eq {HashType : Type} (decode : MatrixFastHash HashType) (hashed : HashType)
    (row : ℕ) : colForRow decode storage hashed row = decode.colForRow hashed row numCols := by
  obtain ⟨-, colsEq, cached⟩ := shaped
  cases storage with
  | vector2D matrix maskBits =>
    obtain rfl : matrix.cols = numCols := colsEq
    rw [colForRow, cached matrix maskBits rfl]
    exact (decode.colForRow_eq hashed row matrix.cols).symm
  | fixedMatrix matrix =>
    obtain rfl : matrix.cols = numCols := colsEq
    rfl

end

/-! ### Loops over the rows -/

/-- The loop that updates one counter of each of the first rows. -/
def updateBelow (storage : MatrixStorage) (colOf : ℕ → ℕ) (op : ℕ → ℤ → ℤ) (count : ℕ) :
    MatrixStorage :=
  (List.range count).foldl (fun current row => current.updateOneCounter row (colOf row) (op row))
    storage

theorem updateBelow_succ (storage : MatrixStorage) (colOf : ℕ → ℕ) (op : ℕ → ℤ → ℤ) (count : ℕ) :
    storage.updateBelow colOf op (count + 1) =
      (storage.updateBelow colOf op count).updateOneCounter count (colOf count) (op count) := by
  rw [updateBelow, List.range_succ, List.foldl_append]
  rfl

section

variable (shaped : Shaped numRows numCols storage)

include shaped

theorem Shaped.updateBelow (colOf : ℕ → ℕ) (op : ℕ → ℤ → ℤ) (count : ℕ) :
    Shaped numRows numCols (storage.updateBelow colOf op count) := by
  induction count with
  | zero => exact shaped
  | succ count hypothesis =>
    rw [updateBelow_succ]
    exact hypothesis.updateOneCounter count (colOf count) (op count)

theorem Shaped.queryOneCounter_updateBelow {colOf : ℕ → ℕ} (op : ℕ → ℤ → ℤ)
    (colsInside : ∀ row, colOf row < numCols) {count row col : ℕ} (rowInside : row < numRows)
    (colInside : col < numCols) :
    (storage.updateBelow colOf op count).queryOneCounter row col =
      if row < count ∧ colOf row = col then op row (storage.queryOneCounter row col)
      else storage.queryOneCounter row col := by
  induction count with
  | zero =>
    rw [if_neg fun reached => Nat.not_lt_zero row reached.1]
    rfl
  | succ count hypothesis =>
    rw [updateBelow_succ, (shaped.updateBelow colOf op count).queryOneCounter_updateOneCounter
      (op count) rowInside colInside (colsInside count), hypothesis]
    by_cases here : (count, colOf count) = (row, col)
    · obtain ⟨rfl, reached⟩ := Prod.mk.inj here
      rw [if_pos here, if_neg fun earlier => Nat.lt_irrefl _ earlier.1,
        if_pos ⟨Nat.lt_succ_self _, reached⟩]
    · rw [if_neg here]
      refine if_congr ?_ rfl rfl
      refine ⟨fun earlier => ⟨Nat.lt_succ_of_lt earlier.1, earlier.2⟩, fun reached => ?_⟩
      refine ⟨(Nat.lt_succ_iff_lt_or_eq.mp reached.1).resolve_right fun same => here ?_, reached.2⟩
      rw [← same, reached.2]

theorem Shaped.fastInsert_eq {HashType : Type} (decode : MatrixFastHash HashType) (op : ℕ → ℤ → ℤ)
    (hashed : HashType) :
    fastInsert decode storage op hashed =
      storage.updateBelow (fun row => decode.colForRow hashed row numCols) op numRows := by
  rw [fastInsert, shaped.rows, MatrixStorage.updateBelow]
  generalize List.range numRows = visited
  induction visited generalizing storage with
  | nil => rfl
  | cons row rest hypothesis =>
    rw [List.foldl_cons, List.foldl_cons, shaped.colForRow_eq decode hashed row]
    exact hypothesis (shaped.updateOneCounter row _ (op row))

end

/-! ### Loops over all counters -/

/-- The double loop that updates every counter, given a second matrix. -/
def updateEach (storage other : MatrixStorage) (op : ℤ → ℤ → ℤ) : MatrixStorage :=
  (List.range storage.rows).foldl
    (fun current row => (List.range storage.cols).foldl
      (fun current col => current.updateOneCounter row col (op (other.queryOneCounter row col)))
      current) storage

/-- The inner loop reaches the first columns of its row. -/
theorem Shaped.inner_spec (shaped : Shaped numRows numCols storage) (op : ℕ → ℤ → ℤ)
    (target : ℕ) {count : ℕ} (within : count ≤ numCols) :
    Shaped numRows numCols ((List.range count).foldl
        (fun current col => current.updateOneCounter target col (op col)) storage) ∧
      ∀ row < numRows, ∀ col < numCols,
        ((List.range count).foldl
          (fun current col => current.updateOneCounter target col (op col)) storage).queryOneCounter
            row col =
          if row = target ∧ col < count then op col (storage.queryOneCounter row col)
          else storage.queryOneCounter row col := by
  induction count with
  | zero =>
    refine ⟨shaped, fun row _ col _ => ?_⟩
    rw [if_neg fun reached => Nat.not_lt_zero col reached.2]
    rfl
  | succ count hypothesis =>
    obtain ⟨shapedBefore, before⟩ := hypothesis (Nat.le_of_succ_le within)
    rw [List.range_succ, List.foldl_append, List.foldl_cons, List.foldl_nil]
    refine ⟨shapedBefore.updateOneCounter target count (op count),
      fun row rowInside col colInside => ?_⟩
    rw [shapedBefore.queryOneCounter_updateOneCounter (op count) rowInside colInside within,
      before row rowInside col colInside]
    by_cases here : (target, count) = (row, col)
    · obtain ⟨rfl, rfl⟩ := Prod.mk.inj here
      rw [if_pos rfl, if_neg fun earlier => Nat.lt_irrefl _ earlier.2,
        if_pos ⟨rfl, Nat.lt_succ_self _⟩]
    · rw [if_neg here]
      refine if_congr (and_congr_right fun same => ?_) rfl rfl
      refine ⟨Nat.lt_succ_of_lt, fun reached => ?_⟩
      refine (Nat.lt_succ_iff_lt_or_eq.mp reached).resolve_right fun last => here ?_
      rw [same, last]

/-- The double loop updates every counter once, from the counter of the other matrix. -/
theorem Shaped.updateEach_spec (shaped : Shaped numRows numCols storage) (other : MatrixStorage)
    (op : ℤ → ℤ → ℤ) :
    Shaped numRows numCols (storage.updateEach other op) ∧
      ∀ row < numRows, ∀ col < numCols, (storage.updateEach other op).queryOneCounter row col =
        op (other.queryOneCounter row col) (storage.queryOneCounter row col) := by
  have outer : ∀ count ≤ numRows,
      Shaped numRows numCols ((List.range count).foldl (fun current row =>
        (List.range numCols).foldl (fun current col => current.updateOneCounter row col
          (op (other.queryOneCounter row col))) current) storage) ∧
        ∀ row < numRows, ∀ col < numCols, ((List.range count).foldl (fun current row =>
          (List.range numCols).foldl (fun current col => current.updateOneCounter row col
            (op (other.queryOneCounter row col))) current) storage).queryOneCounter row col =
          if row < count then op (other.queryOneCounter row col) (storage.queryOneCounter row col)
          else storage.queryOneCounter row col := by
    intro count within
    induction count with
    | zero =>
      refine ⟨shaped, fun row _ col _ => ?_⟩
      rw [if_neg (Nat.not_lt_zero row)]
      rfl
    | succ count hypothesis =>
      obtain ⟨shapedBefore, before⟩ := hypothesis (Nat.le_of_succ_le within)
      rw [List.range_succ, List.foldl_append, List.foldl_cons, List.foldl_nil]
      obtain ⟨shapedAfter, after⟩ := shapedBefore.inner_spec
        (fun col => op (other.queryOneCounter count col)) count le_rfl
      refine ⟨shapedAfter, fun row rowInside col colInside => ?_⟩
      rw [after row rowInside col colInside, before row rowInside col colInside]
      by_cases here : row = count
      · rw [here, if_pos ⟨rfl, colInside⟩, if_neg (Nat.lt_irrefl count),
          if_pos (Nat.lt_succ_self count)]
      · rw [if_neg fun reached => here reached.1]
        refine if_congr ⟨Nat.lt_succ_of_lt, fun reached => ?_⟩ rfl rfl
        exact (Nat.lt_succ_iff_lt_or_eq.mp reached).resolve_right here
  unfold updateEach
  rw [shaped.rows, shaped.cols]
  refine ⟨(outer numRows le_rfl).1, fun row rowInside col colInside => ?_⟩
  rw [(outer numRows le_rfl).2 row rowInside col colInside, if_pos rowInside]

end MatrixStorage

end AsapSketchlib
