/-
This file models the updates of single rows that Nitro sampling makes, for the three targets that
take them: a bare matrix, Count-Min and Count. A row update cuts its column out of the packed
hash by a shift and a mask, where every other path also folds what it cut to the columns.
-/

import AsapSketchlib.Nitro

namespace AsapSketchlib

open MatrixHashType

namespace Vector2D

variable {Counter : Type}

/-- The column `update_by_row` takes: the hash is shifted, cut to a machine word and masked. -/
def sliceOfRow (cols : ℕ) (hashed : BitVec 128) (row : ℕ) : ℕ :=
  ((hashed >>> (colsMaskBits cols * row)).toNat % 2 ^ 64) &&& ((2 ^ colsMaskBits cols - 1) % 2 ^ 64)

/-- `update_by_row`: nothing is returned where the index is outside of the matrix. -/
def updateByRow (matrix : Vector2D Counter) (row : ℕ) (hashed : BitVec 128)
    (change : Counter → Counter) : Option (Vector2D Counter) :=
  let col := sliceOfRow matrix.cols hashed row
  if row * matrix.cols + col < matrix.data.length then
    some (matrix.updateOneCounter row col change)
  else none

end Vector2D

/-! ### The targets -/

def nitroDeltaSaturatedU32 (delta : BitVec 64) : Counter32 :=
  BitVec.ofNat 32 (min delta.toNat 4294967295)

/-- The implementations of `NitroTarget`: `Vector2D<u32>`, and Count-Min and Count on the fast
path. -/
inductive NitroTarget where
  | vector2D
  | countMin
  | count

namespace NitroTarget

def addend (target : NitroTarget) (hashed : MatrixHashType) (row : ℕ) (delta : BitVec 64) :
    Counter32 :=
  match target with
  | .vector2D => nitroDeltaSaturatedU32 delta
  | .countMin => nitroDeltaSaturatedI32 delta
  | .count => BitVec.ofInt 32 (hashed.signForRow row) * nitroDeltaSaturatedI32 delta

def updateRow (target : NitroTarget) (matrix : Vector2D Counter32) (row : ℕ)
    (hashed : BitVec 128) (delta : BitVec 64) : Option (Vector2D Counter32) :=
  match target with
  | .vector2D => matrix.updateByRow row hashed fun counter => counter + nitroDeltaSaturatedU32 delta
  | .countMin => matrix.updateByRow row hashed fun counter => counter + nitroDeltaSaturatedI32 delta
  | .count =>
    let bit := ((hashed >>> (127 - row)) &&& 1#128).toNat
    let sign : ℤ := bit * 2 - 1
    matrix.updateByRow row hashed fun counter =>
      counter + BitVec.ofInt 32 sign * nitroDeltaSaturatedI32 delta

/-- The loop of `update_sample` over rows. -/
def updateSampleRows (target : NitroTarget) (hashed : MatrixHashType) (delta : BitVec 64)
    (rows : List ℕ) (matrix : Vector2D Counter32) : Vector2D Counter32 :=
  rows.foldl (fun matrix row =>
    matrix.updateOneCounter row (hashed.colForRow row matrix.cols) fun counter =>
      counter + target.addend hashed row delta) matrix

def updateSample (hasher : SketchHasher) (target : NitroTarget) (matrix : Vector2D Counter32)
    (value : DataInput) (delta : BitVec 64) : Vector2D Counter32 :=
  updateSampleRows target (hashForMatrixSeeded hasher 0 matrix.rows matrix.cols value) delta
    (List.range matrix.rows) matrix

def updateRows (target : NitroTarget) (hashed : BitVec 128) (delta : BitVec 64) :
    List ℕ → Vector2D Counter32 → Option (Vector2D Counter32)
  | [], matrix => some matrix
  | row :: rest, matrix =>
    (target.updateRow matrix row hashed delta).bind (updateRows target hashed delta rest)

/-- The row updates of a key address its own cells: each stays inside the matrix and changes the
cell that a sample update and the estimators use, in the same way, and all together have the
effect of a sample update. -/
def Addresses (hasher : SketchHasher) (target : NitroTarget) (matrix : Vector2D Counter32)
    (value : DataInput) (hashed : BitVec 128) : Prop :=
  ∀ delta,
    (∀ row < matrix.rows, target.updateRow matrix row hashed delta =
      some (matrix.updateOneCounter row
        ((hashForMatrixSeeded hasher 0 matrix.rows matrix.cols value).colForRow row matrix.cols)
        fun counter => counter +
          target.addend (hashForMatrixSeeded hasher 0 matrix.rows matrix.cols value) row delta)) ∧
    target.updateRows hashed delta (List.range matrix.rows) matrix =
      some (updateSample hasher target matrix value delta)

/-! ### The slice of a row -/

theorem and_mask (value bits : ℕ) : (value % 2 ^ 64) &&& ((2 ^ bits - 1) % 2 ^ 64) =
    value % 2 ^ bits % 2 ^ 64 := by
  rw [← Nat.and_mod_two_pow, Nat.and_two_pow_sub_one_eq_mod]

theorem colsMaskBits_le {cols : ℕ} (word : cols < 2 ^ 64) : colsMaskBits cols ≤ 64 := by
  have exponent : Nat.log2 cols < 64 := by
    by_cases empty : cols = 0
    · subst empty
      decide
    · exact (Nat.log2_lt empty).mpr word
  unfold colsMaskBits
  split
  · exact Nat.le_of_lt exponent
  · exact exponent

theorem sliceOfRow_eq {cols : ℕ} (word : cols < 2 ^ 64) (hashed : BitVec 128) (row : ℕ) :
    Vector2D.sliceOfRow cols hashed row =
      (packed128 hashed).rowHash row (colsMaskBits cols) := by
  rw [Vector2D.sliceOfRow, and_mask]
  refine Nat.mod_eq_of_lt ?_
  exact (Nat.mod_lt _ (Nat.two_pow_pos _)).trans_le
    (Nat.pow_le_pow_right Nat.two_pos (colsMaskBits_le word))

theorem foldToCol_of_lt {raw cols : ℕ} (below : raw < cols) :
    foldToCol raw cols = raw := by
  unfold foldToCol
  split
  · rfl
  · exact Nat.mod_eq_of_lt below

/-! ### Row updates -/

theorem updateRow_eq (target : NitroTarget) (matrix : Vector2D Counter32) (row : ℕ)
    (hashed : BitVec 128) (delta : BitVec 64) : target.updateRow matrix row hashed delta =
      matrix.updateByRow row hashed fun counter =>
        counter + target.addend (.packed128 hashed) row delta := by
  cases target with
  | vector2D => rfl
  | countMin => rfl
  | count =>
    have bit : ((hashed >>> (127 - row)) &&& 1#128).toNat = (hashed >>> (127 - row)).toNat % 2 := by
      rw [BitVec.toNat_and]
      exact Nat.and_one_is_mod _
    rw [updateRow]
    simp only [bit]
    rfl

variable {matrix : Vector2D Counter32} {hashed : BitVec 128}

/-- The slices of a hash need no folding. -/
def Unfolded (matrix : Vector2D Counter32) (hashed : BitVec 128) : Prop :=
  ∀ row < matrix.rows,
    (MatrixHashType.packed128 hashed).rowHash row (colsMaskBits matrix.cols) < matrix.cols

section

variable (target : NitroTarget)

theorem updateRow_of_lt (word : matrix.cols < 2 ^ 64) {row : ℕ} (inside : row < matrix.rows)
    (below : (packed128 hashed).rowHash row (colsMaskBits matrix.cols) < matrix.cols)
    (delta : BitVec 64) : target.updateRow matrix row hashed delta =
      some (matrix.updateOneCounter row ((packed128 hashed).colForRow row matrix.cols)
        fun counter => counter + target.addend (.packed128 hashed) row delta) := by
  rw [updateRow_eq, Vector2D.updateByRow, sliceOfRow_eq word, colForRow,
    foldToCol_of_lt below]
  refine if_pos ?_
  rw [matrix.sized]
  exact Grid.position_lt inside below

theorem updateRows_of_unfolded (word : matrix.cols < 2 ^ 64) (unfolded : Unfolded matrix hashed)
    (delta : BitVec 64) {rows : List ℕ} (inside : ∀ row ∈ rows, row < matrix.rows) :
    target.updateRows hashed delta rows matrix =
      some (updateSampleRows target (.packed128 hashed) delta rows matrix) := by
  induction rows generalizing matrix with
  | nil => rfl
  | cons row rest hypothesis =>
    have rowInside := inside row List.mem_cons_self
    rw [updateRows, updateRow_of_lt target word rowInside (unfolded row rowInside)]
    have shaped : Unfolded (matrix.updateOneCounter row
        ((packed128 hashed).colForRow row matrix.cols) fun counter =>
          counter + target.addend (.packed128 hashed) row delta) hashed := unfolded
    exact hypothesis word shaped fun other inRest =>
      inside other (List.mem_cons_of_mem row inRest)

theorem addend_one_ne_zero (hashed : MatrixHashType) (row : ℕ) :
    target.addend hashed row 1 ≠ 0 := by
  cases target with
  | vector2D => exact show nitroDeltaSaturatedU32 1 ≠ 0 by decide
  | countMin => exact show nitroDeltaSaturatedI32 1 ≠ 0 by decide
  | count =>
    show BitVec.ofInt 32 (hashed.signForRow row) * nitroDeltaSaturatedI32 1 ≠ 0
    rcases fastHash.signForRow_cases hashed row with up | down
    · rw [show hashed.signForRow row = 1 from up]
      decide
    · rw [show hashed.signForRow row = -1 from down]
      decide

theorem unfolded_of_updateRow (word : matrix.cols < 2 ^ 64) (positive : 0 < matrix.cols) {row : ℕ}
    (addressed : target.updateRow matrix row hashed 1 =
      some (matrix.updateOneCounter row
        ((packed128 hashed).colForRow row matrix.cols)
        fun counter => counter + target.addend (.packed128 hashed) row 1)) :
    (packed128 hashed).rowHash row (colsMaskBits matrix.cols) < matrix.cols := by
  rw [updateRow_eq, Vector2D.updateByRow, sliceOfRow_eq word] at addressed
  by_contra beyond
  have folded := (packed128 hashed).colForRow_lt row positive
  split at addressed
  · rename_i inside
    have same := congrArg Vector2D.data (Option.some.inj addressed)
    have different : row * matrix.cols +
        (packed128 hashed).colForRow row matrix.cols ≠ row * matrix.cols +
          (packed128 hashed).rowHash row (colsMaskBits matrix.cols) := fun equal =>
      beyond (Nat.add_left_cancel equal ▸ folded)
    have here := congrArg (fun data : List Counter32 => data[row * matrix.cols +
      (packed128 hashed).rowHash row (colsMaskBits matrix.cols)]?) same
    simp only [Vector2D.updateOneCounter] at here
    rw [List.getElem?_modify_eq, List.getElem?_modify_ne _ _ different,
      List.getElem?_eq_getElem inside] at here
    exact target.addend_one_ne_zero _ row (by simpa using Option.some.inj here)
  · exact absurd addressed (Option.some_ne_none _).symm

end

/-- The layout of a matrix whose rows need more than 64 bits of the hash and at most 128. -/
def Packed128 (matrix : Vector2D Counter32) : Prop :=
  64 < (colsMaskBits matrix.cols + 1) * matrix.rows ∧
    (colsMaskBits matrix.cols + 1) * matrix.rows ≤ 128

theorem hashForMatrix_packed128 (hasher : SketchHasher) (layout : Packed128 matrix)
    (value : DataInput) : hashForMatrixSeeded hasher 0 matrix.rows matrix.cols value =
      .packed128 (hasher.hash128Seeded 0 value) := by
  unfold hashForMatrixSeeded
  rw [if_neg (Nat.not_le_of_lt layout.1), if_pos layout.2]
  rfl

/-- Row updates address a key's own cells exactly when no slice of its hash needs folding. -/
theorem nitro_rows_iff (hasher : SketchHasher) (target : NitroTarget) (matrix : Vector2D Counter32)
    (positive : 0 < matrix.cols) (word : matrix.cols < 2 ^ 64) (layout : Packed128 matrix)
    (value : DataInput) :
    Addresses hasher target matrix value (hasher.hash128Seeded 0 value) ↔
      ∀ row < matrix.rows, (hashForMatrixSeeded hasher 0 matrix.rows matrix.cols value).rowHash row
        (colsMaskBits matrix.cols) < matrix.cols := by
  unfold Addresses updateSample
  rw [hashForMatrix_packed128 hasher layout value]
  constructor
  · exact fun addresses row inside =>
      unfolded_of_updateRow target word positive ((addresses 1).1 row inside)
  · exact fun unfolded delta => ⟨fun row inside =>
      updateRow_of_lt target word inside (unfolded row inside) delta,
      updateRows_of_unfolded target word unfolded delta fun row => List.mem_range.mp⟩

/-- A hasher whose digests have all bits set. -/
def saturatedHasher : SketchHasher where
  hash64Seeded := fun _ _ => BitVec.allOnes 64
  hash128Seeded := fun _ _ => BitVec.allOnes 128
  hashItem64Seeded := fun _ _ => BitVec.allOnes 64
  hashItem128Seeded := fun _ _ => BitVec.allOnes 128

/-- In a matrix of 1024 columns, a power of two, the slices of all ones are the last columns. -/
theorem nitro_rows_power : Addresses saturatedHasher .count (Vector2D.filled 6 1024 0) (.u64 7)
    (saturatedHasher.hash128Seeded 0 (.u64 7)) :=
  (nitro_rows_iff saturatedHasher .count (Vector2D.filled 6 1024 0) (by decide) (by decide)
    ⟨by decide, by decide⟩ (.u64 7)).mpr (by decide)

/-- In a matrix of 1000 columns they need folding: the row update of the first row writes column
23 of the second row, not of its own, and that of the last row leaves the matrix. -/
theorem nitro_rows_astray :
    Packed128 (Vector2D.filled 6 1000 0) ∧
    (hashForMatrixSeeded saturatedHasher 0 6 1000 (.u64 7)).colForRow 0 1000 = 23 ∧
    (∃ updated, NitroTarget.countMin.updateRow (Vector2D.filled 6 1000 0) 0
        (saturatedHasher.hash128Seeded 0 (.u64 7)) 1 = some updated ∧
      Matrix32.counterAt updated 0 23 = 0 ∧ Matrix32.counterAt updated 1 23 = 1) ∧
    NitroTarget.countMin.updateRow (Vector2D.filled 6 1000 0) 5
      (saturatedHasher.hash128Seeded 0 (.u64 7)) 1 = none ∧
    ¬Addresses saturatedHasher .countMin (Vector2D.filled 6 1000 0) (.u64 7)
      (saturatedHasher.hash128Seeded 0 (.u64 7)) := by
  have checks : ((NitroTarget.countMin.updateRow (Vector2D.filled 6 1000 0) 0
      (saturatedHasher.hash128Seeded 0 (.u64 7)) 1).any fun updated =>
        decide (Matrix32.counterAt updated 0 23 = 0 ∧ Matrix32.counterAt updated 1 23 = 1)) = true := by
    decide +kernel
  obtain ⟨updated, ran, checked⟩ := (Option.any_eq_true _ _).mp checks
  have leaves : NitroTarget.countMin.updateRow (Vector2D.filled 6 1000 0) 5
      (saturatedHasher.hash128Seeded 0 (.u64 7)) 1 = none :=
    Option.isNone_iff_eq_none.mp (by decide +kernel)
  refine ⟨⟨by decide, by decide⟩, by decide, ⟨updated, ran, of_decide_eq_true checked⟩, leaves,
    fun addresses => ?_⟩
  have returned := (addresses 1).1 5 (by decide)
  exact Option.some_ne_none _ (returned.symm.trans leaves)

end NitroTarget

end AsapSketchlib
