/-
This file models the fast path of the matrix sketches: one hash from which the columns of all
rows are taken, and Count-Min over it. Its counters are linear in the stream, so merging the
sketches of two streams gives the sketch of both, and no estimate is too low.
-/

import AsapSketchlib.CountL2HH
import AsapSketchlib.MatrixSketch
import Mathlib.Algebra.Order.BigOperators.Group.List

namespace AsapSketchlib

/-! ### Packed hashes -/

/-- The hash of all rows of a matrix. -/
inductive MatrixHashType where
  | packed64 (value : BitVec 64)
  | packed128 (value : BitVec 128)
  | rows (values : List (BitVec 64))

namespace MatrixHashType

/-- The hash bits of one row. The mask keeps the lowest `maskBits` bits. -/
def rowHash (hashed : MatrixHashType) (row maskBits : ℕ) : ℕ :=
  match hashed with
  | packed64 value => (value >>> (maskBits * row)).toNat % 2 ^ maskBits
  | packed128 value => (value >>> (maskBits * row)).toNat % 2 ^ maskBits
  | rows values => (values.getD row 0).toNat % 2 ^ maskBits

/-- `fold_to_col`: the reduction is left out where the number of columns is a power of two. -/
def foldToCol (raw cols : ℕ) : ℕ := if 2 ^ Nat.log2 cols = cols then raw else raw % cols

def colForRow (hashed : MatrixHashType) (row cols : ℕ) : ℕ :=
  foldToCol (hashed.rowHash row (colsMaskBits cols)) cols

theorem rowHash_lt (hashed : MatrixHashType) (row maskBits : ℕ) :
    hashed.rowHash row maskBits < 2 ^ maskBits := by
  cases hashed <;> exact Nat.mod_lt _ (Nat.two_pow_pos maskBits)

theorem colForRow_lt (hashed : MatrixHashType) (row : ℕ) {cols : ℕ} (positive : 0 < cols) :
    hashed.colForRow row cols < cols := by
  unfold colForRow foldToCol
  by_cases power : 2 ^ Nat.log2 cols = cols
  · have inside := hashed.rowHash_lt row (colsMaskBits cols)
    rw [if_pos power]
    rwa [show 2 ^ colsMaskBits cols = cols by rw [colsMaskBits, if_pos power, power]] at inside
  · rw [if_neg power]
    exact Nat.mod_lt _ positive

end MatrixHashType

/-- `hash_for_matrix_seeded_generic`: one hash if the bits of all rows fit into it, with one
bit more for each row, and a hash for each row otherwise. -/
def hashForMatrixSeeded (hasher : SketchHasher) (seedIdx rows cols : ℕ) (key : DataInput) :
    MatrixHashType :=
  let bitsRequired := (colsMaskBits cols + 1) * rows
  if bitsRequired ≤ 64 then .packed64 (hasher.hash64Seeded (seedIdx % seedList.length) key)
  else if bitsRequired ≤ 128 then
    .packed128 (hasher.hash128Seeded (seedIdx % seedList.length) key)
  else .rows ((List.range rows).map fun row =>
    hasher.hash64Seeded ((seedIdx + row) % seedList.length) key)

/-! ### Count-Min -/

namespace CountMin

def fastInsertManyWithHashValue (sketch : CountMin) (hashed : MatrixHashType) (many : ℤ) :
    CountMin :=
  ⟨sketch.counts.updateRows (fun row => hashed.colForRow row sketch.counts.cols)
    fun _ counter => counter + many⟩

def fastEstimateWithHash (sketch : CountMin) (hashed : MatrixHashType) : ℤ :=
  let counterOf := fun row =>
    sketch.counts.queryOneCounter row (hashed.colForRow row sketch.counts.cols)
  runningMin counterOf (List.range' 1 (sketch.counts.rows - 1)) (counterOf 0)

def fastInsertAll (sketch : CountMin) (stream : List (MatrixHashType × ℤ)) : CountMin :=
  stream.foldl (fun sketch entry => sketch.fastInsertManyWithHashValue entry.1 entry.2) sketch

@[simp] theorem fastInsertAll_rows (sketch : CountMin) (stream : List (MatrixHashType × ℤ)) :
    (sketch.fastInsertAll stream).counts.rows = sketch.counts.rows := by
  induction stream generalizing sketch with
  | nil => rfl
  | cons entry rest hypothesis => exact hypothesis _

@[simp] theorem fastInsertAll_cols (sketch : CountMin) (stream : List (MatrixHashType × ℤ)) :
    (sketch.fastInsertAll stream).counts.cols = sketch.counts.cols := by
  induction stream generalizing sketch with
  | nil => rfl
  | cons entry rest hypothesis => exact hypothesis _

def added (cols row col : ℕ) (stream : List (MatrixHashType × ℤ)) : ℤ :=
  (stream.map fun entry => if entry.1.colForRow row cols = col then entry.2 else 0).sum

theorem added_append (cols row col : ℕ) (first second : List (MatrixHashType × ℤ)) :
    added cols row col (first ++ second) =
      added cols row col first + added cols row col second := by
  unfold added
  rw [List.map_append, List.sum_append]

theorem queryOneCounter_fastInsertAll (sketch : CountMin) (stream : List (MatrixHashType × ℤ))
    {row col : ℕ} (rowInside : row < sketch.counts.rows) (colInside : col < sketch.counts.cols) :
    (sketch.fastInsertAll stream).counts.queryOneCounter row col =
      sketch.counts.queryOneCounter row col + added sketch.counts.cols row col stream := by
  induction stream generalizing sketch with
  | nil => exact (add_zero _).symm
  | cons entry rest hypothesis =>
    have positive : 0 < sketch.counts.cols := Nat.lt_of_le_of_lt (Nat.zero_le _) colInside
    have step := sketch.counts.queryOneCounter_updateRows
      (fun row => entry.1.colForRow row sketch.counts.cols) (fun _ => entry.2)
      (fun row => entry.1.colForRow_lt row positive) rowInside colInside
    have later := hypothesis (sketch.fastInsertManyWithHashValue entry.1 entry.2)
      rowInside colInside
    refine later.trans ?_
    rw [show (sketch.fastInsertManyWithHashValue entry.1 entry.2).counts.queryOneCounter row col =
      _ from step, add_assoc]
    rfl

theorem merge_fastInsertAll {rows cols : ℕ} {first second : List (MatrixHashType × ℤ)} :
    ((withDimensions rows cols).fastInsertAll first).merge
        ((withDimensions rows cols).fastInsertAll second) =
      some ((withDimensions rows cols).fastInsertAll (first ++ second)) := by
  have firstRows := fastInsertAll_rows (withDimensions rows cols) first
  have firstCols := fastInsertAll_cols (withDimensions rows cols) first
  have secondRows := fastInsertAll_rows (withDimensions rows cols) second
  have secondCols := fastInsertAll_cols (withDimensions rows cols) second
  have sameRows := firstRows.trans secondRows.symm
  have sameCols := firstCols.trans secondCols.symm
  unfold merge
  rw [if_pos ⟨sameRows, sameCols⟩]
  refine congrArg some (congrArg CountMin.mk ?_)
  refine Vector2D.eq_of_queryOneCounter ?_ ?_ fun row col rowInside colInside => ?_
  · exact firstRows.trans (fastInsertAll_rows _ _).symm
  · exact firstCols.trans (fastInsertAll_cols _ _).symm
  · have rowIn : row < (withDimensions rows cols).counts.rows := firstRows ▸ rowInside
    have colIn : col < (withDimensions rows cols).counts.cols := firstCols ▸ colInside
    have zero : (withDimensions rows cols).counts.queryOneCounter row col = 0 :=
      Vector2D.queryOneCounter_filled rows cols row col
    have both := queryOneCounter_fastInsertAll _ (first ++ second) rowIn colIn
    refine Eq.trans ?_ both.symm
    rw [Vector2D.queryOneCounter_add sameRows sameCols rowInside colInside,
      queryOneCounter_fastInsertAll _ _ rowIn colIn, queryOneCounter_fastInsertAll _ _ rowIn colIn,
      added_append, zero, zero_add, zero_add, zero_add]

section Hashed

variable (hasher : SketchHasher)

def hashForMatrix (sketch : CountMin) (value : DataInput) : MatrixHashType :=
  hashForMatrixSeeded hasher 0 sketch.counts.rows sketch.counts.cols value

def fastInsertMany (sketch : CountMin) (value : DataInput) (many : ℤ) : CountMin :=
  sketch.fastInsertManyWithHashValue (hashForMatrix hasher sketch value) many

def fastInsert (sketch : CountMin) (value : DataInput) : CountMin :=
  fastInsertMany hasher sketch value 1

def fastEstimate (sketch : CountMin) (value : DataInput) : ℤ :=
  sketch.fastEstimateWithHash (hashForMatrix hasher sketch value)

end Hashed

end CountMin

end AsapSketchlib
