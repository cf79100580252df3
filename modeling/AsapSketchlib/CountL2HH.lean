/-
This file models the Count sketch of the UnivMon layers, which slices one 128-bit hash into the
columns of all rows and keeps the squared norm of each row beside the counters.

A shift by 128 bits or more wraps around, as in a release build. Counters are integers, so the
model is of streams that overflow no counter.
-/

import AsapSketchlib.Float64
import AsapSketchlib.Hash
import AsapSketchlib.Median
import AsapSketchlib.Vector2D

namespace AsapSketchlib

/-! ### Square roots -/

/-- `f64::sqrt`: the square root rounded to 53 bits. A square root of a 53-bit value is never
halfway between two others. -/
def sqrtF64 (value : ℚ) : ℚ :=
  if value ≤ 0 then 0
  else
    let shift := 52 - Int.log 2 value / 2
    let scaled := value * 4 ^ shift
    let root := Nat.sqrt ⌊scaled⌋.toNat
    let nearest := if ((root : ℚ) + 1 / 2) ^ 2 < scaled then root + 1 else root
    nearest * 2 ^ (-shift)

/-! ### Cells -/

def colsMaskBits (cols : ℕ) : ℕ := if 2 ^ Nat.log2 cols = cols then Nat.log2 cols else Nat.log2 cols + 1

/-- `x >> amount` on `u128`. -/
def shiftRight128 (hashed : BitVec 128) (amount : ℕ) : BitVec 128 := hashed >>> (amount % 128)

/-- `l2hh_cell_for_row`: the column and the sign of a row, given the key hash. The position
`127 - row` of the sign bit is taken modulo 128. -/
def l2hhCellForRow (hashed : BitVec 128) (row cols maskBits : ℕ) : ℕ × ℤ :=
  let mask := (1#128 <<< maskBits) - 1#128
  let sliced := shiftRight128 hashed (row * maskBits) &&& mask
  let bit := (shiftRight128 hashed (127 + 127 * row) &&& 1#128).toNat
  (sliced.toNat % 2 ^ 64 % cols, -(1 - 2 * (bit : ℤ)))

/-- A Count sketch with the squared norm of each row. -/
structure CountL2HH where
  counts : Vector2D ℤ
  l2 : List ℤ
  seedIdx : ℕ

namespace CountL2HH

def withDimensionsAndSeed (rows cols seedIdx : ℕ) : CountL2HH where
  counts := Vector2D.filled rows cols 0
  l2 := List.replicate rows 0
  seedIdx := seedIdx

def writeCounter (sketch : CountL2HH) (row col : ℕ) (newValue : ℤ) : CountL2HH :=
  let oldValue := sketch.counts.queryOneCounter row col
  { sketch with
    counts := sketch.counts.updateOneCounter row col fun _ => newValue
    l2 := sketch.l2.modify row fun oldL2 =>
      max 0 (min i64Max (oldL2 + newValue * newValue - oldValue * oldValue)) }

def cellForRow (sketch : CountL2HH) (hashed : BitVec 128) (row : ℕ) : ℕ × ℤ :=
  l2hhCellForRow hashed row sketch.counts.cols (colsMaskBits sketch.counts.cols)

def fastInsertWithCountAndHash (sketch : CountL2HH) (hashed : BitVec 128) (count : ℤ) : CountL2HH :=
  (List.range sketch.counts.rows).foldl (fun sketch row =>
    let cell := sketch.cellForRow hashed row
    sketch.writeCounter row cell.1 (sketch.counts.queryOneCounter row cell.1 + cell.2 * count)) sketch

/-- `fast_get_est_with_hash`: the median of the signed counters. -/
def fastGetEstWithHash (sketch : CountL2HH) (hashed : BitVec 128) : ℚ :=
  Median.computeMedianInline meanF64 0 ((List.range sketch.counts.rows).map fun row =>
    let cell := sketch.cellForRow hashed row
    intAsF64 (cell.2 * sketch.counts.queryOneCounter row cell.1))

def applyDelta (sketch : CountL2HH) (row col : ℕ) (value : ℤ) : CountL2HH :=
  sketch.writeCounter row col (sketch.counts.queryOneCounter row col + value)

/-- Merges another sketch of the same dimensions and seed: counters are added, and the squared
norms are worked out anew. -/
def merge (sketch other : CountL2HH) : CountL2HH :=
  let counts := sketch.counts.add other.counts
  { sketch with
    counts := counts
    l2 := (List.range counts.rows).map fun row =>
      min i64Max ((List.range counts.cols).map fun col =>
        counts.queryOneCounter row col * counts.queryOneCounter row col).sum }

/-- Resets all counters and squared norms. -/
def clear (sketch : CountL2HH) : CountL2HH :=
  withDimensionsAndSeed sketch.counts.rows sketch.counts.cols sketch.seedIdx

def getL2Sqr (sketch : CountL2HH) : ℚ :=
  Median.computeMedianInline meanF64 0 (sketch.l2.map intAsF64)

def getL2 (sketch : CountL2HH) : ℚ := sqrtF64 sketch.getL2Sqr

section Hashed

variable (xxh : XxHash3)

/-- `fast_get_est`. -/
def estimate (sketch : CountL2HH) (key : DataInput) : ℚ :=
  sketch.fastGetEstWithHash (hash128Seeded xxh sketch.seedIdx key)

/-- `fast_update_and_est`. -/
def updateAndEst (sketch : CountL2HH) (key : DataInput) (count : ℤ) : CountL2HH × ℚ :=
  let hashed := hash128Seeded xxh sketch.seedIdx key
  let updated := sketch.fastInsertWithCountAndHash hashed count
  (updated, updated.fastGetEstWithHash hashed)

/-- The estimate of a key, as the integer the heaps and the sums read. -/
def countOf (sketch : CountL2HH) (key : HeapItem) : ℤ :=
  f64AsI64 (sketch.estimate xxh (heapItemToSketchInput key))

end Hashed

end CountL2HH

end AsapSketchlib
