/-
This file models the CountSketch of one physical level of a UnivMon-Q sketch: rows of saturating
counters of 32 or of 64 bits, whose cells and signs are read from the fields of one hash of 128
bits.
-/

import AsapSketchlib.Saturating
import Mathlib.Data.List.Sort

namespace AsapSketchlib

namespace UnivMonQ

/-! ### Counters -/

/-- What the rows use of a type of counters. -/
structure CounterType where
  lowest : ℤ
  highest : ℤ

/-- `impl Counter for i32`. -/
def CounterType.i32 : CounterType := ⟨-2147483648, 2147483647⟩

/-- `impl Counter for i64`. -/
def CounterType.i64 : CounterType := ⟨i64Min, i64Max⟩

def CounterType.saturate (type : CounterType) (value : ℤ) : ℤ :=
  if value < type.lowest then type.lowest
  else if type.highest < value then type.highest else value

def CounterType.saturatingAdd (type : CounterType) (left right : ℤ) : ℤ :=
  type.saturate (left + right)

def CounterType.saturatingNeg (type : CounterType) (value : ℤ) : ℤ := type.saturate (-value)

inductive Counters
  | i32 (values : List ℤ)
  | i64 (values : List ℤ)

/-- The counters of all rows, one row behind the other. -/
def Counters.values : Counters → List ℤ
  | .i32 values => values
  | .i64 values => values

/-- The counters after each was changed with the arithmetic of their type. -/
def Counters.map (change : CounterType → List ℤ → List ℤ) : Counters → Counters
  | .i32 values => .i32 (change CounterType.i32 values)
  | .i64 values => .i64 (change CounterType.i64 values)

structure PackedCountSketch where
  width : ℕ
  depth : ℕ
  counters : Counters

/-! ### Cells -/

def isPowerOfTwo (value : ℕ) : Bool := value ≠ 0 ∧ value &&& (value - 1) = 0

def fieldOf (hash : BitVec 128) (bucketBits row : ℕ) : BitVec 128 :=
  hash >>> (row * (bucketBits + 1))

def bucketOf (width : ℕ) (hash : BitVec 128) (bucketBits row : ℕ) : ℕ :=
  let bucketMask := (1#128 <<< bucketBits) - 1#128
  let bucketCode := (fieldOf hash bucketBits row &&& bucketMask).toNat % (u64Max + 1)
  if isPowerOfTwo width then bucketCode &&& (width - 1) else bucketCode % width

def isNegative (hash : BitVec 128) (bucketBits row : ℕ) : Bool :=
  (fieldOf hash bucketBits row >>> bucketBits) &&& 1#128 ≠ 0#128

def updateRows (type : CounterType) (counters : List ℤ) (width depth : ℕ) (hash : BitVec 128)
    (bucketBits : ℕ) : List ℤ :=
  (List.range depth).foldl (fun counters row =>
    let delta := if isNegative hash bucketBits row then type.saturatingNeg 1 else 1
    counters.modify (row * width + bucketOf width hash bucketBits row) (type.saturatingAdd · delta))
    counters

def estimateRows (counters : List ℤ) (width depth : ℕ) (hash : BitVec 128) (bucketBits : ℕ) :
    List ℤ :=
  (List.range depth).map fun row =>
    let counter := counters.getD (row * width + bucketOf width hash bucketBits row) 0
    if isNegative hash bucketBits row then CounterType.i64.saturatingNeg counter else counter

/-- Two rows of counters added up. Counters without a partner stay as they are. -/
def addCounters (type : CounterType) : List ℤ → List ℤ → List ℤ
  | left :: lefts, right :: rights => type.saturatingAdd left right :: addCounters type lefts rights
  | lefts, [] => lefts
  | [], _ => []

namespace PackedCountSketch

/-- `PackedCountSketch::new`. -/
def new (width depth counterBits : ℕ) : PackedCountSketch where
  width := width
  depth := depth
  counters := if counterBits = 32 then .i32 (List.replicate (width * depth) 0)
    else .i64 (List.replicate (width * depth) 0)

/-- `PackedCountSketch::update`. -/
def update (sketch : PackedCountSketch) (hash : BitVec 128) (bucketBits : ℕ) : PackedCountSketch :=
  { sketch with counters := sketch.counters.map fun type counters =>
      updateRows type counters sketch.width sketch.depth hash bucketBits }

/-- `PackedCountSketch::estimate`. -/
def estimate (sketch : PackedCountSketch) (hash : BitVec 128) (bucketBits : ℕ) : ℤ :=
  let estimates := estimateRows sketch.counters.values sketch.width sketch.depth hash bucketBits
  max ((estimates.insertionSort (· ≤ ·)).getD (sketch.depth / 2) 0) 0

/-- `PackedCountSketch::merge`. Counters of two types are not reached there. -/
def merge (sketch other : PackedCountSketch) : Option PackedCountSketch :=
  match sketch.counters, other.counters with
  | .i32 left, .i32 right =>
    some { sketch with counters := .i32 (addCounters .i32 left right) }
  | .i64 left, .i64 right =>
    some { sketch with counters := .i64 (addCounters .i64 left right) }
  | _, _ => none

/-- `PackedCountSketch::clear`. -/
def clear (sketch : PackedCountSketch) : PackedCountSketch :=
  { sketch with counters := sketch.counters.map fun _ counters => counters.map fun _ => 0 }

end PackedCountSketch

/-! ### Cells are inside -/

theorem bucketOf_lt {width : ℕ} (positive : 0 < width) (hash : BitVec 128) (bucketBits row : ℕ) :
    bucketOf width hash bucketBits row < width := by
  unfold bucketOf
  simp only
  split
  · exact Nat.and_le_right.trans_lt (Nat.sub_lt positive Nat.one_pos)
  · exact Nat.mod_lt _ positive

theorem cell_lt {width depth row : ℕ} (positive : 0 < width) (inside : row < depth)
    (hash : BitVec 128) (bucketBits : ℕ) :
    row * width + bucketOf width hash bucketBits row < width * depth := by
  have next : row * width + width ≤ width * depth := by
    rw [← Nat.succ_mul, Nat.mul_comm]
    exact Nat.mul_le_mul_left width inside
  exact (Nat.add_lt_add_left (bucketOf_lt positive hash bucketBits row) _).trans_le next

end UnivMonQ

end AsapSketchlib
