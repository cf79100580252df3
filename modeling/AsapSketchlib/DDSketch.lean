/-
This file models DDSketch: accepted samples are counted in buckets by the logarithm of their
magnitude, in one store for each sign and a count for those too small to index, and a quantile is
answered with the representative of the bucket its rank falls in.

Arithmetic is exact: magnitudes and representatives are rational numbers, bucket indexes are
integers and counts are natural numbers. The index mapping is a parameter; the bounds of what it
indexes are those the sketch works out from it.
-/

import AsapSketchlib.DenseCounts
import AsapSketchlib.Floating

namespace AsapSketchlib

/-! ### Index mappings -/

/-! ### Stores -/

def growChunk : ℕ := 128

/-- A dense store: counts in the order of their indexes, and the index of the first. -/
structure Buckets where
  counts : List ℕ
  offset : ℤ
  deriving DecidableEq

namespace Buckets

def new : Buckets := ⟨[], 0⟩

def right (store : Buckets) : ℤ := store.offset + store.counts.length - 1

def ensure (store : Buckets) (k : ℤ) : Buckets :=
  if store.counts.isEmpty then ⟨List.replicate growChunk 0, k - growChunk / 2⟩
  else if k < store.offset then
    let grow := max (store.offset - k).toNat growChunk
    ⟨List.replicate grow 0 ++ store.counts, store.offset - grow⟩
  else if store.right < k then
    let grow := max (k - store.right).toNat growChunk
    ⟨store.counts ++ List.replicate grow 0, store.offset⟩
  else store

def addOne (store : Buckets) (k : ℤ) : Buckets :=
  if 0 ≤ k - store.offset ∧ (k - store.offset).toNat < store.counts.length then
    { store with counts := store.counts.modify (k - store.offset).toNat (· + 1) }
  else
    let grown := store.ensure k
    { grown with counts := grown.counts.modify (k - grown.offset).toNat (· + 1) }

/-- `merge_store`: both stores are laid over zeros. -/
def merge (store other : Buckets) : Buckets :=
  if other.counts.isEmpty then store
  else if store.counts.isEmpty then other
  else
    let newL := min store.offset other.offset
    let newR := max store.right other.right
    let merged := Dense.layOver newL store.offset store.counts
      (List.replicate (newR - newL + 1).toNat 0)
    ⟨Dense.layOver newL other.offset other.counts merged, newL⟩

def countAt (store : Buckets) (k : ℤ) : ℕ := Dense.countAt store.offset store.counts k

end Buckets

/-! ### The sketch -/

/-- The largest finite `f64`. -/
def f64Max : ℚ := (2 ^ 53 - 1) * 2 ^ 971

structure DDSketch where
  alpha : ℚ
  gamma : ℚ
  store : Buckets
  count : ℕ
  sum : F64
  min : F64
  max : F64
  negativeStore : Buckets
  zeroCount : ℕ
  deriving DecidableEq

namespace DDSketch

variable (mapping : IndexMapping)

/-- Advances a running sum, which saturates at the largest finite value. -/
def addToSum (sum delta : F64) : F64 :=
  match sum.add delta with
  | .finite next => .finite next
  | .infinite true => .finite (-f64Max)
  | _ => .finite f64Max

end DDSketch

/-! ### Trees of updates and merges -/

namespace DDSketch

namespace Tree

variable (mapping : IndexMapping)

end Tree

end DDSketch

end AsapSketchlib
