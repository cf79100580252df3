/-
This file models the portable DDSketch: two dense stores of bucket counts, each with the
absolute index of its first bucket, and a count of zeros. Merges and deltas from the wire are
bounded in span, and worked out on a copy that is published at the end.

Bucket counts are `u64`, and an index is an `i32` wherever the code casts it to one.
-/

import AsapSketchlib.PortableHll

namespace AsapSketchlib

namespace Portable

def maxApplyDeltaSpanBuckets : ℤ := 2 ^ 22

/-- A value as `i32`: it wraps. -/
def asI32 (value : ℤ) : ℤ := (value + 2 ^ 31) % 2 ^ 32 - 2 ^ 31

/-- `u64::saturating_add`. -/
def saturatingAddU64 (left right : UInt64) : UInt64 :=
  UInt64.ofNat (saturatingAdd left.toNat right.toNat)

/-- `u64::saturating_sub`. -/
def saturatingSubU64 (left right : UInt64) : UInt64 := if left < right then 0 else left - right

/-- `u64::checked_add`. -/
def checkedAddU64 (left right : UInt64) : Option UInt64 :=
  if left.toNat + right.toNat < 2 ^ 64 then some (left + right) else none

/-- Sparse delta between two DDSketch snapshots: bucket indexes with their count deltas. -/
structure DdSketchDelta where
  buckets : List (ℤ × UInt64)
  negativeBuckets : List (ℤ × UInt64)
  zeroCount : UInt64
  deriving DecidableEq

/-- A store: counts in the order of their indexes, and the index of the first. -/
structure DdStore where
  counts : List UInt64
  offset : ℤ
  deriving DecidableEq

/-- Signed DDSketch state. -/
structure DdSketch where
  alpha : F64
  positive : DdStore
  negative : DdStore
  zeroCount : UInt64
  deriving DecidableEq

namespace DdStore

/-- The index behind the last bucket. -/
def stop (store : DdStore) : ℤ := store.offset + store.counts.length

def countAt (store : DdStore) (index : ℤ) : UInt64 :=
  if store.offset ≤ index then store.counts.getD (index - store.offset).toNat 0 else 0

/-! ### Merging -/

/-- The counts of a store laid over buckets that begin at an index. -/
def layOver (start : ℤ) (merged : List UInt64) (store : DdStore) : List UInt64 :=
  store.counts.zipIdx.foldl (fun merged entry =>
    merged.modify (store.offset + entry.2 - start).toNat fun count =>
      saturatingAddU64 count entry.1) merged

/-- The union of two stores, aligned on absolute indexes. -/
def merge (store other : DdStore) : Except String DdStore :=
  if other.counts.isEmpty then .ok store
  else if store.counts.isEmpty then .ok other
  else
    let newStart := min store.offset other.offset
    let newEnd := max store.stop other.stop
    let newLen := newEnd - newStart
    let limit := maxApplyDeltaSpanBuckets
    if limit < newLen ∧ max (store.counts.length : ℤ) other.counts.length < newLen then
      .error s!"DdSketch merge spans {newLen} buckets, exceeding the {limit}-bucket safety limit"
    else
      let merged := layOver newStart (List.replicate newLen.toNat 0) store
      .ok ⟨layOver newStart merged other, newStart⟩

/-! ### Applying a delta -/

def spanError (store : DdStore) (buckets : List (ℤ × UInt64)) : Option String :=
  match buckets.map Prod.fst with
  | [] => none
  | first :: rest =>
    let minD := rest.foldl min first
    let maxD := rest.foldl max first
    let curStart := if store.counts.isEmpty then minD else store.offset
    let curEnd := curStart + store.counts.length
    let span := max curEnd (maxD + 1) - min curStart minD
    let limit := maxApplyDeltaSpanBuckets
    if limit < span then
      some s!"DdSketch delta spans {span} buckets, exceeding the {limit}-bucket safety limit"
    else none

def grow (store : DdStore) (index : ℤ) : DdStore :=
  let store := if store.counts.isEmpty then ⟨[0], index⟩ else store
  if index < store.offset then
    ⟨List.replicate (store.offset - index).toNat 0 ++ store.counts, index⟩
  else if store.stop ≤ index then
    ⟨store.counts ++ List.replicate (index - store.stop + 1).toNat 0, store.offset⟩
  else store

def addBucket (store : DdStore) (bucket : ℤ × UInt64) : DdStore :=
  let store := store.grow bucket.1
  ⟨store.counts.modify (bucket.1 - store.offset).toNat fun count =>
    saturatingAddU64 count bucket.2, store.offset⟩

def applyPositiveDelta (store : DdStore) (buckets : List (ℤ × UInt64)) : Except String DdStore :=
  match store.spanError buckets with
  | some message => .error message
  | none => .ok (buckets.foldl addBucket store)

/-! ### Computing a delta -/

def snapCount (snapshot : DdStore) (index : ℤ) : UInt64 :=
  if !snapshot.counts.isEmpty then
    if 0 ≤ index - snapshot.offset ∧ (index - snapshot.offset).toNat < snapshot.counts.length then
      snapshot.counts.getD (index - snapshot.offset).toNat 0
    else 0
  else 0

/-- The buckets of the positive store whose count grew by the threshold or more. -/
def grownBuckets (store snapshot : DdStore) (threshold : UInt64) : List (ℤ × UInt64) :=
  store.counts.zipIdx.filterMap fun entry =>
    if entry.1 = 0 then none
    else
      let k := asI32 (store.offset + asI32 entry.2)
      let dc := saturatingSubU64 entry.1 (snapshot.snapCount k)
      if threshold ≤ dc then some (k, dc) else none

/-- `sparse_difference`, of the negative stores. -/
def sparseDifference (current previous : DdStore) (threshold : UInt64) : List (ℤ × UInt64) :=
  current.counts.zipIdx.filterMap fun entry =>
    let key := current.offset + entry.2
    let old := key - previous.offset
    let oldCount := if 0 ≤ old then previous.counts.getD old.toNat 0 else 0
    let delta := saturatingSubU64 entry.1 oldCount
    if 0 < delta ∧ threshold ≤ delta then some (asI32 key, delta) else none

end DdStore

namespace DdSketch

/-- `f64::EPSILON`. -/
def epsilon : F64 := .finite (1 / 2 ^ 52)

/-- `merge_positive`. The text of the error goes on with the two values. -/
def mergePositive (alpha otherAlpha : F64) (store other : DdStore) : Except String DdStore :=
  if epsilon.Less (alpha.sub otherAlpha).abs then .error "DdSketch alpha mismatch"
  else store.merge other

def merge (sketch other : DdSketch) : DdSketch × Returned :=
  let merged : Except String DdSketch := do
    let positive ← mergePositive sketch.alpha other.alpha sketch.positive other.positive
    let negative ← mergePositive sketch.alpha other.alpha sketch.negative other.negative
    match checkedAddU64 sketch.zeroCount other.zeroCount with
    | some zeroCount => return ⟨sketch.alpha, positive, negative, zeroCount⟩
    | none => .error "DDSketch zero count overflow"
  match merged with
  | .ok merged => (merged, .ok)
  | .error message => (sketch, .err message)

/-- Applies a sparse delta. The state is published at the end. -/
def applyDelta (sketch : DdSketch) (delta : DdSketchDelta) : DdSketch × Returned :=
  let merged : Except String DdSketch := do
    let positive ← sketch.positive.applyPositiveDelta delta.buckets
    let negative ← sketch.negative.applyPositiveDelta delta.negativeBuckets
    match checkedAddU64 sketch.zeroCount delta.zeroCount with
    | some zeroCount => return ⟨sketch.alpha, positive, negative, zeroCount⟩
    | none => .error "DDSketch zero count overflow"
  match merged with
  | .ok merged => (merged, .ok)
  | .error message => (sketch, .err message)

def delta (sketch snapshot : DdSketch) (threshold : UInt64) : DdSketchDelta where
  buckets := sketch.positive.grownBuckets snapshot.positive threshold
  negativeBuckets := sketch.negative.sparseDifference snapshot.negative threshold
  zeroCount :=
    let zeroCount := saturatingSubU64 sketch.zeroCount snapshot.zeroCount
    if zeroCount < threshold then 0 else zeroCount

/-- The delta over a snapshot. The protobuf message has the fields of the delta. -/
def computeDelta (prost : Prost DdSketchDelta) (sketch snapshot : DdSketch) (threshold : UInt64) :
    List UInt8 := prost.encodeToVec (sketch.delta snapshot threshold)

def applyDeltaBytes (prost : Prost DdSketchDelta) (sketch : DdSketch) (bytes : List UInt8) :
    DdSketch × Returned := applyDecoded applyDelta sketch (prost.decode bytes)

/-! ### The MessagePack twins -/

/-- The array of the MessagePack form: two parallel arrays, and three elements more where there
are negative buckets or zeros. Left out, they read as empty. -/
structure DeltaWire where
  idx : List ℤ
  dCount : List UInt64
  signed : Option (List ℤ × List UInt64 × UInt64)
  deriving DecidableEq

def deltaWire (delta : DdSketchDelta) : DeltaWire where
  idx := delta.buckets.map Prod.fst
  dCount := delta.buckets.map Prod.snd
  signed :=
    if delta.negativeBuckets.isEmpty ∧ delta.zeroCount = 0 then none
    else some (delta.negativeBuckets.map Prod.fst, delta.negativeBuckets.map Prod.snd,
      delta.zeroCount)

/-- `DdSketchDelta::from_msgpack` behind the reading of the array. -/
def ofDeltaWire (wire : DeltaWire) : Except String DdSketchDelta :=
  let (ni, nc, zeroCount) := wire.signed.getD ([], [], 0)
  if wire.idx.length ≠ wire.dCount.length ∨ ni.length ≠ nc.length then
    .error "DDSketch delta array lengths differ"
  else .ok ⟨wire.idx.zip wire.dCount, ni.zip nc, zeroCount⟩

def computeDeltaMsgpack (rmp : RmpSerde DeltaWire) (sketch snapshot : DdSketch)
    (threshold : UInt64) : Except Panic (List UInt8) :=
  (rmp.toVec (deltaWire (sketch.delta snapshot threshold))).mapError fun _ => .expect
    "DdSketchDelta msgpack encode is infallible for owned bucket arrays"

/-- The delta in the bytes of `apply_delta_msgpack_bytes`. -/
def decodeDeltaMsgpack (rmp : RmpSerde DeltaWire) (bytes : List UInt8) :
    Except String DdSketchDelta := (fromMsgpack rmp bytes).bind ofDeltaWire

def applyDeltaMsgpackBytes (rmp : RmpSerde DeltaWire) (sketch : DdSketch) (bytes : List UInt8) :
    DdSketch × Returned := applyDecoded applyDelta sketch (decodeDeltaMsgpack rmp bytes)

end DdSketch

end Portable

end AsapSketchlib
