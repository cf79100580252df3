/-
This file models the hybrid histogram: recent buckets hold exact frequency maps, older ones a
UnivMon sketch. A map bucket that has grown too large is promoted into a sketch taken from a
pool, to which the sketches of merged and expired buckets return.

The sketch is a parameter with an instance for the modelled UnivMon, and so is the behaviour
of the hash maps: which equal key a lookup finds, and the order of iteration. An operation of
a sketch that stops at an assertion returns nothing. Frequencies and sizes do not overflow.
-/

import AsapSketchlib.ExponentialHistogram
import AsapSketchlib.UnivMon

namespace AsapSketchlib

/-! ### Sketches -/

/-- What the histogram asks of UnivMon. -/
structure UnivKind (Sketch : Type) where
  initUnivmon : Option Sketch
  insert : Sketch → DataInput → ℤ → Option Sketch
  merge : Sketch → Sketch → Option Sketch
  free : Sketch → Sketch
  l22 : Sketch → ℚ

/-- `UnivMon` under the dimensions of a histogram. -/
def UnivMon.kind (xxh : XxHash3) (tables : ℕ → HashTable HeapItem HeapItem.eqItem)
    (heapSize sketchRow sketchCol layerSize : ℕ) : UnivKind UnivMon where
  initUnivmon := UnivMon.initUnivmon heapSize sketchRow sketchCol layerSize
  insert := fun mon key value => mon.insert xxh key value
  merge := fun mon other => mon.merge xxh tables other
  free := LayeredMon.free
  l22 := fun mon =>
    let l2 := (mon.layers[0]?.map fun layer => layer.l2Sketch.getL2).getD 0
    roundF64 (l2 * l2)

/-- `UnivSketchPool`. The head of `freeList` is the top of the stack. -/
structure UnivSketchPool (Sketch : Type) where
  freeList : List Sketch
  totalAllocated : ℕ

namespace UnivSketchPool

variable {Sketch : Type} (kind : UnivKind Sketch)

/-- Creates a pool with `cap` pre-allocated sketches. -/
def new (cap : ℕ) : Option (UnivSketchPool Sketch) :=
  ((List.replicate cap ()).mapM fun _ => kind.initUnivmon).map fun freeList =>
    { freeList := freeList, totalAllocated := cap }

/-- Takes a sketch from the free list, or allocates a fresh one. -/
def take (pool : UnivSketchPool Sketch) : Option (Sketch × UnivSketchPool Sketch) :=
  match pool.freeList with
  | sketch :: rest => some (sketch, { pool with freeList := rest })
  | [] => kind.initUnivmon.map fun sketch =>
    (sketch, { pool with totalAllocated := pool.totalAllocated + 1 })

def put (pool : UnivSketchPool Sketch) (sketch : Sketch) : UnivSketchPool Sketch :=
  { pool with freeList := kind.free sketch :: pool.freeList }

def putAll (pool : UnivSketchPool Sketch) (sketches : List Sketch) : UnivSketchPool Sketch :=
  sketches.foldl (put kind) pool

end UnivSketchPool

/-! ### Buckets -/

/-- A bucket of exact frequency counts. -/
structure EHMapBucket where
  freqMap : List (HeapItem × ℤ)
  l22 : ℚ
  bucketSize : ℕ
  minTime : ℕ
  maxTime : ℕ

structure EHUnivMonBucket (Sketch : Type) where
  sketch : Sketch
  l22 : ℚ
  bucketSize : ℕ
  minTime : ℕ
  maxTime : ℕ

/-- The hybrid histogram. -/
structure EHUnivOptimized (Sketch : Type) where
  umBuckets : List (EHUnivMonBucket Sketch)
  mapBuckets : List EHMapBucket
  k : ℕ
  window : ℕ
  maxMapSize : ℕ
  pool : UnivSketchPool Sketch

/-- A weighted key with its time. -/
structure TimedUpdate where
  time : ℕ
  key : DataInput
  value : ℤ

section Maps

variable (arith : MassArith) (table otherTable : HashTable HeapItem HeapItem.eqItem)

/-- The sum of the squared frequencies, in the order of iteration. -/
def calcMapL22 (freqMap : List (HeapItem × ℤ)) : ℚ :=
  (table.iterate freqMap).foldl (fun sum entry => arith.add sum (arith.square entry.2)) 0

def addFrequencies (freqMap entries : List (HeapItem × ℤ)) : List (HeapItem × ℤ) :=
  table.upsertAll (fun old new => old + new) freqMap entries

def EHMapBucket.join (bucket other : EHMapBucket) : EHMapBucket :=
  let freqMap := addFrequencies table bucket.freqMap (otherTable.iterate other.freqMap)
  { freqMap := freqMap
    l22 := calcMapL22 arith table freqMap
    bucketSize := bucket.bucketSize + other.bucketSize
    minTime := min bucket.minTime other.minTime
    maxTime := max bucket.maxTime other.maxTime }

def EHMapBucket.single (update : TimedUpdate) : EHMapBucket where
  freqMap := [(inputToOwned update.key, update.value)]
  l22 := arith.square update.value
  bucketSize := update.value.toNat
  minTime := update.time
  maxTime := update.time

end Maps

def EHUnivMonBucket.join {Sketch : Type} (kind : UnivKind Sketch)
    (bucket other : EHUnivMonBucket Sketch) : Option (EHUnivMonBucket Sketch) :=
  (kind.merge bucket.sketch other.sketch).map fun merged =>
    { sketch := merged
      l22 := kind.l22 merged
      bucketSize := bucket.bucketSize + other.bucketSize
      minTime := min bucket.minTime other.minTime
      maxTime := max bucket.maxTime other.maxTime }

/-! ### The backward scan -/

/-- The state of a backward scan: the buckets, the mass passed, and the buckets merged away. -/
structure MassScan (Bucket : Type) where
  buckets : List Bucket
  sumL22 : ℚ
  consumed : List Bucket

namespace MassScan

variable {Bucket : Type} (arith : MassArith) (k : ℕ) (massOf : Bucket → ℚ)
  (join : ℕ → Bucket → Bucket → Option Bucket)

/-- The loop body at index `i`: merges bucket `i + 1` into bucket `i`, or passes it. -/
def visit (i : ℕ) (scan : MassScan Bucket) : Option (MassScan Bucket) :=
  match scan.buckets[i]?, scan.buckets[i + 1]? with
  | some bucket, some next =>
    let pairL22 := arith.add (massOf bucket) (massOf next)
    let threshold := arith.div scan.sumL22 k
    if pairL22 ≤ arith.add threshold arith.massEpsilon then
      (join i bucket next).map fun merged =>
        { buckets := (scan.buckets.set i merged).eraseIdx (i + 1)
          sumL22 := scan.sumL22
          consumed := scan.consumed ++ [next] }
    else some { scan with sumL22 := arith.add scan.sumL22 (massOf next) }
  | _, _ => none

/-- The loop over the indexes below `count`, newest first. -/
def below : ℕ → MassScan Bucket → Option (MassScan Bucket)
  | 0, scan => some scan
  | i + 1, scan => (visit arith k massOf join i scan).bind (below i)

def run (buckets : List Bucket) (sumL22 : ℚ) : Option (MassScan Bucket) :=
  below arith k massOf join (buckets.length - 1) ⟨buckets, sumL22, []⟩

end MassScan

/-! ### Updates -/

namespace UnivKind

variable {Sketch : Type} (kind : UnivKind Sketch) (arith : MassArith)
  (tables : ℕ → HashTable HeapItem HeapItem.eqItem)

def newHistogram (k window : ℕ) (sketchRow sketchCol layerSize poolCap : ℕ) :
    Option (EHUnivOptimized Sketch) :=
  (UnivSketchPool.new kind poolCap).map fun pool =>
    { umBuckets := []
      mapBuckets := []
      k := max k 1
      window := window
      maxMapSize := layerSize * sketchRow * sketchCol
      pool := pool }

/-- Drops the expired buckets of both tiers; their sketches return to the pool. -/
def expire (time : ℕ) (eh : EHUnivOptimized Sketch) : EHUnivOptimized Sketch :=
  let cutoff := time - eh.window
  let expired := eh.umBuckets.takeWhile fun bucket => bucket.maxTime < cutoff
  { eh with
    umBuckets := eh.umBuckets.dropWhile fun bucket => bucket.maxTime < cutoff
    pool := eh.pool.putAll kind (expired.map EHUnivMonBucket.sketch)
    mapBuckets := eh.mapBuckets.dropWhile fun bucket => bucket.maxTime < cutoff }

def mergeMapBuckets (k : ℕ) (mapBuckets : List EHMapBucket) : Option (MassScan EHMapBucket) :=
  MassScan.run arith k EHMapBucket.l22
    (fun i bucket next => some (EHMapBucket.join arith (tables i) (tables (i + 1)) bucket next))
    mapBuckets 0

def mergeSketchBuckets (sumL22 : ℚ) (eh : EHUnivOptimized Sketch) :
    Option (EHUnivOptimized Sketch) :=
  (MassScan.run arith eh.k (fun bucket => kind.l22 bucket.sketch)
    (fun _ => EHUnivMonBucket.join kind) eh.umBuckets sumL22).map fun scan =>
      { eh with
        umBuckets := scan.buckets
        pool := eh.pool.putAll kind (scan.consumed.map EHUnivMonBucket.sketch) }

def insertAll (sketch : Sketch) (entries : List (HeapItem × ℤ)) : Option Sketch :=
  entries.foldlM (fun sketch entry => kind.insert sketch (heapItemToSketchInput entry.1) entry.2)
    sketch

def promoteOldestMap (sumL22 : ℚ) (eh : EHUnivOptimized Sketch) :
    Option (EHUnivOptimized Sketch) :=
  match eh.mapBuckets with
  | [] => none
  | oldest :: newer => do
    let (sketch, pool) ← eh.pool.take kind
    let sketch ← kind.insertAll sketch ((tables 0).iterate oldest.freqMap)
    kind.mergeSketchBuckets arith sumL22
      { eh with
        mapBuckets := newer
        umBuckets := eh.umBuckets ++ [.mk sketch (kind.l22 sketch) oldest.bucketSize
          oldest.minTime oldest.maxTime]
        pool := pool }

/-- The oldest map bucket holds too many keys. -/
def TooLarge (eh : EHUnivOptimized Sketch) : Prop :=
  ∃ oldest ∈ eh.mapBuckets.head?, eh.maxMapSize ≤ 2 * oldest.freqMap.length

instance (eh : EHUnivOptimized Sketch) : Decidable (TooLarge eh) :=
  inferInstanceAs (Decidable (∃ oldest ∈ eh.mapBuckets.head?, _))

def update (entry : TimedUpdate) (eh : EHUnivOptimized Sketch) :
    Option (EHUnivOptimized Sketch) := do
  let eh := kind.expire entry.time eh
  let scan ← mergeMapBuckets arith tables eh.k (eh.mapBuckets ++ [EHMapBucket.single arith entry])
  let eh := { eh with mapBuckets := scan.buckets }
  if TooLarge eh then kind.promoteOldestMap arith tables scan.sumL22 eh else some eh

/-- The histograms that a stream of updates may lead to: the hash maps of every update may
behave differently. -/
inductive Reaches (start : EHUnivOptimized Sketch) :
    List TimedUpdate → EHUnivOptimized Sketch → Prop
  | start : Reaches start [] start
  | update {stream : List TimedUpdate} {eh eh' : EHUnivOptimized Sketch} {entry : TimedUpdate}
      (tables : ℕ → HashTable HeapItem HeapItem.eqItem) (before : Reaches start stream eh)
      (step : kind.update arith tables entry eh = some eh') : Reaches start (stream ++ [entry]) eh'

end UnivKind

/-! ### Interval queries -/

/-- The result of an interval query: a sketch, or exact frequencies. -/
inductive EHUnivQueryResult (Sketch : Type) where
  | sketch (merged : Sketch)
  | map (freqMap : List (HeapItem × ℤ)) (totalCount : ℕ)

namespace EHUnivOptimized

variable {Sketch : Type} (eh : EHUnivOptimized Sketch)

/-- The bucket that contains a time: the first map bucket, else the first sketch bucket. -/
def locateBucket (time : ℕ) : Option ℕ :=
  match eh.mapBuckets.findIdx? fun bucket => bucket.minTime ≤ time ∧ time ≤ bucket.maxTime with
  | some i => some (i + eh.umBuckets.length)
  | none => eh.umBuckets.findIdx? fun bucket => bucket.minTime ≤ time ∧ time ≤ bucket.maxTime

/-- Moves `fromBucket` forward if `t1` is closer to the end of the bucket. -/
def snapBucket (t1 fromBucket minTime maxTime : ℕ) : ℕ :=
  if absDiff t1 maxTime < absDiff t1 minTime ∧
      fromBucket + 1 < eh.umBuckets.length + eh.mapBuckets.length then fromBucket + 1
  else fromBucket

def BeforeOldest (t1 : ℕ) : Prop :=
  (∃ oldest ∈ eh.umBuckets.head?, t1 < oldest.minTime) ∨
    (eh.umBuckets.isEmpty ∧ ∃ oldest ∈ eh.mapBuckets.head?, t1 < oldest.minTime)

def AfterNewestMap (t2 : ℕ) : Prop := ∃ newest ∈ eh.mapBuckets.getLast?, newest.maxTime < t2

instance (t1 : ℕ) : Decidable (eh.BeforeOldest t1) :=
  inferInstanceAs (Decidable ((∃ oldest ∈ eh.umBuckets.head?, t1 < oldest.minTime) ∨
    (eh.umBuckets.isEmpty ∧ ∃ oldest ∈ eh.mapBuckets.head?, t1 < oldest.minTime)))

instance (t2 : ℕ) : Decidable (eh.AfterNewestMap t2) :=
  inferInstanceAs (Decidable (∃ newest ∈ eh.mapBuckets.getLast?, newest.maxTime < t2))

def fromBucket (t1 : ℕ) : ℕ :=
  let sCount := eh.umBuckets.length
  let total := sCount + eh.mapBuckets.length
  let fromBucket := if eh.BeforeOldest t1 then 0 else (eh.locateBucket t1).getD 0
  let fromBucket :=
    if fromBucket < sCount then
      match eh.umBuckets[fromBucket]? with
      | some bucket => eh.snapBucket t1 fromBucket bucket.minTime bucket.maxTime
      | none => fromBucket
    else
      match eh.mapBuckets[fromBucket - sCount]? with
      | some bucket => eh.snapBucket t1 fromBucket bucket.minTime bucket.maxTime
      | none => fromBucket
  if total ≤ fromBucket then total - 1 else fromBucket

def toBucket (t1 t2 : ℕ) : ℕ :=
  let sCount := eh.umBuckets.length
  let mCount := eh.mapBuckets.length
  let toBucket :=
    if eh.AfterNewestMap t2 then mCount - 1 + sCount else (eh.locateBucket t2).getD 0
  let toBucket := if sCount + mCount ≤ toBucket then sCount + mCount - 1 else toBucket
  if toBucket < eh.fromBucket t1 then eh.fromBucket t1 else toBucket

end EHUnivOptimized

namespace UnivKind

variable {Sketch : Type} (kind : UnivKind Sketch)
  (tables : ℕ → HashTable HeapItem HeapItem.eqItem)

/-- Adds up map buckets. The first table is that of the sums. -/
def addMaps (buckets : List EHMapBucket) : List (HeapItem × ℤ) :=
  buckets.zipIdx.foldl (fun merged entry =>
    addFrequencies (tables 0) merged ((tables (entry.2 + 1)).iterate entry.1.freqMap)) []

def mergeAll (sketch : Sketch) (buckets : List (EHUnivMonBucket Sketch)) : Option Sketch :=
  buckets.foldlM (fun merged bucket => kind.merge merged bucket.sketch) sketch

/-- The merge of buckets `first..=last`: within the sketch tier, within the map tier, or from
the one into the other. -/
def mergeRange (eh : EHUnivOptimized Sketch) (first last : ℕ) :
    Option (EHUnivQueryResult Sketch) :=
  let sCount := eh.umBuckets.length
  if last < sCount then do
    let oldest ← eh.umBuckets[first]?
    let merged ← kind.mergeAll oldest.sketch ((eh.umBuckets.take (last + 1)).drop (first + 1))
    some (.sketch merged)
  else if sCount ≤ first then
    let freqMap := addMaps tables ((eh.mapBuckets.take (last - sCount + 1)).drop (first - sCount))
    some (.map freqMap ((freqMap.map Prod.snd).sum % 2 ^ 64).toNat)
  else do
    let fresh ← kind.initUnivmon
    let merged ← kind.mergeAll fresh (eh.umBuckets.drop first)
    let freqMap := addMaps tables (eh.mapBuckets.take (last - sCount + 1))
    let merged ← kind.insertAll merged ((tables 0).iterate freqMap)
    some (.sketch merged)

def queryInterval (eh : EHUnivOptimized Sketch) (t1 t2 : ℕ) : Option (EHUnivQueryResult Sketch) :=
  if eh.umBuckets.length + eh.mapBuckets.length = 0 then none
  else kind.mergeRange tables eh (eh.fromBucket t1) (eh.toBucket t1 t2)

end UnivKind

end AsapSketchlib
