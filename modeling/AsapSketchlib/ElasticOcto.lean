/-
This file models the Elastic sketch over the Octo pipeline: workers whose heavy buckets hold
one-byte votes over a compact Count-Min layer, the three kinds of deltas they send, and the
aggregator that replays them on a full Elastic sketch.

A worker's resident stays seated when its votes are promoted, so a bucket is taken as soon as it
names a flow.
-/

import AsapSketchlib.Elastic
import AsapSketchlib.OctoWorkers

namespace AsapSketchlib

/-! ### Keys and routing -/

/-- How floating-point keys are displayed. -/
structure FloatDisplay where
  f32 : BitVec 32 → String
  f64 : BitVec 64 → String

def hexDigit (value : ℕ) : Char :=
  if value < 10 then Char.ofNat ('0'.toNat + value) else Char.ofNat ('a'.toNat + (value - 10))

/-- `flow_key_string`: the flow key an input is rendered as. -/
def flowKeyString (display : FloatDisplay) : DataInput → String
  | .i8 value => toString value.toInt
  | .i16 value => toString value.toInt
  | .i32 value => toString value.toInt
  | .i64 value => toString value.toInt
  | .i128 value => toString value.toInt
  | .isize value => toString value.toInt
  | .u8 value => toString value.toNat
  | .u16 value => toString value.toNat
  | .u32 value => toString value.toNat
  | .u64 value => toString value.toNat
  | .u128 value => toString value.toNat
  | .usize value => toString value.toNat
  | .f32 bits => display.f32 bits
  | .f64 bits => display.f64 bits
  | .str value => value
  | .string value => value
  | .bytes value => String.ofList (value.flatMap fun byte =>
    [hexDigit (byte.toNat / 16), hexDigit (byte.toNat % 16)])

/-- How inputs are handed to workers. -/
inductive OctoPartition where
  | roundRobin
  | hashByKey

/-- `worker_for`: the worker of an input, where `next` counts the inputs handed out before. -/
def OctoPartition.workerFor (partition : OctoPartition) (xxh : XxHash3) (workers next : ℕ)
    (input : DataInput) : ℕ :=
  match partition with
  | .roundRobin => next % workers
  | .hashByKey => (hash64Seeded xxh 0 input).toNat % workers

/-! ### Deltas and workers -/

/-- A delta of an Elastic worker: the votes of a resident, a resident that was evicted, or a
cell of the light layer. -/
inductive ElasticDelta where
  | heavy (key : String) (value : ℕ) (eviction : Bool)
  | evicted (key : String) (votes : ℕ)
  | light (delta : CellDelta)

/-- One slot of the heavy part of a worker. -/
structure ElasticWorkerBucket where
  flowId : Option String
  votePos : ℕ
  voteNeg : ℤ
  eviction : Bool

namespace ElasticWorkerBucket

def default : ElasticWorkerBucket := ⟨none, 0, 0, false⟩

/-- The votes and the flag of a resident, as a delta. -/
def promotion (bucket : ElasticWorkerBucket) : List ElasticDelta :=
  bucket.flowId.toList.map fun resident => .heavy resident bucket.votePos bucket.eviction

/-- `promote_heavy`: ships the votes and clears them if they reached the threshold. -/
def promoteHeavy (bucket : ElasticWorkerBucket) (threshold : ℕ) :
    ElasticWorkerBucket × List ElasticDelta :=
  if bucket.votePos < threshold then (bucket, [])
  else ({ bucket with votePos := 0 }, bucket.promotion)

def flush (bucket : ElasticWorkerBucket) : ElasticWorkerBucket × List ElasticDelta :=
  if bucket.votePos = 0 then (bucket, [])
  else ({ bucket with votePos := 0 }, bucket.promotion)

end ElasticWorkerBucket

/-- A heavy part over a compact light layer. -/
structure ElasticWorkerSketch where
  heavy : List ElasticWorkerBucket
  light : WorkerSketch

namespace ElasticWorkerSketch

def new (bucketCount lightRows lightCols : ℕ) : ElasticWorkerSketch where
  heavy := List.replicate (max bucketCount 1) ElasticWorkerBucket.default
  light := WorkerSketch.new lightRows lightCols

def bucketAt (sketch : ElasticWorkerSketch) (idx : ℕ) : ElasticWorkerBucket :=
  (sketch.heavy[idx]?).getD ElasticWorkerBucket.default

def setBucket (sketch : ElasticWorkerSketch) (idx : ℕ) (bucket : ElasticWorkerBucket) :
    ElasticWorkerSketch :=
  { sketch with heavy := sketch.heavy.set idx bucket }

def storePromoted (sketch : ElasticWorkerSketch) (idx threshold : ℕ)
    (bucket : ElasticWorkerBucket) : ElasticWorkerSketch × List ElasticDelta :=
  let promoted := bucket.promoteHeavy threshold
  (setBucket sketch idx promoted.1, promoted.2)

variable (xxh : XxHash3)

def bucketIndex (sketch : ElasticWorkerSketch) (id : String) : ℕ :=
  (hash64Seeded xxh canonicalHashSeed (.str id)).toNat % sketch.heavy.length

/-- Adds one to the cells of a flow in the light layer. -/
def spill (sketch : ElasticWorkerSketch) (id : String) (threshold : ℕ) :
    Option (ElasticWorkerSketch × List ElasticDelta) :=
  let hashes := WorkerSketch.hashes xxh sketch.light.counters.rows (.str id)
  (sketch.light.insertHashesEmitDelta unsignedByte hashes threshold).map fun inserted =>
    ({ sketch with light := inserted.1 }, inserted.2.map .light)

/-- `insert_emit_delta`: records one occurrence of a flow, promoting whichever half reaches the
threshold. -/
def insertEmitDelta (sketch : ElasticWorkerSketch) (id : String) (threshold : ℕ) :
    Option (ElasticWorkerSketch × List ElasticDelta) :=
  let threshold := clampPromask threshold
  let idx := bucketIndex xxh sketch id
  let bucket := bucketAt sketch idx
  match bucket.flowId with
  | none => some (storePromoted sketch idx threshold ⟨some id, 1, 0, false⟩)
  | some resident =>
    if resident = id then
      some (storePromoted sketch idx threshold
        { bucket with votePos := (bucket.votePos + 1) % 256 })
    else
      let voteNeg := bucket.voteNeg + 1
      if voteNeg < lambda * bucket.votePos then
        spill xxh (setBucket sketch idx { bucket with voteNeg := voteNeg }) id threshold
      else
        let taken := storePromoted sketch idx threshold ⟨some id, 1, 1, true⟩
        some (taken.1, .evicted resident bucket.votePos :: taken.2)

/-- `flush`: promotes and clears every counter still holding a partial count, in both halves. -/
def flush (sketch : ElasticWorkerSketch) : ElasticWorkerSketch × List ElasticDelta :=
  let flushed := sketch.light.flush
  (⟨sketch.heavy.map fun bucket => bucket.flush.1, flushed.1⟩,
    (sketch.heavy.flatMap fun bucket => bucket.flush.2) ++ flushed.2.map .light)

end ElasticWorkerSketch

/-! ### The aggregator and the plan -/

/-- `ElasticOctoAggregator::apply`. -/
def Elastic.applyDelta (xxh : XxHash3) (sketch : Elastic) : ElasticDelta → Elastic
  | .heavy key value eviction => mergeHeavy (defaultXxHasher xxh) sketch key value eviction
  | .evicted key votes => absorbEvicted (defaultXxHasher xxh) sketch key votes
  | .light delta =>
    { sketch with light := sketch.light.applyDelta delta.row delta.col delta.value }

def elasticOcto (xxh : XxHash3) (display : FloatDisplay) :
    OctoTraits DataInput String ElasticWorkerSketch ElasticDelta Elastic where
  prepare := flowKeyString display
  process := fun threshold sketch id => sketch.insertEmitDelta xxh id threshold
  flush := ElasticWorkerSketch.flush
  apply := fun _ sketch delta => sketch.applyDelta xxh delta

abbrev ElasticOctoState (workers : ℕ) : Type :=
  OctoState ElasticWorkerSketch ElasticDelta Elastic workers

/-- The pipeline before the first message; empty dimensions stop the aggregator. -/
def elasticOctoStart (bucketCount lightRows lightCols workers tau : ℕ) :
    Option (ElasticOctoState workers) :=
  (Elastic.initWithDimensions bucketCount lightRows lightCols).map
    (OctoState.start (clampPromask tau) fun _ =>
      ElasticWorkerSketch.new bucketCount lightRows lightCols)

end AsapSketchlib
