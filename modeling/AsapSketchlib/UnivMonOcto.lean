/-
This file models the UnivMon of the Octo pipeline: workers with one compact sketch per layer, and
an aggregator that holds the only heaps. While every layer promotes at a threshold of one, each
key processed reaches the heaps; a layer that promotes at a higher one must lose its completeness
flag. The aggregator lowers flags when it applies a delta and finds the threshold changed, so a
raised threshold that no delta reveals leaves the flags up.
-/

import AsapSketchlib.OctoWorkers
import AsapSketchlib.UnivMonCompleteness

namespace AsapSketchlib

/-! ### Workers -/

namespace WorkerSketch

def l2hhVisit (cols threshold : ℕ) (hashed : BitVec 128) (row : ℕ) : Visit :=
  let cell := l2hhCellForRow hashed row cols (colsMaskBits cols)
  { row := row
    col := cell.1
    change := fun held => release (fun bumped => threshold ≤ bumped.natAbs)
      ((held + cell.2).bmod 256) }

/-- `L2hhWorkerSketch::insert_hash_emit_delta`. -/
def insertHashEmitDelta (sketch : WorkerSketch) (hashed : BitVec 128) (threshold : ℕ) :
    WorkerSketch × List CellDelta :=
  sketch.visitAll ((List.range sketch.counters.rows).map
    (l2hhVisit sketch.counters.cols (clampPromask threshold) hashed))

end WorkerSketch

def univmonLayerThreshold (base layer : ℕ) : ℕ := if 32 ≤ layer then 1 else max (base >>> layer) 1

/-- What a plan hands to a worker: the bottom layer of a key, a hash for each layer it reaches,
and the key. -/
structure UnivMonInput where
  bottom : ℕ
  layerHashes : List (BitVec 128)
  key : HeapItem

/-- A change of one counter of a layer, with the key whose insertion triggered it and the running
total of the worker. -/
structure LayeredCountDelta where
  layer : ℕ
  key : HeapItem
  delta : CellDelta
  workerId : ℕ
  weightTotal : ℕ

/-- `UnivMonOctoWorker`, less the threshold it shares. -/
structure UnivMonOctoWorker where
  layers : List WorkerSketch
  workerId : ℕ
  weightTotal : ℕ

namespace UnivMonOctoWorker

def withThreshold (workerId sketchRow sketchCol layerSize : ℕ) : UnivMonOctoWorker where
  layers := List.replicate (max layerSize 1) (WorkerSketch.new sketchRow sketchCol)
  workerId := asU32 workerId
  weightTotal := 0

/-- The loop of `process` from a layer on: the sketches after it, and the deltas sent. -/
def processLayers (threshold : ℕ) (key : HeapItem) (workerId weightTotal : ℕ) :
    ℕ → List (BitVec 128) → List WorkerSketch → List WorkerSketch × List LayeredCountDelta
  | layer, hashed :: hashes, sketch :: sketches =>
    let inserted := sketch.insertHashEmitDelta hashed (univmonLayerThreshold threshold layer)
    let others := processLayers threshold key workerId weightTotal (layer + 1) hashes sketches
    (inserted.1 :: others.1,
      inserted.2.map (fun delta => ⟨asU32 layer, key, delta, workerId, weightTotal⟩) ++ others.2)
  | _, _, sketches => (sketches, [])

def process (threshold : ℕ) (worker : UnivMonOctoWorker) (payload : UnivMonInput) :
    UnivMonOctoWorker × List LayeredCountDelta :=
  let weightTotal := worker.weightTotal + 1
  let bottom := min payload.bottom (worker.layers.length - 1)
  let processed := processLayers threshold payload.key worker.workerId weightTotal 0
    (payload.layerHashes.take (bottom + 1)) worker.layers
  (⟨processed.1, worker.workerId, weightTotal⟩, processed.2)

end UnivMonOctoWorker

/-! ### The aggregator -/

inductive UnivMonDeltaFidelity where
  | everyInsert
  | promotedOnly
  deriving DecidableEq

namespace LayeredMon

variable {Layout : Type} (mon : LayeredMon Layout)

def candidatesComplete : List Bool := mon.layers.map MonLayer.complete

def markLayerCandidatesIncomplete (layer : ℕ) : LayeredMon Layout :=
  { mon with layers := mon.layers.modify layer fun marked => { marked with complete := false } }

def setTotalWeight (weight : ℕ) : LayeredMon Layout :=
  { mon with
    bucketSize := weight
    updateMode := if mon.updateMode = .unset then .standard else mon.updateMode }

def applyLayeredDelta (xxh : XxHash3) (delta : LayeredCountDelta)
    (fidelity : UnivMonDeltaFidelity) : Option (LayeredMon Layout) :=
  if delta.layer < mon.layerSize then
    some
      { mon with
        layers := mon.layers.modify delta.layer fun layer =>
          let sketch := layer.l2Sketch.applyDelta delta.delta.row delta.delta.col delta.delta.value
          let offered := layer.hh.update xxh (heapItemToSketchInput delta.key)
            (sketch.countOf xxh delta.key)
          ⟨sketch, offered.1, layer.complete && (offered.2 && fidelity = .everyInsert)⟩
        updateMode := if mon.updateMode = .unset then .standard else mon.updateMode }
  else none

end LayeredMon

/-- `UnivMonOctoAggregator`, less the threshold it reads. -/
structure UnivMonOctoAggregator where
  sketch : UnivMon
  fidelityThreshold : ℕ
  fidelity : List UnivMonDeltaFidelity
  workerWeights : List ℕ
  totalWeight : ℕ

namespace UnivMonOctoAggregator

/-- The loop body of `refresh_fidelity`: a layer that thresholds now is marked. -/
def refreshLayer (threshold : ℕ) (aggregator : UnivMonOctoAggregator) (layer : ℕ) :
    UnivMonOctoAggregator :=
  if 1 < univmonLayerThreshold threshold layer then
    { aggregator with
      fidelity := aggregator.fidelity.set layer .promotedOnly
      sketch := aggregator.sketch.markLayerCandidatesIncomplete layer }
  else aggregator

def refreshFidelity (threshold : ℕ) (aggregator : UnivMonOctoAggregator) :
    UnivMonOctoAggregator :=
  if threshold = aggregator.fidelityThreshold then aggregator
  else (List.range aggregator.fidelity.length).foldl (refreshLayer threshold)
    { aggregator with fidelityThreshold := threshold }

def withThreshold (heapSize sketchRow sketchCol layerSize threshold : ℕ) :
    Option UnivMonOctoAggregator :=
  (UnivMon.initUnivmon heapSize sketchRow sketchCol layerSize).map fun sketch =>
    refreshFidelity threshold
      { sketch := sketch
        fidelityThreshold := 2 ^ 32 - 1
        fidelity := List.replicate layerSize .everyInsert
        workerWeights := []
        totalWeight := 0 }

def apply (xxh : XxHash3) (threshold : ℕ) (aggregator : UnivMonOctoAggregator)
    (delta : LayeredCountDelta) : Option UnivMonOctoAggregator :=
  let aggregator := refreshFidelity threshold aggregator
  let missing := delta.workerId + 1 - aggregator.workerWeights.length
  let weights := aggregator.workerWeights ++ List.replicate missing 0
  let known := weights.getD delta.workerId 0
  if known ≤ delta.weightTotal then
    aggregator.fidelity[delta.layer]?.bind fun fidelity =>
      (aggregator.sketch.applyLayeredDelta xxh delta fidelity).map fun sketch =>
        let total := aggregator.totalWeight + (delta.weightTotal - known)
        { aggregator with
          sketch := sketch.setTotalWeight total
          workerWeights := weights.set delta.workerId delta.weightTotal
          totalWeight := total }
  else none

end UnivMonOctoAggregator

/-! ### The pipeline -/

/-- The geometry that the plan, the workers and the aggregator share. -/
structure UnivMonOctoPlan where
  rows : ℕ
  cols : ℕ
  layers : ℕ

namespace UnivMonOctoPlan

variable (xxh : XxHash3) (plan : UnivMonOctoPlan)

def prepare (input : DataInput) : UnivMonInput :=
  let bottom := bottomLayerForHash (hash64Seeded xxh bottomLayerFinder input) (max plan.layers 1)
  { bottom := bottom
    layerHashes := (List.range (bottom + 1)).map fun layer => hash128Seeded xxh layer input
    key := inputToOwned input }

/-- The plan, the workers and the aggregator. A worker holds nothing back for a flush. An
aggregator that failed an assertion is gone. -/
def traits : OctoTraits DataInput UnivMonInput UnivMonOctoWorker LayeredCountDelta
    (Option UnivMonOctoAggregator) where
  prepare := plan.prepare xxh
  process := fun threshold worker payload => some (worker.process threshold payload)
  flush := fun worker => (worker, [])
  apply := fun threshold aggregator delta => aggregator.bind fun aggregator =>
    aggregator.apply xxh threshold delta

abbrev State (workers : ℕ) : Type :=
  OctoState UnivMonOctoWorker LayeredCountDelta (Option UnivMonOctoAggregator) workers

/-- The pipeline before the first message. -/
def start (heapSize workers tau : ℕ) : State workers :=
  OctoState.start (clampPromask tau)
    (fun worker => UnivMonOctoWorker.withThreshold worker plan.rows plan.cols plan.layers)
    (UnivMonOctoAggregator.withThreshold heapSize plan.rows plan.cols plan.layers
      (clampPromask tau))

end UnivMonOctoPlan

end AsapSketchlib
