/-
This file models UnivMon: a pyramid of layers, each a Count sketch beside a heavy-hitter heap,
of which a key reaches as many as the bits of its hash say. `UnivMon` and `UnivMonPyramid`
differ only in the dimensions of their layers, so both are one structure over a layout.

Standard updates reach every layer down to the bottom layer of a key; terminal updates reach
the bottom layer only, and queries put the layers together again. An operation that fails an
assertion returns nothing. Sums are over an arbitrary ring in the place of floating point.
-/

import AsapSketchlib.CountL2HH
import AsapSketchlib.HHHeap
import AsapSketchlib.HashTable

namespace AsapSketchlib

/-! ### The layer selector -/

def maxLayerSize : ℕ := 64

/-- `(hash >> l) & 1`. -/
def hashBit (hash : BitVec 64) (l : ℕ) : ℕ := ((hash >>> l) &&& 1#64).toNat

/-- Deepest pyramid layer the given key hash reaches. -/
def bottomLayerForHash (hash : BitVec 64) (layerSize : ℕ) : ℕ :=
  match (List.range' 1 (layerSize - 1)).find? fun l => hashBit hash l = 0 with
  | some l => l - 1
  | none => layerSize - 1

/-! ### Layers -/

/-- `UnivMonUpdateMode`. -/
inductive UpdateMode where
  | unset
  | standard
  | terminal
  deriving DecidableEq

/-- A layer: its sketch, its heap, and whether the heap still holds every key it was offered. -/
structure MonLayer where
  l2Sketch : CountL2HH
  hh : HHHeap
  complete : Bool

namespace MonLayer

/-- A fresh layer, whose sketch hashes under the layer's own index. -/
def new (rows cols heapSize index : ℕ) : MonLayer where
  l2Sketch := CountL2HH.withDimensionsAndSeed rows cols index
  hh := HHHeap.new heapSize
  complete := true

def free (layer : MonLayer) : MonLayer where
  l2Sketch := layer.l2Sketch.clear
  hh := layer.hh.clear
  complete := true

variable (xxh : XxHash3)

def update (layer : MonLayer) (key : DataInput) (value : ℤ) : MonLayer :=
  let estimated := layer.l2Sketch.updateAndEst xxh key value
  let offered := layer.hh.update xxh key (f64AsI64 estimated.2)
  ⟨estimated.1, offered.1, layer.complete && offered.2⟩

/-- The residents with the counts the sketch estimates now. -/
def candidates (layer : MonLayer) : List (HeapItem × ℤ) :=
  layer.hh.heap.map fun item => (item.key, layer.l2Sketch.countOf xxh item.key)

/-- The keys of both heaps, through a hash set. -/
def candidateKeys (table : HashTable HeapItem HeapItem.eqItem) (layer other : MonLayer) :
    List HeapItem :=
  table.collectSet (layer.hh.heap ++ other.hh.heap |>.map HHItem.key)

/-- Offers keys to a heap, each with its estimate. -/
def offerAll (sketch : CountL2HH) (heap : HHHeap) (keys : List HeapItem) : HHHeap :=
  keys.foldl (fun heap key =>
    (heap.update xxh (heapItemToSketchInput key) (sketch.countOf xxh key)).1) heap

/-- The loop body of `merge`: the counters are merged, and the heap is built anew. -/
def merge (table : HashTable HeapItem HeapItem.eqItem) (heapSize : ℕ) (layer other : MonLayer) :
    MonLayer :=
  let keys := candidateKeys table layer other
  let sketch := layer.l2Sketch.merge other.l2Sketch
  { l2Sketch := sketch
    hh := offerAll xxh sketch layer.hh.clear keys
    complete := layer.complete && other.complete && keys.length ≤ heapSize }

end MonLayer

/-! ### Pyramids -/

/-- What a layout says about its layers: their dimensions, and whether all are positive. -/
class MonLayout (Layout : Type) where
  rows : Layout → ℕ → ℕ
  cols : Layout → ℕ → ℕ
  positive : Layout → Bool

/-- The layout of `UnivMon`: all layers have the same dimensions. -/
structure UnivMonLayout where
  sketchRow : ℕ
  sketchCol : ℕ
  deriving DecidableEq

instance : MonLayout UnivMonLayout where
  rows := fun layout _ => layout.sketchRow
  cols := fun layout _ => layout.sketchCol
  positive := fun layout => 0 < layout.sketchRow ∧ 0 < layout.sketchCol

/-- The state of a pyramid of layers. -/
structure LayeredMon (Layout : Type) where
  layers : List MonLayer
  layout : Layout
  heapSize : ℕ
  bucketSize : ℕ
  updateMode : UpdateMode

abbrev UnivMon := LayeredMon UnivMonLayout

namespace LayeredMon

variable {Layout : Type} (mon : LayeredMon Layout)

def layerSize : ℕ := mon.layers.length

def create [MonLayout Layout] (layout : Layout) (heapSize layerSize : ℕ) :
    Option (LayeredMon Layout) :=
  if 0 < heapSize ∧ MonLayout.positive layout ∧ 0 < layerSize ∧ layerSize ≤ maxLayerSize then
    some
      { layers := (List.range layerSize).map fun i =>
          MonLayer.new (MonLayout.rows layout i) (MonLayout.cols layout i) heapSize i
        layout := layout
        heapSize := heapSize
        bucketSize := 0
        updateMode := .unset }
  else none

def beginUpdate (value : ℤ) (mode : UpdateMode) : Option (LayeredMon Layout) :=
  if value < 0 then none
  else if mon.updateMode ≠ .unset ∧ mon.updateMode ≠ mode then none
  else if 2 ^ 64 ≤ mon.bucketSize + value.toNat then none
  else some { mon with updateMode := mode, bucketSize := mon.bucketSize + value.toNat }

/-- Resets the sketch to its initial state without reallocating. -/
def free : LayeredMon Layout :=
  { mon with layers := mon.layers.map MonLayer.free, bucketSize := 0, updateMode := .unset }

def mergedMode : UpdateMode → UpdateMode → Option UpdateMode
  | .unset, mode => some mode
  | mode, .unset => some mode
  | left, right => if left = right then some left else none

section Hashed

variable (xxh : XxHash3)

def bottomLayerFor (key : DataInput) : ℕ :=
  bottomLayerForHash (hash64Seeded xxh bottomLayerFinder key) mon.layerSize

/-- `update`: every layer down to the bottom one. -/
def update (key : DataInput) (value : ℤ) (bottomLayerNum : ℕ) : LayeredMon Layout :=
  { mon with layers := mon.layers.mapIdx fun i layer =>
      if i ≤ bottomLayerNum then layer.update xxh key value else layer }

def insert (key : DataInput) (value : ℤ) : Option (LayeredMon Layout) :=
  (mon.beginUpdate value .standard).map fun begun =>
    begun.update xxh key value (begun.bottomLayerFor xxh key)

/-- Inserts one weighted update into its terminal stratum only. -/
def fastInsert (key : DataInput) (value : ℤ) : Option (LayeredMon Layout) :=
  (mon.beginUpdate value .terminal).map fun begun =>
    { begun with layers := begun.layers.modify (begun.bottomLayerFor xxh key) fun layer =>
        layer.update xxh key value }

/-- Merges another compatible pyramid. Each layer goes through a hash set of its own. -/
def merge [DecidableEq Layout] (tables : ℕ → HashTable HeapItem HeapItem.eqItem)
    (other : LayeredMon Layout) : Option (LayeredMon Layout) :=
  if mon.layerSize = other.layerSize ∧ mon.layout = other.layout ∧
      mon.heapSize = other.heapSize then
    (mergedMode mon.updateMode other.updateMode).bind fun mode =>
      if 2 ^ 64 ≤ mon.bucketSize + other.bucketSize then none
      else some
        { mon with
          layers := (mon.layers.zip other.layers).mapIdx fun i pair =>
            pair.1.merge xxh (tables i) mon.heapSize pair.2
          bucketSize := mon.bucketSize + other.bucketSize
          updateMode := mode }
  else none

/-! ### Sums -/

def heavyThreshold (l2 : ℚ) (complete : Bool) : ℤ :=
  if complete then 0 else f64AsI64 (roundF64 (l2 / sqrtF64 mon.heapSize))

variable {R : Type} [Ring R]

/-- The recurrence from level `i` on, over the candidates of each level that are heavy there. A
candidate counts with the sign that bit `i + 1` of its hash gives it, except at the last
level. -/
def recurrence (g : ℤ → R) : ℕ → List (List (HeapItem × ℤ)) → R
  | _, [] => 0
  | _, [last] => (last.map fun entry => g entry.2).sum
  | i, level :: next :: rest =>
    2 * recurrence g (i + 1) (next :: rest) + (level.map fun entry =>
      (1 - 2 * (hashBit (hashItem64Seeded xxh bottomLayerFinder entry.1) (i + 1) : R)) *
        g entry.2).sum

def heavyCandidates (isCard : Bool) (layer : MonLayer) : List (HeapItem × ℤ) :=
  let threshold := if isCard then mon.heavyThreshold layer.l2Sketch.getL2 layer.complete else 0
  (layer.candidates xxh).filter fun entry => threshold < entry.2

/-- A level put together from the terminal strata. -/
structure LogicalLevel where
  candidates : List (HeapItem × ℤ)
  complete : Bool
  deriving DecidableEq

/-- The order in which the candidates of a level are retained: by falling count, and then by
the hash of the layer selector. -/
def retainedFirst (left right : HeapItem × ℤ) : Bool :=
  right.2 < left.2 || (left.2 == right.2 &&
    (hashItem64Seeded xxh bottomLayerFinder left.1).ule
      (hashItem64Seeded xxh bottomLayerFinder right.1))

/-- The cumulative map of a level: what the level below retained, and the residents of this
stratum. -/
def cumulativeAt (table : HashTable HeapItem HeapItem.eqItem) (retained : List (HeapItem × ℤ))
    (layer : MonLayer) : List (HeapItem × ℤ) :=
  table.upsertAll max (table.collectMap retained) (layer.candidates xxh)

/-- `logical_terminal_candidates` from level `i` on: the levels, and whether all strata are
complete. The map of each level is a hash table of its own. -/
def logicalFrom (tables : ℕ → HashTable HeapItem HeapItem.eqItem) :
    ℕ → List MonLayer → List LogicalLevel × Bool
  | _, [] => ([], true)
  | i, layer :: rest =>
    let deeper := logicalFrom tables (i + 1) rest
    let suffixComplete := deeper.2 && layer.complete
    let below := (deeper.1.head?.map LogicalLevel.candidates).getD []
    let retained := ((tables i).iterate (cumulativeAt xxh (tables i) below layer)).insertionSort
      fun left right => retainedFirst xxh left right
    (⟨retained.take mon.heapSize, suffixComplete && retained.length ≤ mon.heapSize⟩ :: deeper.1,
      suffixComplete)

def logicalTerminalCandidates (tables : ℕ → HashTable HeapItem HeapItem.eqItem) :
    List LogicalLevel :=
  (mon.logicalFrom xxh tables 0 mon.layers).1

/-- The norms of the logical streams: the strata's squared norms added up from the last on. -/
def logicalL2Squared : List MonLayer → List ℚ
  | [] => []
  | layer :: rest =>
    let deeper := logicalL2Squared rest
    let terminalL2 := layer.l2Sketch.getL2
    roundF64 (deeper.headD 0 + roundF64 (terminalL2 * terminalL2)) :: deeper

def calcTerminalGSum (tables : ℕ → HashTable HeapItem HeapItem.eqItem) (g : ℤ → R) : R :=
  recurrence xxh g 0 (((mon.logicalTerminalCandidates xxh tables).zip
    (logicalL2Squared mon.layers)).map fun level =>
      level.1.candidates.filter fun entry =>
        mon.heavyThreshold (sqrtF64 level.2) level.1.complete < entry.2)

/-- `calc_g_sum_heuristic`, and `calc_g_sum` of a pyramid. -/
def calcGSumHeuristic (tables : ℕ → HashTable HeapItem HeapItem.eqItem) (g : ℤ → R)
    (isCard : Bool) : R :=
  if mon.bucketSize = 0 then 0
  else if mon.updateMode = .terminal then mon.calcTerminalGSum xxh tables g
  else recurrence xxh g 0 (mon.layers.map (mon.heavyCandidates xxh isCard))

end Hashed

end LayeredMon

/-- `UnivMon::init_univmon`. -/
def UnivMon.initUnivmon (heapSize sketchRow sketchCol layerSize : ℕ) : Option UnivMon :=
  LayeredMon.create ⟨sketchRow, sketchCol⟩ heapSize layerSize

end AsapSketchlib
