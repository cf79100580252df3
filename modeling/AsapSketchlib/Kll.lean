/-
This file models the KLL quantile sketch: the buffer in which its levels lie one behind the other
and grow to the left, the compactions of an insert, and the merge, which settles the levels of both
sketches in vectors of their own and writes them back.

A step that would index out of bounds or subtract below zero returns nothing.
-/

import AsapSketchlib.Floating
import AsapSketchlib.SliceRuns
import Mathlib.Data.List.Sort

namespace AsapSketchlib

namespace Kll

/-! ### Capacities -/

def maxLevels : ℕ := 61

def capacityCacheLen : ℕ := 20

def maxCacheableK : ℕ := 26602

def capacityDecay : F64 := (F64.ofInt 2).div (F64.ofInt 3)

/-- The scales that the loops over levels run through. -/
def scales : ℕ → F64 → List F64
  | 0, _ => []
  | rounds + 1, scale => scale :: scales rounds (scale.mul capacityDecay)

def computeMaxCapacity (k m : ℕ) : ℕ :=
  ((scales maxLevels (F64.ofInt 1)).map fun scale =>
    (((F64.ofInt k).mul scale).ceil.max (F64.ofInt m)).asU64).foldl (· + ·) 0

/-- The capacities of `rebuild_capacity_cache`, from the top level down. -/
def cacheOf (k m : ℕ) : List ℕ :=
  (scales capacityCacheLen (F64.ofInt 1)).map fun scale =>
    Nat.max ((F64.ofInt k).mul scale).ceil.asU64 m

/-- What the sketch uses of its coin. -/
structure CoinFlips (Coin : Type) where
  toss : Coin → Bool × Coin
  fromSeed : BitVec 64 → Coin

/-- `usize::from` of a toss. -/
def offsetOf (bit : Bool) : ℕ := if bit then 1 else 0

end Kll

/-- The KLL sketch. Level `h` is `items[levels[h]..levels[h + 1]]`. -/
structure KLL (Value Coin : Type) where
  items : List Value
  levels : List ℕ
  k : ℕ
  m : ℕ
  numLevels : ℕ
  maxCapacity : ℕ
  co : Coin
  seed : Option (BitVec 64)
  capacityCache : List ℕ
  topHeight : ℕ
  level0Capacity : ℕ

namespace KLL

open Kll

variable {Value Coin : Type}

def capacityForLevel (sketch : KLL Value Coin) (level : ℕ) : ℕ :=
  if sketch.numLevels = 0 then sketch.m
  else sketch.capacityCache.getD (Nat.min (sketch.topHeight - level) (capacityCacheLen - 1)) 0

def rebuildCapacityCache (sketch : KLL Value Coin) : KLL Value Coin :=
  let rebuilt := { sketch with
    topHeight := sketch.numLevels - 1
    capacityCache := cacheOf sketch.k sketch.m }
  { rebuilt with level0Capacity := rebuilt.capacityForLevel 0 }

def initInternal [Inhabited Value] (k m : ℕ) (coin : Coin) (seed : Option (BitVec 64)) :
    KLL Value Coin :=
  let normM := Nat.max (Nat.min m maxCacheableK) 2
  let normK := Nat.min (Nat.max k normM) maxCacheableK
  let maxCap := computeMaxCapacity normK normM
  rebuildCapacityCache
    { items := List.replicate maxCap default
      levels := ((List.replicate (maxLevels + 1) 0).set 0 maxCap).set 1 maxCap
      k := normK
      m := normM
      numLevels := 1
      maxCapacity := maxCap
      co := coin
      seed := seed
      capacityCache := List.replicate capacityCacheLen 0
      topHeight := 0
      level0Capacity := 0 }

def levelSize (sketch : KLL Value Coin) (h : ℕ) : Option ℕ := do
  let stop ← sketch.levels[h + 1]?
  let start ← sketch.levels[h]?
  minus stop start

def levelItems (sketch : KLL Value Coin) (h : ℕ) : Option (List Value) := do
  let start ← sketch.levels[h]?
  let stop ← sketch.levels[h + 1]?
  Slice.between sketch.items start stop

def addNewTopLevel (sketch : KLL Value Coin) : Option (KLL Value Coin) := do
  let sentinel ← sketch.levels[sketch.numLevels]?
  let levels ← Slice.write sketch.levels (sketch.numLevels + 1) sentinel
  let grown := { sketch with
    numLevels := sketch.numLevels + 1
    levels := levels
    topHeight := sketch.numLevels }
  some { grown with level0Capacity := grown.capacityForLevel 0 }

section Updates

variable [LinearOrder Value] (flips : CoinFlips Coin)

/-- `sort_unstable_by(T::total_cmp)`. Values that compare equal are the same, so there is one
sorted order. -/
def sorted (values : List Value) : List Value := values.insertionSort fun left right => left ≤ right

def halveLevel (items : List Value) (h start stop offset : ℕ) : Option (List Value × ℕ) := do
  let pop ← minus stop start
  let run ← Slice.between items start stop
  let items := if h = 0 then Slice.copyInto items start (sorted run) else items
  Slice.randomlyHalveUp items start pop offset

/-- The survivors are merged with the level above, which starts where their run stops. -/
def mergeAbove (items : List Value) (survStart stop above numSurvivors : ℕ) :
    Option (List Value) := do
  let popAbove ← minus above stop
  if 0 < popAbove then
    let runs ← Slice.between items survStart (stop + popAbove)
    some (Slice.copyInto items survStart (Slice.mergeSortedRuns runs numSurvivors))
  else some items

/-- `copy_within(lo..hi, dest)`. -/
def copyWithin (items : List Value) (lo hi dest : ℕ) : Option (List Value) := do
  let moved ← Slice.between items lo hi
  Slice.copyFromSlice items dest moved

/-- The levels below a compacted level move up to it by as many places as were freed. -/
def shiftBelow (items : List Value) (levels : List ℕ) (h start delta : ℕ) :
    Option (List Value × List ℕ) :=
  if 0 < delta ∧ 0 < h then do
    let low ← levels[0]?
    let moved ← (if low < start then copyWithin items low start (low + delta) else some items)
    some (moved, levels.mapIdx fun place level => if place < h then level + delta else level)
  else some (items, levels)

/-- `compact`: half of a level moves up. -/
def compact (sketch : KLL Value Coin) (h : ℕ) : Option (KLL Value Coin) := do
  let start ← sketch.levels[h]?
  let stop ← sketch.levels[h + 1]?
  let pop ← minus stop start
  let flipped := flips.toss sketch.co
  let halved ← halveLevel sketch.items h start stop (offsetOf flipped.1)
  let survStart ← minus (start + pop) halved.2
  let above ← sketch.levels[h + 2]?
  let merged ← mergeAbove halved.1 survStart stop above halved.2
  let delta ← minus survStart start
  let shifted ← shiftBelow merged sketch.levels h start delta
  some { sketch with
    items := shifted.1
    levels := (shifted.2.set h survStart).set (h + 1) survStart
    co := flipped.2 }

/-- The loop of `compress_while_updating`. Behind the last entry of `levels` it panics. -/
def compressFrom : ℕ → ℕ → KLL Value Coin → Option (KLL Value Coin)
  | 0, _, _ => none
  | rounds + 1, h, sketch => do
    let pop ← sketch.levelSize h
    if pop ≤ sketch.capacityForLevel h then some sketch
    else
      let grown ← (if h + 1 = sketch.numLevels then sketch.addNewTopLevel else some sketch)
      let compacted ← compact flips grown h
      compressFrom rounds (h + 1) compacted

def compressWhileUpdating (sketch : KLL Value Coin) : Option (KLL Value Coin) :=
  compressFrom flips (sketch.levels.length + 1) 0 sketch

def pushValue (sketch : KLL Value Coin) (value : Value) : Option (KLL Value Coin) := do
  let first ← sketch.levels[0]?
  let room ← (if first = 0 then compressWhileUpdating flips sketch else some sketch)
  let free ← room.levels[0]?
  let place ← minus free 1
  let items ← Slice.write room.items place value
  let pushed := { room with levels := room.levels.set 0 place, items := items }
  let size ← pushed.levelSize 0
  if pushed.level0Capacity < size then compressWhileUpdating flips pushed else some pushed

/-! ### Merging -/

/-- The combined items of a level. Above level 0 both runs are sorted. -/
def combined (sketch other : KLL Value Coin) (h : ℕ) : Option (List Value) := do
  let own ← (if h < sketch.numLevels then sketch.levelItems h else some [])
  if h < other.numLevels then do
    let theirs ← other.levelItems h
    let both := own ++ theirs
    some (if 0 < h then Slice.mergeSortedRuns both own.length else both)
  else some own

/-- The inner loop of the cascade: an overfull level is halved into the level above. -/
def settleLevel (h : ℕ) :
    ℕ → KLL Value Coin × List (List Value) → Option (KLL Value Coin × List (List Value))
  | 0, _ => none
  | rounds + 1, (sketch, work) =>
    if sketch.capacityForLevel h < (work.getD h []).length then do
      let sketch := if h + 1 = sketch.numLevels then
          rebuildCapacityCache { sketch with numLevels := sketch.numLevels + 1 }
        else sketch
      let work := work ++ List.replicate (sketch.numLevels + 1 - work.length) []
      let pop := (work.getD h []).length
      let flipped := flips.toss sketch.co
      let halved ← Slice.randomlyHalveUp (work.getD h []) 0 pop (offsetOf flipped.1)
      let kept := halved.1.drop (pop - halved.2)
      let promoted := Slice.mergeSortedRuns (kept ++ work.getD (h + 1) []) kept.length
      settleLevel h rounds
        ({ sketch with co := flipped.2 }, (work.set h []).set (h + 1) promoted)
    else some (sketch, work)

def cascade :
    ℕ → ℕ → KLL Value Coin × List (List Value) → Option (KLL Value Coin × List (List Value))
  | 0, _, _ => none
  | rounds + 1, h, (sketch, work) =>
    if h < sketch.numLevels then do
      let work := if h = 0 then work.modify 0 sorted else work
      let settled ← settleLevel flips h ((work.getD h []).length + 1) (sketch, work)
      cascade rounds (h + 1) settled
    else some (sketch, work)

def writeLevels (work : List (List Value)) :
    ℕ → List Value × List ℕ × ℕ → Option (List Value × List ℕ × ℕ)
  | 0, written => some written
  | h + 1, (items, levels, cursor) => do
    let level := work.getD h []
    let cursor ← minus cursor level.length
    let items ← Slice.copyFromSlice items cursor level
    let levels ← Slice.write levels h cursor
    writeLevels work h (items, levels, cursor)

/-- The write-back of `merge`. -/
def writeBack (sketch : KLL Value Coin) (work : List (List Value)) : Option (KLL Value Coin) := do
  let (items, levels, _) ←
    writeLevels work sketch.numLevels (sketch.items, sketch.levels, sketch.maxCapacity)
  let levels ← Slice.write levels sketch.numLevels sketch.maxCapacity
  some { sketch with
    items := items
    levels := levels.mapIdx fun place level =>
      if sketch.numLevels < place then sketch.maxCapacity else level }

def merge (sketch other : KLL Value Coin) : Option (KLL Value Coin) := do
  let otherStart ← other.levels[0]?
  let otherEnd ← other.levels[other.numLevels]?
  if otherEnd = otherStart then some sketch
  else
    let target := Nat.max sketch.numLevels other.numLevels
    let work ← (List.range target).mapM (combined sketch other)
    let grown := rebuildCapacityCache { sketch with numLevels := target }
    let (settled, work) ←
      cascade flips (target + work.flatten.length + 1) 0 (grown, work ++ [[]])
    writeBack settled work

end Updates

/-- `clear`. The coin is seeded anew, without a seed from the clock. -/
def clear (flips : CoinFlips Coin) (clock : Coin) (sketch : KLL Value Coin) : KLL Value Coin :=
  rebuildCapacityCache { sketch with
    levels := (sketch.levels.set 0 sketch.maxCapacity).set 1 sketch.maxCapacity
    numLevels := 1
    co := (sketch.seed.map flips.fromSeed).getD clock }

end KLL

end AsapSketchlib
