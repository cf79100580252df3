/-
This file models the Elastic sketch: a heavy table of buckets that vote for their resident
flow, over a Count-Min layer that takes the flows that lose. Expanding the heavy table copies
it, and leaves in one half copies of residents that now hash to the other.

Votes and counters are integers, so the model is of runs that overflow no counter. A bucket
out of range, where the source would panic, reads as a new bucket; the table of every sketch
the operations build has as many buckets as indices.
-/

import AsapSketchlib.MatrixSketch

namespace AsapSketchlib

/-! ### Buckets -/

def lambda : ℤ := 8

/-- One slot of the heavy part: the resident flow, its vote pair, and the flag marking that part
of its size lives in the light layer. -/
structure HeavyBucket where
  flowId : String
  votePos : ℤ
  voteNeg : ℤ
  eviction : Bool
  deriving DecidableEq

namespace HeavyBucket

def new : HeavyBucket := ⟨"", 0, 0, false⟩

def emptied : HeavyBucket := ⟨"", 0, 0, true⟩

/-- A bucket holds no flow exactly while it has no positive vote. -/
def isVacant (bucket : HeavyBucket) : Bool := bucket.votePos = 0

/-- Seats a flow in a vacant bucket. The flag is carried over. -/
def occupyMany (bucket : HeavyBucket) (id : String) (count : ℤ) : HeavyBucket :=
  { bucket with flowId := id, votePos := count, voteNeg := 0 }

def evictMany (_ : HeavyBucket) (id : String) (count : ℤ) : HeavyBucket :=
  ⟨id, count, count, true⟩

end HeavyBucket

/-! ### The sketch -/

/-- A heavy table over a light layer. `staleCopies` is set by an expansion while copies of
residents may sit in the half they no longer hash to. -/
structure Elastic where
  heavy : List HeavyBucket
  light : CountMin
  bktlen : ℕ
  staleCopies : Bool

namespace Elastic

def initWithDimensions (bucketCount lightRows lightCols : ℕ) : Option Elastic :=
  if 0 < bucketCount ∧ 0 < lightRows ∧ 0 < lightCols then
    some {
      heavy := List.replicate bucketCount HeavyBucket.new
      light := CountMin.withDimensions lightRows lightCols
      bktlen := bucketCount
      staleCopies := false }
  else none

def bucketAt (sketch : Elastic) (idx : ℕ) : HeavyBucket :=
  (sketch.heavy[idx]?).getD HeavyBucket.new

def setBucket (sketch : Elastic) (idx : ℕ) (bucket : HeavyBucket) : Elastic :=
  { sketch with heavy := sketch.heavy.set idx bucket }

variable (hasher : SketchHasher)

def bucketIndex (sketch : Elastic) (id : String) : ℕ :=
  (hasher.hash64Seeded canonicalHashSeed (.str id)).toNat % sketch.bktlen

def lightEstimate (sketch : Elastic) (id : String) : ℤ :=
  CountMin.estimate hasher sketch.light (.string id)

def insertLight (sketch : Elastic) (id : String) (votes : ℤ) : Elastic :=
  { sketch with light := CountMin.insertMany hasher sketch.light (.string id) votes }

/-- Whether a bucket holds a copy left behind by an expansion. -/
def staleAt (sketch : Elastic) (idx : ℕ) : Bool :=
  sketch.staleCopies && (!(bucketAt sketch idx).isVacant &&
    bucketIndex hasher sketch (bucketAt sketch idx).flowId ≠ idx)

def seatOverStaleCopy (sketch : Elastic) (idx : ℕ) (id : String) (count : ℤ) : Elastic :=
  setBucket sketch idx ⟨id, count, 0, true⟩

/-- Records `count` occurrences of a flow. -/
def insertMany (sketch : Elastic) (id : String) (count : ℤ) : Elastic :=
  if count ≤ 0 then sketch
  else
    let idx := bucketIndex hasher sketch id
    if staleAt hasher sketch idx then seatOverStaleCopy sketch idx id count
    else
      let bucket := bucketAt sketch idx
      if bucket.isVacant then setBucket sketch idx (bucket.occupyMany id count)
      else if bucket.flowId = id then
        setBucket sketch idx { bucket with votePos := bucket.votePos + count }
      else
        let voteNeg := bucket.voteNeg + count
        if voteNeg < lambda * bucket.votePos then
          insertLight hasher (setBucket sketch idx { bucket with voteNeg := voteNeg }) id count
        else
          insertLight hasher (setBucket sketch idx (bucket.evictMany id count)) bucket.flowId
            bucket.votePos

def insert (sketch : Elastic) (id : String) : Elastic := insertMany hasher sketch id 1

def flagIfResident (sketch : Elastic) (idx : ℕ) (id : String) : Elastic :=
  let bucket := bucketAt sketch idx
  if !bucket.isVacant && bucket.flowId = id then
    setBucket sketch idx { bucket with eviction := true }
  else sketch

/-- Absorbs a heavy-part message of another sketch. -/
def mergeHeavy (sketch : Elastic) (id : String) (votes : ℤ) (eviction : Bool) : Elastic :=
  if votes ≤ 0 then sketch
  else
    let inserted := insertMany hasher sketch id votes
    if eviction then flagIfResident inserted (bucketIndex hasher sketch id) id else inserted

def absorbEvicted (sketch : Elastic) (id : String) (votes : ℤ) : Elastic :=
  let spilled := if 0 < votes then insertLight hasher sketch id votes else sketch
  flagIfResident spilled (bucketIndex hasher sketch id) id

/-- Records one occurrence of a flow against the heavy part alone. -/
def insertHeavyOnly (sketch : Elastic) (id : String) : Elastic :=
  let idx := bucketIndex hasher sketch id
  if staleAt hasher sketch idx then seatOverStaleCopy sketch idx id 1
  else
    let bucket := bucketAt sketch idx
    if bucket.isVacant then setBucket sketch idx (bucket.occupyMany id 1)
    else if bucket.flowId = id then
      setBucket sketch idx { bucket with votePos := bucket.votePos + 1 }
    else
      let voteNeg := bucket.voteNeg + 1
      if voteNeg < lambda * bucket.votePos then
        setBucket sketch idx { bucket with voteNeg := voteNeg }
      else setBucket sketch idx { bucket with flowId := id, voteNeg := 0 }

def query (sketch : Elastic) (id : String) : ℤ :=
  let bucket := bucketAt sketch (bucketIndex hasher sketch id)
  if !bucket.isVacant && bucket.flowId = id then
    if bucket.eviction then bucket.votePos + lightEstimate hasher sketch id else bucket.votePos
  else lightEstimate hasher sketch id

/-! ### Merging -/

def contender (sketch : Elastic) (idx : ℕ) : Option HeavyBucket :=
  let bucket := bucketAt sketch idx
  if !bucket.isVacant && !staleAt hasher sketch idx then some bucket else none

def contest (sketch other : Elastic) (idx : ℕ) : Option HeavyBucket × Option (String × ℤ) :=
  match contender hasher sketch idx, contender hasher other idx with
  | none, none => (none, none)
  | some kept, none => (some kept, none)
  | none, some kept => (some kept, none)
  | some mine, some theirs =>
    if mine.flowId = theirs.flowId then
      (some { mine with
        votePos := mine.votePos + theirs.votePos
        voteNeg := max mine.voteNeg theirs.voteNeg }, none)
    else if query hasher other theirs.flowId ≤ query hasher sketch mine.flowId then
      (some mine, some (theirs.flowId, theirs.votePos))
    else (some theirs, some (mine.flowId, mine.votePos))

/-- The bucket a contest leaves, flagged in every case. -/
def mergedBucket : Option HeavyBucket → HeavyBucket
  | some kept => { kept with eviction := true }
  | none => HeavyBucket.emptied

/-- Adds each flow's votes to the light layer. -/
def spill (sketch : Elastic) (flows : List (String × ℤ)) : Elastic :=
  flows.foldl (fun sketch flow => insertLight hasher sketch flow.1 flow.2) sketch

/-- `contest_heavy_against`: the combined heavy part, and the losers. -/
def contestHeavyAgainst (sketch other : Elastic) : Elastic × List (String × ℤ) :=
  let contests := (List.range sketch.heavy.length).map (contest hasher sketch other)
  ({ sketch with
      heavy := contests.map fun outcome => mergedBucket outcome.1
      staleCopies := false },
    contests.filterMap Prod.snd)

/-- Merges `other` in; a bucket count or a light layer of other dimensions stops it. -/
def merge (sketch other : Elastic) : Option Elastic :=
  if sketch.bktlen = other.bktlen then
    let contested := contestHeavyAgainst hasher sketch other
    (contested.1.light.merge other.light).map fun light =>
      spill hasher { contested.1 with light := light } contested.2
  else none

/-- Merges `other` in, keeping the larger of each pair of light counters. -/
def mergeMax (sketch other : Elastic) : Option Elastic :=
  if sketch.bktlen = other.bktlen then
    let contested := contestHeavyAgainst hasher sketch other
    (contested.1.light.mergeMax other.light).map fun light =>
      spill hasher { contested.1 with light := light } contested.2
  else none

/-! ### Resizing -/

/-- Doubles the heavy table by appending a copy of itself, unless the bucket count overflows. -/
def expandHeavy (sketch : Elastic) : Option Elastic :=
  if sketch.bktlen * 2 < 2 ^ 31 then
    some { sketch with
      heavy := sketch.heavy ++ sketch.heavy
      bktlen := sketch.bktlen * 2
      staleCopies := true }
  else none

def dropStaleCopies (sketch : Elastic) : Elastic :=
  if sketch.staleCopies then
    { sketch with
      heavy := sketch.heavy.mapIdx fun idx bucket =>
        if staleAt hasher sketch idx then HeavyBucket.emptied else bucket
      staleCopies := false }
  else sketch

/-- What the first loop of a compression knows of a group of buckets. -/
structure Group where
  winner : Option ℕ
  best : ℤ
  flagged : Bool

/-- The loop body: a bucket is compared with the best of its group so far. -/
def scanBucket (sketch : Elastic) (width : ℕ) (groups : ℕ → Group) (idx : ℕ) : ℕ → Group :=
  let bucket := bucketAt sketch idx
  let known := groups (idx % width)
  if bucket.isVacant then
    Function.update groups (idx % width) { known with flagged := known.flagged || bucket.eviction }
  else
    let size := query hasher sketch bucket.flowId
    if known.winner.isNone || known.best < size then
      Function.update groups (idx % width) { known with winner := some idx, best := size }
    else groups

def scanGroups (sketch : Elastic) (width : ℕ) : ℕ → Group :=
  (List.range sketch.heavy.length).foldl (scanBucket hasher sketch width) fun _ =>
    ⟨none, 0, false⟩

def compressedBucket (sketch : Elastic) (group : Group) : HeavyBucket :=
  match group.winner with
  | some idx => bucketAt sketch idx
  | none => { HeavyBucket.new with eviction := group.flagged }

/-- The residents that do not win their group, with their votes. -/
def losersOf (sketch : Elastic) (width : ℕ) (groups : ℕ → Group) : List (String × ℤ) :=
  (List.range sketch.heavy.length).filterMap fun idx =>
    let bucket := bucketAt sketch idx
    if bucket.isVacant || (groups (idx % width)).winner = some idx then none
    else some (bucket.flowId, bucket.votePos)

/-- Shrinks the heavy table by a ratio, which has to divide the bucket count. -/
def compressHeavy (sketch : Elastic) (ratio : ℕ) : Option Elastic :=
  if 1 ≤ ratio ∧ sketch.bktlen % ratio = 0 then
    if ratio = 1 then some sketch
    else
      let settled := dropStaleCopies hasher sketch
      let width := settled.bktlen / ratio
      let groups := scanGroups hasher settled width
      some (spill hasher
        { settled with
          heavy := (List.range width).map fun group => compressedBucket settled (groups group)
          bktlen := width }
        (losersOf settled width groups))
  else none

/-! ### Reports -/

/-- The order of `sort_unstable` on pairs of a flow and a size. -/
def flowLe (left right : String × ℤ) : Bool :=
  left.1 < right.1 ∨ left.1 = right.1 ∧ left.2 ≤ right.2

/-- The flows that the heavy part holds, each with its whole estimate. -/
def residentFlows (sketch : Elastic) : List (String × ℤ) :=
  (((List.range sketch.heavy.length).filter fun idx =>
      !(bucketAt sketch idx).isVacant && !staleAt hasher sketch idx).map fun idx =>
        ((bucketAt sketch idx).flowId, query hasher sketch (bucketAt sketch idx).flowId)).mergeSort
    flowLe

/-- The flows of the heavy part whose estimate reaches a threshold. -/
def heavyHitters (sketch : Elastic) (threshold : ℤ) : List (String × ℤ) :=
  (residentFlows hasher sketch).filter fun flow => threshold ≤ flow.2

end Elastic

end AsapSketchlib
