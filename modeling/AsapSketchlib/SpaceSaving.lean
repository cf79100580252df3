/-
This file models the Space-Saving summary: the Stream-Summary of buckets and
counters in two index arenas, the digest index beside them, and every operation the
sketch offers over them.

`NIL` is the absent link. An index that is absent or out of range stops an operation
with a fault, as the panic of the source would, and so does a debug assertion that
fails.
-/

import AsapSketchlib.Arena
import AsapSketchlib.DigestIndex
import AsapSketchlib.Hash
import AsapSketchlib.Saturating

namespace AsapSketchlib

open Arena

structure MonitoredKey where
  key : HeapItem
  digest : BitVec 64
  error : ℕ
  bucket : Link
  prev : Link
  next : Link

/-- One count value, owning every counter currently at that count. -/
structure Bucket where
  count : ℕ
  head : Link
  prev : Link
  next : Link

/-- A Space-Saving summary over a fixed number of counters. `bucketFree` is a stack, its top
first. `index` maps a digest to the counters filed under it. -/
structure SpaceSaving where
  capacity : ℕ
  monitored : List MonitoredKey
  buckets : List Bucket
  bucketFree : List ℕ
  bucketHead : Link
  bucketTail : Link
  index : DigestIndex (BitVec 64)
  total : ℕ
  discardedMax : ℕ

namespace SpaceSaving

/-- Creates a summary that monitors at most `capacity` keys at a time. -/
def withCapacity (capacity : ℕ) : SpaceSaving where
  capacity := max capacity 1
  monitored := []
  buckets := []
  bucketFree := []
  bucketHead := none
  bucketTail := none
  index := fun _ => none
  total := 0
  discardedMax := 0

def len (summary : SpaceSaving) : ℕ := summary.monitored.length

/-- The ceiling on the true count of any key the summary does not monitor. -/
def minCount (summary : SpaceSaving) : Except Fault ℕ := do
  let lowest ←
    if summary.monitored.length = summary.capacity ∧ summary.bucketHead ≠ none then
      Bucket.count <$> readAt summary.buckets summary.bucketHead
    else
      pure 0
  return max summary.discardedMax lowest

def clear (summary : SpaceSaving) : SpaceSaving :=
  { summary with
    monitored := []
    buckets := []
    bucketFree := []
    bucketHead := none
    bucketTail := none
    index := fun _ => none
    total := 0
    discardedMax := 0 }

/-! ### The digest index -/

/-- The first of the listed counters whose key passes the test. -/
def findIn (monitored : List MonitoredKey) (test : HeapItem → Bool) :
    List ℕ → Except Fault (Option ℕ)
  | [] => .ok none
  | cid :: rest => do
    let counter ← readAt monitored (some cid)
    if test counter.key then return some cid else findIn monitored test rest

def find (summary : SpaceSaving) (digest : BitVec 64) (value : DataInput) :
    Except Fault (Option ℕ) :=
  findIn summary.monitored (fun key => key.eqInput value) (DigestIndex.slot summary.index digest)

def findKey (summary : SpaceSaving) (digest : BitVec 64) (key : HeapItem) :
    Except Fault (Option ℕ) :=
  findIn summary.monitored (fun other => other.eqItem key) (DigestIndex.slot summary.index digest)

/-- Takes a counter off the slot of a digest, and the slot out of the index once empty. -/
def unindex (summary : SpaceSaving) (digest : BitVec 64) (cid : ℕ) : SpaceSaving :=
  { summary with index := DigestIndex.retainOthers summary.index digest cid }

/-- `index.entry(digest).or_default().push(cid)`. -/
def file (summary : SpaceSaving) (digest : BitVec 64) (cid : ℕ) : SpaceSaving :=
  { summary with index := DigestIndex.push summary.index digest cid }

/-! ### Stream-Summary internals -/

/-- Stores a bucket in a recycled slot, or in a new one: the arena, the free stack and the id. -/
def placeBucket (buckets : List Bucket) (bucketFree : List ℕ) (bucket : Bucket) :
    Except Fault (List Bucket × List ℕ × ℕ) :=
  match bucketFree with
  | id :: rest => do
    let buckets ← writeAt buckets (some id) fun _ => bucket
    return (buckets, rest, id)
  | [] => return (buckets ++ [bucket], [], buckets.length)

/-- Links a fresh bucket between two neighbours and returns its id. -/
def insertBucket (summary : SpaceSaving) (prev next : Link) (count : ℕ) :
    Except Fault (SpaceSaving × ℕ) := do
  let bucket : Bucket := { count := count, head := none, prev := prev, next := next }
  let (buckets, bucketFree, bid) ← placeBucket summary.buckets summary.bucketFree bucket
  let buckets ← writeIfSome buckets prev fun other => { other with next := some bid }
  let buckets ← writeIfSome buckets next fun other => { other with prev := some bid }
  return ({ summary with
    buckets := buckets
    bucketFree := bucketFree
    bucketHead := if prev ≠ none then summary.bucketHead else some bid
    bucketTail := if next ≠ none then summary.bucketTail else some bid }, bid)

/-- The walk of `bucket_for`: past every bucket below `count`. The walk follows links, so it is
given fuel, and running out of it is a fault. -/
def bucketWalk (buckets : List Bucket) (count : ℕ) : ℕ → Link → Link → Except Fault (Link × Link)
  | 0, _, _ => .error .outOfFuel
  | _ + 1, prev, none => .ok (prev, none)
  | fuel + 1, prev, some id => do
    let bucket ← readAt buckets (some id)
    if bucket.count < count then bucketWalk buckets count fuel (some id) bucket.next
    else return (prev, some id)

/-- Where `bucket_for` starts: the low end, or right above the bucket `after`. -/
def walkStart (summary : SpaceSaving) (after : Link) : Except Fault Link :=
  match after with
  | none => pure summary.bucketHead
  | some id => Bucket.next <$> readAt summary.buckets (some id)

/-- Returns the bucket holding `count`, inserting one after `after` if no such bucket exists. -/
def bucketFor (summary : SpaceSaving) (after : Link) (count : ℕ) :
    Except Fault (SpaceSaving × ℕ) := do
  let start ← walkStart summary after
  let (prev, next) ← bucketWalk summary.buckets count (summary.buckets.length + 1) after start
  match next with
  | none => insertBucket summary prev none count
  | some id => do
    let bucket ← readAt summary.buckets (some id)
    if bucket.count = count then return (summary, id)
    else insertBucket summary prev (some id) count

/-- Puts a counter at the front of a bucket. -/
def attach (summary : SpaceSaving) (cid bid : ℕ) : Except Fault SpaceSaving := do
  let bucket ← readAt summary.buckets (some bid)
  let monitored ← writeAt summary.monitored (some cid) fun counter =>
    { counter with prev := none, next := bucket.head, bucket := some bid }
  let monitored ← writeIfSome monitored bucket.head fun counter =>
    { counter with prev := some cid }
  let buckets ← writeAt summary.buckets (some bid) fun other => { other with head := some cid }
  return { summary with monitored := monitored, buckets := buckets }

def dropBucket (summary : SpaceSaving) (bid : ℕ) : Except Fault SpaceSaving := do
  let bucket ← readAt summary.buckets (some bid)
  let buckets ← writeIfSome summary.buckets bucket.prev fun other =>
    { other with next := bucket.next }
  -- `debug_assert_ne!(next, NIL, "the tail bucket is never emptied")`
  if bucket.next = none then
    .error .debugAssertion
  else do
    let buckets ← writeAt buckets bucket.next fun other => { other with prev := bucket.prev }
    let buckets ← writeAt buckets (some bid) fun other =>
      { other with head := none, prev := none, next := none }
    return { summary with
      buckets := buckets
      bucketFree := bid :: summary.bucketFree
      bucketHead := if bucket.prev ≠ none then summary.bucketHead else bucket.next }

/-- The first half of `detach`: the links around a counter close behind it. Returns the bucket it
was taken out of. -/
def unlink (summary : SpaceSaving) (cid : ℕ) : Except Fault (SpaceSaving × Link) := do
  let counter ← readAt summary.monitored (some cid)
  let monitored ← writeIfSome summary.monitored counter.prev fun other =>
    { other with next := counter.next }
  let buckets ←
    if counter.prev ≠ none then
      pure summary.buckets
    else
      writeAt summary.buckets counter.bucket fun other => { other with head := counter.next }
  let monitored ← writeIfSome monitored counter.next fun other =>
    { other with prev := counter.prev }
  let monitored ← writeAt monitored (some cid) fun other =>
    { other with prev := none, next := none, bucket := none }
  return ({ summary with monitored := monitored, buckets := buckets }, counter.bucket)

/-- Takes a counter out of its bucket, dropping the bucket once empty. -/
def detach (summary : SpaceSaving) (cid : ℕ) : Except Fault SpaceSaving := do
  let (summary, source) ← unlink summary cid
  match source with
  | none => .error .outOfBounds
  | some bid => do
    let bucket ← readAt summary.buckets (some bid)
    if bucket.head = none then dropBucket summary bid else return summary

/-- Takes a free counter for `key` at `count` with `error`. -/
def seat (summary : SpaceSaving) (digest : BitVec 64) (key : HeapItem) (count error : ℕ) :
    Except Fault SpaceSaving := do
  let cid := summary.monitored.length
  let counter : MonitoredKey :=
    { key := key, digest := digest, error := error, bucket := none, prev := none, next := none }
  let summary := { summary with monitored := summary.monitored ++ [counter] }
  let (summary, bucket) ← bucketFor summary none count
  let summary ← attach summary cid bucket
  return summary.file digest cid

/-- Moves `cid` up by `count`, creating the destination bucket if needed. -/
def raise (summary : SpaceSaving) (cid count : ℕ) : Except Fault SpaceSaving := do
  let counter ← readAt summary.monitored (some cid)
  let bucket ← readAt summary.buckets counter.bucket
  let targetCount := saturatingAdd bucket.count count
  if targetCount = bucket.count then
    return summary
  else do
    let (summary, target) ← bucketFor summary counter.bucket targetCount
    let summary ← detach summary cid
    attach summary cid target

/-! ### Recording -/

/-- Gives the counter `victim` to another key: its label is overwritten in place and the index
follows. -/
def handOver (summary : SpaceSaving) (victim : ℕ) (digest : BitVec 64) (key : HeapItem)
    (error : ℕ) : Except Fault SpaceSaving := do
  let victimCounter ← readAt summary.monitored (some victim)
  let summary := unindex summary victimCounter.digest victim
  let monitored ← writeAt summary.monitored (some victim) fun counter =>
    { counter with key := key, digest := digest, error := error }
  return file { summary with monitored := monitored } digest victim

/-- A key that finds no free counter takes the first one of the lowest bucket. -/
def displace (summary : SpaceSaving) (digest : BitVec 64) (key : HeapItem) (count : ℕ) :
    Except Fault SpaceSaving := do
  let headBucket ← readAt summary.buckets summary.bucketHead
  let lowest := headBucket.count
  -- `debug_assert!(self.discarded_max <= lowest)`
  if lowest < summary.discardedMax then
    .error .debugAssertion
  else
    match headBucket.head with
    | none => .error .outOfBounds
    | some victim => do
      let summary := { summary with discardedMax := lowest }
      let summary ← handOver summary victim digest key lowest
      raise summary victim count

/-- The rest of `insert_many`, once the total has been counted and the digest taken. -/
def record (summary : SpaceSaving) (digest : BitVec 64) (value : DataInput) (count : ℕ) :
    Except Fault SpaceSaving := do
  match ← find summary digest value with
  | some cid => raise summary cid count
  | none =>
    if summary.monitored.length < summary.capacity then
      let seated := saturatingAdd summary.discardedMax count
      seat summary digest (inputToOwned value) seated summary.discardedMax
    else
      displace summary digest (inputToOwned value) count

/-- Records `count` occurrences of `value` in one step. -/
def insertMany (H : SketchHasher) (summary : SpaceSaving) (value : DataInput) (count : ℕ) :
    Except Fault SpaceSaving :=
  if count = 0 then
    return summary
  else
    record { summary with total := saturatingAdd summary.total count } (H.hash64Seeded 0 value)
      value count

/-- Records one occurrence of `value`. -/
def insert (H : SketchHasher) (summary : SpaceSaving) (value : DataInput) :
    Except Fault SpaceSaving :=
  insertMany H summary value 1

/-! ### Queries -/

/-- The count of the bucket a counter sits in: `self.buckets[self.monitored[cid].bucket].count`. -/
def countOf (summary : SpaceSaving) (cid : ℕ) : Except Fault ℕ := do
  let counter ← readAt summary.monitored (some cid)
  Bucket.count <$> readAt summary.buckets counter.bucket

/-- The recorded count for `value`, or zero when it is not monitored. -/
def estimate (H : SketchHasher) (summary : SpaceSaving) (value : DataInput) : Except Fault ℕ := do
  match ← find summary (H.hash64Seeded 0 value) value with
  | some cid => countOf summary cid
  | none => return 0

/-- The largest count `value` can have, monitored or not. -/
def upperBound (H : SketchHasher) (summary : SpaceSaving) (value : DataInput) :
    Except Fault ℕ := do
  match ← find summary (H.hash64Seeded 0 value) value with
  | some cid => countOf summary cid
  | none => minCount summary

/-- How far `estimate` may sit from the truth for `value`. -/
def error (H : SketchHasher) (summary : SpaceSaving) (value : DataInput) : Except Fault ℕ := do
  match ← find summary (H.hash64Seeded 0 value) value with
  | some cid => MonitoredKey.error <$> readAt summary.monitored (some cid)
  | none => minCount summary

/-- True when `value`'s count is above every unmonitored key's ceiling. -/
def isGuaranteed (H : SketchHasher) (summary : SpaceSaving) (value : DataInput) :
    Except Fault Bool := do
  match ← find summary (H.hash64Seeded 0 value) value with
  | some cid => do
    let count ← countOf summary cid
    let counter ← readAt summary.monitored (some cid)
    let ceiling ← minCount summary
    return ceiling < count - counter.error
  | none => return false

/-- Every monitored key as `(key, count, error)`. -/
def entries (summary : SpaceSaving) : Except Fault (List (HeapItem × ℕ × ℕ)) :=
  summary.monitored.mapM fun counter => do
    let bucket ← readAt summary.buckets counter.bucket
    return (counter.key, bucket.count, counter.error)

/-! ### Merging -/

/-- One key of the union while a merge is in flight. `paired` marks an entry that has already
taken the other side's contribution. -/
structure MergeEntry where
  key : HeapItem
  digest : BitVec 64
  count : ℕ
  error : ℕ
  paired : Bool

/-- The order in which a hash map hands out its values, and in which an unstable sort leaves
ties: any permutation. -/
structure IterOrder where
  order : List MergeEntry → List MergeEntry
  perm : ∀ flat, (order flat).Perm flat

def mergeEntries (summary : SpaceSaving) : Except Fault (List MergeEntry) :=
  summary.monitored.mapM fun counter => do
    let bucket ← readAt summary.buckets counter.bucket
    return { key := counter.key, digest := counter.digest, count := bucket.count,
             error := counter.error, paired := false }

/-- Folds one counter of the other side into the union. The union is the map from a digest to
its slot of entries, laid out flat: the slot of a digest is the entries that carry it, in
order. -/
def absorb (mineMin : ℕ) (incoming : MergeEntry) : List MergeEntry → List MergeEntry
  | [] =>
    [{ incoming with
      count := saturatingAdd incoming.count mineMin
      error := saturatingAdd incoming.error mineMin
      paired := true }]
  | entry :: rest =>
    if entry.digest = incoming.digest ∧ entry.key.eqItem incoming.key then
      { entry with
        count := saturatingAdd entry.count incoming.count
        error := saturatingAdd entry.error incoming.error
        paired := true } :: rest
    else
      entry :: absorb mineMin incoming rest

/-- An entry only this side holds takes the other side's ceiling. -/
def raiseUnpaired (theirsMin : ℕ) (entry : MergeEntry) : MergeEntry :=
  if entry.paired then entry
  else
    { entry with
      count := saturatingAdd entry.count theirsMin
      error := saturatingAdd entry.error theirsMin }

/-- The merge order: larger counts first, then the smaller key. -/
def mergeLe (left right : MergeEntry) : Bool :=
  right.count < left.count ∨ (right.count = left.count ∧ keyOrder left.key ≤ keyOrder right.key)

def seatAll (summary : SpaceSaving) : List MergeEntry → Except Fault SpaceSaving
  | [] => .ok summary
  | entry :: rest => do
    let summary ← seat summary entry.digest entry.key entry.count entry.error
    seatAll summary rest

/-- The union of two summaries before it is ordered and trimmed. -/
def mergeUnion (mine theirs : List MergeEntry) (mineMin theirsMin : ℕ) : List MergeEntry :=
  (theirs.foldl (fun merged incoming => absorb mineMin incoming merged) mine).map
    (raiseUnpaired theirsMin)

/-- The ceiling of a merged summary: the two ceilings together, and the first count that does not
fit. -/
def mergeCeiling (floor : ℕ) : Option MergeEntry → ℕ
  | some dropped => max floor dropped.count
  | none => floor

/-- Absorbs `other`. -/
def merge (iter : IterOrder) (summary other : SpaceSaving) : Except Fault SpaceSaving := do
  let mineMin ← minCount summary
  let theirsMin ← minCount other
  let mine ← mergeEntries summary
  let theirs ← mergeEntries other
  let flat := (iter.order (mergeUnion mine theirs mineMin theirsMin)).mergeSort mergeLe
  let floor := saturatingAdd mineMin theirsMin
  let discardedMax := mergeCeiling floor flat[summary.capacity]?
  let total := saturatingAdd summary.total other.total
  seatAll { clear summary with total := total, discardedMax := discardedMax }
    (flat.take summary.capacity)

/-! ### Rebuilding from decoded triples -/

/-- The decoded form of a summary. What the decoder hands over as `u64` is within one. -/
structure State where
  capacity : ℕ
  total : ℕ
  discardedMax : ℕ
  entries : List (HeapItem × ℕ × ℕ)
  discardedMax_le : discardedMax ≤ u64Max
  entries_le : ∀ entry ∈ entries, entry.2.1 ≤ u64Max

def checkEntry (entry : HeapItem × ℕ × ℕ) : Except String Unit :=
  if entry.2.1 = 0 then
    .error "space-saving carries a counter at zero"
  else if entry.2.1 < entry.2.2 then
    .error ("space-saving carries an error of " ++ toString entry.2.2 ++ " against a count of " ++
      toString entry.2.1)
  else
    .ok ()

/-- Seats decoded triples, refusing a key that is already held. -/
def seatDecoded (H : SketchHasher) (summary : SpaceSaving) :
    List (HeapItem × ℕ × ℕ) → Except Fault (Except String SpaceSaving)
  | [] => .ok (.ok summary)
  | (key, count, error) :: rest => do
    let digest := H.hashItem64Seeded 0 key
    match ← findKey summary digest key with
    | some _ => return .error "space-saving carries the same key twice"
    | none => do
      let summary ← seat summary digest key count error
      seatDecoded H summary rest

/-- Rebuilds a summary from decoded triples, rejecting any that no run of the algorithm could
have produced. -/
def rebuild (H : SketchHasher) (state : State) : Except Fault (Except String SpaceSaving) :=
  if state.capacity = 0 then
    return .error "space-saving capacity is zero"
  else if state.capacity < state.entries.length then
    return .error ("space-saving carries " ++ toString state.entries.length ++
      " counters over a capacity of " ++ toString state.capacity)
  else
    match state.entries.forM checkEntry with
    | .error message => return .error message
    | .ok () => do
      let sorted := state.entries.mergeSort fun left right => decide (right.2.1 ≤ left.2.1)
      let empty : SpaceSaving :=
        { withCapacity state.capacity with
          capacity := state.capacity, total := state.total, discardedMax := state.discardedMax }
      match ← seatDecoded H empty sorted with
      | .error message => return .error message
      | .ok summary => do
        let counts ← (List.range summary.monitored.length).mapM (countOf summary)
        let smallest := counts.min?.getD 0
        if smallest < summary.discardedMax then
          return .error ("space-saving carries a ceiling of " ++ toString summary.discardedMax ++
            " above its lowest count of " ++ toString smallest)
        else do
          let triples ← summary.entries
          let recorded := triples.foldl (fun sum triple => saturatingAdd sum (triple.2.1 - triple.2.2)) 0
          if summary.total < recorded then
            return .error ("space-saving carries a total of " ++ toString summary.total ++
              " under the " ++ toString recorded ++ " its counters account for")
          else
            return .ok summary

end SpaceSaving

end AsapSketchlib
