/-
This file models the wire form of the uniform sampler, which emits its entries in a canonical order:
by priority and, where priorities are equal, by the total order of the values. The sampler itself
keeps entries of equal priority in the order in which they came.

A value is its bits, as the total order tells zeros and NaNs apart. Target sizes are worked out over
exact arithmetic. Where entries of equal priority are found, a binary search gives any of them.
-/

import AsapSketchlib.EnvelopeBlocks
import AsapSketchlib.OrderedKeys
import AsapSketchlib.PortableDdSketch
import AsapSketchlib.UniformSampling

namespace AsapSketchlib

namespace UniformWire

open UniformSampling (nextState drawnIn mixState initState)

/-! ### The sampler -/

/-- A value, as its bits, with the priority drawn for it. -/
structure Entry where
  priority : BitVec 64
  value : BitVec 64
  deriving DecidableEq

def Entry.rank (entry : Entry) : ℕ := entry.priority.toNat

/-- A sampler: its rate, the number of values seen, the state of its generator and the entries it
retains. -/
structure Sampler where
  sampleRate : ℚ
  totalSeen : UInt64
  rngState : BitVec 64
  entries : List Entry
  deriving DecidableEq

def Rising (entries : List Entry) : Prop := entries.Pairwise fun left right =>
  left.rank ≤ right.rank

/-- `binary_search_by` over numbers: where a number is or belongs. -/
structure BinarySearch where
  place : List ℕ → ℕ → ℕ
  inside : ∀ (numbers : List ℕ) (number : ℕ), numbers.Pairwise (· ≤ ·) →
    place numbers number ≤ numbers.length
  below : ∀ (numbers : List ℕ) (number : ℕ), numbers.Pairwise (· ≤ ·) →
    ∀ other ∈ numbers.take (place numbers number), other ≤ number
  above : ∀ (numbers : List ℕ) (number : ℕ), numbers.Pairwise (· ≤ ·) →
    ∀ other ∈ numbers.drop (place numbers number), number ≤ other

/-- `with_seed`: nothing is returned where the rate is not within (0, 1]. -/
def withSeed (sampleRate : ℚ) (seed : BitVec 64) : Option Sampler :=
  if (0 ≤ sampleRate ∧ sampleRate ≤ 1) ∧ 0 < sampleRate then
    some ⟨sampleRate, 0, initState seed, []⟩
  else none

/-- How many entries are retained of a number of values seen. -/
def targetSize (totalSeen : UInt64) (rate : ℚ) : ℕ :=
  if totalSeen = 0 then 0 else ⌈(totalSeen.toNat : ℚ) * rate⌉.toNat

/-- Inserts an entry where a binary search for its priority ends. -/
def insertEntry (search : BinarySearch) (entries : List Entry) (entry : Entry) : List Entry :=
  entries.insertIdx (search.place (entries.map Entry.rank) entry.rank) entry

/-- `truncate_to`: entries are popped off the end. -/
def truncateTo (entries : List Entry) (targetSize : ℕ) : List Entry := entries.take targetSize

namespace Sampler

/-- The entries of an update before they are truncated. -/
def withDraw (search : BinarySearch) (sampler : Sampler) (value : BitVec 64) : List Entry :=
  insertEntry search sampler.entries ⟨drawnIn (nextState sampler.rngState), value⟩

def update (search : BinarySearch) (sampler : Sampler) (value : BitVec 64) : Sampler :=
  let totalSeen := Portable.saturatingAddU64 sampler.totalSeen 1
  { sampler with
    totalSeen := totalSeen
    rngState := nextState sampler.rngState
    entries := truncateTo (sampler.withDraw search value)
      (targetSize totalSeen sampler.sampleRate) }

/-- The entries of a merge before they are truncated: a stable sort by priority. -/
def joined (sampler other : Sampler) : List Entry :=
  (sampler.entries ++ other.entries).mergeSort fun left right => left.rank ≤ right.rank

/-- The rates of two samplers differ by more than `f64::EPSILON`. -/
def Apart (sampler other : Sampler) : Prop :=
  1 / 2 ^ 52 < |sampler.sampleRate - other.sampleRate|

instance (sampler other : Sampler) : Decidable (sampler.Apart other) :=
  inferInstanceAs (Decidable (_ < _))

def merge (sampler other : Sampler) : Except String Sampler :=
  if sampler.Apart other then
    .error "Cannot merge uniform samplers with different sampling rates"
  else
    let combinedSeen := Portable.saturatingAddU64 sampler.totalSeen other.totalSeen
    .ok {
      sampleRate := sampler.sampleRate
      totalSeen := combinedSeen
      rngState := mixState sampler.rngState other.rngState
      entries := truncateTo (sampler.joined other) (targetSize combinedSeen sampler.sampleRate) }

def merged (sampler other : Sampler) : Sampler :=
  match sampler.merge other with
  | .ok after => after
  | .error _ => sampler

end Sampler

/-! ### The wire form -/

def usKind : List UInt8 := [0x0d, 0x00]

def sampleItemType : String := "f64"

structure UsMetadata where
  metadataVersion : UInt8
  sampleRate : F64
  itemType : String
  deriving DecidableEq

def usMetadata (sampleRate : F64) : UsMetadata := ⟨1, sampleRate, sampleItemType⟩

structure UsPayload where
  priorities : List (BitVec 64)
  values : List (BitVec 64)
  totalSeen : UInt64
  rngState : BitVec 64
  deriving DecidableEq

def canonicalOrder (left right : Entry) : Ordering :=
  (compare left.rank right.rank).then (UnivMonQ.totalCmp left.value right.value)

def checkSampleRate : F64 → Except String ℚ
  | .finite rate =>
    if 0 < rate ∧ rate ≤ 1 then .ok rate
    else .error "UniformSampling sample_rate must be within (0, 1], got "
  | _ => .error "UniformSampling sample_rate must be within (0, 1], got "

def ordered (entries : List Entry) : List Entry :=
  entries.mergeSort fun left right => (canonicalOrder left right).isLE

def usPayload (sampler : Sampler) : UsPayload where
  priorities := (ordered sampler.entries).map Entry.priority
  values := (ordered sampler.entries).map Entry.value
  totalSeen := sampler.totalSeen
  rngState := sampler.rngState

/-- What serializes the two blocks. -/
structure UsRmp where
  metadata : RmpSerde UsMetadata
  payload : RmpSerde UsPayload

def serializeToBytes (rmp : UsRmp) (sampler : Sampler) :
    Except Panic (Except RmpEncodeError (List UInt8)) :=
  match checkSampleRate (.finite sampler.sampleRate) with
  | .error message => .ok (.error (.syntaxError message))
  | .ok _ =>
    let target := targetSize sampler.totalSeen sampler.sampleRate
    if target < sampler.entries.length then
      .ok (.error (.syntaxError (s!"ASAPv1 UniformSampling envelope: {sampler.entries.length} " ++
        s!"entries exceed the target size {target} for total_seen {sampler.totalSeen}")))
    else
      Envelope.write usKind rmp.metadata rmp.payload (usMetadata (.finite sampler.sampleRate))
        (usPayload sampler)

def checkOrder : ℕ → List Entry → Except RmpDecodeError Unit
  | idx, previous :: entry :: rest =>
    if canonicalOrder previous entry = .gt then
      .error (.uncategorized ("UniformSampling entries must be in ascending priority order, " ++
        s!"broken at index {idx + 1}"))
    else checkOrder (idx + 1) (entry :: rest)
  | _, _ => .ok ()

def ofPayload (rate : ℚ) (payload : UsPayload) : Except RmpDecodeError Sampler :=
  if payload.priorities.length ≠ payload.values.length then
    .error (.uncategorized (s!"UniformSampling priorities length {payload.priorities.length} " ++
      s!"!= values length {payload.values.length}"))
  else
    let target := targetSize payload.totalSeen rate
    if target < payload.values.length then
      .error (.uncategorized (s!"UniformSampling payload holds {payload.values.length} samples, " ++
        s!"above the target size {target} for total_seen {payload.totalSeen}"))
    else
      let entries := (payload.priorities.zip payload.values).map fun entry => ⟨entry.1, entry.2⟩
      (checkOrder 0 entries).map fun _ => ⟨rate, payload.totalSeen, payload.rngState, entries⟩

def deserializeFromBytes (rmp : UsRmp) (bytes : List UInt8) : Except RmpDecodeError Sampler := do
  let (kindId, metadata, payload) ← (Envelope.split bytes).mapError RmpDecodeError.uncategorized
  if kindId ≠ usKind then
    .error (.uncategorized ("UniformSampling kind_id mismatch: stored " ++ toString kindId ++
      ", expected " ++ toString usKind))
  else
    let described ← rmp.metadata.fromSlice metadata
    let rate ← (checkSampleRate described.sampleRate).mapError RmpDecodeError.uncategorized
    if described ≠ usMetadata described.sampleRate then
      .error (.uncategorized "ASAPv1 UniformSampling envelope: metadata mismatch")
    else
      let decoded ← rmp.payload.fromSlice payload
      ofPayload rate decoded

/-! ### Reached samplers -/

/-- The samplers that updates and merges make. -/
inductive Reached (search : BinarySearch) : Sampler → Prop where
  | seeded {sampleRate : ℚ} {seed : BitVec 64} {sampler : Sampler}
    (made : withSeed sampleRate seed = some sampler) : Reached search sampler
  | update {sampler : Sampler} (before : Reached search sampler) (value : BitVec 64) :
    Reached search (sampler.update search value)
  | merge {sampler other : Sampler} (before : Reached search sampler)
    (another : Reached search other) : Reached search (sampler.merged other)

/-- What is done with a sampler later: it is updated and merged, also into others and with itself.
The other samplers have their entries in order. -/
inductive Later where
  | here
  | other (sampler : Sampler) (rising : Rising sampler.entries)
  | update (before : Later) (value : BitVec 64)
  | merge (before another : Later)

namespace Later

variable (search : BinarySearch)

def run (sampler : Sampler) : Later → Sampler
  | here => sampler
  | other another _ => another
  | update before value => (before.run sampler).update search value
  | merge before another => (before.run sampler).merged (another.run sampler)

/-- A truncation that does not separate entries of equal priority and different values. -/
def KeepsTies (entries : List Entry) (size : ℕ) : Prop :=
  ∀ kept ∈ entries.take size, ∀ gone ∈ entries.drop size,
    kept.priority = gone.priority → kept.value = gone.value

instance (entries : List Entry) (size : ℕ) : Decidable (KeepsTies entries size) :=
  inferInstanceAs (Decidable (∀ kept ∈ entries.take size, ∀ gone ∈ entries.drop size, _))

/-- No truncation separates entries of equal priority and different values. -/
def Untied (sampler : Sampler) : Later → Prop
  | here => True
  | other _ _ => True
  | update before value => before.Untied sampler ∧
    KeepsTies ((before.run search sampler).withDraw search value)
      (targetSize (Portable.saturatingAddU64 (before.run search sampler).totalSeen 1)
        (before.run search sampler).sampleRate)
  | merge before another => before.Untied sampler ∧ another.Untied sampler ∧
    (¬(before.run search sampler).Apart (another.run search sampler) → KeepsTies ((before.run search sampler).joined (another.run search sampler))
      (targetSize (Portable.saturatingAddU64 (before.run search sampler).totalSeen
        (another.run search sampler).totalSeen) (before.run search sampler).sampleRate))

end Later

end UniformWire

end AsapSketchlib
