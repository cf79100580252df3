/-
This file models the wire form of the Elastic sketch: the heavy table as parallel arrays with nil
for the flow of a free bucket, and the counters of the light layer in row-major order. The encoder
refuses a free bucket that names a flow, the decoder a bucket whose flow and vote disagree.
-/

import AsapSketchlib.Elastic
import AsapSketchlib.TableWire

namespace AsapSketchlib

/-- A profile that also tells the seed index of the matrix sketches. -/
structure MatrixHashProfile extends HashProfile where
  matrixSeedIndex : ℕ

namespace ElasticWire

/-! ### The two blocks -/

def elasticKind : List UInt8 := [0x0b, 0x00]

def lightCounterType : String := "i32"

def lightMode : String := "regular"

structure ElasticMetadata where
  metadataVersion : UInt8
  hashProfileId : String
  hashAlgorithm : String
  seedDerivation : String
  inputEncoding : String
  seedList : List (BitVec 64)
  matrixSeedIndex : ℕ
  heavyBuckets : ℕ
  lightRows : ℕ
  lightCols : ℕ
  lightCounterType : String
  lightMode : String
  deriving DecidableEq

def elasticMetadata (profile : MatrixHashProfile) (heavyBuckets lightRows lightCols : ℕ) :
    ElasticMetadata where
  metadataVersion := 1
  hashProfileId := profile.profileId
  hashAlgorithm := profile.algorithm
  seedDerivation := profile.seedDerivation
  inputEncoding := profile.inputEncoding
  seedList := profile.seedList
  matrixSeedIndex := profile.matrixSeedIndex
  heavyBuckets := heavyBuckets
  lightRows := lightRows
  lightCols := lightCols
  lightCounterType := lightCounterType
  lightMode := lightMode

structure ElasticPayload where
  flowIds : List (Option String)
  votePos : List ℤ
  voteNeg : List ℤ
  evictions : List Bool
  staleCopies : Bool
  lightCounts : List ℤ
  deriving DecidableEq

/-- What serializes the two blocks. -/
structure ElasticRmp where
  metadata : RmpSerde ElasticMetadata
  payload : RmpSerde ElasticPayload

/-- Rejects a geometry the format cannot carry, and returns the cell count of the light layer. -/
def checkGeometry (heavyBuckets lightRows lightCols : ℕ) : Except String ℕ :=
  if heavyBuckets = 0 ∨ lightRows = 0 ∨ lightCols = 0 then
    .error (s!"Elastic dimensions must be non-zero: heavy_buckets={heavyBuckets}, " ++
      s!"light={lightRows}x{lightCols}")
  else do
    checkMatrixRows "Elastic light layer" lightRows
    if 2 ^ 31 ≤ heavyBuckets then
      .error s!"Elastic heavy bucket count {heavyBuckets} exceeds i32"
    else if 2 ^ 64 ≤ lightRows * lightCols then
      .error s!"Elastic light layer {lightRows}x{lightCols} overflows a cell count"
    else .ok (lightRows * lightCols)

/-! ### Serializing -/

def wireFlow (bucket : HeavyBucket) : Option String :=
  if bucket.isVacant then none else some bucket.flowId

def elasticPayload (sketch : Elastic) : ElasticPayload where
  flowIds := sketch.heavy.map wireFlow
  votePos := sketch.heavy.map HeavyBucket.votePos
  voteNeg := sketch.heavy.map HeavyBucket.voteNeg
  evictions := sketch.heavy.map HeavyBucket.eviction
  staleCopies := sketch.staleCopies
  lightCounts := sketch.light.counts.data

/-- Rejects tables that disagree with the dimensions, and a free bucket that names a flow. -/
def checkTables (sketch : Elastic) (lightCells : ℕ) : Except String Unit :=
  if sketch.bktlen = 0 ∨ sketch.bktlen ≠ sketch.heavy.length then
    .error (s!"ASAPv1 Elastic envelope: bktlen {sketch.bktlen} != heavy table length " ++
      s!"{sketch.heavy.length}")
  else if sketch.light.counts.data.length ≠ lightCells then
    .error (s!"ASAPv1 Elastic envelope: light layer holds {sketch.light.counts.data.length} " ++
      s!"cells != {sketch.light.counts.rows}x{sketch.light.counts.cols}")
  else
    match sketch.heavy.findIdx? fun bucket => bucket.isVacant && bucket.flowId ≠ "" with
    | some i => .error s!"ASAPv1 Elastic envelope: heavy bucket {i} is free but names a flow"
    | none => .ok ()

/-- The checks before anything is written, and the metadata. -/
def describe (profile : MatrixHashProfile) (sketch : Elastic) : Except String ElasticMetadata := do
  let lightCells ← checkGeometry sketch.heavy.length sketch.light.counts.rows
    sketch.light.counts.cols
  checkTables sketch lightCells
  let heavyBuckets ← toU32 "Elastic" "heavy_buckets" sketch.heavy.length
  let lightRows ← toU32 "Elastic" "light_rows" sketch.light.counts.rows
  let lightCols ← toU32 "Elastic" "light_cols" sketch.light.counts.cols
  return elasticMetadata profile heavyBuckets lightRows lightCols

def serializeToBytes (profile : MatrixHashProfile) (rmp : ElasticRmp) (sketch : Elastic) :
    Except Panic (Except RmpEncodeError (List UInt8)) :=
  match describe profile sketch with
  | .error problem => .ok (.error (.syntaxError problem))
  | .ok metadata =>
    Envelope.write elasticKind rmp.metadata rmp.payload metadata (elasticPayload sketch)

/-! ### Deserializing -/

/-- A bucket whose flow and vote disagree on occupancy. -/
def disagrees (payload : ElasticPayload) (i : ℕ) : Bool :=
  (payload.flowIds.getD i none).isNone ≠ decide (payload.votePos.getD i 0 = 0)

def bucketOf (payload : ElasticPayload) (i : ℕ) : HeavyBucket where
  flowId := (payload.flowIds.getD i none).getD ""
  votePos := payload.votePos.getD i 0
  voteNeg := payload.voteNeg.getD i 0
  eviction := payload.evictions.getD i false

def ofPayload (heavyBuckets lightRows lightCols lightCells : ℕ) (payload : ElasticPayload) :
    Except String Elastic :=
  if payload.flowIds.length ≠ heavyBuckets ∨ payload.votePos.length ≠ heavyBuckets ∨
      payload.voteNeg.length ≠ heavyBuckets ∨ payload.evictions.length ≠ heavyBuckets then
    .error (s!"Elastic heavy payload lengths (flow_ids {payload.flowIds.length}, vote_pos " ++
      s!"{payload.votePos.length}, vote_neg {payload.voteNeg.length}, evictions " ++
      s!"{payload.evictions.length}) != heavy_buckets {heavyBuckets}")
  else if payload.lightCounts.length ≠ lightCells then
    .error (s!"Elastic light_counts length {payload.lightCounts.length} != " ++
      s!"light_rows*light_cols {lightCells}")
  else
    match (List.range heavyBuckets).find? (disagrees payload) with
    | some i => .error (s!"Elastic heavy bucket {i} has a flow id and a vote_pos that disagree " ++
        "on occupancy")
    | none => .ok {
        heavy := (List.range heavyBuckets).map (bucketOf payload)
        light := ⟨Vector2D.fromFn lightRows lightCols fun r c =>
          payload.lightCounts.getD (r * lightCols + c) 0⟩
        bktlen := heavyBuckets
        staleCopies := payload.staleCopies }

def deserializeFromBytes (profile : MatrixHashProfile) (rmp : ElasticRmp) (bytes : List UInt8) :
    Except RmpDecodeError Elastic := do
  let (described, payload) ← Envelope.openAs "Elastic" elasticKind rmp.metadata (fun described =>
    elasticMetadata profile described.heavyBuckets described.lightRows described.lightCols) bytes
  let lightCells ← (checkGeometry described.heavyBuckets described.lightRows
    described.lightCols).mapError RmpDecodeError.uncategorized
  let decoded ← rmp.payload.fromSlice payload
  (ofPayload described.heavyBuckets described.lightRows described.lightCols lightCells
    decoded).mapError RmpDecodeError.uncategorized

/-! ### Every check passes -/

/-- A bucket that holds no flow names none. -/
def Tidy (bucket : HeavyBucket) : Prop :=
  0 ≤ bucket.votePos ∧ (bucket.votePos = 0 → bucket.flowId = "")

/-- What the wire asks of a sketch. -/
structure Sendable (sketch : Elastic) : Prop where
  sized : sketch.heavy.length = sketch.bktlen
  someBucket : 0 < sketch.bktlen
  someRow : 0 < sketch.light.counts.rows
  someCol : 0 < sketch.light.counts.cols
  tidy : ∀ bucket ∈ sketch.heavy, Tidy bucket

/-- The limits of the format. -/
structure Fits (sketch : Elastic) : Prop where
  buckets : sketch.bktlen < 2 ^ 31
  rows : sketch.light.counts.rows ≤ matrixMaxRows
  cols : sketch.light.counts.cols < 2 ^ 32

variable {sketch : Elastic} {profile : MatrixHashProfile}

theorem checkGeometry_ok (sendable : Sendable sketch) (fits : Fits sketch) :
    checkGeometry sketch.bktlen sketch.light.counts.rows sketch.light.counts.cols =
      .ok (sketch.light.counts.rows * sketch.light.counts.cols) := by
  unfold checkGeometry
  rw [if_neg, checkMatrixRows_ok fits.rows, if_neg (Nat.not_le_of_lt fits.buckets),
    if_neg (Nat.not_le_of_lt (mul_lt_of_dimensions fits.rows fits.cols))]
  · rfl
  · rintro (none | none | none)
    · exact Nat.ne_of_gt sendable.someBucket none
    · exact Nat.ne_of_gt sendable.someRow none
    · exact Nat.ne_of_gt sendable.someCol none

theorem checkTables_ok (sendable : Sendable sketch) :
    checkTables sketch (sketch.light.counts.rows * sketch.light.counts.cols) = .ok () := by
  have named : (sketch.heavy.findIdx? fun bucket => bucket.isVacant && bucket.flowId ≠ "") =
      none := by
    refine List.findIdx?_eq_none_iff.mpr fun bucket member => ?_
    have unnamed := (sendable.tidy bucket member).2
    by_cases vacant : bucket.votePos = 0
    · simp [unnamed vacant]
    · simp [HeavyBucket.isVacant, vacant]
  unfold checkTables
  rw [if_neg, if_neg (not_not_intro sketch.light.counts.sized)]
  · simp only [named]
  · rintro (none | other)
    · exact Nat.ne_of_gt sendable.someBucket none
    · exact other sendable.sized.symm

theorem describe_ok (profile : MatrixHashProfile) (sendable : Sendable sketch)
    (fits : Fits sketch) : describe profile sketch = .ok (elasticMetadata profile sketch.bktlen
      sketch.light.counts.rows sketch.light.counts.cols) := by
  have bucketsFit : sketch.bktlen < 2 ^ 32 := fits.buckets.trans (by decide)
  have rowsFit : sketch.light.counts.rows < 2 ^ 32 := fits.rows.trans_lt (by decide)
  unfold describe
  simp only [sendable.sized, checkGeometry_ok sendable fits, checkTables_ok sendable,
    toU32_ok bucketsFit, toU32_ok rowsFit, toU32_ok fits.cols, bind, Except.bind]
  rfl

theorem isNone_wireFlow (bucket : HeavyBucket) :
    (wireFlow bucket).isNone = decide (bucket.votePos = 0) := by
  by_cases vacant : bucket.votePos = 0
  · simp [wireFlow, HeavyBucket.isVacant, vacant]
  · simp [wireFlow, HeavyBucket.isVacant, vacant]

theorem wireFlow_getD {bucket : HeavyBucket} (tidy : Tidy bucket) :
    (wireFlow bucket).getD "" = bucket.flowId := by
  unfold wireFlow
  split
  · next vacant => exact (tidy.2 (of_decide_eq_true vacant)).symm
  · rfl

/-- The payload of a sketch is accepted, and the sketch is made of it again. -/
theorem ofPayload_elasticPayload (sendable : Sendable sketch) :
    ofPayload sketch.bktlen sketch.light.counts.rows sketch.light.counts.cols
      (sketch.light.counts.rows * sketch.light.counts.cols) (elasticPayload sketch) =
        .ok sketch := by
  have agrees : (List.range sketch.bktlen).find? (disagrees (elasticPayload sketch)) = none := by
    refine List.find?_eq_none.mpr fun i _ => ?_
    have flow : (elasticPayload sketch).flowIds.getD i none =
        wireFlow (sketch.heavy.getD i HeavyBucket.new) := List.getD_map _ HeavyBucket.new wireFlow
    have vote : (elasticPayload sketch).votePos.getD i 0 =
        (sketch.heavy.getD i HeavyBucket.new).votePos :=
      List.getD_map _ HeavyBucket.new HeavyBucket.votePos
    rw [disagrees, flow, vote, isNone_wireFlow]
    simp
  have heavy : (List.range sketch.bktlen).map (bucketOf (elasticPayload sketch)) =
      sketch.heavy := by
    refine List.ext_getElem ((List.length_map _).trans (List.length_range.trans
      sendable.sized.symm)) fun i _ inside => ?_
    have tidy := sendable.tidy _ (List.getElem_mem inside)
    rw [List.getElem_map, List.getElem_range]
    simp only [bucketOf, elasticPayload, List.getD_eq_getElem?_getD, List.getElem?_map,
      List.getElem?_eq_getElem inside, Option.map_some, Option.getD_some, wireFlow_getD tidy]
  have light := Vector2D.fromFn_eq sketch.light.counts
    (fun cell => sketch.light.counts.data.getD cell 0)
    fun cell inside => List.getD_eq_getElem _ _ inside
  have counted : (elasticPayload sketch).lightCounts.length =
      sketch.light.counts.rows * sketch.light.counts.cols := sketch.light.counts.sized
  unfold ofPayload
  rw [if_neg (by simp [elasticPayload, sendable.sized]), if_neg (not_not_intro counted)]
  simp only [agrees]
  rw [heavy]
  exact congrArg (fun counts => Except.ok (Elastic.mk sketch.heavy ⟨counts⟩ sketch.bktlen
    sketch.staleCopies)) light

theorem survives (profile : MatrixHashProfile) (rmp : ElasticRmp) (sendable : Sendable sketch)
    (fits : Fits sketch) (metadataTrips : Portable.RoundTrips rmp.metadata (elasticMetadata profile
      sketch.bktlen sketch.light.counts.rows sketch.light.counts.cols))
    (payloadTrips : Portable.RoundTrips rmp.payload (elasticPayload sketch)) :
    Envelope.Survives elasticKind rmp.metadata rmp.payload (serializeToBytes profile rmp)
      (deserializeFromBytes profile rmp) (elasticMetadata profile sketch.bktlen
        sketch.light.counts.rows sketch.light.counts.cols) (elasticPayload sketch) sketch := by
  refine Envelope.survives_of "Elastic" (fun described : ElasticMetadata => elasticMetadata profile
      described.heavyBuckets described.lightRows described.lightCols)
    (by decide) rfl ?_ metadataTrips payloadTrips fun bytes payloadBytes opened read => ?_
  · simp only [serializeToBytes, describe_ok profile sendable fits]
  · generalize same : elasticMetadata profile sketch.bktlen sketch.light.counts.rows
      sketch.light.counts.cols = metadata at opened
    have geometry : checkGeometry metadata.heavyBuckets metadata.lightRows metadata.lightCols =
        .ok (sketch.light.counts.rows * sketch.light.counts.cols) :=
      same ▸ checkGeometry_ok sendable fits
    have decoded : ofPayload metadata.heavyBuckets metadata.lightRows metadata.lightCols
        (sketch.light.counts.rows * sketch.light.counts.cols) (elasticPayload sketch) =
          .ok sketch := same ▸ ofPayload_elasticPayload sendable
    simp only [deserializeFromBytes, opened, bind, Except.bind, geometry, Except.mapError, read,
      decoded]

end ElasticWire

end AsapSketchlib
