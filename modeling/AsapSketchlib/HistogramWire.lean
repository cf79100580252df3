/-
This file models the wire form of the exponential histogram. The buckets go out oldest first, each
sketch as a triple, with their sizes and time ranges in parallel arrays; the cached masses and the
merge rule are worked out again from the sketches. On a 64-bit target a `usize` is a `u64`.
-/

import AsapSketchlib.EHSketchList

namespace AsapSketchlib

namespace HistogramWire

variable (sketches : EHSketches)

def ehKind : List UInt8 := [0x13, 0x00]

structure EhMetadata where
  metadataVersion : UInt8
  window : ℕ
  k : ℕ
  deriving DecidableEq

def ehMetadata (window k : ℕ) : EhMetadata := ⟨1, window, k⟩

structure EhPayload where
  buckets : List EHSketches.SketchState
  sizes : List ℕ
  minTimes : List ℕ
  maxTimes : List ℕ
  prototype : EHSketches.SketchState
  deriving DecidableEq

/-- What serializes the two blocks. -/
structure EhRmp where
  metadata : RmpSerde EhMetadata
  payload : RmpSerde EhPayload

/-! ### Checks -/

/-- Rejects a bucket state the algorithm never reaches. The text on a mass goes on with both. -/
def checkBucket (index : ℕ) (bucket : EHBucket (EHSketchList sketches)) : Except String Unit :=
  if bucket.size = 0 then .error s!"bucket {index} has size 0"
  else if bucket.maxTime < bucket.minTime then
    .error s!"bucket {index} spans [{bucket.minTime}, {bucket.maxTime}]"
  else if bucket.l2Mass ≠ sketches.updateWith.computeL2Mass bucket.bucket then
    .error s!"bucket {index} caches l2_mass "
  else .ok ()

/-- Rejects a bucket that is not a clone of the prototype. -/
def checkVariant (index : ℕ) (bucketKind prototypeKind : List UInt8) : Except String Unit :=
  if bucketKind ≠ prototypeKind then
    .error (s!"bucket {index} carries kind_id " ++ EHSketches.hexBytes bucketKind ++
      ", the prototype's is " ++ EHSketches.hexBytes prototypeKind)
  else .ok ()

/-- Rejects a bucket that begins before the one before it, if there is one, ends. -/
def checkOrder (index : ℕ) (previousMaxTime : Option ℕ) (minTime : ℕ) : Except String Unit :=
  match previousMaxTime with
  | none => .ok ()
  | some maxTime =>
    if minTime < maxTime then
      .error (s!"buckets {index - 1} and {index} are out of order: " ++
        s!"[_, {maxTime}] precedes [{minTime}, _]")
    else .ok ()

def raise {Error Value : Type} (error : String → Error) (check : Except String Value) :
    ExceptT Error (Except Panic) Value := ExceptT.mk (.ok (check.mapError error))

/-! ### Serializing -/

def fail (problem : String) : RmpEncodeError :=
  .syntaxError ("ASAPv1 ExponentialHistogram envelope: " ++ problem)

def encodeBuckets (prototypeKind : List UInt8) : ℕ → Option ℕ →
    List (EHBucket (EHSketchList sketches)) →
      ExceptT RmpEncodeError (Except Panic) (List EHSketches.SketchState)
  | _, _, [] => pure []
  | index, previous, bucket :: newer => do
    raise fail (checkBucket sketches index bucket)
    raise fail (checkOrder index previous bucket.minTime)
    let state ← sketches.sketchState bucket.bucket
    raise fail (checkVariant index state.kindId prototypeKind)
    let states ← encodeBuckets prototypeKind (index + 1) (some bucket.maxTime) newer
    pure (state :: states)

def ehPayload (eh : ExponentialHistogram (EHSketchList sketches)) :
    ExceptT RmpEncodeError (Except Panic) EhPayload :=
  if eh.k = 0 then throw (fail "k must be at least 1")
  else if 2 ^ 32 ≤ eh.k then throw (fail s!"k {eh.k} exceeds the u32 metadata field")
  else if eh.mergeNorm ≠ sketches.updateWith.inferMergeNorm eh.typeToClone then
    throw (fail ("merge_norm " ++ (if eh.mergeNorm = .l1 then "L1" else "L2") ++
      " disagrees with the prototype's"))
  else do
    let prototype ← sketches.sketchState eh.typeToClone
    let buckets ← encodeBuckets sketches prototype.kindId 0 none eh.payload
    pure
      { buckets := buckets
        sizes := eh.payload.map EHBucket.size
        minTimes := eh.payload.map EHBucket.minTime
        maxTimes := eh.payload.map EHBucket.maxTime
        prototype := prototype }

def serializeToBytes (rmp : EhRmp) (eh : ExponentialHistogram (EHSketchList sketches)) :
    ExceptT RmpEncodeError (Except Panic) (List UInt8) := do
  let payload ← ehPayload sketches eh
  ExceptT.mk (Envelope.write ehKind rmp.metadata rmp.payload (ehMetadata eh.window eh.k) payload)

/-! ### Deserializing -/

def decodeBuckets (prototypeKind : List UInt8) : ℕ → Option ℕ →
    List (EHSketches.SketchState × ℕ × ℕ × ℕ) →
      ExceptT RmpDecodeError (Except Panic) (List (EHBucket (EHSketchList sketches)))
  | _, _, [] => pure []
  | index, previous, (triple, size, minTime, maxTime) :: newer => do
    raise .uncategorized (checkOrder index previous minTime)
    let sketch ← sketches.rebuildSketch triple
    raise (.uncategorized ∘ ("ExponentialHistogram " ++ ·))
      (checkVariant index triple.kindId prototypeKind)
    let bucket : EHBucket (EHSketchList sketches) :=
      ⟨sketch, size, sketches.updateWith.computeL2Mass sketch, minTime, maxTime⟩
    raise .uncategorized (checkBucket sketches index bucket)
    let decoded ← decodeBuckets prototypeKind (index + 1) (some maxTime) newer
    pure (bucket :: decoded)

def ofPayload (window k : ℕ) (payload : EhPayload) :
    ExceptT RmpDecodeError (Except Panic) (ExponentialHistogram (EHSketchList sketches)) :=
  let count := payload.buckets.length
  if payload.sizes.length ≠ count ∨ payload.minTimes.length ≠ count ∨
      payload.maxTimes.length ≠ count then
    throw (.uncategorized (s!"ExponentialHistogram parallel lengths (buckets {count}, sizes " ++
      s!"{payload.sizes.length}, min_times {payload.minTimes.length}, max_times " ++
      s!"{payload.maxTimes.length}) disagree"))
  else do
    let decoded ← decodeBuckets sketches payload.prototype.kindId 0 none
      (payload.buckets.zip (payload.sizes.zip (payload.minTimes.zip payload.maxTimes)))
    let typeToClone ← sketches.rebuildSketch payload.prototype
    pure ⟨decoded, window, k, sketches.updateWith.inferMergeNorm typeToClone, typeToClone⟩

def deserializeFromBytes (rmp : EhRmp) (bytes : List UInt8) :
    ExceptT RmpDecodeError (Except Panic) (ExponentialHistogram (EHSketchList sketches)) := do
  let (kindId, metadata, payload) ← raise .uncategorized (Envelope.split bytes)
  if kindId ≠ ehKind then
    throw (.uncategorized ("ExponentialHistogram kind_id mismatch: stored " ++ toString kindId ++
      ", expected " ++ toString ehKind))
  else
    let described ← ExceptT.mk (.ok (rmp.metadata.fromSlice metadata))
    if described ≠ ehMetadata described.window described.k then
      throw (.uncategorized "ASAPv1 ExponentialHistogram envelope: metadata mismatch")
    else if described.k = 0 then
      throw (.uncategorized "ExponentialHistogram k must be at least 1")
    else
      let decoded ← ExceptT.mk (.ok (rmp.payload.fromSlice payload))
      ofPayload sketches described.window described.k decoded

end HistogramWire

end AsapSketchlib
