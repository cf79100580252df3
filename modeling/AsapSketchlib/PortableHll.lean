/-
This file models the portable HyperLogLog: its merge, and the deltas between two snapshots of
it, computed, written and applied in the protobuf and in the MessagePack form. What writes and
reads the messages are the crates, which are parameters.
-/

import AsapSketchlib.Envelope
import AsapSketchlib.Floating
import AsapSketchlib.Uvarint

namespace AsapSketchlib

namespace Portable

/-! ### Calls and messages -/

/-- How a call that changes its receiver returns. -/
inductive Returned where
  | ok
  | err (message : String)
  | panicked
  deriving DecidableEq, Repr

/-- `prost::Message` at one type: `encode_to_vec` and `decode`. -/
structure Prost (Message : Type) where
  encodeToVec : Message → List UInt8
  decode : List UInt8 → Except String Message

/-- The crate reads back a message that it wrote. -/
def Prost.RoundTrips {Message : Type} (prost : Prost Message) (message : Message) : Prop :=
  prost.decode (prost.encodeToVec message) = .ok message

/-- The crate writes a message and reads it back. -/
def RoundTrips {Message : Type} (rmp : RmpSerde Message) (message : Message) : Prop :=
  ∃ bytes, rmp.toVec message = .ok bytes ∧ rmp.fromSlice bytes = .ok message

def encodeErrorText : RmpEncodeError → String
  | .syntaxError message => message
  | .other message => message

def decodeErrorText : RmpDecodeError → String
  | .uncategorized message => message
  | .other message => message

/-- `from_slice` with the text of its error. -/
def fromMsgpack {Message : Type} (rmp : RmpSerde Message) (bytes : List UInt8) :
    Except String Message := (rmp.fromSlice bytes).mapError decodeErrorText

def applyDecoded {Sketch Delta : Type} (apply : Sketch → Delta → Sketch × Returned)
    (sketch : Sketch) (decoded : Except String Delta) : Sketch × Returned :=
  match decoded with
  | .ok delta => apply sketch delta
  | .error message => (sketch, .err message)

theorem fromMsgpack_of_roundTrips {Message : Type} {rmp : RmpSerde Message} {message : Message}
    (roundTrips : RoundTrips rmp message) :
    ∃ bytes, rmp.toVec message = .ok bytes ∧ fromMsgpack rmp bytes = .ok message := by
  obtain ⟨bytes, written, read⟩ := roundTrips
  refine ⟨bytes, written, ?_⟩
  unfold fromMsgpack
  rw [read]
  rfl

/-! ### The sketch -/

inductive HllVariant where
  | unspecified
  | regular
  | datafusion
  | hip
  deriving DecidableEq, Repr

/-- The `Debug` form of the variant. -/
def HllVariant.debug : HllVariant → String
  | unspecified => "Unspecified"
  | regular => "Regular"
  | datafusion => "Datafusion"
  | hip => "Hip"

/-- Minimal HLL state: registers, variant and precision. -/
structure HllSketch where
  variant : HllVariant
  precision : ℕ
  registers : List UInt8
  hipKxq0 : F64
  hipKxq1 : F64
  hipEst : F64
  deriving DecidableEq

/-- Sparse delta between two consecutive HLL snapshots: `(index, new value)` pairs. -/
structure HllSketchDelta where
  updates : List (ℕ × UInt8)
  deriving DecidableEq

namespace HllSketch

/-- Register-wise maximum. The HIP accumulators add up. -/
def merge (sketch other : HllSketch) : HllSketch × Returned :=
  if sketch.variant ≠ other.variant then
    let own := sketch.variant.debug
    let theirs := other.variant.debug
    (sketch, .err s!"HllSketch variant mismatch: self={own}, other={theirs}")
  else if sketch.precision ≠ other.precision then
    let own := sketch.precision
    let theirs := other.precision
    (sketch, .err s!"HllSketch precision mismatch: self={own}, other={theirs}")
  else if sketch.registers.length ≠ other.registers.length then
    let own := sketch.registers.length
    let theirs := other.registers.length
    (sketch, .err s!"HllSketch register-length mismatch: self={own}, other={theirs}")
  else
    let merged := { sketch with
      registers := List.zipWith (fun s o => if s < o then o else s) sketch.registers
        other.registers }
    if sketch.variant = .hip then
      ({ merged with
        hipKxq0 := sketch.hipKxq0.add other.hipKxq0
        hipKxq1 := sketch.hipKxq1.add other.hipKxq1
        hipEst := sketch.hipEst.add other.hipEst }, .ok)
    else (merged, .ok)

/-- One update of a delta: the register becomes the new value if that is larger. -/
def raise (registers : List UInt8) (update : ℕ × UInt8) : List UInt8 :=
  registers.modify update.1 fun old => if old < update.2 then update.2 else old

/-- The loop of `apply_delta`. -/
def applyUpdates (sketch : HllSketch) : List (ℕ × UInt8) → HllSketch × Returned
  | [] => (sketch, .ok)
  | update :: rest =>
    let n := sketch.registers.length
    let i := update.1
    let p := sketch.precision
    if n ≤ i then
      (sketch, .err s!"HllSketchDelta index {i} out of range (precision={p} → {n} registers)")
    else applyUpdates { sketch with registers := raise sketch.registers update } rest

def applyDelta (sketch : HllSketch) (delta : HllSketchDelta) : HllSketch × Returned :=
  sketch.applyUpdates delta.updates

/-! ### Computing a delta -/

/-- The registers that increased over the snapshot, and those behind its end that are not zero. -/
def increased (sketch snapshot : HllSketch) : List (ℕ × UInt8) :=
  sketch.registers.zipIdx.filterMap fun entry =>
    match snapshot.registers[entry.2]? with
    | some old => if old < entry.1 then some (entry.2, entry.1) else none
    | none => if 0 < entry.1 then some (entry.2, entry.1) else none

/-- Varint-packs updates as `(index_delta, value)` pairs. -/
def packFrom (prev : ℕ) : List (ℕ × UInt8) → List UInt8
  | [] => []
  | update :: rest =>
    Uvarint.write (update.1 - prev) ++ Uvarint.write update.2.toNat ++ packFrom update.1 rest

/-- `HllDelta` of the protobuf schema. -/
structure ProtoDelta where
  packedUpdates : List UInt8
  deriving DecidableEq

/-- The message of `compute_delta`. -/
def protoDelta (sketch snapshot : HllSketch) : ProtoDelta :=
  ⟨packFrom 0 (sketch.increased snapshot)⟩

/-- The delta over a snapshot. The threshold has no effect. -/
def computeDelta (prost : Prost ProtoDelta) (sketch snapshot : HllSketch) (_threshold : ℕ) :
    List UInt8 := prost.encodeToVec (sketch.protoDelta snapshot)

/-- The loop of `apply_delta_bytes` that unpacks the updates, for a number of rounds. -/
def unpackFrom : ℕ → List UInt8 → ℕ → Bool → Except String (List (ℕ × UInt8))
  | 0, _, _, _ => .ok []
  | rounds + 1, packed, prev, first =>
    if packed.isEmpty then .ok []
    else
      match Uvarint.read packed with
      | none => .error "hll: delta index-delta varint corrupt"
      | some (delta, used) =>
        let packed := packed.drop used
        match Uvarint.read packed with
        | none => .error "hll: delta value varint corrupt"
        | some (val, used) =>
          let packed := packed.drop used
          let idx := (prev + delta % 2 ^ 32) % 2 ^ 32
          if !first ∧ delta = 0 then .error s!"hll: delta non-increasing index at idx {idx}"
          else if 0xff < val then .error s!"hll: delta value {val} exceeds u8 at idx {idx}"
          else (unpackFrom rounds packed idx false).map fun rest => (idx, UInt8.ofNat val) :: rest

/-- Unpacks the updates. Every round takes at least one byte. -/
def unpack (packed : List UInt8) : Except String (List (ℕ × UInt8)) :=
  unpackFrom packed.length packed 0 true

/-- The delta in the bytes of `apply_delta_bytes`. -/
def decodeDelta (prost : Prost ProtoDelta) (bytes : List UInt8) : Except String HllSketchDelta := do
  let proto ← prost.decode bytes
  let updates ← unpack proto.packedUpdates
  return ⟨updates⟩

def applyDeltaBytes (prost : Prost ProtoDelta) (sketch : HllSketch) (bytes : List UInt8) :
    HllSketch × Returned := applyDecoded applyDelta sketch (decodeDelta prost bytes)

/-! ### The MessagePack twins -/

/-- The parallel arrays of the MessagePack form: indexes and values. -/
def deltaWire (delta : HllSketchDelta) : List ℕ × List UInt8 :=
  (delta.updates.map Prod.fst, delta.updates.map Prod.snd)

/-- The message of `compute_delta_msgpack`. -/
def msgpackDelta (sketch snapshot : HllSketch) : List ℕ × List UInt8 :=
  deltaWire
    ⟨(sketch.increased snapshot).map fun update => (update.1 % 2 ^ 32, update.2)⟩

def computeDeltaMsgpack (rmp : RmpSerde (List ℕ × List UInt8)) (sketch snapshot : HllSketch)
    (_threshold : ℕ) : Except Panic (List UInt8) :=
  (rmp.toVec (sketch.msgpackDelta snapshot)).mapError fun _ => .expect
    "HllSketchDelta msgpack encode is infallible for owned update arrays"

/-- The delta in the bytes of `apply_delta_msgpack_bytes`. -/
def decodeDeltaMsgpack (rmp : RmpSerde (List ℕ × List UInt8)) (bytes : List UInt8) :
    Except String HllSketchDelta :=
  (fromMsgpack rmp bytes).map fun wire => ⟨wire.1.zip wire.2⟩

def applyDeltaMsgpackBytes (rmp : RmpSerde (List ℕ × List UInt8)) (sketch : HllSketch)
    (bytes : List UInt8) : HllSketch × Returned :=
  applyDecoded applyDelta sketch (decodeDeltaMsgpack rmp bytes)

end HllSketch

end Portable

end AsapSketchlib
