/-
This file writes a metadata block and a payload into an envelope and reads both back. What
serializes a block is a parameter that reads back what it wrote.
-/

import AsapSketchlib.PortableHll

namespace AsapSketchlib

namespace Envelope

variable {Metadata Payload : Type}

section

variable {kindId metadata payload bytes : List UInt8}
  (framed : encode kindId metadata payload = .ok bytes)

include framed

theorem fits_of_encode : kindId.length < 2 ^ 8 ∧
      metadata.length < 2 ^ 32 ∧ payload.length < 2 ^ 32 := by
  simp only [encode, checkedLength] at framed
  by_cases kindFits : kindId.length < 2 ^ 8
  · by_cases metadataFits : metadata.length < 2 ^ 32
    · by_cases payloadFits : payload.length < 2 ^ 32
      · exact ⟨kindFits, metadataFits, payloadFits⟩
      · rw [if_pos kindFits, if_pos metadataFits, if_neg payloadFits] at framed
        cases framed
    · rw [if_pos kindFits, if_neg metadataFits] at framed
      cases framed
  · rw [if_neg kindFits] at framed
    cases framed

theorem split_of_encode : split bytes = .ok (kindId, metadata, payload) := by
  obtain ⟨kindFits, metadataFits, payloadFits⟩ := fits_of_encode framed
  exact split_encode kindFits metadataFits payloadFits framed

end

/-- Serializes a metadata block and a payload and frames them. -/
def write (kindId : List UInt8) (rmpMetadata : RmpSerde Metadata) (rmpPayload : RmpSerde Payload)
    (metadata : Metadata) (payload : Payload) :
    Except Panic (Except RmpEncodeError (List UInt8)) :=
  match rmpMetadata.toVec metadata with
  | .error error => .ok (.error error)
  | .ok metadataBytes =>
    match rmpPayload.toVec payload with
    | .error error => .ok (.error error)
    | .ok payloadBytes => .ok <$> encode kindId metadataBytes payloadBytes

/-- What is written for a value is short enough for a `u32` length. -/
def Short {Value : Type} (rmp : RmpSerde Value) (value : Value) : Prop :=
  ∀ bytes, rmp.toVec value = .ok bytes → bytes.length < 2 ^ 32

theorem write_split {kindId : List UInt8} {rmpMetadata : RmpSerde Metadata}
    {rmpPayload : RmpSerde Payload} {metadata : Metadata} {payload : Payload}
    (kindFits : kindId.length < 2 ^ 8)
    (metadataTrips : Portable.RoundTrips rmpMetadata metadata)
    (payloadTrips : Portable.RoundTrips rmpPayload payload)
    (metadataShort : Short rmpMetadata metadata) (payloadShort : Short rmpPayload payload) :
    ∃ bytes metadataBytes payloadBytes,
      write kindId rmpMetadata rmpPayload metadata payload = .ok (.ok bytes) ∧
        split bytes = .ok (kindId, metadataBytes, payloadBytes) ∧
          rmpMetadata.fromSlice metadataBytes = .ok metadata ∧
            rmpPayload.fromSlice payloadBytes = .ok payload := by
  obtain ⟨metadataBytes, metadataWritten, metadataRead⟩ := metadataTrips
  obtain ⟨payloadBytes, payloadWritten, payloadRead⟩ := payloadTrips
  have metadataFits := metadataShort metadataBytes metadataWritten
  have payloadFits := payloadShort payloadBytes payloadWritten
  have framed := encode_ok kindFits metadataFits payloadFits
  refine ⟨_, metadataBytes, payloadBytes, ?_, split_encode kindFits metadataFits payloadFits framed,
    metadataRead, payloadRead⟩
  rw [write, metadataWritten]
  simp only
  rw [payloadWritten]
  simp only
  rw [framed]
  rfl

theorem split_write {kindId bytes : List UInt8} {rmpMetadata : RmpSerde Metadata}
    {rmpPayload : RmpSerde Payload} {metadata : Metadata} {payload : Payload}
    (metadataTrips : Portable.RoundTrips rmpMetadata metadata)
    (payloadTrips : Portable.RoundTrips rmpPayload payload)
    (written : write kindId rmpMetadata rmpPayload metadata payload = .ok (.ok bytes)) :
    ∃ metadataBytes payloadBytes, split bytes = .ok (kindId, metadataBytes, payloadBytes) ∧
      rmpMetadata.fromSlice metadataBytes = .ok metadata ∧
        rmpPayload.fromSlice payloadBytes = .ok payload := by
  obtain ⟨metadataBytes, metadataWritten, metadataRead⟩ := metadataTrips
  obtain ⟨payloadBytes, payloadWritten, payloadRead⟩ := payloadTrips
  refine ⟨metadataBytes, payloadBytes, split_of_encode ?_, metadataRead, payloadRead⟩
  simp only [write, metadataWritten, payloadWritten] at written
  cases framed : encode kindId metadataBytes payloadBytes with
  | error panic =>
    rw [framed] at written
    cases written
  | ok framedBytes =>
    rw [framed] at written
    exact congrArg Except.ok (Except.ok.inj (Except.ok.inj written))

end Envelope

/-! ### A serializer of one value -/

namespace Portable

/-- A serializer at one message, whose bytes are known. -/
def singleRmp {Message : Type} (message : Message) (bytes : List UInt8) : RmpSerde Message where
  toVec _ := .ok bytes
  fromSlice read := if read = bytes then .ok message else .error (.other "invalid marker")

theorem roundTrips_singleRmp {Message : Type} (message : Message) (bytes : List UInt8) :
    RoundTrips (singleRmp message bytes) message := ⟨bytes, rfl, if_pos rfl⟩

end Portable

theorem Envelope.short_singleRmp {Value : Type} (value : Value) {bytes : List UInt8}
    (short : bytes.length < 2 ^ 32) : Envelope.Short (Portable.singleRmp value bytes) value :=
  fun _ written => Except.ok.inj written ▸ short

end AsapSketchlib
