/-
This file models the envelope every serialized sketch is wrapped in: a magic sentinel, a
version, the kind of the sketch, and a metadata block and a payload behind their lengths.
What writes and reads the two blocks is the MessagePack crate, which is a parameter.
-/

import AsapSketchlib.Arena
import AsapSketchlib.ByteCodec
import AsapSketchlib.Saturating

namespace AsapSketchlib

/-- Where a call panics. -/
inductive Panic where
  | fault (fault : Fault)
  | expect (message : String)
  deriving DecidableEq, Repr

/-! ### The serializer of the blocks -/

/-- An error of a serializer: one the sketch raises, or one of the crate. -/
inductive RmpEncodeError where
  | syntaxError (message : String)
  | other (message : String)
  deriving DecidableEq, Repr

/-- An error of a deserializer: one the sketch raises, or one of the crate. -/
inductive RmpDecodeError where
  | uncategorized (message : String)
  | other (message : String)
  deriving DecidableEq, Repr

/-- `rmp_serde::to_vec` (or `to_vec_named`) and `from_slice` at one type. -/
structure RmpSerde (Value : Type) where
  toVec : Value → Except RmpEncodeError (List UInt8)
  fromSlice : List UInt8 → Except RmpDecodeError Value

/-- The crate writes every value of the type and reads back what it wrote, as long as it is short
enough for a `u32` length. -/
structure RmpSerde.RoundTrips {Value : Type} (rmp : RmpSerde Value) : Prop where
  writes : ∀ value, ∃ bytes, rmp.toVec value = .ok bytes
  reads : ∀ value bytes, rmp.toVec value = .ok bytes → bytes.length < 2 ^ 32 →
    rmp.fromSlice bytes = .ok value

def Codec.rmpSerde {Value : Type} (codec : Codec Value) : RmpSerde Value where
  toVec value := .ok (codec.encode value)
  fromSlice bytes :=
    match codec.decode bytes with
    | some (value, _) => .ok value
    | none => .error (.other "malformed value")

theorem Codec.rmpSerde_roundTrips {Value : Type} (codec : Codec Value) :
    codec.rmpSerde.RoundTrips where
  writes _ := ⟨_, rfl⟩
  reads value bytes written short := by
    obtain rfl := Except.ok.inj written
    have exactly := codec.exact value [] short
    rw [List.append_nil] at exactly
    simp only [rmpSerde, exactly]

namespace Envelope

/-- `b"ASAPv1"`. -/
def magic : List UInt8 := [0x41, 0x53, 0x41, 0x50, 0x76, 0x31]

def version : UInt8 := 0x01

/-! ### Writing -/

/-- `try_from(length).expect(message)`, for a type that holds the values below `limit`. -/
def checkedLength (limit length : ℕ) (message : String) : Except Panic ℕ :=
  if length < limit then .ok length else .error (.expect message)

/-- Assembles the envelope around an already-encoded metadata block and payload. -/
def encode (kindId metadata payload : List UInt8) : Except Panic (List UInt8) := do
  let kindIdLen ← checkedLength (2 ^ 8) kindId.length "ASAPv1 kind_id too long (>255 bytes)"
  let metadataLen ← checkedLength (2 ^ 32) metadata.length "ASAPv1 metadata too large"
  let payloadLen ← checkedLength (2 ^ 32) payload.length "ASAPv1 payload too large"
  return magic ++ (version :: UInt8.ofNat kindIdLen :: (kindId ++ (beBytes 4 metadataLen ++
    (beBytes 4 payloadLen ++ (metadata ++ payload)))))

/-! ### Reading -/

/-- `&bytes[start..stop]`. -/
def slice (bytes : List UInt8) (start stop : ℕ) : List UInt8 := (bytes.drop start).take (stop - start)

/-- `{:02x}` of a byte. -/
def hexByte (byte : UInt8) : String :=
  String.ofList [Nat.digitChar (byte.toNat / 16), Nat.digitChar (byte.toNat % 16)]

/-- `checked_add` of two offsets. -/
def checkedAdd (left right : ℕ) : Except String ℕ :=
  if left + right ≤ u64Max then .ok (left + right) else .error "ASAPv1 envelope: length overflow"

def split (bytes : List UInt8) : Except String (List UInt8 × List UInt8 × List UInt8) :=
  let magicLen := magic.length
  let kindIdLenOffset := magicLen + 1
  let kindIdOffset := magicLen + 2
  let headerMin := kindIdOffset + 4 + 4
  if bytes.length < headerMin then
    .error ("ASAPv1 envelope: too short (" ++ toString bytes.length ++ " bytes, need at least " ++
      toString headerMin ++ ")")
  else if bytes.take magicLen ≠ magic then
    .error "ASAPv1 envelope: bad magic"
  else if bytes.getD magicLen 0 ≠ version then
    .error ("ASAPv1 envelope: unsupported version 0x" ++ hexByte (bytes.getD magicLen 0))
  else
    let kindIdLen := (bytes.getD kindIdLenOffset 0).toNat
    let lengthsOffset := kindIdOffset + kindIdLen
    if bytes.length < lengthsOffset + 8 then
      .error "ASAPv1 envelope: truncated kind_id / length fields"
    else do
      let kindId := slice bytes kindIdOffset lengthsOffset
      let metadataLen := ofBeBytes (slice bytes lengthsOffset (lengthsOffset + 4))
      let payloadLen := ofBeBytes (slice bytes (lengthsOffset + 4) (lengthsOffset + 8))
      let metadataStart := lengthsOffset + 8
      let payloadStart ← checkedAdd metadataStart metadataLen
      let payloadEnd ← checkedAdd payloadStart payloadLen
      if bytes.length < payloadEnd then
        .error "ASAPv1 envelope: truncated metadata / payload"
      else
        return (kindId, slice bytes metadataStart payloadStart, slice bytes payloadStart payloadEnd)

/-! ### What is written is read back -/

theorem slice_eq {bytes middle : List UInt8} {start stop : ℕ} (front back : List UInt8)
    (parts : bytes = front ++ (middle ++ back)) (startEq : start = front.length)
    (stopEq : stop = start + middle.length) : slice bytes start stop = middle := by
  rw [slice, parts, startEq, List.drop_left, stopEq, startEq, Nat.add_sub_cancel_left,
    List.take_left]

section

variable {kindId metadata payload : List UInt8} (kindFits : kindId.length < 2 ^ 8)
  (metadataFits : metadata.length < 2 ^ 32)

include kindFits metadataFits

theorem encode_ok (payloadFits : payload.length < 2 ^ 32) :
    encode kindId metadata payload = .ok (magic ++ (version :: UInt8.ofNat kindId.length ::
      (kindId ++ (beBytes 4 metadata.length ++ (beBytes 4 payload.length ++
        (metadata ++ payload)))))) := by
  simp only [encode, checkedLength, if_pos kindFits, if_pos metadataFits, if_pos payloadFits]
  rfl

theorem encode_oversized (payloadLarge : 2 ^ 32 ≤ payload.length) :
    encode kindId metadata payload = .error (.expect "ASAPv1 payload too large") := by
  simp only [encode, checkedLength, if_pos kindFits, if_pos metadataFits,
    if_neg (Nat.not_lt.mpr payloadLarge)]
  rfl

end

/-- Splitting an envelope, with anything behind it, gives the blocks it was assembled from. -/
theorem split_append {kindId metadata payload front : List UInt8}
    (kindFits : kindId.length < 2 ^ 8) (metadataFits : metadata.length < 2 ^ 32)
    (payloadFits : payload.length < 2 ^ 32) (framed : encode kindId metadata payload = .ok front)
    (rest : List UInt8) : split (front ++ rest) = .ok (kindId, metadata, payload) := by
  rw [encode_ok kindFits metadataFits payloadFits] at framed
  generalize joined : front ++ rest = bytes
  have whole : bytes = magic ++ (version :: UInt8.ofNat kindId.length ::
      (kindId ++ (beBytes 4 metadata.length ++ (beBytes 4 payload.length ++
        (metadata ++ (payload ++ rest)))))) := by
    rw [← joined, ← Except.ok.inj framed]
    simp only [List.append_assoc, List.cons_append]
  have kindByte : (UInt8.ofNat kindId.length).toNat = kindId.length := by
    rw [UInt8.toNat_ofNat']
    exact Nat.mod_eq_of_lt kindFits
  have length : bytes.length =
      16 + kindId.length + metadata.length + payload.length + rest.length := by
    rw [whole]
    simp only [List.length_append, List.length_cons, length_beBytes, magic, List.length_nil]
    omega
  have magicSame : bytes.take 6 = magic := by
    rw [whole]
    rfl
  have versionSame : bytes.getD 6 0 = version := by
    rw [whole]
    rfl
  have kindLen : (bytes.getD 7 0).toNat = kindId.length := by
    refine Eq.trans ?_ kindByte
    rw [whole]
    rfl
  -- The front of the envelope before each of its parts, and what stands behind it.
  let head := magic ++ [version, UInt8.ofNat kindId.length]
  let beforeLengths := head ++ kindId
  let beforePayloadLen := beforeLengths ++ beBytes 4 metadata.length
  let beforeBlocks := beforePayloadLen ++ beBytes 4 payload.length
  have headLength : head.length = 8 := rfl
  have beforeLengthsLength : beforeLengths.length = 8 + kindId.length := List.length_append
  have beforePayloadLenLength : beforePayloadLen.length = 8 + kindId.length + 4 := by
    rw [List.length_append, beforeLengthsLength, length_beBytes]
  have beforeBlocksLength : beforeBlocks.length = 8 + kindId.length + 8 := by
    rw [List.length_append, beforePayloadLenLength, length_beBytes]
  have fromHead : bytes = head ++ (kindId ++ (beBytes 4 metadata.length ++
      (beBytes 4 payload.length ++ (metadata ++ (payload ++ rest))))) := whole
  have fromLengths : bytes = beforeLengths ++ (beBytes 4 metadata.length ++
      (beBytes 4 payload.length ++ (metadata ++ (payload ++ rest)))) :=
    fromHead.trans (List.append_assoc _ _ _).symm
  have fromPayloadLen : bytes = beforePayloadLen ++
      (beBytes 4 payload.length ++ (metadata ++ (payload ++ rest))) :=
    fromLengths.trans (List.append_assoc _ _ _).symm
  have fromBlocks : bytes = beforeBlocks ++ (metadata ++ (payload ++ rest)) :=
    fromPayloadLen.trans (List.append_assoc _ _ _).symm
  have fromPayload : bytes = (beforeBlocks ++ metadata) ++ (payload ++ rest) :=
    fromBlocks.trans (List.append_assoc _ _ _).symm
  have kindSame : slice bytes 8 (8 + kindId.length) = kindId :=
    slice_eq head _ fromHead headLength.symm rfl
  have metadataLenSame : ofBeBytes (slice bytes (8 + kindId.length) (8 + kindId.length + 4)) =
      metadata.length := by
    rw [slice_eq beforeLengths _ fromLengths beforeLengthsLength.symm (by rw [length_beBytes])]
    exact ofBeBytes_beBytes 4 _ metadataFits
  have payloadLenSame : ofBeBytes (slice bytes (8 + kindId.length + 4) (8 + kindId.length + 8)) =
      payload.length := by
    rw [slice_eq beforePayloadLen _ fromPayloadLen beforePayloadLenLength.symm
      (by rw [length_beBytes])]
    exact ofBeBytes_beBytes 4 _ payloadFits
  have metadataSame : slice bytes (8 + kindId.length + 8)
      (8 + kindId.length + 8 + metadata.length) = metadata :=
    slice_eq beforeBlocks _ fromBlocks beforeBlocksLength.symm rfl
  have payloadSame : slice bytes (8 + kindId.length + 8 + metadata.length)
      (8 + kindId.length + 8 + metadata.length + payload.length) = payload :=
    slice_eq (beforeBlocks ++ metadata) rest fromPayload
      (by rw [List.length_append, beforeBlocksLength]) rfl
  have startInside : 8 + kindId.length + 8 + metadata.length ≤ u64Max := by
    unfold u64Max
    omega
  have endInside : 8 + kindId.length + 8 + metadata.length + payload.length ≤ u64Max := by
    unfold u64Max
    omega
  have magicLength : magic.length = 6 := rfl
  simp only [split, magicLength]
  rw [if_neg (by omega), if_neg (not_not_intro magicSame), if_neg (not_not_intro versionSame),
    kindLen, if_neg (by omega), metadataLenSame, payloadLenSame]
  simp only [checkedAdd, if_pos startInside, if_pos endInside, bind, Except.bind]
  rw [if_neg (by omega), kindSame, metadataSame, payloadSame]
  rfl

theorem split_encode {kindId metadata payload bytes : List UInt8}
    (kindFits : kindId.length < 2 ^ 8) (metadataFits : metadata.length < 2 ^ 32)
    (payloadFits : payload.length < 2 ^ 32) (framed : encode kindId metadata payload = .ok bytes) :
    split bytes = .ok (kindId, metadata, payload) := by
  have alone := split_append kindFits metadataFits payloadFits framed []
  rwa [List.append_nil] at alone

end Envelope

end AsapSketchlib
