/-
This file models how a Space-Saving summary goes on the wire: the key type its metadata
names, the payload of keys, counts and errors in an order of their own, and the decoder
that checks the envelope and hands the triples to the rebuild.
-/

import AsapSketchlib.Envelope
import AsapSketchlib.MessagePack
import AsapSketchlib.SpaceSaving

namespace AsapSketchlib

/-! ### Key types -/

/-- The variants of a key that have a MessagePack form. -/
inductive WireKey where
  | i8 | i16 | i32 | i64 | isize | u8 | u16 | u32 | u64 | usize | f32 | f64 | string | bytes
  deriving DecidableEq, Repr

namespace WireKey

/-- The metadata `key_type` of a variant. -/
def name : WireKey → String
  | i8 => "i8"
  | i16 => "i16"
  | i32 => "i32"
  | i64 => "i64"
  | isize => "isize"
  | u8 => "u8"
  | u16 => "u16"
  | u32 => "u32"
  | u64 => "u64"
  | usize => "usize"
  | f32 => "f32"
  | f64 => "f64"
  | string => "string"
  | bytes => "bytes"

/-- The variant a metadata `key_type` names. -/
def ofName : String → Option WireKey
  | "i8" => some i8
  | "i16" => some i16
  | "i32" => some i32
  | "i64" => some i64
  | "isize" => some isize
  | "u8" => some u8
  | "u16" => some u16
  | "u32" => some u32
  | "u64" => some u64
  | "usize" => some usize
  | "f32" => some f32
  | "f64" => some f64
  | "string" => some string
  | "bytes" => some bytes
  | _ => none

def Held : WireKey → Type
  | i8 | u8 => BitVec 8
  | i16 | u16 => BitVec 16
  | i32 | u32 | f32 => BitVec 32
  | i64 | isize | u64 | usize | f64 => BitVec 64
  | string => String
  | bytes => List UInt8

def item : (kind : WireKey) → kind.Held → HeapItem
  | i8, value => .i8 value
  | i16, value => .i16 value
  | i32, value => .i32 value
  | i64, value => .i64 value
  | isize, value => .isize value
  | u8, value => .u8 value
  | u16, value => .u16 value
  | u32, value => .u32 value
  | u64, value => .u64 value
  | usize, value => .usize value
  | f32, value => .f32 value
  | f64, value => .f64 value
  | string, value => .string value
  | bytes, value => .bytes value

def held : (kind : WireKey) → HeapItem → Option kind.Held
  | i8, .i8 value => some value
  | i16, .i16 value => some value
  | i32, .i32 value => some value
  | i64, .i64 value => some value
  | isize, .isize value => some value
  | u8, .u8 value => some value
  | u16, .u16 value => some value
  | u32, .u32 value => some value
  | u64, .u64 value => some value
  | usize, .usize value => some value
  | f32, .f32 value => some value
  | f64, .f64 value => some value
  | string, .string value => some value
  | bytes, .bytes value => some value
  | _, _ => none

/-- The variant is not a floating-point one, so that its keys compare by identity. -/
def isExact : WireKey → Bool
  | f32 => false
  | f64 => false
  | _ => true

theorem held_item (kind : WireKey) (value : kind.Held) : kind.held (kind.item value) = some value := by
  cases kind <;> rfl

theorem ofName_name (kind : WireKey) : ofName kind.name = some kind := by
  cases kind <;> rfl

end WireKey

/-- `key_type_of`: the wire variant of a key; a 128-bit key has none. -/
def keyTypeOf : HeapItem → Option WireKey
  | .i8 _ => some .i8
  | .i16 _ => some .i16
  | .i32 _ => some .i32
  | .i64 _ => some .i64
  | .isize _ => some .isize
  | .u8 _ => some .u8
  | .u16 _ => some .u16
  | .u32 _ => some .u32
  | .u64 _ => some .u64
  | .usize _ => some .usize
  | .f32 _ => some .f32
  | .f64 _ => some .f64
  | .string _ => some .string
  | .bytes _ => some .bytes
  | .i128 _ => none
  | .u128 _ => none

theorem WireKey.exists_held {kind : WireKey} {key : HeapItem} (typed : keyTypeOf key = some kind) :
    ∃ value, kind.held key = some value ∧ kind.item value = key := by
  cases key with
  | i128 value => exact absurd typed (by simp [keyTypeOf])
  | u128 value => exact absurd typed (by simp [keyTypeOf])
  | _ value =>
    obtain rfl := Option.some.inj typed
    exact ⟨value, rfl, rfl⟩

theorem WireKey.isExact_key {kind : WireKey} {key : HeapItem} (typed : keyTypeOf key = some kind)
    (exact : kind.isExact = true) : key.isExact = true := by
  obtain ⟨value, -, rfl⟩ := WireKey.exists_held typed
  cases kind with
  | f32 => exact absurd exact Bool.false_ne_true
  | f64 => exact absurd exact Bool.false_ne_true
  | _ => rfl

/-! ### The two blocks -/

def spaceSavingKind : List UInt8 := [0x18, 0x00]

/-- `EMPTY_KEY_TYPE`: the key type of a summary that monitors nothing. -/
def emptyKeyType : String := "u64"

structure SpaceSavingMetadata where
  metadataVersion : BitVec 8
  hashProfileId : String
  hashAlgorithm : String
  seedDerivation : String
  inputEncoding : String
  seedList : List (BitVec 64)
  capacity : BitVec 32
  keyType : String
  deriving DecidableEq

/-- `space_saving_metadata`: the metadata of a profile, a capacity and a key type. -/
def spaceSavingMetadata (profile : HashProfile) (capacity : BitVec 32) (keyType : String) :
    SpaceSavingMetadata where
  metadataVersion := 1
  hashProfileId := profile.profileId
  hashAlgorithm := profile.algorithm
  seedDerivation := profile.seedDerivation
  inputEncoding := profile.inputEncoding
  seedList := profile.seedList
  capacity := capacity
  keyType := keyType

/-- Space-Saving payload: three parallel arrays and the two running scalars. -/
structure SpaceSavingPayload (Key : Type) where
  keys : List Key
  counts : List (BitVec 64)
  errors : List (BitVec 64)
  total : BitVec 64
  discardedMax : BitVec 64

/-- The serializers of the two blocks, the payload's at every key variant. -/
structure SpaceSavingRmp where
  metadata : RmpSerde SpaceSavingMetadata
  payload : ∀ kind : WireKey, RmpSerde (SpaceSavingPayload kind.Held)

/-- The crate reads back every block it wrote. -/
structure SpaceSavingRmp.RoundTrips (rmp : SpaceSavingRmp) : Prop where
  metadata : rmp.metadata.RoundTrips
  payload : ∀ kind, (rmp.payload kind).RoundTrips

namespace SpaceSaving

/-! ### Encoding -/

/-- The emitted order: descending count, ties broken by `key_order`. -/
def emittedLe (left right : HeapItem × ℕ × ℕ) : Bool :=
  right.2.1 < left.2.1 ∨ (right.2.1 = left.2.1 ∧ keyOrder left.1 ≤ keyOrder right.1)

/-- The order in which an unstable sort takes up its elements: any permutation. -/
structure SortOrder where
  order : List (HeapItem × ℕ × ℕ) → List (HeapItem × ℕ × ℕ)
  perm : ∀ entries, (order entries).Perm entries

/-- The monitored triples in emitted order. -/
def wireEntries (unstable : SortOrder) (summary : SpaceSaving) :
    Except Fault (List (HeapItem × ℕ × ℕ)) := do
  let entries ← summary.entries
  return (unstable.order entries).mergeSort emittedLe

/-- The `key_type` the payload will be written in, taken from the first key in emitted order. -/
def wireKeyType : List (HeapItem × ℕ × ℕ) → Except RmpEncodeError String
  | [] => .ok emptyKeyType
  | (key, _, _) :: _ =>
    match keyTypeOf key with
    | some kind => .ok kind.name
    | none => .error (.syntaxError "Space-Saving: 128-bit keys are not ASAPv1 wire types")

def mixedVariantError (keyType : String) (key : HeapItem) : RmpEncodeError :=
  .syntaxError ("Space-Saving: monitored keys mix variants — key_type is " ++ keyType ++ ", but a " ++
    ((keyTypeOf key).map WireKey.name).getD "128-bit" ++ " key is held")

/-- The text of both errors about a `key_type` that names no variant. -/
def unknownKeyType (keyType : String) : String :=
  "Space-Saving key_type " ++ keyType.quote ++ " is not an ASAPv1 wire key type"

def packKey (keyType : String) (kind : WireKey) (entry : HeapItem × ℕ × ℕ) :
    Except RmpEncodeError kind.Held :=
  match kind.held entry.1 with
  | some value => .ok value
  | none => .error (mixedVariantError keyType entry.1)

/-- Packs the emitted triples into the payload, with keys typed by `keyType`. -/
def encodePayload (rmp : SpaceSavingRmp) (keyType : String) (entries : List (HeapItem × ℕ × ℕ))
    (total discardedMax : ℕ) : Except RmpEncodeError (List UInt8) :=
  match WireKey.ofName keyType with
  | none => .error (.syntaxError (unknownKeyType keyType))
  | some kind => do
    let keys ← entries.mapM (packKey keyType kind)
    (rmp.payload kind).toVec {
      keys := keys
      counts := entries.map fun entry => BitVec.ofNat 64 entry.2.1
      errors := entries.map fun entry => BitVec.ofNat 64 entry.2.2
      total := BitVec.ofNat 64 total
      discardedMax := BitVec.ofNat 64 discardedMax }

def encodeBlocks (profile : HashProfile) (rmp : SpaceSavingRmp) (summary : SpaceSaving)
    (entries : List (HeapItem × ℕ × ℕ)) : Except RmpEncodeError (List UInt8 × List UInt8) := do
  let keyType ← wireKeyType entries
  let metadata ← rmp.metadata.toVec
    (spaceSavingMetadata profile (BitVec.ofNat 32 summary.capacity) keyType)
  let payload ← encodePayload rmp keyType entries summary.total summary.discardedMax
  return (metadata, payload)

/-- Both blocks of the summary's envelope are short enough for their `u32` lengths. -/
def FitsEnvelope (profile : HashProfile) (rmp : SpaceSavingRmp) (unstable : SortOrder)
    (summary : SpaceSaving) : Prop :=
  ∀ entries metadata payload, wireEntries unstable summary = .ok entries →
    encodeBlocks profile rmp summary entries = .ok (metadata, payload) →
      metadata.length < 2 ^ 32 ∧ payload.length < 2 ^ 32

def serializeToBytes (profile : HashProfile) (rmp : SpaceSavingRmp) (unstable : SortOrder)
    (summary : SpaceSaving) : Except Panic (Except RmpEncodeError (List UInt8)) :=
  if 2 ^ 32 ≤ summary.capacity then
    return .error (.syntaxError ("Space-Saving capacity " ++ toString summary.capacity ++
      " exceeds the u32 metadata field"))
  else do
    let entries ← (wireEntries unstable summary).mapError Panic.fault
    match encodeBlocks profile rmp summary entries with
    | .error error => return .error error
    | .ok (metadata, payload) => .ok <$> Envelope.encode spaceSavingKind metadata payload

/-! ### Decoding -/

/-- Three parallel arrays as triples. -/
def zipEntries (keys : List HeapItem) (counts errors : List (BitVec 64)) :
    List (HeapItem × ℕ × ℕ) :=
  ((keys.zip counts).zip errors).map fun entry =>
    (entry.1.1, entry.1.2.toNat, entry.2.toNat)

theorem count_le_of_mem_zipEntries {keys : List HeapItem} {counts errors : List (BitVec 64)}
    {entry : HeapItem × ℕ × ℕ} (member : entry ∈ zipEntries keys counts errors) :
    entry.2.1 ≤ u64Max := by
  obtain ⟨zipped, -, rfl⟩ := List.mem_map.mp member
  exact Nat.le_of_lt_succ zipped.1.2.isLt

/-- Reads the payload with keys typed by `keyType` and assembles the state the rebuild consumes. -/
def decodePayload (rmp : SpaceSavingRmp) (keyType : String) (capacity : ℕ)
    (payload : List UInt8) : Except RmpDecodeError State :=
  match WireKey.ofName keyType with
  | none => .error (.uncategorized (unknownKeyType keyType))
  | some kind => do
    let decoded ← (rmp.payload kind).fromSlice payload
    let keys := decoded.keys.map kind.item
    if keys.length ≠ decoded.counts.length ∨ keys.length ≠ decoded.errors.length then
      .error (.uncategorized ("Space-Saving payload: " ++ toString keys.length ++ " keys against " ++
        toString decoded.counts.length ++ " counts and " ++ toString decoded.errors.length ++
        " errors"))
    else
      return {
        capacity := capacity
        total := decoded.total.toNat
        discardedMax := decoded.discardedMax.toNat
        entries := zipEntries keys decoded.counts decoded.errors
        discardedMax_le := Nat.le_of_lt_succ decoded.discardedMax.isLt
        entries_le := fun _ => count_le_of_mem_zipEntries }

/-- The decoded state of an envelope whose kind and hash profile are this target's. -/
def decodeState (profile : HashProfile) (rmp : SpaceSavingRmp) (bytes : List UInt8) :
    Except RmpDecodeError State := do
  let (kindId, metadata, payload) ← (Envelope.split bytes).mapError RmpDecodeError.uncategorized
  if kindId ≠ spaceSavingKind then
    .error (.uncategorized ("Space-Saving kind_id mismatch: stored " ++ toString kindId ++
      ", expected " ++ toString spaceSavingKind))
  else
    let described ← rmp.metadata.fromSlice metadata
    if described ≠ spaceSavingMetadata profile described.capacity described.keyType then
      .error (.uncategorized "ASAPv1 Space-Saving envelope: metadata mismatch")
    else
      decodePayload rmp described.keyType described.capacity.toNat payload

def deserializeFromBytes (H : SketchHasher) (profile : HashProfile) (rmp : SpaceSavingRmp)
    (bytes : List UInt8) : Except Fault (Except RmpDecodeError SpaceSaving) :=
  match decodeState profile rmp bytes with
  | .error error => return .error error
  | .ok state => do
    let rebuilt ← rebuild H state
    return rebuilt.mapError RmpDecodeError.uncategorized

/-! ### The blocks in MessagePack -/

def keyCodec : (kind : WireKey) → Codec kind.Held
  | .i8 => MessagePack.signed 8 (by decide)
  | .i16 => MessagePack.signed 16 (by decide)
  | .i32 => MessagePack.signed 32 (by decide)
  | .i64 => MessagePack.signed 64 (by decide)
  | .isize => MessagePack.signed 64 (by decide)
  | .u8 => MessagePack.unsigned 8 (by decide)
  | .u16 => MessagePack.unsigned 16 (by decide)
  | .u32 => MessagePack.unsigned 32 (by decide)
  | .u64 => MessagePack.unsigned 64 (by decide)
  | .usize => MessagePack.unsigned 64 (by decide)
  | .f32 => MessagePack.float 0xca 4 (by decide)
  | .f64 => MessagePack.float 0xcb 8 (by decide)
  | .string => MessagePack.str
  | .bytes => MessagePack.bin

def payloadCodec {Key : Type} (key : Codec Key) : Codec (SpaceSavingPayload Key) :=
  let word := MessagePack.unsigned 64 (by decide)
  let words := MessagePack.array word
  (Codec.tagged (MessagePack.arrayHeader.encode 5)
    ((MessagePack.array key).pair (words.pair (words.pair (word.pair word))))).through
    (fun payload =>
      (payload.keys, payload.counts, payload.errors, payload.total, payload.discardedMax))
    (fun (keys, counts, errors, total, discardedMax) =>
      some { keys, counts, errors, total, discardedMax })
    fun _ => rfl

def metadataCodec : Codec SpaceSavingMetadata :=
  let text := fun name => MessagePack.field name MessagePack.str
  let seeds := MessagePack.array (MessagePack.unsigned 64 (by decide))
  (Codec.tagged (MessagePack.mapHeader.encode 8)
    ((MessagePack.field "metadata_version" (MessagePack.unsigned 8 (by decide))).pair
      ((text "hash_profile_id").pair ((text "hash_algorithm").pair ((text "seed_derivation").pair
        ((text "input_encoding").pair ((MessagePack.field "seed_list" seeds).pair
          ((MessagePack.field "capacity" (MessagePack.unsigned 32 (by decide))).pair
            (text "key_type"))))))))).through
    (fun metadata =>
      (metadata.metadataVersion, metadata.hashProfileId, metadata.hashAlgorithm,
        metadata.seedDerivation, metadata.inputEncoding, metadata.seedList, metadata.capacity,
        metadata.keyType))
    (fun (metadataVersion, hashProfileId, hashAlgorithm, seedDerivation, inputEncoding, seedList,
        capacity, keyType) =>
      some { metadataVersion, hashProfileId, hashAlgorithm, seedDerivation, inputEncoding, seedList,
             capacity, keyType })
    fun _ => rfl

def messagePack : SpaceSavingRmp where
  metadata := metadataCodec.rmpSerde
  payload kind := (payloadCodec (keyCodec kind)).rmpSerde

theorem messagePack_roundTrips : messagePack.RoundTrips where
  metadata := metadataCodec.rmpSerde_roundTrips
  payload kind := (payloadCodec (keyCodec kind)).rmpSerde_roundTrips

end SpaceSaving

end AsapSketchlib
