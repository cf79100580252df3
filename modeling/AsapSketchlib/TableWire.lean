/-
This file holds what the wire forms of the tables share: the bound on the rows of a matrix, the
fields that have to fit a `u32`, the matrix of a function, and the steps in which a decoder opens an
envelope and compares its metadata with the block it expects.
-/

import AsapSketchlib.EnvelopeBlocks
import AsapSketchlib.Hash
import AsapSketchlib.Vector2D

namespace AsapSketchlib

/-! ### Dimensions -/

def matrixMaxRows : ℕ := seedList.length

def checkMatrixRows (sketch : String) (rows : ℕ) : Except String Unit :=
  if matrixMaxRows < rows then
    .error (sketch ++ s!" rows {rows} exceeds MATRIX_MAX_ROWS {matrixMaxRows}")
  else .ok ()

/-- `to_u32`: a field of the metadata. -/
def toU32 (sketch name : String) (value : ℕ) : Except String ℕ :=
  if value < 2 ^ 32 then .ok value
  else .error ("ASAPv1 " ++ sketch ++ " envelope: " ++ name ++ s!" {value} exceeds u32")

theorem checkMatrixRows_ok {sketch : String} {rows : ℕ} (few : rows ≤ matrixMaxRows) :
    checkMatrixRows sketch rows = .ok () := if_neg (Nat.not_lt_of_le few)

theorem toU32_ok {sketch name : String} {value : ℕ} (fits : value < 2 ^ 32) :
    toU32 sketch name value = .ok value := if_pos fits

theorem mul_lt_of_dimensions {rows cols : ℕ} (few : rows ≤ matrixMaxRows) (narrow : cols < 2 ^ 32) :
    rows * cols < 2 ^ 64 :=
  calc
    rows * cols ≤ 20 * cols := Nat.mul_le_mul_right cols few
    _ < 20 * 2 ^ 32 := Nat.mul_lt_mul_of_pos_left narrow (by decide)
    _ < 2 ^ 64 := by decide

/-! ### The matrix of a function -/

namespace Vector2D

variable {Cell : Type}

/-- `Vector2D::from_fn`. -/
def fromFn (rows cols : ℕ) (cellOf : ℕ → ℕ → Cell) : Vector2D Cell where
  data := (List.range (rows * cols)).map fun cell => cellOf (cell / cols) (cell % cols)
  rows := rows
  cols := cols
  sized := (List.length_map _).trans List.length_range

theorem fromFn_eq (matrix : Vector2D Cell) (cells : ℕ → Cell)
    (reads : ∀ cell (inside : cell < matrix.data.length), cells cell = matrix.data[cell]) :
    fromFn matrix.rows matrix.cols (fun row col => cells (row * matrix.cols + col)) = matrix := by
  obtain ⟨data, rows, cols, sized⟩ := matrix
  simp only [fromFn, Nat.div_add_mod', Vector2D.mk.injEq, and_true]
  refine List.ext_getElem ((List.length_map _).trans (List.length_range.trans sized.symm)) ?_
  intro cell _ inside
  rw [List.getElem_map, List.getElem_range]
  exact reads cell inside

end Vector2D

/-! ### Opening an envelope -/

namespace Envelope

variable {Metadata Payload : Type}

/-- The steps before the payload is read: the kind of the sketch is compared, and its metadata with
the block that is expected of the dimensions in it. -/
def openAs (sketch : String) (kind : List UInt8) (rmp : RmpSerde Metadata)
    (expected : Metadata → Metadata) [DecidableEq Metadata] (bytes : List UInt8) :
    Except RmpDecodeError (Metadata × List UInt8) := do
  let (kindId, metadata, payload) ← (split bytes).mapError RmpDecodeError.uncategorized
  if kindId ≠ kind then
    .error (.uncategorized (sketch ++ " kind_id mismatch: stored " ++ toString kindId ++
      ", expected " ++ toString kind))
  else
    let described ← rmp.fromSlice metadata
    if described ≠ expected described then
      .error (.uncategorized ("ASAPv1 " ++ sketch ++ " envelope: metadata mismatch"))
    else .ok (described, payload)

theorem openAs_write (sketch : String) (expected : Metadata → Metadata) [DecidableEq Metadata]
    {kind bytes : List UInt8} {rmpMetadata : RmpSerde Metadata} {rmpPayload : RmpSerde Payload}
    {metadata : Metadata} {payload : Payload} (echoed : metadata = expected metadata)
    (metadataTrips : Portable.RoundTrips rmpMetadata metadata)
    (payloadTrips : Portable.RoundTrips rmpPayload payload)
    (written : write kind rmpMetadata rmpPayload metadata payload = .ok (.ok bytes)) :
    ∃ payloadBytes, openAs sketch kind rmpMetadata expected bytes = .ok (metadata, payloadBytes) ∧
      rmpPayload.fromSlice payloadBytes = .ok payload := by
  obtain ⟨metadataBytes, payloadBytes, parts, metadataRead, payloadRead⟩ :=
    split_write metadataTrips payloadTrips written
  refine ⟨payloadBytes, ?_, payloadRead⟩
  simp only [openAs, parts, Except.mapError, bind, Except.bind, metadataRead]
  rw [if_neg (not_not_intro rfl), if_neg (not_not_intro echoed)]

/-- A sketch passes every check of its encoder. It is written as long as its blocks have lengths of
a `u32`, and what was written is read back as the same sketch. -/
structure Survives {Sketch : Type} (kind : List UInt8) (rmpMetadata : RmpSerde Metadata)
    (rmpPayload : RmpSerde Payload)
    (serialize : Sketch → Except Panic (Except RmpEncodeError (List UInt8)))
    (deserialize : List UInt8 → Except RmpDecodeError Sketch) (metadata : Metadata)
    (payload : Payload) (sketch : Sketch) : Prop where
  checked : serialize sketch = write kind rmpMetadata rmpPayload metadata payload
  written : Short rmpMetadata metadata → Short rmpPayload payload →
    ∃ bytes, serialize sketch = .ok (.ok bytes)
  restored : ∀ bytes, serialize sketch = .ok (.ok bytes) → deserialize bytes = .ok sketch

/-- A sketch survives if its encoder passes it and its decoder makes it of what is opened. -/
theorem survives_of {Sketch : Type} (name : String) (expected : Metadata → Metadata)
    [DecidableEq Metadata] {kind : List UInt8} {rmpMetadata : RmpSerde Metadata}
    {rmpPayload : RmpSerde Payload}
    {serialize : Sketch → Except Panic (Except RmpEncodeError (List UInt8))}
    {deserialize : List UInt8 → Except RmpDecodeError Sketch} {metadata : Metadata}
    {payload : Payload} {sketch : Sketch} (kindFits : kind.length < 2 ^ 8)
    (echoed : metadata = expected metadata)
    (checked : serialize sketch = write kind rmpMetadata rmpPayload metadata payload)
    (metadataTrips : Portable.RoundTrips rmpMetadata metadata)
    (payloadTrips : Portable.RoundTrips rmpPayload payload)
    (made : ∀ bytes payloadBytes,
      openAs name kind rmpMetadata expected bytes = .ok (metadata, payloadBytes) →
        rmpPayload.fromSlice payloadBytes = .ok payload → deserialize bytes = .ok sketch) :
    Survives kind rmpMetadata rmpPayload serialize deserialize metadata payload sketch := by
  refine ⟨checked, fun metadataShort payloadShort => ?_, fun bytes written => ?_⟩
  · obtain ⟨bytes, -, -, written, -⟩ :=
      write_split kindFits metadataTrips payloadTrips metadataShort payloadShort
    exact ⟨bytes, checked.trans written⟩
  · obtain ⟨payloadBytes, opened, read⟩ := openAs_write name expected echoed metadataTrips
      payloadTrips (checked.symm.trans written)
    exact made bytes payloadBytes opened read

end Envelope

end AsapSketchlib
