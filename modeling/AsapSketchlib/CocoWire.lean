/-
This file models the wire form of the Coco sketch, its table in row-major order with nil for the key
of a free bucket. Both sides refuse a key outside the column its row hashes it to and a key in two
buckets, and the decoder a value without a key; a table that inserts and merges build has none.
-/

import AsapSketchlib.Coco
import AsapSketchlib.TableWire

namespace AsapSketchlib

namespace CocoWire

/-! ### The two blocks -/

def cocoKind : List UInt8 := [0x0c, 0x00]

structure CocoMetadata where
  metadataVersion : UInt8
  hashProfileId : String
  hashAlgorithm : String
  seedDerivation : String
  inputEncoding : String
  seedList : List (BitVec 64)
  rows : ℕ
  cols : ℕ
  deriving DecidableEq

def cocoMetadata (profile : HashProfile) (rows cols : ℕ) : CocoMetadata where
  metadataVersion := 1
  hashProfileId := profile.profileId
  hashAlgorithm := profile.algorithm
  seedDerivation := profile.seedDerivation
  inputEncoding := profile.inputEncoding
  seedList := profile.seedList
  rows := rows
  cols := cols

structure CocoPayload where
  keys : List (Option String)
  values : List ℕ
  deriving DecidableEq

/-- What serializes the two blocks. -/
structure CocoRmp where
  metadata : RmpSerde CocoMetadata
  payload : RmpSerde CocoPayload

/-! ### Checks -/

def checkGeometry (rows cols : ℕ) : Except String Unit :=
  if rows = 0 ∨ cols = 0 then
    .error s!"Coco table dimensions must be non-zero: rows={rows}, cols={cols}"
  else checkMatrixRows "Coco table" rows

/-- Rejects, from a place on, a bucket layout no insert could produce, where some keys have been
seen before. -/
def checkPlacement (hasher : SketchHasher) (cols : ℕ) :
    ℕ → List String → List (Option String) → Except String Unit
  | _, _, [] => .ok ()
  | i, seen, none :: rest => checkPlacement hasher cols (i + 1) seen rest
  | i, seen, some key :: rest =>
    let row := i / cols
    let col := i % cols
    let mapped := Coco.colOf hasher cols key row
    if mapped ≠ col then
      .error s!"Coco bucket ({row}, {col}) holds a key that maps to column {mapped}"
    else if key ∈ seen then
      .error s!"Coco bucket ({row}, {col}) repeats a key already stored elsewhere in the table"
    else checkPlacement hasher cols (i + 1) (key :: seen) rest

/-- `rows.saturating_mul(cols)`. -/
def cellCount (rows cols : ℕ) : ℕ := min (rows * cols) u64Max

/-! ### Serializing -/

def cocoPayload (coco : Coco) : CocoPayload where
  keys := coco.table.data.map CocoBucket.fullKey
  values := coco.table.data.map CocoBucket.val

/-- Rejects a number of buckets other than that of the table's dimensions. -/
def checkTable (coco : Coco) : Except String Unit :=
  if coco.table.data.length ≠ cellCount coco.d coco.w then
    .error (s!"ASAPv1 Coco envelope: table {coco.table.rows}x{coco.table.cols} " ++
      s!"({coco.table.data.length} buckets) != declared {coco.d}x{coco.w}")
  else .ok ()

/-- The checks before anything is written, and the metadata. -/
def describe (hasher : SketchHasher) (profile : HashProfile) (coco : Coco) :
    Except String CocoMetadata := do
  checkGeometry coco.d coco.w
  checkTable coco
  checkPlacement hasher coco.w 0 [] (cocoPayload coco).keys
  let rows ← toU32 "Coco" "rows" coco.d
  let cols ← toU32 "Coco" "cols" coco.w
  return cocoMetadata profile rows cols

def serializeToBytes (hasher : SketchHasher) (profile : HashProfile) (rmp : CocoRmp) (coco : Coco) :
    Except Panic (Except RmpEncodeError (List UInt8)) :=
  match describe hasher profile coco with
  | .error problem => .ok (.error (.syntaxError problem))
  | .ok metadata =>
    Envelope.write cocoKind rmp.metadata rmp.payload metadata (cocoPayload coco)

/-! ### Deserializing -/

def strayValue (payload : CocoPayload) (i : ℕ) : Bool :=
  payload.keys.getD i none = none ∧ payload.values.getD i 0 ≠ 0

def ofPayload (hasher : SketchHasher) (rows cols : ℕ) (payload : CocoPayload) :
    Except String Coco :=
  let expected := cellCount rows cols
  if payload.keys.length ≠ expected ∨ payload.values.length ≠ expected then
    .error (s!"Coco payload lengths (keys {payload.keys.length}, values " ++
      s!"{payload.values.length}) != rows*cols {expected}")
  else
    match (List.range expected).find? (strayValue payload) with
    | some i =>
      .error s!"Coco bucket {i} is unoccupied but carries value {payload.values.getD i 0}"
    | none =>
      (checkPlacement hasher cols 0 [] payload.keys).map fun _ =>
        { table := Vector2D.fromFn rows cols fun r c =>
            ⟨payload.keys.getD (r * cols + c) none, payload.values.getD (r * cols + c) 0⟩ }

def deserializeFromBytes (hasher : SketchHasher) (profile : HashProfile) (rmp : CocoRmp)
    (bytes : List UInt8) : Except RmpDecodeError Coco := do
  let (described, payload) ← Envelope.openAs "Coco" cocoKind rmp.metadata
    (fun described => cocoMetadata profile described.rows described.cols) bytes
  (checkGeometry described.rows described.cols).mapError RmpDecodeError.uncategorized
  let decoded ← rmp.payload.fromSlice payload
  (ofPayload hasher described.rows described.cols decoded).mapError RmpDecodeError.uncategorized

/-! ### Every check passes -/

variable {hasher : SketchHasher} {profile : HashProfile} {w d : ℕ} {coco : Coco}

theorem checkPlacement_ok {cols : ℕ} {keys : List (Option String)}
    (placed : ∀ (cell : ℕ) key, keys[cell]? = some (some key) →
      Coco.colOf hasher cols key (cell / cols) = cell % cols)
    (single : ∀ (first second : ℕ) key, keys[first]? = some (some key) →
      keys[second]? = some (some key) → first = second)
    (before rest : List (Option String)) (seen : List String) (parts : before ++ rest = keys)
    (earlier : ∀ key ∈ seen, some key ∈ before) :
    checkPlacement hasher cols before.length seen rest = .ok () := by
  induction rest generalizing before seen with
  | nil => rfl
  | cons slot rest hypothesis =>
    have next := fun seen => hypothesis (before ++ [slot]) seen ((List.append_assoc _ _ _).trans parts)
    rw [List.length_append] at next
    cases slot with
    | none => exact next seen fun key member => List.mem_append_left _ (earlier key member)
    | some key =>
      have here : keys[before.length]? = some (some key) := by
        rw [← parts, List.getElem?_append_right (Nat.le_refl _), Nat.sub_self]
        rfl
      have fresh : key ∉ seen := by
        intro member
        obtain ⟨place, inside, same⟩ := List.mem_iff_getElem.mp (earlier key member)
        have there : keys[place]? = some (some key) := by
          rw [← parts, List.getElem?_append_left inside, List.getElem?_eq_getElem inside, same]
        exact Nat.ne_of_lt inside (single _ _ key there here)
      rw [checkPlacement, if_neg (not_not_intro (placed _ key here)), if_neg fresh]
      refine next (key :: seen) (List.forall_mem_cons.mpr ⟨?_, fun other member => ?_⟩)
      · exact List.mem_append_right _ (List.mem_singleton.mpr rfl)
      · exact List.mem_append_left _ (earlier other member)

theorem checkGeometry_ok {rows cols : ℕ} (someRow : 0 < rows) (someCol : 0 < cols)
    (few : rows ≤ matrixMaxRows) : checkGeometry rows cols = .ok () := by
  unfold checkGeometry
  rw [if_neg fun empty => empty.elim (Nat.ne_of_gt someRow) (Nat.ne_of_gt someCol)]
  exact checkMatrixRows_ok few

theorem fullKey_of_keys {cell : ℕ} {key : String}
    (stands : (cocoPayload coco).keys[cell]? = some (some key)) :
    (CocoBucket.bucketAt coco.table.data cell).fullKey = some key := by
  obtain ⟨bucket, found, named⟩ := Option.map_eq_some_iff.mp (List.getElem?_map.symm.trans stands)
  rw [CocoBucket.bucketAt, List.getD_eq_getElem?_getD, found]
  exact named

theorem checkPlacement_cocoPayload (sound : coco.Sound hasher w d) (someCol : 0 < w) :
    checkPlacement hasher w 0 [] (cocoPayload coco).keys = .ok () := by
  refine checkPlacement_ok (fun cell key stands => ?_) (fun first second key one other => ?_) [] _
    [] rfl fun _ member => absurd member List.not_mem_nil
  · obtain ⟨row, -, rfl⟩ := sound.housed.placed cell key (fullKey_of_keys stands)
    have inside := Coco.colOf_lt hasher someCol key row
    rw [Coco.cellOf, Nat.add_comm, Nat.add_mul_div_right _ _ someCol, Nat.div_eq_of_lt inside,
      Nat.zero_add, Nat.add_mul_mod_self_right, Nat.mod_eq_of_lt inside]
  · exact sound.housed.single first second key (fullKey_of_keys one) (fullKey_of_keys other)

theorem cellCount_eq {rows cols : ℕ} (few : rows ≤ matrixMaxRows) (narrow : cols < 2 ^ 32) :
    cellCount rows cols = rows * cols :=
  min_eq_left (Nat.le_of_lt_succ (mul_lt_of_dimensions few narrow))

theorem describe_ok (profile : HashProfile) (sound : coco.Sound hasher w d) (someCol : 0 < w)
    (someRow : 0 < d) (few : d ≤ matrixMaxRows) (narrow : w < 2 ^ 32) :
    describe hasher profile coco = .ok (cocoMetadata profile d w) := by
  have full : checkTable coco = .ok () := by
    refine if_neg (not_not_intro ?_)
    rw [sound.depth, sound.width, cellCount_eq few narrow, coco.table.sized]
    exact congrArg₂ (· * ·) sound.depth sound.width
  have rowsFit : d < 2 ^ 32 := few.trans_lt (by decide)
  unfold describe
  rw [full, sound.depth, sound.width, checkGeometry_ok someRow someCol few,
    checkPlacement_cocoPayload sound someCol, toU32_ok rowsFit, toU32_ok narrow]
  rfl

theorem ofPayload_cocoPayload (sound : coco.Sound hasher w d) (someCol : 0 < w)
    (few : d ≤ matrixMaxRows) (narrow : w < 2 ^ 32) :
    ofPayload hasher d w (cocoPayload coco) = .ok coco := by
  obtain rfl := sound.depth
  obtain rfl := sound.width
  have sized : coco.table.data.length = coco.d * coco.w := coco.table.sized
  have keyAt : ∀ cell, (cocoPayload coco).keys.getD cell none =
      (CocoBucket.bucketAt coco.table.data cell).fullKey := fun cell =>
    List.getD_map _ CocoBucket.new CocoBucket.fullKey
  have valueAt : ∀ cell, (cocoPayload coco).values.getD cell 0 =
      (CocoBucket.bucketAt coco.table.data cell).val := fun cell =>
    List.getD_map _ CocoBucket.new CocoBucket.val
  have noStray : (List.range (coco.d * coco.w)).find? (strayValue (cocoPayload coco)) = none := by
    refine List.find?_eq_none.mpr fun cell _ stray => ?_
    obtain ⟨unnamed, value⟩ := of_decide_eq_true stray
    rw [keyAt] at unnamed
    rw [valueAt] at value
    exact value (sound.housed.keyed cell unnamed)
  have table := Vector2D.fromFn_eq coco.table
    (fun cell => ⟨(cocoPayload coco).keys.getD cell none, (cocoPayload coco).values.getD cell 0⟩)
    fun cell inside => by
      rw [keyAt, valueAt, CocoBucket.bucketAt, List.getD_eq_getElem _ _ inside]
  unfold ofPayload
  rw [cellCount_eq few narrow]
  simp only [noStray]
  rw [if_neg (by simp [cocoPayload, sized]), checkPlacement_cocoPayload sound someCol, Except.map]
  exact congrArg (fun table => Except.ok (Coco.mk table)) table

theorem survives (profile : HashProfile) (rmp : CocoRmp) (sound : coco.Sound hasher w d)
    (someCol : 0 < w) (someRow : 0 < d) (few : d ≤ matrixMaxRows) (narrow : w < 2 ^ 32)
    (metadataTrips : Portable.RoundTrips rmp.metadata (cocoMetadata profile d w))
    (payloadTrips : Portable.RoundTrips rmp.payload (cocoPayload coco)) :
    Envelope.Survives cocoKind rmp.metadata rmp.payload (serializeToBytes hasher profile rmp)
      (deserializeFromBytes hasher profile rmp) (cocoMetadata profile d w) (cocoPayload coco)
      coco := by
  refine Envelope.survives_of "Coco"
    (fun described : CocoMetadata => cocoMetadata profile described.rows described.cols)
    (by decide) rfl ?_ metadataTrips payloadTrips fun bytes payloadBytes opened read => ?_
  · simp only [serializeToBytes, describe_ok profile sound someCol someRow few narrow]
  · have geometry : checkGeometry (cocoMetadata profile d w).rows (cocoMetadata profile d w).cols =
        .ok () := checkGeometry_ok someRow someCol few
    have decoded : ofPayload hasher (cocoMetadata profile d w).rows (cocoMetadata profile d w).cols
        (cocoPayload coco) = .ok coco := ofPayload_cocoPayload sound someCol few narrow
    simp only [deserializeFromBytes, opened, bind, Except.bind, geometry, Except.mapError, read,
      decoded]

end CocoWire

end AsapSketchlib
