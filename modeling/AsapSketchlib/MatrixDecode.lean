/-
This file follows the decode of a packed matrix hash bit by bit: the shifts, the masks, and the
folding into a column, for the hash layout that the dimensions choose. No shift leaves the word, the
columns are in range and those the matrices decode with the mask they cached, and in a packed hash
the bits of the rows do not run into each other.
-/

import AsapSketchlib.BitMatrix
import AsapSketchlib.BitRanges
import AsapSketchlib.HashSketchEnsemble
import AsapSketchlib.MatrixStorage
import AsapSketchlib.NitroRows
import AsapSketchlib.SliceRuns

namespace AsapSketchlib

namespace MatrixHashType

/-! ### The decode -/

def shiftRight {width : ℕ} (value : BitVec width) (amount : ℕ) : Option (BitVec width) :=
  if amount < width then some (value >>> amount) else none

def colsMask (cols : ℕ) : Option (BitVec 128) :=
  if colsMaskBits cols < 128 then some ((1#128 <<< colsMaskBits cols) - 1#128) else none

/-- `row_hash`. -/
def decodeRow (hashed : MatrixHashType) (row maskBits : ℕ) (mask : BitVec 128) :
    Option (BitVec 128) :=
  match hashed with
  | packed64 value => (shiftRight value (maskBits * row)).map fun shifted =>
      shifted.setWidth 128 &&& mask
  | packed128 value => (shiftRight value (maskBits * row)).map fun shifted => shifted &&& mask
  | rows values => values[row]?.map fun value => value.setWidth 128 &&& mask

/-- `fold_to_col`. The bits are cast down to a `usize`. -/
def foldBits (raw : BitVec 128) (cols : ℕ) : ℕ :=
  let narrow := raw.toNat % 2 ^ 64
  if 2 ^ Nat.log2 cols = cols then narrow else narrow % cols

/-- `MatrixFastHash::col_for_row`. -/
def decodeCol (hashed : MatrixHashType) (row cols : ℕ) : Option ℕ := do
  let mask ← colsMask cols
  let raw ← decodeRow hashed row (colsMaskBits cols) mask
  some (foldBits raw cols)

/-- `sign_for_row`. The row is subtracted from the last bit of the word. -/
def decodeSign (hashed : MatrixHashType) (row : ℕ) : Option ℤ :=
  match hashed with
  | packed64 value => do
    let amount ← minus 63 row
    let shifted ← shiftRight value amount
    some (((shifted &&& 1#64).toNat : ℤ) * 2 - 1)
  | packed128 value => do
    let amount ← minus 127 row
    let shifted ← shiftRight value amount
    some (((shifted &&& 1#128).toNat : ℤ) * 2 - 1)
  | rows values => values[row]?.map fun (value : BitVec 64) =>
      (((value >>> 63) &&& 1#64).toNat : ℤ) * 2 - 1

/-! ### What the matrices cache -/

/-- The columns of a matrix and the decode it computed for them. -/
structure Cached where
  cols : ℕ
  maskBits : ℕ
  mask : BitVec 128

namespace Cached

/-- `Vector2D::init`. -/
def ofVector2D (cols : ℕ) : Option Cached :=
  (colsMask cols).map fun mask => ⟨cols, colsMaskBits cols, mask⟩

/-- `Vector3D::init`, which computes the mask from the mask bits. -/
def ofVector3D (cols : ℕ) : Option Cached :=
  let maskBits := colsMaskBits cols
  if maskBits < 128 then some ⟨cols, maskBits, (1#128 <<< maskBits) - 1#128⟩ else none

/-- `BitMatrix::new` and `BitMatrix::from_words`. -/
def ofBitMatrix (cols : ℕ) : Option Cached :=
  (colsMask cols).map fun mask => ⟨cols, colsMaskBits cols, mask⟩

/-- `col_for_row` of the matrices. -/
def colForRow (cached : Cached) (hashed : MatrixHashType) (row : ℕ) : Option ℕ :=
  (decodeRow hashed row cached.maskBits cached.mask).map fun raw => foldBits raw cached.cols

end Cached

/-! ### The bits of a packed hash -/

def window (maskBits row : ℕ) : BitRange := ⟨maskBits * row, maskBits⟩

def signBit (width row : ℕ) : BitRange := ⟨width - 1 - row, 1⟩

def layout (width maskBits rows : ℕ) : List BitRange :=
  (List.range rows).map (window maskBits) ++ (List.range rows).map (signBit width)

/-- What is read of a packed hash for a row: no more than its column bits and its sign bit. -/
structure ReadsOf {width : ℕ} (hashed : MatrixHashType) (value : BitVec width)
    (maskBits rows : ℕ) : Prop where
  shifts : ∀ row < rows, maskBits * row < width ∧ row ≤ width - 1
  columns : ∀ row < rows, ∀ mask, BitRange.lowMask 128 maskBits = mask →
    (decodeRow hashed row maskBits mask).map BitVec.toNat =
      some ((window maskBits row).read value).toNat
  signs : ∀ row < rows, decodeSign hashed row =
    some ((((signBit width row).read value).toNat : ℤ) * 2 - 1)
  laid : BitRange.Laid width (layout width maskBits rows)

/-- What a hash of some dimensions is decoded to. -/
structure WellDecoded (hashed : MatrixHashType) (rows cols : ℕ) : Prop where
  columns : ∀ row < rows, ∃ col, col < cols ∧ decodeCol hashed row cols = some col ∧
    col = hashed.colForRow row cols ∧
    (Cached.ofVector2D cols).bind (·.colForRow hashed row) = some col ∧
    (Cached.ofVector3D cols).bind (·.colForRow hashed row) = some col ∧
    (Cached.ofBitMatrix cols).bind (·.colForRow hashed row) = some col
  signs : ∀ row < rows, decodeSign hashed row = some (hashed.signForRow row)
  packed64 : ∀ value, hashed = .packed64 value → ReadsOf hashed value (colsMaskBits cols) rows
  packed128 : ∀ value, hashed = .packed128 value → ReadsOf hashed value (colsMaskBits cols) rows

/-! ### Shifts and masks -/

theorem colsMaskBits_lt {cols : ℕ} (positive : 1 ≤ cols) (word : cols ≤ 2 ^ 63) :
    colsMaskBits cols ≤ 63 := by
  have log : 2 ^ Nat.log2 cols ≤ cols := Nat.log2_self_le (by omega)
  unfold colsMaskBits
  by_cases power : 2 ^ Nat.log2 cols = cols
  · rw [if_pos power]
    exact (Nat.pow_le_pow_iff_right (by decide)).mp (power.trans_le word)
  · rw [if_neg power]
    exact (Nat.pow_lt_pow_iff_right (by decide)).mp ((lt_of_le_of_ne log power).trans_le word)

theorem colsMask_eq {cols : ℕ} (narrow : colsMaskBits cols ≤ 63) :
    colsMask cols = some (BitRange.lowMask 128 (colsMaskBits cols)) := if_pos (by omega)

theorem shiftRight_eq {width : ℕ} (value : BitVec width) {amount : ℕ} (inside : amount < width) :
    shiftRight value amount = some (value >>> amount) := if_pos inside

theorem toNat_widened {width : ℕ} (narrow : width ≤ 128) (value : BitVec width) {maskBits : ℕ}
    (fits : maskBits < 128) :
    (value.setWidth 128 &&& BitRange.lowMask 128 maskBits).toNat = value.toNat % 2 ^ maskBits := by
  have bounded : value.toNat < 2 ^ 128 :=
    value.isLt.trans_le (Nat.pow_le_pow_right (by decide) narrow)
  rw [BitVec.toNat_and, BitRange.toNat_lowMask fits, Nat.and_two_pow_sub_one_eq_mod,
    BitVec.toNat_setWidth, Nat.mod_eq_of_lt bounded]

theorem foldBits_eq {raw : BitVec 128} {cols maskBits : ℕ} (below : raw.toNat < 2 ^ maskBits)
    (narrow : maskBits ≤ 63) : foldBits raw cols = foldToCol raw.toNat cols := by
  have fits : raw.toNat < 2 ^ 64 :=
    below.trans_le (Nat.pow_le_pow_right (by decide) (narrow.trans (by decide)))
  unfold foldBits foldToCol
  rw [Nat.mod_eq_of_lt fits]

theorem columns_of_row {hashed : MatrixHashType} {row cols : ℕ} (positive : 1 ≤ cols)
    (narrow : colsMaskBits cols ≤ 63) {raw : BitVec 128}
    (read : decodeRow hashed row (colsMaskBits cols)
      (BitRange.lowMask 128 (colsMaskBits cols)) = some raw)
    (number : raw.toNat = hashed.rowHash row (colsMaskBits cols)) :
    ∃ col, col < cols ∧ decodeCol hashed row cols = some col ∧
      col = hashed.colForRow row cols ∧
      (Cached.ofVector2D cols).bind (·.colForRow hashed row) = some col ∧
      (Cached.ofVector3D cols).bind (·.colForRow hashed row) = some col ∧
      (Cached.ofBitMatrix cols).bind (·.colForRow hashed row) = some col := by
  have below : raw.toNat < 2 ^ colsMaskBits cols := number ▸ hashed.rowHash_lt row _
  have folded : foldBits raw cols = hashed.colForRow row cols := by
    rw [foldBits_eq below narrow, number]
    rfl
  have cached : (Cached.mk cols (colsMaskBits cols)
      (BitRange.lowMask 128 (colsMaskBits cols))).colForRow hashed row =
      some (foldBits raw cols) := by
    unfold Cached.colForRow
    rw [read]
    rfl
  refine ⟨foldBits raw cols, ?_, ?_, folded, ?_, ?_, ?_⟩
  · rw [folded]
    exact hashed.colForRow_lt row positive
  · unfold decodeCol
    rw [colsMask_eq narrow, Option.bind_eq_bind, Option.bind_some, read]
    rfl
  · unfold Cached.ofVector2D
    rw [colsMask_eq narrow]
    exact cached
  · unfold Cached.ofVector3D
    simp only
    rw [if_pos (by omega)]
    exact cached
  · unfold Cached.ofBitMatrix
    rw [colsMask_eq narrow]
    exact cached

/-! ### The packed layouts -/

section Packed

variable {width maskBits rows : ℕ}

theorem columns_end (room : (maskBits + 1) * rows ≤ width) {row : ℕ} (inside : row < rows) :
    maskBits * row + maskBits + rows ≤ width := by
  have columns : maskBits * (row + 1) ≤ maskBits * rows := Nat.mul_le_mul_left _ inside
  rw [Nat.mul_succ] at columns
  rw [Nat.succ_mul] at room
  omega

theorem laid_layout (room : (maskBits + 1) * rows ≤ width) :
    BitRange.Laid width (layout width maskBits rows) := by
  have rowsInside : ∀ row < rows, row < width := by
    intro row inside
    have ends := columns_end room inside
    omega
  refine ⟨fun range member => ?_, List.pairwise_append.mpr ⟨?_, ?_, ?_⟩⟩
  · rcases List.mem_append.mp member with column | sign
    · obtain ⟨row, inside, rfl⟩ := List.mem_map.mp column
      have ends := columns_end room (List.mem_range.mp inside)
      show maskBits * row + maskBits ≤ width
      omega
    · obtain ⟨row, inside, rfl⟩ := List.mem_map.mp sign
      have below := rowsInside row (List.mem_range.mp inside)
      show width - 1 - row + 1 ≤ width
      omega
  · refine List.pairwise_map.mpr (List.pairwise_lt_range.imp fun {row other} before => .inl ?_)
    show maskBits * row + maskBits ≤ maskBits * other
    rw [← Nat.mul_succ]
    exact Nat.mul_le_mul_left _ before
  · refine List.pairwise_map.mpr ?_
    refine List.pairwise_lt_range.imp_of_mem fun {row other} _ member before => .inr ?_
    have below := rowsInside other (List.mem_range.mp member)
    show width - 1 - other + 1 ≤ width - 1 - row
    omega
  · intro column isColumn sign isSign
    obtain ⟨row, inside, rfl⟩ := List.mem_map.mp isColumn
    obtain ⟨other, otherInside, rfl⟩ := List.mem_map.mp isSign
    have ends := columns_end room (List.mem_range.mp inside)
    have below := List.mem_range.mp otherInside
    refine .inl ?_
    show maskBits * row + maskBits ≤ width - 1 - other
    omega

theorem toNat_bit (value : BitVec width) (wide : 1 < width) (place : ℕ) :
    ((BitRange.mk place 1).read value).toNat = (value >>> place).toNat % 2 :=
  BitRange.toNat_read wide value

theorem toNat_and_one (wide : 1 < width) (value : BitVec width) :
    (value &&& BitVec.ofNat width 1).toNat = value.toNat % 2 := by
  rw [BitVec.toNat_and, BitVec.toNat_ofNat, Nat.one_mod_two_pow (by omega), Nat.and_one_is_mod]

end Packed

theorem readsOf_packed64 (value : BitVec 64) {maskBits rows : ℕ} (positive : 1 ≤ rows)
    (room : (maskBits + 1) * rows ≤ 64) : ReadsOf (.packed64 value) value maskBits rows := by
  have shifts : ∀ row < rows, maskBits * row < 64 ∧ row ≤ 64 - 1 := by
    intro row inside
    have ends := columns_end room inside
    omega
  have narrow : maskBits < 64 := by
    have ends := columns_end room positive
    omega
  refine ⟨shifts, fun row inside mask isMask => ?_, fun row inside => ?_, laid_layout room⟩
  · subst isMask
    unfold decodeRow
    simp only
    rw [shiftRight_eq value (shifts row inside).1, Option.map_some, Option.map_some,
      toNat_widened (by decide) _ (by omega), BitRange.toNat_read narrow]
    rfl
  · have amount : minus 63 row = some (63 - row) := minus_of_le (shifts row inside).2
    have shifted : shiftRight value (63 - row) = some (value >>> (63 - row)) :=
      shiftRight_eq value (by omega)
    unfold decodeSign
    simp only [amount, shifted, Option.bind_eq_bind, Option.bind_some]
    refine congrArg (fun bit : ℕ => some ((bit : ℤ) * 2 - 1)) ?_
    exact (toNat_and_one (by decide) _).trans (toNat_bit value (by decide) (63 - row)).symm

theorem readsOf_packed128 (value : BitVec 128) {maskBits rows : ℕ} (positive : 1 ≤ rows)
    (room : (maskBits + 1) * rows ≤ 128) : ReadsOf (.packed128 value) value maskBits rows := by
  have shifts : ∀ row < rows, maskBits * row < 128 ∧ row ≤ 128 - 1 := by
    intro row inside
    have ends := columns_end room inside
    omega
  have narrow : maskBits < 128 := by
    have ends := columns_end room positive
    omega
  refine ⟨shifts, fun row inside mask isMask => ?_, fun row inside => ?_, laid_layout room⟩
  · subst isMask
    unfold decodeRow
    simp only
    rw [shiftRight_eq value (shifts row inside).1, Option.map_some, Option.map_some]
    rfl
  · have amount : minus 127 row = some (127 - row) := minus_of_le (shifts row inside).2
    have shifted : shiftRight value (127 - row) = some (value >>> (127 - row)) :=
      shiftRight_eq value (by omega)
    unfold decodeSign
    simp only [amount, shifted, Option.bind_eq_bind, Option.bind_some]
    refine congrArg (fun bit : ℕ => some ((bit : ℤ) * 2 - 1)) ?_
    exact (toNat_and_one (by decide) _).trans (toNat_bit value (by decide) (127 - row)).symm

/-! ### The result -/

theorem wellDecoded_packed64 (value : BitVec 64) {rows cols : ℕ} (someRow : 1 ≤ rows)
    (someCol : 1 ≤ cols) (narrow : colsMaskBits cols ≤ 63)
    (room : (colsMaskBits cols + 1) * rows ≤ 64) : WellDecoded (.packed64 value) rows cols := by
  have reads := readsOf_packed64 value someRow room
  refine ⟨fun row inside => ?_, fun row inside => ?_, fun other same => ?_, fun other same => ?_⟩
  · refine columns_of_row someCol narrow (congrArg (Option.map _)
      (shiftRight_eq value (reads.shifts row inside).1)) ?_
    exact toNat_widened (by decide) _ (by omega)
  · rw [reads.signs row inside]
    exact congrArg (fun bit : ℕ => some ((bit : ℤ) * 2 - 1)) (toNat_bit value (by decide) _)
  · obtain rfl := MatrixHashType.packed64.inj same
    exact reads
  · cases same

theorem wellDecoded_packed128 (value : BitVec 128) {rows cols : ℕ} (someRow : 1 ≤ rows)
    (someCol : 1 ≤ cols) (narrow : colsMaskBits cols ≤ 63)
    (room : (colsMaskBits cols + 1) * rows ≤ 128) :
    WellDecoded (.packed128 value) rows cols := by
  have reads := readsOf_packed128 value someRow room
  refine ⟨fun row inside => ?_, fun row inside => ?_, fun other same => ?_, fun other same => ?_⟩
  · refine columns_of_row someCol narrow (congrArg (Option.map _)
      (shiftRight_eq value (reads.shifts row inside).1)) ?_
    have fits : (window (colsMaskBits cols) row).length < 128 := by
      show colsMaskBits cols < 128
      omega
    exact BitRange.toNat_read fits value
  · rw [reads.signs row inside]
    exact congrArg (fun bit : ℕ => some ((bit : ℤ) * 2 - 1)) (toNat_bit value (by decide) _)
  · cases same
  · obtain rfl := MatrixHashType.packed128.inj same
    exact reads

theorem wellDecoded_rows (values : List (BitVec 64)) {cols : ℕ} (someCol : 1 ≤ cols)
    (narrow : colsMaskBits cols ≤ 63) : WellDecoded (.rows values) values.length cols := by
  refine ⟨fun row inside => ?_, fun row inside => ?_, fun other same => ?_, fun other same => ?_⟩
  · refine columns_of_row someCol narrow (congrArg (Option.map _)
      (List.getElem?_eq_getElem inside)) ?_
    rw [toNat_widened (by decide) _ (by omega)]
    unfold rowHash
    simp only
    rw [List.getD_eq_getElem _ _ inside]
  · unfold decodeSign signForRow
    simp only
    rw [List.getElem?_eq_getElem inside, List.getD_eq_getElem _ _ inside, Option.map_some]
    exact congrArg (fun bit : ℕ => some ((bit : ℤ) * 2 - 1)) (toNat_and_one (by decide) _)
  · cases same
  · cases same

/-- Whatever the dimensions and the key, the hash of a matrix is decoded without a shift out of the
word into columns of the matrix, and every matrix decodes the same columns with what it cached. In a
packed hash no bit is shared between the columns and the signs of the rows. -/
theorem hash_well_decoded (hasher : SketchHasher) (seedIdx : ℕ) (key : DataInput) {rows cols : ℕ}
    (someRow : 1 ≤ rows) (someCol : 1 ≤ cols) (word : cols ≤ 2 ^ 63) :
    WellDecoded (hashForMatrixSeededWithMode hasher seedIdx (hashModeForMatrix rows cols) rows key)
      rows cols := by
  have narrow := colsMaskBits_lt someCol word
  unfold hashModeForMatrix
  simp only
  split
  next room => exact wellDecoded_packed64 _ someRow someCol narrow room
  next =>
    split
    next room => exact wellDecoded_packed128 _ someRow someCol narrow room
    next =>
      have decoded := wellDecoded_rows ((List.range rows).map fun row =>
        hasher.hash64Seeded ((seedIdx + row) % seedList.length) key) someCol narrow
      rw [List.length_map, List.length_range] at decoded
      exact decoded

/-- One column takes no bits, and 64 rows of it fill a word with their signs. -/
theorem hash_well_decoded_one_column : WellDecoded (hashForMatrixSeededWithMode
    collidingHasher 0 (hashModeForMatrix 64 1) 64 (.u64 7#64)) 64 1 :=
  hash_well_decoded collidingHasher 0 (.u64 7#64) (by decide) (by decide) (by decide)

end MatrixHashType

end AsapSketchlib
