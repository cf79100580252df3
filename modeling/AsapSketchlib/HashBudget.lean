/-
This file follows the bits of the key hash that the layers of UnivMon read. An insert and an
estimate of a layer cut one 128-bit hash into a column field and a sign field for each row: the
column fields grow from the bottom of the hash, the sign fields from its top.

The inserts and estimates are run once more with a log of the fields they read. Where a row needs
one bit for its sign beside the bits of its column, the constructor accepts geometries whose rows
need more than 128 bits together, and there the fields run into each other or off the hash.
-/

import AsapSketchlib.RowNorms
import AsapSketchlib.UnivMonOcto

namespace AsapSketchlib

/-! ### Fields of the hash -/

/-- A field of the key hash: `width` bits, reached by a shift to the right. -/
structure HashField where
  shift : ℤ
  width : ℕ
  deriving DecidableEq

namespace HashField

def bits (field : HashField) : Finset ℤ :=
  (Finset.range field.width).image fun offset : ℕ => field.shift + offset

/-- The field needs no shift of 128 bits or more, and ends inside the hash. -/
def InHash (field : HashField) : Prop :=
  0 ≤ field.shift ∧ field.shift < 128 ∧ field.shift + field.width ≤ 128

/-- Reads a field: the hash is shifted, which wraps around as in a release build, and masked. -/
def read (field : HashField) (hashed : BitVec 128) : BitVec 128 :=
  shiftRight128 hashed (field.shift % 128).toNat &&& ((1#128 <<< field.width) - 1#128)

def column (maskBits row : ℕ) : HashField := ⟨(row * maskBits : ℕ), maskBits⟩

def sign (row : ℕ) : HashField := ⟨127 - row, 1⟩

def ofRow (maskBits row : ℕ) : List HashField := [column maskBits row, sign row]

/-- The fields lie inside the hash, and no two of them share a bit. -/
def WithinBudget (fields : List HashField) : Prop :=
  (∀ field ∈ fields, field.InHash) ∧ fields.Pairwise fun first second =>
    Disjoint first.bits second.bits

/-! ### The budget of a number of rows -/

theorem mem_bits {field : HashField} {position : ℤ} :
    position ∈ field.bits ↔ field.shift ≤ position ∧ position < field.shift + field.width := by
  rw [bits, Finset.mem_image]
  constructor
  · rintro ⟨offset, inside, rfl⟩
    rw [Finset.mem_range] at inside
    exact ⟨by omega, by omega⟩
  · rintro ⟨above, below⟩
    refine ⟨(position - field.shift).toNat, ?_, ?_⟩
    · rw [Finset.mem_range]
      omega
    · show field.shift + ((position - field.shift).toNat : ℤ) = position
      omega

def RowsApart (maskBits row other : ℕ) : Prop :=
  ∀ first ∈ ofRow maskBits row, ∀ second ∈ ofRow maskBits other, Disjoint first.bits second.bits

instance (maskBits : ℕ) : Std.Symm (RowsApart maskBits) :=
  ⟨fun _ _ apart first firstIn second secondIn => (apart second secondIn first firstIn).symm⟩

theorem column_mem (maskBits row : ℕ) : column maskBits row ∈ ofRow maskBits row :=
  List.mem_cons_self

theorem sign_mem (maskBits row : ℕ) : sign row ∈ ofRow maskBits row :=
  List.mem_cons_of_mem _ List.mem_cons_self

theorem withinBudget_flatMap (maskBits rows : ℕ) :
    WithinBudget ((List.range rows).flatMap (ofRow maskBits)) ↔
      (∀ row < rows, (column maskBits row).InHash ∧ (sign row).InHash ∧
        Disjoint (column maskBits row).bits (sign row).bits) ∧
      ∀ row < rows, ∀ other < rows, row ≠ other → RowsApart maskBits row other := by
  rw [WithinBudget, List.pairwise_flatMap]
  constructor
  · rintro ⟨inHash, within, across⟩
    refine ⟨fun row rowIn => ?_, fun row rowIn other otherIn different => ?_⟩
    · have listed := List.mem_range.mpr rowIn
      exact ⟨inHash _ (List.mem_flatMap.mpr ⟨row, listed, column_mem maskBits row⟩),
        inHash _ (List.mem_flatMap.mpr ⟨row, listed, sign_mem maskBits row⟩),
        (List.pairwise_cons.mp (within row listed)).1 _ List.mem_cons_self⟩
    · have apart : (List.range rows).Pairwise (RowsApart maskBits) := across
      exact apart.forall (List.mem_range.mpr rowIn) (List.mem_range.mpr otherIn) different
  · rintro ⟨within, across⟩
    refine ⟨fun field member => ?_, fun row listed => ?_, ?_⟩
    · obtain ⟨row, listed, ofThis⟩ := List.mem_flatMap.mp member
      have ofRow := within row (List.mem_range.mp listed)
      rcases List.mem_pair.mp ofThis with rfl | rfl
      · exact ofRow.1
      · exact ofRow.2.1
    · exact List.pairwise_pair.mpr (within row (List.mem_range.mp listed)).2.2
    · exact List.nodup_range.pairwise_of_forall_ne fun row rowIn other otherIn different =>
        across row (List.mem_range.mp rowIn) other (List.mem_range.mp otherIn) different

theorem disjoint_of_le {first second : HashField}
    (ends : first.shift + first.width ≤ second.shift) : Disjoint first.bits second.bits := by
  refine Finset.disjoint_left.mpr fun position inFirst inSecond => ?_
  exact absurd ((mem_bits.mp inFirst).2.trans_le ends) (not_lt.mpr (mem_bits.mp inSecond).1)

theorem column_below_sign {maskBits rows : ℕ} (room : rows * (maskBits + 1) ≤ 128) {row other : ℕ}
    (rowIn : row < rows) (otherIn : other < rows) :
    ((row * maskBits : ℕ) : ℤ) + maskBits ≤ 127 - other := by
  have columns : (row + 1) * maskBits ≤ rows * maskBits := Nat.mul_le_mul_right maskBits rowIn
  rw [Nat.mul_succ] at room
  rw [Nat.succ_mul] at columns
  omega

theorem columns_disjoint (maskBits : ℕ) {row other : ℕ} (before : row < other) :
    Disjoint (column maskBits row).bits (column maskBits other).bits := by
  have ends : (row + 1) * maskBits ≤ other * maskBits := Nat.mul_le_mul_right maskBits before
  rw [Nat.succ_mul] at ends
  exact disjoint_of_le (show ((row * maskBits : ℕ) : ℤ) + maskBits ≤ (other * maskBits : ℕ) from
    mod_cast ends)

theorem signs_disjoint {row other : ℕ} (before : row < other) :
    Disjoint (sign row).bits (sign other).bits :=
  (disjoint_of_le (show (127 - other : ℤ) + (1 : ℕ) ≤ 127 - row by omega)).symm

/-- The fields of a number of rows stay within the budget exactly when each row has room for its
column bits and its sign bit. -/
theorem withinBudget_iff {maskBits rows : ℕ} (positive : 0 < rows) :
    WithinBudget ((List.range rows).flatMap (ofRow maskBits)) ↔ rows * (maskBits + 1) ≤ 128 := by
  rw [withinBudget_flatMap]
  constructor
  · rintro ⟨within, across⟩
    have lastIn : rows - 1 < rows := Nat.sub_one_lt_of_lt positive
    have lastRow : rows - 1 + 1 = rows := Nat.sub_add_cancel positive
    obtain ⟨⟨-, -, columnEnds⟩, ⟨signStarts, -⟩, -⟩ := within (rows - 1) lastIn
    have columns : ((rows - 1) * maskBits : ℕ) + maskBits = rows * maskBits := by
      rw [← Nat.succ_mul, Nat.succ_eq_add_one, lastRow]
    replace columnEnds : (((rows - 1) * maskBits : ℕ) : ℤ) + maskBits ≤ 128 := columnEnds
    replace signStarts : (0 : ℤ) ≤ 127 - (rows - 1 : ℕ) := signStarts
    rw [Nat.mul_succ]
    refine Nat.le_of_not_lt fun crowded => ?_
    have someColumn : 0 < maskBits := by
      refine Nat.pos_of_ne_zero fun none => ?_
      rw [none, Nat.mul_zero] at crowded
      omega
    -- the last bit of the last column is the sign bit of this row
    have otherIn : 128 - rows * maskBits < rows := by omega
    have inColumn : (rows * maskBits - 1 : ℤ) ∈ (column maskBits (rows - 1)).bits := by
      refine mem_bits.mpr ?_
      show (((rows - 1) * maskBits : ℕ) : ℤ) ≤ _ ∧ _ < (((rows - 1) * maskBits : ℕ) : ℤ) + maskBits
      rw [← Nat.cast_mul]
      omega
    have inSign : (rows * maskBits - 1 : ℤ) ∈ (sign (128 - rows * maskBits)).bits := by
      refine mem_bits.mpr ?_
      show (127 - (128 - rows * maskBits : ℕ) : ℤ) ≤ _ ∧
        _ < (127 - (128 - rows * maskBits : ℕ) : ℤ) + (1 : ℕ)
      rw [← Nat.cast_mul]
      omega
    have apart : Disjoint (column maskBits (rows - 1)).bits (sign (128 - rows * maskBits)).bits := by
      by_cases same : rows - 1 = 128 - rows * maskBits
      · rw [← same]
        exact (within (rows - 1) lastIn).2.2
      · exact across (rows - 1) lastIn _ otherIn same _ (column_mem maskBits _) _
          (sign_mem maskBits _)
    exact Finset.disjoint_left.mp apart inColumn inSign
  · intro room
    have below := fun row rowIn other otherIn =>
      @column_below_sign maskBits rows room row other rowIn otherIn
    have fewRows : rows ≤ 128 := (Nat.le_mul_of_pos_right rows (Nat.succ_pos maskBits)).trans room
    refine ⟨fun row rowIn => ⟨?_, ?_, ?_⟩, fun row rowIn other otherIn different => ?_⟩
    · have ends := below row rowIn row rowIn
      show 0 ≤ ((row * maskBits : ℕ) : ℤ) ∧ ((row * maskBits : ℕ) : ℤ) < 128 ∧
        ((row * maskBits : ℕ) : ℤ) + maskBits ≤ 128
      omega
    · show 0 ≤ (127 - row : ℤ) ∧ (127 - row : ℤ) < 128 ∧ (127 - row : ℤ) + (1 : ℕ) ≤ 128
      omega
    · exact disjoint_of_le (below row rowIn row rowIn)
    · intro first firstIn second secondIn
      rcases List.mem_pair.mp firstIn with rfl | rfl <;>
        rcases List.mem_pair.mp secondIn with rfl | rfl
      · rcases Nat.lt_or_gt_of_ne different with before | after
        · exact columns_disjoint maskBits before
        · exact (columns_disjoint maskBits after).symm
      · exact disjoint_of_le (below row rowIn other otherIn)
      · exact (disjoint_of_le (below other otherIn row rowIn)).symm
      · rcases Nat.lt_or_gt_of_ne different with before | after
        · exact signs_disjoint before
        · exact (signs_disjoint after).symm

end HashField

/-! ### Inserts and estimates with a log -/

/-- `l2hh_cell_for_row`, with the fields it reads. -/
def l2hhCellForRowLogged (hashed : BitVec 128) (row cols maskBits : ℕ) :
    (ℕ × ℤ) × List HashField :=
  let column : HashField := ⟨(row * maskBits : ℕ), maskBits⟩
  let sign : HashField := ⟨127 - row, 1⟩
  (((column.read hashed).toNat % 2 ^ 64 % cols, -(1 - 2 * ((sign.read hashed).toNat : ℤ))),
    [column, sign])

theorem read_sign (hashed : BitVec 128) (row : ℕ) :
    (HashField.sign row).read hashed = shiftRight128 hashed (127 + 127 * row) &&& 1#128 := by
  have amount : (127 - (row : ℤ)) % 128 = ((127 + 127 * row) % 128 : ℕ) := by omega
  have mask : (1#128 <<< 1) - 1#128 = 1#128 := by decide
  show shiftRight128 hashed ((127 - (row : ℤ)) % 128).toNat &&& ((1#128 <<< 1) - 1#128) = _
  rw [amount, mask, Int.toNat_natCast, shiftRight128, shiftRight128, Nat.mod_mod]

theorem read_column (hashed : BitVec 128) (maskBits row : ℕ) :
    (HashField.column maskBits row).read hashed =
      shiftRight128 hashed (row * maskBits) &&& ((1#128 <<< maskBits) - 1#128) := by
  have amount : ((row * maskBits : ℕ) : ℤ) % 128 = (row * maskBits % 128 : ℕ) :=
    (Int.natCast_mod _ _).symm
  show shiftRight128 hashed (((row * maskBits : ℕ) : ℤ) % 128).toNat &&& _ = _
  rw [amount, Int.toNat_natCast, shiftRight128, shiftRight128, Nat.mod_mod]
  rfl

theorem l2hhCellForRowLogged_eq (hashed : BitVec 128) (row cols maskBits : ℕ) :
    l2hhCellForRowLogged hashed row cols maskBits =
      (l2hhCellForRow hashed row cols maskBits, HashField.ofRow maskBits row) := by
  refine Prod.ext (Prod.ext ?_ ?_) rfl
  · exact congrArg (·.toNat % 2 ^ 64 % cols) (read_column hashed maskBits row)
  · exact congrArg (fun bit : BitVec 128 => -(1 - 2 * (bit.toNat : ℤ))) (read_sign hashed row)

namespace CountL2HH

variable (sketch : CountL2HH) (hashed : BitVec 128)

def fields : List HashField :=
  (List.range sketch.counts.rows).flatMap (HashField.ofRow (colsMaskBits sketch.counts.cols))

/-- One turn of the loop of an insert, with the fields read so far. -/
def insertRowLogged (hashed : BitVec 128) (count : ℤ) (logged : CountL2HH × List HashField)
    (row : ℕ) : CountL2HH × List HashField :=
  let cell := l2hhCellForRowLogged hashed row logged.1.counts.cols
    (colsMaskBits logged.1.counts.cols)
  let oldValue := logged.1.counts.queryOneCounter row cell.1.1
  (logged.1.writeCounter row cell.1.1 (oldValue + cell.1.2 * count), logged.2 ++ cell.2)

/-- `fast_insert_with_count_and_hash`, with the fields it reads. -/
def fastInsertLogged (count : ℤ) : CountL2HH × List HashField :=
  (List.range sketch.counts.rows).foldl (insertRowLogged hashed count) (sketch, [])

/-- The loop of `fast_get_est_with_hash` from a row on: the signed counters and the fields read. -/
def estimateLoop : ℕ → ℕ → ℤ → ℤ → List ℚ × List HashField
  | 0, _, _, _ => ([], [])
  | left + 1, i, shiftAmount, signBitPos =>
    let maskBits := colsMaskBits sketch.counts.cols
    let column : HashField := ⟨shiftAmount, maskBits⟩
    let sign : HashField := ⟨signBitPos, 1⟩
    let idx := (column.read hashed).toNat % 2 ^ 64 % sketch.counts.cols
    let signBit := -(1 - 2 * ((sign.read hashed).toNat : ℤ))
    let others := estimateLoop left (i + 1) (shiftAmount + maskBits) (signBitPos - 1)
    (intAsF64 (signBit * sketch.counts.queryOneCounter i idx) :: others.1,
      column :: sign :: others.2)

/-- `fast_get_est_with_hash`, with the fields it reads. -/
def fastGetEstLogged : ℚ × List HashField :=
  let loop := sketch.estimateLoop hashed sketch.counts.rows 0 0 127
  (Median.computeMedianInline meanF64 0 loop.1, loop.2)

theorem insertRowLogged_eq (count : ℤ) (log : List HashField) (row : ℕ) :
    insertRowLogged hashed count (sketch, log) row = (sketch.insertRow hashed count row,
      log ++ HashField.ofRow (colsMaskBits sketch.counts.cols) row) := by
  rw [insertRowLogged]
  simp only [l2hhCellForRowLogged_eq]
  rfl

theorem foldl_insertRowLogged (count : ℤ) (rows : List ℕ) (log : List HashField) :
    rows.foldl (insertRowLogged hashed count) (sketch, log) =
      (rows.foldl (insertRow hashed count) sketch,
        log ++ rows.flatMap (HashField.ofRow (colsMaskBits sketch.counts.cols))) := by
  induction rows generalizing sketch log with
  | nil => exact congrArg _ (List.append_nil log).symm
  | cons row others hypothesis =>
    rw [List.foldl_cons, List.foldl_cons, List.flatMap_cons, ← List.append_assoc,
      insertRowLogged_eq]
    exact hypothesis (sketch.insertRow hashed count row) _

theorem fastInsertLogged_eq (count : ℤ) : sketch.fastInsertLogged hashed count =
    (sketch.fastInsertWithCountAndHash hashed count, sketch.fields) :=
  sketch.foldl_insertRowLogged hashed count _ []

theorem estimateLoop_eq (left i : ℕ) :
    sketch.estimateLoop hashed left i ((i * colsMaskBits sketch.counts.cols : ℕ) : ℤ) (127 - i) =
      ((List.range' i left).map fun row => intAsF64 ((sketch.cellForRow hashed row).2 *
          sketch.counts.queryOneCounter row (sketch.cellForRow hashed row).1),
        (List.range' i left).flatMap (HashField.ofRow (colsMaskBits sketch.counts.cols))) := by
  induction left generalizing i with
  | zero => rfl
  | succ left hypothesis =>
    have shifted : ((i * colsMaskBits sketch.counts.cols : ℕ) : ℤ) +
        colsMaskBits sketch.counts.cols = ((i + 1) * colsMaskBits sketch.counts.cols : ℕ) := by
      rw [Nat.succ_mul, Nat.cast_add]
    have lowered : (127 - i : ℤ) - 1 = 127 - (i + 1 : ℕ) := by
      rw [Nat.cast_succ, sub_sub]
    have cell : sketch.cellForRow hashed i = (l2hhCellForRowLogged hashed i sketch.counts.cols
        (colsMaskBits sketch.counts.cols)).1 :=
      (congrArg Prod.fst (l2hhCellForRowLogged_eq hashed i _ _)).symm
    rw [estimateLoop]
    simp only [shifted, lowered, hypothesis (i + 1)]
    rw [List.range'_succ, List.map_cons, List.flatMap_cons, cell]
    rfl

theorem fastGetEstLogged_eq : sketch.fastGetEstLogged hashed =
    (sketch.fastGetEstWithHash hashed, sketch.fields) := by
  have loop := sketch.estimateLoop_eq hashed sketch.counts.rows 0
  rw [Nat.zero_mul, ← List.range_eq_range'] at loop
  exact congrArg (fun read => (Median.computeMedianInline meanF64 0 read.1, read.2)) loop

end CountL2HH

/-! ### Every layer of a pyramid -/

namespace CountL2HH

def Shaped (rows cols : ℕ) (sketch : CountL2HH) : Prop :=
  sketch.counts.rows = rows ∧ sketch.counts.cols = cols

variable {rows cols : ℕ} {sketch : CountL2HH}

theorem Shaped.fastInsert (shaped : sketch.Shaped rows cols) (hashed : BitVec 128) (count : ℤ) :
    (sketch.fastInsertWithCountAndHash hashed count).Shaped rows cols := by
  rw [fastInsertWithCountAndHash_eq]
  induction List.range sketch.counts.rows generalizing sketch with
  | nil => exact shaped
  | cons row others hypothesis =>
    have written : (sketch.insertRow hashed count row).Shaped rows cols := shaped
    exact hypothesis written

theorem Shaped.fields_eq (shaped : sketch.Shaped rows cols) :
    sketch.fields = (List.range rows).flatMap (HashField.ofRow (colsMaskBits cols)) := by
  rw [fields, shaped.1, shaped.2]

end CountL2HH

namespace UnivMon

/-- The pyramids that calls build from those the constructor accepts. -/
inductive Reached (xxh : XxHash3) : UnivMon → Prop
  | init {heapSize sketchRow sketchCol layerSize : ℕ} {mon : UnivMon}
      (accepted : initUnivmon heapSize sketchRow sketchCol layerSize = some mon) : Reached xxh mon
  | insert {before after : UnivMon} (reached : Reached xxh before) (key : DataInput) (value : ℤ)
      (inserted : before.insert xxh key value = some after) : Reached xxh after
  | fastInsert {before after : UnivMon} (reached : Reached xxh before) (key : DataInput) (value : ℤ)
      (inserted : before.fastInsert xxh key value = some after) : Reached xxh after
  | merge {before other after : UnivMon} (reached : Reached xxh before)
      (otherReached : Reached xxh other) (tables : ℕ → HashTable HeapItem HeapItem.eqItem)
      (merged : before.merge xxh tables other = some after) : Reached xxh after
  | applyLayeredDelta {before after : UnivMon} (reached : Reached xxh before)
      (delta : LayeredCountDelta) (fidelity : UnivMonDeltaFidelity)
      (applied : before.applyLayeredDelta xxh delta fidelity = some after) : Reached xxh after
  | markLayerCandidatesIncomplete {before : UnivMon} (reached : Reached xxh before) (layer : ℕ) :
      Reached xxh (before.markLayerCandidatesIncomplete layer)
  | setTotalWeight {before : UnivMon} (reached : Reached xxh before) (weight : ℕ) :
      Reached xxh (before.setTotalWeight weight)
  | free {before : UnivMon} (reached : Reached xxh before) : Reached xxh before.free

/-- Every layer has the dimensions of the pyramid, and at least one row. -/
structure Shaped (mon : UnivMon) : Prop where
  positive : 0 < mon.layout.sketchRow
  layers : ∀ layer ∈ mon.layers, layer.l2Sketch.Shaped mon.layout.sketchRow mon.layout.sketchCol

variable {xxh : XxHash3}

theorem shaped_init {heapSize sketchRow sketchCol layerSize : ℕ} {mon : UnivMon}
    (accepted : initUnivmon heapSize sketchRow sketchCol layerSize = some mon) :
    mon.Shaped ∧ mon.layout = ⟨sketchRow, sketchCol⟩ := by
  unfold initUnivmon LayeredMon.create at accepted
  split at accepted
  · rename_i valid
    cases Option.some.inj accepted
    refine ⟨⟨(of_decide_eq_true valid.2.1).1, fun layer member => ?_⟩, rfl⟩
    obtain ⟨i, -, rfl⟩ := List.mem_map.mp member
    exact ⟨rfl, rfl⟩
  · exact absurd accepted (Option.some_ne_none mon).symm

theorem Shaped.of_layers {before after : UnivMon} (shaped : before.Shaped)
    (sameLayout : after.layout = before.layout)
    (layers : ∀ layer ∈ after.layers, ∃ old ∈ before.layers, ∀ rows cols,
      old.l2Sketch.Shaped rows cols → layer.l2Sketch.Shaped rows cols) : after.Shaped := by
  refine ⟨sameLayout ▸ shaped.positive, fun layer member => ?_⟩
  obtain ⟨old, oldIn, keeps⟩ := layers layer member
  rw [sameLayout]
  exact keeps _ _ (shaped.layers old oldIn)

theorem beginUpdate_layout {before begun : UnivMon} {value : ℤ} {mode : UpdateMode}
    (began : before.beginUpdate value mode = some begun) : begun.layout = before.layout := by
  unfold LayeredMon.beginUpdate at began
  split at began
  · exact absurd began (Option.some_ne_none begun).symm
  · split at began
    · exact absurd began (Option.some_ne_none begun).symm
    · split at began
      · exact absurd began (Option.some_ne_none begun).symm
      · cases Option.some.inj began
        rfl

theorem Shaped.updated {before after : UnivMon} (shaped : before.Shaped) {mode : UpdateMode}
    {key : DataInput} {value : ℤ} (sameLayout : after.layout = before.layout)
    (updated : LayeredMon.Updated xxh mode before after key value) : after.Shaped := by
  refine shaped.of_layers sameLayout fun layer member => ?_
  obtain ⟨i, found⟩ := List.mem_iff_getElem?.mp member
  rw [updated.layers i] at found
  obtain ⟨old, oldAt, rfl⟩ := Option.map_eq_some_iff.mp found
  refine ⟨old, List.mem_of_getElem? oldAt, fun rows cols oldShaped => ?_⟩
  split
  · exact oldShaped.fastInsert _ value
  · exact oldShaped

theorem Shaped.modified {before after : UnivMon} (shaped : before.Shaped)
    (sameLayout : after.layout = before.layout) (place : ℕ) (change : MonLayer → MonLayer)
    (changed : after.layers = before.layers.modify place change)
    (keeps : ∀ layer rows cols, layer.l2Sketch.Shaped rows cols →
      (change layer).l2Sketch.Shaped rows cols) : after.Shaped := by
  refine shaped.of_layers sameLayout fun layer member => ?_
  rw [changed] at member
  obtain ⟨i, found⟩ := List.mem_iff_getElem?.mp member
  rw [List.getElem?_modify] at found
  obtain ⟨old, oldAt, rfl⟩ := Option.map_eq_some_iff.mp found
  refine ⟨old, List.mem_of_getElem? oldAt, fun rows cols oldShaped => ?_⟩
  split
  · exact keeps old rows cols oldShaped
  · exact oldShaped

/-- Every layer of a pyramid keeps the dimensions the constructor gave it. -/
theorem reached_shaped {mon : UnivMon} (reached : Reached xxh mon) : mon.Shaped := by
  induction reached with
  | init accepted => exact (shaped_init accepted).1
  | insert _ key value inserted shaped =>
    obtain ⟨begun, began, rfl⟩ := Option.map_eq_some_iff.mp inserted
    have sameLayout := beginUpdate_layout began
    exact shaped.updated sameLayout (LayeredMon.insert_spec inserted)
  | fastInsert _ key value inserted shaped =>
    obtain ⟨begun, began, rfl⟩ := Option.map_eq_some_iff.mp inserted
    have sameLayout := beginUpdate_layout began
    exact shaped.updated sameLayout (LayeredMon.fastInsert_spec inserted)
  | merge _ _ tables merged shaped _ =>
    rename_i before other after _ _ _
    have sameLayout : after.layout = before.layout := by
      unfold LayeredMon.merge at merged
      split at merged
      · obtain ⟨mode, -, guarded⟩ := Option.bind_eq_some_iff.mp merged
        split at guarded
        · exact absurd guarded (Option.some_ne_none after).symm
        · cases Option.some.inj guarded
          rfl
      · exact absurd merged (Option.some_ne_none after).symm
    refine shaped.of_layers sameLayout fun layer member => ?_
    rw [(LayeredMon.merge_spec merged).2.2.2] at member
    obtain ⟨i, found⟩ := List.mem_iff_getElem?.mp member
    rw [List.getElem?_mapIdx] at found
    obtain ⟨pair, pairAt, rfl⟩ := Option.map_eq_some_iff.mp found
    exact ⟨pair.1, (List.of_mem_zip (List.mem_of_getElem? pairAt)).1, fun _ _ => id⟩
  | applyLayeredDelta _ delta fidelity applied shaped =>
    unfold LayeredMon.applyLayeredDelta at applied
    split at applied
    · cases Option.some.inj applied
      exact shaped.modified rfl delta.layer _ rfl fun _ _ _ => id
    · exact absurd applied (Option.some_ne_none _).symm
  | markLayerCandidatesIncomplete _ layer shaped =>
    exact shaped.modified rfl layer _ rfl fun _ _ _ => id
  | setTotalWeight _ weight shaped => exact ⟨shaped.positive, shaped.layers⟩
  | free _ shaped =>
    refine shaped.of_layers rfl fun layer member => ?_
    obtain ⟨old, oldIn, rfl⟩ := List.mem_map.mp member
    exact ⟨old, oldIn, fun _ _ => id⟩

/-- Inserts and estimates of a layer read fields inside the hash that share no bit exactly when
each row of the pyramid has room in the hash for its column bits and its sign bit. -/
theorem hash_budget_iff {mon : UnivMon} (reached : Reached xxh mon) {layer : MonLayer}
    (member : layer ∈ mon.layers) (hashed : BitVec 128) (count : ℤ) :
    (HashField.WithinBudget (layer.l2Sketch.fastInsertLogged hashed count).2 ∧
      HashField.WithinBudget (layer.l2Sketch.fastGetEstLogged hashed).2) ↔
    mon.layout.sketchRow * (colsMaskBits mon.layout.sketchCol + 1) ≤ 128 := by
  have shaped := reached_shaped reached
  rw [CountL2HH.fastInsertLogged_eq, CountL2HH.fastGetEstLogged_eq,
    (shaped.layers layer member).fields_eq, and_self, HashField.withinBudget_iff shaped.positive]

/-- The default pyramid spends 60 bits of the hash. -/
theorem hash_budget_default :
    ∃ mon, initUnivmon 32 5 2048 8 = some mon ∧ ∃ layer ∈ mon.layers, ∀ hashed count,
      HashField.WithinBudget (layer.l2Sketch.fastInsertLogged hashed count).2 ∧
        HashField.WithinBudget (layer.l2Sketch.fastGetEstLogged hashed).2 := by
  refine ⟨_, rfl, _, List.mem_cons_self, fun hashed count => ?_⟩
  exact (hash_budget_iff (@Reached.init plainXxHash 32 5 2048 8 _ rfl) List.mem_cons_self hashed
    count).mpr (by decide)

/-- The constructor accepts twelve rows of 4096 columns. Inserts and estimates shift by 132 bits
for the column of the last row, and the columns of rows nine and ten hold sign bits. -/
theorem hash_budget_exceeded :
    ∃ mon, initUnivmon 32 12 4096 8 = some mon ∧ ∃ layer ∈ mon.layers, ∀ hashed count,
      (⟨132, 12⟩ ∈ (layer.l2Sketch.fastInsertLogged hashed count).2 ∧
        ⟨132, 12⟩ ∈ (layer.l2Sketch.fastGetEstLogged hashed).2) ∧
      ¬HashField.WithinBudget (layer.l2Sketch.fastInsertLogged hashed count).2 ∧
      ¬HashField.WithinBudget (layer.l2Sketch.fastGetEstLogged hashed).2 := by
  refine ⟨_, rfl, _, List.mem_cons_self, fun hashed count => ?_⟩
  have fields : (CountL2HH.withDimensionsAndSeed 12 4096 0).fields =
      (List.range 12).flatMap (HashField.ofRow (colsMaskBits 4096)) := rfl
  have shifted : (⟨132, 12⟩ : HashField) ∈ (CountL2HH.withDimensionsAndSeed 12 4096 0).fields := by
    rw [fields]
    decide
  have exceeded : ¬HashField.WithinBudget (CountL2HH.withDimensionsAndSeed 12 4096 0).fields := by
    rw [fields, HashField.withinBudget_iff (Nat.succ_pos 11)]
    decide
  rw [CountL2HH.fastInsertLogged_eq, CountL2HH.fastGetEstLogged_eq]
  exact ⟨⟨shifted, shifted⟩, exceeded, exceeded⟩

end UnivMon

end AsapSketchlib
