/-
This file shows when the portable Count Sketch, HyperLogLog and HydraKLL fail closed: from which
sketches no call panics, and which merges leave their receiver as it was when they fail. Their
constructors and decoders let others pass.
-/

import AsapSketchlib.PortableCalls
import AsapSketchlib.PortableMatrixDeltas

namespace AsapSketchlib

/-! ### Rows of one word -/

namespace MatrixHashType

theorem decodeCol_packed64 (value : BitVec 64) {row cols : ℕ} (narrow : colsMaskBits cols ≤ 64)
    (inside : colsMaskBits cols * row < 64) :
    decodeCol (packed64 value) row cols = some ((packed64 value).colForRow row cols) := by
  have mask : colsMask cols = some (BitRange.lowMask 128 (colsMaskBits cols)) :=
    if_pos (narrow.trans_lt (by decide))
  have bits := toNat_widened (by decide) (value >>> (colsMaskBits cols * row))
    (narrow.trans_lt (by decide))
  have fits : ((value >>> (colsMaskBits cols * row)).setWidth 128 &&&
      BitRange.lowMask 128 (colsMaskBits cols)).toNat < 2 ^ 64 := by
    rw [bits]
    exact (Nat.mod_lt _ (Nat.two_pow_pos _)).trans_le (Nat.pow_le_pow_right (by decide) narrow)
  unfold decodeCol
  simp only [mask, decodeRow, shiftRight_eq value inside, Option.bind_eq_bind, Option.bind_some,
    Option.map_some]
  refine congrArg some ?_
  unfold foldBits
  rw [Nat.mod_eq_of_lt fits, bits]
  rfl

theorem lt_of_decodeCol {value : BitVec 64} {row cols col : ℕ}
    (decoded : decodeCol (packed64 value) row cols = some col) : colsMaskBits cols * row < 64 := by
  by_contra outside
  have none : ∀ mask, decodeRow (packed64 value) row (colsMaskBits cols) mask = none := fun mask =>
    congrArg (Option.map _) (if_neg outside)
  unfold decodeCol at decoded
  simp only [none, Option.bind_eq_bind, Option.bind_none, Option.bind_eq_some_iff] at decoded
  obtain ⟨_, _, stopped⟩ := decoded
  cases stopped

theorem exists_decodeSign (value : BitVec 64) {row : ℕ} (inside : row ≤ 63) :
    ∃ sign, decodeSign (packed64 value) row = some sign := by
  unfold decodeSign
  simp only [minus_of_le inside, shiftRight_eq value (Nat.lt_succ_of_le (Nat.sub_le 63 row)),
    Option.bind_eq_bind, Option.bind_some]
  exact ⟨_, rfl⟩

theorem le_of_decodeSign {value : BitVec 64} {row : ℕ} {sign : ℤ}
    (decoded : decodeSign (packed64 value) row = some sign) : row ≤ 63 := by
  by_contra outside
  have none : minus 63 row = none := if_neg outside
  unfold decodeSign at decoded
  simp only [none, Option.bind_eq_bind, Option.bind_none] at decoded
  cases decoded

end MatrixHashType

namespace Portable

/-! ### Count Sketch -/

def HasCells (rows cols : ℕ) (matrix : List (List F64)) : Prop :=
  ∀ row < rows, ∀ col < cols, (cellAt matrix row col).isSome

theorem HasCells.exists_addAt {rows cols row col : ℕ} {matrix : List (List F64)}
    (cells : HasCells rows cols matrix) (rowInside : row < rows) (colInside : col < cols)
    (value : F64) :
    ∃ added, addAt matrix row col value = some added ∧ HasCells rows cols added := by
  obtain ⟨cell, found⟩ := Option.isSome_iff_exists.mp (cells row rowInside col colInside)
  obtain ⟨added, addition⟩ : ∃ added, addAt matrix row col value = some added :=
    ⟨_, congrArg (Option.map _) found⟩
  refine ⟨added, addition, fun r rInside c cInside => ?_⟩
  rw [cellAt_addAt addition, Option.isSome_map]
  exact cells r rInside c cInside

theorem hasCells_replicate (rows cols : ℕ) :
    HasCells rows cols (List.replicate rows (List.replicate cols F64.zero)) := by
  intro row rowInside col colInside
  unfold cellAt
  rw [List.getElem?_replicate_of_lt rowInside, Option.bind_some,
    List.getElem?_replicate_of_lt colInside]
  rfl

namespace CountSketch

/-- The word has bits for the columns and the signs of all rows, and the matrix all cells. -/
structure Sound (sketch : CountSketch) : Prop where
  signs : sketch.rows ≤ 64
  columns : ∀ row < sketch.rows, colsMaskBits sketch.cols * row < 64
  cells : HasCells sketch.rows sketch.cols sketch.matrix

/-- A sketch that has no rows or no columns, or is sound. -/
def Usable (sketch : CountSketch) : Prop := sketch.rows = 0 ∨ sketch.cols = 0 ∨ sketch.Sound

def Allowed (_sketch : CountSketch) : Call → Prop
  | .merge other => other.Usable
  | _ => True

variable (hash64 : String → BitVec 64) {sketch : CountSketch}

theorem Usable.of_cells (usable : sketch.Usable) {other : CountSketch}
    (rows : other.rows = sketch.rows) (cols : other.cols = sketch.cols)
    (kept : HasCells sketch.rows sketch.cols sketch.matrix →
      HasCells sketch.rows sketch.cols other.matrix) : other.Usable := by
  rcases usable with noRows | noCols | sound
  · exact .inl (rows.trans noRows)
  · exact .inr (.inl (cols.trans noCols))
  · refine .inr (.inr ⟨rows.trans_le sound.signs, ?_, ?_⟩)
    · rw [rows, cols]
      exact sound.columns
    · rw [rows, cols]
      exact kept sound.cells

theorem Usable.sound (usable : sketch.Usable) (places : ¬(sketch.rows = 0 ∨ sketch.cols = 0)) :
    sketch.Sound :=
  (or_assoc.mpr usable).resolve_left places

theorem Usable.hasCells (usable : sketch.Usable) :
    HasCells sketch.rows sketch.cols sketch.matrix := by
  rcases usable with noRows | noCols | sound
  · intro row inside
    exact absurd (noRows ▸ inside) (Nat.not_lt_zero row)
  · intro row _ col inside
    exact absurd (noCols ▸ inside) (Nat.not_lt_zero col)
  · exact sound.cells

theorem colsMaskBits_le {cols : ℕ} (word : cols < 2 ^ 64) : colsMaskBits cols ≤ 64 := by
  by_cases none : cols = 0
  · rw [none]
    decide
  have log : 2 ^ Nat.log2 cols ≤ cols := Nat.log2_self_le none
  have short : Nat.log2 cols < 64 :=
    (Nat.pow_lt_pow_iff_right (by decide)).mp (log.trans_lt word)
  unfold colsMaskBits
  split <;> omega

variable (sound : sketch.Sound) (word : sketch.cols < 2 ^ 64) (someCol : sketch.cols ≠ 0)
  (value : BitVec 64)

include sound word someCol

theorem Sound.exists_updateRow (weight : F64) {row : ℕ} (inside : row < sketch.rows)
    {matrix : List (List F64)} (cells : HasCells sketch.rows sketch.cols matrix) :
    ∃ next, updateRow (.packed64 value) sketch.cols weight matrix row = some next ∧
      HasCells sketch.rows sketch.cols next := by
  have col := MatrixHashType.decodeCol_packed64 value (colsMaskBits_le word)
    (sound.columns row inside)
  obtain ⟨sign, signed⟩ := MatrixHashType.exists_decodeSign value
    (Nat.le_of_lt_succ (inside.trans_le sound.signs))
  unfold updateRow
  simp only [col, signed, Option.bind_eq_bind, Option.bind_some]
  exact cells.exists_addAt inside
    (MatrixHashType.colForRow_lt _ row (Nat.pos_of_ne_zero someCol)) _

theorem Sound.exists_estimateRow {row : ℕ} (inside : row < sketch.rows) :
    ∃ estimate, sketch.estimateRow (.packed64 value) row = some estimate := by
  have col := MatrixHashType.decodeCol_packed64 value (colsMaskBits_le word)
    (sound.columns row inside)
  obtain ⟨sign, signed⟩ := MatrixHashType.exists_decodeSign value
    (Nat.le_of_lt_succ (inside.trans_le sound.signs))
  obtain ⟨cell, found⟩ := Option.isSome_iff_exists.mp (sound.cells row inside _
    (MatrixHashType.colForRow_lt (.packed64 value) row (Nat.pos_of_ne_zero someCol)))
  unfold estimateRow
  simp only [col, signed, found, Option.bind_eq_bind, Option.bind_some]
  exact ⟨_, rfl⟩

end CountSketch

theorem exists_middle {values : List F64} (some : values ≠ []) :
    ∃ low high, values[values.length / 2 - 1]? = Option.some low ∧
      values[values.length / 2]? = Option.some high := by
  have inside : values.length / 2 < values.length :=
    Nat.div_lt_self (List.length_pos_iff.mpr some) (by decide)
  exact ⟨_, _, List.getElem?_eq_getElem (Nat.lt_of_le_of_lt (Nat.sub_le _ 1) inside),
    List.getElem?_eq_getElem inside⟩

theorem mergeSort_ne_nil {values : List F64} (some : values ≠ []) (order : F64 → F64 → Bool) :
    values.mergeSort order ≠ [] := by
  intro none
  have perm := List.mergeSort_perm values order
  rw [none] at perm
  exact some (List.nil_perm.mp perm)

namespace CountSketch

variable (hash64 : String → BitVec 64) {sketch : CountSketch}

theorem Usable.exists_update (usable : sketch.Usable) (word : sketch.cols < 2 ^ 64) (key : String)
    (value : F64) : ∃ matrix, HasCells sketch.rows sketch.cols matrix ∧
      update hash64 sketch key value = ({ sketch with matrix := matrix }, .ok) := by
  unfold update
  by_cases empty : sketch.rows = 0 ∨ sketch.cols = 0
  · rw [if_pos empty]
    exact ⟨sketch.matrix, usable.hasCells, rfl⟩
  have sound := usable.sound empty
  have someCol : sketch.cols ≠ 0 := fun none => empty (.inr none)
  obtain ⟨matrix, folded, cells⟩ := exists_foldlM
    (fun row member matrix kept => sound.exists_updateRow word someCol (hash64 key) value
      (List.mem_range.mp member) kept) sound.cells
  refine ⟨matrix, cells, ?_⟩
  rw [if_neg empty]
  simp only [folded, Option.map_some]
  rfl

theorem Usable.exists_estimate (usable : sketch.Usable) (word : sketch.cols < 2 ^ 64)
    (key : String) : ∃ estimate, estimateOrPanic hash64 sketch key = some estimate := by
  unfold estimateOrPanic
  by_cases empty : sketch.rows = 0 ∨ sketch.cols = 0
  · exact ⟨F64.zero, if_pos empty⟩
  have sound := usable.sound empty
  have someCol : sketch.cols ≠ 0 := fun none => empty (.inr none)
  have someRow : sketch.rows ≠ 0 := fun none => empty (.inl none)
  obtain ⟨estimates, read⟩ := exists_mapM fun row member =>
    sound.exists_estimateRow word someCol (hash64 key) (List.mem_range.mp member)
  have length := length_of_mapM read
  rw [List.length_range] at length
  have some : estimates ≠ [] := by
    rintro rfl
    exact someRow length.symm
  rw [if_neg empty]
  simp only [read, Option.bind_eq_bind, Option.bind_some]
  obtain ⟨low, high, lowRead, highRead⟩ := exists_middle (mergeSort_ne_nil some _)
  rw [lowRead, highRead]
  split
  · exact ⟨high, rfl⟩
  · exact ⟨_, rfl⟩

theorem addCells_of_hasCells (cells : List (ℕ × ℕ × ℤ)) (sketch : CountSketch)
    (held : HasCells sketch.rows sketch.cols sketch.matrix) :
    (sketch.addCells cells).2 ≠ .panicked ∧ ∃ matrix, HasCells sketch.rows sketch.cols matrix ∧
      (sketch.addCells cells).1 = { sketch with matrix := matrix } := by
  induction cells generalizing sketch with
  | nil => exact ⟨Returned.noConfusion, sketch.matrix, held, rfl⟩
  | cons cell rest hypothesis =>
    obtain ⟨r, c, dCount⟩ := cell
    rw [addCells]
    by_cases outside : sketch.rows ≤ r ∨ sketch.cols ≤ c
    · rw [if_pos outside]
      exact ⟨Returned.noConfusion, sketch.matrix, held, rfl⟩
    · obtain ⟨rowInside, colInside⟩ := not_or.mp outside
      obtain ⟨added, addition, kept⟩ := held.exists_addAt (Nat.lt_of_not_le rowInside)
        (Nat.lt_of_not_le colInside) (F64.ofInt dCount)
      rw [if_neg outside]
      simp only [addition]
      obtain ⟨runs, matrix, last, same⟩ := hypothesis { sketch with matrix := added } kept
      exact ⟨runs, matrix, last, same⟩

theorem topkUpdate_matrix (sketch : CountSketch) (key : String) (count : F64) :
    (sketch.topkUpdate key count).rows = sketch.rows ∧
      (sketch.topkUpdate key count).cols = sketch.cols ∧
        (sketch.topkUpdate key count).matrix = sketch.matrix := by
  unfold topkUpdate
  split
  · exact ⟨rfl, rfl, rfl⟩
  · split
    · exact ⟨rfl, rfl, rfl⟩
    · split
      · split <;> exact ⟨rfl, rfl, rfl⟩
      · exact ⟨rfl, rfl, rfl⟩

theorem rebuildTopkOrPanic_of_usable (keys : List String) (sketch : CountSketch)
    (usable : sketch.Usable) (word : sketch.cols < 2 ^ 64) :
    (rebuildTopkOrPanic hash64 sketch keys).2 ≠ .panicked ∧
      (rebuildTopkOrPanic hash64 sketch keys).1.rows = sketch.rows ∧
        (rebuildTopkOrPanic hash64 sketch keys).1.cols = sketch.cols ∧
          (rebuildTopkOrPanic hash64 sketch keys).1.matrix = sketch.matrix := by
  induction keys generalizing sketch with
  | nil => exact ⟨Returned.noConfusion, rfl, rfl, rfl⟩
  | cons key rest hypothesis =>
    obtain ⟨est, estimated⟩ := usable.exists_estimate hash64 word key
    obtain ⟨rows, cols, matrix⟩ := sketch.topkUpdate_matrix key est
    have kept : (sketch.topkUpdate key est).Usable := usable.of_cells rows cols fun cells => by
      rwa [matrix]
    obtain ⟨runs, rows', cols', matrix'⟩ := hypothesis _ kept (cols.trans_lt word)
    rw [rebuildTopkOrPanic]
    simp only [estimated]
    exact ⟨runs, rows'.trans rows, cols'.trans cols, matrix'.trans matrix⟩

theorem merge_of_usable (usable : sketch.Usable) {other : CountSketch}
    (otherUsable : other.Usable) :
    (sketch.merge other).2 ≠ .panicked ∧ ∃ matrix, HasCells sketch.rows sketch.cols matrix ∧
      (sketch.merge other).1 = { sketch with matrix := matrix } := by
  unfold merge
  by_cases mismatch : sketch.rows ≠ other.rows ∨ sketch.cols ≠ other.cols
  · simp only [if_pos mismatch]
    exact ⟨Returned.noConfusion, sketch.matrix, usable.hasCells, rfl⟩
  obtain ⟨rows, cols⟩ := not_or.mp mismatch
  rw [not_not] at rows cols
  obtain ⟨matrix, folded, cells⟩ := @exists_foldlM (List (List F64)) (ℕ × ℕ)
    (fun matrix place => (cellAt other.matrix place.1 place.2).bind (addAt matrix place.1 place.2))
    (HasCells sketch.rows sketch.cols) (places sketch.rows sketch.cols)
    (fun place member matrix kept => by
      obtain ⟨rowInside, colInside⟩ := mem_places_iff.mp member
      obtain ⟨cell, found⟩ := Option.isSome_iff_exists.mp
        (otherUsable.hasCells place.1 (rows ▸ rowInside) place.2 (cols ▸ colInside))
      obtain ⟨added, addition, held⟩ := kept.exists_addAt rowInside colInside cell
      exact ⟨added, by rw [found]; exact addition, held⟩) sketch.matrix usable.hasCells
  simp only [if_neg mismatch, folded]
  exact ⟨Returned.noConfusion, matrix, cells, rfl⟩

/-- A usable sketch ends every allowed call well, and stays usable. -/
theorem step_of_usable (usable : sketch.Usable) (word : sketch.cols < 2 ^ 64) {call : Call}
    (allowed : sketch.Allowed call) :
    (step hash64 sketch call).2 ≠ .panicked ∧
      (call.IsMerge → ∀ message, (step hash64 sketch call).2 = .err message →
        (step hash64 sketch call).1 = sketch) ∧
      (step hash64 sketch call).1.Usable ∧ (step hash64 sketch call).1.cols < 2 ^ 64 := by
  cases call with
  | update key value =>
    obtain ⟨matrix, cells, ran⟩ := usable.exists_update hash64 word key value
    have same : step hash64 sketch (.update key value) = ({ sketch with matrix := matrix }, .ok) :=
      ran
    rw [same]
    exact ⟨Returned.noConfusion, False.elim, usable.of_cells rfl rfl fun _ => cells, word⟩
  | estimate key =>
    obtain ⟨estimate, estimated⟩ := usable.exists_estimate hash64 word key
    have same : step hash64 sketch (.estimate key) = (sketch, .ok) := by
      unfold step answered
      simp only [estimated]
      rfl
    rw [same]
    exact ⟨Returned.noConfusion, False.elim, usable, word⟩
  | merge other =>
    obtain ⟨runs, matrix, cells, next⟩ := merge_of_usable usable allowed
    refine ⟨runs, fun _ message rejected => ?_, ?_⟩
    · exact merge_err (Prod.ext rfl rejected)
    · show (sketch.merge other).1.Usable ∧ (sketch.merge other).1.cols < 2 ^ 64
      rw [next]
      exact ⟨usable.of_cells rfl rfl fun _ => cells, word⟩
  | applyDelta delta =>
    obtain ⟨runs, matrix, cells, next⟩ := addCells_of_hasCells delta.cells sketch usable.hasCells
    have kept : (sketch.addCells delta.cells).1.Usable := by
      rw [next]
      exact usable.of_cells rfl rfl fun _ => cells
    have narrow : (sketch.addCells delta.cells).1.cols < 2 ^ 64 := by
      rw [next]
      exact word
    obtain ⟨rebuilt, rows, cols, matrix'⟩ :=
      rebuildTopkOrPanic_of_usable hash64 delta.hhKeys _ kept narrow
    show (applyDeltaOrPanic hash64 sketch delta).2 ≠ .panicked ∧
      (False → _) ∧ (applyDeltaOrPanic hash64 sketch delta).1.Usable ∧
        (applyDeltaOrPanic hash64 sketch delta).1.cols < 2 ^ 64
    unfold applyDeltaOrPanic
    generalize sketch.addCells delta.cells = added at runs kept narrow rebuilt rows cols matrix'
    obtain ⟨after, returned⟩ := added
    cases returned with
    | ok => exact ⟨rebuilt, False.elim, kept.of_cells rows cols fun held => by rwa [matrix'],
        cols.trans_lt narrow⟩
    | err message => exact ⟨Returned.noConfusion, False.elim, kept, narrow⟩
    | panicked => exact absurd rfl runs

theorem budget_of_update {key : String} {value : F64}
    (some : ¬(sketch.rows = 0 ∨ sketch.cols = 0))
    (runs : (update hash64 sketch key value).2 ≠ .panicked) :
    sketch.rows ≤ 64 ∧ ∀ row < sketch.rows, colsMaskBits sketch.cols * row < 64 := by
  unfold update at runs
  simp only [if_neg some] at runs
  cases folded : (List.range sketch.rows).foldlM
      (updateRow (.packed64 (hash64 key)) sketch.cols value) sketch.matrix with
  | none =>
    rw [folded] at runs
    exact absurd rfl runs
  | some matrix =>
    have each := (@of_foldlM _ _ (updateRow (.packed64 (hash64 key)) sketch.cols value)
      (fun _ => True) (fun row => colsMaskBits sketch.cols * row < 64 ∧ row ≤ 63)
      (fun row before next _ ran => by
        unfold updateRow at ran
        simp only [Option.bind_eq_bind, Option.bind_eq_some_iff] at ran
        obtain ⟨col, decoded, sign, signed, _⟩ := ran
        exact ⟨⟨MatrixHashType.lt_of_decodeCol decoded, MatrixHashType.le_of_decodeSign signed⟩,
          trivial⟩) _ _ _ trivial folded).1
    refine ⟨?_, fun row inside => (each row (List.mem_range.mpr inside)).1⟩
    by_contra many
    have last := (each 64 (List.mem_range.mpr (Nat.lt_of_not_le many))).2
    exact absurd last (by decide)

/-- A merge with an empty sketch that does not panic found all cells. -/
theorem hasCells_of_merge
    (runs : (sketch.merge (new sketch.rows sketch.cols)).2 ≠ .panicked) :
    HasCells sketch.rows sketch.cols sketch.matrix := by
  unfold merge at runs
  have same : ¬(sketch.rows ≠ (new sketch.rows sketch.cols).rows ∨
      sketch.cols ≠ (new sketch.rows sketch.cols).cols) := by
    rintro (rows | cols)
    · exact rows rfl
    · exact cols rfl
  simp only [if_neg same] at runs
  generalize (new sketch.rows sketch.cols).matrix = zeros at runs
  cases folded : (places sketch.rows sketch.cols).foldlM (fun matrix place =>
      (cellAt zeros place.1 place.2).bind (addAt matrix place.1 place.2)) sketch.matrix with
  | none =>
    rw [folded] at runs
    exact absurd rfl runs
  | some added =>
    have each := (@of_foldlM _ (ℕ × ℕ) (fun matrix place =>
      (cellAt zeros place.1 place.2).bind (addAt matrix place.1 place.2))
      (fun matrix => ∀ r c, (cellAt matrix r c).isSome = (cellAt sketch.matrix r c).isSome)
      (fun place => (cellAt sketch.matrix place.1 place.2).isSome)
      (fun place before next kept ran => by
        obtain ⟨cell, _, addition⟩ := Option.bind_eq_some_iff.mp ran
        refine ⟨?_, fun r c => ?_⟩
        · obtain ⟨held, found, _⟩ := Option.map_eq_some_iff.mp addition
          rw [← kept, found]
          rfl
        · rw [cellAt_addAt addition, Option.isSome_map]
          exact kept r c) _ _ _ (fun _ _ => rfl) folded).1
    exact fun row rowInside col colInside =>
      each (row, col) (mem_places_iff.mpr ⟨rowInside, colInside⟩)

/-- A sketch fails closed in every run whose merges are with usable sketches, if and only if it is
usable itself. -/
theorem failsClosed_iff (word : sketch.cols < 2 ^ 64) :
    (∀ calls, Meets (step hash64) Allowed sketch calls →
      FailsClosed (step hash64) Call.IsMerge sketch calls) ↔ sketch.Usable := by
  constructor
  · intro closed
    by_cases empty : sketch.rows = 0 ∨ sketch.cols = 0
    · exact or_assoc.mp (.inl empty)
    have updated := (closed [.update "" F64.zero] ⟨trivial, trivial⟩).1
    obtain ⟨signs, columns⟩ := budget_of_update hash64 empty updated
    have zeros : (new sketch.rows sketch.cols).Usable :=
      .inr (.inr ⟨signs, columns, hasCells_replicate sketch.rows sketch.cols⟩)
    have merged := (closed [.merge (new sketch.rows sketch.cols)] ⟨zeros, trivial⟩).1
    exact .inr (.inr ⟨signs, columns, hasCells_of_merge merged⟩)
  · intro usable calls meets
    refine @failsClosed_of_meets _ _ (step hash64) Call.IsMerge Allowed
      (fun sketch => sketch.Usable ∧ sketch.cols < 2 ^ 64) ?_ sketch ⟨usable, word⟩ calls meets
    exact fun state call held allowed => step_of_usable hash64 held.1 held.2 allowed

end CountSketch

/-! ### HyperLogLog -/

namespace HllSketch

variable (hash64 : List UInt8 → BitVec 64) (ln : F64 → F64) {sketch : HllSketch}

theorem Made.precision_lt (made : Made sketch) : sketch.precision < 64 := by
  cases made with
  | new returned =>
    unfold HllSketch.new at returned
    split at returned
    · rename_i fits
      exact (Option.some.inj returned) ▸ fits
    · cases returned
  | decoded accepted =>
    unfold ofEnvelope at accepted
    dsimp only at accepted
    split at accepted
    · cases accepted
    · rename_i fits
      split at accepted
      · cases accepted
      · exact (Except.ok.inj accepted) ▸ Nat.lt_of_not_le fits

theorem exists_update (some : sketch.precision ≠ 0) (fits : sketch.precision < 64)
    (value : List UInt8) : ∃ registers,
      update hash64 sketch value = Option.some { sketch with registers := registers } := by
  unfold update shiftLeft
  simp only [minus_of_le fits.le, if_pos fits, Option.bind_eq_bind, Option.bind_some,
    MatrixHashType.shiftRight_eq (hash64 value) (Nat.sub_lt (by decide) (Nat.pos_of_ne_zero some))]
  exact ⟨_, rfl⟩

theorem update_eq_none (none : sketch.precision = 0) (value : List UInt8) :
    update hash64 sketch value = Option.none := by
  unfold update
  rw [none]
  rfl

theorem applyUpdates_of_any (updates : List (ℕ × UInt8)) (sketch : HllSketch) :
    (sketch.applyUpdates updates).2 ≠ .panicked ∧
      (sketch.applyUpdates updates).1.precision = sketch.precision := by
  induction updates generalizing sketch with
  | nil => exact ⟨Returned.noConfusion, rfl⟩
  | cons update rest hypothesis =>
    rw [applyUpdates]
    split
    · exact ⟨Returned.noConfusion, rfl⟩
    · exact hypothesis _

theorem merge_of_any (sketch other : HllSketch) :
    (sketch.merge other).2 ≠ .panicked ∧ (sketch.merge other).1.precision = sketch.precision := by
  unfold merge
  split
  · exact ⟨Returned.noConfusion, rfl⟩
  · split
    · exact ⟨Returned.noConfusion, rfl⟩
    · split
      · exact ⟨Returned.noConfusion, rfl⟩
      · dsimp only
        split <;> exact ⟨Returned.noConfusion, rfl⟩

/-- A sketch that was made fails closed in every run, if and only if it has some precision. -/
theorem failsClosed_iff (made : Made sketch) :
    (∀ calls, FailsClosed (step hash64 ln) Call.IsMerge sketch calls) ↔ sketch.precision ≠ 0 := by
  constructor
  · intro closed none
    have runs := (closed [.update []]).1
    refine runs ?_
    show (finish sketch (update hash64 sketch [])).2 = _
    rw [update_eq_none hash64 none]
    rfl
  · intro some calls
    have everywhere : ∀ (state : HllSketch) calls,
        Meets (step hash64 ln) (fun _ _ => True) state calls := by
      intro state calls
      induction calls generalizing state with
      | nil => exact trivial
      | cons call rest hypothesis => exact ⟨trivial, hypothesis _⟩
    refine @failsClosed_of_meets _ _ (step hash64 ln) Call.IsMerge (fun _ _ => True)
      (fun state => state.precision = sketch.precision) (fun state call same _ => ?_) sketch rfl
      calls (everywhere sketch calls)
    cases call with
    | update value =>
      obtain ⟨registers, updated⟩ := exists_update hash64 (same.trans_ne some)
        (same.trans_lt made.precision_lt) value
      have next : step hash64 ln state (.update value) =
          ({ state with registers := registers }, .ok) := congrArg (finish state) updated
      rw [next]
      exact ⟨Returned.noConfusion, False.elim, same⟩
    | estimate => exact ⟨Returned.noConfusion, False.elim, same⟩
    | merge other =>
      obtain ⟨runs, precision⟩ := state.merge_of_any other
      exact ⟨runs, fun _ message rejected => merge_err (Prod.ext rfl rejected),
        precision.trans same⟩
    | applyDelta delta =>
      obtain ⟨runs, precision⟩ := applyUpdates_of_any delta.updates state
      exact ⟨runs, False.elim, precision.trans same⟩

end HllSketch

/-! ### HydraKLL -/

section Entries

variable {Entry : Type} (matrix : List (List Entry)) (row col : ℕ) (entry : Entry)

theorem entryAt_setEntry (r c : ℕ) : entryAt (setEntry matrix row col entry) r c =
    if row = r ∧ col = c then (entryAt matrix r c).map fun _ => entry else entryAt matrix r c := by
  unfold entryAt setEntry
  rw [getElem?_modify_eq_map]
  cases matrix[r]? with
  | none =>
    rw [Option.map_none, Option.bind_none, Option.map_none, ite_self]
  | some entries =>
    rw [Option.map_some, Option.bind_some, Option.bind_some]
    by_cases sameRow : row = r
    · rw [if_pos sameRow]
      by_cases sameCol : col = c
      · rw [if_pos ⟨sameRow, sameCol⟩, ← sameCol]
        cases found : entries[col]? with
        | none =>
          rw [List.getElem?_eq_none_iff] at found
          exact List.getElem?_eq_none (by rwa [List.length_set])
        | some old =>
          obtain ⟨inside, _⟩ := List.getElem?_eq_some_iff.mp found
          exact List.getElem?_set_self inside
      · rw [if_neg fun both => sameCol both.2]
        exact List.getElem?_set_ne sameCol
    · rw [if_neg sameRow, if_neg fun both => sameRow both.1]

theorem setEntry_self (found : entryAt matrix row col = some entry) :
    setEntry matrix row col entry = matrix := by
  obtain ⟨entries, rowFound, colFound⟩ := Option.bind_eq_some_iff.mp found
  obtain ⟨rowInside, rfl⟩ := List.getElem?_eq_some_iff.mp rowFound
  obtain ⟨colInside, rfl⟩ := List.getElem?_eq_some_iff.mp colFound
  unfold setEntry
  rw [List.modify_eq_set_getElem?, rowFound]
  show matrix.set row (matrix[row].set col matrix[row][col]) = matrix
  rw [List.set_getElem_self, List.set_getElem_self]

end Entries

namespace HydraKllSketch

variable {Backend : Type} (kll : KllBackend Backend) (xxh32 : String → ℕ → ℕ)

/-- What is made, and what calls make of it. -/
inductive Reached : HydraKllSketch Backend → Prop
  | made {hydra : HydraKllSketch Backend} (made : Made kll hydra) : Reached hydra
  | updated {hydra next : HydraKllSketch Backend} {key : String} {value : F64}
      (reached : Reached hydra) (ran : update kll xxh32 hydra key value = some next) : Reached next
  | merged {hydra other : HydraKllSketch Backend} (reached : Reached hydra)
      (otherReached : Reached other) : Reached (merge kll hydra other).1

def pairsAt (hydra other : HydraKllSketch Backend) (inside : List (ℕ × ℕ)) :
    List (KllSketch Backend × KllSketch Backend) :=
  inside.filterMap fun place => do
    let mine ← entryAt hydra.sketch place.1 place.2
    let theirs ← entryAt other.sketch place.1 place.2
    some (mine, theirs)

/-- The cells have one parameter at some places. -/
def SameK (hydra other : HydraKllSketch Backend) (inside : List (ℕ × ℕ)) : Prop :=
  ∀ place ∈ inside, ∀ mine theirs, entryAt hydra.sketch place.1 place.2 = some mine →
    entryAt other.sketch place.1 place.2 = some theirs → mine.k = theirs.k

/-- All cells in front of the first two with different parameters are merged with empty ones. -/
def EmptyBefore (hydra other : HydraKllSketch Backend) (inside : List (ℕ × ℕ)) : Prop :=
  ∀ pair ∈ (pairsAt hydra other inside).takeWhile fun pair => pair.1.k = pair.2.k,
    kll.count pair.2.backend = some 0

/-- A merge that can be refused is refused before anything was merged. -/
def Even (hydra other : HydraKllSketch Backend) : Prop :=
  hydra.rows ≠ other.rows ∨ hydra.cols ≠ other.cols ∨
    SameK hydra other (places hydra.rows hydra.cols) ∨
      EmptyBefore kll hydra other (places hydra.rows hydra.cols)

def Allowed (hydra : HydraKllSketch Backend) : Call Backend → Prop
  | .merge other => Reached kll xxh32 other ∧ Even kll hydra other
  | _ => True

variable {kll xxh32} {safe : Backend → Prop}

def SafeAt (safe : Backend → Prop) (matrix : List (List (KllSketch Backend))) (place : ℕ × ℕ) :
    Prop := ∃ cell, entryAt matrix place.1 place.2 = some cell ∧ safe cell.backend

/-- All cells are there, and safe. -/
def Held (safe : Backend → Prop) (hydra : HydraKllSketch Backend) : Prop :=
  ∀ place ∈ places hydra.rows hydra.cols, SafeAt safe hydra.sketch place

theorem SafeAt.setEntry {matrix : List (List (KllSketch Backend))} {place : ℕ × ℕ}
    (held : SafeAt safe matrix place) {cell : KllSketch Backend} (cellSafe : safe cell.backend)
    (row col : ℕ) : SafeAt safe (setEntry matrix row col cell) place := by
  obtain ⟨old, found, oldSafe⟩ := held
  unfold SafeAt
  rw [entryAt_setEntry, found]
  split
  · exact ⟨cell, rfl, cellSafe⟩
  · exact ⟨old, rfl, oldSafe⟩

theorem merge_of_safe (given : kll.Safe safe) {mine theirs : KllSketch Backend}
    (mineSafe : safe mine.backend) (theirsSafe : safe theirs.backend) :
    (mine.k = theirs.k ∧ ∃ merged, mine.merge kll theirs = (merged, .ok) ∧ merged.k = mine.k ∧
        safe merged.backend ∧ (kll.count theirs.backend = some 0 → merged = mine)) ∨
      mine.k ≠ theirs.k ∧ ∃ message, mine.merge kll theirs = (mine, .err message) := by
  unfold KllSketch.merge
  by_cases same : mine.k = theirs.k
  · obtain ⟨merged, ran, mergedSafe⟩ := given.merge _ _ mineSafe theirsSafe
    refine .inl ⟨same, { mine with backend := merged }, ?_, rfl, mergedSafe, fun none => ?_⟩
    · rw [if_neg (not_not.mpr same), ran]
      rfl
    · rw [given.mergeEmpty _ _ mineSafe theirsSafe none] at ran
      rw [← Option.some.inj ran]
  · rw [if_pos same]
    exact .inr ⟨same, _, rfl⟩

section

variable (given : kll.Safe safe) {other : HydraKllSketch Backend} {rest : List (ℕ × ℕ)}
  (theirs : ∀ place ∈ rest, SafeAt safe other.sketch place) (hydra : HydraKllSketch Backend)
  (mine : ∀ place ∈ rest, SafeAt safe hydra.sketch place)

include given theirs mine

theorem mergeCells_of_safe :
    (mergeCells kll hydra other rest).2 ≠ .panicked ∧
      (mergeCells kll hydra other rest).1.rows = hydra.rows ∧
      (mergeCells kll hydra other rest).1.cols = hydra.cols ∧
      ∀ place, SafeAt safe hydra.sketch place →
        SafeAt safe (mergeCells kll hydra other rest).1.sketch place := by
  induction rest generalizing hydra with
  | nil => exact ⟨Returned.noConfusion, rfl, rfl, fun _ held => held⟩
  | cons place rest hypothesis =>
    obtain ⟨⟨own, ownFound, ownSafe⟩, mineRest⟩ := List.forall_mem_cons.mp mine
    obtain ⟨their, theirFound, theirSafe⟩ := theirs place List.mem_cons_self
    rw [mergeCells]
    simp only [ownFound, theirFound]
    obtain ⟨_, merged, ran, _, mergedSafe, _⟩ | ⟨_, message, refused⟩ :=
      merge_of_safe given ownSafe theirSafe
    · simp only [ran]
      obtain ⟨runs, rows, cols, kept⟩ := hypothesis
        (fun other member => theirs other (List.mem_cons_of_mem place member))
        { hydra with sketch := setEntry hydra.sketch place.1 place.2 merged }
        fun other member => (mineRest other member).setEntry mergedSafe _ _
      exact ⟨runs, rows, cols, fun other held => kept other (held.setEntry mergedSafe _ _)⟩
    · simp only [refused]
      exact ⟨Returned.noConfusion, trivial, trivial, fun _ held => held⟩

theorem mergeCells_of_sameK (same : SameK hydra other rest) :
    (mergeCells kll hydra other rest).2 = .ok := by
  induction rest generalizing hydra with
  | nil => rfl
  | cons place rest hypothesis =>
    obtain ⟨⟨own, ownFound, ownSafe⟩, mineRest⟩ := List.forall_mem_cons.mp mine
    obtain ⟨their, theirFound, theirSafe⟩ := theirs place List.mem_cons_self
    have here := same place List.mem_cons_self own their ownFound theirFound
    rw [mergeCells]
    simp only [ownFound, theirFound]
    obtain ⟨_, merged, ran, parameter, mergedSafe, _⟩ | ⟨different, _⟩ :=
      merge_of_safe given ownSafe theirSafe
    · simp only [ran]
      refine hypothesis
        (fun other member => theirs other (List.mem_cons_of_mem place member)) _
        (fun other member => (mineRest other member).setEntry mergedSafe _ _) ?_
      intro next member first second firstFound secondFound
      rw [entryAt_setEntry] at firstFound
      split at firstFound
      · rename_i samePlace
        obtain ⟨old, oldFound, rfl⟩ := Option.map_eq_some_iff.mp firstFound
        rw [← samePlace.1, ← samePlace.2] at secondFound
        rw [parameter, here, Option.some.inj (theirFound.symm.trans secondFound)]
      · exact same next (List.mem_cons_of_mem place member) first second firstFound secondFound
    · exact absurd here different

/-- A merge that is refused behind empty cells only changes nothing. -/
theorem mergeCells_of_emptyBefore (empty : EmptyBefore kll hydra other rest) {message : String}
    (refused : (mergeCells kll hydra other rest).2 = .err message) :
    (mergeCells kll hydra other rest).1 = hydra := by
  induction rest with
  | nil => rfl
  | cons place rest hypothesis =>
    obtain ⟨⟨own, ownFound, ownSafe⟩, mineRest⟩ := List.forall_mem_cons.mp mine
    obtain ⟨their, theirFound, theirSafe⟩ := theirs place List.mem_cons_self
    have pairs : pairsAt hydra other (place :: rest) =
        (own, their) :: pairsAt hydra other rest := by
      unfold pairsAt
      refine List.filterMap_cons_some ?_
      simp only [ownFound, theirFound, Option.bind_eq_bind, Option.bind_some]
    rw [mergeCells] at refused ⊢
    simp only [ownFound, theirFound] at refused ⊢
    obtain ⟨same, merged, ran, _, _, unchanged⟩ | ⟨_, text, stopped⟩ :=
      merge_of_safe given ownSafe theirSafe
    · have first : (pairsAt hydra other (place :: rest)).takeWhile
          (fun pair => pair.1.k = pair.2.k) =
            (own, their) :: (pairsAt hydra other rest).takeWhile
              fun pair => pair.1.k = pair.2.k := by
        rw [pairs]
        exact List.takeWhile_cons_of_pos (decide_eq_true same)
      unfold EmptyBefore at empty
      rw [first] at empty
      obtain ⟨here, later⟩ := List.forall_mem_cons.mp empty
      rw [unchanged here] at ran
      simp only [ran, setEntry_self _ _ _ _ ownFound] at refused ⊢
      exact hypothesis
        (fun other member => theirs other (List.mem_cons_of_mem place member)) mineRest later
        refused
    · simp only [stopped]

end

theorem entryAt_replicate {Entry : Type} (entry : Entry) {rows cols row col : ℕ}
    (rowInside : row < rows) (colInside : col < cols) :
    entryAt (List.replicate rows (List.replicate cols entry)) row col = some entry := by
  unfold entryAt
  rw [List.getElem?_replicate_of_lt rowInside, Option.bind_some,
    List.getElem?_replicate_of_lt colInside]

theorem decodeRow_ok (given : kll.Safe safe) {cols : ℕ} {row : List KllSketchData × ℕ}
    {cells : List (KllSketch Backend)} (decoded : decodeRow kll cols row = .ok cells) {col : ℕ}
    (inside : col < cols) : ∃ cell, cells[col]? = some cell ∧ safe cell.backend := by
  unfold decodeRow at decoded
  dsimp only at decoded
  split at decoded
  · cases decoded
  rename_i colCount
  rw [not_not] at colCount
  obtain ⟨data, dataFound⟩ : ∃ data, row.1[col]? = some data :=
    ⟨_, List.getElem?_eq_getElem (colCount ▸ inside)⟩
  obtain ⟨cell, cellFound, made⟩ := getElem?_of_mapM_ok decoded dataFound
  refine ⟨cell, cellFound, ?_⟩
  cases opened : kll.deserializeFromBytes data.sketchBytes with
  | error message =>
    rw [opened] at made
    cases made
  | ok backend =>
    rw [opened] at made
    obtain rfl := Except.ok.inj made
    exact given.decoded _ backend opened

theorem Made.held (given : kll.Safe safe) {hydra : HydraKllSketch Backend}
    (made : Made kll hydra) : Held safe hydra := by
  intro place member
  obtain ⟨rowInside, colInside⟩ := mem_places_iff.mp member
  cases made with
  | new rows cols k => exact ⟨_, entryAt_replicate _ rowInside colInside, given.initKll k⟩
  | @decoded wire _ accepted =>
    unfold fromWire at accepted
    dsimp only at accepted
    split at accepted
    · cases accepted
    rename_i rowCount
    rw [not_not] at rowCount
    cases decoded : wire.sketches.zipIdx.mapM (decodeRow kll wire.cols) with
    | error message =>
      rw [decoded] at accepted
      cases accepted
    | ok sketch =>
      rw [decoded] at accepted
      obtain rfl := Except.ok.inj accepted
      obtain ⟨row, rowFound⟩ : ∃ row, wire.sketches.zipIdx[place.1]? = some row := by
        refine ⟨_, List.getElem?_eq_getElem ?_⟩
        rw [List.length_zipIdx]
        exact rowCount ▸ rowInside
      obtain ⟨cells, cellsFound, rowDecoded⟩ := getElem?_of_mapM_ok decoded rowFound
      obtain ⟨cell, cellFound, cellSafe⟩ := decodeRow_ok given rowDecoded colInside
      refine ⟨cell, ?_, cellSafe⟩
      unfold entryAt
      rw [cellsFound, Option.bind_some, cellFound]

theorem Held.of_safeAt {hydra next : HydraKllSketch Backend} (held : Held safe hydra)
    (rows : next.rows = hydra.rows) (cols : next.cols = hydra.cols)
    (kept : ∀ place, SafeAt safe hydra.sketch place → SafeAt safe next.sketch place) :
    Held safe next := by
  intro place member
  rw [rows, cols] at member
  exact kept place (held place member)

section

variable (given : kll.Safe safe) {hydra : HydraKllSketch Backend} (held : Held safe hydra)
  (someCol : hydra.rows = 0 ∨ hydra.cols ≠ 0) (key : String)

include given held someCol

theorem Held.exists_update (value : F64) : ∃ sketch, update kll xxh32 hydra key value =
        some { hydra with sketch := sketch } ∧
      ∀ place, SafeAt safe hydra.sketch place → SafeAt safe sketch place := by
  obtain ⟨sketch, folded, kept⟩ := @exists_foldlM (List (List (KllSketch Backend))) ℕ
    (updateRow kll xxh32 key value hydra.cols)
    (fun sketch => ∀ place, SafeAt safe hydra.sketch place → SafeAt safe sketch place)
    (List.range hydra.rows) (fun i member matrix kept => by
      have inside := List.mem_range.mp member
      have positive : hydra.cols ≠ 0 := someCol.resolve_left fun none =>
        absurd (none ▸ inside) (Nat.not_lt_zero i)
      have column : xxh32 key (i % 2 ^ 32) % hydra.cols < hydra.cols :=
        Nat.mod_lt _ (Nat.pos_of_ne_zero positive)
      obtain ⟨cell, found, cellSafe⟩ := kept _ (held (i, _) (mem_places_iff.mpr ⟨inside, column⟩))
      obtain ⟨backend, updated, backendSafe⟩ := given.update cell.backend value cellSafe
      have index : remainder (xxh32 key (i % 2 ^ 32)) hydra.cols =
          some (xxh32 key (i % 2 ^ 32) % hydra.cols) := if_neg positive
      refine ⟨setEntry matrix i (xxh32 key (i % 2 ^ 32) % hydra.cols)
        { cell with backend := backend }, ?_, fun place there => ?_⟩
      · unfold updateRow KllSketch.update
        simp only [index, found, updated, Option.bind_eq_bind, Option.bind_some, Option.map_some]
      · exact SafeAt.setEntry (kept place there) backendSafe _ _) hydra.sketch fun _ there => there
  refine ⟨sketch, ?_, kept⟩
  unfold update
  rw [folded]
  rfl

theorem Held.quantile_isSome (q : F64) : (quantile kll xxh32 hydra key q).isSome := by
  obtain ⟨quantiles, read⟩ := @exists_mapM ℕ F64 (hydra.quantileRow kll xxh32 key q)
    (List.range hydra.rows) fun i member => by
      have inside := List.mem_range.mp member
      have positive : hydra.cols ≠ 0 := someCol.resolve_left fun none =>
        absurd (none ▸ inside) (Nat.not_lt_zero i)
      have column : xxh32 key (i % 2 ^ 32) % hydra.cols < hydra.cols :=
        Nat.mod_lt _ (Nat.pos_of_ne_zero positive)
      obtain ⟨cell, found, cellSafe⟩ := held (i, _) (mem_places_iff.mpr ⟨inside, column⟩)
      have index : remainder (xxh32 key (i % 2 ^ 32)) hydra.cols =
          some (xxh32 key (i % 2 ^ 32) % hydra.cols) := if_neg positive
      obtain ⟨count, counted⟩ := Option.isSome_iff_exists.mp (given.count _ cellSafe)
      obtain ⟨answer, answers⟩ := Option.isSome_iff_exists.mp (given.quantile _ q cellSafe)
      unfold quantileRow KllSketch.quantile
      simp only [index, found, counted, Option.bind_eq_bind, Option.bind_some]
      split
      · exact ⟨F64.zero, rfl⟩
      · exact ⟨answer, answers⟩
  unfold quantile
  simp only [read, Option.bind_eq_bind, Option.bind_some]
  split
  · rfl
  · rename_i some
    obtain ⟨low, high, lowRead, highRead⟩ := exists_middle (mergeSort_ne_nil some _)
    rw [lowRead, highRead]
    split <;> rfl

end

variable (given : kll.Safe safe)

include given

theorem Held.merge {hydra other : HydraKllSketch Backend} (held : Held safe hydra)
    (otherHeld : Held safe other) :
    (merge kll hydra other).2 ≠ .panicked ∧ (merge kll hydra other).1.rows = hydra.rows ∧
      (merge kll hydra other).1.cols = hydra.cols ∧
        Held safe (merge kll hydra other).1 := by
  unfold HydraKllSketch.merge
  by_cases mismatch : hydra.rows ≠ other.rows ∨ hydra.cols ≠ other.cols
  · simp only [if_pos mismatch]
    exact ⟨Returned.noConfusion, trivial, trivial, held⟩
  · obtain ⟨rows, cols⟩ := not_or.mp mismatch
    rw [not_not] at rows cols
    simp only [if_neg mismatch]
    obtain ⟨runs, sameRows, sameCols, kept⟩ := mergeCells_of_safe given
      (fun place member => otherHeld place (by rwa [← rows, ← cols])) hydra held
    exact ⟨runs, sameRows, sameCols, held.of_safeAt sameRows sameCols kept⟩

theorem Reached.held {hydra : HydraKllSketch Backend} (reached : Reached kll xxh32 hydra) :
    Held safe hydra := by
  induction reached with
  | made made => exact made.held given
  | @updated hydra next key value _ ran held =>
    by_cases someCol : hydra.rows = 0 ∨ hydra.cols ≠ 0
    · obtain ⟨sketch, updated, kept⟩ := held.exists_update given someCol key value
      rw [updated] at ran
      obtain rfl := Option.some.inj ran
      exact held.of_safeAt rfl rfl kept
    · obtain ⟨_, noCols⟩ := not_or.mp someCol
      rw [not_not] at noCols
      obtain ⟨sketch, _, rfl⟩ := Option.map_eq_some_iff.mp ran
      intro place member
      exact absurd (noCols ▸ (mem_places_iff.mp member).2) (Nat.not_lt_zero _)
  | merged _ _ held otherHeld => exact (held.merge given otherHeld).2.2.2

theorem Even.unchanged {hydra other : HydraKllSketch Backend} (even : Even kll hydra other)
    (held : Held safe hydra) (otherHeld : Held safe other) {message : String}
    (refused : (HydraKllSketch.merge kll hydra other).2 = .err message) :
    (HydraKllSketch.merge kll hydra other).1 = hydra := by
  unfold HydraKllSketch.merge at refused ⊢
  by_cases mismatch : hydra.rows ≠ other.rows ∨ hydra.cols ≠ other.cols
  · simp only [if_pos mismatch]
  · obtain ⟨rows, cols⟩ := not_or.mp mismatch
    rw [not_not] at rows cols
    have theirs : ∀ place ∈ places hydra.rows hydra.cols, SafeAt safe other.sketch place :=
      fun place member => otherHeld place (by rwa [← rows, ← cols])
    simp only [if_neg mismatch] at refused ⊢
    obtain different | different | same | empty := even
    · exact absurd rows different
    · exact absurd cols different
    · rw [mergeCells_of_sameK given theirs hydra held same] at refused
      cases refused
    · exact mergeCells_of_emptyBefore given theirs hydra held empty refused

theorem step_of_held {hydra : HydraKllSketch Backend} (held : Held safe hydra)
    (someCol : hydra.rows = 0 ∨ hydra.cols ≠ 0) {call : Call Backend}
    (allowed : Allowed kll xxh32 hydra call) :
    (step kll xxh32 hydra call).2 ≠ .panicked ∧
      (call.IsMerge → ∀ message, (step kll xxh32 hydra call).2 = .err message →
        (step kll xxh32 hydra call).1 = hydra) ∧
      Held safe (step kll xxh32 hydra call).1 ∧
      ((step kll xxh32 hydra call).1.rows = 0 ∨ (step kll xxh32 hydra call).1.cols ≠ 0) := by
  cases call with
  | update key value =>
    obtain ⟨sketch, updated, kept⟩ := held.exists_update given someCol key value
    have next : step kll xxh32 hydra (.update key value) =
        ({ hydra with sketch := sketch }, .ok) := congrArg (finish hydra) updated
    rw [next]
    exact ⟨Returned.noConfusion, False.elim, held.of_safeAt rfl rfl kept, someCol⟩
  | quantile key q =>
    have next : step kll xxh32 hydra (.quantile key q) = (hydra, .ok) :=
      congrArg (Prod.mk hydra) (if_pos (held.quantile_isSome given someCol key q))
    rw [next]
    exact ⟨Returned.noConfusion, False.elim, held, someCol⟩
  | merge other =>
    have otherHeld := allowed.1.held given
    obtain ⟨runs, rows, cols, kept⟩ := held.merge given otherHeld
    refine ⟨runs, fun _ message refused => ?_, kept, ?_⟩
    · exact allowed.2.unchanged given held otherHeld refused
    · show (HydraKllSketch.merge kll hydra other).1.rows = 0 ∨
        (HydraKllSketch.merge kll hydra other).1.cols ≠ 0
      rw [rows, cols]
      exact someCol

/-- A sketch that was made fails closed in every run of allowed calls, if and only if it has
columns or no rows. -/
theorem failsClosed_iff {hydra : HydraKllSketch Backend} (made : Made kll hydra) :
    (∀ calls, Meets (step kll xxh32) (Allowed kll xxh32) hydra calls →
      FailsClosed (step kll xxh32) Call.IsMerge hydra calls) ↔ hydra.rows = 0 ∨ hydra.cols ≠ 0 := by
  constructor
  · intro closed
    by_contra stuck
    obtain ⟨someRow, noCols⟩ := not_or.mp stuck
    rw [not_not] at noCols
    have runs := (closed [.update "" F64.zero] ⟨trivial, trivial⟩).1
    refine runs ?_
    show (finish hydra (update kll xxh32 hydra "" F64.zero)).2 = .panicked
    obtain ⟨rows, rowsEq⟩ := Nat.exists_eq_succ_of_ne_zero someRow
    unfold update
    rw [rowsEq, List.range_succ_eq_map, List.foldlM_cons, noCols]
    rfl
  · intro someCol calls meets
    refine @failsClosed_of_meets _ _ (step kll xxh32) Call.IsMerge (Allowed kll xxh32)
      (fun hydra => Held safe hydra ∧ (hydra.rows = 0 ∨ hydra.cols ≠ 0)) ?_ hydra
      ⟨made.held given, someCol⟩ calls meets
    exact fun state call held allowed => step_of_held given held.1 held.2 allowed

end HydraKllSketch

/-! ### The result -/

/-- From which sketches every run fails closed. The merges of a Count Sketch are with usable
sketches, and those of a HydraKLL are even. -/
theorem fails_closed_iff (hash64 : String → BitVec 64) (hash : List UInt8 → BitVec 64)
    (ln : F64 → F64) (xxh32 : String → ℕ → ℕ) {Backend : Type} {kll : KllBackend Backend}
    {safe : Backend → Prop} (given : kll.Safe safe) :
    (∀ sketch : CountSketch, sketch.cols < 2 ^ 64 →
      ((∀ calls, Meets (CountSketch.step hash64) CountSketch.Allowed sketch calls →
        FailsClosed (CountSketch.step hash64) CountSketch.Call.IsMerge sketch calls) ↔
          sketch.Usable)) ∧
    (∀ sketch : HllSketch, HllSketch.Made sketch →
      ((∀ calls, FailsClosed (HllSketch.step hash ln) HllSketch.Call.IsMerge sketch calls) ↔
        sketch.precision ≠ 0)) ∧
    ∀ hydra : HydraKllSketch Backend, HydraKllSketch.Made kll hydra →
      ((∀ calls,
        Meets (HydraKllSketch.step kll xxh32) (HydraKllSketch.Allowed kll xxh32) hydra calls →
        FailsClosed (HydraKllSketch.step kll xxh32) HydraKllSketch.Call.IsMerge hydra calls) ↔
          hydra.rows = 0 ∨ hydra.cols ≠ 0) :=
  ⟨fun _ word => CountSketch.failsClosed_iff hash64 word,
    fun _ made => HllSketch.failsClosed_iff hash ln made,
    fun _ made => HydraKllSketch.failsClosed_iff given made⟩

def keepingKll : KllBackend (List F64) where
  initKll _ := []
  deserializeFromBytes _ := .error "no bytes"
  update values value := some (values ++ [value])
  quantile values _ := some (values.headD F64.zero)
  merge values others := some (values ++ others)
  count values := some values.length

theorem safe_keepingKll : keepingKll.Safe fun _ => True where
  initKll _ := trivial
  decoded _ _ _ := trivial
  update values value _ := ⟨values ++ [value], rfl, trivial⟩
  quantile _ _ _ := rfl
  count _ _ := rfl
  merge values others _ _ := ⟨values ++ others, rfl, trivial⟩
  mergeEmpty values others _ _ none := by
    have empty : others = [] := List.length_eq_zero_iff.mp (Option.some.inj none)
    exact congrArg some (empty ▸ List.append_nil values)

theorem fails_closed_small :
    FailsClosed (CountSketch.step fun _ => 7#64) CountSketch.Call.IsMerge (CountSketch.new 2 4)
        [.update "a" F64.zero, .estimate "a"] ∧
      FailsClosed (HllSketch.step (fun _ => 7#64) id) HllSketch.Call.IsMerge
        ⟨.regular, 2, [0, 0, 0, 0], F64.zero, F64.zero, F64.zero⟩ [.update [97], .estimate] ∧
      FailsClosed (HydraKllSketch.step keepingKll fun _ _ => 7) HydraKllSketch.Call.IsMerge
        (HydraKllSketch.new keepingKll 1 2 200) [.update "a" F64.zero, .quantile "a" F64.zero] := by
  obtain ⟨count, hll, hydra⟩ :=
    fails_closed_iff (fun _ => 7#64) (fun _ => 7#64) id (fun _ _ => 7) safe_keepingKll
  refine ⟨(count _ (by decide)).mpr (.inr (.inr ⟨by decide, by decide, ?_⟩)) _
    ⟨trivial, trivial, trivial⟩, (hll _ ?_).mpr (by decide) _, (hydra _ (.new 1 2 200)).mpr
      (.inr (by decide)) _ ⟨trivial, trivial, trivial⟩⟩
  · exact hasCells_replicate 2 4
  · exact .new (show HllSketch.new .regular 2 = _ by rfl)

/-- A HydraKLL whose cells have one parameter, and one whose second cell has another. -/
def evenCells : HydraKllSketch (List F64) := ⟨[[⟨200, []⟩, ⟨200, []⟩]], 1, 2⟩

def unevenCells : HydraKllSketch (List F64) := ⟨[[⟨200, [F64.zero]⟩, ⟨100, []⟩]], 1, 2⟩

/-- An accepted Count Sketch without its matrix, one with more rows than a hash has bits for, a
HyperLogLog of one register and a HydraKLL without columns panic at an update, and a merge of a
HydraKLL that is refused at its second cell has merged the first one. -/
theorem accepted_sketches_fail_open :
    (CountSketch.step (fun _ => 7#64) ⟨1, 1, [], []⟩ (.update "a" F64.zero)).2 = .panicked ∧
      (CountSketch.step (fun _ => 7#64) (CountSketch.new 33 4) (.update "a" F64.zero)).2 =
        .panicked ∧
      (∃ sketch, HllSketch.new .regular 0 = some sketch ∧
        (HllSketch.step (fun _ => 7#64) id sketch (.update [97])).2 = .panicked) ∧
      (HydraKllSketch.step keepingKll (fun _ _ => 7) (HydraKllSketch.new keepingKll 1 0 200)
        (.update "a" F64.zero)).2 = .panicked ∧
      (HydraKllSketch.step keepingKll (fun _ _ => 7) evenCells (.merge unevenCells)).2 =
        .err "KllSketch k mismatch: self=200, other=100" ∧
      (HydraKllSketch.step keepingKll (fun _ _ => 7) evenCells (.merge unevenCells)).1 ≠
        evenCells := by
  refine ⟨by decide +kernel, by decide +kernel, ⟨_, rfl, by decide +kernel⟩, by decide +kernel,
    by decide +kernel, fun same => ?_⟩
  have cells := congrArg (fun hydra => hydra.sketch.map fun row => row.map fun cell =>
    cell.backend.length) same
  revert cells
  decide +kernel

end Portable

end AsapSketchlib
