/-
This file proves what the cells of a Hydra hold. A cell is the Count-Min sketch of the inserts
whose hash leads to it, so the cells of merged grids are those of one grid that took both
streams, and building a tree of updates and merges is feeding its stream.
-/

import AsapSketchlib.HydraSubkeys

namespace AsapSketchlib

/-- A row of the stream with its value and its count. -/
structure HydraEntry where
  key : List String
  value : DataInput
  count : Option ℤ

/-- What an entry counts: one observation unless it says otherwise. -/
def HydraEntry.weight (entry : HydraEntry) : ℤ := entry.count.getD 1

/-- An insert into the grid: a hash, a value and a count. -/
structure HydraInsert where
  hashed : MatrixHashType
  value : DataInput
  count : Option ℤ

variable (hasher : SketchHasher)

namespace Hydra

/-! ### Inserts -/

def insertAll (hydra : Hydra) (inserts : List HydraInsert) : Hydra :=
  inserts.foldl (fun grid entry => fastInsert hasher grid entry.hashed entry.value entry.count) hydra

theorem insertAll_frame (hydra : Hydra) (inserts : List HydraInsert) :
    (insertAll hasher hydra inserts).rowNum = hydra.rowNum ∧
      (insertAll hasher hydra inserts).colNum = hydra.colNum ∧
      (insertAll hasher hydra inserts).typeToClone = hydra.typeToClone ∧
      (insertAll hasher hydra inserts).schema = hydra.schema ∧
      (insertAll hasher hydra inserts).sketches.rows = hydra.sketches.rows ∧
      (insertAll hasher hydra inserts).sketches.cols = hydra.sketches.cols := by
  induction inserts generalizing hydra with
  | nil => exact ⟨rfl, rfl, rfl, rfl, rfl, rfl⟩
  | cons entry rest hypothesis => exact hypothesis _

theorem insertAll_append (hydra : Hydra) (first second : List HydraInsert) :
    insertAll hasher hydra (first ++ second) =
      insertAll hasher (insertAll hasher hydra first) second := List.foldl_append

/-- The inserts of an entry: one under the subkey of each mask. -/
def fanOut (hydra : Hydra) (entry : HydraEntry) : List HydraInsert :=
  (masks entry.key.length).map fun mask =>
    ⟨subkeyHash hasher hydra entry.key mask, entry.value, entry.count⟩

theorem update_eq (hydra : Hydra) (entry : HydraEntry)
    (width : entry.key.length = hydra.schema.arity) :
    update hasher hydra entry.key entry.value entry.count =
      .ok (insertAll hasher hydra (fanOut hasher hydra entry)) := by
  have loop : ∀ (bits : List ℕ) (grid : Hydra), grid.rowNum = hydra.rowNum →
      grid.colNum = hydra.colNum → grid.schema = hydra.schema →
      bits.foldl (fun grid mask => fastInsert hasher grid (subkeyHash hasher grid entry.key mask)
        entry.value entry.count) grid =
      insertAll hasher grid (bits.map fun mask =>
        ⟨subkeyHash hasher hydra entry.key mask, entry.value, entry.count⟩) := by
    intro bits
    induction bits with
    | nil => exact fun _ _ _ _ => rfl
    | cons mask rest hypothesis =>
      intro grid sameRows sameCols sameSchema
      have hash : subkeyHash hasher grid entry.key mask = subkeyHash hasher hydra entry.key mask := by
        unfold subkeyHash
        rw [sameRows, sameCols, sameSchema]
      rw [List.foldl_cons, hash, hypothesis (fastInsert hasher grid _ _ _) sameRows sameCols
        sameSchema]
      rfl
  unfold update KeySchema.checkArity
  dsimp only
  rw [if_neg (not_not.mpr width)]
  exact congrArg Except.ok (loop _ hydra rfl rfl rfl)

theorem update_error (hydra : Hydra) (entry : HydraEntry)
    (width : entry.key.length ≠ hydra.schema.arity) :
    ∃ message, update hasher hydra entry.key entry.value entry.count = .error message := by
  unfold update KeySchema.checkArity
  dsimp only
  rw [if_pos width]
  exact ⟨_, rfl⟩

/-! ### Cells -/

/-- The weighted hashes that inserts bring to a cell, for counters of some dimensions. -/
def routed (counterRows counterCols cols row col : ℕ) (inserts : List HydraInsert) :
    List (MatrixHashType × ℤ) :=
  (inserts.filter fun entry => entry.hashed.colForRow row cols = col).map fun entry =>
    (hashForMatrixSeeded hasher 0 counterRows counterCols entry.value, entry.count.getD 1)

theorem routed_append (counterRows counterCols cols row col : ℕ)
    (first second : List HydraInsert) :
    routed hasher counterRows counterCols cols row col (first ++ second) =
      routed hasher counterRows counterCols cols row col first ++
        routed hasher counterRows counterCols cols row col second := by
  unfold routed
  rw [List.filter_append, List.map_append]

theorem insert_eq (counter : CountMin) (value : DataInput) (count : Option ℤ) :
    HydraCounter.insert hasher counter value count = counter.fastInsertManyWithHashValue
      (hashForMatrixSeeded hasher 0 counter.counts.rows counter.counts.cols value)
      (count.getD 1) := by
  cases count <;> rfl

theorem getElem?_insertAll {counterRows counterCols : ℕ} (hydra : Hydra)
    (inserts : List HydraInsert) {row col : ℕ} (rowInside : row < hydra.sketches.rows)
    (colInside : col < hydra.sketches.cols) {counter : CountMin}
    (found : hydra.sketches.data[row * hydra.sketches.cols + col]? = some counter)
    (sameRows : counter.counts.rows = counterRows) (sameCols : counter.counts.cols = counterCols) :
    (insertAll hasher hydra inserts).sketches.data[row * hydra.sketches.cols + col]? =
      some (counter.fastInsertAll
        (routed hasher counterRows counterCols hydra.sketches.cols row col inserts)) := by
  induction inserts generalizing hydra counter with
  | nil => exact found
  | cons entry rest hypothesis =>
    have positive : 0 < hydra.sketches.cols := Nat.zero_lt_of_lt colInside
    have step : (fastInsert hasher hydra entry.hashed entry.value
        entry.count).sketches.data[row * hydra.sketches.cols + col]? =
          if row < hydra.sketches.rows ∧ entry.hashed.colForRow row hydra.sketches.cols = col then
            (hydra.sketches.data[row * hydra.sketches.cols + col]?).map fun counter =>
              HydraCounter.insert hasher counter entry.value entry.count
          else hydra.sketches.data[row * hydra.sketches.cols + col]? :=
      Grid.getElem?_updateRows _ (fun row => entry.hashed.colForRow_lt row positive) _ _ colInside
    rw [found, Option.map_some] at step
    by_cases here : entry.hashed.colForRow row hydra.sketches.cols = col
    · rw [if_pos ⟨rowInside, here⟩, insert_eq, sameRows, sameCols] at step
      refine (hypothesis (fastInsert hasher hydra entry.hashed entry.value entry.count)
        rowInside colInside step sameRows sameCols).trans ?_
      unfold routed
      rw [List.filter_cons_of_pos (by simpa using here)]
      rfl
    · rw [if_neg fun visited => here visited.2] at step
      refine (hypothesis (fastInsert hasher hydra entry.hashed entry.value entry.count)
        rowInside colInside step sameRows sameCols).trans ?_
      unfold routed
      rw [List.filter_cons_of_neg (by simpa using here)]
      rfl

/-! ### Merging -/

theorem mergeCells_eq_some {cells others merged : List CountMin}
    (sameLength : cells.length = others.length) (mergedLength : cells.length = merged.length)
    (each : ∀ (place : ℕ) (cell other result : CountMin), cells[place]? = some cell →
      others[place]? = some other → merged[place]? = some result →
        cell.merge other = some result) :
    mergeCells cells others = some merged := by
  unfold mergeCells
  induction cells generalizing others merged with
  | nil =>
    obtain rfl := List.length_eq_zero_iff.mp mergedLength.symm
    rfl
  | cons cell rest hypothesis =>
    cases others with
    | nil => exact absurd sameLength (Nat.succ_ne_zero _)
    | cons other otherRest =>
      cases merged with
      | nil => exact absurd mergedLength (Nat.succ_ne_zero _)
      | cons result results =>
        have first : cell.merge other = some result := each 0 cell other result rfl rfl rfl
        have later := hypothesis (Nat.succ.inj sameLength) (Nat.succ.inj mergedLength)
          fun place => each (place + 1)
        rw [List.zip_cons_cons, List.mapM_cons, first, later]
        rfl

theorem merge_eq {hydra other result : Hydra} (sameRow : hydra.rowNum = other.rowNum)
    (sameCol : hydra.colNum = other.colNum) (sameSchema : hydra.schema = other.schema)
    (sameLength : hydra.sketches.data.length = other.sketches.data.length)
    (frame : result.rowNum = hydra.rowNum ∧ result.colNum = hydra.colNum ∧
      result.typeToClone = hydra.typeToClone ∧ result.schema = hydra.schema ∧
      result.sketches.rows = hydra.sketches.rows ∧ result.sketches.cols = hydra.sketches.cols)
    (run : mergeCells hydra.sketches.data other.sketches.data = some result.sketches.data) :
    merge hydra other = .ok result := by
  have noMismatch : ¬(hydra.rowNum ≠ other.rowNum ∨ hydra.colNum ≠ other.colNum) :=
    not_or.mpr ⟨not_not.mpr sameRow, not_not.mpr sameCol⟩
  have sameLabels : ¬hydra.schema.labels ≠ other.schema.labels :=
    not_not.mpr (congrArg KeySchema.labels sameSchema)
  unfold merge
  rw [if_neg noMismatch, if_neg sameLabels, dif_pos sameLength]
  split
  · next merged mergedEq =>
    obtain ⟨_, _, ⟨_, _, _, _⟩, _, _⟩ := hydra
    obtain ⟨_, _, ⟨_, _, _, _⟩, _, _⟩ := result
    obtain ⟨rfl, rfl, rfl, rfl, rfl, rfl⟩ := frame
    obtain rfl := Option.some.inj (mergedEq.symm.trans run)
    rfl
  · next stopped => exact absurd (run.symm.trans stopped) (Option.some_ne_none _)

variable (rows cols counterRows counterCols : ℕ) (schema : KeySchema)

def fresh : Hydra := filled rows cols schema (CountMin.withDimensions counterRows counterCols)

variable {rows cols counterRows counterCols schema}

theorem getElem?_insertAll_fresh (inserts : List HydraInsert) {row col : ℕ}
    (rowInside : row < rows) (colInside : col < cols) :
    (insertAll hasher (fresh rows cols counterRows counterCols schema)
        inserts).sketches.data[row * cols + col]? =
      some ((CountMin.withDimensions counterRows counterCols).fastInsertAll
        (routed hasher counterRows counterCols cols row col inserts)) := by
  have found : (fresh rows cols counterRows counterCols schema).sketches.data[row * cols + col]? =
      some (CountMin.withDimensions counterRows counterCols) :=
    List.getElem?_replicate_of_lt (Grid.position_lt rowInside colInside)
  exact getElem?_insertAll hasher (fresh rows cols counterRows counterCols schema) inserts rowInside
    colInside found rfl rfl

theorem length_insertAll_fresh (inserts : List HydraInsert) :
    (insertAll hasher (fresh rows cols counterRows counterCols schema)
      inserts).sketches.data.length = rows * cols := by
  obtain ⟨-, -, -, -, sameRows, sameCols⟩ :=
    insertAll_frame hasher (fresh rows cols counterRows counterCols schema) inserts
  rw [Vector2D.sized, sameRows, sameCols]
  rfl

/-- Merging the grids of two streams gives the grid of both. -/
theorem merge_insertAll (first second : List HydraInsert) :
    merge (insertAll hasher (fresh rows cols counterRows counterCols schema) first)
        (insertAll hasher (fresh rows cols counterRows counterCols schema) second) =
      .ok (insertAll hasher (fresh rows cols counterRows counterCols schema) (first ++ second)) := by
  have merged : mergeCells
      (insertAll hasher (fresh rows cols counterRows counterCols schema) first).sketches.data
      (insertAll hasher (fresh rows cols counterRows counterCols schema) second).sketches.data =
        some (insertAll hasher (fresh rows cols counterRows counterCols schema)
          (first ++ second)).sketches.data := by
    refine mergeCells_eq_some ?_ ?_ fun place cell other result cellEq otherEq resultEq => ?_
    · rw [length_insertAll_fresh, length_insertAll_fresh]
    · rw [length_insertAll_fresh, length_insertAll_fresh]
    · have inside : place < rows * cols := by
        rw [← length_insertAll_fresh hasher first]
        exact (List.getElem?_eq_some_iff.mp cellEq).1
      have positive : 0 < cols := Nat.pos_of_ne_zero fun empty => by
        rw [empty, Nat.mul_zero] at inside
        exact Nat.not_lt_zero _ inside
      have rowInside : place / cols < rows :=
        Nat.div_lt_of_lt_mul (Nat.mul_comm rows cols ▸ inside)
      have colInside : place % cols < cols := Nat.mod_lt _ positive
      rw [← Nat.div_add_mod' place cols, getElem?_insertAll_fresh hasher _ rowInside colInside]
        at cellEq otherEq resultEq
      rw [← Option.some.inj cellEq, ← Option.some.inj otherEq, ← Option.some.inj resultEq,
        routed_append]
      exact CountMin.merge_fastInsertAll
  obtain ⟨firstRow, firstCol, firstType, firstSchema, firstRows, firstCols⟩ :=
    insertAll_frame hasher (fresh rows cols counterRows counterCols schema) first
  obtain ⟨secondRow, secondCol, -, secondSchema, -, -⟩ :=
    insertAll_frame hasher (fresh rows cols counterRows counterCols schema) second
  obtain ⟨bothRow, bothCol, bothType, bothSchema, bothRows, bothCols⟩ :=
    insertAll_frame hasher (fresh rows cols counterRows counterCols schema) (first ++ second)
  refine merge_eq (firstRow.trans secondRow.symm) (firstCol.trans secondCol.symm)
    (firstSchema.trans secondSchema.symm) ?_ ?_ merged
  · rw [length_insertAll_fresh, length_insertAll_fresh]
  · exact ⟨bothRow.trans firstRow.symm, bothCol.trans firstCol.symm,
      bothType.trans firstType.symm, bothSchema.trans firstSchema.symm,
      bothRows.trans firstRows.symm, bothCols.trans firstCols.symm⟩

end Hydra

end AsapSketchlib
