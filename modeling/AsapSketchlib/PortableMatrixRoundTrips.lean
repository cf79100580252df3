/-
This file proves the round trip of the deltas of the two portable matrix sketches: both forms
of a delta decode to the carried cells, which the snapshot takes up one by one. A threshold of
at most one carries every difference; a larger one leaves differences below it.
-/

import AsapSketchlib.PortableMatrixDeltas

namespace AsapSketchlib

namespace Portable

/-! ### What a delta restores -/

/-- A result is the current matrix if the threshold is at most one, and within the threshold
from it for every threshold that is a number. -/
structure Restores (rows cols : ℕ) (threshold : F64) (result current snapshot : List (List F64)) :
    Prop where
  equal : threshold.AtMost (F64.ofInt 1) → result = current
  within : threshold ≠ .nan → WithinThreshold rows cols threshold result current snapshot

variable {rows cols : ℕ} {current snapshot result : List (List F64)}

theorem MatrixPair.cells (pair : MatrixPair rows cols current snapshot) {row col : ℕ}
    (rowInside : row < rows) (colInside : col < cols) : ∃ cur snap : ℤ,
      cellAt current row col = some (F64.ofInt cur) ∧
        cellAt snapshot row col = some (F64.ofInt snap) ∧ F64.Exact (cur - snap) ∧
          (F64.ofInt cur).sub (F64.ofInt snap) = F64.ofInt (cur - snap) ∧
            countDelta current snapshot (row, col) = cur - snap := by
  obtain ⟨cur, snap, curEq, snapEq, curExact, snapExact, exactly⟩ :=
    pair.integers row rowInside col colInside
  have difference := F64.sub_ofInt curExact snapExact
  refine ⟨cur, snap, curEq, snapEq, exactly, difference, ?_⟩
  unfold countDelta
  rw [curEq, snapEq, Option.getD_some, Option.getD_some, difference, F64.asI64_ofInt exactly]

theorem Selective.restores {Carried : F64 → ℤ → Prop} (selective : Selective Carried)
    {threshold : F64} [DecidablePred (Carried threshold)]
    (pair : MatrixPair rows cols current snapshot) (shaped : Shaped rows cols result)
    (cells : ∀ row < rows, ∀ col < cols, cellAt result row col =
      if Carried threshold (countDelta current snapshot (row, col)) then cellAt current row col
      else cellAt snapshot row col) : Restores rows cols threshold result current snapshot where
  equal := by
    intro atMost
    refine shaped.ext pair.currentShaped fun row rowInside col colInside => ?_
    obtain ⟨cur, snap, curEq, snapEq, exactly, -, delta⟩ := pair.cells rowInside colInside
    rw [cells row rowInside col colInside, delta]
    by_cases same : cur - snap = 0
    · rw [curEq, snapEq, sub_eq_zero.mp same, ite_self]
    · rw [if_pos (selective.all threshold _ atMost exactly same)]
  within := by
    intro number row rowInside col colInside
    obtain ⟨cur, snap, curEq, snapEq, exactly, difference, delta⟩ :=
      pair.cells rowInside colInside
    rw [cells row rowInside col colInside, delta]
    by_cases carried : Carried threshold (cur - snap)
    · exact Or.inl (if_pos carried)
    · rw [if_neg carried]
      by_cases same : cur - snap = 0
      · refine Or.inl ?_
        rw [curEq, snapEq, sub_eq_zero.mp same]
      · refine Or.inr ⟨_, _, curEq, snapEq, snapEq, ?_⟩
        rw [difference, F64.abs_ofInt exactly]
        exact selective.large threshold _ number exactly same carried

/-! ### The two forms of a delta -/

theorem packedCells_map (cells : List (ℕ × ℕ × ℤ)) :
    packedCells (cells.map fun cell => cell.1) (cells.map fun cell => cell.2.1)
      (cells.map fun cell => cell.2.2) [] = cells := by
  unfold packedCells
  cases cells with
  | nil => rfl
  | cons cell rest =>
    rw [List.zip_map', List.zip_map', List.map_map]
    exact List.map_id _

theorem MatrixWire.cells_ofCells (rows cols : ℕ) (cells : List (ℕ × ℕ × ℤ)) :
    (MatrixWire.ofCells rows cols cells).cells = cells := by
  unfold MatrixWire.cells MatrixWire.ofCells
  dsimp only
  rw [List.zip_map', List.zip_map', List.map_map]
  exact List.map_id _

theorem carriedOf_inside {Carried : ℤ → Prop} [DecidablePred Carried] :
    ∀ cell ∈ carriedOf Carried rows cols current snapshot, cell.1 < rows ∧ cell.2.1 < cols := by
  intro cell member
  obtain ⟨place, placeMember, rfl⟩ := List.mem_map.mp (List.mem_filter.mp member).1
  exact mem_places_iff.mp placeMember

/-! ### Count Sketch -/

namespace CountSketch

variable (hash64 : String → BitVec 64) {sketch snapshot : CountSketch}

theorem addCells_ok {cells : List (ℕ × ℕ × ℤ)} {added : List (List F64)}
    (inside : ∀ cell ∈ cells, cell.1 < sketch.rows ∧ cell.2.1 < sketch.cols)
    (addition : addAll sketch.matrix cells = some added) :
    sketch.addCells cells = ({ sketch with matrix := added }, .ok) := by
  induction cells generalizing sketch with
  | nil =>
    obtain rfl := Option.some.inj addition
    rfl
  | cons cell rest hypothesis =>
    obtain ⟨r, c, dCount⟩ := cell
    obtain ⟨⟨rowInside, colInside⟩, others⟩ := List.forall_mem_cons.mp inside
    obtain ⟨next, first, later⟩ := Option.bind_eq_some_iff.mp
      ((List.foldlM_cons ..).symm.trans addition)
    have outside : ¬(sketch.rows ≤ r ∨ sketch.cols ≤ c) :=
      not_or.mpr ⟨not_le.mpr rowInside, not_le.mpr colInside⟩
    unfold addCells
    dsimp only at first ⊢
    rw [if_neg outside, first]
    exact hypothesis others later

/-- Two sketches of one shape whose cells make a pair. -/
structure Pair (sketch snapshot : CountSketch) : Prop where
  rows : snapshot.rows = sketch.rows
  cols : snapshot.cols = sketch.cols
  matrices : MatrixPair sketch.rows sketch.cols sketch.matrix snapshot.matrix

theorem Pair.mismatch_eq_none (pair : Pair sketch snapshot) : sketch.mismatch snapshot = none := by
  unfold mismatch
  dsimp only
  rw [pair.rows, pair.cols]
  exact if_neg fun differs => differs.elim (absurd rfl) (absurd rfl)

section

variable (pair : Pair sketch snapshot) (threshold : F64)

include pair

theorem Pair.carriedCells_eq :
    sketch.carriedCells snapshot threshold = some (carriedOf (Carried threshold) sketch.rows
      sketch.cols sketch.matrix snapshot.matrix) := by
  unfold carriedCells
  rw [cellDeltas_eq pair.matrices]
  rfl

theorem Pair.exists_protoDelta :
    ∃ message, sketch.protoDelta snapshot threshold = some message ∧
      packedCells message.cellRows message.cellCols message.dCounts message.cellsLegacy =
        carriedOf (Carried threshold) sketch.rows sketch.cols sketch.matrix snapshot.matrix ∧
      message.hhKeys = [] ∧ message.topk = none := by
  obtain ⟨l2, norms⟩ := rowNorms_isSome (fun cell => cell.mul cell) pair.matrices
  unfold protoDelta
  rw [pair.carriedCells_eq, norms]
  exact ⟨_, rfl, packedCells_map _, rfl, rfl⟩

theorem Pair.applyDelta_carried :
    ∃ result, Restores sketch.rows sketch.cols threshold result sketch.matrix snapshot.matrix ∧
      ∀ delta : CountSketchDelta, delta.hhKeys = [] →
        delta.cells = carriedOf (Carried threshold) sketch.rows sketch.cols sketch.matrix
          snapshot.matrix →
        snapshot.applyDelta hash64 delta = ({ snapshot with matrix := result }, .ok) := by
  obtain ⟨result, addition, shaped, cells⟩ :=
    addAll_carriedOf (Carried threshold) pair.matrices
  refine ⟨result, selective_countSketch.restores pair.matrices shaped cells, ?_⟩
  intro delta noKeys carried
  have inside : ∀ cell ∈ delta.cells, cell.1 < snapshot.rows ∧ cell.2.1 < snapshot.cols := by
    rw [carried, pair.rows, pair.cols]
    exact carriedOf_inside
  unfold applyDelta
  rw [addCells_ok inside (carried ▸ addition), noKeys]
  rfl

end

/-- Both forms of a delta give the snapshot one matrix, which is restored. -/
theorem delta_round_trip {prost : Prost CountSketchProtoDelta} {rmp : RmpSerde MatrixWire}
    {threshold : F64} (pair : Pair sketch snapshot)
    (prostTrips : ∀ message, sketch.protoDelta snapshot threshold = some message →
      prost.RoundTrips message)
    (rmpTrips : ∀ message, sketch.msgpackDelta snapshot threshold = some message →
      RoundTrips rmp message) :
    ∃ result, Restores sketch.rows sketch.cols threshold result sketch.matrix snapshot.matrix ∧
      (∃ bytes, sketch.computeDelta prost snapshot threshold = some (.ok bytes) ∧
        snapshot.applyDeltaBytes hash64 prost bytes = ({ snapshot with matrix := result }, .ok)) ∧
      ∃ bytes, sketch.computeDeltaMsgpack rmp snapshot threshold = some (.ok bytes) ∧
        snapshot.applyDeltaMsgpackBytes hash64 rmp bytes =
          ({ snapshot with matrix := result }, .ok) := by
  obtain ⟨result, restores, applied⟩ := pair.applyDelta_carried hash64 threshold
  refine ⟨result, restores, ?_, ?_⟩
  · obtain ⟨message, messageEq, cells, noKeys, noTopk⟩ := pair.exists_protoDelta threshold
    refine ⟨prost.encodeToVec message, ?_, ?_⟩
    · unfold computeDelta
      rw [pair.mismatch_eq_none, messageEq]
      rfl
    · unfold applyDeltaBytes decodeDelta
      rw [prostTrips message messageEq]
      refine applied _ ?_ cells
      show (if (!message.hhKeys.isEmpty) = true then message.hhKeys else message.topk.getD []) = []
      rw [noKeys, noTopk]
      rfl
  · have messageEq : sketch.msgpackDelta snapshot threshold =
        some (MatrixWire.ofCells (sketch.rows % 2 ^ 32) (sketch.cols % 2 ^ 32)
          (carriedOf (Carried threshold) sketch.rows sketch.cols sketch.matrix
            snapshot.matrix)) := by
      unfold msgpackDelta
      rw [pair.carriedCells_eq]
      rfl
    obtain ⟨bytes, written, read⟩ := fromMsgpack_of_roundTrips (rmpTrips _ messageEq)
    refine ⟨bytes, ?_, ?_⟩
    · unfold computeDeltaMsgpack
      rw [pair.mismatch_eq_none, messageEq]
      dsimp only
      rw [Option.map_some, written]
      rfl
    · unfold applyDeltaMsgpackBytes decodeDeltaMsgpack
      rw [read]
      exact applied _ rfl (MatrixWire.cells_ofCells _ _ _)

end CountSketch

/-! ### Count-Min -/

theorem getElem?_places {row col : ℕ} (rowInside : row < rows) (colInside : col < cols) :
    (places rows cols)[row * cols + col]? = some (row, col) := by
  induction rows with
  | zero => exact absurd rowInside (Nat.not_lt_zero row)
  | succ rows hypothesis =>
    have split : places (rows + 1) cols =
        places rows cols ++ (List.range cols).map fun col => (rows, col) := by
      unfold places
      rw [List.range_succ, List.flatMap_append, List.flatMap_singleton]
    rw [split]
    rcases Nat.lt_succ_iff_lt_or_eq.mp rowInside with earlier | rfl
    · rw [List.getElem?_append_left (by
        rw [length_places]
        exact Grid.position_lt earlier colInside)]
      exact hypothesis earlier
    · rw [List.getElem?_append_right (by
        rw [length_places]
        exact Nat.le_add_right _ _), length_places, Nat.add_sub_cancel_left, List.getElem?_map,
        List.getElem?_range colInside]
      rfl

theorem shaped_matrixFromSketchlibCms (backend : Vector2D F64) :
    Shaped backend.rows backend.cols (matrixFromSketchlibCms backend) where
  rowCount := by
    unfold matrixFromSketchlibCms
    rw [List.length_map, List.length_range]
  colCount := by
    intro cells member
    obtain ⟨row, -, rfl⟩ := List.mem_map.mp member
    rw [List.length_map, List.length_range]

theorem matrixFromSketchlibCms_sketchlibCmsFromMatrix {matrix : List (List F64)}
    (shaped : Shaped rows cols matrix) :
    matrixFromSketchlibCms (sketchlibCmsFromMatrix rows cols matrix) = matrix := by
  refine (shaped_matrixFromSketchlibCms _).ext shaped fun row rowInside col colInside => ?_
  obtain ⟨cell, found⟩ := shaped.cellAt_eq_some rowInside colInside
  have place : (places rows cols)[row * cols + col]? = some (row, col) :=
    getElem?_places rowInside colInside
  have stored : (sketchlibCmsFromMatrix rows cols matrix).data[row * cols + col]? = some cell := by
    unfold sketchlibCmsFromMatrix
    rw [List.getElem?_map, place, Option.map_some, found, Option.getD_some]
  rw [found]
  unfold cellAt matrixFromSketchlibCms
  rw [List.getElem?_map, List.getElem?_range rowInside, Option.map_some, Option.bind_some,
    List.getElem?_map, List.getElem?_range colInside, Option.map_some]
  exact congrArg (fun read => some (read.getD F64.zero)) stored

namespace CountMinSketch

variable {cms snapshot : CountMinSketch}

/-- Two sketches of one shape, as are their backends, whose cells make a pair. -/
structure Pair (cms snapshot : CountMinSketch) : Prop where
  rows : snapshot.rows = cms.rows
  cols : snapshot.cols = cms.cols
  matrices : MatrixPair cms.rows cms.cols cms.sketch snapshot.sketch

theorem Pair.mismatch_eq_none (pair : Pair cms snapshot) : cms.mismatch snapshot = none := by
  unfold mismatch
  dsimp only
  rw [pair.rows, pair.cols]
  exact if_neg fun differs => differs.elim (absurd rfl) (absurd rfl)

section

variable (pair : Pair cms snapshot) (threshold : F64)

include pair

theorem Pair.carriedCells_eq :
    cms.carriedCells snapshot threshold = some (carriedOf (Carried threshold) cms.rows
      cms.cols cms.sketch snapshot.sketch) := by
  unfold carriedCells
  rw [cellDeltas_eq pair.matrices]
  rfl

theorem Pair.exists_protoDelta :
    ∃ message, cms.protoDelta snapshot threshold = some message ∧
      packedCells message.cellRows message.cellCols message.dCounts message.cellsLegacy =
        carriedOf (Carried threshold) cms.rows cms.cols cms.sketch snapshot.sketch := by
  obtain ⟨l1, firstNorms⟩ := rowNorms_isSome id pair.matrices
  obtain ⟨l2, secondNorms⟩ := rowNorms_isSome (fun cell => cell.mul cell) pair.matrices
  unfold protoDelta
  rw [pair.carriedCells_eq, firstNorms, secondNorms]
  exact ⟨_, rfl, packedCells_map _⟩

theorem Pair.applyDelta_carried :
    ∃ result, Restores cms.rows cms.cols threshold (matrixFromSketchlibCms result) cms.sketch
        snapshot.sketch ∧
      ∀ delta : CountMinSketchDelta,
        delta.cells = carriedOf (Carried threshold) cms.rows cms.cols cms.sketch
          snapshot.sketch →
        snapshot.applyDelta delta = ({ snapshot with backend := result }, .ok) := by
  obtain ⟨matrix, addition, shaped, cells⟩ :=
    addAll_carriedOf (Carried threshold) pair.matrices
  refine ⟨sketchlibCmsFromMatrix cms.rows cms.cols matrix, ?_, ?_⟩
  · rw [matrixFromSketchlibCms_sketchlibCmsFromMatrix shaped]
    exact selective_countMin.restores pair.matrices shaped cells
  · intro delta carried
    have inRange : snapshot.checkCells delta.cells = none := by
      unfold checkCells
      rw [List.findSome?_eq_none_iff, carried]
      intro cell member
      obtain ⟨rowInside, colInside⟩ := carriedOf_inside cell member
      dsimp only
      rw [pair.rows, pair.cols]
      exact if_neg (not_or.mpr ⟨not_le.mpr rowInside, not_le.mpr colInside⟩)
    have added : delta.cells.foldlM (fun matrix cell =>
        addAt matrix cell.1 cell.2.1 (F64.ofInt cell.2.2)) snapshot.sketch = some matrix := by
      rw [carried]
      exact addition
    unfold applyDelta
    rw [inRange]
    dsimp only
    rw [added, pair.rows, pair.cols]

end

/-- Both forms of a delta give the snapshot one backend, whose matrix is restored. -/
theorem delta_round_trip {prost : Prost CountMinProtoDelta} {rmp : RmpSerde MatrixWire}
    {threshold : F64} (pair : Pair cms snapshot)
    (prostTrips : ∀ message, cms.protoDelta snapshot threshold = some message →
      prost.RoundTrips message)
    (rmpTrips : ∀ message, cms.msgpackDelta snapshot threshold = some message →
      RoundTrips rmp message) :
    ∃ result, Restores cms.rows cms.cols threshold (matrixFromSketchlibCms result) cms.sketch
        snapshot.sketch ∧
      (∃ bytes, cms.computeDelta prost snapshot threshold = some (.ok bytes) ∧
        snapshot.applyDeltaBytes prost bytes = ({ snapshot with backend := result }, .ok)) ∧
      ∃ bytes, cms.computeDeltaMsgpack rmp snapshot threshold = some (.ok bytes) ∧
        snapshot.applyDeltaMsgpackBytes rmp bytes =
          ({ snapshot with backend := result }, .ok) := by
  obtain ⟨result, restores, applied⟩ := pair.applyDelta_carried threshold
  refine ⟨result, restores, ?_, ?_⟩
  · obtain ⟨message, messageEq, cells⟩ := pair.exists_protoDelta threshold
    refine ⟨prost.encodeToVec message, ?_, ?_⟩
    · unfold computeDelta
      rw [pair.mismatch_eq_none, messageEq]
      rfl
    · unfold applyDeltaBytes decodeDelta
      rw [prostTrips message messageEq]
      exact applied _ cells
  · have messageEq : cms.msgpackDelta snapshot threshold =
        some (MatrixWire.ofCells (cms.rows % 2 ^ 32) (cms.cols % 2 ^ 32)
          (carriedOf (Carried threshold) cms.rows cms.cols cms.sketch snapshot.sketch)) := by
      unfold msgpackDelta
      rw [pair.carriedCells_eq]
      rfl
    obtain ⟨bytes, written, read⟩ := fromMsgpack_of_roundTrips (rmpTrips _ messageEq)
    refine ⟨bytes, ?_, ?_⟩
    · unfold computeDeltaMsgpack
      rw [pair.mismatch_eq_none, messageEq]
      dsimp only
      rw [Option.map_some, written]
      rfl
    · unfold applyDeltaMsgpackBytes decodeDeltaMsgpack
      rw [read]
      exact applied _ (MatrixWire.cells_ofCells _ _ _)

end CountMinSketch

end Portable

end AsapSketchlib
