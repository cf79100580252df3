/-
This file proves what a delta of the two portable matrix sketches does. Cells hold integers
that `f64` holds exactly, with exact differences. A delta carries some cells of the difference
of two sketches, each once; applied to the snapshot it makes these cells equal to the current
ones and leaves the others, where the sketches differ by less than the threshold.
-/

import AsapSketchlib.FallibleMaps
import AsapSketchlib.PortableRejections
import Mathlib.Data.List.ProdSigma

namespace AsapSketchlib

namespace Portable

/-! ### Places -/

theorem mem_places_iff {rows cols : ℕ} {place : ℕ × ℕ} :
    place ∈ places rows cols ↔ place.1 < rows ∧ place.2 < cols := by
  have product := @List.mem_product _ _ (List.range rows) (List.range cols) place.1 place.2
  rw [List.mem_range, List.mem_range] at product
  exact product

theorem nodup_places (rows cols : ℕ) : (places rows cols).Nodup :=
  List.Nodup.product List.nodup_range List.nodup_range

theorem filter_places {rows cols row col : ℕ} (rowInside : row < rows) (colInside : col < cols) :
    ((places rows cols).filter fun place => place = (row, col)) = [(row, col)] := by
  rw [List.filter_eq, List.count_eq_one_of_mem (nodup_places rows cols)
    (mem_places_iff.mpr ⟨rowInside, colInside⟩)]
  rfl

/-! ### Pairs of matrices -/

structure Shaped (rows cols : ℕ) (matrix : List (List F64)) : Prop where
  rowCount : matrix.length = rows
  colCount : ∀ cells ∈ matrix, cells.length = cols

theorem Shaped.map_length {rows cols : ℕ} {matrix : List (List F64)}
    (shaped : Shaped rows cols matrix) : matrix.map List.length = List.replicate rows cols := by
  rw [← shaped.rowCount, ← List.map_const']
  exact List.map_congr_left shaped.colCount

section

variable {rows cols row col : ℕ} {matrix : List (List F64)} (shaped : Shaped rows cols matrix)

include shaped

theorem Shaped.cellAt_eq_some (rowInside : row < rows) (colInside : col < cols) :
    ∃ cell, cellAt matrix row col = some cell := by
  have rowBound : row < matrix.length := shaped.rowCount ▸ rowInside
  have colBound : col < matrix[row].length :=
    (shaped.colCount _ (List.getElem_mem rowBound)).symm ▸ colInside
  unfold cellAt
  rw [List.getElem?_eq_getElem rowBound]
  exact ⟨_, List.getElem?_eq_getElem colBound⟩

theorem Shaped.cellAt_eq_none (outside : ¬(row < rows ∧ col < cols)) :
    cellAt matrix row col = none := by
  unfold cellAt
  by_cases rowBound : row < matrix.length
  · rw [List.getElem?_eq_getElem rowBound, Option.bind_some]
    refine List.getElem?_eq_none ?_
    rw [shaped.colCount _ (List.getElem_mem rowBound)]
    exact not_lt.mp fun colInside => outside ⟨shaped.rowCount ▸ rowBound, colInside⟩
  · rw [List.getElem?_eq_none (not_lt.mp rowBound)]
    rfl

end

/-- Two matrices of one shape whose indexes fit the `u32` of a delta, with integers for cells
that are exact, as are their differences. -/
structure MatrixPair (rows cols : ℕ) (current snapshot : List (List F64)) : Prop where
  rowsFit : rows ≤ 2 ^ 32
  colsFit : cols ≤ 2 ^ 32
  currentShaped : Shaped rows cols current
  snapshotShaped : Shaped rows cols snapshot
  integers : ∀ row < rows, ∀ col < cols, ∃ cur snap : ℤ,
    cellAt current row col = some (F64.ofInt cur) ∧
      cellAt snapshot row col = some (F64.ofInt snap) ∧
        F64.Exact cur ∧ F64.Exact snap ∧ F64.Exact (cur - snap)

/-- The cells of a result are those of the current matrix, up to cells of the snapshot where the
two differ by less than the threshold. -/
def WithinThreshold (rows cols : ℕ) (threshold : F64) (result current snapshot : List (List F64)) :
    Prop :=
  ∀ row < rows, ∀ col < cols, cellAt result row col = cellAt current row col ∨
    ∃ cur snap, cellAt current row col = some cur ∧ cellAt snapshot row col = some snap ∧
      cellAt result row col = some snap ∧ (cur.sub snap).abs.Less threshold

/-! ### Computing a delta -/

def countDelta (current snapshot : List (List F64)) (place : ℕ × ℕ) : ℤ :=
  (((cellAt current place.1 place.2).getD F64.zero).sub
    ((cellAt snapshot place.1 place.2).getD F64.zero)).asI64

variable {rows cols : ℕ} {current snapshot : List (List F64)}

theorem cellDeltas_eq (pair : MatrixPair rows cols current snapshot) :
    cellDeltas rows cols current snapshot = some ((places rows cols).map fun place =>
      (place.1, place.2, countDelta current snapshot place)) := by
  refine mapM_eq_some fun place member => ?_
  obtain ⟨rowInside, colInside⟩ := mem_places_iff.mp member
  obtain ⟨cur, snap, curEq, snapEq, -⟩ := pair.integers place.1 rowInside place.2 colInside
  rw [curEq, snapEq]
  unfold countDelta
  rw [curEq, snapEq]
  show some (place.1 % 2 ^ 32, place.2 % 2 ^ 32, _) = some (place.1, place.2, _)
  rw [Nat.mod_eq_of_lt (rowInside.trans_le pair.rowsFit),
    Nat.mod_eq_of_lt (colInside.trans_le pair.colsFit)]
  rfl

theorem rowNorms_isSome (norm : F64 → F64) (pair : MatrixPair rows cols current snapshot) :
    ∃ norms, rowNorms norm rows cols current snapshot = some norms := by
  have total : ∀ matrix : List (List F64), Shaped rows cols matrix → ∀ row < rows,
      ∃ sum, (List.range cols).foldlM (fun sum col => (cellAt matrix row col).map fun cell =>
        F64.add sum (norm cell)) F64.zero = some sum := by
    intro matrix shaped row rowInside
    have inside : ∀ col ∈ List.range cols, ∃ cell, cellAt matrix row col = some cell :=
      fun col member => shaped.cellAt_eq_some rowInside (List.mem_range.mp member)
    generalize List.range cols = indexes at inside
    generalize F64.zero = start
    induction indexes generalizing start with
    | nil => exact ⟨start, rfl⟩
    | cons col rest hypothesis =>
      obtain ⟨⟨cell, found⟩, others⟩ := List.forall_mem_cons.mp inside
      rw [List.foldlM_cons, found]
      exact hypothesis others _
  refine exists_mapM fun row member => ?_
  obtain ⟨cur, curEq⟩ := total current pair.currentShaped row (List.mem_range.mp member)
  obtain ⟨snap, snapEq⟩ := total snapshot pair.snapshotShaped row (List.mem_range.mp member)
  refine ⟨cur.sub snap, ?_⟩
  dsimp only
  rw [curEq, snapEq]
  rfl

def carriedOf (Carried : ℤ → Prop) [DecidablePred Carried] (rows cols : ℕ)
    (current snapshot : List (List F64)) : List (ℕ × ℕ × ℤ) :=
  ((places rows cols).map fun place =>
    (place.1, place.2, countDelta current snapshot place)).filter fun cell => Carried cell.2.2

/-! ### Applying a delta -/

section Applying

variable {Carried : ℤ → Prop} [DecidablePred Carried]

theorem addTo_carriedOf {row col : ℕ} (rowInside : row < rows) (colInside : col < cols)
    (value : F64) : addTo row col value (carriedOf Carried rows cols current snapshot) =
      if Carried (countDelta current snapshot (row, col)) then
        value.add (F64.ofInt (countDelta current snapshot (row, col)))
      else value := by
  have atPlace : ((carriedOf Carried rows cols current snapshot).filter fun cell =>
      cell.1 = row ∧ cell.2.1 = col) =
        if Carried (countDelta current snapshot (row, col)) then
          [(row, col, countDelta current snapshot (row, col))] else [] := by
    have once : (places rows cols).filter (fun place =>
        decide (place.1 = row ∧ place.2 = col) &&
          decide (Carried (countDelta current snapshot place))) =
          [(row, col)].filter fun place => Carried (countDelta current snapshot place) := by
      rw [← filter_places rowInside colInside, List.filter_filter]
      refine List.filter_congr fun place _ => ?_
      rw [Bool.and_comm]
      refine congrArg _ (decide_eq_decide.mpr ⟨fun same => Prod.ext same.1 same.2, fun same => ?_⟩)
      rw [same]
      exact ⟨rfl, rfl⟩
    unfold carriedOf
    rw [List.filter_filter, List.filter_map]
    refine (congrArg _ once).trans ?_
    by_cases carried : Carried (countDelta current snapshot (row, col))
    · rw [if_pos carried, List.filter_cons_of_pos (by simpa using carried)]
      rfl
    · rw [if_neg carried, List.filter_cons_of_neg (by simpa using carried)]
      rfl
  unfold addTo
  rw [atPlace]
  split <;> rfl

theorem addAll_isSome {matrix : List (List F64)} {cells : List (ℕ × ℕ × ℤ)}
    (inside : ∀ cell ∈ cells, ∃ value, cellAt matrix cell.1 cell.2.1 = some value) :
    ∃ added, addAll matrix cells = some added := by
  induction cells generalizing matrix with
  | nil => exact ⟨matrix, rfl⟩
  | cons cell rest hypothesis =>
    obtain ⟨⟨value, found⟩, others⟩ := List.forall_mem_cons.mp inside
    have first : ∃ next, addAt matrix cell.1 cell.2.1 (F64.ofInt cell.2.2) = some next := by
      unfold addAt
      rw [found]
      exact ⟨_, rfl⟩
    obtain ⟨next, firstEq⟩ := first
    obtain ⟨added, later⟩ := hypothesis fun other member => by
      obtain ⟨otherValue, otherFound⟩ := others other member
      rw [cellAt_addAt firstEq, otherFound]
      exact ⟨_, rfl⟩
    refine ⟨added, ?_⟩
    unfold addAll
    rw [List.foldlM_cons, firstEq]
    exact later

variable (Carried) in
theorem addAll_carriedOf (pair : MatrixPair rows cols current snapshot) :
    ∃ result, addAll snapshot (carriedOf Carried rows cols current snapshot) = some result ∧
      Shaped rows cols result ∧ ∀ row < rows, ∀ col < cols, cellAt result row col =
        if Carried (countDelta current snapshot (row, col)) then cellAt current row col
        else cellAt snapshot row col := by
  have inside : ∀ cell ∈ carriedOf Carried rows cols current snapshot,
      ∃ value, cellAt snapshot cell.1 cell.2.1 = some value := by
    intro cell member
    obtain ⟨place, placeMember, rfl⟩ := List.mem_map.mp (List.mem_filter.mp member).1
    obtain ⟨rowInside, colInside⟩ := mem_places_iff.mp placeMember
    exact pair.snapshotShaped.cellAt_eq_some rowInside colInside
  obtain ⟨result, addition⟩ := addAll_isSome inside
  refine ⟨result, addition, ?_, fun row rowInside col colInside => ?_⟩
  · have lengths := map_length_addAll addition
    rw [pair.snapshotShaped.map_length] at lengths
    refine ⟨?_, fun cells member => ?_⟩
    · have count := congrArg List.length lengths
      rwa [List.length_map, List.length_replicate] at count
    · have length := List.mem_map_of_mem (f := List.length) member
      rw [lengths] at length
      exact List.eq_of_mem_replicate length
  · obtain ⟨cur, snap, curEq, snapEq, curExact, snapExact, exactly⟩ :=
      pair.integers row rowInside col colInside
    have delta : countDelta current snapshot (row, col) = cur - snap := by
      unfold countDelta
      rw [curEq, snapEq, Option.getD_some, Option.getD_some, F64.sub_ofInt curExact snapExact,
        F64.asI64_ofInt exactly]
    rw [cellAt_addAll addition, snapEq, Option.map_some, addTo_carriedOf rowInside colInside, delta,
      F64.add_ofInt snapExact exactly, add_sub_cancel, curEq]
    split <;> rfl

end Applying

theorem Shaped.ext {left right : List (List F64)} (leftShaped : Shaped rows cols left)
    (rightShaped : Shaped rows cols right)
    (cells : ∀ row < rows, ∀ col < cols, cellAt left row col = cellAt right row col) :
    left = right := by
  refine matrix_ext (leftShaped.map_length.trans rightShaped.map_length.symm) fun row col => ?_
  by_cases inside : row < rows ∧ col < cols
  · exact cells row inside.1 col inside.2
  · rw [leftShaped.cellAt_eq_none inside, rightShaped.cellAt_eq_none inside]

/-! ### Thresholds -/

/-- A rule carries all it should: every count delta if the threshold is at most one, and every
one that the threshold does not exceed. -/
structure Selective (Carried : F64 → ℤ → Prop) : Prop where
  all : ∀ threshold dc, threshold.AtMost (F64.ofInt 1) → F64.Exact dc → dc ≠ 0 →
    Carried threshold dc
  large : ∀ threshold dc, threshold ≠ .nan → F64.Exact dc → dc ≠ 0 → ¬Carried threshold dc →
    (F64.ofInt |dc|).Less threshold

theorem asI64_le_one {threshold : F64} (atMost : threshold.AtMost (F64.ofInt 1)) :
    threshold.asI64 ≤ 1 := by
  cases threshold with
  | finite value =>
    have le : value ≤ 1 := by
      have known := (F64.finite_atMost_ofInt_iff (by decide)).mp atMost
      rwa [Int.cast_one] at known
    show f64AsI64 value ≤ 1
    unfold f64AsI64
    have floorLe : ⌊value⌋ ≤ 1 := Int.floor_le_iff.mpr (le.trans_lt (by norm_num))
    have ceilLe : ⌈value⌉ ≤ 1 := Int.ceil_le.mpr (by rwa [Int.cast_one])
    have truncated : (if 0 ≤ value then ⌊value⌋ else ⌈value⌉) ≤ 1 := by
      split
      · exact floorLe
      · exact ceilLe
    exact max_le (by decide) ((min_le_right _ _).trans truncated)
  | infinite negative =>
    cases negative with
    | true => decide
    | false => exact absurd atMost (by rw [F64.ofInt_of_exact (by decide)]; decide)
  | nan => exact absurd atMost (by decide)

theorem less_of_lt_asI64 {threshold : F64} {value : ℤ} (exactly : F64.Exact value)
    (nonneg : 0 ≤ value) (less : value < threshold.asI64) : (F64.ofInt value).Less threshold := by
  cases threshold with
  | finite bound =>
    rw [F64.ofInt_less_finite_iff exactly]
    have truncated : value < if 0 ≤ bound then ⌊bound⌋ else ⌈bound⌉ := by
      have clamped : value < max i64Min (min i64Max (if 0 ≤ bound then ⌊bound⌋ else ⌈bound⌉)) :=
        less
      rcases lt_max_iff.mp clamped with low | high
      · exact absurd (nonneg.trans_lt low) (by decide)
      · exact high.trans_le (min_le_right _ _)
    split at truncated
    · exact (Int.cast_lt.mpr truncated).trans_le (Int.floor_le bound)
    · next negative =>
      have ceilLe : ⌈bound⌉ ≤ 0 := Int.ceil_le.mpr (by
        rw [Int.cast_zero]
        exact le_of_lt (not_le.mp negative))
      exact absurd (nonneg.trans_lt truncated) (not_lt.mpr ceilLe)
  | infinite negative =>
    cases negative with
    | true => exact absurd (nonneg.trans_lt less) (by decide)
    | false =>
      rw [F64.ofInt_of_exact exactly]
      rfl
  | nan => exact absurd (nonneg.trans_lt less) (by decide)

theorem selective_countSketch : Selective CountSketch.Carried where
  all := by
    intro threshold dc atMost exactly nonzero
    have bound := abs_le.mp exactly
    have small := asI64_le_one atMost
    refine ⟨nonzero, ?_⟩
    unfold negI64
    split
    · next least =>
      rw [least]
      unfold i64Min
      omega
    · omega
  large := by
    intro threshold dc number exactly nonzero dropped
    have bound := abs_le.mp exactly
    have outside : ¬dc ≤ negI64 threshold.asI64 ∧ ¬threshold.asI64 ≤ dc :=
      not_or.mp fun reached => dropped ⟨nonzero, reached⟩
    refine less_of_lt_asI64 (F64.exact_abs exactly) (abs_nonneg dc) (abs_lt.mpr ?_)
    obtain ⟨low, high⟩ := outside
    unfold negI64 at low
    split at low
    · next least =>
      rw [least] at high
      unfold i64Min at high
      omega
    · omega

theorem selective_countMin : Selective CountMinSketch.Carried where
  all := by
    intro threshold dc atMost exactly nonzero
    have positive : 1 ≤ |dc| := Int.one_le_abs nonzero
    refine ⟨nonzero, ?_⟩
    cases threshold with
    | finite value =>
      rw [F64.finite_atMost_ofInt_iff (by decide)] at atMost
      rw [F64.finite_atMost_ofInt_iff (F64.exact_abs exactly)]
      exact atMost.trans (Int.cast_le.mpr positive)
    | infinite negative =>
      rw [F64.ofInt_of_exact (by decide)] at atMost
      rw [F64.ofInt_of_exact (F64.exact_abs exactly)]
      exact atMost
    | nan => exact absurd atMost (by decide)
  large := by
    intro threshold dc number exactly nonzero dropped
    have notReached : ¬threshold.AtMost (F64.ofInt |dc|) := fun reached =>
      dropped ⟨nonzero, reached⟩
    cases threshold with
    | finite value =>
      rw [F64.finite_atMost_ofInt_iff (F64.exact_abs exactly)] at notReached
      rw [F64.ofInt_less_finite_iff (F64.exact_abs exactly)]
      exact not_le.mp notReached
    | infinite negative =>
      rw [F64.ofInt_of_exact (F64.exact_abs exactly)] at notReached ⊢
      cases negative with
      | true => exact absurd (Or.inl rfl) notReached
      | false => rfl
    | nan => exact absurd rfl number

end Portable

end AsapSketchlib
