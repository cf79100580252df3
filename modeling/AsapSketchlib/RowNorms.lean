/-
This file proves that the squared norms CountL2HH keeps beside its counters are those of its
rows. An insert and a delta change a norm by the squares of one counter before and after, a merge
works the norms out anew and a clear resets them; as long as every squared norm fits an `i64`,
none of this drifts from the counters.
-/

import AsapSketchlib.CountL2HH
import AsapSketchlib.OctoWorkers
import Mathlib.Algebra.BigOperators.Fin
import Mathlib.Algebra.Order.BigOperators.Group.List

namespace AsapSketchlib

namespace CountL2HH

/-! ### Squared norms -/

def squareSum (counts : Vector2D ℤ) (row : ℕ) : ℤ :=
  ((List.range counts.cols).map fun col =>
    counts.queryOneCounter row col * counts.queryOneCounter row col).sum

/-- The squared norm of every row fits an `i64`, and with it every counter. -/
def Within (sketch : CountL2HH) : Prop :=
  ∀ row < sketch.counts.rows, squareSum sketch.counts row ≤ i64Max

def Normed (sketch : CountL2HH) : Prop :=
  sketch.l2 = (List.range sketch.counts.rows).map (squareSum sketch.counts)

theorem squareSum_nonneg (counts : Vector2D ℤ) (row : ℕ) : 0 ≤ squareSum counts row := by
  refine List.sum_nonneg fun square member => ?_
  obtain ⟨col, _, rfl⟩ := List.mem_map.mp member
  exact mul_self_nonneg _

theorem squareSum_congr {left right : Vector2D ℤ} {row : ℕ} (sameCols : left.cols = right.cols)
    (same : ∀ col < left.cols, left.queryOneCounter row col = right.queryOneCounter row col) :
    squareSum left row = squareSum right row := by
  unfold squareSum
  rw [← sameCols]
  refine congrArg List.sum (List.map_congr_left fun col member => ?_)
  rw [same col (List.mem_range.mp member)]

theorem sum_range_replaced (before after : ℕ → ℤ) {cols target : ℕ} (inside : target < cols)
    (others : ∀ col < cols, col ≠ target → after col = before col) :
    ((List.range cols).map after).sum =
      ((List.range cols).map before).sum + after target - before target := by
  induction cols with
  | zero => exact absurd inside (Nat.not_lt_zero target)
  | succ last hypothesis =>
    have othersBelow := fun col (below : col < last) =>
      others col (below.trans (Nat.lt_succ_self last))
    simp only [List.range_succ, List.map_append, List.sum_append, List.map_singleton,
      List.sum_singleton]
    rcases Nat.lt_succ_iff_lt_or_eq.mp inside with below | rfl
    · rw [hypothesis below othersBelow,
        others last (Nat.lt_succ_self last) (Nat.ne_of_gt below)]
      ring
    · have untouched : (List.range target).map after = (List.range target).map before :=
        List.map_congr_left fun col member =>
          othersBelow col (List.mem_range.mp member) (Nat.ne_of_lt (List.mem_range.mp member))
      rw [untouched]
      ring

variable (sketch : CountL2HH)

theorem squareSum_writeCounter {row col : ℕ} (colInside : col < sketch.counts.cols) (value : ℤ)
    {target : ℕ} (targetInside : target < sketch.counts.rows) :
    squareSum (sketch.writeCounter row col value).counts target =
      if row = target then
        squareSum sketch.counts row + value * value -
          sketch.counts.queryOneCounter row col * sketch.counts.queryOneCounter row col
      else squareSum sketch.counts target := by
  have written : ∀ other < sketch.counts.cols,
      (sketch.writeCounter row col value).counts.queryOneCounter target other =
        if (row, col) = (target, other) then value
        else sketch.counts.queryOneCounter target other := fun other inside =>
    sketch.counts.queryOneCounter_updateOneCounter (fun _ => value) targetInside inside colInside
  by_cases same : row = target
  · subst same
    have replaced := sum_range_replaced
      (fun other =>
        sketch.counts.queryOneCounter row other * sketch.counts.queryOneCounter row other)
      (fun other => (sketch.writeCounter row col value).counts.queryOneCounter row other *
        (sketch.writeCounter row col value).counts.queryOneCounter row other)
      colInside (fun other inside different => by
        rw [written other inside, if_neg fun equal => different (Prod.mk.inj equal).2.symm])
    rw [if_pos rfl]
    refine replaced.trans ?_
    rw [written col colInside, if_pos rfl]
    rfl
  · rw [if_neg same]
    refine squareSum_congr rfl fun other inside => (written other inside).trans (if_neg ?_)
    exact fun equal => same (Prod.mk.inj equal).1

def clampNorm (norm : ℤ) : ℤ := max 0 (min i64Max norm)

theorem clampNorm_of_within {counts : Vector2D ℤ} {row : ℕ}
    (within : squareSum counts row ≤ i64Max) :
    clampNorm (squareSum counts row) = squareSum counts row := by
  rw [clampNorm, min_eq_right within, max_eq_right (squareSum_nonneg counts row)]

theorem l2_writeCounter_self {row col : ℕ} (rowInside : row < sketch.counts.rows)
    (colInside : col < sketch.counts.cols) (value : ℤ)
    (right : sketch.l2[row]? = some (squareSum sketch.counts row)) :
    (sketch.writeCounter row col value).l2[row]? =
      some (clampNorm (squareSum (sketch.writeCounter row col value).counts row)) := by
  rw [squareSum_writeCounter sketch colInside value rowInside, if_pos rfl]
  simp only [writeCounter, List.getElem?_modify_eq, right]
  rfl

theorem l2_writeCounter_of_ne {row target : ℕ} (different : row ≠ target) (col : ℕ) (value : ℤ) :
    (sketch.writeCounter row col value).l2[target]? = sketch.l2[target]? :=
  List.getElem?_modify_ne _ _ different

/-! ### Inserts -/

def insertRow (hashed : BitVec 128) (count : ℤ) (sketch : CountL2HH) (row : ℕ) : CountL2HH :=
  let cell := sketch.cellForRow hashed row
  sketch.writeCounter row cell.1 (sketch.counts.queryOneCounter row cell.1 + cell.2 * count)

theorem fastInsertWithCountAndHash_eq (hashed : BitVec 128) (count : ℤ) :
    sketch.fastInsertWithCountAndHash hashed count =
      (List.range sketch.counts.rows).foldl (insertRow hashed count) sketch := rfl

theorem cellForRow_lt (positive : 0 < sketch.counts.cols) (hashed : BitVec 128) (row : ℕ) :
    (sketch.cellForRow hashed row).1 < sketch.counts.cols := Nat.mod_lt _ positive

def insertedAt (cols : ℕ) (hashed : BitVec 128) (count : ℤ) (cell : ℕ × ℕ) : ℤ :=
  let placed := l2hhCellForRow hashed cell.1 cols (colsMaskBits cols)
  if placed.1 = cell.2 then placed.2 * count else 0

/-- The loop of an insert after some rows: their counters are written, and their accumulators
are right up to the bounds. -/
structure InsertedBelow (hashed : BitVec 128) (count : ℤ) (start after : CountL2HH) (done : ℕ) :
    Prop where
  rows : after.counts.rows = start.counts.rows
  cols : after.counts.cols = start.counts.cols
  seedIdx : after.seedIdx = start.seedIdx
  length : after.l2.length = start.l2.length
  counters : ∀ row < start.counts.rows, ∀ col < start.counts.cols,
    after.counts.queryOneCounter row col = start.counts.queryOneCounter row col +
      if row < done then insertedAt start.counts.cols hashed count (row, col) else 0
  below : start.Normed → ∀ row < done,
    after.l2[row]? = some (clampNorm (squareSum after.counts row))
  behind : ∀ row, done ≤ row → after.l2[row]? = start.l2[row]?

variable {sketch}

theorem Normed.getElem? (normed : sketch.Normed) {row : ℕ} (inside : row < sketch.counts.rows) :
    sketch.l2[row]? = some (squareSum sketch.counts row) := by
  rw [normed, List.getElem?_map, List.getElem?_range inside]
  rfl

theorem normed_of_getElem? (length : sketch.l2.length = sketch.counts.rows)
    (right : ∀ row < sketch.counts.rows, sketch.l2[row]? = some (squareSum sketch.counts row)) :
    sketch.Normed := by
  refine List.ext_getElem? fun row => ?_
  by_cases inside : row < sketch.counts.rows
  · rw [right row inside, List.getElem?_map, List.getElem?_range inside]
    rfl
  · have behind := Nat.le_of_not_lt inside
    rw [List.getElem?_eq_none (length.trans_le behind), List.getElem?_eq_none]
    rwa [List.length_map, List.length_range]

theorem insertedBelow_start (hashed : BitVec 128) (count : ℤ) :
    InsertedBelow hashed count sketch sketch 0 where
  rows := rfl
  cols := rfl
  seedIdx := rfl
  length := rfl
  counters := fun _ _ _ _ => (add_zero _).symm
  below := fun _ _ inside => absurd inside (Nat.not_lt_zero _)
  behind := fun _ _ => rfl

theorem InsertedBelow.insertRow {hashed : BitVec 128} {count : ℤ} {start after : CountL2HH}
    {done : ℕ} (inserted : InsertedBelow hashed count start after done)
    (positive : 0 < start.counts.cols) (inside : done < start.counts.rows) :
    InsertedBelow hashed count start (after.insertRow hashed count done) (done + 1) := by
  have colInside := after.cellForRow_lt (inserted.cols.symm ▸ positive) hashed done
  have rowInside : done < after.counts.rows := inserted.rows.symm ▸ inside
  have untouched : ∀ col < start.counts.cols,
      after.counts.queryOneCounter done col = start.counts.queryOneCounter done col := by
    intro col colInside
    rw [inserted.counters done inside col colInside, if_neg (Nat.lt_irrefl done), add_zero]
  refine ⟨inserted.rows, inserted.cols, inserted.seedIdx,
    (List.length_modify _ _ _).trans inserted.length, fun row rowIn col colIn => ?_,
    fun normed row below => ?_, fun row behind => ?_⟩
  · have written : (after.insertRow hashed count done).counts.queryOneCounter row col =
        if (done, (after.cellForRow hashed done).1) = (row, col) then
          after.counts.queryOneCounter done (after.cellForRow hashed done).1 +
            (after.cellForRow hashed done).2 * count
        else after.counts.queryOneCounter row col :=
      after.counts.queryOneCounter_updateOneCounter _ (inserted.rows.symm ▸ rowIn)
        (inserted.cols.symm ▸ colIn) colInside
    rw [written]
    have placed : after.cellForRow hashed done =
        l2hhCellForRow hashed done start.counts.cols (colsMaskBits start.counts.cols) := by
      rw [cellForRow, inserted.cols]
    rw [inserted.counters row rowIn col colIn, placed]
    by_cases same : done = row
    · subst same
      rw [if_neg (Nat.lt_irrefl done), if_pos (Nat.lt_succ_self done), add_zero, insertedAt]
      by_cases here : (l2hhCellForRow hashed done start.counts.cols
          (colsMaskBits start.counts.cols)).1 = col
      · rw [if_pos (congrArg _ here), if_pos here, here, untouched col colIn]
      · rw [if_neg fun equal => here (Prod.mk.inj equal).2]
        refine (add_zero _).symm.trans (congrArg (start.counts.queryOneCounter done col + ·) ?_)
        exact (if_neg here).symm
    · have sameRows : row < done + 1 ↔ row < done :=
        ⟨fun below => (Nat.lt_succ_iff_lt_or_eq.mp below).resolve_right fun equal =>
          same equal.symm, fun below => below.trans (Nat.lt_succ_self done)⟩
      rw [if_neg fun equal => same (Prod.mk.inj equal).1]
      simp only [sameRows]
  · have right : after.l2[done]? = some (squareSum after.counts done) := by
      rw [inserted.behind done (Nat.le_refl done), normed.getElem? inside]
      exact congrArg some (squareSum_congr inserted.cols fun col colIn =>
        untouched col (inserted.cols ▸ colIn)).symm
    rcases Nat.lt_succ_iff_lt_or_eq.mp below with earlier | rfl
    · have different : done ≠ row := Nat.ne_of_gt earlier
      have rowIn := inserted.rows.symm ▸ earlier.trans inside
      rw [CountL2HH.insertRow, l2_writeCounter_of_ne after different,
        squareSum_writeCounter after colInside _ rowIn, if_neg different]
      exact inserted.below normed row earlier
    · exact after.l2_writeCounter_self rowInside colInside _ right
  · rw [CountL2HH.insertRow, l2_writeCounter_of_ne after (Nat.ne_of_lt behind)]
    exact inserted.behind row (Nat.le_of_lt behind)

theorem insertedBelow_range (hashed : BitVec 128) (count : ℤ) (positive : 0 < sketch.counts.cols)
    {done : ℕ} (inside : done ≤ sketch.counts.rows) :
    InsertedBelow hashed count sketch ((List.range done).foldl (insertRow hashed count) sketch)
      done := by
  induction done with
  | zero => exact insertedBelow_start hashed count
  | succ row hypothesis =>
    rw [List.range_succ, List.foldl_append]
    exact (hypothesis (Nat.le_of_lt inside)).insertRow positive inside

theorem fastInsertWithCountAndHash_spec (hashed : BitVec 128) (count : ℤ)
    (positive : 0 < sketch.counts.cols) :
    InsertedBelow hashed count sketch (sketch.fastInsertWithCountAndHash hashed count)
      sketch.counts.rows :=
  insertedBelow_range hashed count positive (Nat.le_refl _)

theorem normed_fastInsertWithCountAndHash (normed : sketch.Normed) (hashed : BitVec 128)
    (count : ℤ) (positive : 0 < sketch.counts.cols)
    (within : (sketch.fastInsertWithCountAndHash hashed count).Within) :
    (sketch.fastInsertWithCountAndHash hashed count).Normed := by
  have inserted := @fastInsertWithCountAndHash_spec sketch hashed count positive
  refine normed_of_getElem? ?_ fun row inside => ?_
  · rw [inserted.length, inserted.rows, normed, List.length_map, List.length_range]
  · rw [inserted.below normed row (inserted.rows ▸ inside), clampNorm_of_within (within row inside)]

/-! ### Deltas, merges and clears -/

theorem normed_applyDelta (normed : sketch.Normed) {row col : ℕ}
    (rowInside : row < sketch.counts.rows) (colInside : col < sketch.counts.cols) (value : ℤ)
    (within : (sketch.applyDelta row col value).Within) :
    (sketch.applyDelta row col value).Normed := by
  refine normed_of_getElem? ?_ fun target inside => ?_
  · show (sketch.l2.modify row _).length = sketch.counts.rows
    rw [List.length_modify, normed, List.length_map, List.length_range]
  · by_cases same : row = target
    · subst same
      rw [applyDelta, sketch.l2_writeCounter_self rowInside colInside _
        (normed.getElem? rowInside)]
      exact congrArg some (clampNorm_of_within (within row inside))
    · rw [applyDelta, sketch.l2_writeCounter_of_ne same, normed.getElem? inside,
        sketch.squareSum_writeCounter colInside _ inside, if_neg same]

theorem normed_merge {other : CountL2HH} (within : (sketch.merge other).Within) :
    (sketch.merge other).Normed :=
  List.map_congr_left fun row member => min_eq_right (within row (List.mem_range.mp member))

theorem squareSum_filled (rows cols row : ℕ) : squareSum (Vector2D.filled rows cols 0) row = 0 := by
  refine List.sum_eq_zero fun square member => ?_
  obtain ⟨col, _, rfl⟩ := List.mem_map.mp member
  rw [Vector2D.queryOneCounter_filled, mul_zero]

theorem normed_withDimensionsAndSeed (rows cols seedIdx : ℕ) :
    (withDimensionsAndSeed rows cols seedIdx).Normed := by
  refine List.ext_getElem? fun row => ?_
  show (List.replicate rows (0 : ℤ))[row]? =
    ((List.range rows).map (squareSum (Vector2D.filled rows cols 0)))[row]?
  rw [List.getElem?_replicate, List.getElem?_map]
  by_cases inside : row < rows
  · rw [if_pos inside, List.getElem?_range inside]
    exact congrArg some (squareSum_filled rows cols row).symm
  · rw [if_neg inside, List.getElem?_eq_none]
    · rfl
    · exact (List.length_range).trans_le (Nat.le_of_not_lt inside)

/-! ### Histories -/

/-- What is done to a sketch, from its construction on. An insert is given the hash of its key,
which may come from any hasher, and a merge reads a sketch with a history of its own. -/
inductive History where
  | withDimensionsAndSeed (rows cols seedIdx : ℕ)
  | fastInsertWithCount (before : History) (hashed : BitVec 128) (count : ℤ)
  | applyDelta (before : History) (delta : CellDelta)
  | merge (before other : History)
  | clear (before : History)

namespace History

/-- The sketch with a history, where no call panics: a sketch has a column, a delta addresses a
cell and merged sketches have the same dimensions and the same seed. -/
def outcome : History → Option CountL2HH
  | withDimensionsAndSeed rows cols seedIdx =>
    if 0 < cols then some (.withDimensionsAndSeed rows cols seedIdx) else none
  | fastInsertWithCount before hashed count =>
    before.outcome.map fun sketch => sketch.fastInsertWithCountAndHash hashed count
  | applyDelta before delta =>
    before.outcome.bind fun sketch =>
      if delta.row < sketch.counts.rows ∧ delta.col < sketch.counts.cols then
        some (sketch.applyDelta delta.row delta.col delta.value)
      else none
  | merge before other =>
    before.outcome.bind fun sketch => other.outcome.bind fun other =>
      if (sketch.counts.rows, sketch.counts.cols) = (other.counts.rows, other.counts.cols) ∧
          sketch.seedIdx = other.seedIdx then
        some (sketch.merge other)
      else none
  | clear before => before.outcome.map CountL2HH.clear

/-- Every sketch of a history stays within `i64`. -/
def Stays : History → Prop
  | withDimensionsAndSeed _ _ _ => True
  | fastInsertWithCount before hashed count =>
    before.Stays ∧ ∀ after ∈ (fastInsertWithCount before hashed count).outcome, after.Within
  | applyDelta before delta =>
    before.Stays ∧ ∀ after ∈ (applyDelta before delta).outcome, after.Within
  | merge before other =>
    before.Stays ∧ other.Stays ∧ ∀ after ∈ (merge before other).outcome, after.Within
  | clear before => before.Stays

theorem normed (history : History) (stays : history.Stays) {sketch : CountL2HH}
    (built : history.outcome = some sketch) : 0 < sketch.counts.cols ∧ sketch.Normed := by
  induction history generalizing sketch with
  | withDimensionsAndSeed rows cols seedIdx =>
    obtain ⟨positive, same⟩ := Option.ite_none_right_eq_some.mp built
    obtain rfl := Option.some.inj same
    exact ⟨positive, normed_withDimensionsAndSeed _ _ _⟩
  | fastInsertWithCount before hashed count hypothesis =>
    obtain ⟨earlier, earlierBuilt, rfl⟩ := Option.map_eq_some_iff.mp built
    obtain ⟨positive, normed⟩ := hypothesis stays.1 earlierBuilt
    refine ⟨?_, normed_fastInsertWithCountAndHash normed hashed count positive
      (stays.2 _ built)⟩
    exact (@fastInsertWithCountAndHash_spec earlier hashed count positive).cols.symm ▸ positive
  | applyDelta before delta hypothesis =>
    obtain ⟨earlier, earlierBuilt, applied⟩ := Option.bind_eq_some_iff.mp built
    obtain ⟨positive, normed⟩ := hypothesis stays.1 earlierBuilt
    split at applied
    · next inside =>
      obtain rfl := Option.some.inj applied
      exact ⟨positive, normed_applyDelta normed inside.1 inside.2 delta.value (stays.2 _ built)⟩
    · exact absurd applied (Option.some_ne_none _).symm
  | merge before other hypothesis _ =>
    obtain ⟨earlier, earlierBuilt, rest⟩ := Option.bind_eq_some_iff.mp built
    obtain ⟨second, _, merged⟩ := Option.bind_eq_some_iff.mp rest
    split at merged
    · obtain rfl := Option.some.inj merged
      exact ⟨(hypothesis stays.1 earlierBuilt).1, normed_merge (stays.2.2 _ built)⟩
    · exact absurd merged (Option.some_ne_none _).symm
  | clear before hypothesis =>
    obtain ⟨earlier, earlierBuilt, rfl⟩ := Option.map_eq_some_iff.mp built
    exact ⟨(hypothesis stays earlierBuilt).1, normed_withDimensionsAndSeed _ _ _⟩

end History

end CountL2HH

end AsapSketchlib
