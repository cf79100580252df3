/-
This file models workers with one-byte counters in front of a CountL2HH, which cut columns and
signs out of the hash by themselves, and compares a parent that is fed what they promote with a
sketch that is fed the stream. Whatever the thresholds and whatever the order of the deltas,
counters and accumulators agree exactly where row and column numbers fit a delta.
-/

import AsapSketchlib.RowNorms
import AsapSketchlib.UnivMonOctoFidelity
import Mathlib.Data.Int.CardIntervalMod

namespace AsapSketchlib

open Promotion

/-! ### Workers -/

namespace L2hhWorkerSketch

/-- Creates a worker over the cells of a sketch of these dimensions, unless its rows need more
bits than a hash has. -/
def new (rows cols : ℕ) : Option WorkerSketch :=
  if max rows 1 * colsMaskBits (max cols 1) ≤ 128 then some (WorkerSketch.new rows cols) else none

/-- A call of a worker. The threshold may change from one insert to the next. -/
inductive Call where
  | insertHashEmitDelta (hashed : BitVec 128) (threshold : ℕ)
  | flush

def Call.inserted : Call → Option (BitVec 128)
  | insertHashEmitDelta hashed _ => some hashed
  | flush => none

def call (sketch : WorkerSketch) : Call → WorkerSketch × List CellDelta
  | .insertHashEmitDelta hashed threshold => sketch.insertHashEmitDelta hashed threshold
  | .flush => sketch.flush

def callAll : WorkerSketch → List Call → WorkerSketch × List CellDelta
  | sketch, [] => (sketch, [])
  | sketch, first :: rest =>
    let called := call sketch first
    let others := callAll called.1 rest
    (others.1, called.2 ++ others.2)

def emitted (sketch : WorkerSketch) (calls : List Call) : List CellDelta :=
  (callAll sketch (calls ++ [.flush])).2

/-! ### What workers keep and send -/

open WorkerSketch

def streamAt (cols : ℕ) (stream : List (BitVec 128)) (cell : ℕ × ℕ) : ℤ :=
  (stream.map fun hashed => CountL2HH.insertedAt cols hashed 1 cell).sum

theorem l2hhVisit_accounted {rows cols : ℕ} (rowsFit : rows ≤ 2 ^ 32) (colsFit : cols ≤ 2 ^ 32)
    (positive : 0 < cols) (threshold : ℕ) (hashed : BitVec 128) {row : ℕ} (inside : row < rows) :
    Accounted signedByte rows cols (l2hhCellForRow hashed row cols (colsMaskBits cols)).2
      (l2hhVisit cols (clampPromask threshold) hashed row) := by
  have colInside : (l2hhCellForRow hashed row cols (colsMaskBits cols)).1 < cols :=
    Nat.mod_lt _ positive
  have colSmall := colInside.trans_le colsFit
  have changed : ∀ cell : ℤ, cell.natAbs ≤ 126 →
      (l2hhVisit cols (clampPromask threshold) hashed row).change cell =
        release (fun bumped => clampPromask threshold ≤ bumped.natAbs)
          (cell + (l2hhCellForRow hashed row cols (colsMaskBits cols)).2) := by
    intro cell residual
    have sign := l2hhCellForRow_sign hashed row cols (colsMaskBits cols)
    have stored : (cell + (l2hhCellForRow hashed row cols (colsMaskBits cols)).2).bmod 256 =
        cell + (l2hhCellForRow hashed row cols (colsMaskBits cols)).2 :=
      Int.bmod_eq_of_le (by omega) (by omega)
    exact congrArg (release fun bumped => clampPromask threshold ≤ bumped.natAbs) stored
  refine ⟨inside, colInside, fun cell held => ?_, fun cell held => ?_,
    fun _ _ _ => ⟨inside.trans_le rowsFit, colSmall⟩⟩
  · refine ⟨?_, fun wide => absurd wide (Nat.not_le_of_lt colSmall)⟩
    rw [changed cell held.1]
    unfold release
    split
    · exact signedByte.residual_zero
    · next unreached =>
      have below := Nat.lt_of_not_le fun reached => unreached (decide_eq_true reached)
      exact Nat.le_of_lt_succ (below.trans_le (clampPromask_le threshold))
  · rw [changed cell held.1]
    exact release_balanced _ _

theorem sum_range_rows (colOf : ℕ → ℕ) (gain : ℕ → ℤ) (count : ℕ) (cell : ℕ × ℕ) :
    ((List.range count).map fun row => if (row, colOf row) = cell then gain row else 0).sum =
      if cell.1 < count then if colOf cell.1 = cell.2 then gain cell.1 else 0 else 0 := by
  induction count with
  | zero => exact (if_neg (Nat.not_lt_zero _)).symm
  | succ last hypothesis =>
    rw [List.range_succ, List.map_append, List.sum_append, hypothesis,
      List.map_singleton, List.sum_singleton]
    by_cases same : last = cell.1
    · subst same
      rw [if_neg (Nat.lt_irrefl _), if_pos (Nat.lt_succ_self _), zero_add]
      exact if_congr ⟨fun equal => congrArg Prod.snd equal, fun equal => congrArg _ equal⟩ rfl rfl
    · have sameRows : cell.1 < last + 1 ↔ cell.1 < last :=
        ⟨fun below => (Nat.lt_succ_iff_lt_or_eq.mp below).resolve_right fun equal =>
          same equal.symm, fun below => below.trans (Nat.lt_succ_self last)⟩
      have elsewhere : ¬(last, colOf last) = cell := fun equal => same (congrArg Prod.fst equal)
      rw [if_neg elsewhere, add_zero]
      simp only [sameRows]

theorem call_spec {sketch : WorkerSketch} (settled : Settled signedByte sketch)
    (rowsFit : sketch.counters.rows ≤ 2 ^ 32) (colsFit : sketch.counters.cols ≤ 2 ^ 32)
    (positive : 0 < sketch.counters.cols) (made : Call) :
    Settled signedByte (call sketch made).1 ∧
    (∀ delta ∈ (call sketch made).2,
      delta.row < sketch.counters.rows ∧ delta.col < sketch.counters.cols) ∧
    ∀ cell : ℕ × ℕ, cell.1 < sketch.counters.rows →
      (call sketch made).1.counters.cellAt cell +
          promotedAt ((call sketch made).2.map CellDelta.promotion) cell =
        sketch.counters.cellAt cell + streamAt sketch.counters.cols made.inserted.toList cell := by
  cases made with
  | flush =>
    obtain ⟨kept, inside, balanced⟩ := flush_spec settled rowsFit
    exact ⟨kept, inside, fun cell _ => (balanced cell).trans (add_zero _).symm⟩
  | insertHashEmitDelta hashed threshold =>
    obtain ⟨kept, inside, balanced⟩ := visitAll_spec
      (l2hhVisit sketch.counters.cols (clampPromask threshold) hashed) _
      (List.range sketch.counters.rows) settled fun row member =>
        l2hhVisit_accounted rowsFit colsFit positive threshold hashed (List.mem_range.mp member)
    refine ⟨kept, inside, fun cell rowInside => (balanced cell).trans ?_⟩
    have gained := sum_range_rows
      (fun row => (l2hhCellForRow hashed row sketch.counters.cols
        (colsMaskBits sketch.counters.cols)).1)
      (fun row => (l2hhCellForRow hashed row sketch.counters.cols
        (colsMaskBits sketch.counters.cols)).2) sketch.counters.rows cell
    refine congrArg (sketch.counters.cellAt cell + ·) (gained.trans ?_)
    simp only [if_pos rowInside, streamAt, Call.inserted, Option.toList_some, List.map_singleton,
      List.sum_singleton, CountL2HH.insertedAt, mul_one]

theorem streamAt_append (cols : ℕ) (first second : List (BitVec 128)) (cell : ℕ × ℕ) :
    streamAt cols (first ++ second) cell =
      streamAt cols first cell + streamAt cols second cell := by
  rw [streamAt, List.map_append, List.sum_append]
  rfl

@[simp] theorem call_rows (sketch : WorkerSketch) (made : Call) :
    (call sketch made).1.counters.rows = sketch.counters.rows := by
  cases made <;> exact visitAll_rows _ _

@[simp] theorem call_cols (sketch : WorkerSketch) (made : Call) :
    (call sketch made).1.counters.cols = sketch.counters.cols := by
  cases made <;> exact visitAll_cols _ _

theorem callAll_spec {sketch : WorkerSketch} (settled : Settled signedByte sketch)
    (rowsFit : sketch.counters.rows ≤ 2 ^ 32) (colsFit : sketch.counters.cols ≤ 2 ^ 32)
    (positive : 0 < sketch.counters.cols) (calls : List Call) :
    (∀ delta ∈ (callAll sketch calls).2,
      delta.row < sketch.counters.rows ∧ delta.col < sketch.counters.cols) ∧
    ∀ cell : ℕ × ℕ, cell.1 < sketch.counters.rows →
      (callAll sketch calls).1.counters.cellAt cell +
          promotedAt ((callAll sketch calls).2.map CellDelta.promotion) cell =
        sketch.counters.cellAt cell +
          streamAt sketch.counters.cols (calls.filterMap Call.inserted) cell := by
  induction calls generalizing sketch with
  | nil => exact ⟨fun _ member => absurd member List.not_mem_nil, fun _ _ => rfl⟩
  | cons first rest hypothesis =>
    obtain ⟨calledSettled, calledInside, calledBalance⟩ :=
      call_spec settled rowsFit colsFit positive first
    have later := hypothesis calledSettled
    simp only [call_rows, call_cols] at later
    obtain ⟨restInside, restBalance⟩ := later rowsFit colsFit positive
    refine ⟨fun delta member => ?_, fun cell rowInside => ?_⟩
    · exact (List.mem_append.mp member).elim (calledInside delta) (restInside delta)
    · have hashes : (first :: rest).filterMap Call.inserted =
          first.inserted.toList ++ rest.filterMap Call.inserted := by
        rw [List.filterMap_cons]
        cases first.inserted <;> rfl
      have called := calledBalance cell rowInside
      have others := restBalance cell rowInside
      rw [callAll, List.map_append, promotedAt_append, hashes, streamAt_append]
      linarith only [called, others]

section

variable {sketch : WorkerSketch} (cleared : ∀ cell, sketch.counters.cellAt cell = 0)
  (rowsFit : sketch.counters.rows ≤ 2 ^ 32) (colsFit : sketch.counters.cols ≤ 2 ^ 32)
  (positive : 0 < sketch.counters.cols)

include cleared rowsFit colsFit positive

theorem promotedAt_emitted (calls : List Call) :
    (∀ delta ∈ emitted sketch calls,
      delta.row < sketch.counters.rows ∧ delta.col < sketch.counters.cols) ∧
    ∀ cell : ℕ × ℕ, cell.1 < sketch.counters.rows →
      promotedAt ((emitted sketch calls).map CellDelta.promotion) cell =
        streamAt sketch.counters.cols (calls.filterMap Call.inserted) cell := by
  have settled : Settled signedByte sketch := by
    intro cell
    rw [cleared]
    exact ⟨signedByte.residual_zero, fun _ => rfl⟩
  have flushed : ∀ (calls : List Call) (sketch : WorkerSketch) (cell : ℕ × ℕ),
      (callAll sketch (calls ++ [.flush])).1.counters.cellAt cell = 0 := by
    intro calls
    induction calls with
    | nil => exact fun sketch cell => cellAt_flush sketch cell
    | cons first rest hypothesis => exact fun _ cell => hypothesis _ cell
  obtain ⟨inside, balanced⟩ := callAll_spec settled rowsFit colsFit positive (calls ++ [.flush])
  refine ⟨inside, fun cell rowInside => ?_⟩
  have total := balanced cell rowInside
  rw [flushed, cleared, zero_add, zero_add, List.filterMap_append] at total
  exact total.trans (congrArg (streamAt _ · cell) (List.append_nil _))

theorem promotedAt_flatMap_emitted (calls : List (List Call)) (cell : ℕ × ℕ)
    (inside : cell.1 < sketch.counters.rows) :
    promotedAt ((calls.flatMap (emitted sketch)).map CellDelta.promotion) cell =
      streamAt sketch.counters.cols (calls.flatMap fun own => own.filterMap Call.inserted)
        cell := by
  induction calls with
  | nil => rfl
  | cons own rest hypothesis =>
    rw [List.flatMap_cons, List.flatMap_cons, List.map_append, promotedAt_append, streamAt_append,
      hypothesis, (promotedAt_emitted cleared rowsFit colsFit positive own).2 cell inside]

end

/-! ### The parent and the sketch of the stream -/

open CountL2HH (History)

def fed (rows cols seedIdx : ℕ) (deltas : List CellDelta) : History :=
  deltas.foldl History.applyDelta (.withDimensionsAndSeed rows cols seedIdx)

def fedRaw (rows cols seedIdx : ℕ) (stream : List (BitVec 128)) : History :=
  stream.foldl (fun before hashed => before.fastInsertWithCount hashed 1)
    (.withDimensionsAndSeed rows cols seedIdx)

/-- Workers, each flushed behind its calls, whose deltas reach a parent in any order: the parent
has the counters and the accumulators of a sketch fed the stream in any order, as long as both
stay within `i64`. -/
def Reproduces (rows cols seedIdx : ℕ) (worker : WorkerSketch) : Prop :=
  ∀ (calls : List (List Call)) (deltas : List CellDelta) (stream : List (BitVec 128)),
    deltas.Perm (calls.flatMap (emitted worker)) →
    stream.Perm (calls.flatMap fun own => own.filterMap Call.inserted) →
    (fed rows cols seedIdx deltas).Stays → (fedRaw rows cols seedIdx stream).Stays →
    ∃ parent raw, (fed rows cols seedIdx deltas).outcome = some parent ∧
      (fedRaw rows cols seedIdx stream).outcome = some raw ∧
      parent.counts = raw.counts ∧ parent.l2 = raw.l2

variable {rows cols : ℕ}

theorem fed_append (seedIdx : ℕ) (earlier : List CellDelta) (delta : CellDelta) :
    fed rows cols seedIdx (earlier ++ [delta]) =
      (fed rows cols seedIdx earlier).applyDelta delta := by
  rw [fed, List.foldl_append]
  rfl

theorem outcome_fed_append {seedIdx : ℕ} {earlier : List CellDelta} {delta : CellDelta}
    {before : CountL2HH} (built : (fed rows cols seedIdx earlier).outcome = some before)
    (inside : delta.row < before.counts.rows ∧ delta.col < before.counts.cols) :
    (fed rows cols seedIdx (earlier ++ [delta])).outcome =
      some (before.applyDelta delta.row delta.col delta.value) := by
  rw [fed_append, History.outcome, built]
  exact if_pos inside

theorem outcome_fed (positive : 0 < cols) (seedIdx : ℕ) (deltas : List CellDelta)
    (inside : ∀ delta ∈ deltas, delta.row < rows ∧ delta.col < cols) :
    ∃ parent, (fed rows cols seedIdx deltas).outcome = some parent ∧
      parent.counts.rows = rows ∧ parent.counts.cols = cols ∧
      ∀ cell, parent.counts.cellAt cell = promotedAt (deltas.map CellDelta.promotion) cell := by
  induction deltas using List.reverseRecOn with
  | nil =>
    exact ⟨_, if_pos positive, rfl, rfl, fun cell => Vector2D.cellAt_filled rows cols cell⟩
  | append_singleton earlier delta hypothesis =>
    obtain ⟨before, built, sameRows, sameCols, counters⟩ := hypothesis fun other member =>
      inside other (List.mem_append_left _ member)
    have deltaInside := inside delta (List.mem_append_right _ (List.mem_singleton_self delta))
    rw [← sameRows, ← sameCols] at deltaInside
    refine ⟨before.applyDelta delta.row delta.col delta.value,
      outcome_fed_append built deltaInside, sameRows, sameCols, fun cell => ?_⟩
    · have written : (before.applyDelta delta.row delta.col delta.value).counts.cellAt cell =
          if (delta.row, delta.col) = cell then
            before.counts.queryOneCounter delta.row delta.col + delta.value
          else before.counts.cellAt cell :=
        before.counts.cellAt_updateOneCounter _ (delta.row, delta.col) deltaInside.1 deltaInside.2
          cell
      have sent : promotedAt ((earlier ++ [delta]).map CellDelta.promotion) cell =
          before.counts.cellAt cell + if (delta.row, delta.col) = cell then delta.value else 0 := by
        rw [List.map_append, promotedAt_append, ← counters]
        exact congrArg (before.counts.cellAt cell + ·) (add_zero _)
      rw [written, sent]
      by_cases same : (delta.row, delta.col) = cell
      · rw [if_pos same, if_pos same, ← same,
          before.counts.cellAt_of_inside (delta.row, delta.col) deltaInside.1 deltaInside.2]
      · rw [if_neg same, if_neg same, add_zero]

theorem outcome_fedRaw (positive : 0 < cols) (seedIdx : ℕ) (stream : List (BitVec 128)) :
    ∃ raw, (fedRaw rows cols seedIdx stream).outcome = some raw ∧
      raw.counts.rows = rows ∧ raw.counts.cols = cols ∧
      ∀ row < rows, ∀ col < cols,
        raw.counts.queryOneCounter row col = streamAt cols stream (row, col) := by
  induction stream using List.reverseRecOn with
  | nil =>
    exact ⟨_, if_pos positive, rfl, rfl, fun row _ col _ => Vector2D.queryOneCounter_filled _ _ _ _⟩
  | append_singleton earlier hashed hypothesis =>
    obtain ⟨before, built, rfl, rfl, counters⟩ := hypothesis
    have inserted := before.fastInsertWithCountAndHash_spec hashed 1 positive
    refine ⟨before.fastInsertWithCountAndHash hashed 1, ?_, inserted.rows, inserted.cols,
      fun row rowInside col colInside => ?_⟩
    · rw [fedRaw, List.foldl_append]
      show ((fedRaw _ _ seedIdx earlier).outcome.map _) = _
      rw [built]
      rfl
    · rw [inserted.counters row rowInside col colInside, if_pos rowInside,
        counters row rowInside col colInside, streamAt_append]
      exact congrArg (_ + ·) (List.sum_singleton).symm

/-- The accumulators of two sketches whose histories stay within `i64` agree where the counters
do. -/
theorem l2_eq_of_counts {first second : History} (firstStays : first.Stays)
    (secondStays : second.Stays) {left right : CountL2HH} (leftBuilt : first.outcome = some left)
    (rightBuilt : second.outcome = some right) (same : left.counts = right.counts) :
    left.l2 = right.l2 := by
  have leftNormed : left.l2 = _ := (first.normed firstStays leftBuilt).2
  have rightNormed : right.l2 = _ := (second.normed secondStays rightBuilt).2
  rw [leftNormed, rightNormed, same]

theorem reproduces_of_fits (rowsFit : rows ≤ 2 ^ 32) (colsFit : cols ≤ 2 ^ 32) (seedIdx : ℕ) :
    Reproduces (max rows 1) (max cols 1) seedIdx (WorkerSketch.new rows cols) := by
  intro calls deltas stream permuted streamPermuted fedStays rawStays
  have positive : 0 < max cols 1 := Nat.lt_of_lt_of_le Nat.one_pos (Nat.le_max_right _ _)
  have rowsFit : max rows 1 ≤ 2 ^ 32 := Nat.max_le.mpr ⟨rowsFit, Nat.one_le_two_pow⟩
  have colsFit : max cols 1 ≤ 2 ^ 32 := Nat.max_le.mpr ⟨colsFit, Nat.one_le_two_pow⟩
  have cleared : ∀ cell, (WorkerSketch.new rows cols).counters.cellAt cell = 0 :=
    fun cell => Vector2D.cellAt_filled _ _ cell
  have inside : ∀ delta ∈ deltas, delta.row < max rows 1 ∧ delta.col < max cols 1 := by
    intro delta member
    obtain ⟨own, _, emittedBy⟩ := List.mem_flatMap.mp (permuted.mem_iff.mp member)
    exact (promotedAt_emitted cleared rowsFit colsFit positive own).1 delta emittedBy
  obtain ⟨parent, parentBuilt, parentRows, parentCols, parentCounters⟩ :=
    outcome_fed positive seedIdx deltas inside
  obtain ⟨raw, rawBuilt, rawRows, rawCols, rawCounters⟩ :=
    outcome_fedRaw positive seedIdx stream
  have same : parent.counts = raw.counts := by
    refine Vector2D.eq_of_queryOneCounter (parentRows.trans rawRows.symm)
      (parentCols.trans rawCols.symm) fun row col rowInside colInside => ?_
    have total := promotedAt_flatMap_emitted cleared rowsFit colsFit positive calls (row, col)
      (rowInside.trans_eq parentRows)
    rw [← parent.counts.cellAt_of_inside (row, col) rowInside colInside, parentCounters,
      promotedAt_perm (permuted.map CellDelta.promotion), total,
      rawCounters row (rowInside.trans_eq parentRows) col (colInside.trans_eq parentCols)]
    exact ((streamPermuted.map _).sum_eq).symm
  exact ⟨parent, raw, parentBuilt, rawBuilt, same,
    l2_eq_of_counts fedStays rawStays parentBuilt rawBuilt same⟩

/-! ### Cells that no delta can name -/

def unitDeltas (rows cols : ℕ) (hashed : BitVec 128) : List CellDelta :=
  (List.range rows).map fun row =>
    let cell := l2hhCellForRow hashed row cols (colsMaskBits cols)
    ⟨asU32 row, asU32 cell.1, cell.2⟩

/-- A worker without counts sends a delta for every row of a key at a threshold of one, and
nothing when it is flushed. -/
theorem emitted_of_clean {sketch : WorkerSketch} (clean : sketch.Clean) (hashed : BitVec 128) :
    emitted sketch [.insertHashEmitDelta hashed 1] =
      unitDeltas sketch.counters.rows sketch.counters.cols hashed := by
  have visited : ∀ (cols : ℕ) (rows : List ℕ) (sketch : WorkerSketch), sketch.Clean →
      (sketch.visitAll (rows.map (l2hhVisit cols 1 hashed))).2 = rows.map fun row =>
        ⟨asU32 row, asU32 (l2hhCellForRow hashed row cols (colsMaskBits cols)).1,
          (l2hhCellForRow hashed row cols (colsMaskBits cols)).2⟩ := by
    intro cols rows
    induction rows with
    | nil => exact fun _ _ => rfl
    | cons row rest hypothesis =>
      intro sketch clean
      have sent := sent_visit_of_clean clean (l2hhVisit cols 1 hashed row)
      rw [change_l2hhVisit] at sent
      rw [List.map_cons, visitAll, sent,
        hypothesis _ (clean_visit clean cols hashed row).1]
      rfl
  have flushed : ∀ (cells : List (ℕ × ℕ)) (sketch : WorkerSketch), sketch.Clean →
      (sketch.visitAll (cells.map flushVisit)).2 = [] := by
    intro cells
    induction cells with
    | nil => exact fun _ _ => rfl
    | cons cell rest hypothesis =>
      intro sketch clean
      rw [List.map_cons, visitAll, sent_visit_of_clean clean,
        hypothesis _ (clean_visit_of_zero clean (release_nonzero 0))]
      rfl
  have inserted := visited sketch.counters.cols (List.range sketch.counters.rows) sketch clean
  have cleanAfter := (clean_visitAll clean sketch.counters.cols hashed
    (List.range sketch.counters.rows)).1
  have called : call sketch (.insertHashEmitDelta hashed 1) = sketch.visitAll
      ((List.range sketch.counters.rows).map (l2hhVisit sketch.counters.cols 1 hashed)) := rfl
  show (call sketch (.insertHashEmitDelta hashed 1)).2 ++
    ((call sketch (.insertHashEmitDelta hashed 1)).1.flush.2 ++ []) = _
  rw [called, inserted, flush, flushed _ _ cleanAfter, List.append_nil, List.append_nil]
  rfl

theorem mem_unitDeltas {hashed : BitVec 128} {delta : CellDelta}
    (member : delta ∈ unitDeltas rows cols hashed) :
    ∃ row < rows, delta = ⟨asU32 row,
      asU32 (l2hhCellForRow hashed row cols (colsMaskBits cols)).1,
      (l2hhCellForRow hashed row cols (colsMaskBits cols)).2⟩ := by
  obtain ⟨row, inside, rfl⟩ := List.mem_map.mp member
  exact ⟨row, List.mem_range.mp inside, rfl⟩

theorem countP_unitDeltas_le (few : rows < 2 ^ 60) (hashed : BitVec 128) (row : ℕ) :
    (unitDeltas rows cols hashed).countP (fun delta => delta.row = row) ≤ 2 ^ 31 := by
  have counted : (unitDeltas rows cols hashed).countP (fun delta => delta.row = row) =
      (List.range rows).countP fun other => asU32 other = row := by
    rw [unitDeltas, List.countP_map]
    rfl
  rw [counted]
  by_cases small : row < 2 ^ 32
  · have congruent : (fun other => decide (asU32 other = row)) =
        fun other => decide (other ≡ row [MOD 2 ^ 32]) := by
      funext other
      refine decide_eq_decide.mpr ?_
      rw [Nat.ModEq, Nat.mod_eq_of_lt small]
      exact Iff.rfl
    rw [congruent]
    refine (Nat.count_modEq_card rows (Nat.two_pow_pos 32) row).le.trans ?_
    split <;> omega
  · have none : (List.range rows).countP (fun other => asU32 other = row) = 0 := by
      refine List.countP_eq_zero.mpr fun other _ same => small ?_
      exact (of_decide_eq_true same) ▸ asU32_lt other
    rw [none]
    exact Nat.zero_le _

theorem abs_promotedAt_le {deltas : List CellDelta} (unit : ∀ delta ∈ deltas, |delta.value| ≤ 1)
    (cell : ℕ × ℕ) :
    |promotedAt (deltas.map CellDelta.promotion) cell| ≤
      deltas.countP (fun delta => delta.row = cell.1) := by
  induction deltas with
  | nil => exact abs_zero.le
  | cons first rest hypothesis =>
    have earlier := hypothesis fun delta member =>
      unit delta (List.mem_cons_of_mem first member)
    have firstUnit := unit first List.mem_cons_self
    have firstShare : |if first.promotion.1 = cell then first.promotion.2 else 0| ≤
        ((if first.row = cell.1 then 1 else 0 : ℕ) : ℤ) := by
      by_cases here : first.promotion.1 = cell
      · have sameRow : first.row = cell.1 := congrArg Prod.fst here
        rw [if_pos here, if_pos sameRow]
        exact firstUnit
      · rw [if_neg here, abs_zero]
        exact Int.natCast_nonneg _
    rw [List.map_cons, promotedAt, List.countP_cons, Nat.cast_add, add_comm]
    simp only [decide_eq_true_eq]
    exact (abs_add_le _ _).trans (add_le_add earlier firstShare)

theorem square_add_unit_le {sum counter value count : ℤ} (sumLe : sum ≤ count ^ 2)
    (counterLe : |counter| ≤ count) (unit : |value| ≤ 1) :
    sum + (counter + value) * (counter + value) - counter * counter ≤ (count + 1) ^ 2 := by
  obtain ⟨below, above⟩ := abs_le.mp counterLe
  rcases Int.abs_le_one_iff.mp unit with rfl | rfl | rfl <;> linarith

/-- Few deltas of one unit each stay within `i64`. -/
theorem stays_fed (positive : 0 < cols) (seedIdx : ℕ) (deltas : List CellDelta)
    (inside : ∀ delta ∈ deltas, delta.row < rows ∧ delta.col < cols)
    (unit : ∀ delta ∈ deltas, |delta.value| ≤ 1)
    (few : ∀ row, deltas.countP (fun delta => delta.row = row) ≤ 2 ^ 31) :
    (fed rows cols seedIdx deltas).Stays ∧
      ∀ parent ∈ (fed rows cols seedIdx deltas).outcome, ∀ row < rows,
        CountL2HH.squareSum parent.counts row ≤
          (deltas.countP fun delta => delta.row = row : ℤ) ^ 2 := by
  induction deltas using List.reverseRecOn with
  | nil =>
    refine ⟨trivial, fun parent built row _ => ?_⟩
    obtain ⟨_, same⟩ := Option.ite_none_right_eq_some.mp built
    obtain rfl := Option.some.inj same
    exact (CountL2HH.squareSum_filled rows cols row).le
  | append_singleton earlier delta hypothesis =>
    have insideBefore := fun other member => inside other (List.mem_append_left [delta] member)
    have unitBefore := fun other member => unit other (List.mem_append_left [delta] member)
    have deltaMember := List.mem_append_right earlier (List.mem_singleton_self delta)
    have counted : ∀ row, (earlier ++ [delta]).countP (fun other => other.row = row) =
        earlier.countP (fun other => other.row = row) + if delta.row = row then 1 else 0 := by
      intro row
      rw [List.countP_append, List.countP_singleton]
      simp only [decide_eq_true_eq]
    obtain ⟨staysBefore, squaresBefore⟩ := hypothesis insideBefore unitBefore fun row =>
      (Nat.le_add_right _ _).trans ((counted row).symm.le.trans (few row))
    obtain ⟨before, built, sameRows, sameCols, counters⟩ :=
      outcome_fed positive seedIdx earlier insideBefore
    have deltaInside := inside delta deltaMember
    rw [← sameRows, ← sameCols] at deltaInside
    have after := outcome_fed_append built deltaInside
    have squares : ∀ row < rows, CountL2HH.squareSum
        (before.applyDelta delta.row delta.col delta.value).counts row ≤
          ((earlier ++ [delta]).countP fun other => other.row = row : ℤ) ^ 2 := by
      intro row rowInside
      rw [CountL2HH.applyDelta, before.squareSum_writeCounter deltaInside.2 _ (sameRows ▸ rowInside),
        counted]
      by_cases same : delta.row = row
      · subst same
        have counterLe := abs_promotedAt_le unitBefore (delta.row, delta.col)
        rw [← counters, before.counts.cellAt_of_inside (delta.row, delta.col) deltaInside.1
          deltaInside.2] at counterLe
        rw [if_pos rfl, if_pos rfl, Nat.cast_add]
        exact square_add_unit_le (squaresBefore before built delta.row rowInside) counterLe
          (unit delta deltaMember)
      · rw [if_neg same, if_neg same, add_zero]
        exact squaresBefore before built row rowInside
    refine ⟨?_, fun parent parentBuilt => ?_⟩
    · rw [fed_append]
      refine ⟨staysBefore, fun parent parentBuilt row rowInside => ?_⟩
      rw [← fed_append, after] at parentBuilt
      obtain rfl := Option.some.inj parentBuilt
      have small : (((earlier ++ [delta]).countP fun other => other.row = row : ℕ) : ℤ) ≤ 2 ^ 31 :=
        Nat.cast_le.mpr (few row)
      calc
        _ ≤ _ := squares row (rowInside.trans_eq sameRows)
        _ ≤ (2 ^ 31) ^ 2 := pow_le_pow_left₀ (Int.natCast_nonneg _) small 2
        _ ≤ i64Max := by decide
    · rw [after] at parentBuilt
      obtain rfl := Option.some.inj parentBuilt
      exact squares

theorem streamAt_singleton (hashed : BitVec 128) (row col : ℕ) :
    streamAt cols [hashed] (row, col) =
      if (l2hhCellForRow hashed row cols (colsMaskBits cols)).1 = col then
        (l2hhCellForRow hashed row cols (colsMaskBits cols)).2
      else 0 := by
  simp only [streamAt, List.map_singleton, List.sum_singleton, CountL2HH.insertedAt, mul_one]

theorem stays_fedRaw_singleton (positive : 0 < cols) (seedIdx : ℕ) (hashed : BitVec 128) :
    (fedRaw rows cols seedIdx [hashed]).Stays := by
  obtain ⟨raw, built, sameRows, sameCols, counters⟩ :=
    @outcome_fedRaw rows cols positive seedIdx [hashed]
  refine ⟨trivial, fun after afterBuilt row rowInside => ?_⟩
  obtain rfl : raw = after := Option.some.inj (built.symm.trans afterBuilt)
  rw [sameRows] at rowInside
  have counter : ∀ col < cols, raw.counts.queryOneCounter row col = _ := fun col colInside =>
    (counters row rowInside col colInside).trans (streamAt_singleton hashed row col)
  have colInside : (l2hhCellForRow hashed row cols (colsMaskBits cols)).1 < cols :=
    Nat.mod_lt _ positive
  have onlyOne := CountL2HH.sum_range_replaced (fun _ => 0)
    (fun col => raw.counts.queryOneCounter row col * raw.counts.queryOneCounter row col) colInside
    fun col inside different => by rw [counter col inside, if_neg different.symm, mul_zero]
  have nothing : ((List.range cols).map fun _ => (0 : ℤ)).sum = 0 :=
    List.sum_eq_zero fun zero member => by
      obtain ⟨_, _, rfl⟩ := List.mem_map.mp member
      rfl
  rw [CountL2HH.squareSum, sameCols, onlyOne, nothing, counter _ colInside, if_pos rfl]
  rcases l2hhCellForRow_sign hashed row cols (colsMaskBits cols) with one | minusOne
  · rw [one]
    decide
  · rw [minusOne]
    decide

/-- A key whose cell in some row has a number no delta has is lost there. -/
theorem not_reproduces_of_wide (allocated : max rows 1 * max cols 1 * 8 < 2 ^ 63) (seedIdx : ℕ)
    (hashed : BitVec 128) {row : ℕ} (rowInside : row < max rows 1)
    (wide : 2 ^ 32 ≤ row ∨
      2 ^ 32 ≤ (l2hhCellForRow hashed row (max cols 1) (colsMaskBits (max cols 1))).1) :
    ¬Reproduces (max rows 1) (max cols 1) seedIdx (WorkerSketch.new rows cols) := by
  intro reproduces
  have positive : 0 < max cols 1 := Nat.lt_of_lt_of_le Nat.one_pos (Nat.le_max_right _ _)
  have few : max rows 1 < 2 ^ 60 := by
    have atLeast := Nat.mul_le_mul_left (max rows 1) positive
    omega
  have sent := emitted_of_clean (clean_new rows cols) hashed
  have inside : ∀ delta ∈ unitDeltas (max rows 1) (max cols 1) hashed,
      delta.row < max rows 1 ∧ delta.col < max cols 1 := by
    intro delta member
    obtain ⟨row, below, rfl⟩ := mem_unitDeltas member
    exact ⟨(Nat.mod_le _ _).trans_lt below, (Nat.mod_le _ _).trans_lt (Nat.mod_lt _ positive)⟩
  have unit : ∀ delta ∈ unitDeltas (max rows 1) (max cols 1) hashed, |delta.value| ≤ 1 := by
    intro delta member
    obtain ⟨row, below, rfl⟩ := mem_unitDeltas member
    refine Int.abs_le_one_iff.mpr (Or.inr ?_)
    exact l2hhCellForRow_sign hashed row (max cols 1) (colsMaskBits (max cols 1))
  have parentStays := (stays_fed positive seedIdx _ inside unit
    fun row => countP_unitDeltas_le few hashed row).1
  obtain ⟨parent, raw, parentBuilt, rawBuilt, same, -⟩ :=
    reproduces [[.insertHashEmitDelta hashed 1]] (unitDeltas (max rows 1) (max cols 1) hashed)
      [hashed] (by rw [List.flatMap_singleton, sent]; exact List.Perm.refl _) (List.Perm.refl _)
      parentStays (stays_fedRaw_singleton positive seedIdx hashed)
  obtain ⟨fedParent, fedBuilt, parentRows, parentCols, parentCounters⟩ :=
    outcome_fed positive seedIdx _ inside
  obtain rfl : parent = fedParent := Option.some.inj (parentBuilt.symm.trans fedBuilt)
  obtain ⟨sketch, sketchBuilt, rawRows, rawCols, rawCounters⟩ :=
    @outcome_fedRaw (max rows 1) (max cols 1) positive seedIdx [hashed]
  obtain rfl : raw = sketch := Option.some.inj (rawBuilt.symm.trans sketchBuilt)
  have colInside : (l2hhCellForRow hashed row (max cols 1) (colsMaskBits (max cols 1))).1 <
      max cols 1 := Nat.mod_lt _ positive
  have kept := rawCounters row rowInside _ colInside
  have lost : promotedAt ((unitDeltas (max rows 1) (max cols 1) hashed).map CellDelta.promotion)
      (row, (l2hhCellForRow hashed row (max cols 1) (colsMaskBits (max cols 1))).1) = 0 := by
    by_contra carried
    obtain ⟨promotion, member, named⟩ := exists_of_promotedAt carried
    obtain ⟨delta, deltaMember, rfl⟩ := List.mem_map.mp member
    obtain ⟨other, _, rfl⟩ := mem_unitDeltas deltaMember
    obtain ⟨sameRow, sameCol⟩ := Prod.mk.inj named
    rcases wide with wideRow | wideCol
    · exact absurd (sameRow ▸ asU32_lt other) (Nat.not_lt_of_le wideRow)
    · exact absurd (sameCol ▸ asU32_lt _) (Nat.not_lt_of_le wideCol)
  rw [streamAt_singleton, if_pos rfl] at kept
  rw [← parentCounters, parent.counts.cellAt_of_inside _ (parentRows.symm ▸ rowInside)
    (parentCols.symm ▸ colInside), same, kept] at lost
  rcases l2hhCellForRow_sign hashed row (max cols 1) (colsMaskBits (max cols 1)) with one | minusOne
  · exact absurd (one.symm.trans lost) one_ne_zero
  · exact absurd (minusOne.symm.trans lost) (by decide)

theorem colsMaskBits_bounds (wide : 2 ^ 32 < cols) (small : cols < 2 ^ 60) :
    33 ≤ colsMaskBits cols ∧ colsMaskBits cols < 64 := by
  have positive : cols ≠ 0 := Nat.ne_of_gt (Nat.zero_lt_of_lt wide)
  have atLeast : 32 ≤ Nat.log2 cols := (Nat.le_log2 positive).mpr wide.le
  have atMost : Nat.log2 cols < 60 := (Nat.log2_lt positive).mpr small
  unfold colsMaskBits
  by_cases power : 2 ^ Nat.log2 cols = cols
  · rw [if_pos power]
    have different : Nat.log2 cols ≠ 32 := fun same => by
      rw [same] at power
      exact Nat.ne_of_lt wide power
    omega
  · rw [if_neg power]
    omega

theorem exists_wide_col (wide : 2 ^ 32 < cols) (small : cols < 2 ^ 60) :
    (l2hhCellForRow (4294967296#128) 0 cols (colsMaskBits cols)).1 = 2 ^ 32 := by
  obtain ⟨atLeast, below⟩ := colsMaskBits_bounds wide small
  have fits : 2 ^ colsMaskBits cols < 2 ^ 128 := Nat.pow_lt_pow_right (by decide) (by omega)
  have positive : 1 ≤ 2 ^ colsMaskBits cols := Nat.one_le_two_pow
  have shifted : (1#128 <<< colsMaskBits cols).toNat = 2 ^ colsMaskBits cols := by
    rw [BitVec.toNat_shiftLeft, show (1#128).toNat = 1 from rfl, Nat.one_shiftLeft,
      Nat.mod_eq_of_lt fits]
  have mask : ((1#128 <<< colsMaskBits cols) - 1#128).toNat = 2 ^ colsMaskBits cols - 1 := by
    rw [BitVec.toNat_sub, shifted, show (1#128).toNat = 1 from rfl]
    omega
  have whole : shiftRight128 (4294967296#128) (0 * colsMaskBits cols) = 4294967296#128 := by
    rw [Nat.zero_mul]
    rfl
  have narrow : 2 ^ 32 < 2 ^ colsMaskBits cols := Nat.pow_lt_pow_right (by decide) (by omega)
  simp only [l2hhCellForRow, whole, BitVec.toNat_and, mask]
  rw [show (4294967296#128).toNat = 2 ^ 32 from rfl, Nat.and_two_pow_sub_one_eq_mod,
    Nat.mod_eq_of_lt narrow, show 2 ^ 32 % 2 ^ 64 = 2 ^ 32 from rfl, Nat.mod_eq_of_lt wide]

end L2hhWorkerSketch

/-- The accumulators of every sketch with a history within `i64` are the squared norms of its
rows, and a parent fed what workers promote reproduces the sketch of the stream, exactly when row
and column numbers fit a delta. -/
theorem l2hh_norms_kept_iff (rows cols seedIdx : ℕ) (worker : WorkerSketch)
    (built : L2hhWorkerSketch.new rows cols = some worker)
    (allocated : max rows 1 * max cols 1 * 8 < 2 ^ 63) :
    ((∀ (history : CountL2HH.History) (sketch : CountL2HH), history.Stays →
        history.outcome = some sketch → sketch.Normed) ∧
      L2hhWorkerSketch.Reproduces (max rows 1) (max cols 1) seedIdx worker) ↔
      rows ≤ 2 ^ 32 ∧ cols ≤ 2 ^ 32 := by
  obtain rfl : WorkerSketch.new rows cols = worker :=
    Option.some.inj (Option.ite_none_right_eq_some.mp built).2
  constructor
  · rintro ⟨-, reproduces⟩
    refine ⟨Nat.le_of_not_lt fun wide => ?_, Nat.le_of_not_lt fun wide => ?_⟩
    · exact L2hhWorkerSketch.not_reproduces_of_wide allocated seedIdx 0#128
        (wide.trans_le (Nat.le_max_left _ _)) (Or.inl (Nat.le_refl _)) reproduces
    · have someRow : 0 < max rows 1 := Nat.lt_of_lt_of_le Nat.one_pos (Nat.le_max_right _ _)
      have wideMax : 2 ^ 32 < max cols 1 := wide.trans_le (Nat.le_max_left _ _)
      have small : max cols 1 < 2 ^ 60 := by
        have atLeast := Nat.mul_le_mul_right (max cols 1) someRow
        omega
      exact L2hhWorkerSketch.not_reproduces_of_wide allocated seedIdx 4294967296#128 someRow
        (Or.inr (L2hhWorkerSketch.exists_wide_col wideMax small).ge) reproduces
  · rintro ⟨rowsFit, colsFit⟩
    exact ⟨fun history sketch stays outcome => (history.normed stays outcome).2,
      L2hhWorkerSketch.reproduces_of_fits rowsFit colsFit seedIdx⟩

/-- A sketch of four rows and eight columns. -/
theorem l2hh_norms_kept_narrow :
    ((∀ (history : CountL2HH.History) (sketch : CountL2HH), history.Stays →
        history.outcome = some sketch → sketch.Normed) ∧
      L2hhWorkerSketch.Reproduces 4 8 0 (WorkerSketch.new 4 8)) :=
  (l2hh_norms_kept_iff 4 8 0 (WorkerSketch.new 4 8) (if_pos (by decide)) (by decide)).mpr
    (by decide)

/-- With one row and `2 ^ 32 + 1` columns, a count of the last column ends up in column 0. -/
theorem l2hh_wide_column_lost :
    L2hhWorkerSketch.new 1 (2 ^ 32 + 1) = some (WorkerSketch.new 1 (2 ^ 32 + 1)) ∧
      ¬L2hhWorkerSketch.Reproduces 1 (2 ^ 32 + 1) 0 (WorkerSketch.new 1 (2 ^ 32 + 1)) :=
  ⟨if_pos (by decide +kernel),
    @L2hhWorkerSketch.not_reproduces_of_wide 1 (2 ^ 32 + 1) (by decide) 0 4294967296#128 0
      (by decide) (Or.inr (L2hhWorkerSketch.exists_wide_col (by decide) (by decide)).ge)⟩

end AsapSketchlib
