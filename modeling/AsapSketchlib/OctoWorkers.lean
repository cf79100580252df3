/-
This file models the compact worker sketches of the Octo pipeline: a matrix of one-byte
counters, unsigned for Count-Min and signed for Count, whose loops promote and clear a counter.

Both loops of a worker, the one over the rows of a key and the one that flushes every cell,
visit cells one after another. What a visit keeps and what it sends account for the counter
it found.
-/

import AsapSketchlib.MatrixSketch
import AsapSketchlib.OctoPipeline
import AsapSketchlib.Promotion

namespace AsapSketchlib

/-- `as u32`. -/
def asU32 (value : ℕ) : ℕ := value % 2 ^ 32

theorem asU32_lt (value : ℕ) : asU32 value < 2 ^ 32 := Nat.mod_lt _ (Nat.two_pow_pos 32)

theorem asU32_of_lt {value : ℕ} (small : value < 2 ^ 32) : asU32 value = value :=
  Nat.mod_eq_of_lt small

/-! ### One-byte counters -/

/-- A kind of one-byte counter: what one occurrence adds under a row hash, the byte a sum is
stored as, and what is compared with the threshold. `Residual` is what a counter may hold
between two visits; from there an occurrence never wraps around. -/
structure ByteCounter where
  increment : BitVec 64 → ℤ
  stored : ℤ → ℤ
  magnitude : ℤ → ℕ
  Residual : ℤ → Prop
  residual_zero : Residual 0
  residual_bound : ∀ cell, Residual cell → cell.natAbs ≤ maxPromask - 1
  stored_of_residual : ∀ cell hashed, Residual cell →
    stored (cell + increment hashed) = cell + increment hashed
  residual_of_unreached : ∀ cell hashed, Residual cell →
    magnitude (cell + increment hashed) < maxPromask → Residual (cell + increment hashed)
  increment_ne_zero : ∀ hashed, increment hashed ≠ 0

/-- The `u8` counters of a Count-Min worker. -/
def unsignedByte : ByteCounter where
  increment := fun _ => 1
  stored := fun sum => sum % 256
  magnitude := Int.toNat
  Residual := fun cell => 0 ≤ cell ∧ cell ≤ 126
  residual_zero := by decide
  residual_bound := by
    intro cell residual
    unfold maxPromask
    omega
  stored_of_residual := by
    intro cell _ residual
    omega
  residual_of_unreached := by
    intro cell _ residual unreached
    unfold maxPromask at unreached
    omega
  increment_ne_zero := by
    intro _
    decide

/-- The `i8` counters of a Count worker. -/
def signedByte : ByteCounter where
  increment := rowSign
  stored := fun sum => sum.bmod 256
  magnitude := Int.natAbs
  Residual := fun cell => cell.natAbs ≤ 126
  residual_zero := by decide
  residual_bound := fun _ residual => residual
  stored_of_residual := by
    intro cell hashed residual
    have sign := rowSign_cases hashed
    exact Int.bmod_eq_of_le (by omega) (by omega)
  residual_of_unreached := by
    intro cell hashed _ unreached
    exact Nat.le_of_lt_succ unreached
  increment_ne_zero := by
    intro hashed
    have sign := rowSign_cases hashed
    omega

/-! ### Worker sketches -/

/-- `CmDelta` and `CountDelta`: an accumulated change of one cell. -/
structure CellDelta where
  row : ℕ
  col : ℕ
  value : ℤ
  deriving DecidableEq

def CellDelta.promotion (delta : CellDelta) : (ℕ × ℕ) × ℤ := ((delta.row, delta.col), delta.value)

/-- A visit of a loop to one cell: what becomes of the counter, and what is promoted. -/
structure Visit where
  row : ℕ
  col : ℕ
  change : ℤ → ℤ × Option ℤ

structure WorkerSketch where
  counters : Vector2D ℤ

namespace WorkerSketch

def new (rows cols : ℕ) : WorkerSketch := ⟨Vector2D.filled (max rows 1) (max cols 1) 0⟩

/-- Per-row hashes a geometry needs for a key. -/
def hashes (xxh : XxHash3) (rows : ℕ) (value : DataInput) : List (BitVec 64) :=
  (List.range (max rows 1)).map fun row => hash64Seeded xxh row value

/-- The loop body: the counter is read and written, and a promotion is emitted. -/
def visit (sketch : WorkerSketch) (place : Visit) : WorkerSketch × List CellDelta :=
  let changed := place.change (sketch.counters.queryOneCounter place.row place.col)
  (⟨sketch.counters.updateOneCounter place.row place.col fun _ => changed.1⟩,
    changed.2.toList.map fun value => ⟨asU32 place.row, asU32 place.col, value⟩)

def visitAll : WorkerSketch → List Visit → WorkerSketch × List CellDelta
  | sketch, [] => (sketch, [])
  | sketch, first :: rest =>
    let visited := visit sketch first
    let others := visitAll visited.1 rest
    (others.1, visited.2 ++ others.2)

/-- A counter that meets the test is emitted and cleared. -/
def release (meets : ℤ → Bool) (cell : ℤ) : ℤ × Option ℤ :=
  if meets cell then (0, some cell) else (cell, none)

theorem release_balanced (meets : ℤ → Bool) (cell : ℤ) :
    (release meets cell).1 + (release meets cell).2.getD 0 = cell := by
  unfold release
  by_cases met : meets cell
  · rw [if_pos met]
    exact zero_add cell
  · rw [if_neg met]
    exact add_zero cell

theorem release_nonzero (cell : ℤ) : (release (fun held => held ≠ 0) cell).1 = 0 := by
  unfold release
  by_cases zero : cell = 0
  · rw [zero]
    rfl
  · rw [if_pos (decide_eq_true zero)]

def insertVisit (counter : ByteCounter) (cols threshold : ℕ) (hashed : BitVec 64) (row : ℕ) :
    Visit where
  row := row
  col := lower32Col hashed cols
  change := fun cell => release (fun bumped => threshold ≤ counter.magnitude bumped)
    (counter.stored (cell + counter.increment hashed))

/-- `insert_hashes_emit_delta`: inserts a key, emitting and clearing every counter that reaches
the threshold. It fails unless there is one hash per row. -/
def insertHashesEmitDelta (counter : ByteCounter) (sketch : WorkerSketch)
    (hashes : List (BitVec 64)) (threshold : ℕ) : Option (WorkerSketch × List CellDelta) :=
  if hashes.length = sketch.counters.rows then
    some (sketch.visitAll (hashes.zipIdx.map fun entry =>
      insertVisit counter sketch.counters.cols (clampPromask threshold) entry.1 entry.2))
  else none

def cells (rows cols : ℕ) : List (ℕ × ℕ) :=
  (List.range rows).flatMap fun row => (List.range cols).map fun col => (row, col)

def flushVisit (cell : ℕ × ℕ) : Visit where
  row := cell.1
  col := cell.2
  change := release fun held => held ≠ 0

/-- Promotes and clears every counter still holding a partial count. -/
def flush (sketch : WorkerSketch) : WorkerSketch × List CellDelta :=
  sketch.visitAll ((cells sketch.counters.rows sketch.counters.cols).map flushVisit)

@[simp] theorem mem_cells {rows cols : ℕ} {cell : ℕ × ℕ} :
    cell ∈ cells rows cols ↔ cell.1 < rows ∧ cell.2 < cols := by
  simp only [cells, List.mem_flatMap, List.mem_map, List.mem_range]
  constructor
  · rintro ⟨row, rowInside, col, colInside, rfl⟩
    exact ⟨rowInside, colInside⟩
  · rintro ⟨rowInside, colInside⟩
    exact ⟨cell.1, rowInside, cell.2, colInside, rfl⟩

/-! ### What the loops keep and send -/

@[simp] theorem visitAll_rows (sketch : WorkerSketch) (visits : List Visit) :
    (sketch.visitAll visits).1.counters.rows = sketch.counters.rows := by
  induction visits generalizing sketch with
  | nil => rfl
  | cons first rest hypothesis => exact hypothesis _

@[simp] theorem visitAll_cols (sketch : WorkerSketch) (visits : List Visit) :
    (sketch.visitAll visits).1.counters.cols = sketch.counters.cols := by
  induction visits generalizing sketch with
  | nil => rfl
  | cons first rest hypothesis => exact hypothesis _

/-- What a counter may hold between two visits: a residue, and nothing in a column that no
32-bit column number reaches. -/
def Held (counter : ByteCounter) (col : ℕ) (cell : ℤ) : Prop :=
  counter.Residual cell ∧ (2 ^ 32 ≤ col → cell = 0)

/-- Every counter of a sketch is as it may be between two visits. -/
def Settled (counter : ByteCounter) (sketch : WorkerSketch) : Prop :=
  ∀ cell : ℕ × ℕ, Held counter cell.2 (sketch.counters.cellAt cell)

/-- A visit inside a grid that accounts for a gain: what it keeps is held, what it keeps and
sends is what it found and the gain, and the address of what it sends is not truncated. -/
structure Accounted (counter : ByteCounter) (rows cols : ℕ) (gain : ℤ) (visit : Visit) : Prop where
  rowInside : visit.row < rows
  colInside : visit.col < cols
  held : ∀ cell, Held counter visit.col cell → Held counter visit.col (visit.change cell).1
  balanced : ∀ cell, Held counter visit.col cell →
    (visit.change cell).1 + (visit.change cell).2.getD 0 = cell + gain
  addressed : ∀ cell, Held counter visit.col cell → (visit.change cell).2 ≠ none →
    visit.row < 2 ^ 32 ∧ visit.col < 2 ^ 32

/-- The gain of a visit to a cell, as seen at some cell. -/
def gainAt (gain : ℤ) (visit : Visit) (cell : ℕ × ℕ) : ℤ :=
  if (visit.row, visit.col) = cell then gain else 0

open Promotion

variable {counter : ByteCounter}

theorem cellAt_visit (sketch : WorkerSketch) (place : Visit)
    (rowInside : place.row < sketch.counters.rows) (colInside : place.col < sketch.counters.cols)
    (cell : ℕ × ℕ) :
    (sketch.visit place).1.counters.cellAt cell =
      if (place.row, place.col) = cell then
        (place.change (sketch.counters.cellAt (place.row, place.col))).1
      else sketch.counters.cellAt cell := by
  rw [Vector2D.cellAt_of_inside sketch.counters (place.row, place.col) rowInside colInside]
  exact Vector2D.cellAt_updateOneCounter sketch.counters _ (place.row, place.col) rowInside
    colInside cell

theorem visit_spec {sketch : WorkerSketch} (settled : Settled counter sketch) {gain : ℤ}
    {place : Visit}
    (accounted : Accounted counter sketch.counters.rows sketch.counters.cols gain place) :
    Settled counter (sketch.visit place).1 ∧
    (∀ delta ∈ (sketch.visit place).2,
      delta.row < sketch.counters.rows ∧ delta.col < sketch.counters.cols) ∧
    ∀ cell, (sketch.visit place).1.counters.cellAt cell +
        promotedAt ((sketch.visit place).2.map CellDelta.promotion) cell =
      sketch.counters.cellAt cell + gainAt gain place cell := by
  have found : sketch.counters.queryOneCounter place.row place.col =
      sketch.counters.cellAt (place.row, place.col) :=
    (Vector2D.cellAt_of_inside sketch.counters (place.row, place.col) accounted.rowInside
      accounted.colInside).symm
  have foundHeld := settled (place.row, place.col)
  have written := cellAt_visit sketch place accounted.rowInside accounted.colInside
  have sent : (sketch.visit place).2 =
      (place.change (sketch.counters.cellAt (place.row, place.col))).2.toList.map
        fun value => ⟨place.row, place.col, value⟩ := by
    rw [← found] at foundHeld ⊢
    cases promoted : (place.change (sketch.counters.queryOneCounter place.row place.col)).2 with
    | none => simp only [visit, promoted, Option.toList_none, List.map_nil]
    | some value =>
      obtain ⟨rowSmall, colSmall⟩ := accounted.addressed _ foundHeld
        (promoted ▸ Option.some_ne_none value)
      simp only [visit, promoted, asU32_of_lt rowSmall, asU32_of_lt colSmall]
  refine ⟨fun cell => ?_, fun delta member => ?_, fun cell => ?_⟩
  · rw [written]
    by_cases same : (place.row, place.col) = cell
    · rw [if_pos same, ← same]
      exact accounted.held _ foundHeld
    · rw [if_neg same]
      exact settled cell
  · rw [sent] at member
    obtain ⟨value, _, rfl⟩ := List.mem_map.mp member
    exact ⟨accounted.rowInside, accounted.colInside⟩
  · have amount : promotedAt ((sketch.visit place).2.map CellDelta.promotion) cell =
        if (place.row, place.col) = cell then
          (place.change (sketch.counters.cellAt (place.row, place.col))).2.getD 0 else 0 := by
      rw [sent]
      cases (place.change (sketch.counters.cellAt (place.row, place.col))).2 with
      | none => exact (ite_self 0).symm
      | some value => exact add_zero _
    rw [written, amount, gainAt]
    by_cases same : (place.row, place.col) = cell
    · rw [if_pos same, if_pos same, if_pos same, ← same]
      exact accounted.balanced _ foundHeld
    · rw [if_neg same, if_neg same, if_neg same]

theorem visitAll_spec {Place : Type} (visitOf : Place → Visit) (gain : Place → ℤ)
    (places : List Place) {sketch : WorkerSketch} (settled : Settled counter sketch)
    (accounted : ∀ place ∈ places, Accounted counter sketch.counters.rows sketch.counters.cols
      (gain place) (visitOf place)) :
    Settled counter (sketch.visitAll (places.map visitOf)).1 ∧
    (∀ delta ∈ (sketch.visitAll (places.map visitOf)).2,
      delta.row < sketch.counters.rows ∧ delta.col < sketch.counters.cols) ∧
    ∀ cell, (sketch.visitAll (places.map visitOf)).1.counters.cellAt cell +
        promotedAt ((sketch.visitAll (places.map visitOf)).2.map CellDelta.promotion) cell =
      sketch.counters.cellAt cell +
        (places.map fun place => gainAt (gain place) (visitOf place) cell).sum := by
  induction places generalizing sketch with
  | nil => exact ⟨settled, fun delta member => absurd member List.not_mem_nil, fun _ => rfl⟩
  | cons first rest hypothesis =>
    obtain ⟨visitedSettled, visitedInside, visitedBalance⟩ :=
      visit_spec settled (accounted first List.mem_cons_self)
    obtain ⟨restSettled, restInside, restBalance⟩ :=
      hypothesis visitedSettled fun place member =>
        accounted place (List.mem_cons_of_mem _ member)
    refine ⟨restSettled, fun delta member => ?_, fun cell => ?_⟩
    · rcases List.mem_append.mp member with here | later
      · exact visitedInside delta here
      · exact restInside delta later
    · rw [List.map_cons, List.map_cons, List.sum_cons, visitAll, List.map_append,
        promotedAt_append]
      have visited := visitedBalance cell
      have later := restBalance cell
      linarith only [visited, later]

theorem row_lt_of_mem_visitAll {visits : List Visit} {sketch : WorkerSketch} {delta : CellDelta}
    (member : delta ∈ (sketch.visitAll visits).2) : delta.row < 2 ^ 32 := by
  induction visits generalizing sketch with
  | nil => exact absurd member List.not_mem_nil
  | cons first rest hypothesis =>
    rcases List.mem_append.mp member with here | later
    · obtain ⟨value, _, rfl⟩ := List.mem_map.mp here
      exact asU32_lt _
    · exact hypothesis later

/-! ### The two loops of a worker -/

theorem insertVisit_accounted {rows cols : ℕ} (addressable : rows ≤ 2 ^ 32) (colsPositive : 0 < cols)
    (tau : ℕ) (hashed : BitVec 64) {row : ℕ} (rowInside : row < rows) :
    Accounted counter rows cols (counter.increment hashed)
      (insertVisit counter cols (clampPromask tau) hashed row) := by
  have colSmall := lower32Col_lt_two_pow hashed cols
  have unreachable : ¬ 2 ^ 32 ≤ lower32Col hashed cols := not_le.mpr colSmall
  have kept : ∀ cell, counter.Residual cell →
      counter.Residual (release (fun bumped => clampPromask tau ≤ counter.magnitude bumped)
        (cell + counter.increment hashed)).1 := by
    intro cell residual
    unfold release
    by_cases reached : clampPromask tau ≤ counter.magnitude (cell + counter.increment hashed)
    · rw [if_pos (decide_eq_true reached)]
      exact counter.residual_zero
    · rw [if_neg (by simpa using reached)]
      exact counter.residual_of_unreached cell hashed residual
        (lt_of_lt_of_le (not_le.mp reached) (clampPromask_le tau))
  refine ⟨rowInside, lower32Col_lt _ _ colsPositive, fun cell held => ?_, fun cell held => ?_,
    fun _ _ _ => ⟨lt_of_lt_of_le rowInside addressable, colSmall⟩⟩
  · refine ⟨?_, fun wide => absurd wide unreachable⟩
    show counter.Residual (release _ (counter.stored (cell + counter.increment hashed))).1
    rw [counter.stored_of_residual cell hashed held.1]
    exact kept cell held.1
  · show (release _ (counter.stored (cell + counter.increment hashed))).1 +
      (release _ (counter.stored (cell + counter.increment hashed))).2.getD 0 = _
    rw [counter.stored_of_residual cell hashed held.1, release_balanced]

theorem flushVisit_accounted {rows cols : ℕ} (addressable : rows ≤ 2 ^ 32) {cell : ℕ × ℕ}
    (inside : cell.1 < rows ∧ cell.2 < cols) :
    Accounted counter rows cols 0 (flushVisit cell) where
  rowInside := inside.1
  colInside := inside.2
  held := by
    intro found held
    show Held counter cell.2 (release _ found).1
    rw [release_nonzero]
    exact ⟨counter.residual_zero, fun _ => rfl⟩
  balanced := by
    intro found _
    exact (release_balanced _ found).trans (add_zero found).symm
  addressed := by
    intro found held promoted
    refine ⟨lt_of_lt_of_le inside.1 addressable, not_le.mp fun wide => promoted ?_⟩
    rw [held.2 wide]
    rfl

theorem insertHashesEmitDelta_spec {sketch : WorkerSketch} (settled : Settled counter sketch)
    (addressable : sketch.counters.rows ≤ 2 ^ 32) (colsPositive : 0 < sketch.counters.cols)
    {rowHashes : List (BitVec 64)} (oneEach : rowHashes.length = sketch.counters.rows) (tau : ℕ) :
    ∃ result, insertHashesEmitDelta counter sketch rowHashes tau = some result ∧
      Settled counter result.1 ∧
      (∀ delta ∈ result.2,
        delta.row < sketch.counters.rows ∧ delta.col < sketch.counters.cols) ∧
      ∀ cell, result.1.counters.cellAt cell + promotedAt (result.2.map CellDelta.promotion) cell =
        sketch.counters.cellAt cell + (rowHashes.zipIdx.map fun entry =>
          if (entry.2, lower32Col entry.1 sketch.counters.cols) = cell then
            counter.increment entry.1
          else 0).sum := by
  refine ⟨_, if_pos oneEach, ?_⟩
  refine visitAll_spec _ (fun entry => counter.increment entry.1) rowHashes.zipIdx settled
    fun entry member => insertVisit_accounted addressable colsPositive tau entry.1 ?_
  rw [← oneEach]
  exact (List.mem_zipIdx' member).1

theorem insertHashesEmitDelta_shape {sketch : WorkerSketch} {rowHashes : List (BitVec 64)}
    {tau : ℕ} {result : WorkerSketch × List CellDelta}
    (inserted : insertHashesEmitDelta counter sketch rowHashes tau = some result) :
    result.1.counters.rows = sketch.counters.rows ∧
      result.1.counters.cols = sketch.counters.cols := by
  unfold insertHashesEmitDelta at inserted
  by_cases oneEach : rowHashes.length = sketch.counters.rows
  · rw [if_pos oneEach] at inserted
    cases Option.some.inj inserted
    exact ⟨visitAll_rows _ _, visitAll_cols _ _⟩
  · rw [if_neg oneEach] at inserted
    exact absurd inserted (Option.some_ne_none result).symm

theorem flush_spec {sketch : WorkerSketch} (settled : Settled counter sketch)
    (addressable : sketch.counters.rows ≤ 2 ^ 32) :
    Settled counter sketch.flush.1 ∧
    (∀ delta ∈ sketch.flush.2,
      delta.row < sketch.counters.rows ∧ delta.col < sketch.counters.cols) ∧
    ∀ cell, sketch.flush.1.counters.cellAt cell +
        promotedAt (sketch.flush.2.map CellDelta.promotion) cell = sketch.counters.cellAt cell := by
  obtain ⟨kept, inside, balanced⟩ := visitAll_spec flushVisit (fun _ => 0)
    (cells sketch.counters.rows sketch.counters.cols) settled fun cell member =>
      flushVisit_accounted addressable (mem_cells.mp member)
  refine ⟨kept, inside, fun cell => (balanced cell).trans ?_⟩
  have nothing : ∀ gain ∈ (cells sketch.counters.rows sketch.counters.cols).map
      (fun place => gainAt 0 (flushVisit place) cell), gain = 0 := by
    intro gain member
    obtain ⟨place, _, rfl⟩ := List.mem_map.mp member
    exact ite_self 0
  rw [List.sum_eq_zero nothing, add_zero]

theorem cellAt_flush (sketch : WorkerSketch) (cell : ℕ × ℕ) :
    sketch.flush.1.counters.cellAt cell = 0 := by
  have cleared : ∀ (places : List (ℕ × ℕ)) (sketch : WorkerSketch),
      (∀ place ∈ places, place.1 < sketch.counters.rows ∧ place.2 < sketch.counters.cols) →
      cell ∈ places ∨ sketch.counters.cellAt cell = 0 →
      (sketch.visitAll (places.map flushVisit)).1.counters.cellAt cell = 0 := by
    intro places
    induction places with
    | nil =>
      intro sketch _ visited
      exact visited.resolve_left List.not_mem_nil
    | cons first rest hypothesis =>
      intro sketch inside visited
      have firstInside := inside first List.mem_cons_self
      have written := cellAt_visit sketch (flushVisit first) firstInside.1 firstInside.2 cell
      refine hypothesis _ (fun place member => inside place (List.mem_cons_of_mem _ member))
        ?_
      by_cases same : first = cell
      · refine Or.inr (written.trans ((if_pos same).trans ?_))
        exact release_nonzero _
      · rw [if_neg (show ¬ ((flushVisit first).row, (flushVisit first).col) = cell from same)]
          at written
        rcases visited with member | zero
        · exact Or.inl ((List.mem_cons.mp member).resolve_left (Ne.symm same))
        · exact Or.inr (written.trans zero)
  refine cleared _ sketch (fun place member => mem_cells.mp member) ?_
  by_cases inside : cell.1 < sketch.counters.rows ∧ cell.2 < sketch.counters.cols
  · exact Or.inl (mem_cells.mpr inside)
  · exact Or.inr (if_neg inside)

end WorkerSketch

end AsapSketchlib
