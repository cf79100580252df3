/-
This file models the loops of a worker that is a full sketch with `i32` counters: an insert that
emits a delta and clears a counter each time that reaches a threshold, beside the plain insert.
What such a worker keeps and what a parent makes of its deltas add up to the sketch of the stream
exactly where the worker writes the cells a plain insert writes.

Counters are machine words here, so the sums are those of every stream, overflow included.
-/

import AsapSketchlib.OctoWorkers

namespace AsapSketchlib

/-- An `i32` counter. -/
abbrev Counter32 : Type := BitVec 32

/-! ### Matrices of `i32` counters -/

namespace Matrix32

/-- `query_one_counter`. -/
def counterAt (matrix : Vector2D Counter32) (row col : ℕ) : Counter32 :=
  (matrix.data[row * matrix.cols + col]?).getD 0

/-- The column of a key in each row, and what it adds there. -/
structure Placement where
  col : ℕ → ℕ
  increment : ℕ → Counter32

def insertRows (place : Placement) (matrix : Vector2D Counter32) : Vector2D Counter32 :=
  matrix.updateRows place.col fun row counter => counter + place.increment row

/-- `CmDelta` and `CountDelta`: what a counter held when it was cleared. -/
structure Delta32 where
  row : ℕ
  col : ℕ
  value : Counter32

def Delta32.promotion (delta : Delta32) : (ℕ × ℕ) × Counter32 :=
  ((delta.row, delta.col), delta.value)

/-- The body of the loop of an emitting insert: the counter is incremented, and emitted and
cleared if it meets the test. -/
def emitRow (place : Placement) (met : Counter32 → Bool) (row : ℕ) (matrix : Vector2D Counter32) :
    Vector2D Counter32 × List Delta32 :=
  let added := matrix.updateOneCounter row (place.col row) fun counter =>
    counter + place.increment row
  let current := counterAt added row (place.col row)
  if met current then
    (added.updateOneCounter row (place.col row) fun _ => 0,
      [⟨asU32 row, asU32 (place.col row), current⟩])
  else (added, [])

/-- The loop of an emitting insert over the rows below one. -/
def emitBelow (place : Placement) (met : Counter32 → Bool) :
    ℕ → Vector2D Counter32 → Vector2D Counter32 × List Delta32
  | 0, matrix => (matrix, [])
  | row + 1, matrix =>
    let below := emitBelow place met row matrix
    let last := emitRow place met row below.1
    (last.1, below.2 ++ last.2)

def emitRows (place : Placement) (met : Counter32 → Bool) (matrix : Vector2D Counter32) :
    Vector2D Counter32 × List Delta32 :=
  emitBelow place met matrix.rows matrix

def applyDelta (matrix : Vector2D Counter32) (delta : Delta32) : Vector2D Counter32 :=
  matrix.updateOneCounter delta.row delta.col fun counter => counter + delta.value

/-- `current >= threshold` of Count-Min, whose threshold is clamped and cast to `i32`. -/
def reaches (threshold : ℕ) (current : Counter32) : Bool :=
  decide ((clampPromask threshold : ℤ) ≤ current.toInt)

/-- `current.unsigned_abs() >= threshold` of Count. -/
def magnitudeReaches (threshold : ℕ) (current : Counter32) : Bool :=
  decide (clampPromask threshold ≤ current.toInt.natAbs)

/-! ### Counters under the loops -/

section

variable (place : Placement) (met : Counter32 → Bool) (row : ℕ) (matrix : Vector2D Counter32)

@[simp] theorem emitRow_rows : (emitRow place met row matrix).1.rows = matrix.rows := by
  simp only [emitRow]
  split <;> rfl

@[simp] theorem emitRow_cols : (emitRow place met row matrix).1.cols = matrix.cols := by
  simp only [emitRow]
  split <;> rfl

end

section

variable (place : Placement) (met : Counter32 → Bool) (rows : ℕ) (matrix : Vector2D Counter32)

@[simp] theorem emitBelow_rows : (emitBelow place met rows matrix).1.rows = matrix.rows := by
  induction rows with
  | zero => rfl
  | succ row hypothesis => exact (emitRow_rows _ _ _ _).trans hypothesis

@[simp] theorem emitBelow_cols : (emitBelow place met rows matrix).1.cols = matrix.cols := by
  induction rows with
  | zero => rfl
  | succ row hypothesis => exact (emitRow_cols _ _ _ _).trans hypothesis

end

theorem counterAt_filled (rows cols row col : ℕ) :
    counterAt (Vector2D.filled rows cols 0) row col = 0 := by
  unfold counterAt Vector2D.filled
  rw [List.getElem?_replicate]
  split <;> rfl

theorem counterAt_updateOneCounter (matrix : Vector2D Counter32) (change : Counter32 → Counter32)
    (target : ℕ) {row col targetCol : ℕ} (rowInside : row < matrix.rows)
    (colInside : col < matrix.cols) (targetInside : targetCol < matrix.cols) :
    counterAt (matrix.updateOneCounter target targetCol change) row col =
      if (target, targetCol) = (row, col) then change (counterAt matrix row col)
      else counterAt matrix row col := by
  have inside : row * matrix.cols + col < matrix.data.length := by
    rw [matrix.sized]
    exact Grid.position_lt rowInside colInside
  by_cases same : (target, targetCol) = (row, col)
  · obtain ⟨rfl, rfl⟩ := Prod.mk.inj same
    simp only [counterAt, Vector2D.updateOneCounter, List.getElem?_modify_eq, if_true,
      List.getElem?_eq_getElem inside, Option.map_eq_map, Option.map_some, Option.getD_some]
  · have elsewhere : target * matrix.cols + targetCol ≠ row * matrix.cols + col := fun equal => by
      obtain ⟨rfl, rfl⟩ := Grid.position_inj targetInside colInside equal
      exact same rfl
    rw [if_neg same]
    simp only [counterAt, Vector2D.updateOneCounter, List.getElem?_modify_ne _ _ elsewhere]

def addedAt (place : Placement) (row col : ℕ) : Counter32 :=
  if place.col row = col then place.increment row else 0

theorem counterAt_insertRows (place : Placement) (matrix : Vector2D Counter32)
    (colsInside : ∀ row, place.col row < matrix.cols) {row col : ℕ} (rowInside : row < matrix.rows)
    (colInside : col < matrix.cols) :
    counterAt (insertRows place matrix) row col =
      counterAt matrix row col + addedAt place row col := by
  have inside : row * matrix.cols + col < matrix.data.length := by
    rw [matrix.sized]
    exact Grid.position_lt rowInside colInside
  simp only [counterAt, insertRows, Vector2D.updateRows, addedAt,
    Grid.getElem?_updateRows _ colsInside _ _ colInside, List.getElem?_eq_getElem inside, rowInside,
    true_and]
  by_cases visited : place.col row = col
  · rw [if_pos visited, if_pos visited]
    rfl
  · rw [if_neg visited, if_neg visited, add_zero]

section

variable {place : Placement} {met : Counter32 → Bool} {row : ℕ} {matrix : Vector2D Counter32}
  (rowInside : row < matrix.rows) (colInside : place.col row < matrix.cols)

include rowInside colInside

theorem emitRow_of_unmet
    (unmet : met (counterAt matrix row (place.col row) + place.increment row) = false) :
    emitRow place met row matrix = (matrix.updateOneCounter row (place.col row) fun counter =>
      counter + place.increment row, []) := by
  have read := counterAt_updateOneCounter matrix (fun counter => counter + place.increment row)
    row rowInside colInside colInside
  rw [if_pos rfl] at read
  simp only [emitRow, read, unmet, Bool.false_eq_true, if_false]

theorem emitRow_of_met
    (isMet : met (counterAt matrix row (place.col row) + place.increment row) = true) :
    (emitRow place met row matrix).2 = [⟨asU32 row, asU32 (place.col row),
        counterAt matrix row (place.col row) + place.increment row⟩] ∧
      ∀ other col, other < matrix.rows → col < matrix.cols →
        counterAt (emitRow place met row matrix).1 other col =
          if (row, place.col row) = (other, col) then 0 else counterAt matrix other col := by
  have read := counterAt_updateOneCounter matrix (fun counter => counter + place.increment row)
    row rowInside colInside colInside
  rw [if_pos rfl] at read
  simp only [emitRow, read, isMet, if_true, true_and]
  intro other col otherIn colIn
  refine (counterAt_updateOneCounter (matrix.updateOneCounter row (place.col row) _) (fun _ => 0)
    row otherIn colIn colInside).trans ?_
  by_cases same : (row, place.col row) = (other, col)
  · rw [if_pos same, if_pos same]
  · rw [if_neg same, if_neg same, counterAt_updateOneCounter matrix _ row otherIn colIn colInside,
      if_neg same]

end

theorem col_of_mem_emitBelow {place : Placement} {met : Counter32 → Bool} {rows : ℕ}
    {matrix : Vector2D Counter32} {delta : Delta32}
    (sent : delta ∈ (emitBelow place met rows matrix).2) :
    ∃ row < rows, delta.row = asU32 row ∧ delta.col = asU32 (place.col row) := by
  induction rows with
  | zero => exact absurd sent List.not_mem_nil
  | succ last hypothesis =>
    rcases List.mem_append.mp sent with earlier | now
    · obtain ⟨row, below, address⟩ := hypothesis earlier
      exact ⟨row, Nat.lt_succ_of_lt below, address⟩
    · simp only [emitRow] at now
      split at now
      · rw [List.mem_singleton.mp now]
        exact ⟨last, Nat.lt_succ_self last, rfl, rfl⟩
      · exact absurd now List.not_mem_nil

open Promotion

/-- The deltas that a loop body sends and the counters it keeps account for its increment, where
the address fits a `u32`. -/
theorem emitRow_balanced (place : Placement) (met : Counter32 → Bool) (target row col : ℕ)
    (matrix : Vector2D Counter32) (targetInside : target < matrix.rows)
    (colInside : place.col target < matrix.cols)
    (rowFits : target < 2 ^ 32) (colFits : place.col target < 2 ^ 32)
    (rowIn : row < matrix.rows) (colIn : col < matrix.cols) :
    counterAt (emitRow place met target matrix).1 row col +
        promotedAt ((emitRow place met target matrix).2.map Delta32.promotion) (row, col) =
      counterAt matrix row col + if target = row then addedAt place row col else 0 := by
  have gained : (if (target, place.col target) = (row, col) then place.increment target else 0) =
      if target = row then addedAt place row col else 0 := by
    by_cases same : target = row
    · subst same
      simp only [Prod.mk.injEq, true_and, if_true, addedAt]
    · rw [if_neg same, if_neg fun equal => same (Prod.mk.inj equal).1]
  rw [← gained]
  cases isMet : met (counterAt matrix target (place.col target) + place.increment target) with
  | false =>
    rw [emitRow_of_unmet targetInside colInside isMet]
    show counterAt _ row col + 0 = _
    rw [counterAt_updateOneCounter matrix _ target rowIn colIn colInside, add_zero]
    by_cases same : (target, place.col target) = (row, col)
    · rw [if_pos same, if_pos same]
    · rw [if_neg same, if_neg same, add_zero]
  | true =>
    obtain ⟨sent, kept⟩ := emitRow_of_met targetInside colInside isMet
    rw [sent, kept row col rowIn colIn, asU32_of_lt rowFits, asU32_of_lt colFits]
    show _ + ((if (target, place.col target) = (row, col) then _ else 0) + 0) = _
    by_cases same : (target, place.col target) = (row, col)
    · obtain ⟨rfl, rfl⟩ := Prod.mk.inj same
      rw [if_pos rfl, if_pos rfl, if_pos rfl, zero_add, add_zero]
    · rw [if_neg same, if_neg same, if_neg same, add_zero]

theorem emitRows_balanced (place : Placement) (met : Counter32 → Bool)
    (matrix : Vector2D Counter32) (colsInside : ∀ row, place.col row < matrix.cols)
    (fits : ∀ row < matrix.rows, row < 2 ^ 32 ∧ place.col row < 2 ^ 32) {row col : ℕ}
    (rowIn : row < matrix.rows) (colIn : col < matrix.cols) :
    counterAt (emitRows place met matrix).1 row col +
        promotedAt ((emitRows place met matrix).2.map Delta32.promotion) (row, col) =
      counterAt matrix row col + addedAt place row col := by
  have below : ∀ rows ≤ matrix.rows, counterAt (emitBelow place met rows matrix).1 row col +
      promotedAt ((emitBelow place met rows matrix).2.map Delta32.promotion) (row, col) =
      counterAt matrix row col + if row < rows then addedAt place row col else 0 := by
    intro rows inside
    induction rows with
    | zero =>
      rw [if_neg (Nat.not_lt_zero row)]
      rfl
    | succ last hypothesis =>
      have earlier := hypothesis (Nat.le_of_succ_le inside)
      have step := emitRow_balanced place met last row col (emitBelow place met last matrix).1
        (by rw [emitBelow_rows]; exact inside) (by rw [emitBelow_cols]; exact colsInside last)
        (fits last inside).1 (fits last inside).2
        (by rw [emitBelow_rows]; exact rowIn) (by rw [emitBelow_cols]; exact colIn)
      simp only [emitBelow, List.map_append, promotedAt_append]
      rw [add_comm (promotedAt _ _), ← add_assoc, step, add_right_comm, earlier, add_assoc]
      congr 1
      by_cases here : last = row
      · rw [if_pos here, if_neg (by omega), if_pos (by omega), zero_add]
      · rw [if_neg here, add_zero]
        congr 1
        exact propext (by omega)
  exact (below matrix.rows le_rfl).trans (by rw [if_pos rowIn])

theorem counterAt_applyAll (deltas : List Delta32) (matrix : Vector2D Counter32)
    (inside : ∀ delta ∈ deltas, delta.col < matrix.cols) {row col : ℕ} (rowIn : row < matrix.rows)
    (colIn : col < matrix.cols) :
    counterAt (deltas.foldl applyDelta matrix) row col =
      counterAt matrix row col + promotedAt (deltas.map Delta32.promotion) (row, col) := by
  induction deltas generalizing matrix with
  | nil => exact (add_zero _).symm
  | cons delta rest hypothesis =>
    obtain ⟨here, later⟩ := List.forall_mem_cons.mp inside
    refine (hypothesis (applyDelta matrix delta) later rowIn colIn).trans ?_
    rw [applyDelta, counterAt_updateOneCounter _ _ delta.row rowIn colIn here, List.map_cons,
      promotedAt, ← add_assoc]
    congr 1
    show _ = _ + if (delta.row, delta.col) = (row, col) then delta.value else 0
    by_cases same : (delta.row, delta.col) = (row, col)
    · rw [if_pos same, if_pos same]
    · rw [if_neg same, if_neg same, add_zero]

/-! ### One key in a fresh matrix -/

variable {place : Placement} {met : Counter32 → Bool} (matrix : Vector2D Counter32)
  (colsInside : ∀ row, place.col row < matrix.cols)

include colsInside

/-- In a matrix of zeros an increment that does not meet the test stays. -/
theorem emitBelow_unmet (unmet : ∀ row, met (place.increment row) = false)
    (zeros : ∀ row col, row < matrix.rows → col < matrix.cols → counterAt matrix row col = 0)
    (rows : ℕ) (inside : rows ≤ matrix.rows) :
    (emitBelow place met rows matrix).2 = [] ∧
      ∀ row col, row < matrix.rows → col < matrix.cols →
        counterAt (emitBelow place met rows matrix).1 row col =
          if row < rows then addedAt place row col else 0 := by
  induction rows with
  | zero =>
    refine ⟨rfl, fun row col rowIn colIn => ?_⟩
    rw [if_neg (Nat.not_lt_zero row)]
    exact zeros row col rowIn colIn
  | succ last hypothesis =>
    obtain ⟨nothing, counters⟩ := hypothesis (Nat.le_of_succ_le inside)
    have sameRows := emitBelow_rows place met last matrix
    have sameCols := emitBelow_cols place met last matrix
    simp only [emitBelow]
    generalize emitBelow place met last matrix = below at *
    have fresh : counterAt below.1 last (place.col last) = 0 := by
      rw [counters last _ inside (colsInside last), if_neg (lt_irrefl last)]
    have body := @emitRow_of_unmet place met last below.1 (sameRows.symm ▸ inside)
      (sameCols.symm ▸ colsInside last) (by rw [fresh, zero_add]; exact unmet last)
    rw [body, nothing]
    refine ⟨rfl, fun row col rowIn colIn => ?_⟩
    have read := counterAt_updateOneCounter below.1 (fun counter => counter + place.increment last)
      last (sameRows.symm ▸ rowIn) (sameCols.symm ▸ colIn) (sameCols.symm ▸ colsInside last)
    refine read.trans ?_
    rw [counters row col rowIn colIn]
    by_cases here : last = row
    · subst here
      rw [if_neg (lt_irrefl last), if_pos (Nat.lt_succ_self last), zero_add]
      simp only [Prod.mk.injEq, true_and, addedAt]
    · rw [if_neg fun same => here (Prod.mk.inj same).1]
      congr 1
      exact propext (by omega)

theorem emitBelow_met (isMet : ∀ row, met (place.increment row) = true)
    (zeros : ∀ row col, row < matrix.rows → col < matrix.cols → counterAt matrix row col = 0)
    (rows : ℕ) (inside : rows ≤ matrix.rows) :
    ∀ row col, row < matrix.rows → col < matrix.cols →
      counterAt (emitBelow place met rows matrix).1 row col = 0 := by
  induction rows with
  | zero => exact zeros
  | succ last hypothesis =>
    have counters := hypothesis (Nat.le_of_succ_le inside)
    have sameRows := emitBelow_rows place met last matrix
    have sameCols := emitBelow_cols place met last matrix
    intro row col rowIn colIn
    simp only [emitBelow]
    generalize emitBelow place met last matrix = below at *
    have fresh : counterAt below.1 last (place.col last) = 0 :=
      counters last _ inside (colsInside last)
    obtain ⟨-, cleared⟩ := @emitRow_of_met place met last below.1 (sameRows.symm ▸ inside)
      (sameCols.symm ▸ colsInside last) (by rw [fresh, zero_add]; exact isMet last)
    rw [cleared row col (sameRows.symm ▸ rowIn) (sameCols.symm ▸ colIn),
      counters row col rowIn colIn, ite_self]

end Matrix32

/-! ### Streams -/

namespace Matrix32

def insertAll (insert : Vector2D Counter32 → DataInput → Vector2D Counter32)
    (stream : List DataInput) (matrix : Vector2D Counter32) : Vector2D Counter32 :=
  stream.foldl insert matrix

/-- A stream against an emitting insert, with a threshold for each key. -/
def emitAll (emit : Vector2D Counter32 → DataInput → ℕ → Vector2D Counter32 × List Delta32) :
    List (DataInput × ℕ) → Vector2D Counter32 → Vector2D Counter32 × List Delta32
  | [], matrix => (matrix, [])
  | (value, threshold) :: rest, matrix =>
    let emitted := emit matrix value threshold
    let later := emitAll emit rest emitted.1
    (later.1, emitted.2 ++ later.2)

/-- What a worker keeps and what a parent makes of its deltas add up, cell by cell, to the sketch
of the stream, for every stream and all thresholds. -/
def Reproduces (insert : Vector2D Counter32 → DataInput → Vector2D Counter32)
    (emit : Vector2D Counter32 → DataInput → ℕ → Vector2D Counter32 × List Delta32)
    (rows cols : ℕ) : Prop :=
  ∀ stream : List (DataInput × ℕ), ∀ row < rows, ∀ col < cols,
    counterAt (emitAll emit stream (Vector2D.filled rows cols 0)).1 row col +
        counterAt ((emitAll emit stream (Vector2D.filled rows cols 0)).2.foldl applyDelta
          (Vector2D.filled rows cols 0)) row col =
      counterAt (insertAll insert (stream.map Prod.fst) (Vector2D.filled rows cols 0)) row col

/-- A pair of a plain and an emitting insert: where they put a key in a matrix of some dimensions,
and the test of the emitting one, which a lone increment meets at the threshold 1 only. -/
structure Pair where
  insertPlace : ℕ → ℕ → DataInput → Placement
  emitPlace : ℕ → ℕ → DataInput → Placement
  met : ℕ → Counter32 → Bool
  insertInside : ∀ rows cols value row, 0 < cols → (insertPlace rows cols value).col row < cols
  emitInside : ∀ rows cols value row, 0 < cols → (emitPlace rows cols value).col row < cols
  insertNonzero : ∀ rows cols value row, (insertPlace rows cols value).increment row ≠ 0
  metAtOne : ∀ rows cols value row, met 1 ((emitPlace rows cols value).increment row) = true
  unmetAtMax : ∀ rows cols value row, met 127 ((emitPlace rows cols value).increment row) = false

namespace Pair

variable (pair : Pair)

def insert (matrix : Vector2D Counter32) (value : DataInput) : Vector2D Counter32 :=
  insertRows (pair.insertPlace matrix.rows matrix.cols value) matrix

def emit (matrix : Vector2D Counter32) (value : DataInput) (threshold : ℕ) :
    Vector2D Counter32 × List Delta32 :=
  emitRows (pair.emitPlace matrix.rows matrix.cols value) (pair.met threshold) matrix

/-- Both inserts write the same cells by the same amounts, and every address fits a `u32`. -/
def Agrees (rows cols : ℕ) : Prop :=
  ∀ value, ∀ row < rows,
    (pair.emitPlace rows cols value).col row = (pair.insertPlace rows cols value).col row ∧
      (pair.emitPlace rows cols value).increment row =
        (pair.insertPlace rows cols value).increment row ∧
      row < 2 ^ 32 ∧ (pair.insertPlace rows cols value).col row < 2 ^ 32

open Promotion

variable {pair} {rows cols : ℕ}

def streamAt (pair : Pair) (rows cols row col : ℕ) (stream : List DataInput) : Counter32 :=
  (stream.map fun value => addedAt (pair.insertPlace rows cols value) row col).sum

theorem counterAt_insertAll (positive : 0 < cols) (stream : List DataInput)
    (matrix : Vector2D Counter32) (sameRows : matrix.rows = rows) (sameCols : matrix.cols = cols)
    {row col : ℕ} (rowIn : row < rows) (colIn : col < cols) :
    counterAt (insertAll pair.insert stream matrix) row col =
      counterAt matrix row col + pair.streamAt rows cols row col stream := by
  induction stream generalizing matrix with
  | nil => exact (add_zero _).symm
  | cons value rest hypothesis =>
    subst sameRows sameCols
    have later := hypothesis (pair.insert matrix value) rfl rfl
    refine later.trans ?_
    have step := counterAt_insertRows (pair.insertPlace matrix.rows matrix.cols value) matrix
      (fun row => pair.insertInside _ _ value row positive) rowIn colIn
    rw [insert, step, add_assoc]
    rfl

theorem Agrees.emitAll_balanced (agrees : pair.Agrees rows cols) (positive : 0 < cols)
    (stream : List (DataInput × ℕ)) (matrix : Vector2D Counter32) (sameRows : matrix.rows = rows)
    (sameCols : matrix.cols = cols) {row col : ℕ} (rowIn : row < rows) (colIn : col < cols) :
    counterAt (emitAll pair.emit stream matrix).1 row col +
        promotedAt ((emitAll pair.emit stream matrix).2.map Delta32.promotion) (row, col) =
      counterAt matrix row col + pair.streamAt rows cols row col (stream.map Prod.fst) := by
  induction stream generalizing matrix with
  | nil => rfl
  | cons entry rest hypothesis =>
    obtain ⟨value, threshold⟩ := entry
    subst sameRows sameCols
    have later := hypothesis (pair.emit matrix value threshold).1
      (emitBelow_rows _ _ _ _) (emitBelow_cols _ _ _ _)
    have step := emitRows_balanced (pair.emitPlace matrix.rows matrix.cols value)
      (pair.met threshold) matrix (fun row => pair.emitInside _ _ value row positive)
      (fun row inside => ⟨(agrees value row inside).2.2.1, by
        rw [(agrees value row inside).1]
        exact (agrees value row inside).2.2.2⟩) rowIn colIn
    have same : addedAt (pair.emitPlace matrix.rows matrix.cols value) row col =
        addedAt (pair.insertPlace matrix.rows matrix.cols value) row col := by
      unfold addedAt
      rw [(agrees value row rowIn).1, (agrees value row rowIn).2.1]
    have emitted : counterAt (pair.emit matrix value threshold).1 row col +
        promotedAt ((pair.emit matrix value threshold).2.map Delta32.promotion) (row, col) =
        counterAt matrix row col +
          addedAt (pair.insertPlace matrix.rows matrix.cols value) row col :=
      same ▸ step
    simp only [emitAll, List.map_append, promotedAt_append]
    rw [add_comm (promotedAt _ _), ← add_assoc, later, add_right_comm, emitted, add_assoc]
    rfl

theorem col_lt_of_mem_emitAll (positive : 0 < cols) (stream : List (DataInput × ℕ))
    (matrix : Vector2D Counter32) (sameCols : matrix.cols = cols) :
    ∀ delta ∈ (emitAll pair.emit stream matrix).2, delta.col < cols := by
  induction stream generalizing matrix with
  | nil => exact fun _ member => absurd member List.not_mem_nil
  | cons entry rest hypothesis =>
    obtain ⟨value, threshold⟩ := entry
    subst sameCols
    intro delta member
    rcases List.mem_append.mp member with now | later
    · obtain ⟨row, -, -, sent⟩ := col_of_mem_emitBelow now
      rw [sent]
      exact (Nat.mod_le _ _).trans_lt (pair.emitInside _ _ value row positive)
    · exact hypothesis _ (emitBelow_cols _ _ _ _) delta later

theorem Agrees.reproduces (agrees : pair.Agrees rows cols) (positive : 0 < cols) :
    Reproduces pair.insert pair.emit rows cols := by
  intro stream row rowIn col colIn
  have kept := agrees.emitAll_balanced positive stream (Vector2D.filled rows cols 0) rfl rfl rowIn
    colIn
  have plain : counterAt (insertAll pair.insert (stream.map Prod.fst) (Vector2D.filled rows cols 0))
      row col = counterAt (Vector2D.filled rows cols 0) row col +
        pair.streamAt rows cols row col (stream.map Prod.fst) :=
    counterAt_insertAll positive _ _ rfl rfl rowIn colIn
  rw [counterAt_applyAll _ _ (col_lt_of_mem_emitAll positive stream _ rfl) rowIn colIn, plain,
    ← kept, counterAt_filled, zero_add]

/-- One key at the largest threshold shows the cells of the worker, and at the smallest one the
addresses of its deltas. -/
theorem agrees_of_reproduces (reproduces : Reproduces pair.insert pair.emit rows cols)
    (positive : 0 < cols) : pair.Agrees rows cols := by
  intro value row rowIn
  have colIn := pair.insertInside rows cols value row positive
  have nonzero := pair.insertNonzero rows cols value row
  have zeros : ∀ row col, row < (Vector2D.filled rows cols (0 : Counter32)).rows →
      col < (Vector2D.filled rows cols (0 : Counter32)).cols →
      counterAt (Vector2D.filled rows cols 0) row col = 0 :=
    fun row col _ _ => counterAt_filled rows cols row col
  have inside : ∀ row, (pair.emitPlace rows cols value).col row < cols :=
    fun row => pair.emitInside rows cols value row positive
  have plain : counterAt (insertAll pair.insert [value] (Vector2D.filled rows cols 0)) row
      ((pair.insertPlace rows cols value).col row) =
      (pair.insertPlace rows cols value).increment row := by
    refine (counterAt_insertRows (pair.insertPlace rows cols value) (Vector2D.filled rows cols 0)
      (fun row => pair.insertInside rows cols value row positive) rowIn colIn).trans ?_
    rw [counterAt_filled, zero_add, addedAt, if_pos rfl]
  have single : ∀ threshold, counterAt (emitBelow (pair.emitPlace rows cols value)
        (pair.met threshold) rows (Vector2D.filled rows cols 0)).1 row
          ((pair.insertPlace rows cols value).col row) +
      counterAt (((emitBelow (pair.emitPlace rows cols value) (pair.met threshold) rows
        (Vector2D.filled rows cols 0)).2 ++ []).foldl applyDelta (Vector2D.filled rows cols 0)) row
          ((pair.insertPlace rows cols value).col row) =
      (pair.insertPlace rows cols value).increment row :=
    fun threshold => (reproduces [(value, threshold)] row rowIn _ colIn).trans plain
  have held : addedAt (pair.emitPlace rows cols value) row
      ((pair.insertPlace rows cols value).col row) =
      (pair.insertPlace rows cols value).increment row := by
    obtain ⟨nothing, kept⟩ := emitBelow_unmet (Vector2D.filled rows cols 0) inside
      (fun row => pair.unmetAtMax rows cols value row) zeros rows le_rfl
    have both := single 127
    rw [nothing, kept row _ rowIn colIn, if_pos rowIn] at both
    refine Eq.trans ?_ both
    show _ = _ + counterAt (Vector2D.filled rows cols 0) _ _
    rw [counterAt_filled, add_zero]
  have carried : promotedAt ((emitBelow (pair.emitPlace rows cols value) (pair.met 1) rows
      (Vector2D.filled rows cols 0)).2.map Delta32.promotion)
        (row, (pair.insertPlace rows cols value).col row) ≠ 0 := by
    have both := single 1
    rw [emitBelow_met (Vector2D.filled rows cols 0) inside
      (fun row => pair.metAtOne rows cols value row) zeros rows le_rfl row _ rowIn colIn, zero_add,
      List.append_nil, counterAt_applyAll _ _ (fun delta member => ?_) rowIn colIn,
      counterAt_filled, zero_add] at both
    · rw [both]
      exact nonzero
    · obtain ⟨origin, -, -, address⟩ := col_of_mem_emitBelow member
      exact address ▸ (Nat.mod_le _ _).trans_lt (inside origin)
  have sameCol : (pair.emitPlace rows cols value).col row =
      (pair.insertPlace rows cols value).col row := by
    by_contra apart
    rw [addedAt, if_neg apart] at held
    exact nonzero held.symm
  rw [addedAt, if_pos sameCol] at held
  obtain ⟨promotion, member, cell⟩ := exists_of_promotedAt carried
  obtain ⟨delta, sent, rfl⟩ := List.mem_map.mp member
  obtain ⟨origin, -, rowAddress, colAddress⟩ := col_of_mem_emitBelow sent
  obtain ⟨sameRow, sameTarget⟩ := Prod.mk.inj cell
  refine ⟨sameCol, held, ?_, ?_⟩
  · rw [← sameRow, rowAddress]
    exact asU32_lt origin
  · rw [← sameTarget, colAddress]
    exact asU32_lt _

/-- A worker and its deltas reproduce the sketch of every stream exactly where its emitting insert
writes what the plain one does. -/
theorem reproduces_iff (positive : 0 < cols) :
    Reproduces pair.insert pair.emit rows cols ↔ pair.Agrees rows cols :=
  ⟨fun reproduces => agrees_of_reproduces reproduces positive,
    fun agrees => agrees.reproduces positive⟩

end Pair

end Matrix32

end AsapSketchlib
