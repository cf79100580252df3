/-
This file proves that the Octo pipeline over Count-Min and Count loses, doubles and misplaces
nothing: for every cell, the parent, the deltas under way and the residues of the workers add up
to what one sequential sketch holds, as long as a row number fits the 32 bits of a delta.

The pipeline of the source refines counting through promotion, where that sum is the total.
-/

import AsapSketchlib.OctoWorkers

namespace AsapSketchlib

open Promotion WorkerSketch

/-! ### The two pipelines -/

/-- A matrix sketch with its worker counters. What one insert adds to a cell is what the worker
counter of the cell counts. -/
structure OctoSketch (xxh : XxHash3) (Parent : Type) where
  counter : ByteCounter
  withDimensions : ℕ → ℕ → Parent
  counts : Parent → Vector2D ℤ
  applyDelta : Parent → ℕ → ℕ → ℤ → Parent
  insert : Parent → DataInput → Parent
  counts_withDimensions : ∀ rows cols,
    counts (withDimensions rows cols) = Vector2D.filled rows cols 0
  counts_applyDelta : ∀ parent row col value, counts (applyDelta parent row col value) =
    (counts parent).updateOneCounter row col fun counter => counter + value
  rows_insert : ∀ parent input, (counts (insert parent input)).rows = (counts parent).rows
  cols_insert : ∀ parent input, (counts (insert parent input)).cols = (counts parent).cols
  counts_insert : ∀ parent input row col, row < (counts parent).rows → col < (counts parent).cols →
    (counts (insert parent input)).queryOneCounter row col =
      (counts parent).queryOneCounter row col +
        if lower32Col (hash64Seeded xxh row input) (counts parent).cols = col then
          counter.increment (hash64Seeded xxh row input)
        else 0

/-- Count-Min workers under `CmOctoAggregator`. -/
def cmOcto (xxh : XxHash3) : OctoSketch xxh CountMin where
  counter := unsignedByte
  withDimensions := CountMin.withDimensions
  counts := CountMin.counts
  applyDelta := CountMin.applyDelta
  insert := CountMin.insert (defaultXxHasher xxh)
  counts_withDimensions := fun _ _ => rfl
  counts_applyDelta := fun _ _ _ _ => rfl
  rows_insert := fun _ _ => rfl
  cols_insert := fun _ _ => rfl
  counts_insert := fun parent input _ _ rowInside colInside =>
    CountMin.queryOneCounter_insertMany parent input 1 rowInside colInside

/-- Count workers under `CountOctoAggregator`. -/
def countOcto (xxh : XxHash3) : OctoSketch xxh Count where
  counter := signedByte
  withDimensions := Count.withDimensions
  counts := Count.counts
  applyDelta := Count.applyDelta
  insert := Count.insert (defaultXxHasher xxh)
  counts_withDimensions := fun _ _ => rfl
  counts_applyDelta := fun _ _ _ _ => rfl
  rows_insert := fun _ _ => rfl
  cols_insert := fun _ _ => rfl
  counts_insert := by
    intro parent input row col rowInside colInside
    refine (Count.queryOneCounter_insertMany parent input 1 rowInside colInside).trans ?_
    rw [mul_one]
    rfl

namespace OctoSketch

variable {xxh : XxHash3} {Parent : Type} (octo : OctoSketch xxh Parent)

/-- The plan, the workers and the aggregator for a number of rows. -/
def traits (rows : ℕ) :
    OctoTraits DataInput (List (BitVec 64)) WorkerSketch CellDelta Parent where
  prepare := WorkerSketch.hashes xxh rows
  process := fun threshold sketch rowHashes =>
    WorkerSketch.insertHashesEmitDelta octo.counter sketch rowHashes threshold
  flush := WorkerSketch.flush
  apply := fun _ parent delta => octo.applyDelta parent delta.row delta.col delta.value

abbrev State (_ : OctoSketch xxh Parent) (workers : ℕ) : Type :=
  OctoState WorkerSketch CellDelta Parent (max workers 1)

/-- The pipeline before the first message; the parent has the geometry of the workers. -/
def start (rows cols workers tau : ℕ) : octo.State workers :=
  OctoState.start (clampPromask tau) (fun _ => WorkerSketch.new rows cols)
    (octo.withDimensions (max rows 1) (max cols 1))

/-- The sequential sketch of the same geometry after a list of inputs. -/
def sequential (rows cols : ℕ) (inputs : List DataInput) : Parent :=
  inputs.foldl octo.insert (octo.withDimensions (max rows 1) (max cols 1))

def queuedAt (queue : List CellDelta) (cell : ℕ × ℕ) : ℤ :=
  promotedAt (queue.map CellDelta.promotion) cell

/-- What is promised of a state after the given inputs. -/
structure Conserved (rows cols workers : ℕ) (inputs : List DataInput)
    (state : octo.State workers) : Prop where
  balanced : ∀ row col, row < max rows 1 → col < max cols 1 →
    (octo.counts state.parent).queryOneCounter row col +
        ∑ worker, (queuedAt (state.queue worker) (row, col) +
          (state.worker worker).counters.queryOneCounter row col) =
      (octo.counts (octo.sequential rows cols inputs)).queryOneCounter row col
  bounded : ∀ worker row col, row < max rows 1 → col < max cols 1 →
    let cell := (state.worker worker).counters.queryOneCounter row col
    cell.natAbs ≤ maxPromask - 1 ∧ ∀ hashed, octo.counter.stored (cell + octo.counter.increment hashed) =
      cell + octo.counter.increment hashed
  drained : (∀ worker, state.ended worker = true) → (∀ worker, state.queue worker = []) →
    octo.counts state.parent = octo.counts (octo.sequential rows cols inputs)

/-- Every run keeps the promise. -/
def Conserves (rows cols workers tau : ℕ) : Prop :=
  ∀ events reached,
    OctoState.run (octo.traits rows) events (octo.start rows cols workers tau) = some reached →
    octo.Conserved rows cols workers (OctoEvent.inputs events) reached

/-! ### The pipeline as promotion -/

variable {octo} {rows cols workers : ℕ}

def gainOf (octo : OctoSketch xxh Parent) (rows cols : ℕ) (input : DataInput) (cell : ℕ × ℕ) : ℤ :=
  if cell.1 < max rows 1 ∧ lower32Col (hash64Seeded xxh cell.1 input) (max cols 1) = cell.2 then
    octo.counter.increment (hash64Seeded xxh cell.1 input)
  else 0

def ledger (octo : OctoSketch xxh Parent) (state : octo.State workers) :
    Ledger (Fin (max workers 1)) (ℕ × ℕ) ℤ where
  parent := (octo.counts state.parent).cellAt
  queue := fun worker => (state.queue worker).map CellDelta.promotion
  residual := fun worker => (state.worker worker).counters.cellAt

/-- What every state reached satisfies while a row number fits a delta. -/
structure WellFormed (octo : OctoSketch xxh Parent) (rows cols : ℕ)
    (state : octo.State workers) : Prop where
  parentRows : (octo.counts state.parent).rows = max rows 1
  parentCols : (octo.counts state.parent).cols = max cols 1
  workerRows : ∀ worker, (state.worker worker).counters.rows = max rows 1
  workerCols : ∀ worker, (state.worker worker).counters.cols = max cols 1
  settled : ∀ worker, (state.worker worker).Settled octo.counter
  addressed : ∀ worker, ∀ delta ∈ state.queue worker,
    delta.row < max rows 1 ∧ delta.col < max cols 1
  ended : ∀ worker, state.ended worker = true →
    ∀ cell, (state.worker worker).counters.cellAt cell = 0

theorem ledger_handle (state : octo.State workers) (worker : Fin (max workers 1))
    (result : WorkerSketch × List CellDelta) :
    octo.ledger (state.handle worker result) = (octo.ledger state).promote worker
      result.1.counters.cellAt (result.2.map CellDelta.promotion) := by
  have queues : ∀ other, (Function.update state.queue worker (state.queue worker ++ result.2)
      other).map CellDelta.promotion = Function.update (octo.ledger state).queue worker
        ((octo.ledger state).queue worker ++ result.2.map CellDelta.promotion) other := by
    intro other
    by_cases same : other = worker
    · subst same
      rw [Function.update_self, Function.update_self, List.map_append]
      rfl
    · rw [Function.update_of_ne same, Function.update_of_ne same]
      rfl
  have residuals : ∀ other, (Function.update state.worker worker result.1 other).counters.cellAt =
      Function.update (octo.ledger state).residual worker result.1.counters.cellAt other := by
    intro other
    by_cases same : other = worker
    · subst same
      rw [Function.update_self, Function.update_self]
    · rw [Function.update_of_ne same, Function.update_of_ne same]
      rfl
  exact congrArg₂ (Ledger.mk _) (funext queues) (funext residuals)

section

variable {state : octo.State workers} (wellFormed : octo.WellFormed rows cols state)
  {worker : Fin (max workers 1)}

include wellFormed

theorem ledger_receive {delta : CellDelta} {rest : List CellDelta}
    (head : state.queue worker = delta :: rest) :
    octo.ledger (state.receive (octo.traits rows) worker delta rest) =
      (octo.ledger state).apply worker (delta.row, delta.col) delta.value
        (rest.map CellDelta.promotion) := by
  have inside := wellFormed.addressed worker delta (head ▸ List.mem_cons_self)
  have parents : ∀ cell, (octo.counts
      (octo.applyDelta state.parent delta.row delta.col delta.value)).cellAt cell =
        (octo.counts state.parent).cellAt cell +
          if (delta.row, delta.col) = cell then delta.value else 0 := by
    intro cell
    rw [octo.counts_applyDelta, Vector2D.cellAt_updateOneCounter _ _ (delta.row, delta.col)
      (wellFormed.parentRows ▸ inside.1) (wellFormed.parentCols ▸ inside.2)]
    by_cases same : (delta.row, delta.col) = cell
    · rw [if_pos same, if_pos same]
    · rw [if_neg same, if_neg same, add_zero]
  have queues : ∀ other, (Function.update state.queue worker rest other).map CellDelta.promotion =
      Function.update (octo.ledger state).queue worker (rest.map CellDelta.promotion) other := by
    intro other
    by_cases same : other = worker
    · subst same
      rw [Function.update_self, Function.update_self]
    · rw [Function.update_of_ne same, Function.update_of_ne same]
      rfl
  exact congrArg₂ (fun parent queue => Ledger.mk parent queue _) (funext parents) (funext queues)

theorem wellFormed_handle (running : state.ended worker = false)
    {result : WorkerSketch × List CellDelta} (sameRows : result.1.counters.rows = max rows 1)
    (sameCols : result.1.counters.cols = max cols 1) (settled : result.1.Settled octo.counter)
    (addressed : ∀ delta ∈ result.2, delta.row < max rows 1 ∧ delta.col < max cols 1) :
    octo.WellFormed rows cols (state.handle worker result) where
  parentRows := wellFormed.parentRows
  parentCols := wellFormed.parentCols
  workerRows := (Function.forall_update_iff state.worker
    fun _ sketch => sketch.counters.rows = max rows 1).mpr
      ⟨sameRows, fun other _ => wellFormed.workerRows other⟩
  workerCols := (Function.forall_update_iff state.worker
    fun _ sketch => sketch.counters.cols = max cols 1).mpr
      ⟨sameCols, fun other _ => wellFormed.workerCols other⟩
  settled := (Function.forall_update_iff state.worker
    fun _ sketch => sketch.Settled octo.counter).mpr
      ⟨settled, fun other _ => wellFormed.settled other⟩
  addressed := by
    refine (Function.forall_update_iff state.queue fun _ queue => ∀ delta ∈ queue,
      delta.row < max rows 1 ∧ delta.col < max cols 1).mpr
        ⟨fun delta member => ?_, fun other _ => wellFormed.addressed other⟩
    rcases List.mem_append.mp member with queued | sent
    · exact wellFormed.addressed worker delta queued
    · exact addressed delta sent
  ended := by
    refine (Function.forall_update_iff state.worker fun other sketch => state.ended other = true →
      ∀ cell, sketch.counters.cellAt cell = 0).mpr
        ⟨fun stopped => ?_, fun other _ => wellFormed.ended other⟩
    exact absurd (running.symm.trans stopped) Bool.false_ne_true

end

theorem wellFormed_start (octo : OctoSketch xxh Parent) (rows cols workers tau : ℕ) :
    octo.WellFormed rows cols (octo.start rows cols workers tau) where
  parentRows := congrArg Vector2D.rows (octo.counts_withDimensions _ _)
  parentCols := congrArg Vector2D.cols (octo.counts_withDimensions _ _)
  workerRows := fun _ => rfl
  workerCols := fun _ => rfl
  settled := by
    intro worker cell
    rw [show ((octo.start rows cols workers tau).worker worker).counters.cellAt cell = 0 from
      Vector2D.cellAt_filled _ _ cell]
    exact ⟨octo.counter.residual_zero, fun _ => rfl⟩
  addressed := fun _ _ member => absurd member List.not_mem_nil
  ended := fun _ stopped => absurd stopped Bool.false_ne_true

/-- The loop over the rows of a key adds the gain of the key. -/
theorem sum_rows (octo : OctoSketch xxh Parent) (input : DataInput) (cols count : ℕ)
    (cell : ℕ × ℕ) :
    ((((List.range count).map fun row => hash64Seeded xxh row input).zipIdx.map fun entry =>
      if (entry.2, lower32Col entry.1 cols) = cell then octo.counter.increment entry.1
      else 0).sum) =
      if cell.1 < count ∧ lower32Col (hash64Seeded xxh cell.1 input) cols = cell.2 then
        octo.counter.increment (hash64Seeded xxh cell.1 input)
      else 0 := by
  induction count with
  | zero => exact (if_neg fun visited => Nat.not_lt_zero _ visited.1).symm
  | succ last hypothesis =>
    rw [List.range_succ, List.map_append, List.zipIdx_append, List.map_append, List.sum_append,
      hypothesis]
    simp only [List.map_cons, List.map_nil, List.length_map, List.length_range, Nat.zero_add,
      List.zipIdx_cons, List.zipIdx_nil, List.sum_cons, List.sum_nil, add_zero]
    obtain ⟨row, col⟩ := cell
    by_cases here : (last, lower32Col (hash64Seeded xxh last input) cols) = (row, col)
    · obtain ⟨rfl, rfl⟩ := Prod.mk.inj here
      rw [if_neg (fun visited => Nat.lt_irrefl _ visited.1), if_pos rfl,
        if_pos ⟨Nat.lt_succ_self last, rfl⟩, zero_add]
    · have sameVisits : (row < last + 1 ∧ lower32Col (hash64Seeded xxh row input) cols = col) ↔
          (row < last ∧ lower32Col (hash64Seeded xxh row input) cols = col) := by
        constructor
        · rintro ⟨inside, sameCol⟩
          rcases Nat.lt_succ_iff_lt_or_eq.mp inside with below | rfl
          · exact ⟨below, sameCol⟩
          · exact absurd (congrArg (Prod.mk row) sameCol) here
        · rintro ⟨inside, sameCol⟩
          exact ⟨Nat.lt_succ_of_lt inside, sameCol⟩
      rw [if_neg here, add_zero]
      simp only [sameVisits]

/-- One step keeps the state well formed, and is a promotion that contributes the gain of the
input processed, an application, or a change of the threshold. -/
theorem wellFormed_step (addressable : rows ≤ 2 ^ 32) {before after : octo.State workers}
    {event : OctoEvent DataInput (max workers 1)} (wellFormed : octo.WellFormed rows cols before)
    (stepped : OctoState.Stepped (octo.traits rows) event before after) :
    octo.WellFormed rows cols after ∧ ∃ contribution,
      (Step (octo.ledger before) contribution (octo.ledger after) ∨
        octo.ledger after = octo.ledger before ∧ contribution = fun _ => 0) ∧
      ∀ cell, contribution cell =
        ((OctoEvent.inputs [event]).map fun input => octo.gainOf rows cols input cell).sum := by
  have maxAddressable : max rows 1 ≤ 2 ^ 32 := max_le addressable (by decide)
  have maxPositive : 0 < max cols 1 := lt_of_lt_of_le Nat.one_pos (le_max_right _ _)
  cases stepped with
  | data worker input result running processed =>
    have rowsHere := wellFormed.workerRows worker
    have colsHere := wellFormed.workerCols worker
    have oneEach : (hashes xxh rows input).length =
        (before.worker worker).counters.rows := by
      rw [hashes, List.length_map, List.length_range, rowsHere]
    obtain ⟨found, foundProcessed, settled, addressed, balanced⟩ :=
      insertHashesEmitDelta_spec (wellFormed.settled worker)
        (rowsHere ▸ maxAddressable) (colsHere ▸ maxPositive) oneEach before.threshold
    obtain rfl : found = result := Option.some.inj (foundProcessed.symm.trans processed)
    rw [rowsHere, colsHere] at addressed
    obtain ⟨foundRows, foundCols⟩ := insertHashesEmitDelta_shape processed
    refine ⟨wellFormed_handle wellFormed running (foundRows.trans rowsHere)
      (foundCols.trans colsHere) settled addressed,
      fun cell => octo.gainOf rows cols input cell, Or.inl ?_, fun cell => (add_zero _).symm⟩
    rw [ledger_handle]
    refine Step.promote worker _ _ fun cell => (balanced cell).trans ?_
    rw [colsHere, hashes, sum_rows]
    rfl
  | flush worker running =>
    obtain ⟨settled, addressed, balanced⟩ := flush_spec (wellFormed.settled worker)
      (wellFormed.workerRows worker ▸ maxAddressable)
    rw [wellFormed.workerRows, wellFormed.workerCols] at addressed
    refine ⟨wellFormed_handle wellFormed running
      ((visitAll_rows _ _).trans (wellFormed.workerRows worker))
      ((visitAll_cols _ _).trans (wellFormed.workerCols worker)) settled addressed,
      fun _ => 0, Or.inl ?_, fun cell => rfl⟩
    rw [ledger_handle]
    exact Step.promote worker _ _ fun cell => (balanced cell).trans (add_zero _).symm
  | finish worker running =>
    obtain ⟨settled, addressed, balanced⟩ := flush_spec (wellFormed.settled worker)
      (wellFormed.workerRows worker ▸ maxAddressable)
    rw [wellFormed.workerRows, wellFormed.workerCols] at addressed
    have handled := wellFormed_handle wellFormed running
      ((visitAll_rows _ _).trans (wellFormed.workerRows worker))
      ((visitAll_cols _ _).trans (wellFormed.workerCols worker)) settled addressed
    refine ⟨{ handled with ended := ?_ }, fun _ => 0, Or.inl ?_, fun cell => rfl⟩
    · intro other stopped
      by_cases same : other = worker
      · subst same
        show ∀ cell, (Function.update before.worker other _ other).counters.cellAt cell = 0
        rw [Function.update_self]
        exact cellAt_flush _
      · have stoppedBefore : Function.update before.ended worker true other = true := stopped
        rw [Function.update_of_ne same] at stoppedBefore
        exact handled.ended other stoppedBefore
    · show Step _ _ (octo.ledger (before.handle worker _))
      rw [ledger_handle]
      exact Step.promote worker _ _ fun cell => (balanced cell).trans (add_zero _).symm
  | setThreshold tau =>
    exact ⟨⟨wellFormed.parentRows, wellFormed.parentCols, wellFormed.workerRows,
      wellFormed.workerCols, wellFormed.settled, wellFormed.addressed, wellFormed.ended⟩,
      fun _ => 0, Or.inr ⟨rfl, rfl⟩, fun cell => rfl⟩
  | apply worker delta rest head =>
    refine ⟨⟨?_, ?_, wellFormed.workerRows, wellFormed.workerCols, wellFormed.settled, ?_,
      wellFormed.ended⟩, fun _ => 0, Or.inl ?_, fun cell => rfl⟩
    · exact (congrArg Vector2D.rows (octo.counts_applyDelta _ _ _ _)).trans wellFormed.parentRows
    · exact (congrArg Vector2D.cols (octo.counts_applyDelta _ _ _ _)).trans wellFormed.parentCols
    · refine (Function.forall_update_iff before.queue fun _ queue => ∀ delta ∈ queue,
        delta.row < max rows 1 ∧ delta.col < max cols 1).mpr
          ⟨fun later member => ?_, fun other _ => wellFormed.addressed other⟩
      exact wellFormed.addressed worker later (head ▸ List.mem_cons_of_mem _ member)
    · rw [ledger_receive wellFormed head]
      refine Step.apply worker _ _ _ ?_
      show (before.queue worker).map CellDelta.promotion = _
      rw [head]
      rfl

/-! ### The sequential sketch -/

section

variable (octo : OctoSketch xxh Parent) (rows cols : ℕ) (inputs : List DataInput)

theorem sequential_append (input : DataInput) :
    octo.sequential rows cols (inputs ++ [input]) =
      octo.insert (octo.sequential rows cols inputs) input := List.foldl_append

theorem rows_sequential : (octo.counts (octo.sequential rows cols inputs)).rows = max rows 1 := by
  induction inputs using List.reverseRecOn with
  | nil => exact congrArg Vector2D.rows (octo.counts_withDimensions _ _)
  | append_singleton inputs input hypothesis =>
    rw [sequential_append, octo.rows_insert, hypothesis]

theorem cols_sequential : (octo.counts (octo.sequential rows cols inputs)).cols = max cols 1 := by
  induction inputs using List.reverseRecOn with
  | nil => exact congrArg Vector2D.cols (octo.counts_withDimensions _ _)
  | append_singleton inputs input hypothesis =>
    rw [sequential_append, octo.cols_insert, hypothesis]

theorem cellAt_sequential (cell : ℕ × ℕ) :
    (octo.counts (octo.sequential rows cols inputs)).cellAt cell =
      (inputs.map fun input => octo.gainOf rows cols input cell).sum := by
  induction inputs using List.reverseRecOn with
  | nil =>
    show (octo.counts (octo.withDimensions _ _)).cellAt cell = 0
    rw [octo.counts_withDimensions, Vector2D.cellAt_filled]
  | append_singleton inputs input hypothesis =>
    rw [List.map_append, List.sum_append, ← hypothesis, sequential_append, Vector2D.cellAt,
      Vector2D.cellAt, octo.rows_insert, octo.cols_insert, rows_sequential, cols_sequential,
      List.map_singleton, List.sum_singleton, gainOf]
    have colInside : lower32Col (hash64Seeded xxh cell.1 input) (max cols 1) < max cols 1 :=
      lower32Col_lt _ _ (lt_of_lt_of_le Nat.one_pos (le_max_right _ _))
    by_cases inside : cell.1 < max rows 1 ∧ cell.2 < max cols 1
    · rw [if_pos inside, if_pos inside, octo.counts_insert _ _ _ _
        ((rows_sequential octo rows cols inputs).symm ▸ inside.1)
        ((cols_sequential octo rows cols inputs).symm ▸ inside.2), cols_sequential]
      simp only [inside.1, true_and]
    · have missed : ¬ (cell.1 < max rows 1 ∧
          lower32Col (hash64Seeded xxh cell.1 input) (max cols 1) = cell.2) :=
        fun visited => inside ⟨visited.1, visited.2 ▸ colInside⟩
      rw [if_neg inside, if_neg inside, if_neg missed, add_zero]

end

/-! ### Conservation -/

theorem promotion_run (addressable : rows ≤ 2 ^ 32) {tau : ℕ}
    {events : List (OctoEvent DataInput (max workers 1))} {reached : octo.State workers}
    (ran : OctoState.run (octo.traits rows) events (octo.start rows cols workers tau) =
      some reached) :
    octo.WellFormed rows cols reached ∧ ∃ contribution,
      Run (octo.ledger (octo.start rows cols workers tau)) contribution (octo.ledger reached) ∧
      ∀ cell, contribution cell =
        (octo.counts (octo.sequential rows cols (OctoEvent.inputs events))).cellAt cell := by
  refine OctoState.run_induction (motive := fun events reached => octo.WellFormed rows cols reached ∧
    ∃ contribution,
      Run (octo.ledger (octo.start rows cols workers tau)) contribution (octo.ledger reached) ∧
      ∀ cell, contribution cell =
        (octo.counts (octo.sequential rows cols (OctoEvent.inputs events))).cellAt cell)
    ?_ (fun events before event after previous stepped => ?_) ran
  · exact ⟨octo.wellFormed_start rows cols workers tau, _, Run.refl _,
      fun cell => (octo.cellAt_sequential rows cols [] cell).symm⟩
  · obtain ⟨wellFormed, sofar, run, sofarEq⟩ := previous
    obtain ⟨kept, contribution, stepOrSame, contributionEq⟩ :=
      wellFormed_step addressable wellFormed stepped
    have gained : ∀ cell, sofar cell + contribution cell =
        (octo.counts (octo.sequential rows cols (OctoEvent.inputs (events ++ [event])))).cellAt
          cell := by
      intro cell
      have joined : OctoEvent.inputs (events ++ [event]) =
          OctoEvent.inputs events ++ OctoEvent.inputs [event] := List.filterMap_append
      rw [sofarEq, contributionEq, cellAt_sequential, cellAt_sequential, ← List.sum_append,
        ← List.map_append, joined]
    rcases stepOrSame with step | ⟨same, nothing⟩
    · exact ⟨kept, _, run.tail step, gained⟩
    · refine ⟨kept, sofar, same ▸ run, fun cell => ?_⟩
      rw [← gained, nothing, add_zero]

theorem total_start (octo : OctoSketch xxh Parent) (rows cols workers tau : ℕ) (cell : ℕ × ℕ) :
    (octo.ledger (octo.start rows cols workers tau)).total cell = 0 := by
  refine (Ledger.total_of_drained (fun _ => rfl)
    (fun _ => Vector2D.cellAt_filled _ _ cell)).trans ?_
  show (octo.counts (octo.withDimensions _ _)).cellAt cell = 0
  rw [octo.counts_withDimensions, Vector2D.cellAt_filled]

/-- While a row number fits a delta, every state reached is conserved. -/
theorem conserves_of_addressable (octo : OctoSketch xxh Parent) {rows : ℕ}
    (addressable : rows ≤ 2 ^ 32) (cols workers tau : ℕ) :
    octo.Conserves rows cols workers tau := by
  intro events reached ran
  obtain ⟨wellFormed, contribution, run, contributionEq⟩ := promotion_run addressable ran
  have total : ∀ cell, (octo.ledger reached).total cell =
      (octo.counts (octo.sequential rows cols (OctoEvent.inputs events))).cellAt cell := by
    intro cell
    rw [run.total, total_start, zero_add, contributionEq]
  have parentAt : ∀ row col, row < max rows 1 → col < max cols 1 →
      (octo.counts reached.parent).cellAt (row, col) =
        (octo.counts reached.parent).queryOneCounter row col := fun row col rowInside colInside =>
    Vector2D.cellAt_of_inside _ (row, col) (wellFormed.parentRows ▸ rowInside)
      (wellFormed.parentCols ▸ colInside)
  have workerAt : ∀ worker row col, row < max rows 1 → col < max cols 1 →
      (reached.worker worker).counters.cellAt (row, col) =
        (reached.worker worker).counters.queryOneCounter row col :=
    fun worker row col rowInside colInside =>
      Vector2D.cellAt_of_inside _ (row, col) (wellFormed.workerRows worker ▸ rowInside)
        (wellFormed.workerCols worker ▸ colInside)
  have sequentialAt : ∀ row col, row < max rows 1 → col < max cols 1 →
      (octo.counts (octo.sequential rows cols (OctoEvent.inputs events))).cellAt (row, col) =
        (octo.counts (octo.sequential rows cols (OctoEvent.inputs events))).queryOneCounter row
          col := fun row col rowInside colInside =>
    Vector2D.cellAt_of_inside _ (row, col) ((octo.rows_sequential rows cols _).symm ▸ rowInside)
      ((octo.cols_sequential rows cols _).symm ▸ colInside)
  refine ⟨fun row col rowInside colInside => ?_, fun worker row col rowInside colInside => ?_,
    fun stopped empty => ?_⟩
  · rw [← sequentialAt row col rowInside colInside, ← total, ← parentAt row col rowInside colInside]
    have shares : ∀ worker ∈ Finset.univ,
        queuedAt (reached.queue worker) (row, col) +
            (reached.worker worker).counters.queryOneCounter row col =
          (octo.ledger reached).share (row, col) worker := by
      intro worker _
      rw [← workerAt worker row col rowInside colInside]
      rfl
    rw [Finset.sum_congr rfl shares]
    rfl
  · have residual := (wellFormed.settled worker (row, col)).1
    rw [workerAt worker row col rowInside colInside] at residual
    exact ⟨octo.counter.residual_bound _ residual,
      fun hashed => octo.counter.stored_of_residual _ hashed residual⟩
  · refine Vector2D.eq_of_queryOneCounter
      (wellFormed.parentRows.trans (octo.rows_sequential rows cols _).symm)
      (wellFormed.parentCols.trans (octo.cols_sequential rows cols _).symm)
      fun row col rowInside colInside => ?_
    rw [wellFormed.parentRows] at rowInside
    rw [wellFormed.parentCols] at colInside
    have nothingQueued : ∀ worker, (octo.ledger reached).queue worker = [] := by
      intro worker
      show (reached.queue worker).map CellDelta.promotion = []
      rw [empty worker, List.map_nil]
    have everything : (octo.ledger reached).total (row, col) =
        (octo.ledger reached).parent (row, col) :=
      Ledger.total_of_drained nothingQueued fun worker =>
        wellFormed.ended worker (stopped worker) (row, col)
    rw [← parentAt row col rowInside colInside, ← sequentialAt row col rowInside colInside, ← total,
      everything]
    rfl

/-! ### Rows that no delta can name -/

theorem queuedAt_of_row_ge {deltas : List CellDelta} {row : ℕ} (col : ℕ)
    (below : ∀ delta ∈ deltas, delta.row < row) : queuedAt deltas (row, col) = 0 := by
  by_contra carried
  obtain ⟨promotion, member, same⟩ := exists_of_promotedAt carried
  obtain ⟨delta, queued, rfl⟩ := List.mem_map.mp member
  have sameRow : delta.row = row := congrArg Prod.fst same
  exact absurd (below delta queued) (Nat.not_lt_of_le sameRow.ge)

variable (octo : OctoSketch xxh Parent)

/-- A worker that inserts one key and then ends has sent what it had, and sent it to rows below
`2 ^ 32`. -/
theorem exists_run_insert_finish (rows cols workers tau : ℕ) (worker : Fin (max workers 1))
    (input : DataInput) :
    ∃ after : octo.State workers,
      OctoState.run (octo.traits rows) [.data worker input, .finish worker]
        (octo.start rows cols workers tau) = some after ∧
      after.parent = octo.withDimensions (max rows 1) (max cols 1) ∧
      (∀ other, ∀ delta ∈ after.queue other, delta.row < 2 ^ 32) ∧
      ∀ other row col, row < max rows 1 → col < max cols 1 →
        (after.worker other).counters.queryOneCounter row col = 0 := by
  let before := octo.start rows cols workers tau
  have oneEach : (hashes xxh rows input).length =
      (before.worker worker).counters.rows := by
    rw [hashes, List.length_map, List.length_range]
    rfl
  let inserted := (before.worker worker).visitAll
    ((hashes xxh rows input).zipIdx.map fun entry =>
      insertVisit octo.counter (before.worker worker).counters.cols
        (clampPromask before.threshold) entry.1 entry.2)
  let between := before.handle worker inserted
  have processed : before.step (octo.traits rows) (.data worker input) = some between :=
    congrArg (Option.map (before.handle worker)) (if_pos oneEach)
  refine ⟨(between.handle worker (between.worker worker).flush).stop worker, ?_, rfl, ?_, ?_⟩
  · rw [OctoState.run, processed]
    rfl
  · refine (Function.forall_update_iff between.queue fun _ queue =>
      ∀ delta ∈ queue, delta.row < 2 ^ 32).mpr ⟨fun delta member => ?_, fun other different => ?_⟩
    · rcases List.mem_append.mp member with queued | flushed
      · rw [show between.queue worker = [] ++ inserted.2 from Function.update_self _ _ _] at queued
        exact row_lt_of_mem_visitAll queued
      · exact row_lt_of_mem_visitAll flushed
    · rw [show between.queue other = [] from Function.update_of_ne different _ _]
      exact fun delta member => absurd member List.not_mem_nil
  · refine (Function.forall_update_iff between.worker fun _ sketch => ∀ row col, row < max rows 1 →
      col < max cols 1 → sketch.counters.queryOneCounter row col = 0).mpr
        ⟨fun row col rowInside colInside => ?_, fun other different row col _ _ => ?_⟩
    · have shape : (between.worker worker).counters.rows = max rows 1 ∧
          (between.worker worker).counters.cols = max cols 1 := by
        rw [show between.worker worker = inserted.1 from Function.update_self _ _ _]
        exact ⟨visitAll_rows _ _, visitAll_cols _ _⟩
      refine (Vector2D.cellAt_of_inside _ (row, col) ?_ ?_).symm.trans
        (cellAt_flush _ _)
      · exact lt_of_lt_of_eq rowInside ((visitAll_rows _ _).trans shape.1).symm
      · exact lt_of_lt_of_eq colInside ((visitAll_cols _ _).trans shape.2).symm
    · rw [show between.worker other = new rows cols from
        Function.update_of_ne different _ _]
      exact Vector2D.queryOneCounter_filled _ _ _ _

/-- From row `2 ^ 32` on, one insert and one flush lose an occurrence: the delta that should
name that row names another one. -/
theorem not_conserves_of_wide {rows : ℕ} (wide : 2 ^ 32 < rows) (cols workers tau : ℕ) :
    ¬ octo.Conserves rows cols workers tau := by
  intro conserves
  obtain ⟨after, ran, parentEq, below, cleared⟩ := octo.exists_run_insert_finish rows cols workers
    tau ⟨0, lt_of_lt_of_le Nat.one_pos (le_max_right _ _)⟩ (.u64 7)
  have rowInside : 2 ^ 32 < max rows 1 := lt_of_lt_of_le wide (le_max_left _ _)
  have colInside : lower32Col (hash64Seeded xxh (2 ^ 32) (.u64 7)) (max cols 1) < max cols 1 :=
    lower32Col_lt _ _ (lt_of_lt_of_le Nat.one_pos (le_max_right _ _))
  have balanced := (conserves _ _ ran).balanced _ _ rowInside colInside
  have nothing : ∀ worker ∈ Finset.univ,
      queuedAt (after.queue worker)
          (2 ^ 32, lower32Col (hash64Seeded xxh (2 ^ 32) (.u64 7)) (max cols 1)) +
        (after.worker worker).counters.queryOneCounter (2 ^ 32)
          (lower32Col (hash64Seeded xxh (2 ^ 32) (.u64 7)) (max cols 1)) = 0 := by
    intro worker _
    rw [queuedAt_of_row_ge _ (below worker), cleared worker _ _ rowInside colInside, add_zero]
  have counted : (octo.counts (octo.sequential rows cols [.u64 7])).cellAt
      (2 ^ 32, lower32Col (hash64Seeded xxh (2 ^ 32) (.u64 7)) (max cols 1)) =
        octo.counter.increment (hash64Seeded xxh (2 ^ 32) (.u64 7)) := by
    rw [cellAt_sequential, List.map_singleton, List.sum_singleton]
    exact if_pos ⟨rowInside, rfl⟩
  rw [Vector2D.cellAt_of_inside _ _ ((octo.rows_sequential rows cols _).symm ▸ rowInside)
    ((octo.cols_sequential rows cols _).symm ▸ colInside)] at counted
  rw [Finset.sum_eq_zero nothing, parentEq, octo.counts_withDimensions,
    Vector2D.queryOneCounter_filled, add_zero] at balanced
  exact octo.counter.increment_ne_zero _ (counted.symm.trans balanced.symm)

theorem conserves_iff (rows cols workers tau : ℕ) :
    octo.Conserves rows cols workers tau ↔ rows ≤ 2 ^ 32 :=
  ⟨fun conserves => not_lt.mp fun wide => octo.not_conserves_of_wide wide cols workers tau conserves,
    fun addressable => octo.conserves_of_addressable addressable cols workers tau⟩

end OctoSketch

/-- In every state that a Count-Min pipeline or a Count pipeline reaches, every cell is conserved,
every residue is small and a drained parent is the sequential sketch, exactly when every row
number fits a delta. -/
theorem octo_conserves_iff (xxh : XxHash3) (rows cols workers tau : ℕ) :
    ((cmOcto xxh).Conserves rows cols workers tau ↔ rows ≤ 2 ^ 32) ∧
      ((countOcto xxh).Conserves rows cols workers tau ↔ rows ≤ 2 ^ 32) :=
  ⟨(cmOcto xxh).conserves_iff rows cols workers tau,
    (countOcto xxh).conserves_iff rows cols workers tau⟩

/-- With `2 ^ 32 + 1` rows, one of the two counts of the last row ends up in row 0. -/
theorem octo_wide_loses :
    ¬ (cmOcto plainXxHash).Conserves (2 ^ 32 + 1) 1 1 31 :=
  (cmOcto plainXxHash).not_conserves_of_wide (Nat.lt_succ_self _) 1 1 31

end AsapSketchlib
