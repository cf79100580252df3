/-
This file proves the accounting of Hydra: a tree of updates and merges builds the grid of its
stream, in which no frequency of a subpopulation is too low. Every row of the grid
overestimates, because the counter it reads took every matching row of the stream, so their
median does.
-/

import AsapSketchlib.HydraCells

namespace AsapSketchlib

variable (hasher : SketchHasher)

/-! ### Trees of updates and merges -/

/-- How a grid came about. -/
inductive HydraTree where
  | fresh
  | update (tree : HydraTree) (entry : HydraEntry)
  | merge (left right : HydraTree)

namespace Hydra

/-- A grid after an update. A rejected one leaves it as it was. -/
def take (hydra : Hydra) (entry : HydraEntry) : Hydra :=
  (update hasher hydra entry.key entry.value entry.count).toOption.getD hydra

def feed (hydra : Hydra) (stream : List HydraEntry) : Hydra := stream.foldl (take hasher) hydra

end Hydra

namespace HydraTree

def build (start : Hydra) : HydraTree → Except HydraStop Hydra
  | fresh => .ok start
  | update tree entry => (tree.build start).map fun hydra => hydra.take hasher entry
  | merge left right => do
    let hydra ← left.build start
    let other ← right.build start
    hydra.merge other

/-- The rows that a tree takes, in order. Those of another width are rejected. -/
def stream (arity : ℕ) : HydraTree → List HydraEntry
  | fresh => []
  | update tree entry => tree.stream arity ++ if entry.key.length = arity then [entry] else []
  | merge left right => left.stream arity ++ right.stream arity

theorem width_of_mem_stream {arity : ℕ} {tree : HydraTree} {entry : HydraEntry}
    (member : entry ∈ tree.stream arity) : entry.key.length = arity := by
  induction tree with
  | fresh => exact absurd member List.not_mem_nil
  | update tree other hypothesis =>
    rcases List.mem_append.mp member with earlier | last
    · exact hypothesis earlier
    · split at last
      · next width => exact (List.mem_singleton.mp last).symm ▸ width
      · exact absurd last List.not_mem_nil
  | merge left right leftHypothesis rightHypothesis =>
    rcases List.mem_append.mp member with inLeft | inRight
    · exact leftHypothesis inLeft
    · exact rightHypothesis inRight

end HydraTree

namespace Hydra

variable {rows cols counterRows counterCols : ℕ} {schema : KeySchema}

/-- The inserts of a stream into a fresh grid. -/
def spread (start : Hydra) (stream : List HydraEntry) : List HydraInsert :=
  stream.flatMap (fanOut hasher start)

section

variable (start : Hydra) (inserts : List HydraInsert) (entry : HydraEntry)

theorem fanOut_insertAll :
    fanOut hasher (insertAll hasher start inserts) entry = fanOut hasher start entry := by
  obtain ⟨sameRow, sameCol, -, sameSchema, -, -⟩ := insertAll_frame hasher start inserts
  unfold fanOut subkeyHash
  rw [sameRow, sameCol, sameSchema]

theorem take_insertAll :
    take hasher (insertAll hasher start inserts) entry = insertAll hasher start
      (inserts ++ spread hasher start
        (if entry.key.length = start.schema.arity then [entry] else [])) := by
  obtain ⟨-, -, -, sameSchema, -, -⟩ := insertAll_frame hasher start inserts
  unfold take
  by_cases width : entry.key.length = start.schema.arity
  · rw [update_eq hasher _ entry (width.trans (congrArg KeySchema.arity sameSchema).symm),
      if_pos width, fanOut_insertAll, ← insertAll_append]
    unfold spread
    rw [List.flatMap_singleton]
    rfl
  · obtain ⟨message, rejected⟩ := update_error hasher (insertAll hasher start inserts) entry
      fun same => width (same.trans (congrArg KeySchema.arity sameSchema))
    rw [rejected, if_neg width]
    unfold spread
    rw [List.flatMap_nil, List.append_nil]
    rfl

end

theorem feed_eq (start : Hydra) {stream : List HydraEntry}
    (widths : ∀ entry ∈ stream, entry.key.length = start.schema.arity) :
    feed hasher start stream = insertAll hasher start (spread hasher start stream) := by
  have run : ∀ inserts, feed hasher (insertAll hasher start inserts) stream =
      insertAll hasher start (inserts ++ spread hasher start stream) := by
    induction stream with
    | nil =>
      intro inserts
      unfold spread
      rw [List.flatMap_nil, List.append_nil]
      rfl
    | cons entry rest hypothesis =>
      intro inserts
      obtain ⟨width, others⟩ := List.forall_mem_cons.mp widths
      show feed hasher (take hasher (insertAll hasher start inserts) entry) rest = _
      rw [take_insertAll, if_pos width, hypothesis others]
      unfold spread
      rw [List.flatMap_singleton, List.flatMap_cons, List.append_assoc]
  exact run []

theorem build_eq (tree : HydraTree) :
    tree.build hasher (fresh rows cols counterRows counterCols schema) =
      .ok (insertAll hasher (fresh rows cols counterRows counterCols schema)
        (spread hasher (fresh rows cols counterRows counterCols schema)
          (tree.stream schema.arity))) := by
  induction tree with
  | fresh => rfl
  | update tree entry hypothesis =>
    unfold HydraTree.build HydraTree.stream
    rw [hypothesis]
    refine congrArg Except.ok ((take_insertAll hasher _ _ entry).trans ?_)
    unfold spread
    rw [List.flatMap_append]
    rfl
  | merge left right leftHypothesis rightHypothesis =>
    unfold HydraTree.build HydraTree.stream
    rw [leftHypothesis, rightHypothesis]
    refine (merge_insertAll hasher _ _).trans ?_
    unfold spread
    rw [List.flatMap_append]

end Hydra

/-! ### Query keys -/

/-- The row has the values that the key constrains. -/
def Agrees (key : List (Option String)) (row : List String) : Prop :=
  ∀ pair ∈ key.zip row, ∀ value ∈ pair.1, pair.2 = value

instance (key : List (Option String)) (row : List String) : Decidable (Agrees key row) :=
  inferInstanceAs (Decidable (∀ pair ∈ key.zip row, ∀ value ∈ pair.1, pair.2 = value))

namespace KeySchema

theorem testBit_foldl_slots (slots : List (Option String)) (first mask col : ℕ) :
    ((slots.zipIdx first).foldl (fun mask slot =>
        if slot.1.isSome then mask ||| 1 <<< slot.2 else mask) mask).testBit col = true ↔
      mask.testBit col = true ∨ ∃ place value, slots[place]? = some (some value) ∧
        col = first + place := by
  induction slots generalizing first mask with
  | nil => simp
  | cons slot rest hypothesis =>
    have later : (∃ place value, (slot :: rest)[place]? = some (some value) ∧
        col = first + place) ↔ ((∃ value, slot = some value) ∧ col = first) ∨
          ∃ place value, rest[place]? = some (some value) ∧ col = first + 1 + place := by
      constructor
      · rintro ⟨place, value, found, rfl⟩
        cases place with
        | zero => exact Or.inl ⟨⟨value, Option.some.inj found⟩, rfl⟩
        | succ place => exact Or.inr ⟨place, value, found, by omega⟩
      · rintro (⟨⟨value, rfl⟩, rfl⟩ | ⟨place, value, found, rfl⟩)
        · exact ⟨0, value, rfl, rfl⟩
        · exact ⟨place + 1, value, found, by omega⟩
    rw [List.zipIdx_cons, List.foldl_cons, hypothesis, later, ← or_assoc]
    refine or_congr ?_ Iff.rfl
    cases slot with
    | none => simp
    | some value =>
      have bit : (1 <<< first).testBit col = true ↔ col = first := by
        rw [Nat.one_shiftLeft, Nat.testBit_two_pow, decide_eq_true_iff]
        exact eq_comm
      show (mask ||| 1 <<< first).testBit col = true ↔ _
      rw [Nat.testBit_or, Bool.or_eq_true, bit]
      exact or_congr Iff.rfl ⟨fun same => ⟨⟨value, rfl⟩, same⟩, fun both => both.2⟩

theorem testBit_queryMask (key : List (Option String)) (col : ℕ) :
    (queryMask key).testBit col = true ↔ ∃ value, key[col]? = some (some value) := by
  unfold queryMask
  rw [testBit_foldl_slots]
  constructor
  · rintro (none | ⟨place, value, found, same⟩)
    · rw [Nat.zero_testBit] at none
      exact absurd none Bool.false_ne_true
    · rw [Nat.zero_add] at same
      exact ⟨value, same ▸ found⟩
  · rintro ⟨value, found⟩
    exact Or.inr ⟨col, value, found, (Nat.zero_add col).symm⟩

theorem queryMask_lt (key : List (Option String)) : queryMask key < 2 ^ key.length := by
  refine Nat.lt_pow_two_of_testBit _ fun col outside => ?_
  rw [Bool.eq_false_iff]
  intro chosen
  obtain ⟨value, found⟩ := (testBit_queryMask key col).mp chosen
  exact absurd (List.getElem?_eq_some_iff.mp found).1 (not_lt.mpr outside)

theorem queryMask_ne_zero {key : List (Option String)} {col : ℕ} {value : String}
    (found : key[col]? = some (some value)) : queryMask key ≠ 0 := by
  intro zero
  have chosen := (testBit_queryMask key col).mpr ⟨value, found⟩
  rw [zero, Nat.zero_testBit] at chosen
  exact Bool.false_ne_true chosen

theorem encodeSubkey_of_agrees {schema : KeySchema} {key : List (Option String)}
    {row : List String} (width : row.length = key.length) (agrees : Agrees key row) :
    schema.encodeSubkey row (queryMask key) =
      schema.encodeSubkey (key.map fun slot => slot.getD "") (queryMask key) := by
  refine encodeSubkey_congr fun col chosen => ?_
  obtain ⟨value, found⟩ := (testBit_queryMask key col).mp chosen
  have inside : col < row.length := by
    rw [width]
    exact (List.getElem?_eq_some_iff.mp found).1
  have rowFound := List.getElem?_eq_getElem inside
  have member : (some value, row[col]) ∈ key.zip row :=
    List.mem_of_getElem? (List.getElem?_zip_eq_some.mpr ⟨found, rowFound⟩)
  rw [List.getD_eq_getElem?_getD, rowFound, List.getD_eq_getElem?_getD, List.getElem?_map, found,
    Option.getD_some]
  exact agrees _ member value rfl

end KeySchema

/-! ### Lower bounds -/

def matching (key : List (Option String)) (value : DataInput) (stream : List HydraEntry) : ℤ :=
  (stream.map fun entry =>
    if entry.value = value ∧ Agrees key entry.key then entry.weight else 0).sum

namespace Hydra

/-- What an insert brings to a counter of a cell: the cell is given by its row and column, and
the counter by those in the sketch of the cell. -/
def brought (counterRows counterCols cols : ℕ) (cell counter : ℕ × ℕ) (entry : HydraInsert) : ℤ :=
  if entry.hashed.colForRow cell.1 cols = cell.2 ∧
      (hashForMatrixSeeded hasher 0 counterRows counterCols entry.value).colForRow counter.1
        counterCols = counter.2 then entry.count.getD 1 else 0

theorem added_routed (counterRows counterCols cols : ℕ) (cell counter : ℕ × ℕ)
    (inserts : List HydraInsert) :
    CountMin.added counterCols counter.1 counter.2
        (routed hasher counterRows counterCols cols cell.1 cell.2 inserts) =
      (inserts.map (brought hasher counterRows counterCols cols cell counter)).sum := by
  induction inserts with
  | nil => rfl
  | cons entry rest hypothesis =>
    rw [List.map_cons, List.sum_cons, ← hypothesis]
    unfold routed CountMin.added brought
    by_cases here : entry.hashed.colForRow cell.1 cols = cell.2
    · rw [List.filter_cons_of_pos (by simpa using here)]
      simp only [here, true_and]
      rfl
    · rw [List.filter_cons_of_neg (by simpa using here), if_neg fun both => here both.1, zero_add]

def queryHash (start : Hydra) (key : List (Option String)) : MatrixHashType :=
  subkeyHash hasher start (key.map fun slot => slot.getD "") (KeySchema.queryMask key)

theorem queryHash_mem_fanOut (start : Hydra) {key : List (Option String)} {entry : HydraEntry}
    (width : entry.key.length = key.length) (constrained : KeySchema.queryMask key ≠ 0)
    (agrees : Agrees key entry.key) :
    ⟨queryHash hasher start key, entry.value, entry.count⟩ ∈ fanOut hasher start entry := by
  refine List.mem_map.mpr ⟨KeySchema.queryMask key, ?_, ?_⟩
  · have below := KeySchema.queryMask_lt key
    rw [masks, List.mem_range'_1, width]
    omega
  · unfold queryHash subkeyHash
    rw [KeySchema.encodeSubkey_of_agrees width agrees]

/-- Every row that matches brings its weight to the counters that a query of the value reads. -/
theorem matching_le_added (start : Hydra) {key : List (Option String)} (value : DataInput)
    {stream : List HydraEntry} (widths : ∀ entry ∈ stream, entry.key.length = key.length)
    (nonneg : ∀ entry ∈ stream, 0 ≤ entry.weight) (constrained : KeySchema.queryMask key ≠ 0)
    (counterRows counterCols cols row counterRow : ℕ) :
    matching key value stream ≤ CountMin.added counterCols counterRow
      ((hashForMatrixSeeded hasher 0 counterRows counterCols value).colForRow counterRow counterCols)
      (routed hasher counterRows counterCols cols row
        ((queryHash hasher start key).colForRow row cols) (spread hasher start stream)) := by
  have sum := added_routed hasher counterRows counterCols cols
    (row, (queryHash hasher start key).colForRow row cols) (counterRow,
      (hashForMatrixSeeded hasher 0 counterRows counterCols value).colForRow counterRow counterCols)
    (spread hasher start stream)
  rw [sum]
  unfold matching spread
  induction stream with
  | nil => exact le_rfl
  | cons entry rest hypothesis =>
    obtain ⟨width, otherWidths⟩ := List.forall_mem_cons.mp widths
    obtain ⟨weight, otherWeights⟩ := List.forall_mem_cons.mp nonneg
    rw [List.map_cons, List.sum_cons, List.flatMap_cons, List.map_append, List.sum_append]
    refine add_le_add ?_ (hypothesis otherWidths otherWeights (added_routed ..))
    have each : ∀ term ∈ (fanOut hasher start entry).map (brought hasher counterRows counterCols
        cols (row, (queryHash hasher start key).colForRow row cols) (counterRow,
          (hashForMatrixSeeded hasher 0 counterRows counterCols value).colForRow counterRow
            counterCols)), 0 ≤ term := by
      intro term member
      obtain ⟨insert, insertMember, rfl⟩ := List.mem_map.mp member
      obtain ⟨mask, -, rfl⟩ := List.mem_map.mp insertMember
      unfold brought
      split
      · exact weight
      · exact le_rfl
    by_cases counted : entry.value = value ∧ Agrees key entry.key
    · rw [if_pos counted]
      refine List.single_le_sum each _ (List.mem_map.mpr
        ⟨_, queryHash_mem_fanOut hasher start width constrained counted.2, ?_⟩)
      rw [counted.1]
      exact if_pos ⟨rfl, rfl⟩
    · rw [if_neg counted]
      exact List.sum_nonneg each

/-- All counters fit `i32`. Counts are not negative, so what the final counters fit, the earlier
ones fitted. -/
def NoOverflow (hydra : Hydra) : Prop :=
  ∀ counter ∈ hydra.sketches.data, ∀ cell ∈ counter.counts.data, -2 ^ 31 ≤ cell ∧ cell < 2 ^ 31

instance (hydra : Hydra) : Decidable (NoOverflow hydra) :=
  inferInstanceAs (Decidable (∀ counter ∈ hydra.sketches.data, ∀ cell ∈ counter.counts.data,
    -2 ^ 31 ≤ cell ∧ cell < 2 ^ 31))

theorem queryOneCounter_lt {matrix : Vector2D ℤ} (small : ∀ cell ∈ matrix.data, cell < 2 ^ 31)
    (row col : ℕ) : matrix.queryOneCounter row col < 2 ^ 31 := by
  unfold Vector2D.queryOneCounter
  cases found : matrix.data[row * matrix.cols + col]? with
  | none => decide
  | some cell => exact small cell (List.mem_of_getElem? found)

theorem queryOneCounter_fed (counterRows counterCols : ℕ) (stream : List (MatrixHashType × ℤ))
    {row col : ℕ} (rowInside : row < counterRows) (colInside : col < counterCols) :
    ((CountMin.withDimensions counterRows counterCols).fastInsertAll
      stream).counts.queryOneCounter row col = CountMin.added counterCols row col stream := by
  have fed := CountMin.queryOneCounter_fastInsertAll
    (CountMin.withDimensions counterRows counterCols) stream rowInside colInside
  rw [fed]
  show Vector2D.queryOneCounter (Vector2D.filled counterRows counterCols 0) row col + _ = _
  rw [Vector2D.queryOneCounter_filled, zero_add]
  rfl

theorem fastEstimate_bounds {counter : CountMin} {value : DataInput} {bound : ℤ}
    (positive : 0 < counter.counts.rows) (small : ∀ cell ∈ counter.counts.data, cell < 2 ^ 31)
    (each : ∀ row < counter.counts.rows, bound ≤ counter.counts.queryOneCounter row
      ((CountMin.hashForMatrix hasher counter value).colForRow row counter.counts.cols)) :
    bound ≤ CountMin.fastEstimate hasher counter value ∧
      CountMin.fastEstimate hasher counter value < 2 ^ 31 := by
  unfold CountMin.fastEstimate CountMin.fastEstimateWithHash
  refine ⟨le_runningMin (each 0 positive) fun row member => each row ?_,
    lt_of_le_of_lt (runningMin_le _ _ _) (queryOneCounter_lt small _ _)⟩
  rw [List.mem_range'_1] at member
  omega

variable {rows cols counterRows counterCols : ℕ} {schema : KeySchema}

theorem matching_nonneg {key : List (Option String)} {value : DataInput}
    {stream : List HydraEntry} (nonneg : ∀ entry ∈ stream, 0 ≤ entry.weight) :
    0 ≤ matching key value stream := by
  refine List.sum_nonneg fun term member => ?_
  obtain ⟨entry, entryMember, rfl⟩ := List.mem_map.mp member
  split
  · exact nonneg entry entryMember
  · exact le_rfl

theorem query_frequency {counter : CountMin} (value : DataInput)
    (cells : 0 < counter.counts.rows * counter.counts.cols) :
    HydraCounter.query hasher counter (.frequency value) =
      .ok (intAsF64 (CountMin.fastEstimate hasher counter value)) := by
  have some : ¬counter.counts.data.isEmpty := by
    rw [List.isEmpty_iff_length_eq_zero, counter.counts.sized]
    exact Nat.ne_of_gt cells
  exact if_neg some

/-- A row of the grid estimates no less than what matches, in a value that `f64` holds. -/
theorem rowEstimate_ge {start : Hydra}
    (startEq : start = fresh rows cols counterRows counterCols schema) {key : List (Option String)}
    (value : DataInput) {stream : List HydraEntry} {row : ℕ}
    (widths : ∀ entry ∈ stream, entry.key.length = key.length)
    (nonneg : ∀ entry ∈ stream, 0 ≤ entry.weight) (constrained : KeySchema.queryMask key ≠ 0)
    (fits : NoOverflow (insertAll hasher start (spread hasher start stream)))
    (colsPositive : 0 < cols) (counterRowsPositive : 0 < counterRows)
    (counterColsPositive : 0 < counterCols) (rowInside : row < rows) :
    ∃ estimate : ℤ, rowEstimate hasher (insertAll hasher start (spread hasher start stream))
        (queryHash hasher start key) (.frequency value) row = .ok (estimate : ℚ) ∧
      matching key value stream ≤ estimate ∧ estimate < 2 ^ 31 := by
  obtain ⟨-, -, -, -, -, sameCols⟩ := insertAll_frame hasher start (spread hasher start stream)
  have startCols : start.sketches.cols = cols := by
    rw [startEq]
    rfl
  have colInside := (queryHash hasher start key).colForRow_lt row colsPositive
  obtain ⟨counter, counterEq⟩ : ∃ counter, counter =
    (CountMin.withDimensions counterRows counterCols).fastInsertAll
      (routed hasher counterRows counterCols cols row
        ((queryHash hasher start key).colForRow row cols) (spread hasher start stream)) := ⟨_, rfl⟩
  have found : (insertAll hasher start (spread hasher start stream)).sketches.data[row * cols +
      (queryHash hasher start key).colForRow row cols]? = some counter := by
    rw [counterEq, startEq]
    exact getElem?_insertAll_fresh hasher _ rowInside (startEq ▸ colInside)
  have counterRowsEq : counter.counts.rows = counterRows := by
    rw [counterEq]
    exact CountMin.fastInsertAll_rows _ _
  have counterColsEq : counter.counts.cols = counterCols := by
    rw [counterEq]
    exact CountMin.fastInsertAll_cols _ _
  have small : ∀ cell ∈ counter.counts.data, cell < 2 ^ 31 := fun cell member =>
    (fits counter (List.mem_of_getElem? found) cell member).2
  have each : ∀ counterRow < counter.counts.rows, matching key value stream ≤
      counter.counts.queryOneCounter counterRow
        ((CountMin.hashForMatrix hasher counter value).colForRow counterRow
          counter.counts.cols) := by
    intro counterRow counterInside
    have hash : CountMin.hashForMatrix hasher counter value =
        hashForMatrixSeeded hasher 0 counterRows counterCols value := by
      unfold CountMin.hashForMatrix
      rw [counterRowsEq, counterColsEq]
    rw [hash, counterColsEq, counterEq, queryOneCounter_fed counterRows counterCols _
      (counterRowsEq ▸ counterInside) (MatrixHashType.colForRow_lt _ _ counterColsPositive)]
    exact matching_le_added hasher start value widths nonneg constrained counterRows counterCols
      cols row counterRow
  obtain ⟨enough, bounded⟩ :=
    fastEstimate_bounds hasher (counterRowsEq.symm ▸ counterRowsPositive) small each
  have exact : intAsF64 (CountMin.fastEstimate hasher counter value) =
      CountMin.fastEstimate hasher counter value := by
    refine intAsF64_of_small ?_
    rw [abs_of_nonneg ((matching_nonneg nonneg).trans enough)]
    exact bounded.trans (by decide)
  refine ⟨CountMin.fastEstimate hasher counter value, ?_, enough, bounded⟩
  unfold rowEstimate
  rw [sameCols, startCols, found]
  dsimp only
  rw [query_frequency hasher value
    (counterRowsEq.symm ▸ counterColsEq.symm ▸ Nat.mul_pos counterRowsPositive counterColsPositive),
    exact]

end Hydra

end AsapSketchlib
