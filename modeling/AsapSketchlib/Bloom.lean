/-
This file models the partitioned Bloom filter on both hash paths: a bit grid in which an insertion
sets the one cell of each row that the key probes. Whatever tree of insertions and merges built it,
a filter holds exactly the cells its keys probe, so it forgets no key and is the filter of the
concatenated streams.
-/

import AsapSketchlib.BitMatrix

namespace AsapSketchlib

open BitMatrix

def bloomMaxSlices : ℕ := seedList.length

/-- A Bloom filter: the bits and the number of insertions. -/
@[ext] structure Bloom where
  bits : BitMatrix
  inserted : ℕ

/-- What the fast path takes of a hasher: its hash type, the dimensions this can encode and the hash
of a key for the dimensions of a matrix. -/
structure FastHasher where
  HashType : Type
  fast : MatrixFastHash HashType
  assertCompatible : ℕ → ℕ → Bool
  hashForMatrixSeeded : ℕ → ℕ → ℕ → DataInput → HashType

/-- The two hash paths of a filter. -/
inductive BloomPath where
  | regular (hasher : SketchHasher)
  | fast (hasher : FastHasher)

namespace Bloom

/-- `with_dimensions`: nothing is returned where an assertion fails. -/
def withDimensions (rows cols : ℕ) : Option Bloom :=
  if rows ≤ bloomMaxSlices then (BitMatrix.new rows cols).map fun bits => ⟨bits, 0⟩ else none

/-- Unions `other` into the filter. -/
def merge (filter other : Bloom) : Option Bloom :=
  (filter.bits.unionFrom other.bits).map fun bits =>
    ⟨bits, saturatingAdd filter.inserted other.inserted⟩

end Bloom

/-! ### The regular path -/

namespace BloomRegular

variable (hasher : SketchHasher)

def insert (filter : Bloom) (value : DataInput) : Option Bloom :=
  ((List.range filter.bits.rows).foldlM (fun (bits : BitMatrix) row =>
    bits.set row (lower32Col (hasher.hash64Seeded row value) filter.bits.cols)) filter.bits).map
      fun bits => ⟨bits, saturatingAdd filter.inserted 1⟩

/-- The loop of `contains`, which stops at the first clear bit. -/
def containsFrom (bits : BitMatrix) (value : DataInput) : List ℕ → Option Bool
  | [] => some true
  | row :: rest =>
    (bits.get row (lower32Col (hasher.hash64Seeded row value) bits.cols)).bind fun cell =>
      if !cell then some false else containsFrom bits value rest

def contains (filter : Bloom) (value : DataInput) : Option Bool :=
  containsFrom hasher filter.bits value (List.range filter.bits.rows)

end BloomRegular

/-! ### The fast path -/

namespace BloomFast

variable (hasher : FastHasher)

/-- `hash_for_matrix`: nothing is returned where the hash type cannot encode the dimensions. -/
def hashForMatrix (bits : BitMatrix) (value : DataInput) : Option hasher.HashType :=
  if hasher.assertCompatible bits.rows bits.cols then
    some (hasher.hashForMatrixSeeded 0 bits.rows bits.cols value)
  else none

def insert (filter : Bloom) (value : DataInput) : Option Bloom :=
  (hashForMatrix hasher filter.bits value).bind fun hashed =>
    (filter.bits.fastInsert hasher.fast (fun _ _ _ => true) () hashed).map fun bits =>
      ⟨bits, saturatingAdd filter.inserted 1⟩

def contains (filter : Bloom) (value : DataInput) : Option Bool :=
  (hashForMatrix hasher filter.bits value).bind fun hashed =>
    filter.bits.fastQueryMin hasher.fast hashed fun cell _ _ => cell

end BloomFast

/-! ### Both paths -/

namespace BloomPath

def insert : BloomPath → Bloom → DataInput → Option Bloom
  | .regular hasher => BloomRegular.insert hasher
  | .fast hasher => BloomFast.insert hasher

def contains : BloomPath → Bloom → DataInput → Option Bool
  | .regular hasher => BloomRegular.contains hasher
  | .fast hasher => BloomFast.contains hasher

variable (path : BloomPath)

def bulkInsert (filter : Bloom) (values : List DataInput) : Option Bloom :=
  values.foldlM path.insert filter

def probe (rows cols : ℕ) (value : DataInput) (row : ℕ) : ℕ :=
  match path with
  | regular hasher => lower32Col (hasher.hash64Seeded row value) cols
  | fast hasher => MatrixHashType.foldToCol
      (hasher.fast.rowHash (hasher.hashForMatrixSeeded 0 rows cols value) row (colsMaskBits cols))
      cols

def Compatible (rows cols : ℕ) : Prop :=
  match path with
  | regular _ => True
  | fast hasher => hasher.assertCompatible rows cols = true

theorem probe_lt (rows : ℕ) {cols : ℕ} (positive : 0 < cols) (value : DataInput) (row : ℕ) :
    path.probe rows cols value row < cols := by
  cases path with
  | regular hasher => exact lower32Col_lt _ cols positive
  | fast hasher =>
    have inside := hasher.fast.colForRow_lt (hasher.hashForMatrixSeeded 0 rows cols value) row
      positive
    rwa [hasher.fast.colForRow_eq] at inside

end BloomPath

/-! ### Marked rows -/

namespace BitMatrix

/-- The grid with one more cell of each row set. -/
def markRows (matrix : BitMatrix) (colOf : ℕ → ℕ) (rows : List ℕ) : BitMatrix :=
  rows.foldl (fun matrix row => matrix.mark row (colOf row)) matrix

variable {colOf : ℕ → ℕ}

theorem foldlM_eq_markRows (step : BitMatrix → ℕ → Option BitMatrix) (colOf : ℕ → ℕ) {rows cols : ℕ}
    (marks : ∀ matrix : BitMatrix, matrix.rows = rows → matrix.cols = cols → ∀ row < rows,
      step matrix row = some (matrix.mark row (colOf row)))
    {visited : List ℕ} (inside : ∀ row ∈ visited, row < rows) {matrix : BitMatrix}
    (rowsEq : matrix.rows = rows) (colsEq : matrix.cols = cols) :
    visited.foldlM step matrix = some (matrix.markRows colOf visited) := by
  induction visited generalizing matrix with
  | nil => rfl
  | cons row rest hypothesis =>
    rw [List.foldlM_cons, marks matrix rowsEq colsEq row (inside row List.mem_cons_self)]
    exact hypothesis (fun other inRest => inside other (List.mem_cons_of_mem row inRest))
      rowsEq colsEq

theorem markRows_shape (matrix : BitMatrix) (colOf : ℕ → ℕ) (visited : List ℕ) :
    (matrix.markRows colOf visited).rows = matrix.rows ∧
      (matrix.markRows colOf visited).cols = matrix.cols := by
  induction visited generalizing matrix with
  | nil => exact ⟨rfl, rfl⟩
  | cons row rest hypothesis => exact hypothesis (matrix.mark row (colOf row))

theorem width_eq {matrix other : BitMatrix} (same : matrix.cols = other.cols) :
    matrix.width = other.width := by
  rw [width, width, matrix.stride, other.stride, same]

theorem cellAt_markRows (matrix : BitMatrix) {visited : List ℕ}
    (inside : ∀ row ∈ visited, row < matrix.rows) (below : ∀ row, colOf row < matrix.width)
    {row col : ℕ} (colInside : col < matrix.width) :
    (matrix.markRows colOf visited).cellAt row col = true ↔
      matrix.cellAt row col = true ∨ (row ∈ visited ∧ col = colOf row) := by
  induction visited generalizing matrix with
  | nil => exact ⟨Or.inl, fun here => here.elim id fun visit => absurd visit.1 List.not_mem_nil⟩
  | cons first rest hypothesis =>
    have later := hypothesis (matrix.mark first (colOf first))
      (fun other inRest => inside other (List.mem_cons_of_mem first inRest)) below colInside
    refine later.trans ?_
    rw [cellAt_mark (inside first List.mem_cons_self) (below first) colInside, Bool.or_eq_true,
      decide_eq_true_iff, List.mem_cons, or_assoc]
    refine or_congr_right ?_
    constructor
    · rintro (⟨rfl, rfl⟩ | ⟨inRest, sameCol⟩)
      · exact ⟨Or.inl rfl, rfl⟩
      · exact ⟨Or.inr inRest, sameCol⟩
    · rintro ⟨rfl | inRest, sameCol⟩
      · exact Or.inl ⟨rfl, sameCol⟩
      · exact Or.inr ⟨inRest, sameCol⟩

end BitMatrix

/-! ### Insertions and queries -/

namespace BloomPath

variable {path : BloomPath}

/-- An insertion sets the cells the key probes. -/
theorem insert_eq {filter : Bloom} (compatible : path.Compatible filter.bits.rows filter.bits.cols)
    (value : DataInput) : path.insert filter value =
      some ⟨filter.bits.markRows (path.probe filter.bits.rows filter.bits.cols value)
        (List.range filter.bits.rows), saturatingAdd filter.inserted 1⟩ := by
  have below := path.probe_lt filter.bits.rows filter.bits.colsPositive value
  have inside : ∀ row ∈ List.range filter.bits.rows, row < filter.bits.rows := fun row member =>
    List.mem_range.mp member
  cases path with
  | regular hasher =>
    have marked := foldlM_eq_markRows
      (fun bits row => bits.set row (lower32Col (hasher.hash64Seeded row value) filter.bits.cols))
      ((regular hasher).probe filter.bits.rows filter.bits.cols value)
      (fun matrix rowsEq colsEq row rowInside => set_eq (rowsEq ▸ rowInside)
        (colsEq ▸ below row)) inside rfl rfl
    rw [insert, BloomRegular.insert, marked]
    rfl
  | fast hasher =>
    have marked := foldlM_eq_markRows
      (fun matrix row =>
        let col := matrix.colForRow hasher.fast
          (hasher.hashForMatrixSeeded 0 filter.bits.rows filter.bits.cols value) row
        (matrix.get row col).bind fun cell => matrix.put row col true)
      ((fast hasher).probe filter.bits.rows filter.bits.cols value)
      (fun matrix rowsEq colsEq row rowInside => by
        have column : matrix.colForRow hasher.fast
            (hasher.hashForMatrixSeeded 0 filter.bits.rows filter.bits.cols value) row =
              (fast hasher).probe filter.bits.rows filter.bits.cols value row := by
          rw [colForRow, matrix.masked, colsEq]
          rfl
        simp only [column]
        rw [get_eq (rowsEq ▸ rowInside) (colsEq ▸ below row)]
        exact put_true (rowsEq ▸ rowInside) (colsEq ▸ below row)) inside rfl rfl
    have hashes : BloomFast.hashForMatrix hasher filter.bits value =
        some (hasher.hashForMatrixSeeded 0 filter.bits.rows filter.bits.cols value) :=
      if_pos compatible
    rw [insert, BloomFast.insert, hashes]
    exact congrArg (Option.map _) marked

theorem containsFrom_eq (hasher : SketchHasher) (matrix : BitMatrix) (value : DataInput)
    {visited : List ℕ} (inside : ∀ row ∈ visited, row < matrix.rows) :
    BloomRegular.containsFrom hasher matrix value visited = some (visited.all fun row =>
      matrix.cellAt row ((regular hasher).probe matrix.rows matrix.cols value row)) := by
  induction visited with
  | nil => rfl
  | cons row rest hypothesis =>
    have later := hypothesis fun other inRest =>
      inside other (List.mem_cons_of_mem row inRest)
    have below := (regular hasher).probe_lt matrix.rows matrix.colsPositive value row
    rw [BloomRegular.containsFrom, List.all_cons, later]
    have read : matrix.get row (lower32Col (hasher.hash64Seeded row value) matrix.cols) =
        some (matrix.cellAt row ((regular hasher).probe matrix.rows matrix.cols value row)) :=
      get_eq (inside row List.mem_cons_self) below
    rw [read, Option.bind_some]
    cases matrix.cellAt row ((regular hasher).probe matrix.rows matrix.cols value row) with
    | false => rfl
    | true => rfl

theorem lower_eq_and (low candidate : Bool) :
    (if candidate < low then candidate else low) = (low && candidate) := by
  revert low candidate
  decide

theorem queryMin_eq (hasher : FastHasher) (matrix : BitMatrix) (value : DataInput)
    {visited : List ℕ} (inside : ∀ row ∈ visited, row < matrix.rows) (low : Bool) :
    visited.foldlM (fun low row =>
      (matrix.get row (matrix.colForRow hasher.fast
        (hasher.hashForMatrixSeeded 0 matrix.rows matrix.cols value) row)).map fun cell =>
          if cell < low then cell else low) low = some (low && visited.all fun row =>
            matrix.cellAt row ((fast hasher).probe matrix.rows matrix.cols value row)) := by
  induction visited generalizing low with
  | nil => rw [List.all_nil, Bool.and_true]; rfl
  | cons row rest hypothesis =>
    have column : matrix.colForRow hasher.fast
        (hasher.hashForMatrixSeeded 0 matrix.rows matrix.cols value) row =
          (fast hasher).probe matrix.rows matrix.cols value row := by
      rw [colForRow, matrix.masked]
      rfl
    have below := (fast hasher).probe_lt matrix.rows matrix.colsPositive value row
    have later := hypothesis fun other inRest =>
      inside other (List.mem_cons_of_mem row inRest)
    rw [List.foldlM_cons, column, get_eq (inside row List.mem_cons_self) below,
      Option.map_some, lower_eq_and, List.all_cons, ← Bool.and_assoc]
    exact later _

theorem contains_eq {filter : Bloom}
    (compatible : path.Compatible filter.bits.rows filter.bits.cols) (value : DataInput) :
    path.contains filter value = some ((List.range filter.bits.rows).all fun row =>
      filter.bits.cellAt row (path.probe filter.bits.rows filter.bits.cols value row)) := by
  have inside : ∀ row ∈ List.range filter.bits.rows, row < filter.bits.rows := fun row member =>
    List.mem_range.mp member
  cases path with
  | regular hasher => exact containsFrom_eq hasher filter.bits value inside
  | fast hasher =>
    have hashes : BloomFast.hashForMatrix hasher filter.bits value =
        some (hasher.hashForMatrixSeeded 0 filter.bits.rows filter.bits.cols value) :=
      if_pos compatible
    have column : filter.bits.colForRow hasher.fast
        (hasher.hashForMatrixSeeded 0 filter.bits.rows filter.bits.cols value) 0 =
          (fast hasher).probe filter.bits.rows filter.bits.cols value 0 := by
      rw [colForRow, filter.bits.masked]
      rfl
    have below := (fast hasher).probe_lt filter.bits.rows filter.bits.colsPositive value 0
    have rowsOf : List.range filter.bits.rows = 0 :: List.range' 1 (filter.bits.rows - 1) := by
      rw [List.range_eq_range', ← Nat.succ_pred_eq_of_pos filter.bits.rowsPositive]
      rfl
    rw [contains, BloomFast.contains, hashes, Option.bind_some, fastQueryMin, column,
      get_eq filter.bits.rowsPositive below, Option.bind_some, rowsOf, List.all_cons]
    exact queryMin_eq hasher filter.bits value
      (fun row member => inside row (rowsOf ▸ List.mem_cons_of_mem 0 member)) _

end BloomPath

/-! ### Filters of a stream -/

/-- Filters of one geometry, built by insertions and merges. -/
inductive FilterTree where
  | new
  | insert (tree : FilterTree) (value : DataInput)
  | bulkInsert (tree : FilterTree) (values : List DataInput)
  | merge (left right : FilterTree)

namespace FilterTree

def run (path : BloomPath) (rows cols : ℕ) : FilterTree → Option Bloom
  | new => Bloom.withDimensions rows cols
  | insert tree value => (tree.run path rows cols).bind fun filter => path.insert filter value
  | bulkInsert tree values => (tree.run path rows cols).bind fun filter =>
      path.bulkInsert filter values
  | merge left right => (left.run path rows cols).bind fun filter =>
      (right.run path rows cols).bind fun other => filter.merge other

def stream : FilterTree → List DataInput
  | new => []
  | insert tree value => tree.stream ++ [value]
  | bulkInsert tree values => tree.stream ++ values
  | merge left right => left.stream ++ right.stream

end FilterTree

/-- A filter is the one of a stream: its set bits are the cells that the keys probe. -/
structure FilterOf (path : BloomPath) (rows cols : ℕ) (stream : List DataInput) (filter : Bloom) :
    Prop where
  rowsEq : filter.bits.rows = rows
  colsEq : filter.bits.cols = cols
  counted : filter.inserted = min stream.length u64Max
  cells : ∀ row < rows, ∀ col < filter.bits.width, filter.bits.cellAt row col = true ↔
    ∃ value ∈ stream, col = path.probe rows cols value row

namespace FilterOf

variable {path : BloomPath} {rows cols : ℕ} {stream later : List DataInput} {filter other : Bloom}

theorem ofNew (path : BloomPath) (rowsPositive : 0 < rows) (rowsLe : rows ≤ bloomMaxSlices)
    (colsPositive : 0 < cols) :
    ∃ filter, Bloom.withDimensions rows cols = some filter ∧ FilterOf path rows cols [] filter := by
  obtain ⟨bits, created, rowsEq, colsEq, clear⟩ := exists_new rowsPositive colsPositive
  refine ⟨⟨bits, 0⟩, ?_, rowsEq, colsEq, rfl, fun row rowInside col colInside => ?_⟩
  · rw [Bloom.withDimensions, if_pos rowsLe, created]
    rfl
  · show bits.cellAt row col = true ↔ _
    rw [clear row col]
    exact ⟨fun contrary => absurd contrary Bool.false_ne_true,
      fun ⟨_, member, _⟩ => absurd member List.not_mem_nil⟩

variable (held : FilterOf path rows cols stream filter)

include held

theorem lt_cols {row col : ℕ} (rowInside : row < rows) (colInside : col < filter.bits.width)
    (isSet : filter.bits.cellAt row col = true) : col < cols := by
  obtain ⟨value, -, rfl⟩ := (held.cells row rowInside col colInside).mp isSet
  exact path.probe_lt rows (held.colsEq ▸ filter.bits.colsPositive) value row

theorem insert (compatible : path.Compatible rows cols) (value : DataInput) :
    ∃ next, path.insert filter value = some next ∧
      FilterOf path rows cols (stream ++ [value]) next := by
  obtain ⟨sameRows, sameCols⟩ := markRows_shape filter.bits
    (path.probe filter.bits.rows filter.bits.cols value) (List.range filter.bits.rows)
  refine ⟨_, BloomPath.insert_eq (by rwa [held.rowsEq, held.colsEq]) value,
    sameRows.trans held.rowsEq, sameCols.trans held.colsEq, ?_, ?_⟩
  · show saturatingAdd filter.inserted 1 = _
    rw [held.counted, saturatingAdd, List.length_append, List.length_singleton, u64Max]
    omega
  · intro row rowInside col colInside
    rw [width_eq sameCols] at colInside
    have below : ∀ row,
        path.probe filter.bits.rows filter.bits.cols value row < filter.bits.width := fun row =>
      (path.probe_lt _ filter.bits.colsPositive value row).trans_le filter.bits.cols_le_width
    refine (cellAt_markRows filter.bits (fun row member => List.mem_range.mp member) below
      colInside).trans ?_
    rw [held.cells row rowInside col colInside, held.rowsEq, held.colsEq]
    constructor
    · rintro (⟨earlier, member, probed⟩ | ⟨-, probed⟩)
      · exact ⟨earlier, List.mem_append_left _ member, probed⟩
      · exact ⟨value, List.mem_append_right _ List.mem_cons_self, probed⟩
    · rintro ⟨earlier, member, probed⟩
      rcases List.mem_append.mp member with before | now
      · exact Or.inl ⟨earlier, before, probed⟩
      · rw [List.mem_singleton.mp now] at probed
        exact Or.inr ⟨List.mem_range.mpr rowInside, probed⟩

theorem bulkInsert (compatible : path.Compatible rows cols) (values : List DataInput) :
    ∃ next, path.bulkInsert filter values = some next ∧
      FilterOf path rows cols (stream ++ values) next := by
  induction values generalizing stream filter with
  | nil => exact ⟨filter, rfl, by rwa [List.append_nil]⟩
  | cons value rest hypothesis =>
    obtain ⟨between, inserted, heldBetween⟩ := held.insert compatible value
    obtain ⟨next, insertedRest, heldNext⟩ := hypothesis heldBetween
    refine ⟨next, ?_, ?_⟩
    · rw [BloomPath.bulkInsert, List.foldlM_cons, inserted]
      exact insertedRest
    · rwa [List.append_assoc] at heldNext

theorem merge (heldOther : FilterOf path rows cols later other) :
    ∃ merged, filter.merge other = some merged ∧
      FilterOf path rows cols (stream ++ later) merged := by
  have sameRows := held.rowsEq.trans heldOther.rowsEq.symm
  have sameCols := held.colsEq.trans heldOther.colsEq.symm
  obtain ⟨bits, united⟩ : ∃ bits, filter.bits.unionFrom other.bits = some bits :=
    ⟨_, dif_pos ⟨sameRows, sameCols⟩⟩
  have shape : bits.rows = filter.bits.rows ∧ bits.cols = filter.bits.cols := by
    rw [unionFrom, dif_pos ⟨sameRows, sameCols⟩] at united
    rw [← Option.some.inj united]
    exact ⟨rfl, rfl⟩
  refine ⟨⟨bits, saturatingAdd filter.inserted other.inserted⟩, ?_, shape.1.trans held.rowsEq,
    shape.2.trans held.colsEq, ?_, ?_⟩
  · rw [Bloom.merge, united]
    rfl
  · show saturatingAdd filter.inserted other.inserted = _
    rw [held.counted, heldOther.counted, saturatingAdd, List.length_append]
    omega
  · intro row rowInside col colInside
    have inside : col < filter.bits.width := by rwa [← width_eq shape.2]
    have insideOther : col < other.bits.width := by rwa [← width_eq sameCols]
    show bits.cellAt row col = true ↔ _
    rw [cellAt_unionFrom united, Bool.or_eq_true, held.cells row rowInside col inside,
      heldOther.cells row rowInside col insideOther]
    simp only [List.mem_append, or_and_right, exists_or]

theorem unique (heldOther : FilterOf path rows cols stream other) : filter = other := by
  have sameCols := held.colsEq.trans heldOther.colsEq.symm
  refine Bloom.ext ?_ (held.counted.trans heldOther.counted.symm)
  refine eq_of_cellAt (held.rowsEq.trans heldOther.rowsEq.symm) sameCols ?_
  intro row rowInside col colInside
  rw [held.rowsEq] at rowInside
  have insideOther : col < other.bits.width := by rwa [← width_eq sameCols]
  rw [Bool.eq_iff_iff, held.cells row rowInside col colInside,
    heldOther.cells row rowInside col insideOther]

theorem contains (compatible : path.Compatible rows cols) {value : DataInput}
    (member : value ∈ stream) : path.contains filter value = some true := by
  rw [BloomPath.contains_eq (by rwa [held.rowsEq, held.colsEq])]
  refine congrArg some (List.all_eq_true.mpr fun row visited => ?_)
  have below := (path.probe_lt filter.bits.rows filter.bits.colsPositive value row).trans_le
    filter.bits.cols_le_width
  refine (held.cells row (held.rowsEq ▸ List.mem_range.mp visited) _ below).mpr ⟨value, member, ?_⟩
  rw [held.rowsEq, held.colsEq]

theorem padding {row col : ℕ} (rowInside : row < rows) (beyond : cols ≤ col)
    (colInside : col < filter.bits.width) : filter.bits.cellAt row col = false := by
  rw [← Bool.not_eq_true]
  exact fun isSet => absurd (held.lt_cols rowInside colInside isSet) (Nat.not_lt_of_le beyond)

theorem get {row col : ℕ} (rowInside : row < rows) (colInside : col < cols) :
    filter.bits.get row col =
      some (decide (∃ value ∈ stream, col = path.probe rows cols value row)) := by
  have readable : col < filter.bits.cols := held.colsEq ▸ colInside
  rw [get_eq (held.rowsEq ▸ rowInside) readable, Option.some_inj, Bool.eq_iff_iff,
    decide_eq_true_iff]
  exact held.cells row rowInside col (readable.trans_le filter.bits.cols_le_width)

end FilterOf

theorem FilterTree.run_filterOf {path : BloomPath} {rows cols : ℕ} (rowsPositive : 0 < rows)
    (rowsLe : rows ≤ bloomMaxSlices) (colsPositive : 0 < cols)
    (compatible : path.Compatible rows cols) (tree : FilterTree) :
    ∃ filter, tree.run path rows cols = some filter ∧
      FilterOf path rows cols tree.stream filter := by
  induction tree with
  | new => exact FilterOf.ofNew path rowsPositive rowsLe colsPositive
  | insert tree value hypothesis =>
    obtain ⟨filter, ran, held⟩ := hypothesis
    rw [run, ran]
    exact held.insert compatible value
  | bulkInsert tree values hypothesis =>
    obtain ⟨filter, ran, held⟩ := hypothesis
    rw [run, ran]
    exact held.bulkInsert compatible values
  | merge left right leftHypothesis rightHypothesis =>
    obtain ⟨filter, ran, held⟩ := leftHypothesis
    obtain ⟨other, ranOther, heldOther⟩ := rightHypothesis
    rw [run, ran, ranOther]
    exact held.merge heldOther

theorem addressable {rows cols : ℕ} (rowsLe : rows ≤ bloomMaxSlices) (word : cols < 2 ^ 64) :
    rows * wordsForCols cols < 2 ^ 64 := by
  have narrow : wordsForCols cols ≤ 2 ^ 58 := by
    unfold wordsForCols
    omega
  calc
    rows * wordsForCols cols ≤ bloomMaxSlices * 2 ^ 58 := Nat.mul_le_mul rowsLe narrow
    _ < 2 ^ 64 := by decide

/-- A filter built by any tree of insertions and merges forgets no key, has set exactly the cells
that its keys probe, is the filter of the concatenated streams, counts its set cells and is rebuilt
from its words. -/
theorem bloom_exact (path : BloomPath) {rows cols : ℕ} (rowsPositive : 0 < rows)
    (rowsLe : rows ≤ bloomMaxSlices) (colsPositive : 0 < cols) (word : cols < 2 ^ 64)
    (compatible : path.Compatible rows cols) (tree : FilterTree) :
    ∃ filter, tree.run path rows cols = some filter ∧
      (∀ value ∈ tree.stream, path.contains filter value = some true) ∧
      (∀ row < rows, ∀ col < cols, filter.bits.get row col =
        some (decide (∃ value ∈ tree.stream, col = path.probe rows cols value row))) ∧
      ((Bloom.withDimensions rows cols).bind fun empty => path.bulkInsert empty tree.stream) =
        some filter ∧
      (∀ row < rows, ∀ col, cols ≤ col → col < 64 * filter.bits.wordsPerRow →
        (filter.bits.words.getD (row * filter.bits.wordsPerRow + col / 64) 0).getLsbD (col % 64) =
          false) ∧
      filter.bits.countOnes = ((Finset.range rows ×ˢ Finset.range cols).filter fun cell =>
        filter.bits.get cell.1 cell.2 = some true).card ∧
      BitMatrix.fromWords filter.bits.rows filter.bits.cols filter.bits.words =
        .ok filter.bits := by
  obtain ⟨filter, ran, held⟩ :=
    tree.run_filterOf rowsPositive rowsLe colsPositive compatible
  obtain ⟨empty, created, heldEmpty⟩ :=
    FilterOf.ofNew path rowsPositive rowsLe colsPositive
  obtain ⟨straight, ranStraight, heldStraight⟩ := heldEmpty.bulkInsert compatible tree.stream
  refine ⟨filter, ran, fun value => held.contains compatible, fun row rowInside col colInside =>
    held.get rowInside colInside, ?_, ?_, ?_, ?_⟩
  · rw [created, Option.bind_some, ranStraight, heldStraight.unique held]
  · intro row rowInside col beyond colInside
    have clear := held.padding rowInside beyond
      (show col < filter.bits.wordsPerRow * 64 by rwa [Nat.mul_comm])
    rwa [BitMatrix.cellAt_eq] at clear
  · rw [BitMatrix.countOnes_eq fun row rowInside col beyond colInside =>
      held.padding (held.rowsEq ▸ rowInside) (held.colsEq ▸ beyond) colInside, held.rowsEq,
      held.colsEq]
    refine congrArg Finset.card (Finset.filter_congr fun cell member => ?_)
    obtain ⟨rowIn, colIn⟩ := Finset.mem_product.mp member
    rw [BitMatrix.get_eq (held.rowsEq ▸ Finset.mem_range.mp rowIn)
      (held.colsEq ▸ Finset.mem_range.mp colIn), Option.some_inj]
  · refine BitMatrix.fromWords_words ?_
    rw [filter.bits.stride, held.rowsEq, held.colsEq]
    exact addressable rowsLe word

/-- A merge of two filters whose rows end one bit after a word. -/
theorem bloom_exact_padded : ∃ filter,
    (FilterTree.merge (.insert .new (.u64 3)) (.bulkInsert .new [.u64 5])).run
      (.fast ⟨MatrixHashType, MatrixHashType.fastHash, fun _ _ => true,
        hashForMatrixSeeded (defaultXxHasher plainXxHash)⟩) 2 65 = some filter ∧
    BloomPath.contains (.fast ⟨MatrixHashType, MatrixHashType.fastHash, fun _ _ => true,
      hashForMatrixSeeded (defaultXxHasher plainXxHash)⟩) filter (.u64 5) = some true := by
  obtain ⟨filter, ran, known, -⟩ := bloom_exact
    (.fast ⟨MatrixHashType, MatrixHashType.fastHash, fun _ _ => true,
      hashForMatrixSeeded (defaultXxHasher plainXxHash)⟩)
    (show 0 < 2 by decide) (by decide) (show 0 < 65 by decide) (by decide) rfl
    (.merge (.insert .new (.u64 3)) (.bulkInsert .new [.u64 5]))
  exact ⟨filter, ran, known _ (List.mem_cons_of_mem _ List.mem_cons_self)⟩

end AsapSketchlib
