/-
This file relates the folding sketches to the full-width ones they stand for. While every
full-width column fits the 16-bit tag of a cell, the cell at a row and the physical column of
a full column answers, for that column, the counter of the full-width grid, so the queries
agree whatever the fold level. From 2^17 columns on two columns can share a tag, and the
queries differ.
-/

import AsapSketchlib.Fold

namespace AsapSketchlib

namespace FoldSketch

/-! ### Geometry -/

/-- The geometry every folded sketch has: a cell for each row and physical column, whose number
is a power of two. -/
structure Shaped (sketch : FoldSketch) : Prop where
  sized : sketch.cells.length = sketch.rows * sketch.foldCols
  folded : ∃ exponent, sketch.foldCols = 2 ^ exponent

theorem foldColOf_lt {sketch : FoldSketch} (shaped : Shaped sketch) (fullCol : ℕ) :
    foldColOf sketch fullCol < sketch.foldCols := by
  obtain ⟨exponent, power⟩ := shaped.folded
  unfold foldColOf
  rw [power, Nat.and_two_pow_sub_one_eq_mod]
  exact Nat.mod_lt _ (Nat.two_pow_pos exponent)

theorem trailingZeros_shiftLeft {exponent : ℕ} (inside : exponent < 64) :
    trailingZeros (1 <<< exponent) = exponent := by
  have found : (List.range 64).find? (1 <<< exponent).testBit = some exponent := by
    rw [List.find?_range_eq_some, Nat.shiftLeft_eq, one_mul]
    refine ⟨Nat.testBit_two_pow_self, List.mem_range.mpr inside, fun lower below => ?_⟩
    rw [Nat.testBit_two_pow_of_ne (Nat.ne_of_gt below)]
    rfl
  unfold trailingZeros
  rw [found, Option.getD_some]

theorem new_eq_some {rows fullCols foldLevel topK : ℕ} {sketch : FoldSketch}
    (accepted : new rows fullCols foldLevel topK = some sketch) :
    sketch.rows = rows ∧ sketch.fullCols = fullCols ∧ 0 < fullCols ∧ Shaped sketch ∧
      ∀ row foldCol, cellAt sketch row foldCol = FoldCell.empty := by
  unfold new at accepted
  split at accepted
  case isFalse => exact absurd accepted (by simp)
  rename_i power
  split at accepted
  case isFalse => exact absurd accepted (by simp)
  rename_i level
  obtain ⟨exponent, small, rfl⟩ := power
  rw [trailingZeros_shiftLeft small] at level
  rw [← Option.some.inj accepted]
  refine ⟨rfl, rfl, ?_, ⟨List.length_replicate, exponent - foldLevel, ?_⟩, fun row foldCol => ?_⟩
  · rw [Nat.shiftLeft_eq, one_mul]
    exact Nat.two_pow_pos exponent
  · show (1 <<< exponent) >>> foldLevel = _
    rw [Nat.shiftLeft_eq, one_mul, Nat.shiftRight_eq_div_pow, Nat.pow_div level (by decide)]
  · unfold cellAt
    rw [List.getElem?_replicate]
    split <;> rfl

variable {hasher : SketchHasher}

section

variable {sketch : FoldSketch} (shaped : Shaped sketch) (key : DataInput) (deltaOf : ℕ → ℤ)

include shaped

theorem Shaped.insertCells : Shaped (insertCells hasher sketch key deltaOf) :=
  ⟨(Grid.length_updateRows _ _ _ _ _).trans shaped.sized, shaped.folded⟩

theorem query_insertCells {row : ℕ} (inside : row < sketch.rows) (col : ℕ) :
    FoldCell.query col (cellAt (insertCells hasher sketch key deltaOf) row (foldColOf sketch col)) =
      FoldCell.query col (cellAt sketch row (foldColOf sketch col)) +
        if fullColFor hasher sketch row key = col then deltaOf row else 0 := by
  have positionInside : row * sketch.foldCols + foldColOf sketch col < sketch.cells.length := by
    rw [shaped.sized]
    exact Grid.position_lt inside (foldColOf_lt shaped col)
  simp only [cellAt, FoldSketch.insertCells, Grid.getElem?_updateRows _
    (fun row => foldColOf_lt shaped (fullColFor hasher sketch row key)) _ _
    (foldColOf_lt shaped col), List.getElem?_eq_getElem positionInside, inside, true_and]
  by_cases sameCell : foldColOf sketch (fullColFor hasher sketch row key) = foldColOf sketch col
  · rw [if_pos sameCell, Option.map_some, Option.getD_some, FoldCell.query_insert]
    rfl
  · have different : ¬fullColFor hasher sketch row key = col := fun same =>
      sameCell (congrArg (foldColOf sketch) same)
    rw [if_neg sameCell, if_neg different, add_zero]

end

/-! ### The full-width grid a sketch stands for -/

/-- The sketch holds, under the tag of each full column, the counter of a full-width grid. -/
structure Represents (sketch : FoldSketch) (counts : Vector2D ℤ) : Prop where
  shaped : Shaped sketch
  rows : counts.rows = sketch.rows
  cols : counts.cols = sketch.fullCols
  positive : 0 < sketch.fullCols
  tagged : sketch.fullCols ≤ 65536
  held : ∀ row < sketch.rows, ∀ col < sketch.fullCols,
    FoldCell.query col (cellAt sketch row (foldColOf sketch col)) = counts.queryOneCounter row col

theorem represents_new {rows fullCols foldLevel topK : ℕ} {sketch : FoldSketch}
    (accepted : new rows fullCols foldLevel topK = some sketch) (narrow : fullCols ≤ 65536) :
    Represents sketch (Vector2D.filled rows fullCols 0) := by
  obtain ⟨rowsEq, colsEq, positive, shaped, empty⟩ := new_eq_some accepted
  refine ⟨shaped, rowsEq.symm, colsEq.symm, colsEq ▸ positive, colsEq ▸ narrow, ?_⟩
  intro row rowInside col colInside
  rw [empty, Vector2D.queryOneCounter_filled]
  rfl

variable {sketch : FoldSketch} {counts : Vector2D ℤ}

variable (represents : Represents sketch counts)

include represents

theorem Represents.fullColFor_eq (row : ℕ) (key : DataInput) :
    fullColFor hasher sketch row key = lower32Col (hasher.hash64Seeded row key) counts.cols := by
  unfold fullColFor
  rw [represents.cols]
  exact Nat.mod_eq_of_lt ((lower32Col_lt _ _ represents.positive).trans_le represents.tagged)

theorem Represents.insertCells (key : DataInput) (deltaOf : ℕ → ℤ) {after : Vector2D ℤ}
    (sameRows : after.rows = counts.rows) (sameCols : after.cols = counts.cols)
    (added : ∀ row < counts.rows, ∀ col < counts.cols,
      after.queryOneCounter row col = counts.queryOneCounter row col +
        if lower32Col (hasher.hash64Seeded row key) counts.cols = col then deltaOf row else 0) :
    Represents (FoldSketch.insertCells hasher sketch key deltaOf) after := by
  refine ⟨represents.shaped.insertCells key deltaOf, sameRows.trans represents.rows,
    sameCols.trans represents.cols, represents.positive, represents.tagged, ?_⟩
  intro row rowInside col colInside
  have rowInside' : row < counts.rows := represents.rows ▸ rowInside
  have colInside' : col < counts.cols := represents.cols ▸ colInside
  rw [added row rowInside' col colInside', ← represents.fullColFor_eq row key,
    ← represents.held row rowInside col colInside]
  exact query_insertCells represents.shaped key deltaOf rowInside col

theorem Represents.withHeap (heap : HHHeap) : Represents { sketch with heap := heap } counts :=
  ⟨⟨represents.shaped.sized, represents.shaped.folded⟩, represents.rows, represents.cols,
    represents.positive, represents.tagged, represents.held⟩

theorem Represents.rowCount_eq (key : DataInput) {row : ℕ} (inside : row < sketch.rows) :
    rowCount hasher sketch key row =
      counts.queryOneCounter row (lower32Col (hasher.hash64Seeded row key) counts.cols) := by
  have colInside : lower32Col (hasher.hash64Seeded row key) counts.cols < sketch.fullCols := by
    rw [represents.cols]
    exact lower32Col_lt _ _ represents.positive
  unfold rowCount
  rw [represents.fullColFor_eq]
  exact represents.held row inside _ colInside

end FoldSketch

/-! ### Queries of a sketch that stands for a grid -/

/-- No counter of the grid leaves `i64` while the stream is inserted. -/
def CountersFit (countsOf : List (DataInput × ℤ) → Vector2D ℤ) (stream : List (DataInput × ℤ)) :
    Prop :=
  ∀ earlier, earlier <+: stream → ∀ row < (countsOf earlier).rows, ∀ col < (countsOf earlier).cols,
    i64Min ≤ (countsOf earlier).queryOneCounter row col ∧
      (countsOf earlier).queryOneCounter row col ≤ i64Max

theorem runningMin_congr {valueOf valueOf' : ℕ → ℤ} {rows : List ℕ} (start : ℤ)
    (same : ∀ row ∈ rows, valueOf row = valueOf' row) :
    runningMin valueOf rows start = runningMin valueOf' rows start := by
  unfold runningMin
  refine List.foldl_ext _ _ start fun low row member => ?_
  rw [same row member]

theorem runningMin_range (valueOf : ℕ → ℤ) {rows : ℕ} (someRow : 1 ≤ rows) (ceiling : ℤ) :
    runningMin valueOf (List.range rows) ceiling =
      min (runningMin valueOf (List.range' 1 (rows - 1)) (valueOf 0)) ceiling := by
  have split : List.range rows = 0 :: List.range' 1 (rows - 1) := by
    obtain ⟨others, rfl⟩ := Nat.exists_eq_add_of_le' someRow
    rw [List.range_eq_range', List.range'_succ, Nat.add_sub_cancel]
  rw [split, ← runningMin_eq_min]
  show runningMin valueOf _ (if valueOf 0 < ceiling then valueOf 0 else ceiling) = _
  by_cases below : valueOf 0 < ceiling
  · rw [if_pos below, min_eq_left below.le]
  · rw [if_neg below, min_eq_right (not_lt.mp below)]

namespace FoldCMS

variable {hasher : SketchHasher} {xxh : XxHash3}

section

variable {sketch : FoldCMS} {full : CountMin}
  (represents : FoldSketch.Represents sketch full.counts)

include represents

theorem represents_insertAll (stream : List (DataInput × ℤ)) :
    FoldSketch.Represents (insertAll hasher xxh sketch stream)
      (CountMin.insertAll hasher full stream).counts := by
  induction stream generalizing sketch full with
  | nil => exact represents
  | cons entry rest hypothesis =>
    have inserted : FoldSketch.Represents
        (FoldSketch.insertCells hasher sketch entry.1 fun _ => entry.2)
        (CountMin.insertMany hasher full entry.1 entry.2).counts :=
      represents.insertCells entry.1 (fun _ => entry.2) rfl rfl
        fun row rowInside col colInside =>
          CountMin.queryOneCounter_insertMany full entry.1 entry.2 rowInside colInside
    exact hypothesis (inserted.withHeap _)

theorem query_eq (someRow : 1 ≤ sketch.rows) (key : DataInput) :
    query hasher sketch key = min (CountMin.estimate hasher full key) i64Max := by
  unfold query
  rw [runningMin_congr i64Max fun row member =>
      represents.rowCount_eq key (List.mem_range.mp member), runningMin_range _ someRow,
    ← represents.rows]
  rfl

end

def Exact (xxh : XxHash3) (rows fullCols : ℕ) (sketch : FoldCMS) : Prop :=
  ∀ hasher stream key,
    CountersFit (fun earlier =>
      (CountMin.insertAll hasher (CountMin.withDimensions rows fullCols) earlier).counts) stream →
    query hasher (insertAll hasher xxh sketch stream) key =
      CountMin.estimate hasher
        (CountMin.insertAll hasher (CountMin.withDimensions rows fullCols) stream) key

end FoldCMS

namespace FoldCS

variable {hasher : SketchHasher} {xxh : XxHash3}

section

variable {sketch : FoldCS} {full : Count} (represents : FoldSketch.Represents sketch full.counts)

include represents

theorem represents_insertAll (stream : List (DataInput × ℤ)) :
    FoldSketch.Represents (insertAll hasher xxh sketch stream)
      (Count.insertAll hasher full stream).counts := by
  induction stream generalizing sketch full with
  | nil => exact represents
  | cons entry rest hypothesis =>
    have inserted : FoldSketch.Represents
        (FoldSketch.insertCells hasher sketch entry.1 fun row =>
          (hashFor hasher sketch row entry.1).2 * entry.2)
        (Count.insertMany hasher full entry.1 entry.2).counts :=
      represents.insertCells entry.1 _ rfl rfl fun row rowInside col colInside =>
        Count.queryOneCounter_insertMany full entry.1 entry.2 rowInside colInside
    exact hypothesis (inserted.withHeap _)

theorem query_eq (key : DataInput) :
    query hasher sketch key = f64AsI64 (Count.estimate hasher full key) := by
  have sameRows : (List.range sketch.rows).map (rowEstimate hasher sketch key) =
      (List.range full.counts.rows).map (Count.rowEstimate hasher full key) := by
    rw [represents.rows]
    refine List.map_congr_left fun row member => ?_
    rw [Count.rowEstimate_eq, rowEstimate,
      represents.rowCount_eq key (List.mem_range.mp member)]
    rfl
  unfold query Count.estimate
  rw [Median.computeMedianInline_eq _ _ meanF64_comm, sameRows]

end

def Exact (xxh : XxHash3) (rows fullCols : ℕ) (sketch : FoldCS) : Prop :=
  ∀ hasher stream key,
    CountersFit (fun earlier =>
      (Count.insertAll hasher (Count.withDimensions rows fullCols) earlier).counts) stream →
    query hasher (insertAll hasher xxh sketch stream) key =
      f64AsI64 (Count.estimate hasher
        (Count.insertAll hasher (Count.withDimensions rows fullCols) stream) key)

end FoldCS

/-! ### Too many columns for the tag -/

/-- A hasher that sends one key to column 0 and all others to column 65536, with sign 1. -/
def wideHasher : SketchHasher where
  hash64Seeded := fun _ key =>
    if key = .u8 0 then 0x8000000000000000#64 else 0x8000000000010000#64
  hash128Seeded := fun _ _ => 0
  hashItem64Seeded := fun _ _ => 0
  hashItem128Seeded := fun _ _ => 0

def wideStream : List (DataInput × ℤ) := [(.u8 0, 1)]

theorem wideHasher_inserted (row : ℕ) :
    wideHasher.hash64Seeded row (.u8 0) = 0x8000000000000000#64 := rfl

theorem wideHasher_asked (row : ℕ) :
    wideHasher.hash64Seeded row (.u8 1) = 0x8000000000010000#64 := rfl

theorem lower32Col_inserted (fullCols : ℕ) :
    lower32Col 0x8000000000000000#64 fullCols = 0 := by
  have zero : (0x8000000000000000#64 &&& lower32Mask).toNat = 0 := by decide
  unfold lower32Col
  rw [zero, Nat.zero_mod]

theorem lower32Col_asked {fullCols : ℕ} (wide : 65536 < fullCols) :
    lower32Col 0x8000000000010000#64 fullCols = 65536 := by
  have value : (0x8000000000010000#64 &&& lower32Mask).toNat = 65536 := by decide
  unfold lower32Col
  rw [value, Nat.mod_eq_of_lt wide]

namespace FoldSketch

theorem rowCount_wide {rows fullCols foldLevel topK : ℕ} {sketch : FoldSketch}
    (accepted : new rows fullCols foldLevel topK = some sketch) (wide : 65536 < fullCols)
    (deltaOf : ℕ → ℤ) {row : ℕ} (inside : row < sketch.rows) :
    rowCount wideHasher (insertCells wideHasher sketch (.u8 0) deltaOf) (.u8 1) row =
      deltaOf row := by
  obtain ⟨-, colsEq, -, shaped, empty⟩ := new_eq_some accepted
  have askedTag : fullColFor wideHasher sketch row (.u8 1) = 0 := by
    rw [fullColFor, wideHasher_asked, colsEq, lower32Col_asked wide]
  have insertedTag : fullColFor wideHasher sketch row (.u8 0) = 0 := by
    rw [fullColFor, wideHasher_inserted, lower32Col_inserted]
  have sameTag : fullColFor wideHasher (insertCells wideHasher sketch (.u8 0) deltaOf) row (.u8 1) =
      0 := askedTag
  have read : FoldCell.query 0 (cellAt (insertCells wideHasher sketch (.u8 0) deltaOf) row
      (foldColOf sketch 0)) = _ := query_insertCells shaped (.u8 0) deltaOf inside 0
  unfold rowCount
  rw [sameTag]
  refine read.trans ?_
  rw [empty, insertedTag, if_pos rfl]
  exact zero_add _

end FoldSketch

theorem runningMin_const {valueOf : ℕ → ℤ} {rows : List ℕ} {value start : ℤ}
    (same : ∀ row ∈ rows, valueOf row = value) (low : value ≤ start) (nonempty : rows ≠ [] ∨ start = value) :
    runningMin valueOf rows start = value := by
  rw [runningMin_congr start same]
  induction rows generalizing start with
  | nil => exact nonempty.resolve_left (fun impossible => impossible rfl)
  | cons row rest hypothesis =>
    have sameRest : ∀ other ∈ rest, valueOf other = value := fun other member =>
      same other (List.mem_cons_of_mem row member)
    have lowered : (if value < start then value else start) = value := by
      by_cases below : value < start
      · rw [if_pos below]
      · rw [if_neg below]
        exact le_antisymm (not_lt.mp below) low
    show runningMin _ rest (if value < start then value else start) = value
    rw [lowered]
    exact hypothesis sameRest le_rfl (Or.inr rfl)

theorem countersFit_of_unit {countsOf : List (DataInput × ℤ) → Vector2D ℤ}
    (empty : ∀ row < (countsOf []).rows, ∀ col < (countsOf []).cols,
      (countsOf []).queryOneCounter row col = 0)
    (unit : ∀ row < (countsOf wideStream).rows, ∀ col < (countsOf wideStream).cols,
      (countsOf wideStream).queryOneCounter row col = if 0 = col then 1 else 0) :
    CountersFit countsOf wideStream := by
  intro earlier isPrefix row rowInside col colInside
  rcases List.prefix_cons_iff.mp isPrefix with rfl | ⟨later, rfl, laterPrefix⟩
  · rw [empty row rowInside col colInside]
    decide
  · have nil : later = [] := List.prefix_nil.mp laterPrefix
    subst nil
    have read : (countsOf [(.u8 0, 1)]).queryOneCounter row col = if 0 = col then 1 else 0 :=
      unit row rowInside col colInside
    rw [read]
    split <;> decide

namespace FoldCMS

variable {rows fullCols foldLevel topK : ℕ} {sketch : FoldCMS} {xxh : XxHash3}

theorem full_wide {rows fullCols row col : ℕ} (rowInside : row < rows)
    (colInside : col < fullCols) :
    (CountMin.insertAll wideHasher (CountMin.withDimensions rows fullCols)
      wideStream).counts.queryOneCounter row col = if 0 = col then 1 else 0 := by
  have inserted : (CountMin.insertMany wideHasher (CountMin.withDimensions rows fullCols)
      (.u8 0) 1).counts.queryOneCounter row col = _ :=
    CountMin.queryOneCounter_insertMany (CountMin.withDimensions rows fullCols) (.u8 0) 1 rowInside
      colInside
  rw [wideHasher_inserted, lower32Col_inserted] at inserted
  refine inserted.trans ?_
  rw [CountMin.withDimensions, Vector2D.queryOneCounter_filled, zero_add]

variable (accepted : new rows fullCols foldLevel topK = some sketch) (someRow : 1 ≤ rows)

include accepted someRow

theorem query_wide (wide : 65536 < fullCols) :
    query wideHasher (insertAll wideHasher xxh sketch wideStream) (.u8 1) = 1 ∧
      CountMin.estimate wideHasher (CountMin.insertAll wideHasher
        (CountMin.withDimensions rows fullCols) wideStream) (.u8 1) = 0 ∧
      CountersFit (fun earlier => (CountMin.insertAll wideHasher
        (CountMin.withDimensions rows fullCols) earlier).counts) wideStream := by
  obtain ⟨rowsEq, -, -, -, -⟩ := FoldSketch.new_eq_some accepted
  refine ⟨?_, ?_, ?_⟩
  · refine runningMin_const (fun row member => ?_) (by decide) (Or.inl ?_)
    · exact FoldSketch.rowCount_wide accepted wide (fun _ => 1) (List.mem_range.mp member)
    · show List.range sketch.rows ≠ []
      rw [rowsEq, Ne, List.range_eq_nil]
      exact Nat.ne_of_gt someRow
  · have zero : ∀ row < rows, (CountMin.insertAll wideHasher (CountMin.withDimensions rows fullCols)
        wideStream).counts.queryOneCounter row
          (lower32Col (wideHasher.hash64Seeded row (.u8 1)) fullCols) = 0 := by
      intro row inside
      rw [wideHasher_asked, lower32Col_asked wide, full_wide inside wide]
      rfl
    refine runningMin_const (fun row member => zero row ?_) (zero 0 someRow).ge (Or.inr (zero 0 someRow))
    have bounds := List.mem_range'_1.mp member
    show row < rows
    have upper : row < 1 + (rows - 1) := bounds.2
    omega
  · exact countersFit_of_unit (fun row _ col _ => Vector2D.queryOneCounter_filled _ _ _ _)
      fun row rowInside col colInside => full_wide rowInside colInside

theorem exact_iff : Exact xxh rows fullCols sketch ↔ fullCols ≤ 65536 := by
  constructor
  · intro exactly
    by_contra wide
    obtain ⟨folded, full, fits⟩ := query_wide accepted someRow (not_le.mp wide)
    have same := (folded.symm.trans (exactly wideHasher wideStream (.u8 1) fits)).trans full
    exact absurd same (by decide)
  · intro narrow hasher stream key fits
    obtain ⟨rowsEq, -, positive, -, -⟩ := FoldSketch.new_eq_some accepted
    have start : FoldSketch.Represents sketch (CountMin.withDimensions rows fullCols).counts :=
      FoldSketch.represents_new accepted narrow
    have represents : FoldSketch.Represents (insertAll hasher xxh sketch stream) _ :=
      represents_insertAll start stream
    have someRow' : 1 ≤ (insertAll hasher xxh sketch stream).rows := by
      rw [← represents.rows, CountMin.insertAll_rows]
      exact someRow
    rw [query_eq represents someRow']
    refine min_eq_left ((runningMin_le _ _ _).trans ?_)
    refine (fits stream (List.prefix_refl _) 0 ?_ _ (lower32Col_lt _ _ ?_)).2
    · rw [CountMin.insertAll_rows]
      exact someRow
    · rw [CountMin.insertAll_cols]
      exact positive

end FoldCMS

namespace FoldCS

variable {rows fullCols foldLevel topK : ℕ} {sketch : FoldCS} {xxh : XxHash3}

theorem full_wide {rows fullCols row col : ℕ} (rowInside : row < rows)
    (colInside : col < fullCols) :
    (Count.insertAll wideHasher (Count.withDimensions rows fullCols)
      wideStream).counts.queryOneCounter row col = if 0 = col then 1 else 0 := by
  have inserted : (Count.insertMany wideHasher (Count.withDimensions rows fullCols)
      (.u8 0) 1).counts.queryOneCounter row col = _ :=
    Count.queryOneCounter_insertMany (Count.withDimensions rows fullCols) (.u8 0) 1 rowInside
      colInside
  rw [wideHasher_inserted, lower32Col_inserted] at inserted
  refine inserted.trans ?_
  rw [Count.withDimensions, Vector2D.queryOneCounter_filled, zero_add]
  rfl

theorem sortMedian_rows {rows : ℕ} (someRow : 1 ≤ rows) {estimateOf : ℕ → ℚ} {count : ℤ}
    (small : |count| < 2 ^ 52) (same : ∀ row < rows, estimateOf row = intAsF64 count) :
    f64AsI64 (Median.sortMedian meanF64 0 ((List.range rows).map estimateOf)) = count := by
  have rowsEq : (List.range rows).map estimateOf = List.replicate rows (count : ℚ) := by
    refine List.eq_replicate_iff.mpr ⟨by rw [List.length_map, List.length_range], ?_⟩
    intro estimate member
    obtain ⟨row, inside, rfl⟩ := List.mem_map.mp member
    rw [same row (List.mem_range.mp inside), intAsF64_of_small (small.trans (by decide))]
  have idempotent : meanF64 (count : ℚ) count = count := by
    have double : |count + count| < 2 ^ 53 := by
      rw [abs_lt] at small ⊢
      omega
    unfold meanF64
    rw [← Int.cast_add, show roundF64 ((count + count : ℤ) : ℚ) = _ from intAsF64_of_small double]
    push_cast
    ring
  have inRange : i64Min ≤ count ∧ count ≤ i64Max := by
    rw [abs_lt] at small
    unfold i64Min i64Max
    omega
  rw [rowsEq, Median.sortMedian_replicate meanF64 0 idempotent someRow]
  unfold f64AsI64
  rw [Int.floor_intCast, Int.ceil_intCast, ite_self, min_eq_right inRange.2, max_eq_right inRange.1]

variable (accepted : new rows fullCols foldLevel topK = some sketch) (someRow : 1 ≤ rows)

include accepted someRow

/-- Where the tag is too narrow, a key that was never inserted is answered 1 and not 0. -/
theorem query_wide (wide : 65536 < fullCols) :
    query wideHasher (insertAll wideHasher xxh sketch wideStream) (.u8 1) = 1 ∧
      f64AsI64 (Count.estimate wideHasher (Count.insertAll wideHasher
        (Count.withDimensions rows fullCols) wideStream) (.u8 1)) = 0 ∧
      CountersFit (fun earlier => (Count.insertAll wideHasher
        (Count.withDimensions rows fullCols) earlier).counts) wideStream := by
  obtain ⟨rowsEq, -, -, -, -⟩ := FoldSketch.new_eq_some accepted
  have askedSign : rowSign 0x8000000000010000#64 = 1 := by decide
  have insertedSign : rowSign 0x8000000000000000#64 = 1 := by decide
  refine ⟨?_, ?_, ?_⟩
  · unfold query
    rw [Median.computeMedianInline_eq _ _ meanF64_comm]
    refine sortMedian_rows (rowsEq.symm ▸ someRow) (by decide) fun row inside => ?_
    have counted := FoldSketch.rowCount_wide accepted wide
      (fun row => (hashFor wideHasher sketch row (.u8 0)).2 * 1) inside
    have sign : (hashFor wideHasher (insertAll wideHasher xxh sketch wideStream) row (.u8 1)).2 = 1 :=
      (congrArg rowSign (wideHasher_asked row)).trans askedSign
    have delta : (hashFor wideHasher sketch row (.u8 0)).2 * 1 = 1 := by
      rw [mul_one]
      exact (congrArg rowSign (wideHasher_inserted row)).trans insertedSign
    unfold rowEstimate
    rw [sign, one_mul]
    exact congrArg intAsF64 (counted.trans delta)
  · unfold Count.estimate
    rw [show (Count.insertAll wideHasher (Count.withDimensions rows fullCols)
      wideStream).counts.rows = rows from rfl]
    refine sortMedian_rows someRow (by decide) fun row inside => ?_
    rw [Count.rowEstimate_eq, wideHasher_asked, askedSign, one_mul]
    have column : Count.colFor wideHasher (Count.insertAll wideHasher
        (Count.withDimensions rows fullCols) wideStream) (.u8 1) row = 65536 :=
      lower32Col_asked wide
    rw [column, full_wide inside wide]
    rfl
  · exact countersFit_of_unit (fun row _ col _ => Vector2D.queryOneCounter_filled _ _ _ _)
      fun row rowInside col colInside => full_wide rowInside colInside

theorem exact_iff : Exact xxh rows fullCols sketch ↔ fullCols ≤ 65536 := by
  constructor
  · intro exactly
    by_contra wide
    obtain ⟨folded, full, fits⟩ := query_wide accepted someRow (not_le.mp wide)
    have same := (folded.symm.trans (exactly wideHasher wideStream (.u8 1) fits)).trans full
    exact absurd same (by decide)
  · intro narrow hasher stream key _
    have start : FoldSketch.Represents sketch (Count.withDimensions rows fullCols).counts :=
      FoldSketch.represents_new accepted narrow
    exact query_eq (represents_insertAll start stream) key

end FoldCS

/-! ### The promise of both sketches -/

/-- Folding adds no error exactly while the full-width columns fit the tag of a cell. -/
theorem fold_exact_iff (xxh : XxHash3) (rows fullCols foldLevel topK : ℕ) (someRow : 1 ≤ rows) :
    (∀ sketch, FoldCMS.new rows fullCols foldLevel topK = some sketch →
        (FoldCMS.Exact xxh rows fullCols sketch ↔ fullCols ≤ 65536)) ∧
      ∀ sketch, FoldCS.new rows fullCols foldLevel topK = some sketch →
        (FoldCS.Exact xxh rows fullCols sketch ↔ fullCols ≤ 65536) :=
  ⟨fun _ accepted => FoldCMS.exact_iff accepted someRow,
    fun _ accepted => FoldCS.exact_iff accepted someRow⟩

/-- Three rows folded from 64 columns to 8. -/
theorem fold_exact_iff_narrow :
    ∃ cms cs, FoldCMS.new 3 64 3 4 = some cms ∧ FoldCS.new 3 64 3 4 = some cs ∧
      FoldCMS.Exact plainXxHash 3 64 cms ∧ FoldCS.Exact plainXxHash 3 64 cs :=
  have both := fold_exact_iff plainXxHash 3 64 3 4 (by decide)
  ⟨_, _, rfl, rfl, (both.1 _ rfl).mpr (by decide), (both.2 _ rfl).mpr (by decide)⟩

/-- One row of 2^17 columns, not folded at all: the query of a key that was never inserted. -/
theorem fold_wide_differs :
    (∃ sketch, FoldCMS.new 1 131072 0 4 = some sketch ∧
        FoldCMS.query wideHasher (FoldCMS.insertAll wideHasher plainXxHash sketch wideStream)
            (.u8 1) = 1 ∧
          CountMin.estimate wideHasher (CountMin.insertAll wideHasher
            (CountMin.withDimensions 1 131072) wideStream) (.u8 1) = 0) ∧
      ∃ sketch, FoldCS.new 1 131072 0 4 = some sketch ∧
        FoldCS.query wideHasher (FoldCS.insertAll wideHasher plainXxHash sketch wideStream)
            (.u8 1) = 1 ∧
          f64AsI64 (Count.estimate wideHasher (Count.insertAll wideHasher
            (Count.withDimensions 1 131072) wideStream) (.u8 1)) = 0 := by
  have accepted : ∃ sketch, FoldSketch.new 1 131072 0 4 = some sketch := by
    have power : isPowerOfTwo 131072 := ⟨17, by decide, by decide⟩
    unfold FoldSketch.new
    rw [if_pos power, if_pos (Nat.zero_le _)]
    exact ⟨_, rfl⟩
  obtain ⟨sketch, built⟩ := accepted
  obtain ⟨cmsFolded, cmsFull, -⟩ := FoldCMS.query_wide built (by decide) (by decide)
  obtain ⟨csFolded, csFull, -⟩ := FoldCS.query_wide built (by decide) (by decide)
  exact ⟨⟨sketch, built, cmsFolded, cmsFull⟩, sketch, built, csFolded, csFull⟩

end AsapSketchlib
