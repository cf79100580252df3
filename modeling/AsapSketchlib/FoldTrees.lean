/-
This file proves that merging folding sketches is a homomorphism onto their flat counters:
over every tree of inserts, merges at one level and unfolding merges, the flat counters of the
result are the entrywise sum of those of the leaves, and every query is answered from them.
-/

import AsapSketchlib.FoldPlacement

namespace AsapSketchlib

namespace FoldSketch

variable {rows fullCols : ℕ}

/-! ### What each merge holds -/

/-- A well placed sketch of these dimensions, at any level. -/
structure Fits (rows fullCols : ℕ) (sketch : FoldSketch) : Prop where
  placed : WellPlaced sketch
  rowsEq : sketch.rows = rows
  colsEq : sketch.fullCols = fullCols

theorem Fits.holds {sketch : FoldSketch} (fits : Fits rows fullCols sketch) :
    Holds rows fullCols sketch.foldLevel sketch (held sketch) :=
  ⟨fits.placed, fits.rowsEq, fits.colsEq, rfl, fun _ _ _ => rfl⟩

theorem Holds.fits {sketch : FoldSketch} {foldLevel : ℕ} {total : ℕ → ℕ → ℤ}
    (holds : Holds rows fullCols foldLevel sketch total) : Fits rows fullCols sketch :=
  ⟨holds.placed, holds.rowsEq, holds.colsEq⟩

theorem Holds.congr {sketch : FoldSketch} {foldLevel : ℕ} {total total' : ℕ → ℕ → ℤ}
    (holds : Holds rows fullCols foldLevel sketch total)
    (same : ∀ row < rows, ∀ col, total row col = total' row col) :
    Holds rows fullCols foldLevel sketch total' :=
  ⟨holds.placed, holds.rowsEq, holds.colsEq, holds.levelEq, fun row rowInside col =>
    (holds.answers row rowInside col).trans (same row rowInside col)⟩

def totalOf (sketches : List FoldSketch) (row col : ℕ) : ℤ :=
  (sketches.map fun sketch => held sketch row col).sum

theorem totalOf_append (first second : List FoldSketch) (row col : ℕ) :
    totalOf (first ++ second) row col = totalOf first row col + totalOf second row col := by
  rw [totalOf, List.map_append, List.sum_append]
  rfl

theorem sumCounters_map {sketches : List FoldSketch}
    (fits : ∀ sketch ∈ sketches, Fits rows fullCols sketch) :
    sumCounters (rows * fullCols) (sketches.map toFlatCounters) =
      flatOf rows fullCols (totalOf sketches) := by
  induction sketches with
  | nil => exact (flatOf_zero rows fullCols).symm
  | cons sketch rest hypothesis =>
    show List.zipWith _ (toFlatCounters sketch) (sumCounters _ (rest.map toFlatCounters)) = _
    rw [hypothesis fun other member => fits other (List.mem_cons_of_mem sketch member),
      (fits sketch List.mem_cons_self).holds.toFlatCounters_eq, zipWith_flatOf]
    rfl

section Reconciled

variable (xxh : XxHash3) (query : FoldSketch → DataInput → ℤ)

theorem sameGrid_refl (sketch : FoldSketch) : SameGrid sketch sketch := ⟨rfl, rfl, rfl, rfl, rfl⟩

theorem SameGrid.trans {first second third : FoldSketch} (before : SameGrid first second)
    (after : SameGrid second third) : SameGrid first third :=
  ⟨before.rows.trans after.rows, before.foldCols.trans after.foldCols,
    before.fullCols.trans after.fullCols, before.foldLevel.trans after.foldLevel,
    before.cells.trans after.cells⟩

theorem sameGrid_reconcileHeapFrom (sketch source : FoldSketch) :
    SameGrid sketch (reconcileHeapFrom xxh query sketch source) := by
  unfold reconcileHeapFrom
  generalize source.heap.heap = items
  induction items generalizing sketch with
  | nil => exact sameGrid_refl sketch
  | cons item rest hypothesis =>
    have offered : SameGrid sketch (offerItem xxh query sketch item) := ⟨rfl, rfl, rfl, rfl, rfl⟩
    exact offered.trans (hypothesis (offerItem xxh query sketch item))

theorem sameGrid_foldl_reconcile (sketch : FoldSketch) (sources : List FoldSketch) :
    SameGrid sketch (sources.foldl (reconcileHeapFrom xxh query) sketch) := by
  induction sources generalizing sketch with
  | nil => exact sameGrid_refl sketch
  | cons source rest hypothesis =>
    exact (sameGrid_reconcileHeapFrom xxh query sketch source).trans (hypothesis _)

variable {foldLevel : ℕ} {sketch other : FoldSketch} {total otherTotal : ℕ → ℕ → ℤ}

theorem cellAt_zipWith (shaped : Shaped sketch) (otherShaped : Shaped other)
    (sameRows : sketch.rows = other.rows) (sameCols : sketch.foldCols = other.foldCols)
    {row foldCol : ℕ} (rowInside : row < sketch.rows) (colInside : foldCol < sketch.foldCols) :
    cellAt { sketch with cells := List.zipWith FoldCell.mergeFrom sketch.cells other.cells }
        row foldCol =
      FoldCell.mergeFrom (cellAt sketch row foldCol) (cellAt other row foldCol) := by
  have inside : row * sketch.foldCols + foldCol < sketch.cells.length := by
    rw [shaped.sized]
    exact Grid.position_lt rowInside colInside
  have otherInside : row * sketch.foldCols + foldCol < other.cells.length := by
    rw [otherShaped.sized, ← sameRows, ← sameCols, ← shaped.sized]
    exact inside
  simp only [cellAt]
  rw [← sameCols, List.getElem?_zipWith, List.getElem?_eq_getElem inside,
    List.getElem?_eq_getElem otherInside]
  rfl

/-- Cell by cell at one level, the answers add up. -/
theorem Holds.mergeSameLevel (holds : Holds rows fullCols foldLevel sketch total)
    (otherHolds : Holds rows fullCols foldLevel other otherTotal) :
    ∃ result, mergeSameLevel xxh query sketch other = some result ∧
      Holds rows fullCols foldLevel result fun row col => total row col + otherTotal row col := by
  have sameRows : sketch.rows = other.rows := holds.rowsEq.trans otherHolds.rowsEq.symm
  have sameCols : sketch.fullCols = other.fullCols := holds.colsEq.trans otherHolds.colsEq.symm
  have sameLevel : sketch.foldLevel = other.foldLevel :=
    holds.levelEq.trans otherHolds.levelEq.symm
  have sameFold : sketch.foldCols = other.foldCols := by
    rw [holds.placed.width, otherHolds.placed.width, sameCols, sameLevel]
  refine ⟨_, if_pos ⟨sameRows, sameCols, sameLevel, sameFold⟩, ?_⟩
  refine Holds.of_sameGrid ?_ (sameGrid_reconcileHeapFrom xxh query _ other)
  have merged : ∀ row < sketch.rows, ∀ foldCol < sketch.foldCols,
      cellAt { sketch with cells := List.zipWith FoldCell.mergeFrom sketch.cells other.cells }
        row foldCol = FoldCell.mergeFrom (cellAt sketch row foldCol) (cellAt other row foldCol) :=
    fun _ rowInside _ colInside => cellAt_zipWith holds.placed.shaped otherHolds.placed.shaped
      sameRows sameFold rowInside colInside
  have otherFiled : ∀ row < sketch.rows, ∀ foldCol < sketch.foldCols,
      CellFiled sketch foldCol (cellAt other row foldCol) := by
    intro row rowInside foldCol colInside
    have filed := otherHolds.placed.filed row (sameRows ▸ rowInside) foldCol (sameFold ▸ colInside)
    unfold CellFiled foldColOf at filed ⊢
    rw [sameCols, sameFold]
    exact filed
  refine ⟨⟨⟨?_, holds.placed.shaped.folded⟩, holds.placed.positive, holds.placed.width,
    holds.placed.level, ?_⟩, holds.rowsEq, holds.colsEq, holds.levelEq, ?_⟩
  · show (List.zipWith _ _ _).length = _
    rw [List.length_zipWith, holds.placed.shaped.sized, otherHolds.placed.shaped.sized, sameRows,
      sameFold, min_self]
  · intro row rowInside foldCol colInside
    rw [merged row rowInside foldCol colInside]
    exact (holds.placed.filed row rowInside foldCol colInside).mergeFrom
      (otherFiled row rowInside foldCol colInside)
  · intro row rowInside col
    have inside : row < sketch.rows := holds.rowsEq ▸ rowInside
    have colInside : foldColOf sketch col < sketch.foldCols := foldColOf_lt holds.placed.shaped col
    have sameFoldCol : foldColOf sketch col = foldColOf other col := by
      unfold foldColOf
      rw [sameFold]
    refine (congrArg (FoldCell.query col) (merged row inside _ colInside)).trans ?_
    rw [FoldCell.query_mergeFrom col _ (otherFiled row inside _ colInside).distinct,
      ← holds.answers row rowInside col, ← otherHolds.answers row rowInside col]
    unfold held
    rw [sameFoldCol]

theorem Holds.unfoldMerge (holds : Holds rows fullCols (foldLevel + 1) sketch total)
    (otherHolds : Holds rows fullCols (foldLevel + 1) other otherTotal) :
    ∃ result, unfoldMerge xxh query sketch other = some result ∧
      Holds rows fullCols foldLevel result fun row col => total row col + otherTotal row col := by
  have sameRows : sketch.rows = other.rows := holds.rowsEq.trans otherHolds.rowsEq.symm
  have sameCols : sketch.fullCols = other.fullCols := holds.colsEq.trans otherHolds.colsEq.symm
  have sameLevel : sketch.foldLevel = other.foldLevel :=
    holds.levelEq.trans otherHolds.levelEq.symm
  have positive : 0 < sketch.foldLevel := by
    rw [holds.levelEq]
    exact Nat.succ_pos foldLevel
  have lower : sketch.foldLevel - 1 = foldLevel := by
    rw [holds.levelEq, Nat.add_sub_cancel]
  refine ⟨_, if_pos ⟨sameRows, sameCols, sameLevel, positive⟩, ?_⟩
  refine Holds.of_sameGrid ?_ (sameGrid_foldl_reconcile xxh query _ [sketch, other])
  have empty := holds.emptyAt (Nat.le_succ foldLevel) (max sketch.heap.k other.heap.k)
  rw [lower, holds.rowsEq, holds.colsEq]
  refine (otherHolds.scatterInto (holds.scatterInto empty)).congr fun row _ col => ?_
  rw [zero_add]

theorem Holds.unfoldTo (holds : Holds rows fullCols foldLevel sketch total) {targetLevel : ℕ}
    (low : targetLevel ≤ foldLevel) :
    ∃ result, unfoldTo xxh query sketch targetLevel = some result ∧
      Holds rows fullCols targetLevel result total := by
  have allowed : targetLevel ≤ sketch.foldLevel := holds.levelEq.symm ▸ low
  unfold FoldSketch.unfoldTo
  rw [if_pos allowed]
  by_cases same : targetLevel = sketch.foldLevel
  · rw [if_pos same]
    refine ⟨sketch, rfl, ?_⟩
    rw [same, holds.levelEq]
    exact holds
  · rw [if_neg same]
    refine ⟨_, rfl, Holds.of_sameGrid ?_ (sameGrid_reconcileHeapFrom xxh query _ sketch)⟩
    rw [holds.rowsEq, holds.colsEq]
    refine (holds.scatterInto (holds.emptyAt low sketch.heap.k)).congr fun row _ col => ?_
    rw [zero_add]

theorem Holds.foldlM_scatterChecked {sources : List FoldSketch}
    (holds : Holds rows fullCols foldLevel sketch total)
    (fits : ∀ source ∈ sources, Fits rows fullCols source) :
    ∃ result, sources.foldlM scatterChecked sketch = some result ∧
      Holds rows fullCols foldLevel result fun row col =>
        total row col + totalOf sources row col := by
  induction sources generalizing sketch total with
  | nil => exact ⟨sketch, rfl, holds.congr fun row _ col => (add_zero _).symm⟩
  | cons source rest hypothesis =>
    have sourceFits : Fits rows fullCols source := fits source List.mem_cons_self
    have accepted : scatterChecked sketch source = some (FoldSketch.scatterInto source sketch) :=
      if_pos ⟨sourceFits.rowsEq.trans holds.rowsEq.symm, sourceFits.colsEq.trans holds.colsEq.symm⟩
    obtain ⟨result, runs, resultHolds⟩ := hypothesis
      (sourceFits.holds.scatterInto holds) fun other member =>
        fits other (List.mem_cons_of_mem source member)
    refine ⟨result, ?_, resultHolds.congr fun row _ col => add_assoc _ _ _⟩
    rw [List.foldlM_cons, accepted]
    exact runs

theorem hierarchicalMerge_holds {sketches : List FoldSketch} (nonempty : sketches ≠ [])
    (fits : ∀ sketch ∈ sketches, Fits rows fullCols sketch) :
    ∃ result, hierarchicalMerge xxh query sketches = some result ∧
      Holds rows fullCols 0 result (totalOf sketches) := by
  match sketches, nonempty, fits with
  | [sketch], _, fits =>
    obtain ⟨result, runs, holds⟩ :=
      (fits sketch List.mem_cons_self).holds.unfoldTo xxh query (Nat.zero_le _)
    exact ⟨result, runs, holds.congr fun row _ col => (add_zero _).symm⟩
  | first :: second :: rest, _, fits =>
    have firstFits : Fits rows fullCols first := fits first List.mem_cons_self
    have empty := firstFits.holds.emptyAt (Nat.zero_le _)
      ((first :: second :: rest).foldl (fun most sketch => max most sketch.heap.k) 0)
    obtain ⟨result, runs, holds⟩ := empty.foldlM_scatterChecked fits
    refine ⟨_, ?_, Holds.of_sameGrid ?_
      (sameGrid_foldl_reconcile xxh query result (first :: second :: rest))⟩
    · rw [← firstFits.rowsEq, ← firstFits.colsEq] at runs
      simp only [hierarchicalMerge, runs, Option.bind_eq_bind, Option.bind_some]
    · exact holds.congr fun row _ col => zero_add _

end Reconciled

/-! ### Inserts -/

/-- An insert that adds a delta of its own to the cell of the key in each row, and touches
nothing else but the heap. -/
def InsertsAs (hasher : SketchHasher) (deltaOf : ℕ → DataInput → ℤ → ℤ)
    (feed : FoldSketch → DataInput → ℤ → FoldSketch) : Prop :=
  ∀ sketch key delta,
    SameGrid (insertCells hasher sketch key fun row => deltaOf row key delta)
      (feed sketch key delta)

/-- What one insert adds to the flat counter of a row and a full column. -/
def insertTotal (hasher : SketchHasher) (deltaOf : ℕ → DataInput → ℤ → ℤ) (fullCols : ℕ)
    (key : DataInput) (delta : ℤ) (row col : ℕ) : ℤ :=
  if lower32Col (hasher.hash64Seeded row key) fullCols % 65536 = col then deltaOf row key delta
  else 0

section Inserted

variable {hasher : SketchHasher} {deltaOf : ℕ → DataInput → ℤ → ℤ}
  {feed : FoldSketch → DataInput → ℤ → FoldSketch}

section

variable (inserts : InsertsAs hasher deltaOf feed) {foldLevel : ℕ} {sketch : FoldSketch}
  {total : ℕ → ℕ → ℤ} (holds : Holds rows fullCols foldLevel sketch total)

include inserts holds

theorem Holds.insert (key : DataInput) (delta : ℤ) :
    Holds rows fullCols foldLevel (feed sketch key delta) fun row col =>
      total row col + insertTotal hasher deltaOf fullCols key delta row col := by
  refine Holds.of_sameGrid ?_ (inserts sketch key delta)
  have positive : 0 < sketch.fullCols := holds.placed.positive
  rw [insertCells_eq]
  refine (holds.received (holds.placed.foldl_insertEntry fun tagged member => ?_)).congr ?_
  · obtain ⟨row, -, rfl⟩ := List.mem_map.mp member
    exact (Nat.mod_le _ _).trans_lt (lower32Col_lt _ _ positive)
  · intro row rowInside col
    have inside : row < sketch.rows := holds.rowsEq.symm ▸ rowInside
    have tally : rowTally row col ((List.range sketch.rows).map fun row =>
        (row, (⟨fullColFor hasher sketch row key, deltaOf row key delta⟩ : FoldEntry))) =
        insertTotal hasher deltaOf fullCols key delta row col := by
      unfold rowTally
      rw [List.map_map, sum_map_range_single inside]
      · simp only [Function.comp_apply, true_and]
        unfold insertTotal fullColFor
        rw [holds.colsEq]
      · intro other _ different
        exact if_neg fun both => different both.1
    rw [tally]

theorem Holds.insertAll (stream : List (DataInput × ℤ)) :
    Holds rows fullCols foldLevel
      (stream.foldl (fun sketch entry => feed sketch entry.1 entry.2) sketch) fun row col =>
        total row col +
          (stream.map fun entry => insertTotal hasher deltaOf fullCols entry.1 entry.2 row col).sum := by
  induction stream generalizing sketch total with
  | nil => exact holds.congr fun row _ col => (add_zero _).symm
  | cons entry rest hypothesis =>
    exact (hypothesis (holds.insert inserts entry.1 entry.2)).congr
      fun row _ col => add_assoc _ _ _

end

theorem holds_new {foldLevel topK : ℕ} {sketch : FoldSketch}
    (accepted : new rows fullCols foldLevel topK = some sketch) :
    Holds rows fullCols foldLevel sketch fun _ _ => 0 := by
  unfold new at accepted
  split at accepted
  case isFalse => exact absurd accepted (by simp)
  rename_i power
  split at accepted
  case isFalse => exact absurd accepted (by simp)
  rename_i level
  obtain ⟨exponent, small, rfl⟩ := power
  rw [trailingZeros_shiftLeft small] at level
  rw [← Option.some.inj accepted]
  exact holds_emptyAt (by rw [Nat.shiftLeft_eq, one_mul]) level rows topK

end Inserted

end FoldSketch

/-! ### Trees of operations -/

/-- A sketch fed directly: fresh from the constructor, then a stream of inserts. -/
structure FoldLeaf (feed : FoldSketch → DataInput → ℤ → FoldSketch) (rows fullCols : ℕ) where
  sketch : FoldSketch
  fed : ∃ foldLevel topK, ∃ stream : List (DataInput × ℤ), ∃ fresh,
     FoldSketch.new rows fullCols foldLevel topK = some fresh ∧
      sketch = stream.foldl (fun sketch entry => feed sketch entry.1 entry.2) fresh

/-- A tree of operations on sketches of these dimensions. -/
inductive FoldTree (feed : FoldSketch → DataInput → ℤ → FoldSketch) (rows fullCols : ℕ) where
  | leaf (source : FoldLeaf feed rows fullCols)
  | insert (tree : FoldTree feed rows fullCols) (key : DataInput) (delta : ℤ)
  | mergeSameLevel (left right : FoldTree feed rows fullCols)
  | unfoldMerge (left right : FoldTree feed rows fullCols)
  | unfoldTo (tree : FoldTree feed rows fullCols) (targetLevel : ℕ)
  | hierarchicalMerge (count : ℕ) (trees : Fin count → FoldTree feed rows fullCols)

namespace FoldTree

open FoldSketch

section Build

variable {feed : FoldSketch → DataInput → ℤ → FoldSketch} {rows fullCols : ℕ}

/-- Runs the operations of a tree; an assertion that fails stops it. -/
def build (xxh : XxHash3) (query : FoldSketch → DataInput → ℤ) :
    FoldTree feed rows fullCols → Option FoldSketch
  | .leaf source => some source.sketch
  | .insert tree key delta => (build xxh query tree).map fun sketch => feed sketch key delta
  | mergeSameLevel left right => do
    FoldSketch.mergeSameLevel xxh query (← build xxh query left) (← build xxh query right)
  | unfoldMerge left right => do
    FoldSketch.unfoldMerge xxh query (← build xxh query left) (← build xxh query right)
  | unfoldTo tree targetLevel => do
    FoldSketch.unfoldTo xxh query (← build xxh query tree) targetLevel
  | hierarchicalMerge _ trees => do
    FoldSketch.hierarchicalMerge xxh query
      (← (List.ofFn fun index => build xxh query (trees index)).mapM id)

/-- The fold level a tree ends at, where its merges meet sketches of equal levels and its
unfoldings go down. -/
def level : FoldTree feed rows fullCols → Option ℕ
  | .leaf source => some source.sketch.foldLevel
  | .insert tree _ _ => level tree
  | mergeSameLevel left right => do
    let leftLevel ← level left
    let rightLevel ← level right
    if leftLevel = rightLevel then some leftLevel else none
  | unfoldMerge left right => do
    let leftLevel ← level left
    let rightLevel ← level right
    if leftLevel = rightLevel ∧ 0 < leftLevel then some (leftLevel - 1) else none
  | unfoldTo tree targetLevel => do
    let treeLevel ← level tree
    if targetLevel ≤ treeLevel then some targetLevel else none
  | hierarchicalMerge count trees =>
    if 0 < count ∧ ∀ index, (level (trees index)).isSome then some 0 else none

/-- The sketches a tree puts together: its leaves, and for each insert further up a full-width
sketch of that insert alone. -/
def leaves : FoldTree feed rows fullCols → List FoldSketch
  | .leaf source => [source.sketch]
  | .insert tree key delta => leaves tree ++ [feed (emptyAt rows fullCols 0 0) key delta]
  | mergeSameLevel left right => leaves left ++ leaves right
  | unfoldMerge left right => leaves left ++ leaves right
  | unfoldTo tree _ => leaves tree
  | hierarchicalMerge _ trees => (List.ofFn fun index => leaves (trees index)).flatten

end Build

/-! ### The homomorphism -/

section Homomorphism

variable {hasher : SketchHasher} {deltaOf : ℕ → DataInput → ℤ → ℤ}
  {feed : FoldSketch → DataInput → ℤ → FoldSketch} {rows fullCols : ℕ}

theorem leaf_holds (inserts : InsertsAs hasher deltaOf feed) (source : FoldLeaf feed rows fullCols) :
    Fits rows fullCols source.sketch := by
  obtain ⟨foldLevel, topK, stream, fresh, accepted, fed⟩ := source.fed
  rw [fed]
  exact ((holds_new accepted).insertAll inserts stream).fits

theorem mapM_ofFn {Elem : Type} {count : ℕ} {attempt : Fin count → Option Elem}
    {value : Fin count → Elem} (runs : ∀ index, attempt index = some (value index)) :
    (List.ofFn attempt).mapM id = some (List.ofFn value) := by
  induction count with
  | zero => rfl
  | succ count hypothesis =>
    rw [List.ofFn_succ, List.ofFn_succ, List.mapM_cons,
      hypothesis fun index => runs index.succ, id, runs 0]
    rfl

theorem totalOf_flatten {count : ℕ} {leavesOf : Fin count → List FoldSketch}
    {value : Fin count → FoldSketch} {row : ℕ} {col : ℕ}
    (same : ∀ index, held (value index) row col = totalOf (leavesOf index) row col) :
    totalOf (List.ofFn value) row col = totalOf (List.ofFn leavesOf).flatten row col := by
  induction count with
  | zero => rfl
  | succ count hypothesis =>
    rw [List.ofFn_succ, List.ofFn_succ, List.flatten_cons, totalOf_append, ← same 0,
      ← hypothesis fun index => same index.succ]
    rfl

/-- Where its levels match, a tree builds a sketch that answers the sum of its leaves. -/
theorem build_holds (inserts : InsertsAs hasher deltaOf feed) (xxh : XxHash3)
    (query : FoldSketch → DataInput → ℤ) (tree : FoldTree feed rows fullCols) (foldLevel : ℕ)
    (levelled : level tree = some foldLevel) :
    (∃ sketch, build xxh query tree = some sketch ∧
        Holds rows fullCols foldLevel sketch (totalOf (leaves tree))) ∧
      ∀ sketch ∈ leaves tree, Fits rows fullCols sketch := by
  induction tree generalizing foldLevel with
  | leaf source =>
    have fits := leaf_holds inserts source
    obtain rfl := Option.some.inj levelled
    refine ⟨⟨source.sketch, rfl, fits.holds.congr fun row _ col => (add_zero _).symm⟩, ?_⟩
    intro sketch member
    rw [List.mem_singleton.mp member]
    exact fits
  | insert tree key delta hypothesis =>
    obtain ⟨⟨sketch, built, holds⟩, fits⟩ := hypothesis foldLevel levelled
    have single := (holds.emptyAt (Nat.zero_le foldLevel) 0).insert inserts key delta
    refine ⟨⟨feed sketch key delta, ?_, (holds.insert inserts key delta).congr ?_⟩, ?_⟩
    · simp only [build, built, Option.map_some]
    · intro row rowInside col
      rw [leaves, totalOf_append]
      have last : totalOf [feed (emptyAt rows fullCols 0 0) key delta] row col = _ :=
        (add_zero _).trans (single.answers row rowInside col)
      rw [last, zero_add]
    · intro other member
      rcases List.mem_append.mp member with inside | last
      · exact fits other inside
      · rw [List.mem_singleton.mp last]
        exact single.fits
  | mergeSameLevel left right leftHypothesis rightHypothesis =>
    obtain ⟨leftLevel, leftLevelled, rest⟩ := Option.bind_eq_some_iff.mp levelled
    obtain ⟨rightLevel, rightLevelled, test⟩ := Option.bind_eq_some_iff.mp rest
    obtain ⟨same, result⟩ := Option.ite_none_right_eq_some.mp test
    obtain rfl : leftLevel = foldLevel := Option.some.inj result
    obtain ⟨⟨first, leftBuilt, leftHolds⟩, leftFits⟩ := leftHypothesis leftLevel leftLevelled
    obtain ⟨⟨second, rightBuilt, rightHolds⟩, rightFits⟩ :=
      rightHypothesis leftLevel (same ▸ rightLevelled)
    obtain ⟨merged, runs, holds⟩ := leftHolds.mergeSameLevel xxh query rightHolds
    refine ⟨⟨merged, ?_, holds.congr fun row _ col => (totalOf_append _ _ row col).symm⟩, ?_⟩
    · simp only [build, leftBuilt, rightBuilt, Option.bind_eq_bind, Option.bind_some, runs]
    · exact fun sketch member => (List.mem_append.mp member).elim (leftFits sketch) (rightFits sketch)
  | unfoldMerge left right leftHypothesis rightHypothesis =>
    obtain ⟨leftLevel, leftLevelled, rest⟩ := Option.bind_eq_some_iff.mp levelled
    obtain ⟨rightLevel, rightLevelled, test⟩ := Option.bind_eq_some_iff.mp rest
    obtain ⟨⟨same, positive⟩, result⟩ := Option.ite_none_right_eq_some.mp test
    obtain rfl : leftLevel - 1 = foldLevel := Option.some.inj result
    have whole : leftLevel - 1 + 1 = leftLevel := Nat.sub_add_cancel positive
    rw [← same] at rightLevelled
    rw [← whole] at leftLevelled rightLevelled
    obtain ⟨⟨first, leftBuilt, leftHolds⟩, leftFits⟩ := leftHypothesis _ leftLevelled
    obtain ⟨⟨second, rightBuilt, rightHolds⟩, rightFits⟩ := rightHypothesis _ rightLevelled
    obtain ⟨merged, runs, holds⟩ := leftHolds.unfoldMerge xxh query rightHolds
    refine ⟨⟨merged, ?_, holds.congr fun row _ col => (totalOf_append _ _ row col).symm⟩, ?_⟩
    · simp only [build, leftBuilt, rightBuilt, Option.bind_eq_bind, Option.bind_some, runs]
    · exact fun sketch member => (List.mem_append.mp member).elim (leftFits sketch) (rightFits sketch)
  | unfoldTo tree targetLevel hypothesis =>
    obtain ⟨treeLevel, treeLevelled, test⟩ := Option.bind_eq_some_iff.mp levelled
    obtain ⟨low, result⟩ := Option.ite_none_right_eq_some.mp test
    obtain rfl : targetLevel = foldLevel := Option.some.inj result
    obtain ⟨⟨sketch, built, holds⟩, fits⟩ := hypothesis treeLevel treeLevelled
    obtain ⟨unfolded, runs, unfoldedHolds⟩ := holds.unfoldTo xxh query low
    refine ⟨⟨unfolded, ?_, unfoldedHolds⟩, fits⟩
    simp only [build, built, Option.bind_eq_bind, Option.bind_some, runs]
  | hierarchicalMerge count trees hypothesis =>
    obtain ⟨⟨positive, levels⟩, result⟩ := Option.ite_none_right_eq_some.mp levelled
    obtain rfl : 0 = foldLevel := Option.some.inj result
    have each : ∀ index, ∃ treeLevel,
        (∃ sketch, build xxh query (trees index) = some sketch ∧
          Holds rows fullCols treeLevel sketch (totalOf (leaves (trees index)))) ∧
        ∀ sketch ∈ leaves (trees index), Fits rows fullCols sketch := by
      intro index
      obtain ⟨treeLevel, treeLevelled⟩ := Option.isSome_iff_exists.mp (levels index)
      exact ⟨treeLevel, hypothesis index treeLevel treeLevelled⟩
    choose levelOf each using each
    choose sketchOf built holds using fun index => (each index).1
    have nonempty : List.ofFn sketchOf ≠ [] := fun empty =>
      Nat.ne_of_gt positive (List.ofFn_eq_nil_iff.mp empty)
    have fits : ∀ sketch ∈ List.ofFn sketchOf, Fits rows fullCols sketch := by
      intro sketch member
      obtain ⟨index, rfl⟩ := List.mem_ofFn.mp member
      exact (holds index).fits
    obtain ⟨merged, runs, mergedHolds⟩ := hierarchicalMerge_holds xxh query nonempty fits
    refine ⟨⟨merged, ?_, mergedHolds.congr fun row rowInside col =>
      totalOf_flatten fun index => (holds index).answers row rowInside col⟩, ?_⟩
    · simp only [build, mapM_ofFn built, Option.bind_eq_bind, Option.bind_some, runs]
    · intro sketch member
      obtain ⟨leavesOf, ofTree, inside⟩ := List.mem_flatten.mp member
      obtain ⟨index, rfl⟩ := List.mem_ofFn.mp ofTree
      exact (each index).2 sketch inside

end Homomorphism

end FoldTree

/-! ### Queries from the flat counters -/

namespace FoldSketch

def flatCounter (sketch : FoldSketch) (row col : ℕ) : ℤ :=
  ((toFlatCounters sketch)[row * sketch.fullCols + col]?).getD 0

/-- No cell holds two entries of one full column, nor an entry of a full column that folds onto
another physical column. -/
def Separated (sketch : FoldSketch) : Prop :=
  ∀ row < sketch.rows, ∀ foldCol < sketch.foldCols,
    (FoldCell.tags (cellAt sketch row foldCol)).Nodup ∧
      ∀ tag ∈ FoldCell.tags (cellAt sketch row foldCol), tag % sketch.foldCols = foldCol

variable {sketch : FoldSketch}

theorem WellPlaced.separated (placed : WellPlaced sketch) : Separated sketch := by
  intro row rowInside foldCol colInside
  have filed := placed.filed row rowInside foldCol colInside
  refine ⟨filed.distinct, fun tag member => ?_⟩
  rw [← foldColOf_eq_mod placed.shaped]
  exact (filed.accepted tag member).2

theorem WellPlaced.rowCount_eq (placed : WellPlaced sketch) (hasher : SketchHasher)
    (key : DataInput) {row : ℕ} (rowInside : row < sketch.rows) :
    rowCount hasher sketch key row = flatCounter sketch row (fullColFor hasher sketch row key) := by
  have colInside : fullColFor hasher sketch row key < sketch.fullCols :=
    (Nat.mod_le _ _).trans_lt (lower32Col_lt _ _ placed.positive)
  unfold flatCounter
  rw [placed.toFlatCounters_eq, getElem?_flatOf rowInside colInside]
  rfl

/-- What a tree of operations owes the flat counters of its leaves, for the query of a sketch and
the estimate it reads off one counter for each row. -/
structure Homomorphic (hasher : SketchHasher) (query : FoldSketch → DataInput → ℤ)
    (estimate : DataInput → (ℕ → ℤ) → ℤ) (size : ℕ) (leaves : List FoldSketch)
    (sketch : FoldSketch) : Prop where
  flat : toFlatCounters sketch = sumCounters size (leaves.map toFlatCounters)
  queried : ∀ key, query sketch key =
    estimate key fun row => flatCounter sketch row (fullColFor hasher sketch row key)
  separated : Separated sketch

end FoldSketch

theorem FoldTree.build_homomorphic {hasher : SketchHasher} {xxh : XxHash3}
    {deltaOf : ℕ → DataInput → ℤ → ℤ} {feed : FoldSketch → DataInput → ℤ → FoldSketch}
    (inserts : FoldSketch.InsertsAs hasher deltaOf feed) {query : FoldSketch → DataInput → ℤ}
    {estimate : DataInput → (ℕ → ℤ) → ℤ} {rows fullCols : ℕ}
    (reads : ∀ sketch : FoldSketch, sketch.rows = rows → ∀ key,
      query sketch key = estimate key (FoldSketch.rowCount hasher sketch key))
    (rowwise : ∀ key valueOf valueOf', (∀ row < rows, valueOf row = valueOf' row) →
      estimate key valueOf = estimate key valueOf')
    (tree : FoldTree feed rows fullCols) {foldLevel : ℕ}
    (levelled : tree.level = some foldLevel) :
    ∃ sketch, tree.build xxh query = some sketch ∧ sketch.foldLevel = foldLevel ∧
      FoldSketch.Homomorphic hasher query estimate (rows * fullCols) tree.leaves sketch := by
  obtain ⟨⟨sketch, built, holds⟩, fits⟩ := build_holds inserts xxh query tree foldLevel levelled
  refine ⟨sketch, built, holds.levelEq, ?_, fun key => ?_, holds.placed.separated⟩
  · rw [holds.toFlatCounters_eq, FoldSketch.sumCounters_map fits]
  · rw [reads sketch holds.rowsEq key]
    exact rowwise key _ _ fun row rowInside =>
      holds.placed.rowCount_eq hasher key (holds.rowsEq ▸ rowInside)

/-! ### Both sketches -/

/-- The minimum over the rows, from `i64::MAX` down. -/
def FoldCMS.minimumOf (rows : ℕ) (_ : DataInput) (counterOf : ℕ → ℤ) : ℤ :=
  runningMin counterOf (List.range rows) i64Max

/-- The median of the sign-corrected rows as `f64`, truncated to `i64`. -/
def FoldCS.medianOf (hasher : SketchHasher) (rows : ℕ) (key : DataInput) (counterOf : ℕ → ℤ) : ℤ :=
  f64AsI64 (Median.sortMedian meanF64 0 ((List.range rows).map fun row =>
    intAsF64 (rowSign (hasher.hash64Seeded row key) * counterOf row)))

theorem FoldCMS.insertsAs (hasher : SketchHasher) (xxh : XxHash3) :
    FoldSketch.InsertsAs hasher (fun _ _ delta => delta) (insert hasher xxh) :=
  fun _ _ _ => ⟨rfl, rfl, rfl, rfl, rfl⟩

theorem FoldCS.insertsAs (hasher : SketchHasher) (xxh : XxHash3) :
    FoldSketch.InsertsAs hasher
      (fun row key delta => rowSign (hasher.hash64Seeded row key) * delta) (insert hasher xxh) :=
  fun _ _ _ => ⟨rfl, rfl, rfl, rfl, rfl⟩

theorem FoldCMS.minimumOf_congr (rows : ℕ) (key : DataInput) (counterOf counterOf' : ℕ → ℤ)
    (same : ∀ row < rows, counterOf row = counterOf' row) :
    minimumOf rows key counterOf = minimumOf rows key counterOf' :=
  runningMin_congr i64Max fun row member => same row (List.mem_range.mp member)

theorem FoldCS.medianOf_congr (hasher : SketchHasher) (rows : ℕ) (key : DataInput)
    (counterOf counterOf' : ℕ → ℤ) (same : ∀ row < rows, counterOf row = counterOf' row) :
    medianOf hasher rows key counterOf = medianOf hasher rows key counterOf' := by
  have sameRows : ((List.range rows).map fun row =>
        intAsF64 (rowSign (hasher.hash64Seeded row key) * counterOf row)) =
      (List.range rows).map fun row =>
        intAsF64 (rowSign (hasher.hash64Seeded row key) * counterOf' row) :=
    List.map_congr_left fun row member => by rw [same row (List.mem_range.mp member)]
  unfold medianOf
  rw [sameRows]

theorem FoldCMS.query_eq_minimumOf (hasher : SketchHasher) {rows : ℕ} (sketch : FoldCMS)
    (rowsEq : sketch.rows = rows) (key : DataInput) :
    query hasher sketch key = minimumOf rows key (FoldSketch.rowCount hasher sketch key) := by
  rw [← rowsEq]
  rfl

theorem FoldCS.query_eq_medianOf (hasher : SketchHasher) {rows : ℕ} (sketch : FoldCS)
    (rowsEq : sketch.rows = rows) (key : DataInput) :
    query hasher sketch key = medianOf hasher rows key (FoldSketch.rowCount hasher sketch key) := by
  unfold query medianOf
  rw [Median.computeMedianInline_eq _ _ meanF64_comm, ← rowsEq]
  rfl

/-- Merging folded sketches, along any tree whose levels match, is a homomorphism onto the flat
counters, from which every query is answered. -/
theorem fold_merge_homomorphism (hasher : SketchHasher) (xxh : XxHash3) (rows fullCols : ℕ) :
    (∀ (tree : FoldTree (FoldCMS.insert hasher xxh) rows fullCols) (foldLevel : ℕ),
        tree.level = some foldLevel →
        ∃ sketch, tree.build xxh (FoldCMS.query hasher) = some sketch ∧
          sketch.foldLevel = foldLevel ∧
          FoldSketch.Homomorphic hasher (FoldCMS.query hasher) (FoldCMS.minimumOf rows)
            (rows * fullCols) tree.leaves sketch) ∧
      ∀ (tree : FoldTree (FoldCS.insert hasher xxh) rows fullCols) (foldLevel : ℕ),
        tree.level = some foldLevel →
        ∃ sketch, tree.build xxh (FoldCS.query hasher) = some sketch ∧
          sketch.foldLevel = foldLevel ∧
          FoldSketch.Homomorphic hasher (FoldCS.query hasher) (FoldCS.medianOf hasher rows)
            (rows * fullCols) tree.leaves sketch :=
  ⟨fun tree _ levelled => tree.build_homomorphic (FoldCMS.insertsAs hasher xxh)
      (FoldCMS.query_eq_minimumOf hasher) (FoldCMS.minimumOf_congr rows) levelled,
    fun tree _ levelled => tree.build_homomorphic (FoldCS.insertsAs hasher xxh)
      (FoldCS.query_eq_medianOf hasher) (FoldCS.medianOf_congr hasher rows) levelled⟩

/-- A sketch of two rows and eight columns folded once, fed one key. -/
def smallLeaf (feed : FoldSketch → DataInput → ℤ → FoldSketch) (key : DataInput) :
    FoldLeaf feed 2 8 where
  sketch := feed (FoldSketch.emptyAt 2 8 1 4) key 5
  fed := ⟨1, 4, [(key, 5)], _, rfl, rfl⟩

/-- Leaves of level 1 merged there, unfolded into level 0 twice over, and put together. -/
def smallTree (feed : FoldSketch → DataInput → ℤ → FoldSketch) : FoldTree feed 2 8 :=
  .hierarchicalMerge 2 fun
    | 0 => .insert (.mergeSameLevel (.leaf (smallLeaf feed (.u8 1))) (.leaf (smallLeaf feed (.u8 2))))
        (.u8 3) 7
    | 1 => .unfoldMerge (.leaf (smallLeaf feed (.u8 1)))
        (.unfoldTo (.leaf (smallLeaf feed (.u8 3))) 1)

theorem fold_merge_homomorphism_small :
    (∃ sketch, (smallTree (FoldCMS.insert wideHasher plainXxHash)).build plainXxHash
        (FoldCMS.query wideHasher) = some sketch ∧ sketch.foldLevel = 0) ∧
      ∃ sketch, (smallTree (FoldCS.insert wideHasher plainXxHash)).build plainXxHash
        (FoldCS.query wideHasher) = some sketch ∧ sketch.foldLevel = 0 :=
  have both := fold_merge_homomorphism wideHasher plainXxHash 2 8
  ⟨(both.1 (smallTree _) 0 (by decide)).imp fun _ merged => ⟨merged.1, merged.2.1⟩,
    (both.2 (smallTree _) 0 (by decide)).imp fun _ merged => ⟨merged.1, merged.2.1⟩⟩

end AsapSketchlib
