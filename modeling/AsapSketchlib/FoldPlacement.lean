/-
This file proves that the merges of the folding sketches lose, duplicate and misplace no
entry. In every sketch the operations build, a cell holds one entry for each tag and only tags
whose low bits are its physical column, so what it answers for a tag is the flat counter of
that full column. Scattering adds the flat counters of the source to those of the target,
whatever the two fold levels are.
-/

import AsapSketchlib.FoldExactness
import AsapSketchlib.FoldMerge
import Mathlib.Algebra.BigOperators.Group.Finset.Basic

namespace AsapSketchlib

/-! ### Entries of a cell -/

namespace FoldCell

def tags (cell : FoldCell) : List ℕ := (iter cell).map FoldEntry.fullCol

/-- What the entries with a tag add up to. -/
def tally (asked : ℕ) (entries : List FoldEntry) : ℤ :=
  (entries.map fun entry => if entry.fullCol = asked then entry.count else 0).sum

theorem tally_cons (asked : ℕ) (entry : FoldEntry) (rest : List FoldEntry) :
    tally asked (entry :: rest) =
      (if entry.fullCol = asked then entry.count else 0) + tally asked rest := rfl

theorem tally_of_absent {asked : ℕ} {entries : List FoldEntry}
    (absent : ∀ entry ∈ entries, entry.fullCol ≠ asked) : tally asked entries = 0 := by
  refine List.sum_eq_zero fun value member => ?_
  obtain ⟨entry, inside, rfl⟩ := List.mem_map.mp member
  exact if_neg (absent entry inside)

theorem entryCount_eq_tally (asked : ℕ) {entries : List FoldEntry}
    (distinct : (entries.map FoldEntry.fullCol).Nodup) :
    entryCount asked entries = tally asked entries := by
  induction entries with
  | nil => rfl
  | cons entry rest hypothesis =>
    obtain ⟨fresh, distinctRest⟩ := List.nodup_cons.mp distinct
    rw [entryCount, tally_cons]
    by_cases here : entry.fullCol = asked
    · have absent : tally asked rest = 0 := by
        refine tally_of_absent fun other inside same => fresh ?_
        rw [here, ← same]
        exact List.mem_map_of_mem inside
      rw [if_pos here, if_pos here, absent, add_zero]
    · rw [if_neg here, if_neg here, zero_add, hypothesis distinctRest]

theorem query_eq_tally (asked : ℕ) {cell : FoldCell} (distinct : (tags cell).Nodup) :
    query asked cell = tally asked (iter cell) := by
  cases cell with
  | empty => rfl
  | single fullCol count => exact (add_zero _).symm
  | collided entries => exact entryCount_eq_tally asked distinct

theorem map_addEntry (fullCol : ℕ) (delta : ℤ) (entries : List FoldEntry) :
    (addEntry fullCol delta entries).map FoldEntry.fullCol =
      if fullCol ∈ entries.map FoldEntry.fullCol then entries.map FoldEntry.fullCol
      else entries.map FoldEntry.fullCol ++ [fullCol] := by
  induction entries with
  | nil => rfl
  | cons entry rest hypothesis =>
    rw [addEntry]
    by_cases here : entry.fullCol = fullCol
    · have member : fullCol ∈ (entry :: rest).map FoldEntry.fullCol := by
        rw [List.map_cons, here]
        exact List.mem_cons_self
      rw [if_pos here, if_pos member]
      rfl
    · rw [if_neg here, List.map_cons, hypothesis, List.map_cons]
      by_cases inRest : fullCol ∈ rest.map FoldEntry.fullCol
      · rw [if_pos inRest, if_pos (List.mem_cons_of_mem _ inRest)]
      · have absent : fullCol ∉ entry.fullCol :: rest.map FoldEntry.fullCol := by
          rw [List.mem_cons]
          rintro (same | inside)
          · exact here same.symm
          · exact inRest inside
        rw [if_neg inRest, if_neg absent]
        rfl

theorem tags_insert (fullCol : ℕ) (delta : ℤ) (cell : FoldCell) :
    tags (insert fullCol delta cell) =
      if fullCol ∈ tags cell then tags cell else tags cell ++ [fullCol] := by
  cases cell with
  | empty => rfl
  | single existingCol count =>
    have held : tags (.single existingCol count) = [existingCol] := rfl
    rw [insert, held]
    by_cases same : existingCol = fullCol
    · rw [if_pos same, if_pos (List.mem_singleton.mpr same.symm)]
      rfl
    · rw [if_neg same, if_neg (fun member => same (List.mem_singleton.mp member).symm)]
      rfl
  | collided entries => exact map_addEntry fullCol delta entries

theorem nodup_tags_insert {fullCol : ℕ} {delta : ℤ} {cell : FoldCell}
    (distinct : (tags cell).Nodup) : (tags (insert fullCol delta cell)).Nodup := by
  rw [tags_insert]
  split
  · exact distinct
  · rename_i fresh
    exact List.nodup_append.mpr ⟨distinct, List.nodup_singleton _, fun tag member other last same =>
      fresh (List.mem_singleton.mp last ▸ same ▸ member)⟩

theorem mem_tags_insert {fullCol tag : ℕ} {delta : ℤ} {cell : FoldCell}
    (member : tag ∈ tags (insert fullCol delta cell)) : tag ∈ tags cell ∨ tag = fullCol := by
  rw [tags_insert] at member
  split at member
  · exact Or.inl member
  · rcases List.mem_append.mp member with inside | last
    · exact Or.inl inside
    · exact Or.inr (List.mem_singleton.mp last)

theorem mergeFrom_eq (cell other : FoldCell) :
    mergeFrom cell other =
      (iter other).foldl (fun cell entry => insert entry.fullCol entry.count cell) cell := by
  cases other <;> rfl

theorem query_foldl_insert (asked : ℕ) (entries : List FoldEntry) (cell : FoldCell) :
    query asked (entries.foldl (fun cell entry => insert entry.fullCol entry.count cell) cell) =
      query asked cell + tally asked entries := by
  induction entries generalizing cell with
  | nil => exact (add_zero _).symm
  | cons entry rest hypothesis =>
    rw [List.foldl_cons, hypothesis, query_insert, tally_cons, add_assoc]

theorem query_mergeFrom (asked : ℕ) (cell : FoldCell) {other : FoldCell}
    (distinct : (tags other).Nodup) :
    query asked (mergeFrom cell other) = query asked cell + query asked other := by
  rw [mergeFrom_eq, query_foldl_insert, ← query_eq_tally asked distinct]

/-- A cell with one entry for each tag, all of whose tags pass a test. -/
structure Filed (accepts : ℕ → Prop) (cell : FoldCell) : Prop where
  distinct : (tags cell).Nodup
  accepted : ∀ tag ∈ tags cell, accepts tag

variable {accepts : ℕ → Prop}

theorem filed_empty : Filed accepts empty := ⟨List.nodup_nil, fun _ member => nomatch member⟩

theorem Filed.insert {cell : FoldCell} (filed : Filed accepts cell) {fullCol : ℕ}
    (right : accepts fullCol) (delta : ℤ) : Filed accepts (insert fullCol delta cell) :=
  ⟨nodup_tags_insert filed.distinct, fun tag member =>
    (mem_tags_insert member).elim (filed.accepted tag) fun same => same ▸ right⟩

theorem Filed.foldl_insert {cell : FoldCell} (filed : Filed accepts cell)
    {entries : List FoldEntry} (right : ∀ entry ∈ entries, accepts entry.fullCol) :
    Filed accepts
      (entries.foldl (fun cell entry => FoldCell.insert entry.fullCol entry.count cell) cell) := by
  induction entries generalizing cell with
  | nil => exact filed
  | cons entry rest hypothesis =>
    exact hypothesis (filed.insert (right entry List.mem_cons_self) entry.count)
      fun other inside => right other (List.mem_cons_of_mem entry inside)

theorem Filed.mergeFrom {cell other : FoldCell} (filed : Filed accepts cell)
    (otherFiled : Filed accepts other) : Filed accepts (mergeFrom cell other) := by
  rw [mergeFrom_eq]
  exact filed.foldl_insert fun entry inside =>
    otherFiled.accepted entry.fullCol (List.mem_map_of_mem inside)

end FoldCell

namespace FoldSketch

/-! ### Where the entries stand -/

def held (sketch : FoldSketch) (row col : ℕ) : ℤ :=
  FoldCell.query col (cellAt sketch row (foldColOf sketch col))

/-- The cell at a physical column holds one entry for each tag, and only full columns that fold
onto it. -/
def CellFiled (sketch : FoldSketch) (foldCol : ℕ) : FoldCell → Prop :=
  FoldCell.Filed fun tag => tag < sketch.fullCols ∧ foldColOf sketch tag = foldCol

/-- The invariant of every folded sketch the operations build. -/
structure WellPlaced (sketch : FoldSketch) : Prop where
  shaped : Shaped sketch
  positive : 0 < sketch.fullCols
  width : sketch.foldCols = sketch.fullCols >>> sketch.foldLevel
  level : 2 ^ sketch.foldLevel ∣ sketch.fullCols
  filed : ∀ row < sketch.rows, ∀ foldCol < sketch.foldCols,
    CellFiled sketch foldCol (cellAt sketch row foldCol)

variable {sketch : FoldSketch}

theorem foldColOf_eq_mod (shaped : Shaped sketch) (fullCol : ℕ) :
    foldColOf sketch fullCol = fullCol % sketch.foldCols := by
  obtain ⟨exponent, power⟩ := shaped.folded
  unfold foldColOf
  rw [power, Nat.and_two_pow_sub_one_eq_mod]

/-- What the sketch keeps of a merge or an insert, which change its cells and its heap only. -/
structure SameGrid (sketch other : FoldSketch) : Prop where
  rows : sketch.rows = other.rows
  foldCols : sketch.foldCols = other.foldCols
  fullCols : sketch.fullCols = other.fullCols
  foldLevel : sketch.foldLevel = other.foldLevel
  cells : sketch.cells = other.cells

theorem WellPlaced.of_sameGrid {other : FoldSketch} (placed : WellPlaced sketch)
    (same : SameGrid sketch other) : WellPlaced other := by
  obtain ⟨rows, foldCols, fullCols, foldLevel, cells, heap⟩ := sketch
  obtain ⟨otherRows, otherFoldCols, otherFullCols, otherFoldLevel, otherCells, otherHeap⟩ := other
  obtain ⟨sameRows, sameFoldCols, sameFullCols, sameLevel, sameCells⟩ := same
  simp only at sameRows sameFoldCols sameFullCols sameLevel sameCells
  subst sameRows sameFoldCols sameFullCols sameLevel sameCells
  exact ⟨⟨placed.shaped.sized, placed.shaped.folded⟩, placed.positive, placed.width, placed.level,
    placed.filed⟩

/-! ### One entry -/

/-- The innermost step of every loop: one entry goes to the cell its tag folds onto. -/
def insertEntry (sketch : FoldSketch) (tagged : ℕ × FoldEntry) : FoldSketch :=
  { sketch with
    cells := sketch.cells.modify
      (tagged.1 * sketch.foldCols + foldColOf sketch tagged.2.fullCol)
      (FoldCell.insert tagged.2.fullCol tagged.2.count) }

theorem cellAt_insertEntry (shaped : Shaped sketch) (tagged : ℕ × FoldEntry) {row foldCol : ℕ}
    (rowInside : row < sketch.rows) (colInside : foldCol < sketch.foldCols) :
    cellAt (insertEntry sketch tagged) row foldCol =
      if tagged.1 = row ∧ foldColOf sketch tagged.2.fullCol = foldCol then
        FoldCell.insert tagged.2.fullCol tagged.2.count (cellAt sketch row foldCol)
      else cellAt sketch row foldCol := by
  have positionInside : row * sketch.foldCols + foldCol < sketch.cells.length := by
    rw [shaped.sized]
    exact Grid.position_lt rowInside colInside
  simp only [cellAt, insertEntry]
  by_cases here : tagged.1 = row ∧ foldColOf sketch tagged.2.fullCol = foldCol
  · rw [if_pos here, here.1, here.2, List.getElem?_modify_eq,
      List.getElem?_eq_getElem positionInside]
    rfl
  · have elsewhere : tagged.1 * sketch.foldCols + foldColOf sketch tagged.2.fullCol ≠
        row * sketch.foldCols + foldCol := fun same =>
      here (Grid.position_inj (foldColOf_lt shaped _) colInside same)
    rw [if_neg here, List.getElem?_modify_ne _ _ elsewhere]

theorem Shaped.insertEntry (shaped : Shaped sketch) (tagged : ℕ × FoldEntry) :
    Shaped (insertEntry sketch tagged) :=
  ⟨(List.length_modify _ _ _).trans shaped.sized, shaped.folded⟩

theorem WellPlaced.insertEntry (placed : WellPlaced sketch) {tagged : ℕ × FoldEntry}
    (inside : tagged.2.fullCol < sketch.fullCols) : WellPlaced (insertEntry sketch tagged) := by
  refine ⟨placed.shaped.insertEntry tagged, placed.positive, placed.width, placed.level, ?_⟩
  intro row rowInside foldCol colInside
  rw [cellAt_insertEntry placed.shaped tagged rowInside colInside]
  have filed : CellFiled sketch foldCol _ := placed.filed row rowInside foldCol colInside
  split
  · rename_i here
    exact filed.insert ⟨inside, here.2⟩ tagged.2.count
  · exact filed

theorem held_insertEntry (shaped : Shaped sketch) (tagged : ℕ × FoldEntry) {row : ℕ}
    (rowInside : row < sketch.rows) (col : ℕ) :
    held (insertEntry sketch tagged) row col =
      held sketch row col +
        if tagged.1 = row ∧ tagged.2.fullCol = col then tagged.2.count else 0 := by
  unfold held
  have read := cellAt_insertEntry shaped tagged rowInside (foldColOf_lt shaped col)
  refine (congrArg (FoldCell.query col) read).trans ?_
  by_cases here : tagged.1 = row ∧ foldColOf sketch tagged.2.fullCol = foldColOf sketch col
  · rw [if_pos here, FoldCell.query_insert]
    simp only [here.1, true_and]
  · have different : ¬(tagged.1 = row ∧ tagged.2.fullCol = col) := fun same =>
      here ⟨same.1, congrArg (foldColOf sketch) same.2⟩
    rw [if_neg here, if_neg different, add_zero]

/-! ### Many entries -/

def rowTally (row col : ℕ) (entries : List (ℕ × FoldEntry)) : ℤ :=
  (entries.map fun tagged =>
    if tagged.1 = row ∧ tagged.2.fullCol = col then tagged.2.count else 0).sum

theorem foldl_insertEntry_eq (entries : List (ℕ × FoldEntry)) :
    entries.foldl insertEntry sketch = { sketch with
      cells := entries.foldl (fun cells tagged =>
        cells.modify (tagged.1 * sketch.foldCols + foldColOf sketch tagged.2.fullCol)
          (FoldCell.insert tagged.2.fullCol tagged.2.count)) sketch.cells } := by
  induction entries generalizing sketch with
  | nil => rfl
  | cons tagged rest hypothesis =>
    rw [List.foldl_cons, hypothesis]
    rfl

theorem scatterInto_eq (source target : FoldSketch) :
    scatterInto source target = (rowEntries source).foldl insertEntry target :=
  (foldl_insertEntry_eq _).symm

theorem insertCells_eq (hasher : SketchHasher) (key : DataInput) (deltaOf : ℕ → ℤ) :
    insertCells hasher sketch key deltaOf = ((List.range sketch.rows).map fun row =>
      (row, (⟨fullColFor hasher sketch row key, deltaOf row⟩ : FoldEntry))).foldl insertEntry
        sketch := by
  rw [foldl_insertEntry_eq]
  unfold insertCells
  congr 1
  generalize sketch.rows = rows
  induction rows with
  | zero => rfl
  | succ row hypothesis =>
    rw [Grid.updateRows, hypothesis, List.range_succ, List.map_append, List.foldl_append]
    rfl

/-- What a run of entries into a sketch does. -/
structure Received (entries : List (ℕ × FoldEntry)) (before after : FoldSketch) : Prop where
  placed : WellPlaced after
  rows : after.rows = before.rows
  foldCols : after.foldCols = before.foldCols
  fullCols : after.fullCols = before.fullCols
  foldLevel : after.foldLevel = before.foldLevel
  added : ∀ row < before.rows, ∀ col, held after row col = held before row col +
    rowTally row col entries

theorem WellPlaced.foldl_insertEntry (placed : WellPlaced sketch)
    {entries : List (ℕ × FoldEntry)}
    (inside : ∀ tagged ∈ entries, tagged.2.fullCol < sketch.fullCols) :
    Received entries sketch (entries.foldl FoldSketch.insertEntry sketch) := by
  induction entries generalizing sketch with
  | nil => exact ⟨placed, rfl, rfl, rfl, rfl, fun _ _ _ => (add_zero _).symm⟩
  | cons tagged rest hypothesis =>
    have first : WellPlaced (FoldSketch.insertEntry sketch tagged) :=
      placed.insertEntry (inside tagged List.mem_cons_self)
    have others : Received rest (FoldSketch.insertEntry sketch tagged) _ :=
      hypothesis first fun other member =>
        inside other (List.mem_cons_of_mem tagged member)
    refine ⟨others.placed, others.rows, others.foldCols, others.fullCols, others.foldLevel, ?_⟩
    intro row rowInside col
    rw [List.foldl_cons, others.added row rowInside col,
      held_insertEntry placed.shaped tagged rowInside col, add_assoc]
    rfl

/-! ### The entries of a whole sketch -/

theorem sum_map_range_single {count place : ℕ} (inside : place < count) {valueOf : ℕ → ℤ}
    (others : ∀ other < count, other ≠ place → valueOf other = 0) :
    ((List.range count).map valueOf).sum = valueOf place := by
  show ∑ other ∈ Finset.range count, valueOf other = valueOf place
  exact Finset.sum_eq_single_of_mem place (Finset.mem_range.mpr inside)
    fun other member different => others other (Finset.mem_range.mp member) different

theorem rowTally_flatMap {Index : Type} (row col : ℕ) (indices : List Index)
    (entriesOf : Index → List (ℕ × FoldEntry)) :
    rowTally row col (indices.flatMap entriesOf) =
      (indices.map fun index => rowTally row col (entriesOf index)).sum := by
  induction indices with
  | nil => rfl
  | cons index rest hypothesis =>
    rw [List.flatMap_cons, List.map_cons, List.sum_cons, ← hypothesis]
    unfold rowTally
    rw [List.map_append, List.sum_append]

theorem rowTally_cell (row col here : ℕ) (entries : List FoldEntry) :
    rowTally row col (entries.map fun entry => (here, entry)) =
      if here = row then FoldCell.tally col entries else 0 := by
  unfold rowTally FoldCell.tally
  rw [List.map_map]
  by_cases same : here = row
  · rw [if_pos same]
    simp only [Function.comp_def, same, true_and]
  · rw [if_neg same]
    refine List.sum_eq_zero fun value member => ?_
    obtain ⟨entry, -, rfl⟩ := List.mem_map.mp member
    exact if_neg fun both => same both.1

theorem WellPlaced.rowTally_rowEntries (placed : WellPlaced sketch) {row : ℕ}
    (rowInside : row < sketch.rows) (col : ℕ) :
    rowTally row col (rowEntries sketch) = held sketch row col := by
  have colInside : foldColOf sketch col < sketch.foldCols := foldColOf_lt placed.shaped col
  unfold rowEntries held
  rw [rowTally_flatMap, sum_map_range_single rowInside, rowTally_flatMap,
    sum_map_range_single colInside, rowTally_cell, if_pos rfl,
    FoldCell.query_eq_tally col (placed.filed row rowInside _ colInside).distinct]
  · intro other otherInside different
    rw [rowTally_cell, if_pos rfl]
    refine FoldCell.tally_of_absent fun entry member same => different ?_
    have filed : CellFiled sketch other _ := placed.filed row rowInside other otherInside
    rw [← same]
    exact (filed.accepted entry.fullCol (List.mem_map_of_mem member)).2.symm
  · intro other otherInside different
    rw [rowTally_flatMap]
    refine List.sum_eq_zero fun value member => ?_
    obtain ⟨foldCol, -, rfl⟩ := List.mem_map.mp member
    rw [rowTally_cell, if_neg different]

theorem WellPlaced.fullCol_lt (placed : WellPlaced sketch) {tagged : ℕ × FoldEntry}
    (member : tagged ∈ rowEntries sketch) :
    tagged.1 < sketch.rows ∧ tagged.2.fullCol < sketch.fullCols := by
  obtain ⟨row, rowMember, inRow⟩ := List.mem_flatMap.mp member
  obtain ⟨foldCol, colMember, inCell⟩ := List.mem_flatMap.mp inRow
  obtain ⟨entry, inside, rfl⟩ := List.mem_map.mp inCell
  have rowInside : row < sketch.rows := List.mem_range.mp rowMember
  have filed : CellFiled sketch foldCol _ :=
    placed.filed row rowInside foldCol (List.mem_range.mp colMember)
  exact ⟨rowInside, (filed.accepted entry.fullCol (List.mem_map_of_mem inside)).1⟩

theorem WellPlaced.scatterInto {source target : FoldSketch} (placed : WellPlaced source)
    (targetPlaced : WellPlaced target) (sameCols : source.fullCols = target.fullCols) :
    Received (rowEntries source) target (scatterInto source target) := by
  rw [scatterInto_eq]
  exact targetPlaced.foldl_insertEntry fun tagged member =>
    sameCols ▸ (placed.fullCol_lt member).2

/-! ### Flat counters -/

/-- The row-major array of a grid of values. -/
def flatOf (rows cols : ℕ) (valueOf : ℕ → ℕ → ℤ) : List ℤ :=
  (List.range (rows * cols)).map fun place => valueOf (place / cols) (place % cols)

def sumCounters (size : ℕ) (counters : List (List ℤ)) : List ℤ :=
  counters.foldr (List.zipWith (· + ·)) (List.replicate size 0)

theorem flatOf_congr {rows cols : ℕ} {valueOf valueOf' : ℕ → ℕ → ℤ}
    (same : ∀ row < rows, ∀ col < cols, valueOf row col = valueOf' row col) :
    flatOf rows cols valueOf = flatOf rows cols valueOf' := by
  refine List.map_congr_left fun place member => ?_
  have inside : place < rows * cols := List.mem_range.mp member
  have positive : 0 < cols := Nat.pos_of_mul_pos_left (Nat.zero_lt_of_lt inside)
  exact same _ (Nat.div_lt_of_lt_mul (Nat.mul_comm rows cols ▸ inside)) _ (Nat.mod_lt _ positive)

theorem flatOf_zero (rows cols : ℕ) : flatOf rows cols (fun _ _ => 0) =
    List.replicate (rows * cols) 0 := by
  rw [flatOf, List.map_const', List.length_range]

theorem zipWith_flatOf (rows cols : ℕ) (left right : ℕ → ℕ → ℤ) :
    List.zipWith (· + ·) (flatOf rows cols left) (flatOf rows cols right) =
      flatOf rows cols fun row col => left row col + right row col := by
  rw [flatOf, flatOf, List.zipWith_map, List.zipWith_self]
  rfl

theorem getElem?_flatOf {rows cols row col : ℕ} (rowInside : row < rows) (colInside : col < cols)
    (valueOf : ℕ → ℕ → ℤ) :
    (flatOf rows cols valueOf)[row * cols + col]? = some (valueOf row col) := by
  have positive : 0 < cols := Nat.zero_lt_of_lt colInside
  have rowOf : (row * cols + col) / cols = row := by
    rw [Nat.add_comm, Nat.add_mul_div_right _ _ positive, Nat.div_eq_of_lt colInside, Nat.zero_add]
  have colOf : (row * cols + col) % cols = col := by
    rw [Nat.add_comm, Nat.add_mul_mod_self_right, Nat.mod_eq_of_lt colInside]
  rw [flatOf, List.getElem?_map, List.getElem?_range (Grid.position_lt rowInside colInside),
    Option.map_some, rowOf, colOf]

theorem modify_flatOf {rows cols here tag : ℕ} (tagInside : tag < cols) (count : ℤ)
    (valueOf : ℕ → ℕ → ℤ) :
    (flatOf rows cols valueOf).modify (here * cols + tag) (· + count) =
      flatOf rows cols fun row col =>
        valueOf row col + if here = row ∧ tag = col then count else 0 := by
  refine List.ext_getElem? fun place => ?_
  by_cases inside : place < rows * cols
  · have positive : 0 < cols := Nat.zero_lt_of_lt tagInside
    have whole : place / cols * cols + place % cols = place := Nat.div_add_mod' place cols
    have sameIff : here * cols + tag = place ↔ here = place / cols ∧ tag = place % cols := by
      constructor
      · intro same
        rw [← whole] at same
        exact Grid.position_inj tagInside (Nat.mod_lt _ positive) same
      · rintro ⟨sameRow, sameCol⟩
        rw [sameRow, sameCol, whole]
    have read : ∀ valueOf : ℕ → ℕ → ℤ, (flatOf rows cols valueOf)[place]? =
        some (valueOf (place / cols) (place % cols)) := fun valueOf => by
      rw [flatOf, List.getElem?_map, List.getElem?_range inside, Option.map_some]
    by_cases same : here * cols + tag = place
    · rw [read, if_pos (sameIff.mp same), same, List.getElem?_modify_eq, read]
      rfl
    · rw [read, if_neg fun both => same (sameIff.mpr both), add_zero,
        List.getElem?_modify_ne _ _ same, read]
  · have short : ∀ valueOf : ℕ → ℕ → ℤ, (flatOf rows cols valueOf).length ≤ place := by
      intro valueOf
      rw [flatOf, List.length_map, List.length_range]
      exact not_lt.mp inside
    rw [List.getElem?_eq_none (short _), List.getElem?_eq_none]
    rw [List.length_modify]
    exact short _

theorem foldl_modify_flatOf {rows cols : ℕ} {entries : List (ℕ × FoldEntry)}
    (inside : ∀ tagged ∈ entries, tagged.2.fullCol < cols) (valueOf : ℕ → ℕ → ℤ) :
    entries.foldl (fun out tagged =>
        out.modify (tagged.1 * cols + tagged.2.fullCol) (· + tagged.2.count))
        (flatOf rows cols valueOf) =
      flatOf rows cols fun row col => valueOf row col + rowTally row col entries := by
  induction entries generalizing valueOf with
  | nil => exact flatOf_congr fun _ _ _ _ => (add_zero _).symm
  | cons tagged rest hypothesis =>
    rw [List.foldl_cons, modify_flatOf (inside tagged List.mem_cons_self),
      hypothesis fun other member => inside other (List.mem_cons_of_mem tagged member)]
    exact flatOf_congr fun _ _ _ _ => add_assoc _ _ _

theorem WellPlaced.toFlatCounters_eq (placed : WellPlaced sketch) :
    toFlatCounters sketch = flatOf sketch.rows sketch.fullCols (held sketch) := by
  unfold toFlatCounters
  rw [← flatOf_zero, foldl_modify_flatOf fun tagged member => (placed.fullCol_lt member).2]
  refine flatOf_congr fun row rowInside col _ => ?_
  rw [zero_add, placed.rowTally_rowEntries rowInside]

/-! ### Operations -/

/-- A well placed sketch of these dimensions that answers these totals. -/
structure Holds (rows fullCols foldLevel : ℕ) (sketch : FoldSketch) (total : ℕ → ℕ → ℤ) :
    Prop where
  placed : WellPlaced sketch
  rowsEq : sketch.rows = rows
  colsEq : sketch.fullCols = fullCols
  levelEq : sketch.foldLevel = foldLevel
  answers : ∀ row < rows, ∀ col, held sketch row col = total row col

variable {rows fullCols foldLevel : ℕ} {total : ℕ → ℕ → ℤ}

theorem Holds.toFlatCounters_eq (holds : Holds rows fullCols foldLevel sketch total) :
    toFlatCounters sketch = flatOf rows fullCols total := by
  rw [holds.placed.toFlatCounters_eq, holds.rowsEq, holds.colsEq]
  exact flatOf_congr fun row rowInside col _ => holds.answers row rowInside col

theorem Holds.of_sameGrid {other : FoldSketch} (holds : Holds rows fullCols foldLevel sketch total)
    (same : SameGrid sketch other) : Holds rows fullCols foldLevel other total := by
  refine ⟨holds.placed.of_sameGrid same, same.rows ▸ holds.rowsEq, same.fullCols ▸ holds.colsEq,
    same.foldLevel ▸ holds.levelEq, fun row rowInside col => ?_⟩
  rw [← holds.answers row rowInside col]
  simp only [held, cellAt, foldColOf, same.foldCols, same.cells]

theorem Holds.received {entries : List (ℕ × FoldEntry)} {after : FoldSketch}
    (holds : Holds rows fullCols foldLevel sketch total)
    (received : Received entries sketch after) :
    Holds rows fullCols foldLevel after fun row col => total row col + rowTally row col entries :=
  ⟨received.placed, received.rows.trans holds.rowsEq, received.fullCols.trans holds.colsEq,
    received.foldLevel.trans holds.levelEq, fun row rowInside col => by
      rw [received.added row (holds.rowsEq ▸ rowInside) col, holds.answers row rowInside col]⟩

theorem holds_emptyAt {exponent : ℕ} (power : fullCols = 2 ^ exponent) (low : foldLevel ≤ exponent)
    (rows capacity : ℕ) :
    Holds rows fullCols foldLevel (emptyAt rows fullCols foldLevel capacity) fun _ _ => 0 := by
  have folded : fullCols >>> foldLevel = 2 ^ (exponent - foldLevel) := by
    rw [power, Nat.shiftRight_eq_div_pow, Nat.pow_div low (by decide)]
  have cellEmpty : ∀ row foldCol,
      cellAt (emptyAt rows fullCols foldLevel capacity) row foldCol = FoldCell.empty := by
    intro row foldCol
    unfold cellAt emptyAt
    rw [List.getElem?_replicate]
    split <;> rfl
  refine ⟨⟨⟨List.length_replicate, exponent - foldLevel, folded⟩, ?_, rfl, ?_, ?_⟩, rfl, rfl, rfl,
    fun row _ col => ?_⟩
  · show 0 < fullCols
    rw [power]
    exact Nat.two_pow_pos exponent
  · show 2 ^ foldLevel ∣ fullCols
    rw [power]
    exact pow_dvd_pow 2 low
  · intro row _ foldCol _
    rw [cellEmpty]
    exact FoldCell.filed_empty
  · unfold held
    rw [cellEmpty]
    rfl

theorem WellPlaced.exists_power (placed : WellPlaced sketch) :
    ∃ exponent, sketch.fullCols = 2 ^ exponent ∧ sketch.foldLevel ≤ exponent := by
  obtain ⟨exponent, folded⟩ := placed.shaped.folded
  refine ⟨exponent + sketch.foldLevel, ?_, Nat.le_add_left _ _⟩
  rw [pow_add, ← folded, placed.width, Nat.shiftRight_eq_div_pow,
    Nat.div_mul_cancel placed.level]

theorem Holds.emptyAt (holds : Holds rows fullCols foldLevel sketch total) {lower : ℕ}
    (low : lower ≤ foldLevel) (capacity : ℕ) :
    Holds rows fullCols lower (emptyAt rows fullCols lower capacity) fun _ _ => 0 := by
  obtain ⟨exponent, power, level⟩ := holds.placed.exists_power
  rw [holds.colsEq] at power
  rw [holds.levelEq] at level
  exact holds_emptyAt power (low.trans level) rows capacity

theorem Holds.scatterInto {source : FoldSketch} {sourceLevel : ℕ} {sourceTotal : ℕ → ℕ → ℤ}
    (sourceHolds : Holds rows fullCols sourceLevel source sourceTotal)
    (holds : Holds rows fullCols foldLevel sketch total) :
    Holds rows fullCols foldLevel (scatterInto source sketch)
      fun row col => total row col + sourceTotal row col := by
  have received : Received (rowEntries source) sketch (FoldSketch.scatterInto source sketch) :=
    sourceHolds.placed.scatterInto holds.placed (sourceHolds.colsEq.trans holds.colsEq.symm)
  have scattered := holds.received received
  refine ⟨scattered.placed, scattered.rowsEq, scattered.colsEq, scattered.levelEq, ?_⟩
  intro row rowInside col
  rw [scattered.answers row rowInside col,
    sourceHolds.placed.rowTally_rowEntries (sourceHolds.rowsEq ▸ rowInside),
    sourceHolds.answers row rowInside col]

end FoldSketch

end AsapSketchlib
