/-
This file proves that the matrix sketches compute their reference on every storage and on both
paths. Whatever tree of inserts and merges built a sketch, each counter is a sum over the stream
of the tree, so the estimates are functions of the stream: the smallest row for Count-Min and the
median row for Count.
-/

import AsapSketchlib.StoredSketches

namespace AsapSketchlib

/-! ### Trees of updates -/

/-- How a sketch was built from fresh ones. -/
inductive UpdateTree where
  | fresh
  | insert (tree : UpdateTree) (value : DataInput)
  | insertMany (tree : UpdateTree) (value : DataInput) (many : ℤ)
  | merge (left right : UpdateTree)

namespace UpdateTree

/-- The weighted keys that were inserted. -/
def stream : UpdateTree → List (DataInput × ℤ)
  | fresh => []
  | insert tree value => (value, 1) :: tree.stream
  | insertMany tree value many => (value, many) :: tree.stream
  | merge left right => left.stream ++ right.stream

def run {Sketch : Type} (start : Sketch) (insertOne : Sketch → DataInput → Option Sketch)
    (insertWeighted : Sketch → DataInput → ℤ → Option Sketch)
    (mergeWith : Sketch → Sketch → Option Sketch) : UpdateTree → Option Sketch
  | fresh => some start
  | insert tree value =>
    (run start insertOne insertWeighted mergeWith tree).bind fun sketch => insertOne sketch value
  | insertMany tree value many =>
    (run start insertOne insertWeighted mergeWith tree).bind fun sketch =>
      insertWeighted sketch value many
  | merge left right =>
    (run start insertOne insertWeighted mergeWith left).bind fun sketch =>
      (run start insertOne insertWeighted mergeWith right).bind fun other =>
        mergeWith sketch other

/-- Operations under which every counter adds up over a stream: an insert is possible exactly if
`accepted` says so, and adds to each counter what its key and weight decide. -/
structure Linear {Sketch : Type} (accepted : Bool) (numRows numCols : ℕ) (start : Sketch)
    (insertWeighted : Sketch → DataInput → ℤ → Option Sketch)
    (mergeWith : Sketch → Sketch → Option Sketch) (counts : Sketch → MatrixStorage)
    (added : DataInput → ℤ → ℕ → ℕ → ℤ) : Prop where
  start_shaped : (counts start).Shaped numRows numCols
  start_zero : ∀ row col, (counts start).queryOneCounter row col = 0
  insert_spec : ∀ sketch value many, (counts sketch).Shaped numRows numCols → accepted = true →
    ∃ after, insertWeighted sketch value many = some after ∧
      (counts after).Shaped numRows numCols ∧ ∀ row < numRows, ∀ col < numCols,
        (counts after).queryOneCounter row col =
          (counts sketch).queryOneCounter row col + added value many row col
  insert_none : ∀ sketch value many, (counts sketch).Shaped numRows numCols → accepted ≠ true →
    insertWeighted sketch value many = none
  merge_spec : ∀ sketch other, (counts sketch).Shaped numRows numCols →
    (counts other).Shaped numRows numCols → ∃ merged, mergeWith sketch other = some merged ∧
      (counts merged).Shaped numRows numCols ∧ ∀ row < numRows, ∀ col < numCols,
        (counts merged).queryOneCounter row col =
          (counts sketch).queryOneCounter row col + (counts other).queryOneCounter row col

def addedBy (added : DataInput → ℤ → ℕ → ℕ → ℤ) (stream : List (DataInput × ℤ)) (row col : ℕ) : ℤ :=
  (stream.map fun entry => added entry.1 entry.2 row col).sum

theorem addedBy_append (added : DataInput → ℤ → ℕ → ℕ → ℤ) (left right : List (DataInput × ℤ))
    (row col : ℕ) :
    addedBy added (left ++ right) row col =
      addedBy added left row col + addedBy added right row col := by
  unfold addedBy
  rw [List.map_append, List.sum_append]

section Run

variable {Sketch : Type} {accepted : Bool} {numRows numCols : ℕ} {start : Sketch}
  {insertWeighted : Sketch → DataInput → ℤ → Option Sketch}
  {mergeWith : Sketch → Sketch → Option Sketch} {counts : Sketch → MatrixStorage}
  {added : DataInput → ℤ → ℕ → ℕ → ℤ}

/-- A sketch of the run whose counters are the sums over the stream. -/
def Sums (numRows numCols : ℕ) (counts : Sketch → MatrixStorage)
    (added : DataInput → ℤ → ℕ → ℕ → ℤ) (stream : List (DataInput × ℤ)) (sketch : Sketch) : Prop :=
  (counts sketch).Shaped numRows numCols ∧ ∀ row < numRows, ∀ col < numCols,
    (counts sketch).queryOneCounter row col = addedBy added stream row col

variable (linear : Linear accepted numRows numCols start insertWeighted mergeWith counts added)

include linear

theorem Linear.insert_sums {stream : List (DataInput × ℤ)} {sketch after : Sketch}
    (sums : Sums numRows numCols counts added stream sketch) {value : DataInput} {many : ℤ}
    (inserting : insertWeighted sketch value many = some after) :
    Sums numRows numCols counts added ((value, many) :: stream) after := by
  by_cases possible : accepted = true
  · obtain ⟨outcome, outcomeEq, shaped, cells⟩ :=
      linear.insert_spec sketch value many sums.1 possible
    obtain rfl : outcome = after := Option.some.inj (outcomeEq.symm.trans inserting)
    refine ⟨shaped, fun row rowInside col colInside => ?_⟩
    rw [cells row rowInside col colInside, sums.2 row rowInside col colInside, add_comm]
    rfl
  · rw [linear.insert_none sketch value many sums.1 possible] at inserting
    exact absurd inserting (Option.some_ne_none after).symm

theorem Linear.run_sums (tree : UpdateTree) {sketch : Sketch}
    (ran : tree.run start (fun sketch value => insertWeighted sketch value 1) insertWeighted
      mergeWith = some sketch) :
    Sums numRows numCols counts added tree.stream sketch := by
  induction tree generalizing sketch with
  | fresh =>
    obtain rfl : start = sketch := Option.some.inj ran
    exact ⟨linear.start_shaped, fun row _ col _ => linear.start_zero row col⟩
  | insert tree value hypothesis =>
    obtain ⟨before, ranBefore, inserting⟩ := Option.bind_eq_some_iff.mp ran
    exact linear.insert_sums (hypothesis ranBefore) inserting
  | insertMany tree value many hypothesis =>
    obtain ⟨before, ranBefore, inserting⟩ := Option.bind_eq_some_iff.mp ran
    exact linear.insert_sums (hypothesis ranBefore) inserting
  | merge left right leftHypothesis rightHypothesis =>
    obtain ⟨mine, ranLeft, rest⟩ := Option.bind_eq_some_iff.mp ran
    obtain ⟨theirs, ranRight, merging⟩ := Option.bind_eq_some_iff.mp rest
    obtain ⟨mineShaped, mineCells⟩ := leftHypothesis ranLeft
    obtain ⟨theirsShaped, theirsCells⟩ := rightHypothesis ranRight
    obtain ⟨merged, mergedEq, shaped, cells⟩ :=
      linear.merge_spec mine theirs mineShaped theirsShaped
    obtain rfl : merged = sketch := Option.some.inj (mergedEq.symm.trans merging)
    refine ⟨shaped, fun row rowInside col colInside => ?_⟩
    rw [cells row rowInside col colInside, mineCells row rowInside col colInside,
      theirsCells row rowInside col colInside]
    exact (addedBy_append added left.stream right.stream row col).symm

/-- A run stops exactly where a key had to be inserted and the path could not hash it. -/
theorem Linear.run_isSome (tree : UpdateTree) :
    (tree.run start (fun sketch value => insertWeighted sketch value 1) insertWeighted
      mergeWith).isSome = true ↔ accepted = true ∨ tree.stream = [] := by
  have inserted : ∀ {tree : UpdateTree} {value : DataInput} {many : ℤ},
      ((tree.run start (fun sketch value => insertWeighted sketch value 1) insertWeighted
        mergeWith).isSome = true ↔ accepted = true ∨ tree.stream = []) →
      (((tree.run start (fun sketch value => insertWeighted sketch value 1) insertWeighted
        mergeWith).bind fun sketch => insertWeighted sketch value many).isSome = true ↔
          accepted = true) := by
    intro tree value many hypothesis
    refine ⟨fun ran => ?_, fun possible => ?_⟩
    · by_contra impossible
      obtain ⟨after, ran⟩ := Option.isSome_iff_exists.mp ran
      obtain ⟨before, ranBefore, inserting⟩ := Option.bind_eq_some_iff.mp ran
      rw [linear.insert_none before value many (linear.run_sums tree ranBefore).1 impossible]
        at inserting
      exact Option.some_ne_none after inserting.symm
    · obtain ⟨before, ranBefore⟩ :=
        Option.isSome_iff_exists.mp (hypothesis.mpr (Or.inl possible))
      obtain ⟨after, inserting, -⟩ :=
        linear.insert_spec before value many (linear.run_sums tree ranBefore).1 possible
      rw [ranBefore, Option.bind_some, inserting]
      rfl
  induction tree with
  | fresh => exact iff_of_true rfl (Or.inr rfl)
  | insert tree value hypothesis =>
    exact (inserted hypothesis).trans (or_iff_left (List.cons_ne_nil _ _)).symm
  | insertMany tree value many hypothesis =>
    exact (inserted hypothesis).trans (or_iff_left (List.cons_ne_nil _ _)).symm
  | merge left right leftHypothesis rightHypothesis =>
    rw [stream, List.append_eq_nil_iff, or_and_left]
    refine Iff.trans ⟨fun ran => ?_, fun ⟨ranLeft, ranRight⟩ => ?_⟩
      (and_congr leftHypothesis rightHypothesis)
    · obtain ⟨merged, ran⟩ := Option.isSome_iff_exists.mp ran
      obtain ⟨mine, ranLeft, rest⟩ := Option.bind_eq_some_iff.mp ran
      obtain ⟨theirs, ranRight, -⟩ := Option.bind_eq_some_iff.mp rest
      exact ⟨Option.isSome_iff_exists.mpr ⟨mine, ranLeft⟩,
        Option.isSome_iff_exists.mpr ⟨theirs, ranRight⟩⟩
    · obtain ⟨mine, ranLeft⟩ := Option.isSome_iff_exists.mp ranLeft
      obtain ⟨theirs, ranRight⟩ := Option.isSome_iff_exists.mp ranRight
      obtain ⟨merged, mergedEq, -⟩ := linear.merge_spec mine theirs
        (linear.run_sums left ranLeft).1 (linear.run_sums right ranRight).1
      rw [run, ranLeft, ranRight]
      exact Option.isSome_iff_exists.mpr ⟨merged, mergedEq⟩

end Run

end UpdateTree

namespace MatrixStorage

def freshOf (kind : Storage) (rows cols : ℕ) : MatrixStorage :=
  match kind with
  | .vector2D => newVector2D rows cols
  | .fixedMatrix => newFixedMatrix rows cols

theorem shaped_freshOf (kind : Storage) (numRows numCols : ℕ) :
    Shaped numRows numCols (freshOf kind numRows numCols) := by
  cases kind with
  | vector2D => exact shaped_newVector2D numRows numCols
  | fixedMatrix => exact shaped_newFixedMatrix numRows numCols

theorem queryOneCounter_freshOf (kind : Storage) (numRows numCols row col : ℕ) :
    (freshOf kind numRows numCols).queryOneCounter row col = 0 := by
  cases kind with
  | vector2D => exact queryOneCounter_newVector2D numRows numCols row col
  | fixedMatrix => exact queryOneCounter_newFixedMatrix numRows numCols row col

end MatrixStorage

/-! ### The reference -/

def keyWeight (value : DataInput) (stream : List (DataInput × ℤ)) : ℤ :=
  (stream.map fun entry => if entry.1 = value then entry.2 else 0).sum

/-- The total weight of the other keys that share the column of a key in a row. -/
def collidingWeight (path : UpdatePath) (rows cols : ℕ) (value : DataInput) (row : ℕ)
    (stream : List (DataInput × ℤ)) : ℤ :=
  (stream.map fun entry =>
    if entry.1 ≠ value ∧ (path.address rows cols entry.1).column row =
      (path.address rows cols value).column row then entry.2 else 0).sum

def countMinTerm (path : UpdatePath) (rows cols : ℕ) (value : DataInput) (many : ℤ)
    (row col : ℕ) : ℤ :=
  if (path.address rows cols value).column row = col then many else 0

def countTerm (path : UpdatePath) (rows cols : ℕ) (value : DataInput) (many : ℤ)
    (row col : ℕ) : ℤ :=
  if (path.address rows cols value).column row = col then
    (path.address rows cols value).sign row * many
  else 0

def Nonnegative (stream : List (DataInput × ℤ)) : Prop := ∀ entry ∈ stream, 0 ≤ entry.2

open UpdateTree MatrixStorage

variable {path : UpdatePath} {numRows numCols : ℕ}

theorem addedBy_column (value : DataInput) (row : ℕ) (stream : List (DataInput × ℤ)) :
    addedBy (countMinTerm path numRows numCols) stream row
        ((path.address numRows numCols value).column row) =
      keyWeight value stream + collidingWeight path numRows numCols value row stream := by
  unfold addedBy keyWeight collidingWeight
  rw [← List.sum_map_add]
  refine congrArg List.sum (List.map_congr_left fun entry _ => ?_)
  rw [countMinTerm]
  by_cases same : entry.1 = value
  · have notOther : ¬(entry.1 ≠ value ∧ (path.address numRows numCols entry.1).column row =
        (path.address numRows numCols value).column row) := fun other => other.1 same
    rw [if_pos same, if_neg notOther, add_zero, same, if_pos rfl]
  · rw [if_neg same, zero_add]
    exact if_congr ⟨fun shared => ⟨same, shared⟩, fun other => other.2⟩ rfl rfl

theorem collidingWeight_nonneg {stream : List (DataInput × ℤ)} (nonnegative : Nonnegative stream)
    (value : DataInput) (row : ℕ) :
    0 ≤ collidingWeight path numRows numCols value row stream := by
  refine List.sum_nonneg fun term member => ?_
  obtain ⟨entry, inside, rfl⟩ := List.mem_map.mp member
  split
  · exact nonnegative entry inside
  · exact le_rfl

theorem addedBy_nonneg {stream : List (DataInput × ℤ)} (nonnegative : Nonnegative stream)
    (row col : ℕ) : 0 ≤ addedBy (countMinTerm path numRows numCols) stream row col := by
  refine List.sum_nonneg fun term member => ?_
  obtain ⟨entry, inside, rfl⟩ := List.mem_map.mp member
  unfold countMinTerm
  split
  · exact nonnegative entry inside
  · exact le_rfl

theorem keyWeight_append (value : DataInput) (left right : List (DataInput × ℤ)) :
    keyWeight value (left ++ right) = keyWeight value left + keyWeight value right := by
  unfold keyWeight
  rw [List.map_append, List.sum_append]

theorem keyWeight_of_absent {value : DataInput} {stream : List (DataInput × ℤ)}
    (absent : value ∉ stream.map Prod.fst) : keyWeight value stream = 0 := by
  refine List.sum_eq_zero fun term member => ?_
  obtain ⟨entry, inside, rfl⟩ := List.mem_map.mp member
  refine if_neg fun same => absent ?_
  rw [← same]
  exact List.mem_map_of_mem inside

/-- A running minimum seeded from its first row is the least of the rows. -/
theorem isLeast_runningMin {valueOf : ℕ → ℤ} {count : ℕ} (positive : 0 < count) :
    IsLeast {value | ∃ row < count, value = valueOf row}
      (runningMin valueOf (List.range' 1 (count - 1)) (valueOf 0)) := by
  have attained : ∀ (rows : List ℕ) (start : ℤ),
      runningMin valueOf rows start = start ∨
        ∃ row ∈ rows, runningMin valueOf rows start = valueOf row := by
    intro rows
    induction rows with
    | nil => exact fun _ => Or.inl rfl
    | cons row rest hypothesis =>
      intro start
      have step : runningMin valueOf (row :: rest) start =
        runningMin valueOf rest (if valueOf row < start then valueOf row else start) := rfl
      rw [step]
      rcases hypothesis (if valueOf row < start then valueOf row else start) with
        seed | ⟨other, member, found⟩
      · by_cases below : valueOf row < start
        · rw [if_pos below] at seed ⊢
          exact Or.inr ⟨row, List.mem_cons_self, seed⟩
        · rw [if_neg below] at seed ⊢
          exact Or.inl seed
      · exact Or.inr ⟨other, List.mem_cons_of_mem row member, found⟩
  refine ⟨?_, ?_⟩
  · rcases attained (List.range' 1 (count - 1)) (valueOf 0) with seed | ⟨row, member, found⟩
    · exact ⟨0, positive, seed⟩
    · refine ⟨row, ?_, found⟩
      obtain ⟨-, inside⟩ := List.mem_range'_1.mp member
      rwa [Nat.add_sub_cancel' positive] at inside
  · rintro value ⟨row, inside, rfl⟩
    by_cases first : row = 0
    · rw [first]
      exact runningMin_le valueOf _ _
    · refine runningMin_le_of_mem (List.mem_range'_1.mpr ⟨Nat.one_le_iff_ne_zero.mpr first, ?_⟩)
      rwa [Nat.add_sub_cancel' positive]

/-! ### Count-Min over every tree -/

namespace Stored

namespace CountMin

def run (path : UpdatePath) (kind : Storage) (numRows numCols : ℕ) (tree : UpdateTree) :
    Option CountMin :=
  tree.run ⟨freshOf kind numRows numCols⟩ (insert path) (insertMany path) merge

/-- A sketch computes the reference of a stream. -/
structure Computes (path : UpdatePath) (numRows numCols : ℕ) (stream : List (DataInput × ℤ))
    (sketch : CountMin) : Prop where
  /-- A counter holds the weight of the keys whose column it is. -/
  cells : ∀ row < numRows, ∀ col < numCols, sketch.counts.queryOneCounter row col =
    (stream.map fun entry =>
      if (path.address numRows numCols entry.1).column row = col then entry.2 else 0).sum
  /-- There is an estimate exactly if there is a row and the path can hash for it. -/
  answers : ∀ value, (estimate path sketch value).isSome = true ↔
    path.compatible numRows numCols = true ∧ 0 < numRows
  /-- It is the smallest of the weights of the key with the keys colliding with it in a row. -/
  least : ∀ value answer, estimate path sketch value = some answer →
    IsLeast {total | ∃ row < numRows, total = keyWeight value stream +
      collidingWeight path numRows numCols value row stream} answer
  /-- It is not too low. -/
  above : Nonnegative stream → ∀ value answer, estimate path sketch value = some answer →
    keyWeight value stream ≤ answer

variable {kind : Storage}

theorem linear (path : UpdatePath) (kind : Storage) (numRows : ℕ) {numCols : ℕ}
    (positive : 0 < numCols) :
    Linear (path.compatible numRows numCols) numRows numCols ⟨freshOf kind numRows numCols⟩
      (insertMany path) merge CountMin.counts (countMinTerm path numRows numCols) where
  start_shaped := shaped_freshOf kind numRows numCols
  start_zero := queryOneCounter_freshOf kind numRows numCols
  insert_spec := by
    intro sketch value many shaped compatible
    refine ⟨_, (insertMany_eq shaped value many).trans (if_pos compatible),
      shaped.updateBelow _ _ _, ?_⟩
    intro row rowInside col colInside
    rw [shaped.queryOneCounter_updateBelow _ (path.address_lt numRows positive value) rowInside
      colInside, countMinTerm]
    by_cases reached : (path.address numRows numCols value).column row = col
    · rw [if_pos ⟨rowInside, reached⟩, if_pos reached]
    · rw [if_neg fun both => reached both.2, if_neg reached, add_zero]
  insert_none := by
    intro sketch value many shaped incompatible
    rw [insertMany_eq shaped, if_neg incompatible]
  merge_spec := fun _ _ shaped otherShaped => merge_spec shaped otherShaped

theorem isLeast_estimate {sketch : CountMin} (shaped : Shaped numRows numCols sketch.counts)
    (positive : 0 < numCols) {value : DataInput} {answer : ℤ}
    (estimating : estimate path sketch value = some answer) :
    IsLeast {total | ∃ row < numRows, total = addressed path sketch numRows numCols value row}
      answer := by
  rw [estimate_eq shaped positive] at estimating
  split at estimating
  · rename_i possible
    rw [← Option.some.inj estimating]
    exact isLeast_runningMin possible.2
  · exact absurd estimating (Option.some_ne_none answer).symm

theorem computes (positive : 0 < numCols) {tree : UpdateTree} {sketch : CountMin}
    (ran : run path kind numRows numCols tree = some sketch) :
    Computes path numRows numCols tree.stream sketch := by
  obtain ⟨shaped, cells⟩ := (linear path kind numRows positive).run_sums tree ran
  have least : ∀ value answer, estimate path sketch value = some answer →
      IsLeast {total | ∃ row < numRows, total = keyWeight value tree.stream +
        collidingWeight path numRows numCols value row tree.stream} answer := by
    intro value answer estimating
    have counters : ∀ row < numRows, addressed path sketch numRows numCols value row =
        keyWeight value tree.stream +
          collidingWeight path numRows numCols value row tree.stream := by
      intro row inside
      rw [addressed, cells row inside _ (path.address_lt numRows positive value row),
        addedBy_column]
    obtain ⟨⟨row, inside, attained⟩, lower⟩ := isLeast_estimate shaped positive estimating
    refine ⟨⟨row, inside, attained.trans (counters row inside)⟩, ?_⟩
    rintro total ⟨other, otherInside, rfl⟩
    exact lower ⟨other, otherInside, (counters other otherInside).symm⟩
  refine ⟨fun row rowInside col colInside => cells row rowInside col colInside, fun value => ?_,
    least, fun nonnegative value answer estimating => ?_⟩
  · rw [estimate_eq shaped positive]
    split
    · rename_i possible
      exact iff_of_true rfl possible
    · rename_i impossible
      exact iff_of_false Bool.false_ne_true impossible
  · obtain ⟨⟨row, -, rfl⟩, -⟩ := least value answer estimating
    exact le_add_of_nonneg_right (collidingWeight_nonneg nonnegative value row)

theorem storages_agree (positive : 0 < numCols) (tree : UpdateTree) :
    ((run path .vector2D numRows numCols tree).isSome =
        (run path .fixedMatrix numRows numCols tree).isSome) ∧
      ∀ grown fixed, run path .vector2D numRows numCols tree = some grown →
        run path .fixedMatrix numRows numCols tree = some fixed →
          ∀ row < numRows, ∀ col < numCols,
            grown.counts.queryOneCounter row col = fixed.counts.queryOneCounter row col := by
  refine ⟨Bool.eq_iff_iff.mpr ?_,
    fun grown fixed ranGrown ranFixed row rowInside col colInside => ?_⟩
  · exact ((linear path .vector2D numRows positive).run_isSome tree).trans
      ((linear path .fixedMatrix numRows positive).run_isSome tree).symm
  · rw [(computes positive ranGrown).cells row rowInside col colInside,
      (computes positive ranFixed).cells row rowInside col colInside]

/-- Keeping the larger counters of two sketches that saw different keys is no less accurate than
adding them, and still not too low. -/
theorem mergeMax_between (positive : 0 < numCols) {left right : UpdateTree}
    {mine theirs : CountMin} (ranLeft : run path kind numRows numCols left = some mine)
    (ranRight : run path kind numRows numCols right = some theirs)
    (leftNonnegative : Nonnegative left.stream) (rightNonnegative : Nonnegative right.stream)
    (disjoint : (left.stream.map Prod.fst).Disjoint (right.stream.map Prod.fst)) :
    ∃ larger added, mergeMax mine theirs = some larger ∧ merge mine theirs = some added ∧
      ∀ value low high, estimate path larger value = some low →
        estimate path added value = some high →
          keyWeight value (left.stream ++ right.stream) ≤ low ∧ low ≤ high := by
  obtain ⟨mineShaped, mineCells⟩ := (linear path kind numRows positive).run_sums left ranLeft
  obtain ⟨theirsShaped, theirsCells⟩ :=
    (linear path kind numRows positive).run_sums right ranRight
  obtain ⟨larger, largerEq, largerShaped, largerCells⟩ := mergeMax_spec mineShaped theirsShaped
  obtain ⟨added, addedEq, addedShaped, addedCells⟩ := merge_spec mineShaped theirsShaped
  refine ⟨larger, added, largerEq, addedEq, fun value low high lowEq highEq => ?_⟩
  have inside := path.address_lt numRows positive value
  have largerCounter : ∀ row < numRows, addressed path larger numRows numCols value row =
      max (keyWeight value left.stream + collidingWeight path numRows numCols value row left.stream)
        (keyWeight value right.stream +
          collidingWeight path numRows numCols value row right.stream) := by
    intro row rowInside
    rw [addressed, largerCells row rowInside _ (inside row), mineCells row rowInside _ (inside row),
      theirsCells row rowInside _ (inside row), addedBy_column, addedBy_column]
  have weights : ∀ row, keyWeight value (left.stream ++ right.stream) ≤
      max (keyWeight value left.stream + collidingWeight path numRows numCols value row left.stream)
        (keyWeight value right.stream +
          collidingWeight path numRows numCols value row right.stream) := by
    intro row
    rw [keyWeight_append]
    by_cases inLeft : value ∈ left.stream.map Prod.fst
    · rw [keyWeight_of_absent fun inRight => disjoint inLeft inRight, add_zero]
      exact le_max_of_le_left
        (le_add_of_nonneg_right (collidingWeight_nonneg leftNonnegative value row))
    · rw [keyWeight_of_absent inLeft, zero_add]
      exact le_max_of_le_right
        (le_add_of_nonneg_right (collidingWeight_nonneg rightNonnegative value row))
  obtain ⟨⟨row, rowInside, attained⟩, lower⟩ := isLeast_estimate largerShaped positive lowEq
  refine ⟨?_, ?_⟩
  · rw [attained, largerCounter row rowInside]
    exact weights row
  · obtain ⟨⟨other, otherInside, attainedAbove⟩, -⟩ :=
      isLeast_estimate addedShaped positive highEq
    refine (lower ⟨other, otherInside, rfl⟩).trans ?_
    rw [attainedAbove, addressed, addressed, largerCells other otherInside _ (inside other),
      addedCells other otherInside _ (inside other), mineCells other otherInside _ (inside other),
      theirsCells other otherInside _ (inside other)]
    exact max_le_add_of_nonneg (addedBy_nonneg leftNonnegative other _)
      (addedBy_nonneg rightNonnegative other _)

end CountMin

/-! ### Count over every tree -/

namespace Count

def run (path : UpdatePath) (kind : Storage) (numRows numCols : ℕ) (tree : UpdateTree) :
    Option Count :=
  tree.run ⟨freshOf kind numRows numCols⟩ (insert path) (insertMany path) merge

def signedWeight (path : UpdatePath) (numRows numCols : ℕ) (stream : List (DataInput × ℤ))
    (row col : ℕ) : ℤ :=
  (stream.map fun entry =>
    if (path.address numRows numCols entry.1).column row = col then
      (path.address numRows numCols entry.1).sign row * entry.2
    else 0).sum

/-- A sketch computes the reference of a stream. -/
structure Computes (path : UpdatePath) (numRows numCols : ℕ) (stream : List (DataInput × ℤ))
    (sketch : Count) : Prop where
  /-- A counter holds the signed weight of the keys whose column it is. -/
  cells : ∀ row < numRows, ∀ col < numCols,
    sketch.counts.queryOneCounter row col = signedWeight path numRows numCols stream row col
  /-- An estimate is the median over the rows of the sign-corrected counters. -/
  median : ∀ value, estimate path sketch value =
    if path.compatible numRows numCols = true then
      some (Median.sortMedian meanF64 0 ((List.range numRows).map fun row =>
        intAsF64 ((path.address numRows numCols value).sign row *
          signedWeight path numRows numCols stream row
            ((path.address numRows numCols value).column row))))
    else none

variable {kind : Storage}

theorem linear (path : UpdatePath) (kind : Storage) (numRows : ℕ) {numCols : ℕ}
    (positive : 0 < numCols) :
    Linear (path.compatible numRows numCols) numRows numCols ⟨freshOf kind numRows numCols⟩
      (insertMany path) merge Count.counts (countTerm path numRows numCols) where
  start_shaped := shaped_freshOf kind numRows numCols
  start_zero := queryOneCounter_freshOf kind numRows numCols
  insert_spec := by
    intro sketch value many shaped compatible
    refine ⟨_, (insertMany_eq shaped value many).trans (if_pos compatible),
      shaped.updateBelow _ _ _, ?_⟩
    intro row rowInside col colInside
    rw [shaped.queryOneCounter_updateBelow _ (path.address_lt numRows positive value) rowInside
      colInside, countTerm]
    by_cases reached : (path.address numRows numCols value).column row = col
    · rw [if_pos ⟨rowInside, reached⟩, if_pos reached,
        signed_count (path.sign_cases numRows numCols value row)]
    · rw [if_neg fun both => reached both.2, if_neg reached, add_zero]
  insert_none := by
    intro sketch value many shaped incompatible
    rw [insertMany_eq shaped, if_neg incompatible]
  merge_spec := fun _ _ shaped otherShaped => merge_spec shaped otherShaped

theorem computes (positive : 0 < numCols) {tree : UpdateTree} {sketch : Count}
    (ran : run path kind numRows numCols tree = some sketch) :
    Computes path numRows numCols tree.stream sketch := by
  obtain ⟨shaped, cells⟩ := (linear path kind numRows positive).run_sums tree ran
  refine ⟨fun row rowInside col colInside => cells row rowInside col colInside, fun value => ?_⟩
  rw [estimate_eq shaped]
  refine if_congr Iff.rfl (congrArg (fun estimates => some (Median.sortMedian meanF64 0 estimates))
    (List.map_congr_left fun row member => ?_)) rfl
  rw [cells row (List.mem_range.mp member) _ (path.address_lt numRows positive value row)]
  rfl

theorem storages_agree (positive : 0 < numCols) (tree : UpdateTree) :
    ((run path .vector2D numRows numCols tree).isSome =
        (run path .fixedMatrix numRows numCols tree).isSome) ∧
      ∀ grown fixed, run path .vector2D numRows numCols tree = some grown →
        run path .fixedMatrix numRows numCols tree = some fixed →
          ∀ row < numRows, ∀ col < numCols,
            grown.counts.queryOneCounter row col = fixed.counts.queryOneCounter row col := by
  refine ⟨Bool.eq_iff_iff.mpr ?_,
    fun grown fixed ranGrown ranFixed row rowInside col colInside => ?_⟩
  · exact ((linear path .vector2D numRows positive).run_isSome tree).trans
      ((linear path .fixedMatrix numRows positive).run_isSome tree).symm
  · rw [(computes positive ranGrown).cells row rowInside col colInside,
      (computes positive ranFixed).cells row rowInside col colInside]

end Count

end Stored

/-! ### All storages and paths -/

/-- Count-Min and Count compute their reference whatever the storage, the path and the hash, keeping
the larger counters of sketches of different keys stays between the weight and the merge, and the
two kinds of storage hold the same counters. A matrix without columns cannot be built. -/
theorem matrix_sketches_reference (path : UpdatePath) (numRows numCols : ℕ)
    (positive : 0 < numCols) :
    (∀ kind tree sketch, Stored.CountMin.run path kind numRows numCols tree = some sketch →
      Stored.CountMin.Computes path numRows numCols tree.stream sketch) ∧
    (∀ kind tree sketch, Stored.Count.run path kind numRows numCols tree = some sketch →
      Stored.Count.Computes path numRows numCols tree.stream sketch) ∧
    (∀ kind left right mine theirs, Stored.CountMin.run path kind numRows numCols left = some mine →
      Stored.CountMin.run path kind numRows numCols right = some theirs → Nonnegative left.stream →
      Nonnegative right.stream →
      (left.stream.map Prod.fst).Disjoint (right.stream.map Prod.fst) →
      ∃ larger added, Stored.CountMin.mergeMax mine theirs = some larger ∧
        Stored.CountMin.merge mine theirs = some added ∧
        ∀ value low high, Stored.CountMin.estimate path larger value = some low →
          Stored.CountMin.estimate path added value = some high →
            keyWeight value (left.stream ++ right.stream) ≤ low ∧ low ≤ high) ∧
    (∀ tree, ((Stored.CountMin.run path .vector2D numRows numCols tree).isSome =
        (Stored.CountMin.run path .fixedMatrix numRows numCols tree).isSome) ∧
      ∀ grown fixed, Stored.CountMin.run path .vector2D numRows numCols tree = some grown →
        Stored.CountMin.run path .fixedMatrix numRows numCols tree = some fixed →
          ∀ row < numRows, ∀ col < numCols,
            grown.counts.queryOneCounter row col = fixed.counts.queryOneCounter row col) ∧
    ∀ tree, ((Stored.Count.run path .vector2D numRows numCols tree).isSome =
        (Stored.Count.run path .fixedMatrix numRows numCols tree).isSome) ∧
      ∀ grown fixed, Stored.Count.run path .vector2D numRows numCols tree = some grown →
        Stored.Count.run path .fixedMatrix numRows numCols tree = some fixed →
          ∀ row < numRows, ∀ col < numCols,
            grown.counts.queryOneCounter row col = fixed.counts.queryOneCounter row col := by
  refine ⟨fun _ _ _ ran => Stored.CountMin.computes positive ran,
    fun _ _ _ ran => Stored.Count.computes positive ran, ?_,
    Stored.CountMin.storages_agree positive, Stored.Count.storages_agree positive⟩
  intro kind left right mine theirs ranLeft ranRight leftNonnegative rightNonnegative disjoint
  exact Stored.CountMin.mergeMax_between positive ranLeft ranRight leftNonnegative
    rightNonnegative disjoint

/-- Two keys on the fast path, in two sketches of one row and three columns. -/
theorem matrix_sketches_reference_row :
    ∃ mine theirs larger added,
      Stored.CountMin.run (.fast (.ofSketchHasher collidingHasher)) .fixedMatrix 1 3
        (.insertMany .fresh (.u64 1) 5) = some mine ∧
      Stored.CountMin.run (.fast (.ofSketchHasher collidingHasher)) .fixedMatrix 1 3
        (.insert .fresh (.u64 2)) = some theirs ∧
      Stored.CountMin.mergeMax mine theirs = some larger ∧
      Stored.CountMin.merge mine theirs = some added ∧
      ∀ value low high,
        Stored.CountMin.estimate (.fast (.ofSketchHasher collidingHasher)) larger value = some low →
        Stored.CountMin.estimate (.fast (.ofSketchHasher collidingHasher)) added value = some high →
          keyWeight value [(.u64 1, 5), (.u64 2, 1)] ≤ low ∧ low ≤ high := by
  obtain ⟨-, -, between, -⟩ :=
    matrix_sketches_reference (.fast (.ofSketchHasher collidingHasher)) 1 3 (by decide)
  obtain ⟨larger, added, largerEq, addedEq, answers⟩ :=
    between .fixedMatrix (.insertMany .fresh (.u64 1) 5) (.insert .fresh (.u64 2)) _ _ rfl rfl
      (fun entry member => by rw [List.mem_singleton.mp member]; decide)
      (fun entry member => by rw [List.mem_singleton.mp member]; decide)
      (List.disjoint_singleton.mpr (by decide))
  exact ⟨_, _, larger, added, rfl, rfl, largerEq, addedEq, answers⟩

end AsapSketchlib
