/-
This file models Count-Min and Count over any matrix storage and on either update path, and
reads each operation as one on the counters: an insert adds to the counter a key addresses in
each row, a merge adds counter by counter, and the estimates read the addressed counters.
-/

import AsapSketchlib.MatrixStorage

namespace AsapSketchlib

/-! ### Paths -/

/-- Where a key lands: the column and the sign of each row. -/
structure RowAddress where
  column : ℕ → ℕ
  sign : ℕ → ℤ

inductive UpdatePath : Type 1 where
  | regular (hasher : SketchHasher)
  | fast {HashType : Type} (hasher : MatrixHasher HashType)

namespace UpdatePath

/-- Whether a path can hash for these dimensions. -/
def compatible (path : UpdatePath) (rows cols : ℕ) : Bool :=
  match path with
  | .regular _ => true
  | .fast hasher => hasher.assertCompatible rows cols

def address (path : UpdatePath) (rows cols : ℕ) (value : DataInput) : RowAddress :=
  match path with
  | .regular hasher =>
    { column := fun row => lower32Col (hasher.hash64Seeded row value) cols
      sign := fun row => rowSign (hasher.hash64Seeded row value) }
  | .fast hasher =>
    { column := fun row =>
        hasher.decode.colForRow (hasher.hashForMatrixSeeded 0 rows cols value) row cols
      sign := fun row =>
        hasher.decode.signForRow (hasher.hashForMatrixSeeded 0 rows cols value) row }

@[simp] theorem compatible_regular (hasher : SketchHasher) (rows cols : ℕ) :
    (UpdatePath.regular hasher).compatible rows cols = true := rfl

@[simp] theorem compatible_fast {HashType : Type} (hasher : MatrixHasher HashType)
    (rows cols : ℕ) :
    (UpdatePath.fast hasher).compatible rows cols = hasher.assertCompatible rows cols := rfl

theorem address_lt (path : UpdatePath) (rows : ℕ) {cols : ℕ} (positive : 0 < cols)
    (value : DataInput) (row : ℕ) : (path.address rows cols value).column row < cols := by
  cases path with
  | regular hasher => exact lower32Col_lt _ _ positive
  | fast hasher => exact hasher.decode.colForRow_lt _ row positive

theorem sign_cases (path : UpdatePath) (rows cols : ℕ) (value : DataInput) (row : ℕ) :
    (path.address rows cols value).sign row = 1 ∨
      (path.address rows cols value).sign row = -1 := by
  cases path with
  | regular hasher => exact rowSign_cases _
  | fast hasher => exact hasher.decode.signForRow_cases _ row

end UpdatePath

namespace Stored

open MatrixStorage

/-! ### Count-Min -/

/-- A Count-Min sketch over a matrix storage. -/
structure CountMin where
  counts : MatrixStorage

namespace CountMin

/-- The regular path of `insert_many`: each row hashes the key. -/
def regularInsertMany (hasher : SketchHasher) (sketch : CountMin) (value : DataInput) (many : ℤ) :
    CountMin :=
  ⟨(List.range sketch.counts.rows).foldl
    (fun counts row => counts.incrementByRow row
      (lower32Col (hasher.hash64Seeded row value) sketch.counts.cols) many) sketch.counts⟩

/-- The regular path of `estimate`, whose running minimum is seeded from row 0. -/
def regularEstimate (hasher : SketchHasher) (sketch : CountMin) (value : DataInput) : Option ℤ :=
  let colOf := fun row => lower32Col (hasher.hash64Seeded row value) sketch.counts.cols
  (sketch.counts.queryOneCounter? 0 (colOf 0)).map fun first =>
    runningMin (fun row => sketch.counts.queryOneCounter row (colOf row))
      (List.range' 1 (sketch.counts.rows - 1)) first

section Fast

variable {HashType : Type} (hasher : MatrixHasher HashType)

/-- The fast path of `insert_many`: one hash addresses all rows. -/
def fastInsertMany (sketch : CountMin) (value : DataInput) (many : ℤ) : Option CountMin :=
  (sketch.counts.hashForMatrix hasher value).map fun hashed =>
    ⟨fastInsert hasher.decode sketch.counts (fun _ counter => counter + many) hashed⟩

/-- The fast path of `estimate`. -/
def fastEstimate (sketch : CountMin) (value : DataInput) : Option ℤ :=
  (sketch.counts.hashForMatrix hasher value).bind fun hashed =>
    fastQueryMin hasher.decode sketch.counts hashed

end Fast

variable (path : UpdatePath)

def insertMany (sketch : CountMin) (value : DataInput) (many : ℤ) : Option CountMin :=
  match path with
  | .regular hasher => some (regularInsertMany hasher sketch value many)
  | .fast hasher => fastInsertMany hasher sketch value many

def insert (sketch : CountMin) (value : DataInput) : Option CountMin :=
  insertMany path sketch value 1

def estimate (sketch : CountMin) (value : DataInput) : Option ℤ :=
  match path with
  | .regular hasher => regularEstimate hasher sketch value
  | .fast hasher => fastEstimate hasher sketch value

def merge (sketch other : CountMin) : Option CountMin :=
  if (sketch.counts.rows, sketch.counts.cols) = (other.counts.rows, other.counts.cols) then
    some ⟨sketch.counts.updateEach other.counts fun value counter => counter + value⟩
  else none

/-- Merges another sketch of the same dimensions by keeping the larger of each counter pair. -/
def mergeMax (sketch other : CountMin) : Option CountMin :=
  if (sketch.counts.rows, sketch.counts.cols) = (other.counts.rows, other.counts.cols) then
    some ⟨sketch.counts.updateEach other.counts fun incoming counter =>
      if counter < incoming then incoming else counter⟩
  else none

variable {path} {sketch other : CountMin} {numRows numCols : ℕ}

theorem insertMany_eq (shaped : Shaped numRows numCols sketch.counts) (value : DataInput)
    (many : ℤ) :
    insertMany path sketch value many =
      if path.compatible numRows numCols = true then
        some ⟨sketch.counts.updateBelow (path.address numRows numCols value).column
          (fun _ counter => counter + many) numRows⟩
      else none := by
  cases path with
  | regular hasher =>
    rw [UpdatePath.compatible_regular, if_pos rfl]
    show some (regularInsertMany hasher sketch value many) = _
    rw [regularInsertMany, shaped.rows, shaped.cols]
    rfl
  | fast hasher =>
    show fastInsertMany hasher sketch value many = _
    rw [fastInsertMany, hashForMatrix, shaped.rows, shaped.cols, UpdatePath.compatible_fast]
    by_cases compatible : hasher.assertCompatible numRows numCols = true
    · rw [if_pos compatible, if_pos compatible, Option.map_some, shaped.fastInsert_eq]
      rfl
    · rw [if_neg compatible, if_neg compatible, Option.map_none]

def addressed (path : UpdatePath) (sketch : CountMin) (numRows numCols : ℕ) (value : DataInput)
    (row : ℕ) : ℤ :=
  sketch.counts.queryOneCounter row ((path.address numRows numCols value).column row)

/-- An estimate is the running minimum over the addressed counters. -/
theorem estimate_eq (shaped : Shaped numRows numCols sketch.counts) (positive : 0 < numCols)
    (value : DataInput) :
    estimate path sketch value =
      if path.compatible numRows numCols = true ∧ 0 < numRows then
        some (runningMin (addressed path sketch numRows numCols value)
          (List.range' 1 (numRows - 1)) (addressed path sketch numRows numCols value 0))
      else none := by
  cases path with
  | regular hasher =>
    show regularEstimate hasher sketch value = _
    rw [regularEstimate, shaped.rows, shaped.cols, UpdatePath.compatible_regular]
    simp only
    rw [shaped.first_read (lower32Col_lt _ _ positive)]
    by_cases some : 0 < numRows
    · rw [if_pos some, if_pos ⟨trivial, some⟩]
      rfl
    · rw [if_neg some, if_neg fun both => some both.2]
      rfl
  | fast hasher =>
    show fastEstimate hasher sketch value = _
    rw [fastEstimate, hashForMatrix, shaped.rows, shaped.cols, UpdatePath.compatible_fast]
    by_cases compatible : hasher.assertCompatible numRows numCols = true
    · rw [if_pos compatible, Option.bind_some, fastQueryMin, shaped.colForRow_eq, shaped.rows,
        shaped.first_read (hasher.decode.colForRow_lt _ 0 positive)]
      have counters : counterForRow hasher.decode sketch.counts
          (hasher.hashForMatrixSeeded 0 numRows numCols value) =
          addressed (.fast hasher) sketch numRows numCols value := by
        funext row
        rw [counterForRow, shaped.colForRow_eq]
        rfl
      rw [counters]
      by_cases some : 0 < numRows
      · rw [if_pos some, if_pos ⟨compatible, some⟩]
        rfl
      · rw [if_neg some, if_neg fun both => some both.2]
        rfl
    · rw [if_neg compatible, if_neg fun both => compatible both.1]
      rfl

variable (shaped : Shaped numRows numCols sketch.counts)
  (otherShaped : Shaped numRows numCols other.counts)

include shaped otherShaped

theorem merge_spec :
    ∃ merged, merge sketch other = some merged ∧ Shaped numRows numCols merged.counts ∧
      ∀ row < numRows, ∀ col < numCols, merged.counts.queryOneCounter row col =
        sketch.counts.queryOneCounter row col + other.counts.queryOneCounter row col := by
  obtain ⟨shapedAfter, after⟩ :=
    shaped.updateEach_spec other.counts fun value counter => counter + value
  refine ⟨_, if_pos ?_, shapedAfter, after⟩
  rw [shaped.rows, shaped.cols, otherShaped.rows, otherShaped.cols]

theorem mergeMax_spec :
    ∃ merged, mergeMax sketch other = some merged ∧ Shaped numRows numCols merged.counts ∧
      ∀ row < numRows, ∀ col < numCols, merged.counts.queryOneCounter row col =
        max (sketch.counts.queryOneCounter row col) (other.counts.queryOneCounter row col) := by
  obtain ⟨shapedAfter, after⟩ := shaped.updateEach_spec other.counts fun incoming counter =>
    if counter < incoming then incoming else counter
  refine ⟨_, if_pos ?_, shapedAfter, fun row rowInside col colInside => ?_⟩
  · rw [shaped.rows, shaped.cols, otherShaped.rows, otherShaped.cols]
  · rw [after row rowInside col colInside]
    by_cases above :
        sketch.counts.queryOneCounter row col < other.counts.queryOneCounter row col
    · rw [if_pos above, max_eq_right above.le]
    · rw [if_neg above, max_eq_left (not_lt.mp above)]

end CountMin

/-! ### Count -/

/-- A Count sketch over a matrix storage. -/
structure Count where
  counts : MatrixStorage

namespace Count

/-- The regular path of `insert_many`. -/
def regularInsertMany (hasher : SketchHasher) (sketch : Count) (value : DataInput) (many : ℤ) :
    Count :=
  ⟨(List.range sketch.counts.rows).foldl
    (fun counts row => counts.updateOneCounter row
      (lower32Col (hasher.hash64Seeded row value) sketch.counts.cols) fun counter =>
        counter + if 0 < rowSign (hasher.hash64Seeded row value) then many else -many)
    sketch.counts⟩

/-- The regular path of `estimate`. -/
def regularEstimate (hasher : SketchHasher) (sketch : Count) (value : DataInput) : ℚ :=
  Median.sortMedian meanF64 0 ((List.range sketch.counts.rows).map fun row =>
    let counter := sketch.counts.queryOneCounter row
      (lower32Col (hasher.hash64Seeded row value) sketch.counts.cols)
    if 0 < rowSign (hasher.hash64Seeded row value) then intAsF64 counter else -intAsF64 counter)

section Fast

variable {HashType : Type} (hasher : MatrixHasher HashType)

/-- The fast path of `insert_many`. -/
def fastInsertMany (sketch : Count) (value : DataInput) (many : ℤ) : Option Count :=
  (sketch.counts.hashForMatrix hasher value).map fun hashed =>
    ⟨fastInsert hasher.decode sketch.counts (fun row counter =>
      counter + if 0 < hasher.decode.signForRow hashed row then many else -many) hashed⟩

/-- The fast path of `estimate`. -/
def fastEstimate (sketch : Count) (value : DataInput) : Option ℚ :=
  (sketch.counts.hashForMatrix hasher value).map fun hashed =>
    fastQueryMedian hasher.decode sketch.counts hashed fun row counter =>
      if 0 < hasher.decode.signForRow hashed row then intAsF64 counter else -intAsF64 counter

end Fast

variable (path : UpdatePath)

def insertMany (sketch : Count) (value : DataInput) (many : ℤ) : Option Count :=
  match path with
  | .regular hasher => some (regularInsertMany hasher sketch value many)
  | .fast hasher => fastInsertMany hasher sketch value many

def insert (sketch : Count) (value : DataInput) : Option Count :=
  insertMany path sketch value 1

def estimate (sketch : Count) (value : DataInput) : Option ℚ :=
  match path with
  | .regular hasher => some (regularEstimate hasher sketch value)
  | .fast hasher => fastEstimate hasher sketch value

def merge (sketch other : Count) : Option Count :=
  if (sketch.counts.rows, sketch.counts.cols) = (other.counts.rows, other.counts.cols) then
    some ⟨sketch.counts.updateEach other.counts fun value counter => counter + value⟩
  else none

variable {path} {sketch other : Count} {numRows numCols : ℕ}

theorem insertMany_eq (shaped : Shaped numRows numCols sketch.counts) (value : DataInput)
    (many : ℤ) :
    insertMany path sketch value many =
      if path.compatible numRows numCols = true then
        some ⟨sketch.counts.updateBelow (path.address numRows numCols value).column
          (fun row counter => counter +
            if 0 < (path.address numRows numCols value).sign row then many else -many) numRows⟩
      else none := by
  cases path with
  | regular hasher =>
    rw [UpdatePath.compatible_regular, if_pos rfl]
    show some (regularInsertMany hasher sketch value many) = _
    rw [regularInsertMany, shaped.rows, shaped.cols]
    rfl
  | fast hasher =>
    show fastInsertMany hasher sketch value many = _
    rw [fastInsertMany, hashForMatrix, shaped.rows, shaped.cols, UpdatePath.compatible_fast]
    by_cases compatible : hasher.assertCompatible numRows numCols = true
    · rw [if_pos compatible, if_pos compatible, Option.map_some, shaped.fastInsert_eq]
      rfl
    · rw [if_neg compatible, if_neg compatible, Option.map_none]

theorem signed_count {sign : ℤ} (cases : sign = 1 ∨ sign = -1) (many : ℤ) :
    (if 0 < sign then many else -many) = sign * many := by
  rcases cases with rfl | rfl
  · rw [if_pos Int.one_pos, one_mul]
  · rw [if_neg (by decide), neg_one_mul]

theorem signed_cast {sign : ℤ} (cases : sign = 1 ∨ sign = -1) (counter : ℤ) :
    (if 0 < sign then intAsF64 counter else -intAsF64 counter) = intAsF64 (sign * counter) := by
  rcases cases with rfl | rfl
  · rw [if_pos Int.one_pos, one_mul]
  · rw [if_neg (by decide), neg_one_mul, intAsF64_neg]

theorem estimate_eq (shaped : Shaped numRows numCols sketch.counts) (value : DataInput) :
    estimate path sketch value =
      if path.compatible numRows numCols = true then
        some (Median.sortMedian meanF64 0 ((List.range numRows).map fun row =>
          intAsF64 ((path.address numRows numCols value).sign row *
            sketch.counts.queryOneCounter row ((path.address numRows numCols value).column row))))
      else none := by
  have signed := fun row => signed_cast (path.sign_cases numRows numCols value row)
  cases path with
  | regular hasher =>
    rw [UpdatePath.compatible_regular, if_pos rfl]
    show some (regularEstimate hasher sketch value) = _
    rw [regularEstimate, shaped.rows, shaped.cols]
    refine congrArg (fun estimates => some (Median.sortMedian meanF64 0 estimates)) ?_
    exact List.map_congr_left fun row _ => signed row _
  | fast hasher =>
    show fastEstimate hasher sketch value = _
    rw [fastEstimate, hashForMatrix, shaped.rows, shaped.cols, UpdatePath.compatible_fast]
    by_cases compatible : hasher.assertCompatible numRows numCols = true
    · rw [if_pos compatible, if_pos compatible, Option.map_some, fastQueryMedian, shaped.rows,
        Median.computeMedianInline_eq _ _ meanF64_comm]
      refine congrArg (fun estimates => some (Median.sortMedian meanF64 0 estimates)) ?_
      refine List.map_congr_left fun row _ => ?_
      rw [counterForRow, shaped.colForRow_eq]
      exact signed row _
    · rw [if_neg compatible, if_neg compatible, Option.map_none]

theorem merge_spec (shaped : Shaped numRows numCols sketch.counts)
    (otherShaped : Shaped numRows numCols other.counts) :
    ∃ merged, merge sketch other = some merged ∧ Shaped numRows numCols merged.counts ∧
      ∀ row < numRows, ∀ col < numCols, merged.counts.queryOneCounter row col =
        sketch.counts.queryOneCounter row col + other.counts.queryOneCounter row col := by
  obtain ⟨shapedAfter, after⟩ :=
    shaped.updateEach_spec other.counts fun value counter => counter + value
  refine ⟨_, if_pos ?_, shapedAfter, after⟩
  rw [shaped.rows, shaped.cols, otherShaped.rows, otherShaped.cols]

/-! ### Medians -/

def regularRows (hasher : SketchHasher) (sketch : Count) (value : DataInput) : List ℚ :=
  (List.range sketch.counts.rows).map fun row =>
    let counter := sketch.counts.queryOneCounter row
      (lower32Col (hasher.hash64Seeded row value) sketch.counts.cols)
    if 0 < rowSign (hasher.hash64Seeded row value) then intAsF64 counter else -intAsF64 counter

def fastRows {HashType : Type} (decode : MatrixFastHash HashType) (sketch : Count)
    (hashed : HashType) : List ℚ :=
  (List.range sketch.counts.rows).map fun row =>
    let counter := counterForRow decode sketch.counts hashed row
    if 0 < decode.signForRow hashed row then intAsF64 counter else -intAsF64 counter

/-- The median that the comparison networks give is the one that sorting gives, for any linear order
and any mean that does not depend on the order of the two values, the exact one among them. Hence
the two paths estimate alike from the same row values. -/
theorem medians_agree {Value : Type} [LinearOrder Value] {mean : Value → Value → Value}
    (symmetric : ∀ left right, mean left right = mean right left) (zero : Value)
    (values : List Value) {HashType : Type} (hasher : SketchHasher)
    (matrixHasher : MatrixHasher HashType) (fast regular : Count) (key other : DataInput) :
    Median.computeMedianInline mean zero values = Median.sortMedian mean zero values ∧
      (∀ exact : List ℚ, Median.computeMedianInline (fun left right => (left + right) / 2) 0 exact =
        Median.sortMedian (fun left right => (left + right) / 2) 0 exact) ∧
      ∀ hashed, fast.counts.hashForMatrix matrixHasher key = some hashed →
        fastRows matrixHasher.decode fast hashed = regularRows hasher regular other →
          fastEstimate matrixHasher fast key = some (regularEstimate hasher regular other) := by
  refine ⟨Median.computeMedianInline_eq mean zero symmetric values, fun exact => ?_,
    fun hashed hashing sameRows => ?_⟩
  · refine Median.computeMedianInline_eq _ 0 (fun left right => ?_) exact
    rw [add_comm]
  · rw [fastEstimate, hashing, Option.map_some]
    refine congrArg some ?_
    calc fastQueryMedian matrixHasher.decode fast.counts hashed _
      _ = Median.computeMedianInline meanF64 0 (fastRows matrixHasher.decode fast hashed) := rfl
      _ = Median.sortMedian meanF64 0 (fastRows matrixHasher.decode fast hashed) :=
        Median.computeMedianInline_eq _ _ meanF64_comm _
      _ = Median.sortMedian meanF64 0 (regularRows hasher regular other) := by rw [sameRows]
      _ = regularEstimate hasher regular other := rfl

/-- Five counters with ties, and two sketches of three rows that hold nothing. -/
theorem medians_agree_five :
    Median.sortMedian (fun left right : ℤ => (left + right) / 2) 0 [4, 1, 4, 2, 1] = 2 ∧
      fastEstimate (MatrixHasher.ofSketchHasher collidingHasher)
          ⟨.vector2D (Vector2D.filled 3 2 0) 1⟩ (.u64 7) =
        some (regularEstimate collidingHasher ⟨.vector2D (Vector2D.filled 3 2 0) 1⟩ (.u64 7)) := by
  obtain ⟨networks, -, paths⟩ := @medians_agree ℤ _ (fun left right => (left + right) / 2)
    (fun left right => by rw [add_comm]) 0 [4, 1, 4, 2, 1] MatrixHashType collidingHasher
    (MatrixHasher.ofSketchHasher collidingHasher) ⟨.vector2D (Vector2D.filled 3 2 0) 1⟩
    ⟨.vector2D (Vector2D.filled 3 2 0) 1⟩ (.u64 7) (.u64 7)
  have median : Median.computeMedianInline (fun left right : ℤ => (left + right) / 2) 0
      [4, 1, 4, 2, 1] = 2 := by decide
  refine ⟨networks.symm.trans median, paths _ rfl ?_⟩
  decide +kernel

end Count

end Stored

end AsapSketchlib
