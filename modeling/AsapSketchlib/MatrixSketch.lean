/-
This file models the Count-Min and the Count sketch on their regular path, where each row
hashes the key on its own: the low half of the hash picks the column and, for Count, the top
bit picks the sign.

Counters are integers, so the model is of streams that overflow no counter.
-/

import AsapSketchlib.Float64
import AsapSketchlib.Hash
import AsapSketchlib.Median
import AsapSketchlib.Vector2D

namespace AsapSketchlib

/-- `if v < min { min = v }` over the rows listed. -/
def runningMin (valueOf : ℕ → ℤ) (rows : List ℕ) (start : ℤ) : ℤ :=
  rows.foldl (fun low row => if valueOf row < low then valueOf row else low) start

theorem runningMin_eq_min (valueOf : ℕ → ℤ) (rows : List ℕ) (left right : ℤ) :
    runningMin valueOf rows (min left right) = min (runningMin valueOf rows left) right := by
  induction rows generalizing left with
  | nil => rfl
  | cons row rest hypothesis =>
    have step : ∀ start, runningMin valueOf (row :: rest) start =
        runningMin valueOf rest (min start (valueOf row)) := by
      intro start
      show runningMin valueOf rest (if valueOf row < start then valueOf row else start) = _
      by_cases below : valueOf row < start
      · rw [if_pos below, min_eq_right below.le]
      · rw [if_neg below, min_eq_left (not_lt.mp below)]
    rw [step, step, min_right_comm, hypothesis]

theorem runningMin_le (valueOf : ℕ → ℤ) (rows : List ℕ) (start : ℤ) :
    runningMin valueOf rows start ≤ start := by
  induction rows generalizing start with
  | nil => exact le_rfl
  | cons row rest hypothesis =>
    show runningMin valueOf rest (if valueOf row < start then valueOf row else start) ≤ start
    refine (hypothesis _).trans ?_
    split
    · rename_i below
      exact below.le
    · exact le_rfl

theorem runningMin_le_of_mem {valueOf : ℕ → ℤ} {rows : List ℕ} {start : ℤ} {row : ℕ}
    (member : row ∈ rows) : runningMin valueOf rows start ≤ valueOf row := by
  induction rows generalizing start with
  | nil => exact absurd member List.not_mem_nil
  | cons first rest hypothesis =>
    rcases List.mem_cons.mp member with rfl | inRest
    · refine (runningMin_le valueOf rest _).trans ?_
      show (if valueOf row < start then valueOf row else start) ≤ valueOf row
      split
      · exact le_rfl
      · rename_i notBelow
        exact not_lt.mp notBelow
    · exact hypothesis inRest

theorem le_runningMin {valueOf : ℕ → ℤ} {rows : List ℕ} {start bound : ℤ} (low : bound ≤ start)
    (each : ∀ row ∈ rows, bound ≤ valueOf row) : bound ≤ runningMin valueOf rows start := by
  induction rows generalizing start with
  | nil => exact low
  | cons row rest hypothesis =>
    refine hypothesis ?_ fun other member => each other (List.mem_cons_of_mem row member)
    show bound ≤ if valueOf row < start then valueOf row else start
    split
    · exact each row List.mem_cons_self
    · exact low

/-! ### Count-Min -/

/-- A Count-Min sketch over `Vector2D`. -/
structure CountMin where
  counts : Vector2D ℤ

namespace CountMin

def withDimensions (rows cols : ℕ) : CountMin := ⟨Vector2D.filled rows cols 0⟩

variable (hasher : SketchHasher)

def colFor (sketch : CountMin) (value : DataInput) (row : ℕ) : ℕ :=
  lower32Col (hasher.hash64Seeded row value) sketch.counts.cols

def insertMany (sketch : CountMin) (value : DataInput) (many : ℤ) : CountMin :=
  ⟨sketch.counts.updateRows (colFor hasher sketch value) fun _ counter => counter + many⟩

def insert (sketch : CountMin) (value : DataInput) : CountMin :=
  insertMany hasher sketch value 1

/-- Returns the frequency estimate: the smallest counter of the key, the running minimum being
seeded from row 0. -/
def estimate (sketch : CountMin) (value : DataInput) : ℤ :=
  let counterOf := fun row => sketch.counts.queryOneCounter row (colFor hasher sketch value row)
  runningMin counterOf (List.range' 1 (sketch.counts.rows - 1)) (counterOf 0)

def applyDelta (sketch : CountMin) (row col : ℕ) (value : ℤ) : CountMin :=
  ⟨sketch.counts.updateOneCounter row col fun counter => counter + value⟩

/-- `CountMin::merge`: adds the counters of a sketch of the same dimensions. -/
def merge (sketch other : CountMin) : Option CountMin :=
  if sketch.counts.rows = other.counts.rows ∧ sketch.counts.cols = other.counts.cols then
    some ⟨sketch.counts.add other.counts⟩
  else none

/-- `CountMin::merge_max`: keeps the larger counters of a sketch of the same dimensions. -/
def mergeMax (sketch other : CountMin) : Option CountMin :=
  if sketch.counts.rows = other.counts.rows ∧ sketch.counts.cols = other.counts.cols then
    some ⟨sketch.counts.maximum other.counts⟩
  else none

def insertAll (sketch : CountMin) (stream : List (DataInput × ℤ)) : CountMin :=
  stream.foldl (fun sketch entry => insertMany hasher sketch entry.1 entry.2) sketch

variable {hasher}

variable (sketch : CountMin)

@[simp] theorem insertMany_rows (value : DataInput) (many : ℤ) :
    (insertMany hasher sketch value many).counts.rows = sketch.counts.rows := rfl

@[simp] theorem insertMany_cols (value : DataInput) (many : ℤ) :
    (insertMany hasher sketch value many).counts.cols = sketch.counts.cols := rfl

@[simp] theorem insertAll_rows (stream : List (DataInput × ℤ)) :
    (insertAll hasher sketch stream).counts.rows = sketch.counts.rows := by
  induction stream generalizing sketch with
  | nil => rfl
  | cons entry rest hypothesis => exact hypothesis _

@[simp] theorem insertAll_cols (stream : List (DataInput × ℤ)) :
    (insertAll hasher sketch stream).counts.cols = sketch.counts.cols := by
  induction stream generalizing sketch with
  | nil => rfl
  | cons entry rest hypothesis => exact hypothesis _

theorem queryOneCounter_insertMany (value : DataInput) (many : ℤ) {row col : ℕ}
    (rowInside : row < sketch.counts.rows) (colInside : col < sketch.counts.cols) :
    (insertMany hasher sketch value many).counts.queryOneCounter row col =
      sketch.counts.queryOneCounter row col +
        if lower32Col (hasher.hash64Seeded row value) sketch.counts.cols = col then many else 0 :=
  Vector2D.queryOneCounter_updateRows sketch.counts _ (fun _ => many)
    (fun _ => lower32Col_lt _ _ (Nat.zero_lt_of_lt colInside)) rowInside colInside

end CountMin

/-! ### Count -/

def rowSign (hashed : BitVec 64) : ℤ := if (hashed >>> 63) &&& 1#64 = 1#64 then 1 else -1

theorem rowSign_cases (hashed : BitVec 64) : rowSign hashed = 1 ∨ rowSign hashed = -1 := by
  unfold rowSign
  split
  · exact Or.inl rfl
  · exact Or.inr rfl

/-- A Count sketch over `Vector2D`. -/
structure Count where
  counts : Vector2D ℤ

namespace Count

def withDimensions (rows cols : ℕ) : Count := ⟨Vector2D.filled rows cols 0⟩

variable (hasher : SketchHasher)

def colFor (sketch : Count) (value : DataInput) (row : ℕ) : ℕ :=
  lower32Col (hasher.hash64Seeded row value) sketch.counts.cols

def insertMany (sketch : Count) (value : DataInput) (many : ℤ) : Count :=
  ⟨sketch.counts.updateRows (colFor hasher sketch value) fun row counter =>
    counter + if 0 < rowSign (hasher.hash64Seeded row value) then many else -many⟩

def insert (sketch : Count) (value : DataInput) : Count := insertMany hasher sketch value 1

def rowEstimate (sketch : Count) (value : DataInput) (row : ℕ) : ℚ :=
  let counter := sketch.counts.queryOneCounter row (colFor hasher sketch value row)
  if 0 < rowSign (hasher.hash64Seeded row value) then intAsF64 counter else -intAsF64 counter

def estimate (sketch : Count) (value : DataInput) : ℚ :=
  Median.sortMedian meanF64 0 ((List.range sketch.counts.rows).map (rowEstimate hasher sketch value))

def applyDelta (sketch : Count) (row col : ℕ) (value : ℤ) : Count :=
  ⟨sketch.counts.updateOneCounter row col fun counter => counter + value⟩

def insertAll (sketch : Count) (stream : List (DataInput × ℤ)) : Count :=
  stream.foldl (fun sketch entry => insertMany hasher sketch entry.1 entry.2) sketch

variable {hasher}

@[simp] theorem insertMany_rows (sketch : Count) (value : DataInput) (many : ℤ) :
    (insertMany hasher sketch value many).counts.rows = sketch.counts.rows := rfl

@[simp] theorem insertMany_cols (sketch : Count) (value : DataInput) (many : ℤ) :
    (insertMany hasher sketch value many).counts.cols = sketch.counts.cols := rfl

theorem signed_eq_mul (hashed : BitVec 64) (many : ℤ) :
    (if 0 < rowSign hashed then many else -many) = rowSign hashed * many := by
  rcases rowSign_cases hashed with sign | sign
  · rw [sign, if_pos (by decide), one_mul]
  · rw [sign, if_neg (by decide), neg_one_mul]

theorem queryOneCounter_insertMany (sketch : Count) (value : DataInput) (many : ℤ)
    {row col : ℕ} (rowInside : row < sketch.counts.rows) (colInside : col < sketch.counts.cols) :
    (insertMany hasher sketch value many).counts.queryOneCounter row col =
      sketch.counts.queryOneCounter row col +
        if lower32Col (hasher.hash64Seeded row value) sketch.counts.cols = col then
          rowSign (hasher.hash64Seeded row value) * many
        else 0 := by
  rw [← signed_eq_mul]
  exact Vector2D.queryOneCounter_updateRows sketch.counts _
    (fun row => if 0 < rowSign (hasher.hash64Seeded row value) then many else -many)
    (fun _ => lower32Col_lt _ _ (Nat.zero_lt_of_lt colInside)) rowInside colInside

theorem rowEstimate_eq (sketch : Count) (value : DataInput) (row : ℕ) :
    rowEstimate hasher sketch value row = intAsF64 (rowSign (hasher.hash64Seeded row value) *
      sketch.counts.queryOneCounter row (colFor hasher sketch value row)) := by
  unfold rowEstimate
  rcases rowSign_cases (hasher.hash64Seeded row value) with sign | sign
  · rw [sign, if_pos (by decide), one_mul]
  · rw [sign, if_neg (by decide), neg_one_mul, intAsF64_neg]

end Count

end AsapSketchlib
