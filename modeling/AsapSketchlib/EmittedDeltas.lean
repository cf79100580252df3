/-
This file models the emitting inserts of Count-Min and of Count on both paths and says for which
hashers their workers lose nothing. On the fast path both inserts of a sketch decode one hash; on
the regular path the emitting one hashes by itself, with the default hasher.
-/

import AsapSketchlib.FastPath
import AsapSketchlib.PromotedCounters

namespace AsapSketchlib

/-! ### Hash types of the fast path -/

/-- The `MatrixFastHash` trait: how the bits of a hash are cut into columns and signs. A column is
the folded bits of its row, of which the mask keeps the lowest, and a sign is one of two. -/
structure MatrixFastHash (HashType : Type) where
  rowHash : HashType → ℕ → ℕ → ℕ
  colForRow : HashType → ℕ → ℕ → ℕ
  signForRow : HashType → ℕ → ℤ
  rowHash_lt : ∀ hashed row maskBits, rowHash hashed row maskBits < 2 ^ maskBits
  colForRow_eq : ∀ hashed row cols, colForRow hashed row cols =
    MatrixHashType.foldToCol (rowHash hashed row (colsMaskBits cols)) cols
  signForRow_cases : ∀ hashed row, signForRow hashed row = 1 ∨ signForRow hashed row = -1

namespace MatrixHashType

/-- The sign of one row: a bit for each row from the top of a packed hash, the top bit of the
row's own hash otherwise. -/
def signForRow (hashed : MatrixHashType) (row : ℕ) : ℤ :=
  (match hashed with
    | packed64 value => (value >>> (63 - row)).toNat % 2
    | packed128 value => (value >>> (127 - row)).toNat % 2
    | rows values => ((values.getD row 0) >>> 63).toNat % 2 : ℕ) * 2 - 1

/-- The hash type of the crate. Its packed variants are the implementations for `u64` and
`u128`. -/
def fastHash : MatrixFastHash MatrixHashType where
  rowHash := rowHash
  colForRow := colForRow
  signForRow := signForRow
  rowHash_lt := rowHash_lt
  colForRow_eq := fun _ _ _ => rfl
  signForRow_cases := by
    intro hashed row
    have bit : ∀ bit : ℕ, ((bit % 2 : ℕ) : ℤ) * 2 - 1 = 1 ∨ ((bit % 2 : ℕ) : ℤ) * 2 - 1 = -1 := by
      intro bit
      omega
    cases hashed <;> exact bit _

end MatrixHashType

/-- The storages with `i32` counters: `Vector2D`, which decodes columns with its cached mask, and
the matrices of fixed dimensions. -/
inductive Storage where
  | vector2D
  | fixedMatrix

namespace MatrixFastHash

variable {HashType : Type} (fast : MatrixFastHash HashType)

/-- The column `fast_insert` of a storage takes for a row. -/
def insertCol (storage : Storage) (hashed : HashType) (row cols : ℕ) : ℕ :=
  match storage with
  | .vector2D => MatrixHashType.foldToCol (fast.rowHash hashed row (colsMaskBits cols)) cols
  | .fixedMatrix => fast.colForRow hashed row cols

theorem insertCol_eq (storage : Storage) (hashed : HashType) (row cols : ℕ) :
    fast.insertCol storage hashed row cols = fast.colForRow hashed row cols := by
  cases storage with
  | vector2D => exact (fast.colForRow_eq hashed row cols).symm
  | fixedMatrix => rfl

end MatrixFastHash

/-! ### The four sketches -/

open Matrix32

namespace CountMinRegular

/-- `CountMin<S, RegularPath, H>::insert`. -/
def insert (hasher : SketchHasher) (matrix : Vector2D Counter32) (value : DataInput) :
    Vector2D Counter32 :=
  insertRows ⟨fun row => lower32Col (hasher.hash64Seeded row value) matrix.cols, fun _ => 1⟩ matrix

/-- `CountMin<S, RegularPath, H>::insert_emit_delta_with_threshold`, which hashes with the free
function `hash64_seeded`. -/
def insertEmitDeltaWithThreshold (xxh : XxHash3) (matrix : Vector2D Counter32) (value : DataInput)
    (threshold : ℕ) : Vector2D Counter32 × List Delta32 :=
  emitRows ⟨fun row => lower32Col (hash64Seeded xxh row value) matrix.cols, fun _ => 1⟩
    (reaches threshold) matrix

end CountMinRegular

namespace CountRegular

/-- `Count<S, RegularPath, H>::insert`. -/
def insert (hasher : SketchHasher) (matrix : Vector2D Counter32) (value : DataInput) :
    Vector2D Counter32 :=
  insertRows ⟨fun row => lower32Col (hasher.hash64Seeded row value) matrix.cols,
    fun row => if 0 < rowSign (hasher.hash64Seeded row value) then 1 else -1⟩ matrix

/-- `Count<S, RegularPath, H>::insert_emit_delta_with_threshold`, which hashes with the free
function `hash64_seeded`. -/
def insertEmitDeltaWithThreshold (xxh : XxHash3) (matrix : Vector2D Counter32) (value : DataInput)
    (threshold : ℕ) : Vector2D Counter32 × List Delta32 :=
  emitRows ⟨fun row => lower32Col (hash64Seeded xxh row value) matrix.cols,
    fun row => BitVec.ofInt 32 (rowSign (hash64Seeded xxh row value))⟩ (magnitudeReaches threshold)
    matrix

end CountRegular

section FastPath

variable {HashType : Type} (fast : MatrixFastHash HashType)
  (hashForMatrix : ℕ → ℕ → DataInput → HashType)

namespace CountMinFast

/-- `CountMin<S, FastPath, H>::insert`. -/
def insert (storage : Storage) (matrix : Vector2D Counter32) (value : DataInput) :
    Vector2D Counter32 :=
  let hashed := hashForMatrix matrix.rows matrix.cols value
  insertRows ⟨fun row => fast.insertCol storage hashed row matrix.cols, fun _ => 1⟩ matrix

/-- `CountMin<S, FastPath, H>::insert_emit_delta_with_threshold`. -/
def insertEmitDeltaWithThreshold (matrix : Vector2D Counter32) (value : DataInput)
    (threshold : ℕ) : Vector2D Counter32 × List Delta32 :=
  let hashed := hashForMatrix matrix.rows matrix.cols value
  emitRows ⟨fun row => fast.colForRow hashed row matrix.cols, fun _ => 1⟩ (reaches threshold) matrix

end CountMinFast

namespace CountFast

/-- `Count<S, FastPath, H>::insert`. -/
def insert (storage : Storage) (matrix : Vector2D Counter32) (value : DataInput) :
    Vector2D Counter32 :=
  let hashed := hashForMatrix matrix.rows matrix.cols value
  insertRows ⟨fun row => fast.insertCol storage hashed row matrix.cols,
    fun row => if 0 < fast.signForRow hashed row then 1 else -1⟩ matrix

/-- `Count<S, FastPath, H>::insert_emit_delta_with_threshold`. -/
def insertEmitDeltaWithThreshold (matrix : Vector2D Counter32) (value : DataInput)
    (threshold : ℕ) : Vector2D Counter32 × List Delta32 :=
  let hashed := hashForMatrix matrix.rows matrix.cols value
  emitRows ⟨fun row => fast.colForRow hashed row matrix.cols,
    fun row => BitVec.ofInt 32 (fast.signForRow hashed row)⟩ (magnitudeReaches threshold) matrix

end CountFast

end FastPath

/-! ### The pairs of the four sketches -/

theorem rows_fit_iff {rows : ℕ} : (∀ row < rows, row < 2 ^ 32) ↔ rows ≤ 2 ^ 32 := by
  refine ⟨fun fits => ?_, fun few row inside => inside.trans_le few⟩
  by_contra many
  exact lt_irrefl _ (fits (2 ^ 32) (not_le.mp many))

/-- The sign a plain insert of Count adds is the sign an emitting one adds exactly if they are the
same sign. -/
theorem signs_agree_iff {left right : ℤ} (leftSign : left = 1 ∨ left = -1)
    (rightSign : right = 1 ∨ right = -1) :
    BitVec.ofInt 32 left = (if 0 < right then (1 : Counter32) else -1) ↔ left = right := by
  rcases leftSign with rfl | rfl <;> rcases rightSign with rfl | rfl <;> decide

theorem magnitudeReaches_sign {sign : ℤ} (isSign : sign = 1 ∨ sign = -1) :
    magnitudeReaches 1 (BitVec.ofInt 32 sign) = true ∧
      magnitudeReaches 127 (BitVec.ofInt 32 sign) = false := by
  rcases isSign with rfl | rfl <;> decide

theorem reaches_one : reaches 1 1 = true ∧ reaches 127 1 = false := by decide

theorem one_ne_zero32 : (1 : Counter32) ≠ 0 := by decide

theorem signed_ne_zero32 (sign : ℤ) : (if 0 < sign then (1 : Counter32) else -1) ≠ 0 := by
  split <;> decide

section Regular

variable (xxh : XxHash3) (hasher : SketchHasher)

def CountMinRegular.pair : Pair where
  insertPlace := fun _ cols value =>
    ⟨fun row => lower32Col (hasher.hash64Seeded row value) cols, fun _ => 1⟩
  emitPlace := fun _ cols value =>
    ⟨fun row => lower32Col (hash64Seeded xxh row value) cols, fun _ => 1⟩
  met := reaches
  insertInside := fun _ cols _ _ positive => lower32Col_lt _ cols positive
  emitInside := fun _ cols _ _ positive => lower32Col_lt _ cols positive
  insertNonzero := fun _ _ _ _ => one_ne_zero32
  metAtOne := fun _ _ _ _ => reaches_one.1
  unmetAtMax := fun _ _ _ _ => reaches_one.2

def CountRegular.pair : Pair where
  insertPlace := fun _ cols value => ⟨fun row => lower32Col (hasher.hash64Seeded row value) cols,
    fun row => if 0 < rowSign (hasher.hash64Seeded row value) then 1 else -1⟩
  emitPlace := fun _ cols value => ⟨fun row => lower32Col (hash64Seeded xxh row value) cols,
    fun row => BitVec.ofInt 32 (rowSign (hash64Seeded xxh row value))⟩
  met := magnitudeReaches
  insertInside := fun _ cols _ _ positive => lower32Col_lt _ cols positive
  emitInside := fun _ cols _ _ positive => lower32Col_lt _ cols positive
  insertNonzero := fun _ _ _ _ => signed_ne_zero32 _
  metAtOne := fun _ _ _ _ => (magnitudeReaches_sign (rowSign_cases _)).1
  unmetAtMax := fun _ _ _ _ => (magnitudeReaches_sign (rowSign_cases _)).2

theorem CountMinRegular.pair_insert : (pair xxh hasher).insert = insert hasher := rfl

theorem CountMinRegular.pair_emit :
    (pair xxh hasher).emit = insertEmitDeltaWithThreshold xxh := rfl

theorem CountRegular.pair_insert : (pair xxh hasher).insert = insert hasher := rfl

theorem CountRegular.pair_emit : (pair xxh hasher).emit = insertEmitDeltaWithThreshold xxh := rfl

end Regular

section Fast

variable {HashType : Type} (fast : MatrixFastHash HashType)
  (hashForMatrix : ℕ → ℕ → DataInput → HashType) (storage : Storage)

namespace MatrixFastHash

variable (hashed : HashType) (row : ℕ) {cols : ℕ} (positive : 0 < cols)

include positive

theorem colForRow_lt : fast.colForRow hashed row cols < cols := by
  rw [fast.colForRow_eq]
  unfold MatrixHashType.foldToCol
  by_cases power : 2 ^ Nat.log2 cols = cols
  · have inside := fast.rowHash_lt hashed row (colsMaskBits cols)
    rw [if_pos power]
    rwa [show 2 ^ colsMaskBits cols = cols by rw [colsMaskBits, if_pos power, power]] at inside
  · rw [if_neg power]
    exact Nat.mod_lt _ positive

theorem insertCol_lt : fast.insertCol storage hashed row cols < cols := by
  rw [fast.insertCol_eq]
  exact fast.colForRow_lt hashed row positive

end MatrixFastHash

def CountMinFast.pair : Pair where
  insertPlace := fun rows cols value =>
    ⟨fun row => fast.insertCol storage (hashForMatrix rows cols value) row cols, fun _ => 1⟩
  emitPlace := fun rows cols value =>
    ⟨fun row => fast.colForRow (hashForMatrix rows cols value) row cols, fun _ => 1⟩
  met := reaches
  insertInside := fun _ _ _ _ positive => fast.insertCol_lt storage _ _ positive
  emitInside := fun _ _ _ _ positive => fast.colForRow_lt _ _ positive
  insertNonzero := fun _ _ _ _ => one_ne_zero32
  metAtOne := fun _ _ _ _ => reaches_one.1
  unmetAtMax := fun _ _ _ _ => reaches_one.2

def CountFast.pair : Pair where
  insertPlace := fun rows cols value =>
    ⟨fun row => fast.insertCol storage (hashForMatrix rows cols value) row cols,
      fun row => if 0 < fast.signForRow (hashForMatrix rows cols value) row then 1 else -1⟩
  emitPlace := fun rows cols value =>
    ⟨fun row => fast.colForRow (hashForMatrix rows cols value) row cols,
      fun row => BitVec.ofInt 32 (fast.signForRow (hashForMatrix rows cols value) row)⟩
  met := magnitudeReaches
  insertInside := fun _ _ _ _ positive => fast.insertCol_lt storage _ _ positive
  emitInside := fun _ _ _ _ positive => fast.colForRow_lt _ _ positive
  insertNonzero := fun _ _ _ _ => signed_ne_zero32 _
  metAtOne := fun _ _ _ _ => (magnitudeReaches_sign (fast.signForRow_cases _ _)).1
  unmetAtMax := fun _ _ _ _ => (magnitudeReaches_sign (fast.signForRow_cases _ _)).2

theorem CountMinFast.pair_insert :
    (pair fast hashForMatrix storage).insert = insert fast hashForMatrix storage := rfl

theorem CountMinFast.pair_emit : (pair fast hashForMatrix storage).emit =
    insertEmitDeltaWithThreshold fast hashForMatrix := rfl

theorem CountFast.pair_insert :
    (pair fast hashForMatrix storage).insert = insert fast hashForMatrix storage := rfl

theorem CountFast.pair_emit : (pair fast hashForMatrix storage).emit =
    insertEmitDeltaWithThreshold fast hashForMatrix := rfl

theorem CountMinFast.agrees_iff {rows cols : ℕ} :
    (CountMinFast.pair fast hashForMatrix storage).Agrees rows cols ↔ rows ≤ 2 ^ 32 ∧
      ∀ value, ∀ row < rows, fast.colForRow (hashForMatrix rows cols value) row cols < 2 ^ 32 := by
  simp only [Pair.Agrees, CountMinFast.pair, fast.insertCol_eq, true_and]
  exact ⟨fun agrees => ⟨rows_fit_iff.mp fun row inside => (agrees (.u64 0) row inside).1,
    fun value row inside => (agrees value row inside).2⟩,
    fun ⟨few, fits⟩ value row inside => ⟨rows_fit_iff.mpr few row inside, fits value row inside⟩⟩

theorem CountFast.agrees_iff {rows cols : ℕ} :
    (CountFast.pair fast hashForMatrix storage).Agrees rows cols ↔ rows ≤ 2 ^ 32 ∧
      ∀ value, ∀ row < rows, fast.colForRow (hashForMatrix rows cols value) row cols < 2 ^ 32 := by
  have signs := fun value row => (signs_agree_iff
    (fast.signForRow_cases (hashForMatrix rows cols value) row)
    (fast.signForRow_cases (hashForMatrix rows cols value) row)).mpr rfl
  simp only [Pair.Agrees, CountFast.pair, fast.insertCol_eq, signs, true_and]
  exact ⟨fun agrees => ⟨rows_fit_iff.mp fun row inside => (agrees (.u64 0) row inside).1,
    fun value row inside => (agrees value row inside).2⟩,
    fun ⟨few, fits⟩ value row inside => ⟨rows_fit_iff.mpr few row inside, fits value row inside⟩⟩

end Fast

theorem CountMinRegular.agrees_iff (xxh : XxHash3) (hasher : SketchHasher) {rows cols : ℕ} :
    (CountMinRegular.pair xxh hasher).Agrees rows cols ↔ rows ≤ 2 ^ 32 ∧
      ∀ value, ∀ row < rows, lower32Col (hash64Seeded xxh row value) cols =
        lower32Col (hasher.hash64Seeded row value) cols := by
  simp only [Pair.Agrees, CountMinRegular.pair, true_and]
  exact ⟨fun agrees => ⟨rows_fit_iff.mp fun row inside => (agrees (.u64 0) row inside).2.1,
    fun value row inside => (agrees value row inside).1⟩,
    fun ⟨few, same⟩ value row inside => ⟨same value row inside, rows_fit_iff.mpr few row inside,
      lower32Col_lt_two_pow _ _⟩⟩

theorem CountRegular.agrees_iff (xxh : XxHash3) (hasher : SketchHasher) {rows cols : ℕ} :
    (CountRegular.pair xxh hasher).Agrees rows cols ↔ rows ≤ 2 ^ 32 ∧
      ∀ value, ∀ row < rows, lower32Col (hash64Seeded xxh row value) cols =
          lower32Col (hasher.hash64Seeded row value) cols ∧
        rowSign (hash64Seeded xxh row value) = rowSign (hasher.hash64Seeded row value) := by
  have signs := fun value row => @signs_agree_iff (rowSign (hash64Seeded xxh row value))
    (rowSign (hasher.hash64Seeded row value)) (rowSign_cases _) (rowSign_cases _)
  simp only [Pair.Agrees, CountRegular.pair, signs]
  exact ⟨fun agrees => ⟨rows_fit_iff.mp fun row inside => (agrees (.u64 0) row inside).2.2.1,
    fun value row inside => ⟨(agrees value row inside).1, (agrees value row inside).2.1⟩⟩,
    fun ⟨few, same⟩ value row inside => ⟨(same value row inside).1, (same value row inside).2,
      rows_fit_iff.mpr few row inside, lower32Col_lt_two_pow _ _⟩⟩

/-- When a worker and its deltas reproduce the sketch of every stream, over any hasher, hash type
and storage and any dimensions. The rows always have to fit the `u32` of a delta. On the regular
path the default hash of each key has to give the column of the hasher in each row, and for Count
its sign too; on the fast path the columns only have to fit. -/
theorem emitted_and_kept_reproduce_iff (xxh : XxHash3) (hasher : SketchHasher) {HashType : Type}
    (fast : MatrixFastHash HashType) (hashForMatrix : ℕ → ℕ → DataInput → HashType)
    (storage : Storage) (rows cols : ℕ) (positive : 0 < cols) :
    (Reproduces (CountMinRegular.insert hasher) (CountMinRegular.insertEmitDeltaWithThreshold xxh)
        rows cols ↔
      rows ≤ 2 ^ 32 ∧ ∀ value, ∀ row < rows, lower32Col (hash64Seeded xxh row value) cols =
        lower32Col (hasher.hash64Seeded row value) cols) ∧
    (Reproduces (CountRegular.insert hasher) (CountRegular.insertEmitDeltaWithThreshold xxh)
        rows cols ↔
      rows ≤ 2 ^ 32 ∧ ∀ value, ∀ row < rows, lower32Col (hash64Seeded xxh row value) cols =
          lower32Col (hasher.hash64Seeded row value) cols ∧
        rowSign (hash64Seeded xxh row value) = rowSign (hasher.hash64Seeded row value)) ∧
    (Reproduces (CountMinFast.insert fast hashForMatrix storage)
        (CountMinFast.insertEmitDeltaWithThreshold fast hashForMatrix) rows cols ↔
      rows ≤ 2 ^ 32 ∧
        ∀ value, ∀ row < rows, fast.colForRow (hashForMatrix rows cols value) row cols < 2 ^ 32) ∧
    (Reproduces (CountFast.insert fast hashForMatrix storage)
        (CountFast.insertEmitDeltaWithThreshold fast hashForMatrix) rows cols ↔
      rows ≤ 2 ^ 32 ∧ ∀ value, ∀ row < rows,
        fast.colForRow (hashForMatrix rows cols value) row cols < 2 ^ 32) := by
  refine ⟨?_, ?_, ?_, ?_⟩
  · rw [← CountMinRegular.pair_insert xxh hasher, ← CountMinRegular.pair_emit xxh hasher,
      Pair.reproduces_iff positive, CountMinRegular.agrees_iff]
  · rw [← CountRegular.pair_insert xxh hasher, ← CountRegular.pair_emit xxh hasher,
      Pair.reproduces_iff positive, CountRegular.agrees_iff]
  · rw [← CountMinFast.pair_insert, ← CountMinFast.pair_emit fast hashForMatrix storage,
      Pair.reproduces_iff positive, CountMinFast.agrees_iff]
  · rw [← CountFast.pair_insert, ← CountFast.pair_emit fast hashForMatrix storage,
      Pair.reproduces_iff positive, CountFast.agrees_iff]

/-- With the default hasher the workers of the regular path do. -/
theorem emitted_and_kept_reproduce_default :
    Reproduces (CountMinRegular.insert (defaultXxHasher plainXxHash))
        (CountMinRegular.insertEmitDeltaWithThreshold plainXxHash) 3 4096 ∧
      Reproduces (CountRegular.insert (defaultXxHasher plainXxHash))
        (CountRegular.insertEmitDeltaWithThreshold plainXxHash) 3 4096 := by
  obtain ⟨countMin, count, -, -⟩ := emitted_and_kept_reproduce_iff plainXxHash
    (defaultXxHasher plainXxHash) MatrixHashType.fastHash
    (hashForMatrixSeeded (defaultXxHasher plainXxHash) 0) .vector2D 3 4096 (by decide)
  exact ⟨countMin.mpr ⟨by decide, fun _ _ _ => rfl⟩, count.mpr ⟨by decide, fun _ _ _ => ⟨rfl, rfl⟩⟩⟩

/-- With a hasher under which all keys share a column they do not: one key is emitted for the
column of the default hash. -/
theorem emitted_and_kept_lost :
    ¬Reproduces (CountMinRegular.insert collidingHasher)
        (CountMinRegular.insertEmitDeltaWithThreshold plainXxHash) 1 4 ∧
      ¬Reproduces (CountRegular.insert collidingHasher)
        (CountRegular.insertEmitDeltaWithThreshold plainXxHash) 1 4 := by
  constructor
  · intro reproduces
    exact absurd (reproduces [(.u64 1, 1)] 0 (by decide) 0 (by decide)) (by decide +kernel)
  · intro reproduces
    exact absurd (reproduces [(.u64 1, 1)] 0 (by decide) 0 (by decide)) (by decide +kernel)

end AsapSketchlib
