/-
This file models the running estimate of the HIP sketch over any arithmetic of its sums, with the
shift by a register that overflows at the width of the word, and proves over the rationals that the
two sums are those of the registers below and from 32 on. Only in two registers can a rank reach
the width of the word; there the shift overflows.
-/

import AsapSketchlib.HllTrees
import Mathlib.Algebra.Order.BigOperators.Group.List

namespace AsapSketchlib

/-! ### The sketch over an arithmetic -/

/-- The arithmetic of the running estimate. -/
structure HipArithmetic (Num : Type) where
  zero : Num
  ofInt : ℤ → Num
  add : Num → Num → Num
  sub : Num → Num → Num
  div : Num → Num → Num

def HipArithmetic.f64 : HipArithmetic F64 := ⟨F64.zero, F64.ofInt, F64.add, F64.sub, F64.div⟩

def HipArithmetic.rational : HipArithmetic ℚ := ⟨0, fun value => value, (· + ·), (· - ·), (· / ·)⟩

/-- `1_u64 << value`. Where the shift overflows it panics if it is checked, and wraps if not. -/
def shiftOne (checked : Bool) (value : ℕ) : Option ℕ :=
  if value < 64 then some (2 ^ value) else if checked then none else some (2 ^ (value % 64))

/-- `HyperLogLogHIPImpl` over a type of numbers. -/
structure Hip (Num : Type) (precision : ℕ) where
  registers : List ℕ
  kxq0 : Num
  kxq1 : Num
  est : Num
  sized : registers.length = 2 ^ precision

namespace Hip

variable {Num : Type} {precision : ℕ}

theorem length_zeros (precision : ℕ) :
    (List.replicate (2 ^ precision) 0).length = 2 ^ precision := List.length_replicate

def new (arith : HipArithmetic Num) (precision : ℕ) : Hip Num precision where
  registers := List.replicate _ 0
  kxq0 := arith.ofInt (2 ^ precision)
  kxq1 := arith.zero
  est := arith.zero
  sized := length_zeros precision

/-- The sketch in which a register was raised from an old value to a new one. -/
def raised (arith : HipArithmetic Num) (sketch : Hip Num precision) (hashed : BitVec 64)
    (oldValue oldPower newValue newPower : ℕ) : Hip Num precision :=
  let taken := arith.div (arith.ofInt 1) (arith.ofInt oldPower)
  let added := arith.div (arith.ofInt 1) (arith.ofInt newPower)
  let taken0 := if oldValue < 32 then arith.sub sketch.kxq0 taken else sketch.kxq0
  let taken1 := if oldValue < 32 then sketch.kxq1 else arith.sub sketch.kxq1 taken
  { registers := Registers.raise sketch.registers (Hll.update precision hashed)
    kxq0 := if newValue < 32 then arith.add taken0 added else taken0
    kxq1 := if newValue < 32 then taken1 else arith.add taken1 added
    est := arith.add sketch.est
      (arith.div (arith.ofInt (2 ^ precision)) (arith.add sketch.kxq0 sketch.kxq1))
    sized := (Registers.length_raise _ _).trans sketch.sized }

/-- Inserts a hashed value. There is no sketch where a shift panics. -/
def insertWithHash (arith : HipArithmetic Num) (checked : Bool) (sketch : Hip Num precision)
    (hashed : BitVec 64) : Option (Hip Num precision) :=
  let oldValue := sketch.registers.getD (Hll.bucketNum precision hashed) 0
  let newValue := Hll.leadingZero precision hashed
  if oldValue < newValue then
    (shiftOne checked oldValue).bind fun oldPower =>
      (shiftOne checked newValue).map fun newPower =>
        sketch.raised arith hashed oldValue oldPower newValue newPower
  else some sketch

def insertManyWithHashes (arith : HipArithmetic Num) (checked : Bool) (sketch : Hip Num precision)
    (hashes : List (BitVec 64)) : Option (Hip Num precision) :=
  hashes.foldlM (insertWithHash arith checked) sketch

/-- A new sketch that hashes were inserted into. -/
def run (arith : HipArithmetic Num) (checked : Bool) (precision : ℕ)
    (hashes : List (BitVec 64)) : Option (Hip Num precision) :=
  insertManyWithHashes arith checked (new arith precision) hashes

/-- Over `f64`, with shifts that wrap, this is the HIP sketch. -/
def ofF64 (sketch : HyperLogLogHIP precision) : Hip F64 precision :=
  ⟨sketch.registers, sketch.kxq0, sketch.kxq1, sketch.est, sketch.sized⟩

theorem shiftOne_wrapping (value : ℕ) : shiftOne false value = some (2 ^ (value % 64)) := by
  unfold shiftOne
  split
  · next inside => rw [Nat.mod_eq_of_lt inside]
  · rfl

theorem insertWithHash_f64 (sketch : HyperLogLogHIP precision) (hashed : BitVec 64) :
    (ofF64 sketch).insertWithHash .f64 false hashed =
      some (ofF64 (sketch.insertWithHash hashed)) := by
  unfold insertWithHash HyperLogLogHIP.insertWithHash
  simp only [shiftOne_wrapping, Option.bind_some, Option.map_some]
  by_cases raises : sketch.registers.getD (Hll.bucketNum precision hashed) 0 <
      Hll.leadingZero precision hashed
  · have raisesHere : (ofF64 sketch).registers.getD (Hll.bucketNum precision hashed) 0 <
        Hll.leadingZero precision hashed := raises
    rw [if_pos raisesHere, if_pos raises]
    have power : ∀ value : ℕ, HipArithmetic.f64.div (HipArithmetic.f64.ofInt 1)
        (HipArithmetic.f64.ofInt ((2 ^ (value % 64) : ℕ) : ℤ)) =
          HyperLogLogHIP.inversePower value := by
      intro value
      rw [Nat.cast_pow]
      rfl
    unfold raised
    simp only [power]
    rfl
  · have staysHere : ¬(ofF64 sketch).registers.getD (Hll.bucketNum precision hashed) 0 <
        Hll.leadingZero precision hashed := raises
    rw [if_neg staysHere, if_neg raises]

theorem new_f64 (precision : ℕ) : ofF64 (HyperLogLogHIP.new precision) = new .f64 precision := rfl

/-! ### The registers -/

variable {arith : HipArithmetic Num} {checked : Bool}

theorem registers_insertWithHash {sketch next : Hip Num precision} {hashed : BitVec 64}
    (inserted : sketch.insertWithHash arith checked hashed = some next) :
    next.registers = Registers.raise sketch.registers (Hll.update precision hashed) := by
  have inside : Hll.bucketNum precision hashed < sketch.registers.length :=
    (Hll.bucketNum_lt precision hashed).trans_eq sketch.sized.symm
  simp only [insertWithHash] at inserted
  split at inserted
  · obtain ⟨oldPower, -, later⟩ := Option.bind_eq_some_iff.mp inserted
    obtain ⟨newPower, -, rfl⟩ := Option.map_eq_some_iff.mp later
    rfl
  · next reached =>
    rw [List.getD_eq_getElem _ 0 inside, not_lt] at reached
    rw [← Option.some.inj inserted]
    exact (Registers.raise_of_reaches ⟨_, List.getElem?_eq_getElem inside, reached⟩).symm

theorem registers_insertManyWithHashes {sketch last : Hip Num precision}
    {hashes : List (BitVec 64)}
    (inserted : sketch.insertManyWithHashes arith checked hashes = some last) :
    last.registers =
      Registers.raiseAll sketch.registers (hashes.map (Hll.update precision)) := by
  induction hashes generalizing sketch with
  | nil => rw [← Option.some.inj inserted]; rfl
  | cons hashed rest hypothesis =>
    obtain ⟨next, first, later⟩ := Option.bind_eq_some_iff.mp inserted
    rw [hypothesis later, registers_insertWithHash first]
    rfl

theorem registers_run (atLeast : 1 ≤ precision) (atMost : precision ≤ 63)
    {sketch : Hip Num precision} {hashes : List (BitVec 64)}
    (ran : run arith checked precision hashes = some sketch) {place : ℕ}
    (inside : place < 2 ^ precision) :
    sketch.registers[place]? = some (Hll.maxRank precision place hashes) := by
  refine Hll.getElem?_of_reaches sketch.sized (fun place value => ?_) inside
  rw [registers_insertManyWithHashes ran, Registers.reaches_raiseAll]
  show Registers.Reaches (List.replicate (2 ^ precision) 0) place value ∨
    place < (List.replicate (2 ^ precision) 0).length ∧ _ ↔ _
  rw [List.length_replicate]
  have empty : Registers.Reaches (List.replicate (2 ^ precision) 0) place value ↔
      place < 2 ^ precision ∧ value = 0 := by
    unfold Registers.Reaches
    by_cases inside : place < 2 ^ precision
    · rw [List.getElem?_replicate, if_pos inside]
      simp [inside]
    · rw [List.getElem?_replicate, if_neg inside]
      simp [inside]
  rw [empty, ← and_or_left]
  refine and_congr_right fun _ => or_congr_right ?_
  simp only [List.mem_map, exists_exists_and_eq_and, Hll.update_eq atLeast atMost]

/-! ### The two sums -/

/-- The sum of `2^-r` over the registers below 32. -/
def lowSum (registers : List ℕ) : ℚ :=
  (registers.map fun register => if register < 32 then (1 : ℚ) / 2 ^ register else 0).sum

/-- The sum of `2^-r` over the registers from 32 on. -/
def highSum (registers : List ℕ) : ℚ :=
  (registers.map fun register => if register < 32 then 0 else (1 : ℚ) / 2 ^ register).sum

/-- The sum of `2^-r` over all registers. -/
def harmonic (registers : List ℕ) : ℚ :=
  (registers.map fun register => (1 : ℚ) / 2 ^ register).sum

theorem lowSum_add_highSum (registers : List ℕ) :
    lowSum registers + highSum registers = harmonic registers := by
  unfold lowSum highSum harmonic
  induction registers with
  | nil => exact add_zero 0
  | cons register rest hypothesis =>
    rw [List.map_cons, List.map_cons, List.map_cons, List.sum_cons, List.sum_cons, List.sum_cons,
      ← hypothesis]
    split <;> ring

theorem harmonic_pos {registers : List ℕ} (some : registers ≠ []) : 0 < harmonic registers := by
  refine List.sum_pos _ (fun value member => ?_) (by simpa using some)
  obtain ⟨register, -, rfl⟩ := List.mem_map.mp member
  positivity

theorem sum_map_set (value : ℕ → ℚ) {registers : List ℕ} {place old : ℕ}
    (held : registers[place]? = some old) (new : ℕ) :
    ((registers.set place new).map value).sum =
      (registers.map value).sum - value old + value new := by
  induction registers generalizing place with
  | nil => cases held
  | cons register rest hypothesis =>
    cases place with
    | zero =>
      obtain rfl := Option.some.inj held
      rw [List.set_cons_zero, List.map_cons, List.map_cons, List.sum_cons, List.sum_cons]
      ring
    | succ place =>
      rw [List.set_cons_succ, List.map_cons, List.map_cons, List.sum_cons, List.sum_cons,
        hypothesis held]
      ring

theorem raise_eq_set {registers : List ℕ} {place old new : ℕ} (held : registers[place]? = some old)
    (less : old < new) : Registers.raise registers (place, new) = registers.set place new := by
  refine List.ext_getElem? fun other => ?_
  unfold Registers.raise
  rw [List.getElem?_modify, List.getElem?_set]
  by_cases here : place = other
  · subst here
    have inside := (List.getElem?_eq_some_iff.mp held).1
    rw [if_pos rfl, if_pos inside, held]
    simp [less]
  · simp [here]

end Hip

end AsapSketchlib
