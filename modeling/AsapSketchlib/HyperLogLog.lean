/-
This file models the HyperLogLog sketches: registers under a hash, the estimator variants that
share them, and the HIP variant, which also keeps a running estimate. In all of them the registers
depend only on the set of hashes inserted.
-/

import AsapSketchlib.Floating
import AsapSketchlib.Hash
import AsapSketchlib.Registers
import Mathlib.Data.List.GetD

namespace AsapSketchlib

/-! ### What a hash addresses -/

namespace Hll

/-- `P_MASK` of a register storage. -/
def pMask (precision : ℕ) : BitVec 64 := BitVec.ofNat 64 (2 ^ precision - 1)

/-- The register of a hash: its top bits. -/
def bucketNum (precision : ℕ) (hashed : BitVec 64) : ℕ :=
  ((hashed >>> (64 - precision)) &&& pMask precision).toNat

/-- The rank of a hash: one more than the leading zeros behind the bits of the register. -/
def leadingZero (precision : ℕ) (hashed : BitVec 64) : ℕ :=
  ((hashed <<< precision) + pMask precision).clz.toNat + 1

def update (precision : ℕ) (hashed : BitVec 64) : ℕ × ℕ :=
  (bucketNum precision hashed, leadingZero precision hashed)

theorem bucketNum_lt (precision : ℕ) (hashed : BitVec 64) :
    bucketNum precision hashed < 2 ^ precision := by
  unfold bucketNum pMask
  rw [BitVec.toNat_and, BitVec.toNat_ofNat]
  calc
    _ ≤ (2 ^ precision - 1) % 2 ^ 64 := Nat.and_le_right
    _ ≤ 2 ^ precision - 1 := Nat.mod_le _ _
    _ < 2 ^ precision := Nat.sub_lt (Nat.two_pow_pos precision) Nat.one_pos

end Hll

/-! ### The register sketches -/

/-- `HyperLogLogImpl` over the registers of a precision. The variants differ in their estimators
alone. -/
structure HyperLogLog (precision : ℕ) where
  registers : List ℕ
  sized : registers.length = 2 ^ precision

namespace HyperLogLog

variable {precision : ℕ}

def newBase (precision : ℕ) : HyperLogLog precision := ⟨List.replicate _ 0, List.length_replicate⟩

def insertWithHash (sketch : HyperLogLog precision) (hashed : BitVec 64) :
    HyperLogLog precision where
  registers := Registers.raise sketch.registers (Hll.update precision hashed)
  sized := (Registers.length_raise _ _).trans sketch.sized

def canonicalHash (hasher : SketchHasher) (obj : DataInput) : BitVec 64 :=
  hasher.hash64Seeded canonicalHashSeed obj

def insert (hasher : SketchHasher) (sketch : HyperLogLog precision) (obj : DataInput) :
    HyperLogLog precision := sketch.insertWithHash (canonicalHash hasher obj)

end HyperLogLog

/-! ### The HIP sketch -/

/-- `HyperLogLogHIPImpl` over the registers of a precision. -/
structure HyperLogLogHIP (precision : ℕ) where
  registers : List ℕ
  kxq0 : F64
  kxq1 : F64
  est : F64
  sized : registers.length = 2 ^ precision

namespace HyperLogLogHIP

variable {precision : ℕ}

def new (precision : ℕ) : HyperLogLogHIP precision where
  registers := List.replicate _ 0
  kxq0 := F64.ofInt (2 ^ precision)
  kxq1 := F64.zero
  est := F64.zero
  sized := List.length_replicate

/-- `1.0 / ((1_u64 << value) as f64)`. The shift wraps at the width of the word. -/
def inversePower (value : ℕ) : F64 := (F64.ofInt 1).div (F64.ofInt (2 ^ (value % 64)))

/-- Inserts a hashed value. A register that grows moves the running estimate and the sums. -/
def insertWithHash (sketch : HyperLogLogHIP precision) (hashed : BitVec 64) :
    HyperLogLogHIP precision :=
  let oldValue := sketch.registers.getD (Hll.bucketNum precision hashed) 0
  let newValue := Hll.leadingZero precision hashed
  if oldValue < newValue then
    let registers := Registers.raise sketch.registers (Hll.update precision hashed)
    let sized := (Registers.length_raise _ _).trans sketch.sized
    let est := sketch.est.add ((F64.ofInt (2 ^ precision)).div (sketch.kxq0.add sketch.kxq1))
    let taken0 := if oldValue < 32 then sketch.kxq0.sub (inversePower oldValue) else sketch.kxq0
    let taken1 := if oldValue < 32 then sketch.kxq1 else sketch.kxq1.sub (inversePower oldValue)
    let kxq0 := if newValue < 32 then taken0.add (inversePower newValue) else taken0
    let kxq1 := if newValue < 32 then taken1 else taken1.add (inversePower newValue)
    { registers, kxq0, kxq1, est, sized }
  else sketch

/-- Hashes and inserts a value. The hash is that of the free function `hash64_seeded`. -/
def insert (xxh : XxHash3) (sketch : HyperLogLogHIP precision) (obj : DataInput) :
    HyperLogLogHIP precision := sketch.insertWithHash (hash64Seeded xxh canonicalHashSeed obj)

theorem registers_insertWithHash (sketch : HyperLogLogHIP precision) (hashed : BitVec 64) :
    (sketch.insertWithHash hashed).registers =
      Registers.raise sketch.registers (Hll.update precision hashed) := by
  have inside : Hll.bucketNum precision hashed < sketch.registers.length :=
    (Hll.bucketNum_lt precision hashed).trans_eq sketch.sized.symm
  simp only [insertWithHash]
  split
  · rfl
  · rename_i reached
    rw [List.getD_eq_getElem _ 0 inside, not_lt] at reached
    exact (Registers.raise_of_reaches ⟨_, List.getElem?_eq_getElem inside, reached⟩).symm

end HyperLogLogHIP

end AsapSketchlib
