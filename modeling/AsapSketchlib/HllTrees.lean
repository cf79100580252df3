/-
This file proves that the state of a HyperLogLog sketch is a function of the set of hashes
inserted, whatever tree of inserts and merges they came by: every register is the largest rank of
its hashes. So it stays within the bound of the wire encoder, and inside the histogram of the
estimator.
-/

import AsapSketchlib.Envelope
import AsapSketchlib.HllRanks

namespace AsapSketchlib

/-! ### Merges, the encoder's bound and the histogram -/

namespace HyperLogLog

variable {precision : ℕ}

/-- Merges another sketch by the element-wise maximum of registers. The lengths are those of the
one register storage, so that the assertion holds. -/
def merge (sketch other : HyperLogLog precision) : HyperLogLog precision where
  registers := Registers.merge sketch.registers other.registers
  sized := by
    unfold Registers.merge
    rw [List.length_zipWith, sketch.sized, other.sized, Nat.min_self]

end HyperLogLog

namespace Hll

/-- Rejects registers that hold a rank no insert could have produced. -/
def checkRegisterRange (precision : ℕ) (registers : List ℕ) : Except String Unit :=
  let maxRank := 64 - precision + 1
  match registers.find? fun rank => maxRank < rank with
  | some rank =>
    .error s!"HLL register value {rank} exceeds the maximum rank {maxRank} at precision {precision}"
  | none => .ok ()

def registersToBytes (precision : ℕ) (registers : List ℕ) : Except RmpEncodeError (List UInt8) :=
  match checkRegisterRange precision registers with
  | .error problem => .error (.syntaxError s!"ASAPv1 HLL envelope: {problem}")
  | .ok () => .ok (registers.map UInt8.ofNat)

def ertlHistogramCap : ℕ := 66

/-- `get_histogram`. There is none where a register is no index of the array. -/
def getHistogram (registers : List ℕ) : Option (List UInt32) :=
  registers.foldlM (fun histogram register =>
    if register < histogram.length then some (histogram.modify register (· + 1)) else none)
    (List.replicate ertlHistogramCap 0)

variable {precision : ℕ}

theorem registersToBytes_ok {registers : List ℕ}
    (bounded : ∀ register ∈ registers, register ≤ 64 - precision + 1) :
    registersToBytes precision registers = .ok (registers.map UInt8.ofNat) := by
  have none : registers.find? (fun rank => 64 - precision + 1 < rank) = none :=
    List.find?_eq_none.mpr fun register member => by
      simpa using bounded register member
  unfold registersToBytes checkRegisterRange
  simp only [none]

theorem getHistogram_ne_none {registers : List ℕ}
    (bounded : ∀ register ∈ registers, register < ertlHistogramCap) :
    getHistogram registers ≠ none := by
  have counts : ∀ (registers : List ℕ) (histogram : List UInt32),
      (∀ register ∈ registers, register < histogram.length) →
        registers.foldlM (fun histogram register =>
          if register < histogram.length then some (histogram.modify register (· + 1)) else none)
          histogram ≠ none := by
    intro registers
    induction registers with
    | nil => exact fun histogram _ ends => Option.some_ne_none _ ends
    | cons register rest hypothesis =>
      intro histogram bounded
      obtain ⟨here, later⟩ := List.forall_mem_cons.mp bounded
      rw [List.foldlM_cons, if_pos here]
      refine hypothesis _ fun other member => ?_
      rw [List.length_modify]
      exact later other member
  exact counts registers _ fun register member => by
    rw [List.length_replicate]
    exact bounded register member

/-! ### The largest rank -/

/-- The largest rank of the hashes of a register, and 0 where there is none. -/
def maxRank (precision place : ℕ) (hashes : List (BitVec 64)) : ℕ :=
  ((hashes.filter fun hashed => topBits precision hashed = place).map (rank precision)).foldr
    max 0

theorem le_maxRank_iff {place value : ℕ} {hashes : List (BitVec 64)} :
    value ≤ maxRank precision place hashes ↔
      value = 0 ∨ ∃ hashed ∈ hashes, topBits precision hashed = place ∧
        value ≤ rank precision hashed := by
  unfold maxRank
  induction hashes with
  | nil => simp
  | cons hashed rest hypothesis =>
    rw [List.exists_mem_cons_iff]
    by_cases here : topBits precision hashed = place
    · rw [List.filter_cons_of_pos (by simpa using here), List.map_cons, List.foldr_cons,
        le_max_iff, hypothesis]
      simp only [here, true_and]
      exact or_left_comm
    · rw [List.filter_cons_of_neg (by simpa using here), hypothesis]
      simp only [here, false_and, false_or]

theorem maxRank_le (atMost : precision ≤ 63) (place : ℕ) (hashes : List (BitVec 64)) :
    maxRank precision place hashes ≤ 65 - precision := by
  rcases le_maxRank_iff.mp (le_refl (maxRank precision place hashes)) with zero | found
  · rw [zero]
    exact Nat.zero_le _
  · obtain ⟨hashed, -, -, below⟩ := found
    exact below.trans (rank_le (atMost.trans (by decide)) hashed)

theorem getElem?_of_reaches {registers : List ℕ} {hashes : List (BitVec 64)}
    (sized : registers.length = 2 ^ precision)
    (reaches : ∀ place value, Registers.Reaches registers place value ↔
      place < 2 ^ precision ∧ (value = 0 ∨ ∃ hashed ∈ hashes, topBits precision hashed = place ∧
        value ≤ rank precision hashed)) {place : ℕ} (inside : place < 2 ^ precision) :
    registers[place]? = some (maxRank precision place hashes) := by
  have held := List.getElem?_eq_getElem (inside.trans_eq sized.symm)
  rw [held]
  refine congrArg some (eq_of_forall_le_iff fun value => ?_)
  rw [le_maxRank_iff]
  constructor
  · intro below
    exact ((reaches place value).mp ⟨_, held, below⟩).2
  · intro found
    obtain ⟨own, heldAgain, below⟩ := (reaches place value).mpr ⟨inside, found⟩
    rw [held] at heldAgain
    exact below.trans_eq (Option.some.inj heldAgain).symm

end Hll

/-! ### Trees of inserts and merges -/

/-- How a sketch came about: it is new, or had a hash inserted, or another merged into it. -/
inductive HllTree where
  | new
  | insertWithHash (tree : HllTree) (hashed : BitVec 64)
  | merge (tree other : HllTree)

namespace HllTree

variable {precision : ℕ}

def sketch (precision : ℕ) : HllTree → HyperLogLog precision
  | new => .newBase precision
  | insertWithHash tree hashed => (sketch precision tree).insertWithHash hashed
  | merge tree other => (sketch precision tree).merge (sketch precision other)

def hashes : HllTree → List (BitVec 64)
  | new => []
  | insertWithHash tree hashed => hashed :: hashes tree
  | merge tree other => hashes tree ++ hashes other

variable (atLeast : 1 ≤ precision) (atMost : precision ≤ 63)

include atLeast atMost

theorem reaches_iff (tree : HllTree) (place value : ℕ) :
    Registers.Reaches (tree.sketch precision).registers place value ↔
      place < 2 ^ precision ∧ (value = 0 ∨ ∃ hashed ∈ tree.hashes,
        Hll.topBits precision hashed = place ∧ value ≤ Hll.rank precision hashed) := by
  induction tree with
  | new =>
    show Registers.Reaches (List.replicate (2 ^ precision) 0) place value ↔ _
    unfold Registers.Reaches
    by_cases inside : place < 2 ^ precision
    · rw [List.getElem?_replicate, if_pos inside]
      simp [hashes, inside]
    · rw [List.getElem?_replicate, if_neg inside]
      simp [inside]
  | insertWithHash tree hashed hypothesis =>
    show Registers.Reaches (Registers.raise _ (Hll.update precision hashed)) place value ↔ _
    rw [Registers.reaches_raise, hypothesis, (tree.sketch precision).sized,
      Hll.update_eq atLeast atMost, ← and_or_left]
    refine and_congr_right fun _ => ?_
    show _ ↔ value = 0 ∨ ∃ other ∈ hashed :: tree.hashes, _
    rw [List.exists_mem_cons_iff, or_assoc]
    exact or_congr_right or_comm
  | merge tree other left right =>
    have sameLength := (tree.sketch precision).sized.trans (other.sketch precision).sized.symm
    show Registers.Reaches (Registers.merge _ _) place value ↔ _
    rw [Registers.reaches_merge sameLength, left, right, ← and_or_left]
    refine and_congr_right fun _ => ?_
    show _ ↔ value = 0 ∨ ∃ hashed ∈ tree.hashes ++ other.hashes, _
    simp only [List.mem_append, or_and_right, exists_or]
    exact or_or_distrib_left.symm

theorem getElem?_registers (tree : HllTree) {place : ℕ} (inside : place < 2 ^ precision) :
    (tree.sketch precision).registers[place]? =
      some (Hll.maxRank precision place tree.hashes) :=
  Hll.getElem?_of_reaches (tree.sketch precision).sized (tree.reaches_iff atLeast atMost) inside

theorem registers_congr {tree other : HllTree}
    (same : ∀ hashed, hashed ∈ tree.hashes ↔ hashed ∈ other.hashes) :
    (tree.sketch precision).registers = (other.sketch precision).registers := by
  have sameLength := (tree.sketch precision).sized.trans (other.sketch precision).sized.symm
  refine Registers.eq_of_reaches sameLength fun place value => ?_
  rw [reaches_iff atLeast atMost, reaches_iff atLeast atMost]
  simp only [same]

theorem registers_le (tree : HllTree) :
    ∀ register ∈ (tree.sketch precision).registers, register ≤ 65 - precision := by
  intro register member
  obtain ⟨place, held⟩ := List.mem_iff_getElem?.mp member
  have inside := (List.getElem?_eq_some_iff.mp held).1.trans_eq (tree.sketch precision).sized
  rw [tree.getElem?_registers atLeast atMost inside] at held
  rw [← Option.some.inj held]
  exact Hll.maxRank_le atMost place tree.hashes

end HllTree

end AsapSketchlib
