/-
This file follows the HIP sketch through inserts over exact rational arithmetic. Its two sums stay
those of its registers, and every raised register adds the number of registers over the sum of all,
just as long as no rank reaches the width of the word, where the shift by it overflows.
-/

import AsapSketchlib.HipSums

namespace AsapSketchlib

open Hll

namespace Hip

variable {precision : ℕ} {checked : Bool}

/-- The two sums are those of the registers. -/
structure Exact (sketch : Hip ℚ precision) : Prop where
  low : sketch.kxq0 = lowSum sketch.registers
  high : sketch.kxq1 = highSum sketch.registers

theorem exact_new (precision : ℕ) : Exact (new .rational precision) := by
  have zeros : ∀ (count : ℕ) (value : ℚ), (List.replicate count value).sum = count * value := by
    intro count value
    rw [List.sum_replicate, nsmul_eq_mul]
  constructor
  · show ((2 ^ precision : ℤ) : ℚ) = lowSum (List.replicate _ 0)
    unfold lowSum
    rw [List.map_replicate, zeros]
    norm_num
  · show (0 : ℚ) = highSum (List.replicate _ 0)
    unfold highSum
    rw [List.map_replicate, zeros]
    norm_num

/-! ### One insert -/

/-- What raising a register does to the sums, for whatever power is added. -/
theorem sums_raised {sketch : Hip ℚ precision} (exact : Exact sketch) {hashed : BitVec 64}
    (newPower : ℕ) {old : ℕ}
    (held : sketch.registers[bucketNum precision hashed]? = some old)
    (less : old < leadingZero precision hashed) :
    (sketch.raised .rational hashed old (2 ^ old) (leadingZero precision hashed)
        newPower).kxq0 =
      lowSum (Registers.raise sketch.registers (update precision hashed)) +
        (if leadingZero precision hashed < 32 then
          1 / (newPower : ℚ) - 1 / 2 ^ leadingZero precision hashed else 0) ∧
    (sketch.raised .rational hashed old (2 ^ old) (leadingZero precision hashed)
        newPower).kxq1 =
      highSum (Registers.raise sketch.registers (update precision hashed)) +
        (if leadingZero precision hashed < 32 then 0 else
          1 / (newPower : ℚ) - 1 / 2 ^ leadingZero precision hashed) := by
  have taken : HipArithmetic.rational.div (HipArithmetic.rational.ofInt 1)
      (HipArithmetic.rational.ofInt ((2 ^ old : ℕ) : ℤ)) = 1 / 2 ^ old := by
    show ((1 : ℤ) : ℚ) / (((2 ^ old : ℕ) : ℤ) : ℚ) = _
    norm_num
  have added : HipArithmetic.rational.div (HipArithmetic.rational.ofInt 1)
      (HipArithmetic.rational.ofInt (newPower : ℤ)) = 1 / (newPower : ℚ) := by
    show ((1 : ℤ) : ℚ) / ((newPower : ℤ) : ℚ) = _
    norm_num
  have set : Registers.raise sketch.registers (update precision hashed) =
      sketch.registers.set (bucketNum precision hashed)
        (leadingZero precision hashed) := raise_eq_set held less
  generalize leadingZero precision hashed = new at less set
  unfold raised
  simp only [taken, added, set]
  unfold lowSum highSum
  rw [sum_map_set _ held, sum_map_set _ held]
  have low := exact.low
  have high := exact.high
  unfold lowSum at low
  unfold highSum at high
  show ((if new < 32 then (if old < 32 then sketch.kxq0 - 1 / 2 ^ old else sketch.kxq0) +
      1 / (newPower : ℚ) else if old < 32 then sketch.kxq0 - 1 / 2 ^ old else sketch.kxq0) = _) ∧
    ((if new < 32 then if old < 32 then sketch.kxq1 else sketch.kxq1 - 1 / 2 ^ old
      else (if old < 32 then sketch.kxq1 else sketch.kxq1 - 1 / 2 ^ old) +
        1 / (newPower : ℚ)) = _)
  rw [low, high]
  by_cases small : old < 32 <;> by_cases smallNew : new < 32
  all_goals
    simp only [small, smallNew, if_true, if_false]
    constructor <;> ring

section

variable {sketch : Hip ℚ precision} {hashed : BitVec 64} {old : ℕ}
  (held : sketch.registers[bucketNum precision hashed]? = some old)

include held

theorem insertWithHash_stays (stays : ¬old < leadingZero precision hashed) :
    sketch.insertWithHash .rational checked hashed = some sketch := by
  have value : sketch.registers.getD (bucketNum precision hashed) 0 = old := by
    rw [List.getD_eq_getElem?_getD, held, Option.getD_some]
  unfold insertWithHash
  rw [value]
  exact if_neg stays

theorem insertWithHash_raises (less : old < leadingZero precision hashed) (small : old < 64) :
    sketch.insertWithHash .rational checked hashed =
      (shiftOne checked (leadingZero precision hashed)).map fun newPower =>
        sketch.raised .rational hashed old (2 ^ old) (leadingZero precision hashed)
          newPower := by
  have value : sketch.registers.getD (bucketNum precision hashed) 0 = old := by
    rw [List.getD_eq_getElem?_getD, held, Option.getD_some]
  have power : shiftOne checked old = some (2 ^ old) := if_pos small
  unfold insertWithHash
  simp only [value, power, if_pos less, Option.bind_some]

end

def added (sketch : Hip ℚ precision) (hashed : BitVec 64) (old : ℕ) : ℚ :=
  if old < Hll.leadingZero precision hashed then 2 ^ precision / harmonic sketch.registers else 0

section

variable {sketch : Hip ℚ precision} (exact : Exact sketch) {hashed : BitVec 64} {old : ℕ}
  (held : sketch.registers[bucketNum precision hashed]? = some old) (small : old < 64)

include exact held small

theorem insertWithHash_exact (fits : leadingZero precision hashed < 64) :
    ∃ next, sketch.insertWithHash .rational checked hashed = some next ∧ Exact next ∧
      next.est = sketch.est + sketch.added hashed old := by
  unfold added
  by_cases less : old < leadingZero precision hashed
  · have power : shiftOne checked (leadingZero precision hashed) =
        some (2 ^ leadingZero precision hashed) := if_pos fits
    rw [insertWithHash_raises held less small, power, if_pos less, ← lowSum_add_highSum,
      ← exact.low, ← exact.high]
    refine ⟨_, rfl, ?_, ?_⟩
    · obtain ⟨low, high⟩ := sums_raised exact (2 ^ leadingZero precision hashed) held less
      have same : 1 / ((2 ^ leadingZero precision hashed : ℕ) : ℚ) -
          1 / 2 ^ leadingZero precision hashed = 0 := by
        rw [Nat.cast_pow]
        exact sub_self _
      rw [same, ite_self, add_zero] at low high
      exact ⟨low, high⟩
    · show sketch.est + ((2 ^ precision : ℤ) : ℚ) / (sketch.kxq0 + sketch.kxq1) = _
      norm_num
  · rw [if_neg less, add_zero]
    exact ⟨sketch, insertWithHash_stays held less, exact, rfl⟩

theorem insertWithHash_overflows (overflows : leadingZero precision hashed = 64) :
    ∀ next, sketch.insertWithHash .rational checked hashed = some next → ¬Exact next := by
  have less : old < leadingZero precision hashed := small.trans_eq overflows.symm
  rw [insertWithHash_raises held less small, overflows]
  intro next inserted exactNext
  obtain ⟨newPower, power, rfl⟩ := Option.map_eq_some_iff.mp inserted
  cases checked with
  | true => cases power
  | false =>
    have wrapped : newPower = 1 := (Option.some.inj power).symm
    obtain ⟨-, high⟩ := sums_raised exact newPower held less
    have own := exactNext.high
    rw [overflows] at high
    rw [high] at own
    have difference : (if 64 < 32 then (0 : ℚ) else 1 / (newPower : ℚ) - 1 / 2 ^ 64) = 0 :=
      left_eq_add.mp own.symm
    rw [wrapped] at difference
    norm_num at difference

end

/-! ### Runs -/

theorem run_concat (hashes : List (BitVec 64)) (hashed : BitVec 64) :
    run .rational checked precision (hashes ++ [hashed]) =
      (run .rational checked precision hashes).bind fun sketch =>
        sketch.insertWithHash .rational checked hashed := by
  unfold run insertManyWithHashes
  rw [List.foldlM_append]
  refine Option.bind_congr fun sketch _ => ?_
  rw [List.foldlM_cons]
  exact Option.bind_fun_some _

def Fit (precision : ℕ) (hashes : List (BitVec 64)) : Prop :=
  ∀ hashed ∈ hashes, Hll.rank precision hashed < 64

theorem held_of_fit (atLeast : 1 ≤ precision) (atMost : precision ≤ 63) {sketch : Hip ℚ precision}
    {hashes : List (BitVec 64)} (fit : Fit precision hashes)
    (ran : run .rational checked precision hashes = some sketch) (hashed : BitVec 64) :
    sketch.registers[bucketNum precision hashed]? =
      some (maxRank precision (topBits precision hashed) hashes) ∧
    maxRank precision (topBits precision hashed) hashes < 64 := by
  have inside := bucketNum_lt precision hashed
  rw [bucketNum_eq (atMost.trans (by decide))] at inside ⊢
  refine ⟨registers_run atLeast atMost ran inside, ?_⟩
  rcases le_maxRank_iff.mp (le_refl (maxRank precision _ hashes)) with zero | found
  · rw [zero]
    exact Nat.zero_lt_succ 63
  · obtain ⟨other, member, -, below⟩ := found
    exact below.trans_lt (fit other member)

theorem run_exact (atLeast : 1 ≤ precision) (atMost : precision ≤ 63)
    {hashes : List (BitVec 64)} (fit : Fit precision hashes) :
    ∃ sketch, run .rational checked precision hashes = some sketch ∧ Exact sketch := by
  induction hashes using List.reverseRecOn with
  | nil => exact ⟨_, rfl, exact_new precision⟩
  | append_singleton hashes hashed hypothesis =>
    obtain ⟨fitHashes, fitLast⟩ := List.forall_mem_append.mp fit
    obtain ⟨sketch, ran, exact⟩ := hypothesis fitHashes
    obtain ⟨held, small⟩ := held_of_fit atLeast atMost fitHashes ran hashed
    have fits := (leadingZero_eq atLeast atMost hashed).trans_lt
      (fitLast hashed List.mem_cons_self)
    obtain ⟨next, inserted, exactNext, -⟩ := insertWithHash_exact exact held small fits
    rw [run_concat, ran]
    exact ⟨next, inserted, exactNext⟩

/-- After every prefix of the hashes the sketch is there, its sums are those of its registers, and
the next hash adds to the estimate the number of registers over the positive sum of all of them if
it raises its register. -/
def Steps (checked : Bool) (precision : ℕ) (hashes : List (BitVec 64)) : Prop :=
  ∀ before rest, before ++ rest = hashes →
    ∃ sketch, run .rational checked precision before = some sketch ∧
      (∀ place < 2 ^ precision,
        sketch.registers[place]? = some (Hll.maxRank precision place before)) ∧
      Exact sketch ∧ 0 < harmonic sketch.registers ∧
      ∀ hashed, rest.head? = some hashed →
        ∃ next, sketch.insertWithHash .rational checked hashed = some next ∧
          next.est = sketch.est +
            if Hll.maxRank precision (Hll.topBits precision hashed) before <
                Hll.rank precision hashed
              then 2 ^ precision / harmonic sketch.registers else 0

variable (atLeast : 1 ≤ precision) (atMost : precision ≤ 63)

include atLeast atMost

theorem steps_of_fit {hashes : List (BitVec 64)} (fit : Fit precision hashes) :
    Steps checked precision hashes := by
  rintro before rest rfl
  obtain ⟨fitBefore, fitRest⟩ := List.forall_mem_append.mp fit
  obtain ⟨sketch, ran, exact⟩ := @run_exact _ checked atLeast atMost _ fitBefore
  have some : sketch.registers ≠ [] := by
    intro empty
    have sized := sketch.sized
    rw [empty] at sized
    exact absurd sized (Nat.two_pow_pos precision).ne
  refine ⟨sketch, ran, fun place inside => registers_run atLeast atMost ran inside, exact,
    harmonic_pos some, fun hashed next => ?_⟩
  obtain ⟨held, small⟩ := held_of_fit atLeast atMost fitBefore ran hashed
  have rankEq := leadingZero_eq atLeast atMost hashed
  have fits := rankEq.trans_lt (fitRest hashed (List.mem_of_mem_head? next))
  obtain ⟨after, inserted, -, grown⟩ := insertWithHash_exact exact held small fits
  unfold added at grown
  rw [rankEq] at grown
  exact ⟨after, inserted, grown⟩

theorem fit_of_steps {hashes : List (BitVec 64)} (steps : Steps checked precision hashes) :
    Fit precision hashes := by
  by_contra unfit
  have found : (hashes.find? fun hashed => 64 ≤ rank precision hashed).isSome := by
    rw [List.find?_isSome]
    unfold Fit at unfit
    push Not at unfit
    simpa using unfit
  obtain ⟨bad, first⟩ := Option.isSome_iff_exists.mp found
  obtain ⟨large, before, rest, rfl, fitBefore⟩ := List.find?_eq_some_iff_append.mp first
  have fit : Fit precision before := fun hashed member => by simpa using fitBefore hashed member
  have rankEq : leadingZero precision bad = 64 := by
    have most := rank_le (atMost.trans (by decide)) bad
    have least : 64 ≤ rank precision bad := by simpa using large
    rw [leadingZero_eq atLeast atMost]
    exact le_antisymm (most.trans (Nat.sub_le_sub_left atLeast 65)) least
  obtain ⟨sketch, ran, -, exact, -, -⟩ := steps before (bad :: rest) rfl
  obtain ⟨next, ranNext, -, exactNext, -⟩ := steps (before ++ [bad]) rest (List.append_assoc _ _ _)
  rw [run_concat, ran] at ranNext
  obtain ⟨held, small⟩ := held_of_fit atLeast atMost fit ran bad
  exact insertWithHash_overflows exact held small rankEq next ranNext exactNext

/-- The steps are right just where no rank reaches the width of the word. That takes two registers,
and a hash of zeros behind its first bit. -/
theorem steps_iff (hashes : List (BitVec 64)) :
    Steps checked precision hashes ↔
      ¬(precision = 1 ∧ ∃ hashed ∈ hashes, hashed.toNat % 2 ^ 63 = 0) := by
  have fits : Fit precision hashes ↔
      ¬(precision = 1 ∧ ∃ hashed ∈ hashes, hashed.toNat % 2 ^ 63 = 0) := by
    unfold Fit
    simp only [rank_lt_iff atLeast atMost]
    constructor
    · rintro allFit ⟨one, hashed, member, zero⟩
      exact allFit hashed member ⟨one, zero⟩
    · rintro notBoth hashed member ⟨one, zero⟩
      exact notBoth ⟨one, hashed, member, zero⟩
  exact ⟨fun steps => fits.mp (fit_of_steps atLeast atMost steps),
    fun notBoth => steps_of_fit atLeast atMost (fits.mpr notBoth)⟩

end Hip

/-! ### The state as a function of the hashes -/

/-- Every register of a tree of inserts and merges is the largest rank of its hashes, so that trees
of one set of hashes have the same registers, which the encoder takes and the histogram counts. The
HIP sketch, whether its shifts are checked or wrap, is exact through all inserts unless there are
two registers and a hash of zeros behind its first bit. -/
theorem state_of_hashes {precision : ℕ} (atLeast : 1 ≤ precision) (atMost : precision ≤ 63)
    (tree other : HllTree) (checked : Bool) (hashes : List (BitVec 64)) :
    (∀ place < 2 ^ precision, (tree.sketch precision).registers[place]? =
      some (Hll.maxRank precision place tree.hashes)) ∧
    ((∀ hashed, hashed ∈ tree.hashes ↔ hashed ∈ other.hashes) →
      (tree.sketch precision).registers = (other.sketch precision).registers) ∧
    (∀ register ∈ (tree.sketch precision).registers, register ≤ 65 - precision) ∧
    Hll.registersToBytes precision (tree.sketch precision).registers =
      .ok ((tree.sketch precision).registers.map UInt8.ofNat) ∧
    Hll.getHistogram (tree.sketch precision).registers ≠ none ∧
    64 - precision + 1 < Hll.ertlHistogramCap ∧
    (Hip.Steps checked precision hashes ↔
      ¬(precision = 1 ∧ ∃ hashed ∈ hashes, hashed.toNat % 2 ^ 63 = 0)) := by
  have bounded := tree.registers_le atLeast atMost
  have most : 64 - precision + 1 = 65 - precision :=
    (Nat.sub_add_comm (atMost.trans (by decide))).symm
  have inside : 65 - precision < Hll.ertlHistogramCap :=
    (Nat.sub_le 65 precision).trans_lt (by decide)
  refine ⟨fun place => tree.getElem?_registers atLeast atMost,
    HllTree.registers_congr atLeast atMost, bounded, ?_, ?_, most.trans_lt inside,
    Hip.steps_iff atLeast atMost hashes⟩
  · exact Hll.registersToBytes_ok fun register member =>
      (bounded register member).trans_eq most.symm
  · exact Hll.getHistogram_ne_none fun register member => (bounded register member).trans_lt inside

/-- Two registers, whose hash of one bit behind the first has rank 63. -/
theorem state_of_hashes_of_one :
    (∀ place < 2, ((HllTree.new.insertWithHash 1).sketch 1).registers[place]? =
      some (Hll.maxRank 1 place [1])) ∧
    Hip.Steps true 1 [1] := by
  have atMost : 1 ≤ 63 := by decide
  have all := state_of_hashes (le_refl 1) atMost (HllTree.new.insertWithHash 1)
    (HllTree.new.insertWithHash 1) true [1]
  refine ⟨all.1, all.2.2.2.2.2.2.mpr ?_⟩
  rintro ⟨-, hashed, member, zero⟩
  rw [List.mem_singleton.mp member] at zero
  exact absurd zero (by decide)

/-- With two registers the hash 0 has rank 64: a checked shift by it panics, and one that wraps adds
1 to the upper sum in place of `2^-64`. -/
theorem hip_rank_64 :
    (Hip.run .rational true 1 [0]).isNone ∧
    ((Hip.run .rational false 1 [0]).any fun sketch =>
      sketch.registers = [64, 0] ∧ sketch.kxq1 = 1 ∧
        Hip.highSum sketch.registers = 1 / 2 ^ 64) = true ∧
    ¬Hip.Steps true 1 [0] ∧ ¬Hip.Steps false 1 [0] := by
  refine ⟨by decide +kernel, by decide +kernel, fun steps => ?_, fun steps => ?_⟩
  · exact (Hip.steps_iff (by decide) (by decide) [0]).mp steps ⟨rfl, 0, List.mem_cons_self, rfl⟩
  · exact (Hip.steps_iff (by decide) (by decide) [0]).mp steps ⟨rfl, 0, List.mem_cons_self, rfl⟩

end AsapSketchlib
