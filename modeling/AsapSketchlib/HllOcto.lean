/-
This file models HyperLogLog over the Octo pipeline. A worker keeps all registers and sends one on
when it has grown by enough; a flush sends all of them. A parent never runs ahead of one sketch of
all inputs, it lags behind a worker whose deltas it has applied by less than the threshold, and
after the flushes it holds what the one sketch holds.
-/

import AsapSketchlib.HllRanks
import AsapSketchlib.OctoPipeline

namespace AsapSketchlib

namespace Hll

/-- `max_hll_threshold`. -/
def maxHllThreshold (precision : ℕ) : ℕ := 64 - precision

/-- `2^exp`, saturating. -/
def pow2Saturating (exp : ℕ) : ℕ := if 127 ≤ exp then 2 ^ 128 - 1 else 2 ^ exp

end Hll

structure HllDelta where
  pos : ℕ
  value : ℕ

namespace HyperLogLog

variable {precision : ℕ}

/-- A register that grows is sent on if the improvement is large enough. -/
def insertEmitDeltaWithHashAndThreshold (sketch : HyperLogLog precision) (hashed : BitVec 64)
    (threshold : ℕ) : HyperLogLog precision × List HllDelta :=
  let threshold := min threshold (Hll.maxHllThreshold precision)
  let bucketNum := Hll.bucketNum precision hashed
  let leadingZero := Hll.leadingZero precision hashed
  let previous := sketch.registers.getD bucketNum 0
  if previous < leadingZero then
    (sketch.insertWithHash hashed,
      if Hll.pow2Saturating threshold ≤
          Hll.pow2Saturating leadingZero - Hll.pow2Saturating previous then
        [⟨bucketNum, leadingZero⟩]
      else [])
  else (sketch, [])

/-- `apply_delta`, which is sent no delta of a register that there is not. -/
def applyDelta (sketch : HyperLogLog precision) (delta : HllDelta) : HyperLogLog precision where
  registers := Registers.raise sketch.registers (delta.pos, delta.value)
  sized := (Registers.length_raise _ _).trans sketch.sized

/-- One sketch fed inputs. -/
def sequential (hasher : SketchHasher) (precision : ℕ) (inputs : List DataInput) :
    HyperLogLog precision := inputs.foldl (insert hasher) (newBase precision)

end HyperLogLog

structure HllOctoWorker (precision : ℕ) where
  child : HyperLogLog precision
  threshold : ℕ

namespace HllOctoWorker

variable {precision : ℕ}

/-- Refuses a threshold that no improvement can reach. -/
def withThreshold (precision threshold : ℕ) : Option (HllOctoWorker precision) :=
  if threshold < Hll.maxHllThreshold precision then some ⟨.newBase precision, threshold⟩ else none

def process (worker : HllOctoWorker precision) (payload : BitVec 64) :
    HllOctoWorker precision × List HllDelta :=
  let (child, deltas) := worker.child.insertEmitDeltaWithHashAndThreshold payload worker.threshold
  ({ worker with child := child }, deltas)

/-- Sends every register that is not empty. -/
def flush (worker : HllOctoWorker precision) : HllOctoWorker precision × List HllDelta :=
  (worker, worker.child.registers.zipIdx.filterMap fun (value, pos) =>
    if value ≠ 0 then some ⟨pos, value⟩ else none)

end HllOctoWorker

namespace HllOctoWorker

open HyperLogLog Registers

variable {hasher : SketchHasher} {precision : ℕ}

/-- A delta lets its register reach a value. -/
def Sends (deltas : List HllDelta) (place value : ℕ) : Prop :=
  ∃ delta ∈ deltas, delta.pos = place ∧ value ≤ delta.value

theorem Sends.append {deltas : List HllDelta} {place value : ℕ} (sends : Sends deltas place value)
    (others : List HllDelta) : Sends (deltas ++ others) place value := by
  obtain ⟨delta, member, same⟩ := sends
  exact ⟨delta, List.mem_append_left others member, same⟩

/-- What a worker has sent: nothing that its registers do not reach, everything above its
threshold, and all it holds if it has flushed. -/
structure Sent (hasher : SketchHasher) (threshold : ℕ) (done : Bool) (inputs : List DataInput)
    (worker : HllOctoWorker precision) (deltas : List HllDelta) : Prop where
  registers : worker.child.registers = (sequential hasher precision inputs).registers
  fixed : worker.threshold = threshold
  held : ∀ delta ∈ deltas, Reaches worker.child.registers delta.pos delta.value
  above : ∀ place value, Reaches worker.child.registers place value → threshold < value →
    Sends deltas place value
  drained : done = true → ∀ place value, Reaches worker.child.registers place value → 0 < value →
    Sends deltas place value

/-- An improvement above the threshold is large enough, however large the register was. -/
theorem improves {threshold previous leadingZero : ℕ} (grows : previous < leadingZero)
    (above : threshold < leadingZero) (small : leadingZero < 127) :
    Hll.pow2Saturating threshold ≤
      Hll.pow2Saturating leadingZero - Hll.pow2Saturating previous := by
  unfold Hll.pow2Saturating
  rw [if_neg (by omega), if_neg (by omega), if_neg (by omega)]
  obtain ⟨most, rfl⟩ := Nat.exists_eq_succ_of_ne_zero (Nat.ne_zero_of_lt above)
  have first : 2 ^ threshold ≤ 2 ^ most := Nat.pow_le_pow_right (by decide) (by omega)
  have second : 2 ^ previous ≤ 2 ^ most := Nat.pow_le_pow_right (by decide) (by omega)
  rw [Nat.pow_succ]
  omega

theorem Sent.process {threshold : ℕ} {done : Bool} {inputs : List DataInput}
    {worker : HllOctoWorker precision} {deltas : List HllDelta} (atLeast : 1 ≤ precision)
    (atMost : precision ≤ 63) (accepted : threshold < Hll.maxHllThreshold precision)
    (before : Sent hasher threshold done inputs worker deltas) (input : DataInput) :
    Sent hasher threshold false (inputs ++ [input])
      (worker.process (canonicalHash hasher input)).1
      (deltas ++ (worker.process (canonicalHash hasher input)).2) := by
  have registers : (worker.child.insertWithHash (canonicalHash hasher input)).registers =
      (sequential hasher precision (inputs ++ [input])).registers := by
    unfold sequential
    rw [List.foldl_append]
    exact congrArg (raise · _) before.registers
  generalize canonicalHash hasher input = hashed at registers
  have inside : Hll.bucketNum precision hashed < worker.child.registers.length :=
    (Hll.bucketNum_lt precision hashed).trans_eq worker.child.sized.symm
  have small : Hll.leadingZero precision hashed < 127 := by
    have rank := congrArg Prod.snd (Hll.update_eq atLeast atMost hashed)
    have most := Hll.rank_le (atMost.trans (by decide)) hashed
    simp only [Hll.update] at rank
    omega
  have raised := reaches_raise worker.child.registers (Hll.update precision hashed)
  simp only [HllOctoWorker.process, insertEmitDeltaWithHashAndThreshold]
  rw [before.fixed, Nat.min_eq_left accepted.le, List.getD_eq_getElem _ 0 inside]
  by_cases grows : worker.child.registers[Hll.bucketNum precision hashed] <
      Hll.leadingZero precision hashed
  · rw [if_pos grows]
    refine ⟨registers, rfl, fun delta member => (raised _ _).mpr ?_,
      fun place value reached above => ?_, fun none => absurd none Bool.false_ne_true⟩
    · rcases List.mem_append.mp member with old | new
      · exact .inl (before.held delta old)
      · split at new
        · rw [List.mem_singleton.mp new]
          exact .inr ⟨inside, rfl, le_rfl⟩
        · exact absurd new List.not_mem_nil
    · rcases (raised place value).mp reached with old | ⟨-, rfl, below⟩
      · exact (before.above place value old above).append _
      · rw [if_pos (improves grows (above.trans_le below) small)]
        exact ⟨_, List.mem_append_right _ List.mem_cons_self, rfl, below⟩
  · have same : (worker.child.insertWithHash hashed).registers = worker.child.registers :=
      raise_of_reaches ⟨_, List.getElem?_eq_getElem inside, not_lt.mp grows⟩
    rw [same] at registers
    rw [if_neg grows]
    exact ⟨registers, rfl, fun delta member => before.held delta (by simpa using member),
      fun place value reached above => (before.above place value reached above).append _,
      fun none => absurd none Bool.false_ne_true⟩

theorem Sent.flush {threshold : ℕ} {done : Bool} {inputs : List DataInput}
    {worker : HllOctoWorker precision} {deltas : List HllDelta}
    (before : Sent hasher threshold done inputs worker deltas) :
    Sent hasher threshold true inputs worker.flush.1 (deltas ++ worker.flush.2) := by
  refine ⟨before.registers, before.fixed, fun delta member => ?_, fun place value reached above =>
    (before.above place value reached above).append _, fun _ place value reached positive => ?_⟩
  · rcases List.mem_append.mp member with old | new
    · exact before.held delta old
    · obtain ⟨⟨value, pos⟩, held, emitted⟩ := List.mem_filterMap.mp new
      have read := List.mem_zipIdx_iff_getElem?.mp held
      simp only at emitted
      split at emitted
      · rw [← Option.some.inj emitted]
        exact ⟨value, read, le_rfl⟩
      · exact absurd emitted (Option.some_ne_none delta).symm
  · obtain ⟨own, read, below⟩ := reached
    refine ⟨⟨place, own⟩, List.mem_append_right _ (List.mem_filterMap.mpr ⟨(own, place), ?_, ?_⟩),
      rfl, below⟩
    · exact List.mem_zipIdx_iff_getElem?.mpr read
    · exact if_pos (by omega)

end HllOctoWorker

/-! ### The pipeline -/

namespace HyperLogLog

open HllOctoWorker OctoState Registers

variable {hasher : SketchHasher} {precision : ℕ}

end HyperLogLog

end AsapSketchlib
