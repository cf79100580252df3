/-
This file models Nitro sampling: a sketch of several rows counts an update only in the rows its
schedule admits, and what is left of a skip is carried into the next update. The updates read
one schedule over all their row slots, without a slot read twice or left out between two.

The entries of the skip table and the stream of rounding draws are parameters.
-/

import AsapSketchlib.ArrivalSchedule
import AsapSketchlib.EmittedDeltas
import AsapSketchlib.Floating

namespace AsapSketchlib

/-! ### Draws -/

def precomputedSampleLen : ℕ := 0x10000

/-- Where a sampling state draws from. -/
structure Draws where
  /-- The entry of the skip table an index selects. -/
  entry : ℕ → F64
  /-- The index that selects the next entry. -/
  following : ℕ → ℕ
  /-- The uniform a state of the rounding stream gives, with the next state. -/
  uniform : BitVec 64 → F64 × BitVec 64

namespace Draws

/-- `next_rounding_uniform`: the top 53 bits of splitmix64. -/
def splitmix (state : BitVec 64) : F64 × BitVec 64 :=
  let state := state + 0x9E3779B97F4A7C15#64
  let z := state
  let z := (z ^^^ (z >>> 30)) * 0xBF58476D1CE4E5B9#64
  let z := (z ^^^ (z >>> 27)) * 0x94D049BB133111EB#64
  let z := z ^^^ (z >>> 31)
  ((F64.ofInt (z >>> 11).toNat).div (F64.ofInt (2 ^ 53)), state)

/-- `cursor`: an index folded into the table. -/
def cursor (idx : ℕ) : ℕ := idx % precomputedSampleLen

def precomputed (sample : ℕ → F64) : Draws where
  entry := fun idx => sample (cursor idx)
  following := fun idx => (cursor idx + 1) % precomputedSampleLen
  uniform := splitmix

end Draws

/-! ### The sampling state -/

/-- The sampling state. -/
structure Nitro where
  samplingRate : F64
  /-- The row slots to skip before the next admission. -/
  toSkip : ℕ
  /-- What turns a table entry into a geometric draw. -/
  invLnOneMinusP : F64
  /-- The integer part of the weight of an admitted slot. -/
  delta : BitVec 64
  idx : ℕ
  roundingState : BitVec 64
  deriving DecidableEq

/-- The part of the state that decides which slots are admitted next, at what weight. -/
structure NitroContext where
  tableCursor : ℕ
  toSkip : ℕ
  roundingState : BitVec 64

namespace Nitro

variable (draws : Draws)

/-- Whether every slot is admitted: the rate is one, up to `f64::EPSILON`. -/
def isFullSampling (nitro : Nitro) : Bool :=
  decide ((nitro.samplingRate.sub (F64.ofInt 1)).abs.AtMost (.finite (1 / 2 ^ 52)))

def scaledIncrement (nitro : Nitro) (weight : BitVec 64) : BitVec 64 :=
  if nitro.isFullSampling then weight
  else BitVec.ofNat 64 ((F64.ofInt weight.toNat).div nitro.samplingRate).floor.asU64

def drawGeometric (nitro : Nitro) : Nitro :=
  if nitro.isFullSampling then { nitro with toSkip := 0 }
  else
    { nitro with
      toSkip := ((draws.entry nitro.idx).mul nitro.invLnOneMinusP).floor.asU64
      idx := draws.following nitro.idx }

/-- `admitted_delta`: no uniform is drawn where the inverse of the rate is an integer. -/
def admittedDelta (nitro : Nitro) : BitVec 64 × Nitro :=
  if nitro.isFullSampling then (nitro.delta, nitro)
  else
    let exact := (F64.ofInt 1).div nitro.samplingRate
    let frac := exact.sub exact.floor
    if frac.AtMost F64.zero then (nitro.delta, nitro)
    else
      let drawn := draws.uniform nitro.roundingState
      (nitro.delta + (if drawn.1.Less frac then 1 else 0), { nitro with roundingState := drawn.2 })

/-- `seeded_from`, where `ln` is the logarithm. -/
def seededFrom (ln : F64 → F64) (rate : F64) (seed : Option (BitVec 64)) : Option Nitro :=
  if F64.zero.Less rate ∧ rate.AtMost (F64.ofInt 1) then
    let nitro : Nitro :=
      { samplingRate := rate
        toSkip := 0
        invLnOneMinusP :=
          if (rate.sub (F64.ofInt 1)).abs.AtMost (.finite (1 / 2 ^ 52)) then F64.zero
          else (F64.ofInt 1).div (ln ((F64.ofInt 1).sub rate))
        delta := 0
        idx := seed.elim 0 fun seed => seed.toNat % precomputedSampleLen
        roundingState := seed.elim 0x2545F4914F6CDD1D#64 fun seed =>
          if seed = 0 then 0x2545F4914F6CDD1D#64 else seed }
    some ({ nitro with delta := nitro.scaledIncrement 1 }.drawGeometric draws)
  else none

/-- The loop of `admit_rows`. Each turn moves past a row, so that as many turns as there are rows
are enough. -/
def walk (rows : ℕ) : ℕ → ℕ → Nitro → List (ℕ × BitVec 64) × ℕ × Nitro
  | 0, row, nitro => ([], row, nitro)
  | turns + 1, row, nitro =>
    if row < rows then
      let weighed := nitro.admittedDelta draws
      let drawn := weighed.2.drawGeometric draws
      let rest := walk rows turns (saturatingAdd (saturatingAdd row 1) drawn.toSkip) drawn
      ((row, weighed.1) :: rest.1, rest.2)
    else ([], row, nitro)

/-- `admit_rows`: the rows of one update that are admitted, with their weights. -/
def admitRows (nitro : Nitro) (rows : ℕ) : List (ℕ × BitVec 64) × Nitro :=
  if rows = 0 then ([], nitro)
  else if nitro.isFullSampling then ((List.range rows).map fun row => (row, 1), nitro)
  else
    let walked := walk draws rows rows nitro.toSkip nitro
    (walked.1, { walked.2.2 with toSkip := walked.2.1 - rows })

/-- Calls of `admit_rows` one after another. The rows of a call are numbered behind those of the
calls before it. -/
def admitInTurn (nitro : Nitro) : List ℕ → List (ℕ × BitVec 64) × Nitro
  | [] => ([], nitro)
  | rows :: rest =>
    let admitted := nitro.admitRows draws rows
    let later := admitInTurn admitted.2 rest
    (admitted.1 ++ Schedule.shiftBy rows later.1, later.2)

def restoreContext (nitro : Nitro) (context : NitroContext) : Nitro :=
  { nitro with
    idx := context.tableCursor
    toSkip := context.toSkip
    roundingState := context.roundingState }

/-! ### The schedule of a state -/

/-- The state at a position of the skip table and of the rounding stream. -/
def resumeAt (nitro : Nitro) (toSkip : ℕ) (position : ℕ × BitVec 64) : Nitro :=
  nitro.restoreContext ⟨position.1, toSkip, position.2⟩

/-- What an admission draws at a position: its weight, the skip behind it and the position
behind both draws. -/
def drawn (nitro : Nitro) (position : ℕ × BitVec 64) : BitVec 64 × ℕ × ℕ × BitVec 64 :=
  let weighed := (nitro.resumeAt 0 position).admittedDelta draws
  let next := weighed.2.drawGeometric draws
  (weighed.1, next.toSkip, next.idx, next.roundingState)

def position (nitro : Nitro) : ℕ × BitVec 64 := (nitro.idx, nitro.roundingState)

/-- The slots a walk over some rows adds up are `usize` values. -/
def Unsaturated (nitro : Nitro) (rows : ℕ) : Prop :=
  let slot := Schedule.slot (nitro.drawn draws) nitro.toSkip nitro.position
  ∀ index, slot index < rows → slot (index + 1) ≤ u64Max

@[simp] theorem isFullSampling_resumeAt (nitro : Nitro) (toSkip : ℕ) (position : ℕ × BitVec 64) :
    (nitro.resumeAt toSkip position).isFullSampling = nitro.isFullSampling := rfl

theorem admittedDelta_resumeAt (nitro : Nitro) (toSkip : ℕ) (position : ℕ × BitVec 64) :
    (nitro.resumeAt toSkip position).admittedDelta draws =
      let weighed := (nitro.resumeAt 0 position).admittedDelta draws
      (weighed.1, nitro.resumeAt toSkip (position.1, weighed.2.roundingState)) := by
  simp only [admittedDelta]
  rw [isFullSampling_resumeAt, isFullSampling_resumeAt]
  split
  · rfl
  · have rateKept : (nitro.resumeAt toSkip position).samplingRate =
        (nitro.resumeAt 0 position).samplingRate := rfl
    rw [rateKept]
    split <;> rfl

@[simp] theorem roundingState_drawGeometric (nitro : Nitro) :
    (nitro.drawGeometric draws).roundingState = nitro.roundingState := by
  unfold drawGeometric
  split <;> rfl

variable {draws}

section

variable {nitro : Nitro} (below : nitro.isFullSampling = false) (toSkip : ℕ)
  (position : ℕ × BitVec 64)

include below

theorem drawGeometric_resumeAt :
    (nitro.resumeAt toSkip position).drawGeometric draws =
      let next := (nitro.resumeAt 0 position).drawGeometric draws
      nitro.resumeAt next.toSkip (next.idx, position.2) := by
  have belowThere : ∀ skip, ¬(nitro.resumeAt skip position).isFullSampling = true :=
    fun _ full => Bool.false_ne_true (below.symm.trans full)
  simp only [drawGeometric, if_neg (belowThere _)]
  rfl

theorem drawGeometric_admittedDelta :
    ((nitro.resumeAt toSkip position).admittedDelta draws).2.drawGeometric draws =
      nitro.resumeAt (nitro.drawn draws position).2.1 (nitro.drawn draws position).2.2 := by
  have atZero := congrArg Prod.snd (admittedDelta_resumeAt draws nitro 0 position)
  simp only [drawn, roundingState_drawGeometric]
  rw [admittedDelta_resumeAt, drawGeometric_resumeAt below, atZero]
  rfl

end

/-! ### The walk follows the schedule -/

section Walk

open Schedule

variable {nitro : Nitro} {rows : ℕ}

theorem saturatingAdd_slot (unsaturated : nitro.Unsaturated draws rows) {index : ℕ}
    (inside : slot (nitro.drawn draws) nitro.toSkip nitro.position index < rows) :
    saturatingAdd
        (saturatingAdd (slot (nitro.drawn draws) nitro.toSkip nitro.position index) 1)
        (gap (nitro.drawn draws) nitro.position index) =
      slot (nitro.drawn draws) nitro.toSkip nitro.position (index + 1) := by
  have fits := unsaturated index inside
  rw [slot] at fits ⊢
  unfold saturatingAdd
  rw [Nat.min_eq_left ((Nat.le_add_right _ _).trans fits), Nat.min_eq_left fits]

/-- The walk from an arrival on, where `left` arrivals are left. -/
theorem walk_eq (below : nitro.isFullSampling = false)
    (unsaturated : nitro.Unsaturated draws rows) (left : ℕ) :
    ∀ first turns toSkip,
      first + left = arrivals (nitro.drawn draws) nitro.toSkip nitro.position rows →
      left ≤ turns →
      ∃ lastSkip,
        walk draws rows turns (slot (nitro.drawn draws) nitro.toSkip nitro.position first)
            (nitro.resumeAt toSkip (after (nitro.drawn draws) nitro.position first)) =
          ((List.range' first left).map (arrival (nitro.drawn draws) nitro.toSkip nitro.position),
            slot (nitro.drawn draws) nitro.toSkip nitro.position (first + left),
            nitro.resumeAt lastSkip (after (nitro.drawn draws) nitro.position (first + left))) := by
  induction left with
  | zero =>
    intro first turns toSkip reached _
    have passed : ¬slot (nitro.drawn draws) nitro.toSkip nitro.position first < rows := by
      rw [slot_lt_iff, ← reached]
      exact Nat.lt_irrefl first
    refine ⟨toSkip, ?_⟩
    cases turns with
    | zero => rfl
    | succ turns =>
      rw [walk, if_neg passed]
      rfl
  | succ left hypothesis =>
    intro first turns toSkip reached enough
    have inside : slot (nitro.drawn draws) nitro.toSkip nitro.position first < rows := by
      rw [slot_lt_iff, ← reached]
      exact Nat.lt_add_of_pos_right (Nat.succ_pos left)
    have weighed := congrArg Prod.fst (admittedDelta_resumeAt draws nitro toSkip
      (after (nitro.drawn draws) nitro.position first))
    have counted : first + (left + 1) = first + 1 + left := by ac_rfl
    cases turns with
    | zero => exact absurd enough (Nat.not_succ_le_zero left)
    | succ turns =>
      obtain ⟨lastSkip, walked⟩ := hypothesis (first + 1) turns
        (gap (nitro.drawn draws) nitro.position first) (counted.symm.trans reached)
        (Nat.le_of_succ_le_succ enough)
      refine ⟨lastSkip, ?_⟩
      rw [walk, if_pos inside, counted, List.range'_succ, List.map_cons]
      simp only [drawGeometric_admittedDelta below, weighed]
      rw [← saturatingAdd_slot unsaturated inside] at walked
      refine congrArg₂ Prod.mk (congrArg₂ List.cons rfl ?_) ?_
      · exact congrArg Prod.fst walked
      · exact congrArg Prod.snd walked

theorem admitRows_eq (below : nitro.isFullSampling = false)
    (unsaturated : nitro.Unsaturated draws rows) :
    nitro.admitRows draws rows =
      let admitted := within (nitro.drawn draws) nitro.toSkip nitro.position rows
      (admitted.1, nitro.resumeAt admitted.2.1 admitted.2.2) := by
  by_cases none : rows = 0
  · subst none
    rw [admitRows, if_pos rfl, within_zero]
    rfl
  · obtain ⟨lastSkip, walked⟩ := walk_eq below unsaturated _ 0 rows nitro.toSkip
      (Nat.zero_add _) (arrivals_le _ _ _ _)
    have walked : walk draws rows rows nitro.toSkip nitro = _ := walked
    rw [admitRows, if_neg none, below, if_neg Bool.false_ne_true, walked, Nat.zero_add,
      ← List.range_eq_range']
    rfl

theorem Unsaturated.mono {fewer : ℕ} (unsaturated : nitro.Unsaturated draws rows)
    (le : fewer ≤ rows) : nitro.Unsaturated draws fewer :=
  fun index inside => unsaturated index (inside.trans_le le)

variable {first second : ℕ} (below : nitro.isFullSampling = false)
  (unsaturated : nitro.Unsaturated draws (first + second))

include below unsaturated

theorem Unsaturated.behind :
    (nitro.admitRows draws first).2.isFullSampling = false ∧
      (nitro.admitRows draws first).2.Unsaturated draws second := by
  rw [admitRows_eq below (unsaturated.mono (Nat.le_add_right _ _))]
  refine ⟨below, fun index inside => ?_⟩
  have restarted := slot_restarted (nitro.drawn draws) nitro.toSkip nitro.position
    (window_le_slot (nitro.drawn draws) nitro.toSkip nitro.position first)
  have earlier := (Nat.add_lt_add_right inside first).trans_eq (Nat.add_comm _ _)
  have fits := unsaturated _ ((restarted index).symm.trans_lt earlier)
  rw [Nat.add_assoc, ← restarted] at fits
  exact (Nat.le_add_right _ _).trans fits

theorem admitRows_add :
    nitro.admitRows draws (first + second) =
      let before := nitro.admitRows draws first
      let behind := before.2.admitRows draws second
      (before.1 ++ shiftBy first behind.1, behind.2) := by
  have firstCall := admitRows_eq below (unsaturated.mono (Nat.le_add_right first second))
  obtain ⟨belowBehind, unsaturatedBehind⟩ := unsaturated.behind below
  simp only
  rw [admitRows_eq below unsaturated, admitRows_eq belowBehind unsaturatedBehind, firstCall,
    within_add]
  rfl

end Walk

/-- Calls of `admit_rows` for several numbers of rows admit the slots, with the weights, that one
call for all the rows admits, and leave the same state. -/
theorem admit_rows_continuous (draws : Draws) (nitro : Nitro)
    (below : nitro.isFullSampling = false) (calls : List ℕ)
    (unsaturated : nitro.Unsaturated draws calls.sum) :
    nitro.admitInTurn draws calls = nitro.admitRows draws calls.sum := by
  induction calls generalizing nitro with
  | nil => rfl
  | cons rows rest hypothesis =>
    rw [List.sum_cons] at unsaturated ⊢
    obtain ⟨belowBehind, unsaturatedBehind⟩ := unsaturated.behind below
    rw [admitRows_add below unsaturated, admitInTurn]
    simp only [hypothesis _ belowBehind unsaturatedBehind]

theorem unsaturated_of_slots {draws : Draws} {nitro : Nitro} {rows : ℕ}
    (fits : ∀ index < rows,
      Schedule.slot (nitro.drawn draws) nitro.toSkip nitro.position (index + 1) ≤ u64Max) :
    nitro.Unsaturated draws rows :=
  fun index inside => fits index ((Schedule.le_slot _ _ _ index).trans_lt inside)

/-- At the rate 0.3 the rounding stream is read; `ln` takes the value of the logarithm of 0.7
there. -/
theorem admit_rows_continuous_seeded :
    let draws := Draws.precomputed fun idx => .finite (-((idx % 3 : ℕ) : ℚ))
    ∃ nitro,
      seededFrom draws (fun _ => .finite (-401580286153717 / 2 ^ 50))
        (.finite (5404319552844595 / 2 ^ 54)) (some 7) = some nitro ∧
      nitro.isFullSampling = false ∧ nitro.Unsaturated draws [4, 0, 5, 11].sum ∧
      (nitro.admitRows draws [4, 0, 5, 11].sum).1.length = 6 ∧
      nitro.admitInTurn draws [4, 0, 5, 11] = nitro.admitRows draws [4, 0, 5, 11].sum := by
  intro draws
  have checks : ((seededFrom draws (fun _ => .finite (-401580286153717 / 2 ^ 50))
      (.finite (5404319552844595 / 2 ^ 54)) (some 7)).any fun nitro =>
      decide (nitro.isFullSampling = false ∧
        (∀ index < 20, Schedule.slot (nitro.drawn draws) nitro.toSkip nitro.position (index + 1) ≤
          u64Max) ∧
        (nitro.admitRows draws 20).1.length = 6)) = true := by decide +kernel
  obtain ⟨nitro, built, checked⟩ := (Option.any_eq_true _ _).mp checks
  obtain ⟨below, fits, admitted⟩ := of_decide_eq_true checked
  exact ⟨nitro, built, below, unsaturated_of_slots fits, admitted,
    admit_rows_continuous draws nitro below [4, 0, 5, 11] (unsaturated_of_slots fits)⟩

end Nitro

/-! ### Count-Min under sampling -/

def nitroDeltaSaturatedI32 (delta : BitVec 64) : Counter32 :=
  BitVec.ofNat 32 (min delta.toNat 2147483647)

namespace NitroCountMin

variable {HashType : Type} (draws : Draws) (fast : MatrixFastHash HashType)
  (hashForMatrix : ℕ → ℕ → DataInput → HashType)

variable (rows cols : ℕ) (value : DataInput) (rest : List DataInput) (counts : Vector2D Counter32)

end NitroCountMin

end AsapSketchlib
