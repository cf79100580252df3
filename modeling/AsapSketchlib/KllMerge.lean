/-
This file follows the sizes of the levels through a merge of KLL sketches and says when the merge
settles every level. The cascade runs once from the bottom up; when it makes the sketch higher, the
capacities of the levels behind it shrink, and no level is looked at again.
-/

import AsapSketchlib.FallibleMaps
import AsapSketchlib.KllLayout
import Mathlib.Data.List.Induction

namespace AsapSketchlib

namespace KLL

open Kll

variable {Value Coin : Type}

/-! ### The loads of the levels -/

section Loads

variable (flips : CoinFlips Coin) (capacity size : ℕ → ℕ)

/-- The load of a level, which is its own items and what the level below promotes, and the coin
when the cascade arrives there. An overfull level promotes its survivors. -/
def climb (co : Coin) : ℕ → ℕ × Coin
  | 0 => (size 0, co)
  | h + 1 =>
    let load := (climb co h).1
    let flipped := flips.toss (climb co h).2
    if capacity h < load then
      (Slice.survivors load (offsetOf flipped.1) + size (h + 1), flipped.2)
    else (size (h + 1), (climb co h).2)

/-- How many levels a load of the top level adds, and what load the new top level has. -/
def grow (full : ℕ) : ℕ → ℕ → Coin → ℕ × ℕ
  | 0, load, _ => (0, load)
  | rounds + 1, load, co =>
    if full < load then
      let flipped := flips.toss co
      let grown := grow full rounds (Slice.survivors load (offsetOf flipped.1)) flipped.2
      (grown.1 + 1, grown.2)
    else (0, load)

/-- What an overfull level keeps is nothing. -/
def kept (full load : ℕ) : ℕ := if full < load then 0 else load

theorem survivors_lt {load offset : ℕ} (large : 2 ≤ load) : Slice.survivors load offset < load := by
  unfold Slice.survivors
  omega

theorem grow_le_full {full : ℕ} (two : 2 ≤ full) (count : ℕ) {load : ℕ} (few : load ≤ count)
    (co : Coin) : (grow flips full count load co).2 ≤ full := by
  induction count generalizing load co with
  | zero => exact few.trans (Nat.zero_le full)
  | succ count hypothesis =>
    rw [grow]
    split
    · rename_i exceeds
      exact hypothesis
        (Nat.le_of_lt_succ ((survivors_lt (two.trans exceeds.le)).trans_le few)) _
    · rename_i fits
      exact not_lt.mp fits

end Loads

/-- The number of items of the levels below a height. -/
def total (size : ℕ → ℕ) : ℕ → ℕ
  | 0 => 0
  | h + 1 => total size h + size h

theorem total_congr {left right : ℕ → ℕ} {height : ℕ} (same : ∀ h < height, left h = right h) :
    total left height = total right height := by
  induction height with
  | zero => rfl
  | succ h hypothesis =>
    rw [total, total, hypothesis fun i below => same i (Nat.lt_succ_of_lt below),
      same h (Nat.lt_succ_self h)]

theorem total_mono (size : ℕ → ℕ) {first last : ℕ} (ordered : first ≤ last) :
    total size first ≤ total size last := by
  induction last, ordered using Nat.le_induction with
  | base => exact le_rfl
  | succ last _ hypothesis => exact hypothesis.trans (Nat.le_add_right _ _)

theorem climb_congr (flips : CoinFlips Coin) (capacity : ℕ → ℕ) {left right : ℕ → ℕ} (co : Coin)
    (h : ℕ) (same : ∀ i ≤ h, left i = right i) :
    climb flips capacity left co h = climb flips capacity right co h := by
  induction h with
  | zero => exact congrArg (·, co) (same 0 le_rfl)
  | succ h hypothesis =>
    have below := hypothesis fun i within => same i (Nat.le_succ_of_le within)
    simp only [climb, below, same (h + 1) le_rfl]

theorem climb_le (flips : CoinFlips Coin) (capacity size : ℕ → ℕ) (co : Coin) (h : ℕ) :
    (climb flips capacity size co h).1 ≤ total size (h + 1) := by
  induction h with
  | zero => exact (Nat.zero_add _).ge
  | succ h hypothesis =>
    have own : (climb flips capacity size co (h + 1)).1 ≤
        (climb flips capacity size co h).1 + size (h + 1) := by
      rw [climb]
      split
      · refine Nat.add_le_add_right ?_ _
        unfold Slice.survivors
        omega
      · exact Nat.le_add_left _ _
    exact own.trans (Nat.add_le_add_right hypothesis _)

theorem grow_le (flips : CoinFlips Coin) (full count load : ℕ) (co : Coin) :
    (grow flips full count load co).1 ≤ count := by
  induction count generalizing load co with
  | zero => exact le_rfl
  | succ count hypothesis =>
    rw [grow]
    split
    · exact Nat.succ_le_succ (hypothesis _ _)
    · exact Nat.zero_le _

def workSize (work : List (List Value)) (h : ℕ) : ℕ := (work.getD h []).length

/-- The sketch at a height, with the coin of a moment. -/
def raised (sketch : KLL Value Coin) (height : ℕ) (co : Coin) : KLL Value Coin :=
  rebuildCapacityCache { sketch with numLevels := height, co := co }

theorem total_workSize (work : List (List Value)) :
    total (workSize work) work.length = work.flatten.length := by
  induction work using List.reverseRecOn with
  | nil => rfl
  | append_singleton work level hypothesis =>
    have own : workSize (work ++ [level]) work.length = level.length := by
      unfold workSize
      rw [List.getD_append_right _ _ _ _ le_rfl, Nat.sub_self]
      rfl
    rw [List.length_append, List.length_singleton, total, own, List.flatten_append,
      List.length_append, List.flatten_singleton, ← hypothesis]
    refine congrArg (· + _) (total_congr fun h below => ?_)
    unfold workSize
    rw [List.getD_append _ _ _ _ below]

theorem capacityForLevel_raised (sketch : KLL Value Coin) {height : ℕ} (positive : 0 < height)
    (co : Coin) (level : ℕ) :
    (raised sketch height co).capacityForLevel level =
      capacityAt sketch.k sketch.m height level :=
  capacityForLevel_eq positive rfl rfl level

/-! ### One level of the cascade -/

theorem workSize_room (work : List (List Value)) (more i : ℕ) :
    workSize (work ++ List.replicate more []) i = workSize work i := by
  unfold workSize
  rw [List.getD_eq_getElem?_getD, List.getD_eq_getElem?_getD]
  by_cases inside : i < work.length
  · rw [List.getElem?_append_left inside]
  · rw [List.getElem?_append_right (not_lt.mp inside),
      List.getElem?_eq_none (not_lt.mp inside), List.getElem?_replicate]
    split <;> rfl

theorem workSize_beyond {top : ℕ} {work : List (List Value)} (sized : work.length = top + 2)
    (above : workSize work (top + 1) = 0) {i : ℕ} (higher : top < i) : workSize work i = 0 := by
  rcases Nat.lt_or_ge i work.length with inside | outside
  · rw [show i = top + 1 by omega, above]
  · unfold workSize
    rw [List.getD_eq_default _ _ outside]
    rfl

section Cascade

variable [LinearOrder Value] (flips : CoinFlips Coin)

theorem settleLevel_of_fits {h : ℕ} {sketch : KLL Value Coin} {work : List (List Value)}
    (fits : workSize work h ≤ sketch.capacityForLevel h) (rounds : ℕ) :
    settleLevel flips h (rounds + 1) (sketch, work) = some (sketch, work) := by
  rw [settleLevel]
  exact if_neg (not_lt.mpr fits)

/-- An overfull level is emptied in one round, and its survivors join the level above. -/
theorem settleLevel_of_over {sketch : KLL Value Coin} {height h : ℕ} (co : Coin)
    {work : List (List Value)} (inside : h < height) (sized : work.length = height + 1)
    (exceeds : capacityAt sketch.k sketch.m height h < workSize work h) (rounds : ℕ) :
    ∃ settled, settleLevel flips h (rounds + 2) (raised sketch height co, work) =
        some (raised sketch (if h + 1 = height then height + 1 else height) (flips.toss co).2,
          settled) ∧
      settled.length = (if h + 1 = height then height + 1 else height) + 1 ∧
      ∀ i, workSize settled i = if i = h then 0
        else if i = h + 1 then
          Slice.survivors (workSize work h) (offsetOf (flips.toss co).1) + workSize work (h + 1)
        else workSize work i := by
  have positive : 0 < height := Nat.zero_lt_of_lt inside
  generalize grownHeight : (if h + 1 = height then height + 1 else height) = grown
  have taller : h + 1 < grown ∧ height ≤ grown := by
    rw [← grownHeight]
    split
    · omega
    · omega
  have overfull : (raised sketch height co).capacityForLevel h < (work.getD h []).length := by
    rw [capacityForLevel_raised sketch positive]
    exact exceeds
  have same : (if h + 1 = (raised sketch height co).numLevels then
      rebuildCapacityCache { raised sketch height co with
        numLevels := (raised sketch height co).numLevels + 1 }
      else raised sketch height co) = raised sketch grown co := by
    rw [← grownHeight]
    show (if h + 1 = height then _ else _) = _
    by_cases last : h + 1 = height
    · rw [if_pos last, if_pos last]
      rfl
    · rw [if_neg last, if_neg last]
  generalize roomy : work ++ List.replicate (grown + 1 - work.length) [] = room
  have roomSize : ∀ i, (room.getD i []).length = workSize work i := by
    intro i
    rw [← roomy]
    exact workSize_room work _ i
  have roomLength : room.length = grown + 1 := by
    rw [← roomy, List.length_append, List.length_replicate, sized]
    omega
  have few : offsetOf (flips.toss co).1 ≤ (room.getD h []).length := by
    rw [roomSize]
    have least : offsetOf (flips.toss co).1 ≤ 1 := by
      unfold offsetOf
      split <;> decide
    exact least.trans (Nat.succ_le_of_lt (Nat.zero_lt_of_lt exceeds))
  obtain ⟨moved, halve, lengthMoved⟩ := Slice.randomlyHalveUp_spec few
    (show 0 + (room.getD h []).length ≤ (room.getD h []).length by rw [Nat.zero_add])
  have step : settleLevel flips h (rounds + 2) (raised sketch height co, work) =
      settleLevel flips h (rounds + 1) (raised sketch grown (flips.toss co).2,
        (room.set h []).set (h + 1) (Slice.mergeSortedRuns
          (moved.drop ((room.getD h []).length -
            Slice.survivors (room.getD h []).length (offsetOf (flips.toss co).1)) ++
            room.getD (h + 1) [])
          (moved.drop ((room.getD h []).length -
            Slice.survivors (room.getD h []).length (offsetOf (flips.toss co).1))).length)) := by
    rw [settleLevel, if_pos overfull]
    simp only [same]
    rw [show (raised sketch grown co).numLevels = grown from rfl, roomy]
    show (Slice.randomlyHalveUp (room.getD h []) 0 (room.getD h []).length
      (offsetOf (flips.toss co).1)).bind _ = _
    rw [halve]
    rfl
  have inner : h < room.length := by omega
  have outer : h + 1 < (room.set h []).length := by
    rw [List.length_set]
    omega
  refine ⟨_, step.trans (settleLevel_of_fits flips ?_ rounds), ?_, fun i => ?_⟩
  · unfold workSize
    rw [getD_set outer, if_neg (Nat.lt_succ_self h).ne, getD_set inner, if_pos rfl]
    exact Nat.zero_le _
  · rw [List.length_set, List.length_set, roomLength]
  · unfold workSize
    rw [getD_set outer, getD_set inner]
    by_cases here : i = h
    · rw [if_pos here, if_neg (by omega), if_pos here]
      rfl
    · rw [if_neg here, if_neg here]
      split
      · rw [Slice.length_mergeSortedRuns, List.length_append, List.length_drop, lengthMoved, roomSize,
          roomSize]
        have fewer := Slice.survivors_le few
        rw [roomSize] at fewer
        exact congrArg (· + _) (Nat.sub_sub_self fewer)
      · exact roomSize i

theorem workSize_sorted (work : List (List Value)) (h i : ℕ) :
    workSize (if h = 0 then work.modify 0 sorted else work) i = workSize work i := by
  split
  · unfold workSize
    rw [List.getD_eq_getElem?_getD, List.getD_eq_getElem?_getD, List.getElem?_modify]
    by_cases bottom : 0 = i
    · subst bottom
      cases work with
      | nil => rfl
      | cons first rest => exact List.length_insertionSort _ first
    · simp only [if_neg bottom, Option.map_eq_map, Option.map_id']
  · rfl

section

variable (sketch : KLL Value Coin) (co : Coin) {height h : ℕ} {work : List (List Value)}
  (inside : h < height)

include inside

theorem cascade_of_fits (fits : workSize work h ≤ capacityAt sketch.k sketch.m height h) :
    ∃ settled, (∀ rounds, cascade flips (rounds + 1) h (raised sketch height co, work) =
        cascade flips rounds (h + 1) (raised sketch height co, settled)) ∧
      settled.length = work.length ∧ ∀ i, workSize settled i = workSize work i := by
  refine ⟨if h = 0 then work.modify 0 sorted else work, fun rounds => ?_, ?_,
    workSize_sorted work h⟩
  · generalize arranged : (if h = 0 then work.modify 0 sorted else work) = tidy
    have settle : settleLevel flips h ((tidy.getD h []).length + 1)
        (raised sketch height co, tidy) = some (raised sketch height co, tidy) := by
      refine settleLevel_of_fits flips ?_ _
      rw [← arranged, workSize_sorted, capacityForLevel_raised sketch (Nat.zero_lt_of_lt inside)]
      exact fits
    rw [cascade, if_pos (show h < (raised sketch height co).numLevels from inside)]
    simp only [arranged, settle, Option.bind_eq_bind, Option.bind_some]
  · split
    · exact List.length_modify _ _ _
    · rfl

/-- The cascade empties an overfull level into the level above. -/
theorem cascade_of_over (sized : work.length = height + 1)
    (exceeds : capacityAt sketch.k sketch.m height h < workSize work h) :
    ∃ settled, (∀ rounds, cascade flips (rounds + 1) h (raised sketch height co, work) =
        cascade flips rounds (h + 1)
          (raised sketch (if h + 1 = height then height + 1 else height) (flips.toss co).2,
            settled)) ∧
      settled.length = (if h + 1 = height then height + 1 else height) + 1 ∧
      ∀ i, workSize settled i = if i = h then 0
        else if i = h + 1 then
          Slice.survivors (workSize work h) (offsetOf (flips.toss co).1) + workSize work (h + 1)
        else workSize work i := by
  generalize arranged : (if h = 0 then work.modify 0 sorted else work) = tidy
  have sizes : ∀ i, workSize tidy i = workSize work i := by
    intro i
    rw [← arranged]
    exact workSize_sorted work h i
  have tidySized : tidy.length = height + 1 := by
    rw [← arranged, ← sized]
    split
    · exact List.length_modify _ _ _
    · rfl
  have pops : (tidy.getD h []).length + 1 = ((tidy.getD h []).length - 1) + 2 := by
    have least : 0 < workSize tidy h := Nat.zero_lt_of_lt (exceeds.trans_eq (sizes h).symm)
    unfold workSize at least
    omega
  obtain ⟨settled, settle, length, settledSizes⟩ :=
    settleLevel_of_over flips co inside tidySized (exceeds.trans_eq (sizes h).symm)
      ((tidy.getD h []).length - 1)
  rw [← pops] at settle
  refine ⟨settled, fun rounds => ?_, length, fun i => ?_⟩
  · rw [cascade, if_pos (show h < (raised sketch height co).numLevels from inside)]
    simp only [arranged, settle, Option.bind_eq_bind, Option.bind_some]
  · rw [settledSizes, sizes, sizes, sizes]

end

/-! ### The whole cascade -/

/-- Below the top level the cascade leaves of every load what is kept of it. -/
theorem cascade_climb (sketch : KLL Value Coin) {top : ℕ} {co : Coin} {work : List (List Value)}
    (sized : work.length = top + 2) (h : ℕ) (below : h ≤ top) :
    ∃ climbed,
      (∀ rounds, cascade flips (rounds + h) 0 (raised sketch (top + 1) co, work) =
        cascade flips rounds h (raised sketch (top + 1)
          (climb flips (capacityAt sketch.k sketch.m (top + 1)) (workSize work) co h).2, climbed)) ∧
      climbed.length = top + 2 ∧
      ∀ i, workSize climbed i =
        if i < h then kept (capacityAt sketch.k sketch.m (top + 1) i)
          (climb flips (capacityAt sketch.k sketch.m (top + 1)) (workSize work) co i).1
        else if i = h then
          (climb flips (capacityAt sketch.k sketch.m (top + 1)) (workSize work) co h).1
        else workSize work i := by
  induction h with
  | zero =>
    refine ⟨work, fun rounds => rfl, sized, fun i => ?_⟩
    rw [if_neg (Nat.not_lt_zero i)]
    split
    · rename_i bottom
      rw [bottom]
      rfl
    · rfl
  | succ h hypothesis =>
    obtain ⟨climbed, ran, length, sizes⟩ := hypothesis (Nat.le_of_succ_le below)
    have own : workSize climbed h = (climb flips (capacityAt sketch.k sketch.m (top + 1))
        (workSize work) co h).1 := by
      rw [sizes, if_neg (lt_irrefl h), if_pos rfl]
    have next : workSize climbed (h + 1) = workSize work (h + 1) := by
      rw [sizes, if_neg (by omega), if_neg (Nat.succ_ne_self h)]
    have inside : h < top + 1 := Nat.lt_succ_of_le (Nat.le_of_succ_le below)
    have rest : ∀ {settled : List (List Value)} {load : ℕ}, workSize settled h =
          kept (capacityAt sketch.k sketch.m (top + 1) h)
            (climb flips (capacityAt sketch.k sketch.m (top + 1)) (workSize work) co h).1 →
        workSize settled (h + 1) = load →
        (∀ i, i ≠ h → i ≠ h + 1 → workSize settled i = workSize climbed i) →
        ∀ i, workSize settled i = if i < h + 1 then kept (capacityAt sketch.k sketch.m (top + 1) i)
            (climb flips (capacityAt sketch.k sketch.m (top + 1)) (workSize work) co i).1
          else if i = h + 1 then load else workSize work i := by
      intro settled load here above other i
      by_cases same : i = h
      · rw [same, if_pos (Nat.lt_succ_self h), here]
      · by_cases upper : i = h + 1
        · rw [upper, if_neg (lt_irrefl _), if_pos rfl, above]
        · rw [other i same upper, sizes]
          by_cases lower : i < h
          · rw [if_pos lower, if_pos (Nat.lt_succ_of_lt lower)]
          · rw [if_neg lower, if_neg same, if_neg (by omega), if_neg upper]
    by_cases exceeds : capacityAt sketch.k sketch.m (top + 1) h < (climb flips
        (capacityAt sketch.k sketch.m (top + 1)) (workSize work) co h).1
    · obtain ⟨settled, step, settledLength, settledSizes⟩ :=
        cascade_of_over flips sketch _ inside length (own ▸ exceeds)
      rw [if_neg (by omega)] at step settledLength
      refine ⟨settled, fun rounds => ?_, settledLength, rest ?_ ?_ fun i notHere notNext => ?_⟩
      · rw [show rounds + (h + 1) = rounds + 1 + h by omega, ran, step, climb, if_pos exceeds]
      · rw [settledSizes, if_pos rfl, kept, if_pos exceeds]
      · rw [settledSizes, if_neg (Nat.succ_ne_self h), if_pos rfl, own, next, climb, if_pos exceeds]
      · rw [settledSizes, if_neg notHere, if_neg notNext]
    · obtain ⟨settled, step, settledLength, settledSizes⟩ :=
        cascade_of_fits flips sketch _ inside (own ▸ not_lt.mp exceeds)
      refine ⟨settled, fun rounds => ?_, settledLength.trans length,
        rest ?_ ?_ fun i _ _ => settledSizes i⟩
      · rw [show rounds + (h + 1) = rounds + 1 + h by omega, ran, step, climb, if_neg exceeds]
      · rw [settledSizes, own, kept, if_neg exceeds]
      · rw [settledSizes, next, climb, if_neg exceeds]

theorem cascade_done (sketch : KLL Value Coin) (height : ℕ) (co : Coin)
    (work : List (List Value)) (rounds : ℕ) :
    cascade flips (rounds + 1) height (raised sketch height co, work) =
      some (raised sketch height co, work) := by
  rw [cascade]
  exact if_neg (lt_irrefl height)

theorem capacityAt_top (k m top : ℕ) : capacityAt k m (top + 1) top = capacityAt k m 1 0 := by
  unfold capacityAt
  rw [Nat.add_sub_cancel, Nat.sub_self]

theorem cascade_top_of_fits (sketch : KLL Value Coin) (co : Coin) {top : ℕ}
    {work : List (List Value)} (sized : work.length = top + 2)
    (above : workSize work (top + 1) = 0)
    (fits : workSize work top ≤ capacityAt sketch.k sketch.m 1 0) :
    ∃ settled last,
      (∀ rounds, cascade flips (rounds + 2) top (raised sketch (top + 1) co, work) =
        some (raised sketch (top + 1) last, settled)) ∧
      ∀ i, workSize settled i = if i < top then workSize work i
        else if i = top then workSize work top else 0 := by
  obtain ⟨settled, step, _, sizes⟩ := cascade_of_fits flips sketch co (Nat.lt_succ_self top)
    (fits.trans_eq (capacityAt_top sketch.k sketch.m top).symm)
  refine ⟨settled, co, fun rounds => ?_, fun i => ?_⟩
  · rw [step, cascade_done]
  · rw [sizes]
    rcases Nat.lt_trichotomy i top with lower | same | higher
    · rw [if_pos lower]
    · rw [if_neg same.not_lt, if_pos same, same]
    · rw [if_neg higher.not_gt, if_neg higher.ne', workSize_beyond sized above higher]

/-- At the top level the cascade makes the sketch higher as long as the load does not fit. -/
theorem cascade_top (sketch : KLL Value Coin) (two : 2 ≤ capacityAt sketch.k sketch.m 1 0)
    (count : ℕ) {top : ℕ} (co : Coin) {work : List (List Value)}
    (few : workSize work top ≤ count) (sized : work.length = top + 2)
    (above : workSize work (top + 1) = 0) :
    ∃ settled last,
      (∀ rounds, cascade flips (rounds + (grow flips (capacityAt sketch.k sketch.m 1 0) count
          (workSize work top) co).1 + 2) top (raised sketch (top + 1) co, work) =
        some (raised sketch (top + (grow flips (capacityAt sketch.k sketch.m 1 0) count
          (workSize work top) co).1 + 1) last, settled)) ∧
      ∀ i, workSize settled i = if i < top then workSize work i
        else if i = top + (grow flips (capacityAt sketch.k sketch.m 1 0) count
          (workSize work top) co).1 then
          (grow flips (capacityAt sketch.k sketch.m 1 0) count (workSize work top) co).2
        else 0 := by
  induction count generalizing top co work with
  | zero => exact cascade_top_of_fits flips sketch co sized above (few.trans (Nat.zero_le _))
  | succ count hypothesis =>
    by_cases exceeds : capacityAt sketch.k sketch.m 1 0 < workSize work top
    · obtain ⟨next, step, length, sizes⟩ := cascade_of_over flips sketch co (Nat.lt_succ_self top)
        sized ((capacityAt_top sketch.k sketch.m top).trans_lt exceeds)
      rw [if_pos rfl] at step length
      have load : workSize next (top + 1) =
          Slice.survivors (workSize work top) (offsetOf (flips.toss co).1) := by
        rw [sizes, if_neg (Nat.succ_ne_self top), if_pos rfl, above, Nat.add_zero]
      have fewer : workSize next (top + 1) ≤ count := by
        rw [load]
        exact Nat.le_of_lt_succ ((survivors_lt (two.trans exceeds.le)).trans_le few)
      have empty : workSize next (top + 2) = 0 := by
        rw [sizes, if_neg (by omega), if_neg (by omega),
          workSize_beyond sized above (by omega)]
      obtain ⟨settled, last, ran, final⟩ :=
        hypothesis (flips.toss co).2 fewer length empty
      rw [load] at ran final
      simp only [grow, if_pos exceeds]
      refine ⟨settled, last, fun rounds => ?_, fun i => ?_⟩
      · rw [← Nat.add_assoc rounds, step]
        refine (ran rounds).trans ?_
        rw [Nat.add_right_comm top 1, ← Nat.add_assoc top]
      · rw [final, Nat.add_right_comm top 1, ← Nat.add_assoc top]
        rcases Nat.lt_trichotomy i top with lower | same | higher
        · rw [if_pos (Nat.lt_succ_of_lt lower), if_pos lower, sizes, if_neg lower.ne,
            if_neg (Nat.lt_succ_of_lt lower).ne]
        · rw [if_pos (same.trans_lt (Nat.lt_succ_self top)), if_neg same.not_lt, if_neg (by omega),
            sizes, if_pos same]
        · rw [if_neg (not_lt.mpr (Nat.succ_le_of_lt higher)), if_neg higher.not_gt]
    · have fits := cascade_top_of_fits flips sketch co sized above (not_lt.mp exceeds)
      simp only [grow, if_neg exceeds]
      exact fits

end Cascade

/-! ### Reading the levels and writing them back -/

theorem combined_spec [LinearOrder Value] {sketch other : KLL Value Coin} (formed : Formed sketch)
    (otherFormed : Formed other) (h : ℕ) :
    ∃ level, combined sketch other h = some level ∧
      level.length = sketch.sizeAt h + other.sizeAt h := by
  obtain ⟨own, readOwn, lengthOwn⟩ : ∃ own,
      (if h < sketch.numLevels then sketch.levelItems h else some []) = some own ∧
        own.length = sketch.sizeAt h := by
    by_cases inside : h < sketch.numLevels
    · rw [if_pos inside]
      exact formed.levelItems_spec inside
    · rw [if_neg inside, sizeAt, if_neg inside]
      exact ⟨[], rfl, rfl⟩
  unfold combined
  rw [readOwn]
  by_cases inside : h < other.numLevels
  · obtain ⟨theirs, readTheirs, lengthTheirs⟩ := otherFormed.levelItems_spec inside
    simp only [Option.bind_eq_bind, Option.bind_some, if_pos inside, readTheirs]
    refine ⟨_, rfl, ?_⟩
    have both : (own ++ theirs).length = sketch.sizeAt h + other.sizeAt h := by
      rw [List.length_append, lengthOwn, lengthTheirs]
    split
    · exact (Slice.length_mergeSortedRuns _ _).trans both
    · exact both
  · simp only [Option.bind_eq_bind, Option.bind_some, if_neg inside]
    refine ⟨own, rfl, ?_⟩
    rw [lengthOwn, show other.sizeAt h = 0 from if_neg inside, Nat.add_zero]

theorem writeLevels_of_fits (work : List (List Value)) (height : ℕ) {items : List Value}
    {levels : List ℕ} {cursor : ℕ} (fits : total (workSize work) height ≤ cursor)
    (inside : cursor ≤ items.length) (entries : height ≤ levels.length) :
    ∃ written starts, writeLevels work height (items, levels, cursor) =
        some (written, starts, cursor - total (workSize work) height) ∧
      written.length = items.length ∧ starts.length = levels.length ∧
      ∀ i, starts.getD i 0 = if i < height then
          cursor - (total (workSize work) height - total (workSize work) i)
        else levels.getD i 0 := by
  induction height generalizing items levels cursor with
  | zero =>
    refine ⟨items, levels, rfl, rfl, rfl, fun i => ?_⟩
    rw [if_neg (Nat.not_lt_zero i)]
  | succ h hypothesis =>
    have room : workSize work h ≤ cursor := (Nat.le_add_left _ _).trans fits
    have place : cursor - workSize work h + (work.getD h []).length ≤ items.length :=
      (Nat.sub_add_cancel room).le.trans inside
    have entry : h < levels.length := Nat.lt_of_succ_le entries
    have step : writeLevels work (h + 1) (items, levels, cursor) =
        writeLevels work h (Slice.copyInto items (cursor - workSize work h) (work.getD h []),
          levels.set h (cursor - workSize work h), cursor - workSize work h) := by
      rw [writeLevels]
      show (minus cursor (workSize work h)).bind _ = _
      rw [minus_of_le room, Option.bind_some, Slice.copyFromSlice_eq place, Option.bind_eq_bind,
        Option.bind_some, Slice.write_eq entry, Option.bind_eq_bind, Option.bind_some]
    have insideCopy : cursor - workSize work h ≤
        (Slice.copyInto items (cursor - workSize work h) (work.getD h [])).length := by
      rw [Slice.length_copyInto]
      exact (Nat.sub_le _ _).trans inside
    have entriesSet : h ≤ (levels.set h (cursor - workSize work h)).length := by
      rw [List.length_set]
      exact entry.le
    obtain ⟨written, starts, ran, lengthWritten, lengthStarts, each⟩ :=
      hypothesis (Nat.le_sub_of_add_le fits) insideCopy entriesSet
    refine ⟨written, starts, ?_, lengthWritten.trans (Slice.length_copyInto _ _ _),
      lengthStarts.trans List.length_set, fun i => ?_⟩
    · rw [step, ran, total, Nat.sub_sub, Nat.add_comm (workSize work h)]
    · rw [each, getD_set entry, total]
      rcases Nat.lt_trichotomy i h with lower | same | higher
      · have below := total_mono (workSize work) lower.le
        rw [if_pos lower, if_pos (Nat.lt_succ_of_lt lower), Nat.sub_sub]
        exact congrArg (cursor - ·) (by omega)
      · rw [if_neg same.not_lt, if_pos same, if_pos (same.trans_lt (Nat.lt_succ_self h)), same,
          Nat.add_sub_cancel_left]
      · rw [if_neg higher.not_gt, if_neg higher.ne', if_neg (not_lt.mpr (Nat.succ_le_of_lt higher))]

theorem writeLevels_eq_some {work : List (List Value)} {height : ℕ} {items written : List Value}
    {levels starts : List ℕ} {cursor last : ℕ}
    (ran : writeLevels work height (items, levels, cursor) = some (written, starts, last)) :
    total (workSize work) height ≤ cursor ∧ starts.length = levels.length := by
  induction height generalizing items levels cursor with
  | zero =>
    obtain ⟨_, same⟩ := Prod.mk.inj (Option.some.inj ran)
    exact ⟨Nat.zero_le _, congrArg List.length (Prod.mk.inj same).1.symm⟩
  | succ h hypothesis =>
    simp only [writeLevels, Option.bind_eq_bind, Option.bind_eq_some_iff] at ran
    obtain ⟨place, took, copied, _, entries, wrote, later⟩ := ran
    obtain ⟨room, rfl⟩ := Slice.minus_eq_some took
    obtain ⟨fits, length⟩ := hypothesis later
    obtain ⟨_, rfl⟩ := Slice.write_eq_some wrote
    exact ⟨(Nat.add_le_add_right fits _).trans_eq (Nat.sub_add_cancel room),
      length.trans List.length_set⟩

/-- Levels that fit are written back so that the last one ends where the buffer does, and every
entry behind the height is the end of the buffer. -/
theorem writeBack_of_fits (sketch : KLL Value Coin) (work : List (List Value))
    (fits : total (workSize work) sketch.numLevels ≤ sketch.maxCapacity)
    (buffer : sketch.items.length = sketch.maxCapacity)
    (length : sketch.levels.length = maxLevels + 1) (height : sketch.numLevels ≤ maxLevels) :
    ∃ items levels, writeBack sketch work =
        some { sketch with items := items, levels := levels } ∧
      items.length = sketch.maxCapacity ∧ levels.length = maxLevels + 1 ∧
      ∀ i ≤ maxLevels, levels.getD i 0 = if i < sketch.numLevels then
          sketch.maxCapacity -
            (total (workSize work) sketch.numLevels - total (workSize work) i)
        else sketch.maxCapacity := by
  obtain ⟨written, starts, ran, lengthWritten, lengthStarts, each⟩ :=
    writeLevels_of_fits work sketch.numLevels fits buffer.ge
      (height.trans ((Nat.le_succ maxLevels).trans_eq length.symm))
  have entry : sketch.numLevels < starts.length := by
    rw [lengthStarts, length]
    exact Nat.lt_succ_of_le height
  refine ⟨written, (starts.set sketch.numLevels sketch.maxCapacity).mapIdx fun place level =>
    if sketch.numLevels < place then sketch.maxCapacity else level, ?_,
    lengthWritten.trans buffer, ?_, fun i within => ?_⟩
  · unfold writeBack
    simp only [ran, Slice.write_eq entry, Option.bind_eq_bind, Option.bind_some]
  · rw [List.length_mapIdx, List.length_set, lengthStarts, length]
  · have inside : i < (starts.set sketch.numLevels sketch.maxCapacity).length := by
      rw [List.length_set, lengthStarts, length]
      exact Nat.lt_succ_of_le within
    rw [List.getD_eq_getElem _ 0 (inside.trans_eq List.length_mapIdx.symm), List.getElem_mapIdx,
      ← List.getD_eq_getElem _ 0 inside, getD_set entry, each]
    rcases Nat.lt_trichotomy i sketch.numLevels with lower | same | higher
    · rw [if_neg lower.not_gt, if_neg lower.ne, if_pos lower, if_pos lower]
    · rw [if_neg same.not_gt, if_pos same, if_neg same.not_lt]
    · rw [if_pos higher, if_neg higher.not_gt]

theorem writeBack_eq_some {sketch result : KLL Value Coin} {work : List (List Value)}
    (ran : writeBack sketch work = some result) :
    total (workSize work) sketch.numLevels ≤ sketch.maxCapacity ∧
      sketch.numLevels < sketch.levels.length := by
  simp only [writeBack, Option.bind_eq_bind, Option.bind_eq_some_iff] at ran
  obtain ⟨⟨items, starts, cursor⟩, written, levels, wrote, _⟩ := ran
  obtain ⟨fits, length⟩ := writeLevels_eq_some written
  exact ⟨fits, (Slice.write_eq_some wrote).1.trans_eq length⟩

/-! ### What a merge makes of the sizes -/

section Merge

variable (flips : CoinFlips Coin) (sketch other : KLL Value Coin)

/-- The items of a level in both sketches. -/
def mergedSize (h : ℕ) : ℕ := sketch.sizeAt h + other.sizeAt h

def mergedTop : ℕ := Nat.max sketch.numLevels other.numLevels - 1

def mergedCapacity (h : ℕ) : ℕ := capacityAt sketch.k sketch.m (mergedTop sketch other + 1) h

/-- The load of a level: what it has in both sketches, and what the level below promotes. -/
def mergedLoad (h : ℕ) : ℕ × Coin :=
  climb flips (mergedCapacity sketch other) (mergedSize sketch other) sketch.co h

/-- How many levels the load of the top level adds, and what is left of it. -/
def mergedGrowth : ℕ × ℕ :=
  let load := mergedLoad flips sketch other (mergedTop sketch other)
  grow flips (capacityAt sketch.k sketch.m 1 0) load.1 load.1 load.2

def mergedHeight : ℕ := mergedTop sketch other + (mergedGrowth flips sketch other).1 + 1

def remaining (h : ℕ) : ℕ :=
  if h < mergedTop sketch other then
    kept (mergedCapacity sketch other h) (mergedLoad flips sketch other h).1
  else if h = mergedTop sketch other + (mergedGrowth flips sketch other).1 then
    (mergedGrowth flips sketch other).2
  else 0

variable {sketch other}

theorem two_le_capacityAt (formed : Formed sketch) (height level : ℕ) :
    2 ≤ capacityAt sketch.k sketch.m height level :=
  formed.two.trans (le_capacityAt _ _ _ _)

variable [LinearOrder Value]

/-- A merge with a sketch that has items writes back what the cascade leaves. -/
theorem merge_eq (formed : Formed sketch) (otherFormed : Formed other)
    (nonempty : other.start 0 ≠ other.start other.numLevels) :
    ∃ settled last, merge flips sketch other =
        writeBack (raised sketch (mergedHeight flips sketch other) last) settled ∧
      ∀ i, workSize settled i = remaining flips sketch other i := by
  have target : Nat.max sketch.numLevels other.numLevels = mergedTop sketch other + 1 :=
    (Nat.sub_add_cancel (formed.positive.trans_le (Nat.le_max_left _ _))).symm
  generalize read : (List.range (mergedTop sketch other + 1)).map
    (fun h => (combined sketch other h).getD []) = work
  have mapped : (List.range (mergedTop sketch other + 1)).mapM (combined sketch other) =
      some work := by
    rw [← read]
    refine mapM_eq_some fun h _ => ?_
    obtain ⟨level, readLevel, _⟩ := combined_spec formed otherFormed h
    rw [readLevel]
    rfl
  have length : work.length = mergedTop sketch other + 1 := by
    rw [← read, List.length_map, List.length_range]
  have sizes : ∀ h ≤ mergedTop sketch other, workSize work h = mergedSize sketch other h := by
    intro h within
    have inside : h < work.length := length ▸ Nat.lt_succ_of_le within
    obtain ⟨level, readLevel, size⟩ := combined_spec formed otherFormed h
    unfold workSize
    rw [List.getD_eq_getElem _ _ inside]
    simp only [← read, List.getElem_map, List.getElem_range, readLevel, Option.getD_some]
    exact size
  have slackSizes : ∀ i, workSize (work ++ [[]]) i = workSize work i := workSize_room work 1
  have slackLength : (work ++ [[]]).length = mergedTop sketch other + 2 := by
    rw [List.length_append, length]
    rfl
  have loads : ∀ h ≤ mergedTop sketch other, climb flips
      (capacityAt sketch.k sketch.m (mergedTop sketch other + 1)) (workSize (work ++ [[]]))
      sketch.co h = mergedLoad flips sketch other h := fun h within =>
    climb_congr flips _ sketch.co h fun i below =>
      (slackSizes i).trans (sizes i (below.trans within))
  obtain ⟨climbed, climbRan, climbLength, climbSizes⟩ :=
    cascade_climb flips sketch slackLength (mergedTop sketch other) le_rfl
  rw [loads _ le_rfl] at climbRan
  have top : workSize climbed (mergedTop sketch other) =
      (mergedLoad flips sketch other (mergedTop sketch other)).1 := by
    rw [climbSizes, if_neg (lt_irrefl _), if_pos rfl, loads _ le_rfl]
  have above : workSize climbed (mergedTop sketch other + 1) = 0 := by
    rw [climbSizes, if_neg (Nat.le_succ _).not_gt, if_neg (Nat.succ_ne_self _), slackSizes]
    unfold workSize
    rw [List.getD_eq_default _ _ length.le]
    rfl
  obtain ⟨settled, last, topRan, topSizes⟩ := cascade_top flips sketch
    (two_le_capacityAt formed 1 0) (mergedLoad flips sketch other (mergedTop sketch other)).1
    (mergedLoad flips sketch other (mergedTop sketch other)).2 top.le climbLength above
  rw [top] at topRan topSizes
  have enough : (mergedGrowth flips sketch other).1 ≤ work.flatten.length := by
    have all : total (mergedSize sketch other) (mergedTop sketch other + 1) =
        work.flatten.length := by
      rw [← total_workSize, length]
      exact total_congr fun h below => (sizes h (Nat.le_of_lt_succ below)).symm
    exact (grow_le flips _ _ _ _).trans ((climb_le flips _ _ _ _).trans_eq all)
  have rounds : mergedTop sketch other + 1 + work.flatten.length + 1 =
      work.flatten.length - (mergedGrowth flips sketch other).1 +
        (mergedGrowth flips sketch other).1 + 2 + mergedTop sketch other := by
    rw [Nat.sub_add_cancel enough]
    omega
  have run : cascade flips (mergedTop sketch other + 1 + work.flatten.length + 1) 0
      (raised sketch (mergedTop sketch other + 1) sketch.co, work ++ [[]]) =
        some (raised sketch (mergedHeight flips sketch other) last, settled) := by
    rw [rounds]
    exact (climbRan _).trans (topRan _)
  refine ⟨settled, last, ?_, fun i => ?_⟩
  · unfold merge
    rw [otherFormed.getElem?_levels (Nat.zero_le _), otherFormed.getElem?_levels otherFormed.height]
    simp only [Option.bind_eq_bind, Option.bind_some, if_neg nonempty.symm, target, mapped]
    refine (congrArg (Option.bind · _) run).trans ?_
    rfl
  · rw [topSizes]
    unfold remaining
    split
    · rename_i lower
      rw [climbSizes, if_pos lower, loads i lower.le]
      rfl
    · rfl

/-- What a merge with a sketch that has items makes of the sketch. -/
structure Merged (sketch other result : KLL Value Coin) : Prop where
  formed : Formed result
  k : result.k = sketch.k
  m : result.m = sketch.m
  height : result.numLevels = mergedHeight flips sketch other
  sizes : ∀ h < result.numLevels, result.sizeAt h = remaining flips sketch other h
  beyond : ∀ h ≤ maxLevels, result.numLevels ≤ h →
    result.levels[h]? = some result.maxCapacity

/-- The merged sketch has no more levels than there are entries, and its items fit the buffer. -/
def Room (sketch other : KLL Value Coin) : Prop :=
  mergedHeight flips sketch other ≤ maxLevels ∧
    total (remaining flips sketch other) (mergedHeight flips sketch other) ≤ sketch.maxCapacity

theorem merge_of_room (formed : Formed sketch) (otherFormed : Formed other)
    (nonempty : other.start 0 ≠ other.start other.numLevels) (room : Room flips sketch other) :
    ∃ result, merge flips sketch other = some result ∧ Merged flips sketch other result := by
  obtain ⟨settled, last, ran, sizes⟩ := merge_eq flips formed otherFormed nonempty
  have totals : ∀ h, total (workSize settled) h = total (remaining flips sketch other) h :=
    fun h => total_congr fun i _ => sizes i
  obtain ⟨items, levels, wrote, buffer, length, starts⟩ := writeBack_of_fits
    (raised sketch (mergedHeight flips sketch other) last) settled
    ((totals _).trans_le room.2) formed.buffer formed.length room.1
  have startsUp : ∀ h ≤ mergedHeight flips sketch other, levels.getD h 0 = sketch.maxCapacity -
      (total (remaining flips sketch other) (mergedHeight flips sketch other) -
        total (remaining flips sketch other) h) := by
    intro h within
    rw [starts h (within.trans room.1), totals, totals]
    rcases Nat.lt_or_eq_of_le within with lower | highest
    · exact if_pos lower
    · refine (if_neg highest.not_lt).trans ?_
      rw [highest, Nat.sub_self]
      rfl
  have steps : ∀ h < mergedHeight flips sketch other,
      levels.getD (h + 1) 0 = levels.getD h 0 + remaining flips sketch other h := by
    intro h lower
    have below := total_mono (remaining flips sketch other) (Nat.succ_le_of_lt lower)
    have fits := room.2
    rw [startsUp h lower.le, startsUp (h + 1) lower]
    rw [total] at below ⊢
    omega
  refine ⟨_, ran.trans wrote, ?_⟩
  refine ⟨⟨length, buffer, Nat.succ_pos _, room.1, fun h lower => ?_, ?_, rfl, rfl, formed.two⟩,
    rfl, rfl, rfl, fun h lower => ?_, fun h within above => ?_⟩
  · exact (Nat.le_add_right _ _).trans_eq (steps h lower).symm
  · exact (starts _ room.1).trans (if_neg (lt_irrefl _))
  · unfold sizeAt
    rw [if_pos lower]
    exact (congrArg (· - _) (steps h lower)).trans (Nat.add_sub_cancel_left _ _)
  · have inside : h < levels.length := length ▸ Nat.lt_succ_of_le within
    show levels[h]? = some sketch.maxCapacity
    rw [List.getElem?_eq_getElem inside, ← List.getD_eq_getElem _ 0 inside, starts h within]
    exact congrArg some (if_neg (not_lt.mpr above))

end Merge

end KLL

end AsapSketchlib
