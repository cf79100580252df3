/-
This file says how the buffer of a KLL sketch is laid out: the starts of its levels rise to the end
of the buffer, and the capacities are those of its height. Every operation keeps this, whatever the
coin shows.
-/

import AsapSketchlib.Kll
import Mathlib.Data.List.GetD

namespace AsapSketchlib

namespace Slice

variable {Value : Type}

/-! ### What is known when a step went through -/

theorem minus_eq_some {left right rest : ℕ} (ran : minus left right = some rest) :
    right ≤ left ∧ rest = left - right := by
  unfold minus at ran
  split at ran
  · rename_i below
    exact ⟨below, (Option.some.inj ran).symm⟩
  · exact (Option.some_ne_none rest ran.symm).elim

theorem write_eq_some {slice written : List Value} {place : ℕ} {value : Value}
    (ran : write slice place value = some written) :
    place < slice.length ∧ written = slice.set place value := by
  unfold write at ran
  split at ran
  · rename_i inside
    exact ⟨inside, (Option.some.inj ran).symm⟩
  · exact (Option.some_ne_none written ran.symm).elim

theorem copyFromSlice_eq_some {slice run copied : List Value} {start : ℕ}
    (ran : copyFromSlice slice start run = some copied) :
    start + run.length ≤ slice.length ∧ copied = copyInto slice start run := by
  unfold copyFromSlice at ran
  split at ran
  · rename_i fits
    exact ⟨fits, (Option.some.inj ran).symm⟩
  · exact (Option.some_ne_none copied ran.symm).elim

theorem length_foldlM_moveUp {source dest : ℕ → ℕ} {places : List ℕ} {slice moved : List Value}
    (ran : places.foldlM (fun slice d => moveUp slice (source d) (dest d)) slice = some moved) :
    moved.length = slice.length := by
  induction places generalizing slice with
  | nil => rw [← Option.some.inj ran]
  | cons d rest hypothesis =>
    rw [List.foldlM_cons, Option.bind_eq_bind, Option.bind_eq_some_iff] at ran
    obtain ⟨next, stepped, later⟩ := ran
    unfold moveUp at stepped
    rw [Option.bind_eq_bind, Option.bind_eq_some_iff] at stepped
    obtain ⟨value, _, written⟩ := stepped
    rw [hypothesis later, (write_eq_some written).2, List.length_set]

theorem randomlyHalveUp_eq_some {slice moved : List Value} {start pop offset count : ℕ}
    (ran : randomlyHalveUp slice start pop offset = some (moved, count)) :
    offset ≤ pop ∧ count = survivors pop offset ∧ moved.length = slice.length := by
  unfold randomlyHalveUp at ran
  simp only [Option.bind_eq_bind, Option.bind_eq_some_iff, Option.some.injEq, Prod.mk.injEq] at ran
  obtain ⟨rest, took, dest, _, moved', folded, rfl, rfl⟩ := ran
  obtain ⟨few, rfl⟩ := minus_eq_some took
  exact ⟨few, rfl, length_foldlM_moveUp folded⟩

theorem survivors_le {pop offset : ℕ} (few : offset ≤ pop) : survivors pop offset ≤ pop := by
  unfold survivors
  omega

end Slice

namespace KLL

open Kll

variable {Value Coin : Type}

/-! ### Starts and sizes -/

/-- `levels[h]`. -/
def start (sketch : KLL Value Coin) (h : ℕ) : ℕ := sketch.levels.getD h 0

/-- The number of items of a level. There are none above the top level. -/
def sizeAt (sketch : KLL Value Coin) (h : ℕ) : ℕ :=
  if h < sketch.numLevels then sketch.start (h + 1) - sketch.start h else 0

def capacityAt (k m height level : ℕ) : ℕ :=
  (cacheOf k m).getD (Nat.min (height - 1 - level) (capacityCacheLen - 1)) 0

/-- The layout that every operation keeps. -/
structure Formed (sketch : KLL Value Coin) : Prop where
  length : sketch.levels.length = maxLevels + 1
  buffer : sketch.items.length = sketch.maxCapacity
  positive : 0 < sketch.numLevels
  height : sketch.numLevels ≤ maxLevels
  rising : ∀ h < sketch.numLevels, sketch.start h ≤ sketch.start (h + 1)
  sentinel : sketch.start sketch.numLevels = sketch.maxCapacity
  cache : sketch.capacityCache = cacheOf sketch.k sketch.m
  top : sketch.topHeight = sketch.numLevels - 1
  two : 2 ≤ sketch.m

theorem length_scales (rounds : ℕ) (scale : F64) : (scales rounds scale).length = rounds := by
  induction rounds generalizing scale with
  | zero => rfl
  | succ rounds hypothesis => exact congrArg (· + 1) (hypothesis _)

theorem le_capacityAt (k m height level : ℕ) : m ≤ capacityAt k m height level := by
  have inside : Nat.min (height - 1 - level) (capacityCacheLen - 1) < (cacheOf k m).length := by
    unfold cacheOf
    rw [List.length_map, length_scales]
    exact (Nat.min_le_right _ _).trans_lt (by decide)
  unfold capacityAt
  rw [List.getD_eq_getElem _ 0 inside]
  simp only [cacheOf, List.getElem_map]
  exact Nat.le_max_right _ m

theorem capacityForLevel_eq {sketch : KLL Value Coin} (positive : 0 < sketch.numLevels)
    (cache : sketch.capacityCache = cacheOf sketch.k sketch.m)
    (top : sketch.topHeight = sketch.numLevels - 1) (level : ℕ) :
    sketch.capacityForLevel level = capacityAt sketch.k sketch.m sketch.numLevels level := by
  unfold capacityForLevel capacityAt
  rw [if_neg positive.ne', cache, top]

namespace Formed

variable {sketch : KLL Value Coin} (formed : Formed sketch)

include formed

theorem getElem?_levels {h : ℕ} (inside : h ≤ maxLevels) :
    sketch.levels[h]? = some (sketch.start h) := by
  have within : h < sketch.levels.length := by
    rw [formed.length]
    exact Nat.lt_succ_of_le inside
  rw [List.getElem?_eq_getElem within]
  exact congrArg some (List.getD_eq_getElem _ 0 within).symm

theorem start_mono {first last : ℕ} (ordered : first ≤ last) (inside : last ≤ sketch.numLevels) :
    sketch.start first ≤ sketch.start last := by
  induction last, ordered using Nat.le_induction with
  | base => exact le_rfl
  | succ last _ hypothesis =>
    exact (hypothesis (Nat.le_of_succ_le inside)).trans (formed.rising last inside)

theorem start_le {h : ℕ} (inside : h ≤ sketch.numLevels) :
    sketch.start h ≤ sketch.maxCapacity :=
  (formed.start_mono inside le_rfl).trans_eq formed.sentinel

theorem levelSize_eq {h : ℕ} (inside : h < sketch.numLevels) :
    sketch.levelSize h = some (sketch.sizeAt h) := by
  unfold levelSize sizeAt
  rw [formed.getElem?_levels (inside.le.trans formed.height),
    formed.getElem?_levels (Nat.succ_le_of_lt (inside.trans_le formed.height)), if_pos inside]
  exact minus_of_le (formed.rising h inside)

theorem levelItems_spec {h : ℕ} (inside : h < sketch.numLevels) :
    ∃ items, sketch.levelItems h = some items ∧ items.length = sketch.sizeAt h := by
  have read := Slice.between_eq (formed.rising h inside)
    ((formed.start_le (Nat.succ_le_of_lt inside)).trans_eq formed.buffer.symm)
  have items : sketch.levelItems h =
      Slice.between sketch.items (sketch.start h) (sketch.start (h + 1)) := by
    unfold levelItems
    rw [formed.getElem?_levels (inside.le.trans formed.height),
      formed.getElem?_levels (Nat.succ_le_of_lt (inside.trans_le formed.height))]
    rfl
  refine ⟨_, items.trans read, ?_⟩
  rw [Slice.length_between read, sizeAt, if_pos inside]

end Formed

/-! ### Operations keep the layout -/

theorem getD_set {Entry : Type} {entries : List Entry} {place : ℕ}
    (inside : place < entries.length) (value : Entry) (h : ℕ) {none : Entry} :
    (entries.set place value).getD h none = if h = place then value else entries.getD h none := by
  rw [List.getD_eq_getElem?_getD, List.getD_eq_getElem?_getD, List.getElem?_set]
  by_cases here : h = place
  · rw [if_pos here, if_pos here.symm, if_pos inside]
    rfl
  · rw [if_neg here, if_neg (Ne.symm here)]

theorem formed_initInternal [Inhabited Value] (k m : ℕ) (coin : Coin)
    (seed : Option (BitVec 64)) : Formed (initInternal k m coin seed : KLL Value Coin) := by
  generalize made : (initInternal k m coin seed : KLL Value Coin) = sketch
  have start : ∀ h, sketch.start h = if h = 1 then sketch.maxCapacity
      else if h = 0 then sketch.maxCapacity else 0 := by
    intro h
    subst made
    show List.getD (((List.replicate (maxLevels + 1) 0).set 0 _).set 1 _) h 0 = _
    have zero : (List.replicate (maxLevels + 1) 0).getD h 0 = 0 := by
      rw [List.getD_eq_getElem?_getD, List.getElem?_replicate]
      split <;> rfl
    rw [getD_set (by rw [List.length_set, List.length_replicate]; decide),
      getD_set (by rw [List.length_replicate]; decide), zero]
    rfl
  have one : sketch.numLevels = 1 := by
    subst made
    rfl
  refine ⟨?_, ?_, by rw [one]; decide, by rw [one]; decide, fun h below => ?_, ?_, ?_, ?_, ?_⟩
  · subst made
    show (((List.replicate (maxLevels + 1) 0).set 0 _).set 1 _).length = maxLevels + 1
    rw [List.length_set, List.length_set, List.length_replicate]
  · subst made
    exact List.length_replicate
  · obtain rfl : h = 0 := Nat.lt_one_iff.mp (one ▸ below)
    rw [start, start]
    exact le_rfl
  · rw [one, start]
    rfl
  · subst made
    rfl
  · subst made
    rfl
  · subst made
    exact Nat.le_max_right _ 2

theorem formed_addNewTopLevel {sketch grown : KLL Value Coin} (formed : Formed sketch)
    (ran : sketch.addNewTopLevel = some grown) :
    Formed grown ∧ grown.numLevels = sketch.numLevels + 1 := by
  simp only [addNewTopLevel, Option.bind_eq_bind, Option.bind_eq_some_iff, Option.some.injEq]
    at ran
  obtain ⟨sentinel, read, levels, wrote, rfl⟩ := ran
  rw [formed.getElem?_levels formed.height, formed.sentinel] at read
  obtain rfl : sketch.maxCapacity = sentinel := Option.some.inj read
  obtain ⟨inside, rfl⟩ := Slice.write_eq_some wrote
  have start := getD_set inside sketch.maxCapacity
  have below : ∀ h ≤ sketch.numLevels,
      (sketch.levels.set (sketch.numLevels + 1) sketch.maxCapacity).getD h 0 = sketch.start h := by
    intro h within
    rw [start, if_neg (Nat.lt_succ_of_le within).ne]
    rfl
  have last : (sketch.levels.set (sketch.numLevels + 1) sketch.maxCapacity).getD
      (sketch.numLevels + 1) 0 = sketch.maxCapacity := (start _).trans (if_pos rfl)
  refine ⟨⟨?_, formed.buffer, Nat.succ_pos _, ?_, fun h within => ?_, last, formed.cache, rfl,
    formed.two⟩, rfl⟩
  · exact List.length_set.trans formed.length
  · rw [formed.length] at inside
    exact Nat.lt_succ_iff.mp inside
  · show (sketch.levels.set _ _).getD h 0 ≤ (sketch.levels.set _ _).getD (h + 1) 0
    rcases Nat.lt_succ_iff_lt_or_eq.mp within with lower | rfl
    · rw [below h lower.le, below (h + 1) lower]
      exact formed.rising h lower
    · rw [below _ le_rfl, last]
      exact formed.sentinel.le

/-- The starts below the compacted level move up by the freed places, and no other start moves. -/
theorem shiftBelow_eq_some {items moved : List Value} {levels shifted : List ℕ}
    {h start delta : ℕ} (ran : shiftBelow items levels h start delta = some (moved, shifted)) :
    moved.length = items.length ∧ shifted.length = levels.length ∧
      ∀ place < levels.length, shifted.getD place 0 =
        levels.getD place 0 + if place < h then delta else 0 := by
  unfold shiftBelow at ran
  split at ran
  · simp only [Option.bind_eq_bind, Option.bind_eq_some_iff, Option.some.injEq,
      Prod.mk.injEq] at ran
    obtain ⟨low, _, copied, copy, rfl, rfl⟩ := ran
    refine ⟨?_, List.length_mapIdx, fun place within => ?_⟩
    · split at copy
      · rw [copyWithin, Option.bind_eq_bind, Option.bind_eq_some_iff] at copy
        obtain ⟨lower, _, copied⟩ := copy
        rw [(Slice.copyFromSlice_eq_some copied).2, Slice.length_copyInto]
      · rw [Option.some.inj copy]
    · rw [List.getD_eq_getElem _ 0 within, List.getD_eq_getElem _ 0
        (within.trans_eq List.length_mapIdx.symm), List.getElem_mapIdx]
      split
      · rfl
      · rfl
  · rename_i none
    obtain ⟨rfl, rfl⟩ := Prod.mk.inj (Option.some.inj ran)
    refine ⟨rfl, rfl, fun place within => ?_⟩
    split
    · rename_i below
      have still : delta = 0 := by
        by_contra moves
        exact none ⟨Nat.pos_of_ne_zero moves, Nat.zero_lt_of_lt below⟩
      rw [still, Nat.add_zero]
    · rfl

section Updates

variable [LinearOrder Value] {flips : CoinFlips Coin}

theorem halveLevel_eq_some {items halved : List Value} {h start stop offset numSurvivors : ℕ}
    (ran : halveLevel items h start stop offset = some (halved, numSurvivors)) :
    numSurvivors ≤ stop - start ∧ numSurvivors = Slice.survivors (stop - start) offset ∧
      halved.length = items.length := by
  simp only [halveLevel, Option.bind_eq_bind, Option.bind_eq_some_iff] at ran
  obtain ⟨pop, took, run, _, halve⟩ := ran
  obtain ⟨_, rfl⟩ := Slice.minus_eq_some took
  obtain ⟨few, rfl, length⟩ := Slice.randomlyHalveUp_eq_some halve
  refine ⟨Slice.survivors_le few, rfl, length.trans ?_⟩
  split
  · exact Slice.length_copyInto _ _ _
  · rfl

theorem mergeAbove_eq_some {items merged : List Value} {survStart stop above numSurvivors : ℕ}
    (ran : mergeAbove items survStart stop above numSurvivors = some merged) :
    merged.length = items.length := by
  simp only [mergeAbove, Option.bind_eq_bind, Option.bind_eq_some_iff] at ran
  obtain ⟨popAbove, _, rest⟩ := ran
  split at rest
  · rw [Option.bind_eq_some_iff] at rest
    obtain ⟨runs, _, same⟩ := rest
    rw [← Option.some.inj same]
    exact Slice.length_copyInto _ _ _
  · rw [Option.some.inj rest]

/-- A compaction moves the starts of the levels below and of the two levels it touches. -/
theorem formed_compact {sketch compacted : KLL Value Coin} (formed : Formed sketch) {h : ℕ}
    (inside : h + 1 < sketch.numLevels) (ran : compact flips sketch h = some compacted) :
    Formed compacted ∧ compacted.numLevels = sketch.numLevels := by
  simp only [compact, Option.bind_eq_bind, Option.bind_eq_some_iff, Option.some.injEq] at ran
  obtain ⟨start, read, stop, readNext, pop, took, ⟨halved, numSurvivors⟩, halve, survStart, placed,
    above, readAbove, merged, merge, delta, freed, ⟨items, levels⟩, shift, rfl⟩ := ran
  obtain ⟨fewer, _, lengthHalved⟩ := halveLevel_eq_some halve
  obtain ⟨lengthMoved, lengthShifted, starts⟩ := shiftBelow_eq_some shift
  have within : h + 1 ≤ maxLevels := inside.le.trans formed.height
  rw [formed.getElem?_levels (Nat.le_of_succ_le within)] at read
  rw [formed.getElem?_levels within] at readNext
  obtain rfl := Option.some.inj read
  obtain rfl := Option.some.inj readNext
  obtain ⟨ordered, rfl⟩ := Slice.minus_eq_some took
  obtain ⟨_, rfl⟩ := Slice.minus_eq_some placed
  obtain ⟨_, rfl⟩ := Slice.minus_eq_some freed
  simp only at lengthMoved lengthHalved starts fewer ⊢
  have next := formed.rising (h + 1) inside
  generalize moved : sketch.start h + (sketch.start (h + 1) - sketch.start h) - numSurvivors =
    survStart at starts ⊢
  have survLow : sketch.start h ≤ survStart := by omega
  have survHigh : survStart ≤ sketch.start (h + 1) := by omega
  have placeOf : ∀ place ≤ sketch.numLevels,
      ((levels.set h survStart).set (h + 1) survStart).getD place 0 =
        if place < h then sketch.start place + (survStart - sketch.start h)
        else if place ≤ h + 1 then survStart else sketch.start place := by
    intro place few
    have entries : maxLevels + 1 = levels.length := formed.length.symm.trans lengthShifted.symm
    have outer : h + 1 < (levels.set h survStart).length := by
      rw [List.length_set, ← entries]
      exact Nat.lt_succ_of_le within
    have inner : h < levels.length := (Nat.lt_succ_self h).trans (outer.trans_eq List.length_set)
    have entry : place < sketch.levels.length := by
      rw [formed.length]
      exact Nat.lt_succ_of_le (few.trans formed.height)
    rw [getD_set outer, getD_set inner, starts place entry]
    by_cases below : place < h
    · rw [if_neg (below.trans (Nat.lt_succ_self h)).ne, if_neg below.ne, if_pos below, if_pos below]
      rfl
    · by_cases upper : place = h + 1
      · rw [if_pos upper, if_neg below, if_pos upper.le]
      · by_cases same : place = h
        · rw [if_neg upper, if_pos same, if_neg below, if_pos (same.le.trans (Nat.le_succ h))]
        · rw [if_neg upper, if_neg same, if_neg below, if_neg below, if_neg (by omega)]
          rfl
  refine ⟨⟨?_, ?_, formed.positive, formed.height, fun place lower => ?_, ?_, formed.cache,
    formed.top, formed.two⟩, trivial⟩
  · rw [List.length_set, List.length_set]
    exact lengthShifted.trans formed.length
  · exact lengthMoved.trans ((mergeAbove_eq_some merge).trans (lengthHalved.trans formed.buffer))
  · show List.getD _ place 0 ≤ List.getD _ (place + 1) 0
    rw [placeOf place lower.le, placeOf (place + 1) lower]
    rcases Nat.lt_trichotomy (place + 1) h with below | rfl | above
    · rw [if_pos (Nat.lt_of_succ_lt below), if_pos below]
      exact Nat.add_le_add_right (formed.rising place lower) _
    · rw [if_pos (Nat.lt_succ_self place), if_neg (lt_irrefl _), if_pos (Nat.le_succ _)]
      have step := formed.rising place lower
      omega
    · have notBelow : ¬place < h := not_lt.mpr (Nat.le_of_lt_succ above)
      rw [if_neg notBelow, if_neg (not_lt.mpr above.le)]
      rcases Nat.lt_trichotomy place (h + 1) with same | rfl | beyond
      · rw [if_pos same.le, if_pos (Nat.succ_le_of_lt same)]
      · rw [if_pos le_rfl, if_neg (Nat.not_succ_le_self _)]
        exact survHigh.trans next
      · rw [if_neg (not_le.mpr beyond), if_neg (not_le.mpr (beyond.trans (Nat.lt_succ_self place)))]
        exact formed.rising place lower
  · show List.getD _ sketch.numLevels 0 = sketch.maxCapacity
    rw [placeOf _ le_rfl, if_neg (Nat.lt_asymm (Nat.lt_of_succ_lt inside)), if_neg (not_le.mpr inside)]
    exact formed.sentinel

theorem formed_compressFrom (rounds h : ℕ) {sketch compressed : KLL Value Coin}
    (formed : Formed sketch) (inside : h < sketch.numLevels)
    (ran : compressFrom flips rounds h sketch = some compressed) : Formed compressed := by
  induction rounds generalizing h sketch with
  | zero => exact (Option.some_ne_none compressed ran.symm).elim
  | succ rounds hypothesis =>
    simp only [compressFrom, Option.bind_eq_bind, Option.bind_eq_some_iff] at ran
    obtain ⟨pop, _, ran⟩ := ran
    split at ran
    · rw [← Option.some.inj ran]
      exact formed
    · rw [Option.bind_eq_some_iff] at ran
      obtain ⟨grown, grow, ran⟩ := ran
      rw [Option.bind_eq_some_iff] at ran
      obtain ⟨compacted, compactRan, later⟩ := ran
      have grownFormed : Formed grown ∧ h + 1 < grown.numLevels := by
        split at grow
        · rename_i last
          obtain ⟨kept, height⟩ := formed_addNewTopLevel formed grow
          exact ⟨kept, by rw [height, last]; exact Nat.lt_succ_self _⟩
        · rename_i notLast
          rw [← Option.some.inj grow]
          exact ⟨formed, lt_of_le_of_ne (Nat.succ_le_of_lt inside) notLast⟩
      obtain ⟨kept, height⟩ := formed_compact grownFormed.1 grownFormed.2 compactRan
      exact hypothesis (h + 1) kept (grownFormed.2.trans_eq height.symm) later

theorem formed_compressWhileUpdating {sketch compressed : KLL Value Coin} (formed : Formed sketch)
    (ran : compressWhileUpdating flips sketch = some compressed) : Formed compressed :=
  formed_compressFrom _ 0 formed formed.positive ran

theorem formed_pushValue {sketch pushed : KLL Value Coin} (formed : Formed sketch) {value : Value}
    (ran : pushValue flips sketch value = some pushed) : Formed pushed := by
  simp only [pushValue, Option.bind_eq_bind, Option.bind_eq_some_iff] at ran
  obtain ⟨first, _, room, make, free, read, place, took, items, wrote, size, _, last⟩ := ran
  have formedRoom : Formed room := by
    split at make
    · exact formed_compressWhileUpdating formed make
    · rw [← Option.some.inj make]
      exact formed
  rw [formedRoom.getElem?_levels (Nat.zero_le _)] at read
  obtain rfl := Option.some.inj read
  obtain ⟨free, rfl⟩ := Slice.minus_eq_some took
  obtain ⟨_, rfl⟩ := Slice.write_eq_some wrote
  have written : Formed { room with
      levels := room.levels.set 0 (room.start 0 - 1)
      items := room.items.set (room.start 0 - 1) value } := by
    have nonempty : 0 < room.levels.length := formedRoom.length ▸ Nat.succ_pos maxLevels
    have start := getD_set nonempty (room.start 0 - 1)
    refine ⟨List.length_set.trans formedRoom.length, List.length_set.trans formedRoom.buffer,
      formedRoom.positive, formedRoom.height, fun h inside => ?_, ?_, formedRoom.cache,
      formedRoom.top, formedRoom.two⟩
    · show (room.levels.set 0 _).getD h 0 ≤ (room.levels.set 0 _).getD (h + 1) 0
      have step := formedRoom.rising h inside
      rw [start, start, if_neg (Nat.succ_ne_zero h)]
      split
      · rename_i bottom
        subst bottom
        exact (Nat.sub_le _ _).trans step
      · exact step
    · show (room.levels.set 0 _).getD room.numLevels 0 = room.maxCapacity
      rw [start, if_neg formedRoom.positive.ne']
      exact formedRoom.sentinel
  split at last
  · exact formed_compressWhileUpdating written last
  · rw [← Option.some.inj last]
    exact written

end Updates

theorem formed_clear {sketch : KLL Value Coin} (flips : CoinFlips Coin) (clock : Coin)
    (formed : Formed sketch) : Formed (clear flips clock sketch) := by
  have outer : 1 < (sketch.levels.set 0 sketch.maxCapacity).length := by
    rw [List.length_set, formed.length]
    decide
  have start : ∀ h ≤ 1, (clear flips clock sketch).start h = sketch.maxCapacity := by
    intro h few
    show ((sketch.levels.set 0 _).set 1 _).getD h 0 = sketch.maxCapacity
    rw [getD_set outer, getD_set (formed.length ▸ Nat.succ_pos maxLevels)]
    split
    · rfl
    · rename_i notOne
      exact if_pos (Nat.lt_one_iff.mp (lt_of_le_of_ne few notOne))
  refine ⟨?_, formed.buffer, Nat.one_pos, Nat.le_add_left 1 60, fun h inside => ?_, start 1 le_rfl,
    rfl, rfl,
    formed.two⟩
  · exact List.length_set.trans (List.length_set.trans formed.length)
  · obtain rfl : h = 0 := Nat.lt_one_iff.mp inside
    rw [start 0 (Nat.zero_le 1), start 1 le_rfl]

end KLL

end AsapSketchlib
