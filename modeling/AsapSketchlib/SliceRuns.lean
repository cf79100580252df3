/-
This file models the two routines of the quantile sketches that work inside a slice: one halves a
run and keeps the survivors at its end, the other merges two neighbouring runs.
-/

import Mathlib.Data.List.Basic
import Mathlib.Order.Lattice

namespace AsapSketchlib

/-! ### Slices -/

/-- A subtraction that panics below zero. -/
def minus (left right : ℕ) : Option ℕ := if right ≤ left then some (left - right) else none

theorem minus_of_le {left right : ℕ} (below : right ≤ left) :
    minus left right = some (left - right) := if_pos below

namespace Slice

variable {Value : Type}

/-- `&slice[start..stop]`. -/
def between (slice : List Value) (start stop : ℕ) : Option (List Value) :=
  if start ≤ stop ∧ stop ≤ slice.length then some ((slice.take stop).drop start) else none

/-- `slice[place] = value`. -/
def write (slice : List Value) (place : ℕ) (value : Value) : Option (List Value) :=
  if place < slice.length then some (slice.set place value) else none

/-- `slice[start..start + run.len()].copy_from_slice(run)`, for a run that fits. -/
def copyInto (slice : List Value) (start : ℕ) (run : List Value) : List Value :=
  slice.mapIdx fun place old => if place < start then old else (run[place - start]?).getD old

/-- `copy_from_slice`, which panics if the run does not fit. -/
def copyFromSlice (slice : List Value) (start : ℕ) (run : List Value) : Option (List Value) :=
  if start + run.length ≤ slice.length then some (copyInto slice start run) else none

@[simp] theorem length_copyInto (slice : List Value) (start : ℕ) (run : List Value) :
    (copyInto slice start run).length = slice.length := List.length_mapIdx

theorem between_eq {slice : List Value} {start stop : ℕ} (ordered : start ≤ stop)
    (inside : stop ≤ slice.length) :
    between slice start stop = some ((slice.take stop).drop start) := if_pos ⟨ordered, inside⟩

theorem length_between {slice part : List Value} {start stop : ℕ}
    (read : between slice start stop = some part) : part.length = stop - start := by
  unfold between at read
  split at read
  · rename_i inside
    rw [← Option.some.inj read, List.length_drop, List.length_take, Nat.min_eq_left inside.2]
  · exact (Option.some_ne_none part read.symm).elim

theorem write_eq {slice : List Value} {place : ℕ} (inside : place < slice.length)
    (value : Value) : write slice place value = some (slice.set place value) := if_pos inside

theorem copyFromSlice_eq {slice run : List Value} {start : ℕ}
    (fits : start + run.length ≤ slice.length) :
    copyFromSlice slice start run = some (copyInto slice start run) := if_pos fits

/-! ### Halving a run -/

def moveUp (slice : List Value) (source dest : ℕ) : Option (List Value) := do
  let value ← slice[source]?
  write slice dest value

/-- `randomly_halve_up`: the survivors of a run are moved to its end, the last one first. -/
def randomlyHalveUp (slice : List Value) (start pop offset : ℕ) : Option (List Value × ℕ) := do
  let rest ← minus pop offset
  let numSurvivors := (rest + 1) / 2
  let dest ← minus (start + pop) numSurvivors
  let moved ← (List.range numSurvivors).reverse.foldlM
    (fun slice d => moveUp slice (start + offset + 2 * d) (dest + d)) slice
  some (moved, numSurvivors)

def survivors (pop offset : ℕ) : ℕ := (pop - offset + 1) / 2

theorem foldlM_moveUp (start offset dest : ℕ) (places : List ℕ) (slice : List Value)
    (sources : ∀ d ∈ places, start + offset + 2 * d < slice.length)
    (dests : ∀ d ∈ places, dest + d < slice.length) :
    ∃ moved, places.foldlM (fun slice d => moveUp slice (start + offset + 2 * d) (dest + d))
      slice = some moved ∧ moved.length = slice.length := by
  induction places generalizing slice with
  | nil => exact ⟨slice, rfl, rfl⟩
  | cons d rest hypothesis =>
    obtain ⟨value, read⟩ : ∃ value, slice[start + offset + 2 * d]? = some value :=
      ⟨_, List.getElem?_eq_getElem (sources d List.mem_cons_self)⟩
    have step : moveUp slice (start + offset + 2 * d) (dest + d) =
        some (slice.set (dest + d) value) := by
      unfold moveUp
      rw [read]
      exact write_eq (dests d List.mem_cons_self) value
    obtain ⟨moved, ran, length⟩ := hypothesis (slice.set (dest + d) value)
      (fun place member => by
        rw [List.length_set]
        exact sources place (List.mem_cons_of_mem d member))
      (fun place member => by
        rw [List.length_set]
        exact dests place (List.mem_cons_of_mem d member))
    refine ⟨moved, ?_, length.trans List.length_set⟩
    rw [List.foldlM_cons, step]
    exact ran

theorem randomlyHalveUp_spec {slice : List Value} {start pop offset : ℕ} (few : offset ≤ pop)
    (inside : start + pop ≤ slice.length) :
    ∃ moved, randomlyHalveUp slice start pop offset = some (moved, survivors pop offset) ∧
      moved.length = slice.length := by
  have fewer : survivors pop offset ≤ start + pop := by
    unfold survivors
    omega
  obtain ⟨moved, ran, length⟩ := foldlM_moveUp start offset
    (start + pop - survivors pop offset) (List.range (survivors pop offset)).reverse slice
    (fun d member => by
      rw [List.mem_reverse, List.mem_range, survivors] at member
      omega)
    (fun d member => by
      rw [List.mem_reverse, List.mem_range] at member
      omega)
  refine ⟨moved, ?_, length⟩
  unfold randomlyHalveUp
  simp only [minus_of_le few, Option.bind_eq_bind, Option.bind_some]
  rw [show (pop - offset + 1) / 2 = survivors pop offset from rfl, minus_of_le fewer]
  simp only [Option.bind_some, ran]

/-! ### Merging two runs -/

variable [LinearOrder Value]

/-- The loop that merges forwards: `buf` holds the first run. -/
def mergeForward (buf : List Value) : ℕ → List Value → ℕ → ℕ → ℕ → List Value
  | 0, slice, i, _, k => copyInto slice k (buf.drop i)
  | rounds + 1, slice, i, j, k =>
    match buf[i]?, slice[j]? with
    | some left, some right =>
      if left ≤ right then mergeForward buf rounds (slice.set k left) (i + 1) j (k + 1)
      else mergeForward buf rounds (slice.set k right) i (j + 1) (k + 1)
    | _, _ => copyInto slice k (buf.drop i)

/-- The loop that merges backwards: `buf` holds the second run. -/
def mergeBackward (buf : List Value) : ℕ → List Value → ℕ → ℕ → ℕ → List Value
  | 0, slice, _, j, _ => copyInto slice 0 (buf.take j)
  | rounds + 1, slice, i, j, k =>
    if 0 < i ∧ 0 < j then
      match buf[j - 1]?, slice[i - 1]? with
      | some right, some left =>
        if left ≤ right then mergeBackward buf rounds (slice.set (k - 1) right) i (j - 1) (k - 1)
        else mergeBackward buf rounds (slice.set (k - 1) left) (i - 1) j (k - 1)
      | _, _ => slice
    else copyInto slice 0 (buf.take j)

/-- `merge_sorted_runs`: the shorter run goes into the scratch buffer. -/
def mergeSortedRuns (slice : List Value) (leftLen : ℕ) : List Value :=
  let total := slice.length
  if leftLen = 0 ∨ total ≤ leftLen then slice
  else
    match slice[leftLen - 1]?, slice[leftLen]? with
    | some last, some first =>
      if last ≤ first then slice
      else if leftLen ≤ total - leftLen then
        mergeForward (slice.take leftLen) total slice 0 leftLen 0
      else mergeBackward (slice.drop leftLen) total slice leftLen (total - leftLen) total
    | _, _ => slice

section

variable (buf : List Value) (rounds : ℕ) (slice : List Value) (i j k : ℕ)

theorem length_mergeForward : (mergeForward buf rounds slice i j k).length = slice.length := by
  induction rounds generalizing slice i j k with
  | zero => exact length_copyInto slice k _
  | succ rounds hypothesis =>
    rw [mergeForward]
    split
    · split
      · rw [hypothesis, List.length_set]
      · rw [hypothesis, List.length_set]
    · exact length_copyInto slice k _

theorem length_mergeBackward : (mergeBackward buf rounds slice i j k).length = slice.length := by
  induction rounds generalizing slice i j k with
  | zero => exact length_copyInto slice 0 _
  | succ rounds hypothesis =>
    rw [mergeBackward]
    split
    · split
      · split
        · rw [hypothesis, List.length_set]
        · rw [hypothesis, List.length_set]
      · rfl
    · exact length_copyInto slice 0 _

end

@[simp] theorem length_mergeSortedRuns (slice : List Value) (leftLen : ℕ) :
    (mergeSortedRuns slice leftLen).length = slice.length := by
  simp only [mergeSortedRuns]
  split
  · rfl
  · split
    · split
      · rfl
      · split
        · exact length_mergeForward _ _ _ _ _ _
        · exact length_mergeBackward _ _ _ _ _ _
    · rfl

end Slice

end AsapSketchlib
