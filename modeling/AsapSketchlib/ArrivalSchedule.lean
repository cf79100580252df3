/-
This file develops schedules of arrivals in a sequence of slots: an arrival carries a mark and
is followed by some slots that are passed over before the next one. Reading the slots window by
window, where the slots still to pass over are handed from each window to the next, reports the
arrivals of one window that is as long as all of them together.
-/

import Mathlib.Data.List.Basic
import Mathlib.Data.Nat.Find
import Mathlib.Order.WellFounded

namespace AsapSketchlib

namespace Schedule

variable {State Mark : Type} (draw : State → Mark × ℕ × State)

/-! ### Arrivals -/

def after (state : State) : ℕ → State
  | 0 => state
  | count + 1 => (draw (after state count)).2.2

def mark (state : State) (index : ℕ) : Mark := (draw (after draw state index)).1

def gap (state : State) (index : ℕ) : ℕ := (draw (after draw state index)).2.1

/-- The slot of an arrival, where the first one comes after `skip` slots. -/
def slot (skip : ℕ) (state : State) : ℕ → ℕ
  | 0 => skip
  | index + 1 => slot skip state index + 1 + gap draw state index

def arrival (skip : ℕ) (state : State) (index : ℕ) : ℕ × Mark :=
  (slot draw skip state index, mark draw state index)

theorem slot_strictMono (skip : ℕ) (state : State) : StrictMono (slot draw skip state) :=
  strictMono_nat_of_lt_succ fun index => by
    rw [slot, Nat.add_assoc]
    exact Nat.lt_add_of_pos_right (Nat.add_pos_left Nat.one_pos _)

theorem le_slot (skip : ℕ) (state : State) (index : ℕ) : index ≤ slot draw skip state index :=
  (slot_strictMono draw skip state).le_apply

/-! ### Restarting -/

theorem after_after (state : State) (first second : ℕ) :
    after draw (after draw state first) second = after draw state (first + second) := by
  induction second with
  | zero => rfl
  | succ count hypothesis => rw [after, hypothesis, ← Nat.add_assoc, after]

theorem mark_after (state : State) (first index : ℕ) :
    mark draw (after draw state first) index = mark draw state (first + index) := by
  rw [mark, mark, after_after]

theorem gap_after (state : State) (first index : ℕ) :
    gap draw (after draw state first) index = gap draw state (first + index) := by
  rw [gap, gap, after_after]

/-- A schedule restarted at an arrival at or behind the end of a window has its arrivals as
many slots earlier as the window is long. -/
theorem slot_restarted (skip : ℕ) (state : State) {window first : ℕ}
    (passed : window ≤ slot draw skip state first) (index : ℕ) :
    slot draw (slot draw skip state first - window) (after draw state first) index + window =
      slot draw skip state (first + index) := by
  induction index with
  | zero => exact Nat.sub_add_cancel passed
  | succ index hypothesis =>
    rw [slot, gap_after, ← Nat.add_assoc, slot, ← hypothesis]
    exact Nat.add_right_comm _ _ _ |>.trans (congrArg (· + _) (Nat.add_right_comm _ _ _))

/-! ### Windows -/

def arrivals (skip : ℕ) (state : State) (window : ℕ) : ℕ :=
  Nat.find (p := fun index => window ≤ slot draw skip state index)
    ⟨window, le_slot draw skip state window⟩

theorem window_le_slot (skip : ℕ) (state : State) (window : ℕ) :
    window ≤ slot draw skip state (arrivals draw skip state window) :=
  Nat.find_spec (p := fun index => window ≤ slot draw skip state index) _

theorem slot_lt_iff (skip : ℕ) (state : State) (window index : ℕ) :
    slot draw skip state index < window ↔ index < arrivals draw skip state window := by
  constructor
  · intro inside
    by_contra behind
    have later := (slot_strictMono draw skip state).monotone (Nat.le_of_not_lt behind)
    exact absurd ((window_le_slot draw skip state window).trans later) (Nat.not_le_of_lt inside)
  · intro early
    have waiting := Nat.find_min (p := fun index => window ≤ slot draw skip state index) _ early
    exact Nat.lt_of_not_le waiting

theorem arrivals_eq {skip : ℕ} {state : State} {window count : ℕ}
    (inside : ∀ index < count, slot draw skip state index < window)
    (passed : window ≤ slot draw skip state count) :
    arrivals draw skip state window = count := by
  refine Nat.le_antisymm (Nat.find_le passed) (Nat.le_of_not_lt fun early => ?_)
  exact absurd (window_le_slot draw skip state window) (Nat.not_le_of_lt (inside _ early))

theorem arrivals_le (skip : ℕ) (state : State) (window : ℕ) :
    arrivals draw skip state window ≤ window :=
  Nat.find_le (le_slot draw skip state window)

/-- What the schedule does within a window: its arrivals there, the slots still to pass over
behind it, and the state of the source. -/
def within (skip : ℕ) (state : State) (window : ℕ) : List (ℕ × Mark) × ℕ × State :=
  let count := arrivals draw skip state window
  ((List.range count).map (arrival draw skip state), slot draw skip state count - window,
    after draw state count)

def shiftBy (window : ℕ) (reported : List (ℕ × Mark)) : List (ℕ × Mark) :=
  reported.map fun arrival => (arrival.1 + window, arrival.2)

variable (skip : ℕ) (state : State)

theorem within_zero : within draw skip state 0 = ([], skip, state) := by
  have nothing : arrivals draw skip state 0 = 0 := Nat.le_zero.mp (arrivals_le draw skip state 0)
  simp only [within, nothing]
  rfl

theorem arrivals_add (first second : ℕ) :
    arrivals draw skip state (first + second) =
      arrivals draw skip state first +
        arrivals draw (slot draw skip state (arrivals draw skip state first) - first)
          (after draw state (arrivals draw skip state first)) second := by
  have passed := window_le_slot draw skip state first
  refine arrivals_eq draw (fun index inside => ?_) ?_
  · by_cases early : index < arrivals draw skip state first
    · exact Nat.lt_of_lt_of_le ((slot_lt_iff draw skip state first index).mpr early)
        (Nat.le_add_right _ _)
    · obtain ⟨later, rfl⟩ := Nat.exists_eq_add_of_le (Nat.le_of_not_lt early)
      rw [← slot_restarted draw skip state passed, Nat.add_comm first]
      exact Nat.add_lt_add_right
        ((slot_lt_iff draw _ _ second later).mpr (Nat.lt_of_add_lt_add_left inside)) first
  · rw [← slot_restarted draw skip state passed, Nat.add_comm first]
    exact Nat.add_le_add_right (window_le_slot draw _ _ second) first

theorem within_add (first second : ℕ) :
    within draw skip state (first + second) =
      let before := within draw skip state first
      let behind := within draw before.2.1 before.2.2 second
      (before.1 ++ shiftBy first behind.1, behind.2) := by
  have passed := window_le_slot draw skip state first
  have restarted := slot_restarted draw skip state passed
  simp only [within, shiftBy, arrivals_add, List.range_add, List.map_append, List.map_map,
    after_after]
  refine congrArg₂ Prod.mk (congrArg _ (List.map_congr_left fun index _ => ?_))
    (congrArg (·, _) ?_)
  · simp only [Function.comp_apply, arrival, restarted, mark_after]
  · rw [← restarted, Nat.add_comm first, Nat.add_sub_add_right]

end Schedule

end AsapSketchlib
