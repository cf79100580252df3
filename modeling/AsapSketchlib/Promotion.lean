/-
This file develops counting through promotion: workers hold counters back and send them, one
at a time, along a queue each to a parent that adds up what arrives.

What the parent holds, what is queued and what the workers hold back always add up to what was
contributed.
-/

import Mathlib.Algebra.BigOperators.Group.Finset.Basic

namespace AsapSketchlib

namespace Promotion

variable {Worker Cell Value : Type} [DecidableEq Cell] [AddCommMonoid Value]

/-! ### Ledgers -/

/-- The counters of the parent, the promoted amounts under way and the counters held back. -/
structure Ledger (Worker Cell Value : Type) where
  parent : Cell → Value
  queue : Worker → List (Cell × Value)
  residual : Worker → Cell → Value

def promotedAt : List (Cell × Value) → Cell → Value
  | [], _ => 0
  | (target, amount) :: rest, cell =>
    (if target = cell then amount else 0) + promotedAt rest cell

@[simp] theorem promotedAt_append (first second : List (Cell × Value)) (cell : Cell) :
    promotedAt (first ++ second) cell = promotedAt first cell + promotedAt second cell := by
  induction first with
  | nil => exact (zero_add _).symm
  | cons head rest hypothesis =>
    rw [List.cons_append, promotedAt, promotedAt, hypothesis, add_assoc]

theorem promotedAt_perm {first second : List (Cell × Value)} (permuted : first.Perm second)
    (cell : Cell) : promotedAt first cell = promotedAt second cell := by
  induction permuted with
  | nil => rfl
  | cons head _ hypothesis => rw [promotedAt, promotedAt, hypothesis]
  | swap first second rest => exact add_left_comm _ _ _
  | trans _ _ early late => exact early.trans late

theorem exists_of_promotedAt {promotions : List (Cell × Value)} {cell : Cell}
    (carried : promotedAt promotions cell ≠ 0) : ∃ promotion ∈ promotions, promotion.1 = cell := by
  induction promotions with
  | nil => exact absurd rfl carried
  | cons first rest hypothesis =>
    by_cases here : first.1 = cell
    · exact ⟨first, List.mem_cons_self, here⟩
    · rw [promotedAt, if_neg here, zero_add] at carried
      obtain ⟨promotion, member, same⟩ := hypothesis carried
      exact ⟨promotion, List.mem_cons_of_mem first member, same⟩

namespace Ledger

/-- What one worker has for a cell: under way and held back. -/
def share (ledger : Ledger Worker Cell Value) (cell : Cell) (worker : Worker) : Value :=
  promotedAt (ledger.queue worker) cell + ledger.residual worker cell

variable [Fintype Worker]

/-- All there is for a cell: in the parent, under way and held back. -/
def total (ledger : Ledger Worker Cell Value) (cell : Cell) : Value :=
  ledger.parent cell + ∑ worker, ledger.share cell worker

theorem total_of_drained {ledger : Ledger Worker Cell Value} {cell : Cell}
    (queued : ∀ worker, ledger.queue worker = [])
    (held : ∀ worker, ledger.residual worker cell = 0) : ledger.total cell = ledger.parent cell := by
  have nothing : ∀ worker ∈ Finset.univ, ledger.share cell worker = 0 := by
    intro worker _
    rw [share, queued, held, promotedAt, add_zero]
  rw [total, Finset.sum_eq_zero nothing, add_zero]

end Ledger

/-! ### Steps and runs -/

variable [DecidableEq Worker]

namespace Ledger

/-- A worker now holds back and has sent something else. -/
def promote (ledger : Ledger Worker Cell Value) (worker : Worker) (kept : Cell → Value)
    (sent : List (Cell × Value)) : Ledger Worker Cell Value where
  parent := ledger.parent
  queue := Function.update ledger.queue worker (ledger.queue worker ++ sent)
  residual := Function.update ledger.residual worker kept

/-- The parent takes over the first promotion of a queue. -/
def apply (ledger : Ledger Worker Cell Value) (worker : Worker) (target : Cell) (amount : Value)
    (rest : List (Cell × Value)) : Ledger Worker Cell Value where
  parent := fun cell => ledger.parent cell + if target = cell then amount else 0
  queue := Function.update ledger.queue worker rest
  residual := ledger.residual

end Ledger

/-- A step of the pipeline that contributes the given amounts. A worker may promote anything
as long as nothing is lost: what it keeps and what it sends are what it had and what is new. -/
inductive Step : Ledger Worker Cell Value → (Cell → Value) → Ledger Worker Cell Value → Prop
  | promote {before : Ledger Worker Cell Value} {contribution : Cell → Value} (worker : Worker)
      (kept : Cell → Value) (sent : List (Cell × Value))
      (balanced : ∀ cell, kept cell + promotedAt sent cell =
        before.residual worker cell + contribution cell) :
      Step before contribution (before.promote worker kept sent)
  | apply {before : Ledger Worker Cell Value} (worker : Worker) (target : Cell) (amount : Value)
      (rest : List (Cell × Value)) (head : before.queue worker = (target, amount) :: rest) :
      Step before (fun _ => 0) (before.apply worker target amount rest)

/-- Any number of steps, with the sum of what they contribute. -/
inductive Run : Ledger Worker Cell Value → (Cell → Value) → Ledger Worker Cell Value → Prop
  | refl (ledger : Ledger Worker Cell Value) : Run ledger (fun _ => 0) ledger
  | tail {first before after : Ledger Worker Cell Value} {sofar contribution : Cell → Value}
      (run : Run first sofar before) (step : Step before contribution after) :
      Run first (fun cell => sofar cell + contribution cell) after

/-! ### Conservation -/

variable [Fintype Worker]

omit [DecidableEq Cell] in
theorem exists_sum_rest (before after : Worker → Value) (worker : Worker)
    (others : ∀ other, other ≠ worker → after other = before other) :
    ∃ rest, ∑ each, before each = before worker + rest ∧
      ∑ each, after each = after worker + rest := by
  refine ⟨∑ other ∈ Finset.univ.erase worker, before other,
    (Finset.add_sum_erase _ _ (Finset.mem_univ worker)).symm, ?_⟩
  rw [← Finset.add_sum_erase _ _ (Finset.mem_univ worker)]
  exact congrArg (after worker + ·) (Finset.sum_congr rfl fun other member =>
    others other (Finset.ne_of_mem_erase member))

namespace Ledger

variable (ledger : Ledger Worker Cell Value)

theorem total_promote (worker : Worker) (kept contribution : Cell → Value)
    (sent : List (Cell × Value)) (cell : Cell)
    (balanced : kept cell + promotedAt sent cell =
      ledger.residual worker cell + contribution cell) :
    (ledger.promote worker kept sent).total cell = ledger.total cell + contribution cell := by
  obtain ⟨rest, sumBefore, sumAfter⟩ := exists_sum_rest (ledger.share cell)
    ((ledger.promote worker kept sent).share cell) worker (by
      intro other different
      simp only [share, promote, Function.update_of_ne different])
  have moved : (ledger.promote worker kept sent).share cell worker =
      ledger.share cell worker + contribution cell := by
    simp only [share, promote, Function.update_self, promotedAt_append]
    rw [add_assoc, add_comm (promotedAt sent cell), balanced, add_assoc]
  have sameParent : (ledger.promote worker kept sent).parent cell = ledger.parent cell := rfl
  rw [total, total, sumBefore, sumAfter, moved, sameParent, add_right_comm, ← add_assoc]

theorem total_apply (worker : Worker) (target : Cell) (amount : Value)
    (rest : List (Cell × Value)) (cell : Cell)
    (head : ledger.queue worker = (target, amount) :: rest) :
    (ledger.apply worker target amount rest).total cell = ledger.total cell := by
  obtain ⟨others, sumBefore, sumAfter⟩ := exists_sum_rest (ledger.share cell)
    ((ledger.apply worker target amount rest).share cell) worker (by
      intro other different
      simp only [share, apply, Function.update_of_ne different])
  have taken : ledger.share cell worker = (if target = cell then amount else 0) +
      (ledger.apply worker target amount rest).share cell worker := by
    simp only [share, apply, Function.update_self, head, promotedAt]
    rw [add_assoc]
  have arrived : (ledger.apply worker target amount rest).parent cell =
      ledger.parent cell + if target = cell then amount else 0 := rfl
  rw [total, total, sumBefore, sumAfter, taken, arrived, add_assoc, add_assoc]

end Ledger

variable {before after : Ledger Worker Cell Value} {contribution : Cell → Value}

theorem Step.total (step : Step before contribution after) (cell : Cell) :
    after.total cell = before.total cell + contribution cell := by
  cases step with
  | promote worker kept sent balanced =>
    exact before.total_promote worker kept contribution sent cell (balanced cell)
  | apply worker target amount rest head =>
    rw [before.total_apply worker target amount rest cell head, add_zero]

theorem Run.total (run : Run before contribution after) (cell : Cell) :
    after.total cell = before.total cell + contribution cell := by
  induction run with
  | refl => exact (add_zero _).symm
  | tail run step hypothesis => rw [step.total, hypothesis, add_assoc]

end Promotion

end AsapSketchlib
