/-
This file develops a heap that is refreshed lazily: its entries may be out of date, and an entry is
looked up again only when it is the least one. The search for the least entry that is up to date
ends, and what it finds is the least of all current entries when no entry is above its current one.
-/

import Mathlib.Data.List.Perm.Basic
import Mathlib.Order.MinMax

namespace AsapSketchlib

namespace LazyHeap

variable {Entry : Type} [LinearOrder Entry] (current : Entry → Option Entry)

/-! ### The least current entry -/

/-- The least entry that is up to date, and the heap without it. An entry that is out of date is
dropped or replaced by its current one. -/
def lightest : ℕ → List Entry → Option (Option Entry × List Entry)
  | 0, _ => none
  | rounds + 1, heap =>
    match heap.min? with
    | none => some (none, heap)
    | some top =>
      match current top with
      | none => lightest rounds (heap.erase top)
      | some now =>
        if now = top then some (some top, heap.erase top)
        else lightest rounds (now :: heap.erase top)

theorem min?_spec {heap : List Entry} {top : Entry} (least : heap.min? = some top) :
    top ∈ heap ∧ ∀ entry ∈ heap, top ≤ entry :=
  List.min?_eq_some_iff.mp least

/-- What holds of the heap and is kept by dropping and replacing entries holds of the heap that is
left, with what was found. -/
theorem lightest_induction {motive : List Entry → Prop}
    (dropped : ∀ {heap rest : List Entry} {top : Entry}, heap.Perm (top :: rest) →
      current top = none → motive heap → motive rest)
    (replaced : ∀ {heap rest : List Entry} {top now : Entry}, heap.Perm (top :: rest) →
      current top = some now → motive heap → motive (now :: rest))
    {rounds : ℕ} {heap rest : List Entry} {found : Option Entry}
    (ran : lightest current rounds heap = some (found, rest)) (before : motive heap) :
    motive (found.toList ++ rest) := by
  induction rounds generalizing heap with
  | zero => cases ran
  | succ rounds hypothesis =>
    unfold lightest at ran
    split at ran
    · obtain ⟨rfl, rfl⟩ := Prod.mk.inj (Option.some.inj ran)
      exact before
    · rename_i top least
      split at ran
      · rename_i gone
        exact hypothesis ran
          (dropped (List.perm_cons_erase (min?_spec least).1) gone before)
      · rename_i now looked
        split at ran
        · rename_i same
          obtain ⟨rfl, rfl⟩ := Prod.mk.inj (Option.some.inj ran)
          exact replaced (List.perm_cons_erase (min?_spec least).1) (same ▸ looked) before
        · exact hypothesis ran
            (replaced (List.perm_cons_erase (min?_spec least).1) looked before)

theorem lightest_spec {rounds : ℕ} {heap rest : List Entry} {found : Option Entry}
    (ran : lightest current rounds heap = some (found, rest)) :
    (found = none ∧ rest = []) ∨ ∃ top, found = some top ∧ current top = some top ∧
      ∀ entry ∈ rest, top ≤ entry := by
  induction rounds generalizing heap with
  | zero => cases ran
  | succ rounds hypothesis =>
    unfold lightest at ran
    split at ran
    · rename_i empty
      obtain ⟨rfl, rfl⟩ := Prod.mk.inj (Option.some.inj ran)
      exact .inl ⟨rfl, List.min?_eq_none_iff.mp empty⟩
    · rename_i top least
      split at ran
      · exact hypothesis ran
      · rename_i now looked
        split at ran
        · rename_i same
          obtain ⟨rfl, rfl⟩ := Prod.mk.inj (Option.some.inj ran)
          exact .inr ⟨top, rfl, same ▸ looked, fun entry member =>
            (min?_spec least).2 entry (List.mem_of_mem_erase member)⟩
        · exact hypothesis ran

/-! ### The search ends -/

/-- The number of entries that are out of date. -/
def stale (heap : List Entry) : ℕ := heap.countP fun entry => current entry ≠ some entry

theorem stale_erase {heap : List Entry} {top : Entry} (member : top ∈ heap)
    (out : current top ≠ some top) : stale current heap = stale current (heap.erase top) + 1 := by
  unfold stale
  rw [(List.perm_cons_erase member).countP_eq, List.countP_cons, if_pos (decide_eq_true out)]

section

variable (again : ∀ {entry now : Entry}, current entry = some now → current now = some now)

include again

theorem lightest_ends {rounds : ℕ} {heap : List Entry} (enough : stale current heap < rounds) :
    ∃ found rest, lightest current rounds heap = some (found, rest) := by
  induction rounds generalizing heap with
  | zero => exact absurd enough (Nat.not_lt_zero _)
  | succ rounds hypothesis =>
    unfold lightest
    split
    · exact ⟨none, heap, rfl⟩
    · rename_i top least
      have member := (min?_spec least).1
      split
      · rename_i gone
        refine hypothesis ?_
        rw [stale_erase current member (gone ▸ Option.some_ne_none top |>.symm)] at enough
        exact Nat.lt_of_succ_lt_succ enough
      · rename_i now looked
        split
        · exact ⟨some top, heap.erase top, rfl⟩
        · rename_i other
          refine hypothesis ?_
          have fresh : stale current (now :: heap.erase top) = stale current (heap.erase top) :=
            List.countP_cons_of_neg fun out => of_decide_eq_true out (again looked)
          rw [stale_erase current member fun same => other
            (Option.some.inj (looked.symm.trans same))] at enough
          exact fresh.trans_lt (Nat.lt_of_succ_lt_succ enough)

theorem lightest_ends_of_length (heap : List Entry) :
    ∃ found rest, lightest current (heap.length + 1) heap = some (found, rest) :=
  lightest_ends current again (Nat.lt_succ_of_le List.countP_le_length)

end

/-! ### When what is found is the least current entry -/

/-- No entry is above its current one. -/
def Low (heap : List Entry) : Prop := ∀ entry ∈ heap, ∀ now, current entry = some now → entry ≤ now

theorem low_lightest (again : ∀ {entry now : Entry}, current entry = some now →
      current now = some now) {rounds : ℕ} {heap rest : List Entry} {found : Option Entry}
    (ran : lightest current rounds heap = some (found, rest)) (low : Low current heap) :
    Low current (found.toList ++ rest) := by
  refine lightest_induction current (fun split _ low entry member => ?_)
    (fun split looked low entry member later same => ?_) ran low
  · exact low entry (split.mem_iff.mpr (List.mem_cons_of_mem _ member))
  · rcases List.mem_cons.mp member with rfl | member
    · exact (Option.some.inj ((again looked).symm.trans same)).le
    · exact low entry (split.mem_iff.mpr (List.mem_cons_of_mem _ member)) later same

end LazyHeap

end AsapSketchlib
