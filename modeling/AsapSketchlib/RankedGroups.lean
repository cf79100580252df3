/-
This file develops the answer to a rank from group sizes alone: items sorted by a place are cut
into groups of one place each, and the group in which the running size reaches a rank is the
group of the item with that rank.
-/

import Mathlib.Algebra.GroupWithZero.Nat
import Mathlib.Data.List.Sort

namespace AsapSketchlib

namespace Ranked

/-! ### Walking groups -/

section Walk

variable {Answer Item : Type}

/-- The answer of the first group with which the running size reaches a rank. -/
def walk (rank : ℕ) : List (ℕ × Answer) → ℕ → Option Answer
  | [], _ => none
  | (size, answer) :: rest, seen =>
    if rank ≤ seen + size then some answer else walk rank rest (seen + size)

end Walk

/-! ### Groups of a sorted list -/

variable {Item Place : Type} [LinearOrder Place] (place : Item → Place)

/-! ### Weighted items -/

def weightUpTo (items : List (ℕ × Item)) (here : Place) : ℕ :=
  ((items.filter fun item => place item.2 ≤ here).map Prod.fst).sum

theorem weightUpTo_cons_of_le {first : ℕ × Item} {rest : List (ℕ × Item)} {here : Place}
    (before : place first.2 ≤ here) :
    weightUpTo place (first :: rest) here = first.1 + weightUpTo place rest here := by
  have kept : (first :: rest).filter (fun item => place item.2 ≤ here) =
      first :: rest.filter fun item => place item.2 ≤ here :=
    List.filter_cons_of_pos (decide_eq_true before)
  rw [weightUpTo, kept, List.map_cons, List.sum_cons, weightUpTo]

/-- Walking weighted items in the order of their places stops at the least place up to which the
weight reaches the rank. -/
theorem walk_weighted {rank seen : ℕ} {items : List (ℕ × Item)}
    (sorted : items.Pairwise fun left right => place left.2 ≤ place right.2)
    (nonempty : items ≠ []) (enough : rank ≤ seen + (items.map Prod.fst).sum) :
    ∃ found ∈ items, walk rank items seen = some found.2 ∧
      rank ≤ seen + weightUpTo place items (place found.2) ∧
      ∀ item ∈ items, rank ≤ seen + weightUpTo place items (place item.2) →
        place found.2 ≤ place item.2 := by
  induction items generalizing seen with
  | nil => exact absurd rfl nonempty
  | cons first rest hypothesis =>
    obtain ⟨firstLe, restSorted⟩ := List.pairwise_cons.mp sorted
    by_cases reached : rank ≤ seen + first.1
    · refine ⟨first, List.mem_cons_self, if_pos reached, ?_, fun item member _ => ?_⟩
      · rw [weightUpTo_cons_of_le place le_rfl]
        exact reached.trans (Nat.add_le_add_left (Nat.le_add_right _ _) seen)
      · rcases List.mem_cons.mp member with rfl | later
        · exact le_rfl
        · exact firstLe item later
    · rw [List.map_cons, List.sum_cons, ← Nat.add_assoc] at enough
      have restSome : rest ≠ [] := by
        rintro rfl
        exact reached enough
      obtain ⟨found, member, walked, heavy, least⟩ :=
        hypothesis restSorted restSome enough
      have after : ∀ item ∈ rest, weightUpTo place (first :: rest) (place item.2) =
          first.1 + weightUpTo place rest (place item.2) := fun item later =>
        weightUpTo_cons_of_le place (firstLe item later)
      refine ⟨found, List.mem_cons_of_mem _ member, (if_neg reached).trans walked, ?_,
        fun item held reaches => ?_⟩
      · rw [after found member, ← Nat.add_assoc]
        exact heavy
      · rcases List.mem_cons.mp held with rfl | later
        · rw [weightUpTo_cons_of_le place le_rfl, ← Nat.add_assoc] at reaches
          -- Some later item has the same place, or the weight would not reach the rank.
          obtain ⟨other, isOther, sameLe⟩ : ∃ other ∈ rest, place other.2 ≤ place item.2 := by
            by_contra none
            have empty : weightUpTo place rest (place item.2) = 0 := by
              unfold weightUpTo
              rw [List.filter_eq_nil_iff.mpr fun other isOther sameLe =>
                none ⟨other, isOther, of_decide_eq_true sameLe⟩]
              rfl
            rw [empty, Nat.add_zero] at reaches
            exact reached reaches
          have same : place other.2 = place item.2 := le_antisymm sameLe (firstLe other isOther)
          exact (least other isOther (same ▸ reaches)).trans sameLe
        · rw [after item later, ← Nat.add_assoc] at reaches
          exact least item later reaches

end Ranked

end AsapSketchlib
