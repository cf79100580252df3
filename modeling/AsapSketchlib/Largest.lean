/-
This file develops keeping the largest of a stream of values in bounded room. What is kept
is described without an order of arrival: the offered values are the kept ones and the lost ones,
no lost value exceeds a kept one, and something is lost only once the room is full.
-/

import Mathlib.Data.List.Sort

namespace AsapSketchlib

/-- `kept` are the largest of the offered values, as many as there is room for. -/
structure Largest {Value : Type} [LinearOrder Value] (capacity : ℕ)
    (offered kept lost : List Value) : Prop where
  split : offered.Perm (kept ++ lost)
  fits : kept.length ≤ capacity
  full : lost ≠ [] → kept.length = capacity
  above : ∀ value ∈ kept, ∀ gone ∈ lost, gone ≤ value

namespace Largest

variable {Value : Type} [LinearOrder Value] {capacity : ℕ} {offered kept kept' lost : List Value}

theorem empty (capacity : ℕ) : Largest capacity ([] : List Value) [] [] where
  split := List.Perm.refl _
  fits := Nat.zero_le _
  full := fun impossible => absurd rfl impossible
  above := fun _ member => absurd member List.not_mem_nil

section

variable (largest : Largest capacity offered kept lost)

include largest

theorem of_perm (perm : kept'.Perm kept) :
    Largest capacity offered kept' lost where
  split := largest.split.trans (perm.symm.append_right lost)
  fits := perm.length_eq.trans_le largest.fits
  full := fun some => perm.length_eq.trans (largest.full some)
  above := fun value member => largest.above value (perm.mem_iff.mp member)

theorem of_offered {others : List Value} (perm : others.Perm offered) :
    Largest capacity others kept lost :=
  ⟨perm.trans largest.split, largest.fits, largest.full, largest.above⟩

theorem grow (value : Value) (room : kept.length < capacity) :
    Largest capacity (value :: offered) (value :: kept) [] where
  split := by
    have whole : lost = [] := by
      by_contra some
      exact absurd (largest.full some) (Nat.ne_of_lt room)
    have same := largest.split
    rw [whole, List.append_nil] at same
    rw [List.append_nil]
    exact same.cons value
  fits := room
  full := fun impossible => absurd rfl impossible
  above := fun _ _ _ member => absurd member List.not_mem_nil

theorem refuse {value : Value} (full : kept.length = capacity)
    (low : ∀ other ∈ kept, value ≤ other) :
    Largest capacity (value :: offered) kept (value :: lost) where
  split := (largest.split.cons value).trans List.perm_middle.symm
  fits := full.le
  full := fun _ => full
  above := by
    intro other member gone lostMember
    rcases List.mem_cons.mp lostMember with rfl | earlier
    · exact low other member
    · exact largest.above other member gone earlier

end

theorem displace {gone : Value} {rest : List Value}
    (largest : Largest capacity offered (gone :: rest) lost) {value : Value}
    (full : (gone :: rest).length = capacity) (beaten : gone < value)
    (smallest : ∀ other ∈ rest, gone ≤ other) :
    Largest capacity (value :: offered) (value :: rest) (gone :: lost) where
  split := by
    refine (largest.split.cons value).trans ((List.Perm.cons value ?_))
    exact List.perm_middle.symm
  fits := full.le
  full := fun _ => full
  above := by
    intro other member lower lostMember
    have goneBelow : gone ≤ other := by
      rcases List.mem_cons.mp member with rfl | inRest
      · exact beaten.le
      · exact smallest other inRest
    rcases List.mem_cons.mp lostMember with rfl | earlier
    · exact goneBelow
    · exact (largest.above gone List.mem_cons_self lower earlier).trans goneBelow

/-- What has been lost elsewhere, where as many values that are no lower were kept and are offered
here, would be lost here. -/
theorem absorb {others otherKept otherLost : List Value}
    (largest : Largest capacity (otherKept ++ offered) kept lost)
    (other : Largest capacity others otherKept otherLost) :
    Largest capacity (others ++ offered) kept (lost ++ otherLost) := by
  have whole : otherLost ≠ [] → kept.length = capacity := by
    intro some
    by_contra room
    have none : lost = [] := by_contra fun gone => room (largest.full gone)
    have same := largest.split.length_eq
    rw [none, List.append_nil, List.length_append, other.full some] at same
    exact room (le_antisymm largest.fits (Nat.le_of_add_right_le same.le))
  refine ⟨?_, largest.fits, fun some => ?_, fun value member gone either => ?_⟩
  · rw [← List.append_assoc]
    refine (other.split.append_right offered).trans (List.Perm.trans ?_
      (largest.split.append_right otherLost))
    rw [List.append_assoc, List.append_assoc]
    exact List.perm_append_comm.append_left otherKept
  · by_cases lostHere : lost = []
    · exact whole fun none => some (by rw [lostHere, none]; rfl)
    · exact largest.full lostHere
  · rcases List.mem_append.mp either with here | elsewhere
    · exact largest.above value member gone here
    · by_cases displaced : ∃ low ∈ lost, gone ≤ low
      · obtain ⟨low, inLost, below⟩ := displaced
        exact below.trans (largest.above value member low inLost)
      · -- Nothing as high as the lost value was lost here, so that the room is filled with such.
        have counted := largest.split.countP_eq (fun value => gone ≤ value)
        rw [List.countP_append, List.countP_append,
          List.countP_eq_length.mpr fun high inKept =>
            decide_eq_true (other.above high inKept gone elsewhere),
          other.full (List.ne_nil_of_mem elsewhere),
          List.countP_eq_zero.mpr fun low inLost below =>
            displaced ⟨low, inLost, of_decide_eq_true below⟩] at counted
        have all : kept.countP (fun value => gone ≤ value) = kept.length := by
          have most := List.countP_le_length (p := fun value => decide (gone ≤ value)) (l := kept)
          have fits := largest.fits
          omega
        exact of_decide_eq_true (List.countP_eq_length.mp all value member)

theorem perm_take (largest : Largest capacity offered kept lost) :
    kept.Perm ((offered.mergeSort (· ≥ ·)).take capacity) := by
  have sorted : offered.mergeSort (· ≥ ·) = kept.mergeSort (· ≥ ·) ++ lost.mergeSort (· ≥ ·) := by
    have shuffled : (offered.mergeSort (· ≥ ·)).Perm
        (kept.mergeSort (· ≥ ·) ++ lost.mergeSort (· ≥ ·)) :=
      (List.mergeSort_perm _ _).trans (largest.split.trans
        ((List.mergeSort_perm kept _).symm.append (List.mergeSort_perm lost _).symm))
    refine shuffled.eq_of_pairwise' (List.pairwise_mergeSort' (· ≥ ·) offered) ?_
    refine List.pairwise_append.mpr ⟨List.pairwise_mergeSort' (· ≥ ·) kept,
      List.pairwise_mergeSort' (· ≥ ·) lost, fun value member gone lostMember => ?_⟩
    exact largest.above value (List.mem_mergeSort.mp member) gone (List.mem_mergeSort.mp lostMember)
  rw [sorted]
  by_cases none : lost = []
  · rw [none, List.mergeSort_nil, List.append_nil, List.take_of_length_le]
    · exact (List.mergeSort_perm kept _).symm
    · rw [List.length_mergeSort]
      exact largest.fits
  · rw [List.take_append_of_le_length, List.take_of_length_le]
    · exact (List.mergeSort_perm kept _).symm
    · rw [List.length_mergeSort]
      exact largest.fits
    · rw [List.length_mergeSort, largest.full none]

end Largest

/-! ### The first of an ordered list -/

/-- In a list in strict order, an element is among the first exactly when few enough of its elements
come before it. -/
theorem mem_take_iff_countP {Elem : Type} {before : Elem → Elem → Prop} [DecidableRel before]
    (asymmetric : ∀ left right, before left right → ¬before right left) {elems : List Elem}
    (ordered : elems.Pairwise before) {elem : Elem} (member : elem ∈ elems) (count : ℕ) :
    elem ∈ elems.take count ↔ elems.countP (fun other => before other elem) < count := by
  induction elems generalizing count with
  | nil => exact absurd member List.not_mem_nil
  | cons head rest hypothesis =>
    have ahead : ∀ other ∈ rest, before head other := fun other => List.rel_of_pairwise_cons ordered
    cases count with
    | zero =>
      exact ⟨fun impossible => absurd impossible List.not_mem_nil,
        fun low => absurd low (Nat.not_lt_zero _)⟩
    | succ count =>
      rw [List.take_succ_cons, List.mem_cons]
      rcases List.mem_cons.mp member with rfl | inRest
      · have none_before : (elem :: rest).countP (fun other => before other elem) = 0 := by
          refine List.countP_eq_zero.mpr fun other memberOther isBefore => ?_
          have precedes := of_decide_eq_true isBefore
          rcases List.mem_cons.mp memberOther with rfl | inRest
          · exact asymmetric other other precedes precedes
          · exact asymmetric _ _ precedes (ahead other inRest)
        rw [none_before]
        exact ⟨fun _ => Nat.succ_pos count, fun _ => Or.inl rfl⟩
      · have precedes := ahead elem inRest
        have different : elem ≠ head := by
          rintro rfl
          exact asymmetric elem elem precedes precedes
        have counted : (head :: rest).countP (fun other => before other elem) =
            rest.countP (fun other => before other elem) + 1 :=
          List.countP_cons_of_pos (decide_eq_true precedes)
        rw [counted, Nat.add_lt_add_iff_right, ← hypothesis ordered.of_cons inRest count]
        exact ⟨fun either => either.resolve_left different, Or.inr⟩

end AsapSketchlib
