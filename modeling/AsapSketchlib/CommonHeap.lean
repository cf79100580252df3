/-
This file develops the array heap the bounded top-k structures share: a binary tree laid
out in an array, and the sifts that move one element along a path of it.

Each swap of a sift is reported to a caller that keeps other data beside the array. What
the caller keeps aligned with the array under one swap stays aligned under a whole sift.
-/

import Mathlib.Data.List.Nodup

namespace AsapSketchlib

namespace CommonHeap

variable {Elem Side : Type}

/-! ### Exchanging two elements -/

/-- `data.swap(left, right)`. -/
def swapAt (data : List Elem) (left right : ℕ) : List Elem :=
  match data[left]?, data[right]? with
  | some first, some second => (data.set left second).set right first
  | _, _ => data

section

variable {data : List Elem} {left right : ℕ} (leftInside : left < data.length)
  (rightInside : right < data.length)

include leftInside rightInside

theorem swapAt_eq : swapAt data left right = (data.set left data[right]).set right data[left] := by
  simp only [swapAt, List.getElem?_eq_getElem leftInside, List.getElem?_eq_getElem rightInside]

theorem swapAt_perm : (swapAt data left right).Perm data := by
  rw [swapAt_eq leftInside rightInside]
  exact List.set_set_perm leftInside rightInside

theorem length_swapAt : (swapAt data left right).length = data.length :=
  (swapAt_perm leftInside rightInside).length_eq

end

theorem map_swapAt {Image : Type} (image : Elem → Image) (data : List Elem) (left right : ℕ) :
    (swapAt data left right).map image = swapAt (data.map image) left right := by
  unfold swapAt
  rw [List.getElem?_map, List.getElem?_map]
  cases data[left]? with
  | none => rfl
  | some first =>
    cases data[right]? with
    | none => rfl
    | some second =>
      simp only [Option.map_some]
      rw [List.map_set, List.map_set]

theorem getElem?_swapAt {data : List Elem} {left right : ℕ} (leftInside : left < data.length)
    (rightInside : right < data.length) (place : ℕ) :
    (swapAt data left right)[place]? =
      if place = right then data[left]? else if place = left then data[right]? else data[place]? := by
  rw [swapAt_eq leftInside rightInside, List.getElem?_set, List.getElem?_set, List.length_set]
  by_cases isRight : right = place
  · subst isRight
    rw [if_pos rfl, if_pos rfl, if_pos rightInside, List.getElem?_eq_getElem leftInside]
  · rw [if_neg isRight, if_neg (Ne.symm isRight)]
    by_cases isLeft : left = place
    · subst isLeft
      rw [if_pos rfl, if_pos rfl, if_pos leftInside, List.getElem?_eq_getElem rightInside]
    · rw [if_neg isLeft, if_neg (Ne.symm isLeft)]

/-! ### The sifts -/

variable (shouldSwap : Elem → Elem → Bool) (onSwap : ℕ → ℕ → Side → Side)

def parent (place : ℕ) : ℕ := (place - 1) / 2

def leftChild (place : ℕ) : ℕ := 2 * place + 1

def rightChild (place : ℕ) : ℕ := 2 * place + 2

/-- Whether the elements at a parent and a child of it are to be exchanged. -/
def outOfOrder (data : List Elem) (above below : ℕ) : Bool :=
  match data[above]?, data[below]? with
  | some first, some second => shouldSwap first second
  | _, _ => false

/-- `bubble_up_with`: the array and the caller's data. Each turn moves to the parent, so the
index itself is fuel enough. -/
def bubbleUpWith : ℕ → List Elem → ℕ → Side → List Elem × Side
  | 0, data, _, side => (data, side)
  | fuel + 1, data, place, side =>
    if place = 0 then (data, side)
    else if outOfOrder shouldSwap data (parent place) place = true then
      bubbleUpWith fuel (swapAt data (parent place) place) (parent place)
        (onSwap (parent place) place side)
    else (data, side)

/-- The child of a place that the element there is exchanged with, or the place itself. -/
def downTarget (data : List Elem) (place : ℕ) : ℕ :=
  let target :=
    if outOfOrder shouldSwap data place (leftChild place) = true then leftChild place else place
  if outOfOrder shouldSwap data target (rightChild place) = true then rightChild place else target

/-- The loop of `bubble_down_with`: the array, the caller's data and the last place. Each turn
moves to a child, so the length of the array is fuel enough. -/
def bubbleDownFrom : ℕ → List Elem → ℕ → Side → List Elem × Side × ℕ
  | 0, data, place, side => (data, side, place)
  | fuel + 1, data, place, side =>
    let target := downTarget shouldSwap data place
    if target = place then (data, side, place)
    else bubbleDownFrom fuel (swapAt data place target) target (onSwap place target side)

/-- `bubble_down_with`: the array, the caller's data, and whether the element moved. -/
def bubbleDownWith (data : List Elem) (start : ℕ) (side : Side) : List Elem × Side × Bool :=
  let (data, side, place) := bubbleDownFrom shouldSwap onSwap data.length data start side
  (data, side, place ≠ start)

def pushBackWith (data : List Elem) (value : Elem) (side : Side) : List Elem × Side :=
  bubbleUpWith shouldSwap onSwap data.length (data ++ [value]) data.length side

/-- `replace_root_with`, less the displaced root it returns. -/
def replaceRootWith (data : List Elem) (value : Elem) (side : Side) : List Elem × Side :=
  let (data, side, _) := bubbleDownWith shouldSwap onSwap (data.set 0 value) 0 side
  (data, side)

/-- `update_at_with`: the element sifts down, and up where it could not move down. -/
def updateAtWith (data : List Elem) (place : ℕ) (side : Side) : List Elem × Side :=
  if data.length ≤ place then (data, side)
  else
    let (data, side, moved) := bubbleDownWith shouldSwap onSwap data place side
    if moved = true then (data, side)
    else bubbleUpWith shouldSwap onSwap place data place side

/-! ### What one swap preserves, a sift preserves -/

theorem outOfOrder_inside {data : List Elem} {above below : ℕ}
    (bad : outOfOrder shouldSwap data above below = true) :
    above < data.length ∧ below < data.length := by
  unfold outOfOrder at bad
  split at bad
  · rename_i aboveEq belowEq
    exact ⟨(List.getElem?_eq_some_iff.mp aboveEq).1, (List.getElem?_eq_some_iff.mp belowEq).1⟩
  · exact absurd bad Bool.false_ne_true

theorem parent_lt {place : ℕ} (below : place ≠ 0) : parent place < place := by
  unfold parent
  omega

theorem downTarget_spec (data : List Elem) (place : ℕ) :
    downTarget shouldSwap data place = place ∨
      place < downTarget shouldSwap data place ∧
        downTarget shouldSwap data place < data.length := by
  have left : ∀ target, target = leftChild place ∨ target = rightChild place → place < target := by
    rintro target (rfl | rfl)
    · unfold leftChild
      omega
    · unfold rightChild
      omega
  unfold downTarget
  by_cases leftBad : outOfOrder shouldSwap data place (leftChild place) = true
  · simp only [if_pos leftBad]
    by_cases rightBad : outOfOrder shouldSwap data (leftChild place) (rightChild place) = true
    · rw [if_pos rightBad]
      exact Or.inr ⟨left _ (Or.inr rfl), (outOfOrder_inside shouldSwap rightBad).2⟩
    · rw [if_neg rightBad]
      exact Or.inr ⟨left _ (Or.inl rfl), (outOfOrder_inside shouldSwap leftBad).2⟩
  · simp only [if_neg leftBad]
    by_cases rightBad : outOfOrder shouldSwap data place (rightChild place) = true
    · rw [if_pos rightBad]
      exact Or.inr ⟨left _ (Or.inr rfl), (outOfOrder_inside shouldSwap rightBad).2⟩
    · rw [if_neg rightBad]
      exact Or.inl rfl

/-- A relation between the array and the caller's data that each reported swap preserves. -/
def Follows (Aligned : List Elem → Side → Prop) : Prop :=
  ∀ data side left right, left < data.length → right < data.length → left ≠ right →
    Aligned data side → Aligned (swapAt data left right) (onSwap left right side)

section Invariant

variable {shouldSwap onSwap} {Aligned : List Elem → Side → Prop}
  (follows : Follows onSwap Aligned)

include follows

section

variable (fuel : ℕ) (data : List Elem) (place : ℕ) (side : Side) (aligned : Aligned data side)

include aligned

theorem bubbleUpWith_aligned :
    (bubbleUpWith shouldSwap onSwap fuel data place side).1.Perm data ∧
      Aligned (bubbleUpWith shouldSwap onSwap fuel data place side).1
        (bubbleUpWith shouldSwap onSwap fuel data place side).2 := by
  induction fuel generalizing data place side with
  | zero => exact ⟨List.Perm.refl _, aligned⟩
  | succ fuel hypothesis =>
    unfold bubbleUpWith
    by_cases atRoot : place = 0
    · rw [if_pos atRoot]
      exact ⟨List.Perm.refl _, aligned⟩
    · rw [if_neg atRoot]
      by_cases bad : outOfOrder shouldSwap data (parent place) place = true
      · rw [if_pos bad]
        obtain ⟨parentInside, inside⟩ := outOfOrder_inside shouldSwap bad
        obtain ⟨perm, swapped⟩ := hypothesis _ (parent place) _
          (follows data side _ _ parentInside inside (Nat.ne_of_lt (parent_lt atRoot)) aligned)
        exact ⟨perm.trans (swapAt_perm parentInside inside), swapped⟩
      · rw [if_neg bad]
        exact ⟨List.Perm.refl _, aligned⟩

theorem bubbleDownFrom_aligned :
    (bubbleDownFrom shouldSwap onSwap fuel data place side).1.Perm data ∧
      Aligned (bubbleDownFrom shouldSwap onSwap fuel data place side).1
        (bubbleDownFrom shouldSwap onSwap fuel data place side).2.1 := by
  induction fuel generalizing data place side with
  | zero => exact ⟨List.Perm.refl _, aligned⟩
  | succ fuel hypothesis =>
    unfold bubbleDownFrom
    rcases downTarget_spec shouldSwap data place with stays | ⟨below, inside⟩
    · simp only [if_pos stays]
      exact ⟨List.Perm.refl _, aligned⟩
    · simp only [if_neg (Nat.ne_of_gt below)]
      obtain ⟨perm, swapped⟩ := hypothesis _ (downTarget shouldSwap data place) _
        (follows data side _ _ (Nat.lt_trans below inside) inside (Nat.ne_of_lt below) aligned)
      exact ⟨perm.trans (swapAt_perm (Nat.lt_trans below inside) inside), swapped⟩

end

theorem pushBackWith_aligned (data : List Elem) (value : Elem) (side : Side)
    (aligned : Aligned (data ++ [value]) side) :
    (pushBackWith shouldSwap onSwap data value side).1.Perm (data ++ [value]) ∧
      Aligned (pushBackWith shouldSwap onSwap data value side).1
        (pushBackWith shouldSwap onSwap data value side).2 :=
  bubbleUpWith_aligned follows _ _ _ _ aligned

theorem replaceRootWith_aligned (data : List Elem) (value : Elem) (side : Side)
    (aligned : Aligned (data.set 0 value) side) :
    (replaceRootWith shouldSwap onSwap data value side).1.Perm (data.set 0 value) ∧
      Aligned (replaceRootWith shouldSwap onSwap data value side).1
        (replaceRootWith shouldSwap onSwap data value side).2 :=
  bubbleDownFrom_aligned follows _ _ _ _ aligned

theorem updateAtWith_aligned (data : List Elem) (place : ℕ) (side : Side)
    (aligned : Aligned data side) :
    (updateAtWith shouldSwap onSwap data place side).1.Perm data ∧
      Aligned (updateAtWith shouldSwap onSwap data place side).1
        (updateAtWith shouldSwap onSwap data place side).2 := by
  unfold updateAtWith
  by_cases outside : data.length ≤ place
  · rw [if_pos outside]
    exact ⟨List.Perm.refl _, aligned⟩
  · rw [if_neg outside]
    obtain ⟨perm, down⟩ :=
      bubbleDownFrom_aligned follows data.length data place side aligned
    unfold bubbleDownWith
    by_cases moved : decide
        ((bubbleDownFrom shouldSwap onSwap data.length data place side).2.2 ≠ place) = true
    · simp only [if_pos moved]
      exact ⟨perm, down⟩
    · simp only [if_neg moved]
      obtain ⟨permUp, up⟩ := bubbleUpWith_aligned follows place _ place
        _ down
      exact ⟨permUp.trans perm, up⟩

end Invariant

end CommonHeap

end AsapSketchlib
