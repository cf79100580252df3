/-
This file proves that the sifts leave the array heap in order: no element ranks below its
parent, so none ranks below the root. An element that is changed is out of order with its
neighbours only, and each turn of a sift moves this disorder one place.

Ranks are read off places. A place outside the array ranks above all others.
-/

import AsapSketchlib.CommonHeap
import Mathlib.Order.WithBot

namespace AsapSketchlib

namespace CommonHeap

/-! ### Parents and children -/

theorem parent_lt_of_pos {child : ℕ} (positive : 0 < child) : parent child < child :=
  parent_lt (Nat.ne_of_gt positive)

theorem child_cases {child place : ℕ} (positive : 0 < child) (under : parent child = place) :
    child = leftChild place ∨ child = rightChild place := by
  unfold parent at under
  unfold leftChild rightChild
  omega

theorem parent_leftChild (place : ℕ) : parent (leftChild place) = place := by
  unfold parent leftChild
  omega

theorem parent_rightChild (place : ℕ) : parent (rightChild place) = place := by
  unfold parent rightChild
  omega

theorem lt_leftChild (place : ℕ) : place < leftChild place := by
  unfold leftChild
  omega

theorem leftChild_lt_rightChild (place : ℕ) : leftChild place < rightChild place :=
  Nat.lt_succ_self _

/-! ### Ranks of places -/

section Places

variable {Height : Type} {ranks : ℕ → Height}

def exchanged (ranks : ℕ → Height) (left right place : ℕ) : Height :=
  if place = right then ranks left else if place = left then ranks right else ranks place

theorem exchanged_right (left right : ℕ) : exchanged ranks left right right = ranks left :=
  if_pos rfl

theorem exchanged_left {left right : ℕ} (apart : left ≠ right) :
    exchanged ranks left right left = ranks right :=
  (if_neg apart).trans (if_pos rfl)

theorem exchanged_of_ne {left right place : ℕ} (notLeft : place ≠ left) (notRight : place ≠ right) :
    exchanged ranks left right place = ranks place :=
  (if_neg notRight).trans (if_neg notLeft)

variable [LinearOrder Height]

/-- No place ranks below its parent. -/
def Heaped (ranks : ℕ → Height) : Prop := ∀ child, 0 < child → ranks (parent child) ≤ ranks child

/-- The order that is left where the element at one place was changed: the other pairs are in
order, and so are the neighbours of the place with each other. -/
structure Loose (ranks : ℕ → Height) (hole : ℕ) : Prop where
  elsewhere : ∀ child, 0 < child → child ≠ hole → parent child ≠ hole →
    ranks (parent child) ≤ ranks child
  across : 0 < hole → ∀ child, 0 < child → parent child = hole → ranks (parent hole) ≤ ranks child

/-- The place ranks no higher than its children. -/
def FitsAbove (ranks : ℕ → Height) (hole : ℕ) : Prop :=
  ∀ child, 0 < child → parent child = hole → ranks hole ≤ ranks child

/-- The place ranks no lower than its parent. -/
def FitsBelow (ranks : ℕ → Height) (hole : ℕ) : Prop := 0 < hole → ranks (parent hole) ≤ ranks hole

theorem heaped_of_loose {hole : ℕ} (loose : Loose ranks hole) (above : FitsAbove ranks hole)
    (below : FitsBelow ranks hole) : Heaped ranks := by
  intro child positive
  by_cases here : child = hole
  · subst here
    exact below positive
  · by_cases under : parent child = hole
    · rw [under]
      exact above child positive under
    · exact loose.elsewhere child positive here under

theorem loose_of_heaped {ranks' : ℕ → Height} {hole : ℕ} (heaped : Heaped ranks)
    (agree : ∀ place, place ≠ hole → ranks' place = ranks place) : Loose ranks' hole where
  elsewhere := by
    intro child positive apart parentApart
    rw [agree child apart, agree _ parentApart]
    exact heaped child positive
  across := by
    intro positive child childPositive under
    have below : hole < child := under ▸ parent_lt_of_pos childPositive
    rw [agree _ (Nat.ne_of_lt (parent_lt_of_pos positive)), agree _ (Nat.ne_of_gt below)]
    calc
      ranks (parent hole) ≤ ranks hole := heaped hole positive
      _ = ranks (parent child) := by rw [under]
      _ ≤ ranks child := heaped child childPositive

theorem Heaped.root_le (heaped : Heaped ranks) (place : ℕ) : ranks 0 ≤ ranks place := by
  induction place using Nat.strong_induction_on with
  | _ place hypothesis =>
    rcases Nat.eq_zero_or_pos place with rfl | positive
    · exact le_rfl
    · exact (hypothesis _ (parent_lt_of_pos positive)).trans (heaped place positive)

/-- An element that ranks below its parent changes places with it. -/
theorem Loose.rise {hole : ℕ} (loose : Loose ranks hole) (positive : 0 < hole)
    (lower : ranks hole < ranks (parent hole)) :
    Loose (exchanged ranks (parent hole) hole) (parent hole) ∧
      FitsAbove (exchanged ranks (parent hole) hole) (parent hole) := by
  have parentBelow : parent hole < hole := parent_lt_of_pos positive
  have apart : parent hole ≠ hole := Nat.ne_of_lt parentBelow
  refine ⟨⟨fun child childPositive notParent parentApart => ?_,
    fun parentPositive child childPositive under => ?_⟩, fun child childPositive under => ?_⟩
  · have notHole : child ≠ hole := fun same => parentApart (same ▸ rfl)
    rw [exchanged_of_ne notParent notHole]
    by_cases underHole : parent child = hole
    · rw [underHole, exchanged_right]
      exact loose.across positive child childPositive underHole
    · rw [exchanged_of_ne parentApart underHole]
      exact loose.elsewhere child childPositive notHole underHole
  · have higher : parent (parent hole) < parent hole := parent_lt_of_pos parentPositive
    rw [exchanged_of_ne (Nat.ne_of_lt higher) (Nat.ne_of_lt (higher.trans parentBelow))]
    have grand : ranks (parent (parent hole)) ≤ ranks (parent hole) := loose.elsewhere _
      parentPositive apart (Nat.ne_of_lt (higher.trans parentBelow))
    by_cases isHole : child = hole
    · rw [isHole, exchanged_right]
      exact grand
    · have below : parent hole < child := under ▸ parent_lt_of_pos childPositive
      rw [exchanged_of_ne (Nat.ne_of_gt below) isHole]
      have sibling := loose.elsewhere child childPositive isHole (under ▸ apart)
      rw [under] at sibling
      exact grand.trans sibling
  · rw [exchanged_left apart]
    by_cases isHole : child = hole
    · rw [isHole, exchanged_right]
      exact lower.le
    · have below : parent hole < child := under ▸ parent_lt_of_pos childPositive
      rw [exchanged_of_ne (Nat.ne_of_gt below) isHole]
      have sibling := loose.elsewhere child childPositive isHole (under ▸ apart)
      rw [under] at sibling
      exact lower.le.trans sibling

theorem Loose.sink {hole target : ℕ} (loose : Loose ranks hole) (positive : 0 < target)
    (under : parent target = hole) (lower : ranks target < ranks hole)
    (lowest : ∀ child, 0 < child → parent child = hole → ranks target ≤ ranks child) :
    Loose (exchanged ranks hole target) target ∧ FitsBelow (exchanged ranks hole target) target := by
  have below : hole < target := under ▸ parent_lt_of_pos positive
  have apart : hole ≠ target := Nat.ne_of_lt below
  refine ⟨⟨fun child childPositive notTarget parentApart => ?_,
    fun _ child childPositive underTarget => ?_⟩, fun _ => ?_⟩
  · by_cases isHole : child = hole
    · subst isHole
      have higher : parent child < child := parent_lt_of_pos childPositive
      rw [exchanged_left apart, exchanged_of_ne (Nat.ne_of_lt higher)
        (Nat.ne_of_lt (higher.trans below))]
      exact loose.across childPositive target positive under
    · rw [exchanged_of_ne isHole notTarget]
      by_cases underHole : parent child = hole
      · rw [underHole, exchanged_left apart]
        exact lowest child childPositive underHole
      · rw [exchanged_of_ne underHole parentApart]
        exact loose.elsewhere child childPositive isHole underHole
  · have deeper : target < child := underTarget ▸ parent_lt_of_pos childPositive
    rw [under, exchanged_left apart,
      exchanged_of_ne (Nat.ne_of_gt (below.trans deeper)) (Nat.ne_of_gt deeper)]
    have kept := loose.elsewhere child childPositive (Nat.ne_of_gt (below.trans deeper))
      (underTarget ▸ Ne.symm apart)
    rwa [underTarget] at kept
  · rw [under, exchanged_left apart, exchanged_right]
    exact lower.le

end Places

/-! ### The sifts of an array -/

section Arrays

variable {Elem Side Rank : Type} {rank : Elem → Rank}

def rankAt (rank : Elem → Rank) (data : List Elem) (place : ℕ) : WithTop Rank :=
  (data[place]?).elim ⊤ fun elem => (rank elem : WithTop Rank)

theorem rankAt_outside {data : List Elem} {place : ℕ} (outside : data.length ≤ place) :
    rankAt rank data place = ⊤ := by
  unfold rankAt
  rw [List.getElem?_eq_none outside]
  rfl

theorem rankAt_inside {data : List Elem} {place : ℕ} (inside : place < data.length) :
    rankAt rank data place = (rank data[place] : WithTop Rank) := by
  unfold rankAt
  rw [List.getElem?_eq_getElem inside]
  rfl

theorem rankAt_set {data : List Elem} {changed place : ℕ} (value : Elem) (apart : place ≠ changed) :
    rankAt rank (data.set changed value) place = rankAt rank data place := by
  unfold rankAt
  rw [List.getElem?_set_ne (Ne.symm apart)]

theorem rankAt_swapAt {data : List Elem} {left right : ℕ} (leftInside : left < data.length)
    (rightInside : right < data.length) :
    rankAt rank (swapAt data left right) = exchanged (rankAt rank data) left right := by
  funext place
  unfold rankAt exchanged
  rw [getElem?_swapAt leftInside rightInside]
  by_cases isRight : place = right
  · rw [if_pos isRight, if_pos isRight]
  · rw [if_neg isRight, if_neg isRight]
    by_cases isLeft : place = left
    · rw [if_pos isLeft, if_pos isLeft]
    · rw [if_neg isLeft, if_neg isLeft]

variable [LinearOrder Rank] {shouldSwap : Elem → Elem → Bool} {onSwap : ℕ → ℕ → Side → Side}

/-- The comparison of a heap that keeps the lowest ranks on top. -/
def Orders (shouldSwap : Elem → Elem → Bool) (rank : Elem → Rank) : Prop :=
  ∀ above below, shouldSwap above below = decide (rank below < rank above)

variable (orders : Orders shouldSwap rank)

include orders

theorem outOfOrder_iff {data : List Elem} {above below : ℕ} (higher : above < below) :
    outOfOrder shouldSwap data above below = true ↔
      rankAt rank data below < rankAt rank data above := by
  rcases Nat.lt_or_ge below data.length with inside | outside
  · have aboveInside : above < data.length := higher.trans inside
    unfold outOfOrder
    rw [rankAt_inside inside, rankAt_inside aboveInside, WithTop.coe_lt_coe,
      List.getElem?_eq_getElem inside, List.getElem?_eq_getElem aboveInside]
    show shouldSwap data[above] data[below] = true ↔ _
    rw [orders, decide_eq_true_iff]
  · rw [rankAt_outside outside]
    refine ⟨fun bad => ?_, fun impossible => absurd impossible not_top_lt⟩
    exact absurd (outOfOrder_inside shouldSwap bad).2 (Nat.not_lt.mpr outside)

theorem heaped_bubbleUpWith {fuel place : ℕ} {data : List Elem} (side : Side) (enough : place ≤ fuel)
    (loose : Loose (rankAt rank data) place) (above : FitsAbove (rankAt rank data) place) :
    Heaped (rankAt rank (bubbleUpWith shouldSwap onSwap fuel data place side).1) := by
  induction fuel generalizing data place side with
  | zero =>
    obtain rfl := Nat.le_zero.mp enough
    exact heaped_of_loose loose above fun positive => absurd positive (Nat.lt_irrefl 0)
  | succ fuel hypothesis =>
    unfold bubbleUpWith
    by_cases atRoot : place = 0
    · rw [if_pos atRoot]
      subst atRoot
      exact heaped_of_loose loose above fun positive => absurd positive (Nat.lt_irrefl 0)
    · have positive : 0 < place := Nat.pos_of_ne_zero atRoot
      have higher : parent place < place := parent_lt atRoot
      rw [if_neg atRoot]
      by_cases bad : outOfOrder shouldSwap data (parent place) place = true
      · rw [if_pos bad]
        obtain ⟨parentInside, inside⟩ := outOfOrder_inside shouldSwap bad
        obtain ⟨loose', above'⟩ := loose.rise positive ((outOfOrder_iff orders higher).mp bad)
        rw [← rankAt_swapAt parentInside inside] at loose' above'
        exact hypothesis _ (Nat.le_of_lt_succ (higher.trans_le enough)) loose' above'
      · rw [if_neg bad]
        exact heaped_of_loose loose above fun _ =>
          not_lt.mp fun lower => bad ((outOfOrder_iff orders higher).mpr lower)

/-- The child a place is exchanged with ranks below it and no higher than its other child; where
there is none, the place fits above its children. -/
theorem downTarget_cases (data : List Elem) (place : ℕ) :
    (downTarget shouldSwap data place = place ∧ FitsAbove (rankAt rank data) place) ∨
      (0 < downTarget shouldSwap data place ∧ parent (downTarget shouldSwap data place) = place ∧
        rankAt rank data (downTarget shouldSwap data place) < rankAt rank data place ∧
        ∀ child, 0 < child → parent child = place →
          rankAt rank data (downTarget shouldSwap data place) ≤ rankAt rank data child) := by
  have toLeft : outOfOrder shouldSwap data place (leftChild place) = true ↔ _ :=
    outOfOrder_iff orders (lt_leftChild place)
  have toRight : outOfOrder shouldSwap data place (rightChild place) = true ↔ _ :=
    outOfOrder_iff orders ((lt_leftChild place).trans (leftChild_lt_rightChild place))
  have across : outOfOrder shouldSwap data (leftChild place) (rightChild place) = true ↔ _ :=
    outOfOrder_iff orders (leftChild_lt_rightChild place)
  unfold downTarget
  by_cases leftBad : outOfOrder shouldSwap data place (leftChild place) = true
  · have leftLower := toLeft.mp leftBad
    simp only [if_pos leftBad]
    by_cases rightBad : outOfOrder shouldSwap data (leftChild place) (rightChild place) = true
    · have rightLower := across.mp rightBad
      rw [if_pos rightBad]
      refine Or.inr ⟨Nat.succ_pos _, parent_rightChild place, rightLower.trans leftLower, ?_⟩
      intro child positive under
      rcases child_cases positive under with rfl | rfl
      · exact rightLower.le
      · exact le_rfl
    · rw [if_neg rightBad]
      refine Or.inr ⟨Nat.succ_pos _, parent_leftChild place, leftLower, ?_⟩
      intro child positive under
      rcases child_cases positive under with rfl | rfl
      · exact le_rfl
      · exact not_lt.mp fun lower => rightBad (across.mpr lower)
  · have leftFits : rankAt rank data place ≤ rankAt rank data (leftChild place) :=
      not_lt.mp fun lower => leftBad (toLeft.mpr lower)
    simp only [if_neg leftBad]
    by_cases rightBad : outOfOrder shouldSwap data place (rightChild place) = true
    · have rightLower := toRight.mp rightBad
      rw [if_pos rightBad]
      refine Or.inr ⟨Nat.succ_pos _, parent_rightChild place, rightLower, ?_⟩
      intro child positive under
      rcases child_cases positive under with rfl | rfl
      · exact rightLower.le.trans leftFits
      · exact le_rfl
    · rw [if_neg rightBad]
      refine Or.inl ⟨rfl, fun child positive under => ?_⟩
      rcases child_cases positive under with rfl | rfl
      · exact leftFits
      · exact not_lt.mp fun lower => rightBad (toRight.mpr lower)

omit [LinearOrder Rank] orders in
theorem downTarget_bounds {data : List Elem} {place : ℕ}
    (positive : 0 < downTarget shouldSwap data place)
    (under : parent (downTarget shouldSwap data place) = place) :
    place < downTarget shouldSwap data place ∧ downTarget shouldSwap data place < data.length := by
  have deeper := parent_lt_of_pos positive
  rw [under] at deeper
  exact (downTarget_spec shouldSwap data place).resolve_left (Nat.ne_of_gt deeper)

theorem heaped_bubbleDownFrom {fuel place : ℕ} {data : List Elem} (side : Side)
    (enough : data.length ≤ place + fuel) (loose : Loose (rankAt rank data) place)
    (below : FitsBelow (rankAt rank data) place) :
    Heaped (rankAt rank (bubbleDownFrom shouldSwap onSwap fuel data place side).1) := by
  induction fuel generalizing data place side with
  | zero =>
    have outside : FitsAbove (rankAt rank data) place := by
      intro child positive under
      have deeper : place < child := under ▸ parent_lt_of_pos positive
      rw [rankAt_outside (enough.trans deeper.le)]
      exact le_top
    exact heaped_of_loose loose outside below
  | succ fuel hypothesis =>
    unfold bubbleDownFrom
    rcases downTarget_cases orders data place with ⟨stays, above⟩ | ⟨positive, under, lower, lowest⟩
    · simp only [if_pos stays]
      exact heaped_of_loose loose above below
    · obtain ⟨deeper, inside⟩ := downTarget_bounds positive under
      obtain ⟨loose', below'⟩ := loose.sink positive under lower lowest
      rw [← rankAt_swapAt (deeper.trans inside) inside] at loose' below'
      simp only [if_neg (Nat.ne_of_gt deeper)]
      refine hypothesis _ ?_ loose' below'
      rw [length_swapAt (deeper.trans inside) inside]
      omega

section

variable {data : List Elem} (value : Elem) (side : Side) (heaped : Heaped (rankAt rank data))

include heaped

theorem heaped_pushBackWith :
    Heaped (rankAt rank (pushBackWith shouldSwap onSwap data value side).1) := by
  have agree : ∀ place, place ≠ data.length →
      rankAt rank (data ++ [value]) place = rankAt rank data place := by
    intro place apart
    rcases Nat.lt_or_gt_of_ne apart with inside | outside
    · unfold rankAt
      rw [List.getElem?_append_left inside]
    · rw [rankAt_outside outside.le, rankAt_outside]
      rw [List.length_append, List.length_singleton]
      exact outside
  refine heaped_bubbleUpWith orders side le_rfl (loose_of_heaped heaped agree) ?_
  intro child positive under
  have deeper : data.length < child := under ▸ parent_lt_of_pos positive
  rw [agree child (Nat.ne_of_gt deeper), rankAt_outside deeper.le]
  exact le_top

theorem heaped_replaceRootWith :
    Heaped (rankAt rank (replaceRootWith shouldSwap onSwap data value side).1) := by
  refine heaped_bubbleDownFrom orders side ?_
    (loose_of_heaped heaped fun place apart => rankAt_set value apart)
    fun positive => absurd positive (Nat.lt_irrefl 0)
  rw [Nat.zero_add]

end

omit [LinearOrder Rank] orders in
theorem le_bubbleDownFrom (shouldSwap : Elem → Elem → Bool) (onSwap : ℕ → ℕ → Side → Side)
    (fuel : ℕ) (data : List Elem) (place : ℕ) (side : Side) :
    place ≤ (bubbleDownFrom shouldSwap onSwap fuel data place side).2.2 := by
  induction fuel generalizing data place side with
  | zero => exact le_rfl
  | succ fuel hypothesis =>
    unfold bubbleDownFrom
    rcases downTarget_spec shouldSwap data place with stays | ⟨deeper, -⟩
    · simp only [if_pos stays]
      exact le_rfl
    · simp only [if_neg (Nat.ne_of_gt deeper)]
      exact deeper.le.trans (hypothesis _ _ _)

theorem heaped_updateAtWith {data : List Elem} {place : ℕ} (side : Side)
    (loose : Loose (rankAt rank data) place) (inside : place < data.length) :
    Heaped (rankAt rank (updateAtWith shouldSwap onSwap data place side).1) := by
  obtain ⟨fuel, lengthEq⟩ := Nat.exists_eq_succ_of_ne_zero (Nat.ne_zero_of_lt inside)
  unfold updateAtWith bubbleDownWith
  rw [if_neg (Nat.not_le.mpr inside), lengthEq]
  unfold bubbleDownFrom
  rcases downTarget_cases orders data place with ⟨stays, above⟩ | ⟨positive, under, lower, lowest⟩
  · simp only [if_pos stays, ne_eq, not_true_eq_false, decide_false, Bool.false_eq_true, if_false]
    exact heaped_bubbleUpWith orders side le_rfl loose above
  · obtain ⟨deeper, targetInside⟩ := downTarget_bounds positive under
    obtain ⟨loose', below'⟩ := loose.sink positive under lower lowest
    rw [← rankAt_swapAt inside targetInside] at loose' below'
    simp only [if_neg (Nat.ne_of_gt deeper)]
    have moved := deeper.trans_le (le_bubbleDownFrom shouldSwap onSwap fuel
      (swapAt data place (downTarget shouldSwap data place)) (downTarget shouldSwap data place)
      (onSwap place (downTarget shouldSwap data place) side))
    rw [if_pos (decide_eq_true (Nat.ne_of_gt moved))]
    refine heaped_bubbleDownFrom orders _ ?_ loose' below'
    rw [length_swapAt inside targetInside]
    omega

end Arrays

end CommonHeap

end AsapSketchlib
