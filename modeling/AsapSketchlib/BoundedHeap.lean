/-
This file models the bounded heap itself, with its capacity and its two orders, and proves what it
promises: the array stays in heap order, popping returns the extreme element, and of a list pushed
into an empty heap the extreme elements are retained. The two orders are one order and its dual.
-/

import AsapSketchlib.HeapOrder
import AsapSketchlib.Largest
import Mathlib.Data.List.Induction

namespace AsapSketchlib

/-- The `CommonHeapOrder` trait: when a parent and a child are exchanged, and when a new value
replaces the root of a full heap. -/
structure CommonHeapOrder (Elem : Type) where
  shouldSwap : Elem → Elem → Bool
  shouldReplaceRoot : Elem → Elem → Bool

/-- Root is the smallest value; a bounded heap retains the largest values. -/
def keepSmallest (Elem : Type) [LinearOrder Elem] : CommonHeapOrder Elem where
  shouldSwap parent child := child < parent
  shouldReplaceRoot root newValue := root < newValue

/-- Root is the largest value; a bounded heap retains the smallest values. -/
def keepLargest (Elem : Type) [LinearOrder Elem] : CommonHeapOrder Elem where
  shouldSwap parent child := parent < child
  shouldReplaceRoot root newValue := newValue < root

/-- Capacity-bounded binary heap with pluggable ordering. -/
structure CommonHeap (Elem : Type) where
  data : List Elem
  size : ℕ
  order : CommonHeapOrder Elem

namespace CommonHeap

variable {Elem : Type}

def withCapacity (capacity : ℕ) (order : CommonHeapOrder Elem) : CommonHeap Elem :=
  ⟨[], capacity, order⟩

/-- The swaps of these operations are reported to nobody. -/
def unreported (_ _ : ℕ) (side : Unit) : Unit := side

/-- Inserts an element. At capacity the root is replaced if appropriate. -/
def push (heap : CommonHeap Elem) (value : Elem) : CommonHeap Elem :=
  if heap.data.length < heap.size then
    { heap with
      data := (pushBackWith heap.order.shouldSwap unreported heap.data value ()).1 }
  else
    match heap.data with
    | [] => heap
    | root :: _ =>
      if heap.order.shouldReplaceRoot root value = true then
        { heap with
          data := (replaceRootWith heap.order.shouldSwap unreported heap.data value ()).1 }
      else heap

/-- `data.swap_remove(0)` of an array of two elements or more: the last one takes the place of the
first. -/
def swapRemoveRoot (second : Elem) (rest : List Elem) : List Elem :=
  (second :: rest).getLast (List.cons_ne_nil _ _) :: (second :: rest).dropLast

def pop (heap : CommonHeap Elem) : Option Elem × CommonHeap Elem :=
  match heap.data with
  | [] => (none, heap)
  | [only] => (some only, { heap with data := [] })
  | root :: second :: rest =>
    let removed := swapRemoveRoot second rest
    (some root, { heap with
      data := (bubbleDownWith heap.order.shouldSwap unreported removed 0 ()).1 })

def updateAt (heap : CommonHeap Elem) (index : ℕ) : CommonHeap Elem :=
  { heap with data := (updateAtWith heap.order.shouldSwap unreported heap.data index ()).1 }

inductive Operation (Elem : Type) where
  | push (value : Elem)
  | pop
  | updateAt (index : ℕ)

def perform (heap : CommonHeap Elem) : Operation Elem → CommonHeap Elem
  | .push value => heap.push value
  | .pop => heap.pop.2
  | .updateAt index => heap.updateAt index

def pushAll (heap : CommonHeap Elem) (values : List Elem) : CommonHeap Elem :=
  values.foldl push heap

def ran (capacity : ℕ) (order : CommonHeapOrder Elem) (operations : List (Operation Elem)) :
    CommonHeap Elem :=
  operations.foldl perform (withCapacity capacity order)

/-- What a heap promises under an order in which its elements leave: the order holds at every index,
popping returns the first element, and the last ones of a list are retained. -/
structure Promises (order : CommonHeapOrder Elem) (ahead : Elem → Elem → Prop)
    [DecidableRel ahead] : Prop where
  ordered : ∀ capacity operations index above below, 0 < index →
    (ran capacity order operations).data[parent index]? = some above →
    (ran capacity order operations).data[index]? = some below → ahead above below
  popped : ∀ capacity operations,
    (ran capacity order operations).pop.1 = (ran capacity order operations).data.head? ∧
      ∀ root, (ran capacity order operations).pop.1 = some root →
        (∀ value ∈ (ran capacity order operations).data, ahead root value) ∧
          (ran capacity order operations).data.Perm
            (root :: (ran capacity order operations).pop.2.data)
  retained : ∀ capacity values, ((withCapacity capacity order).pushAll values).data.Perm
    ((values.mergeSort fun left right => ahead right left).take capacity)

/-! ### The heap whose root is the smallest -/

section Smallest

variable [LinearOrder Elem] {heap : CommonHeap Elem}

/-- The array is in heap order and within its capacity. -/
structure InOrder (heap : CommonHeap Elem) : Prop where
  order : heap.order = keepSmallest Elem
  heaped : Heaped (rankAt id heap.data)
  fits : heap.data.length ≤ heap.size

theorem orders_keepSmallest : Orders (keepSmallest Elem).shouldSwap id := fun _ _ => rfl

omit [LinearOrder Elem] in
theorem follows_unreported : Follows unreported fun (_ : List Elem) (_ : Unit) => True :=
  fun _ _ _ _ _ _ _ _ => trivial

theorem InOrder.shouldSwap (ordered : InOrder heap) : Orders heap.order.shouldSwap id := by
  rw [ordered.order]
  exact orders_keepSmallest

theorem inOrder_withCapacity (capacity : ℕ) :
    InOrder (withCapacity capacity (keepSmallest Elem)) :=
  ⟨rfl, fun _ _ => le_top, Nat.zero_le _⟩

theorem InOrder.root_le (ordered : InOrder heap) {root : Elem} {rest : List Elem}
    (split : heap.data = root :: rest) {value : Elem} (member : value ∈ heap.data) :
    root ≤ value := by
  obtain ⟨place, valueEq⟩ := List.getElem?_of_mem member
  have least := ordered.heaped.root_le place
  unfold rankAt at least
  rw [valueEq, split, List.getElem?_cons_zero] at least
  exact WithTop.coe_le_coe.mp least

theorem InOrder.le_of_parent (ordered : InOrder heap) {index : ℕ} {above below : Elem}
    (positive : 0 < index) (aboveEq : heap.data[parent index]? = some above)
    (belowEq : heap.data[index]? = some below) : above ≤ below := by
  have fits := ordered.heaped index positive
  unfold rankAt at fits
  rw [aboveEq, belowEq] at fits
  exact WithTop.coe_le_coe.mp fits

theorem heaped_take {data : List Elem} (heaped : Heaped (rankAt id data)) (count : ℕ) :
    Heaped (rankAt id (data.take count)) := by
  intro child positive
  rcases Nat.lt_or_ge child count with inside | outside
  · have parentInside := (parent_lt_of_pos positive).trans inside
    unfold rankAt
    rw [List.getElem?_take_of_lt inside, List.getElem?_take_of_lt parentInside]
    exact heaped child positive
  · rw [rankAt_outside ((List.length_take_le _ _).trans outside)]
    exact le_top

/-- The steps of a push: the value is appended, it takes the place of a smaller root, or it is
refused. -/
theorem InOrder.push_cases (ordered : InOrder heap) (value : Elem) :
    (heap.data.length < heap.size ∧ (heap.push value).data.Perm (value :: heap.data)) ∨
    (heap.data.length = heap.size ∧ ∃ root rest, heap.data = root :: rest ∧ root < value ∧
      (heap.push value).data.Perm (value :: rest)) ∨
    (heap.data.length = heap.size ∧ (∀ other ∈ heap.data, value ≤ other) ∧
      heap.push value = heap) := by
  unfold push
  by_cases room : heap.data.length < heap.size
  · rw [if_pos room]
    refine Or.inl ⟨room, ?_⟩
    have appended := (@pushBackWith_aligned _ _ heap.order.shouldSwap _ _
      follows_unreported heap.data value () trivial).1
    exact appended.trans (List.perm_append_singleton value heap.data)
  · have full : heap.data.length = heap.size := le_antisymm ordered.fits (Nat.le_of_not_lt room)
    rw [if_neg room]
    refine Or.inr ?_
    split
    · rename_i empty
      refine Or.inr ⟨full, fun other member => ?_, rfl⟩
      rw [empty] at member
      exact absurd member List.not_mem_nil
    · rename_i root rest split
      have replaces : heap.order.shouldReplaceRoot root value = decide (root < value) := by
        rw [ordered.order]
        rfl
      rw [replaces]
      by_cases larger : root < value
      · rw [if_pos (decide_eq_true larger)]
        refine Or.inl ⟨full, root, rest, split, larger, ?_⟩
        have replaced := (@replaceRootWith_aligned _ _ heap.order.shouldSwap _ _
          follows_unreported heap.data value () trivial).1
        rwa [show heap.data.set 0 value = value :: rest by rw [split, List.set_cons_zero]]
          at replaced
      · rw [if_neg (fun replace => larger (of_decide_eq_true replace))]
        exact Or.inr ⟨full, fun other member => (not_lt.mp larger).trans
          (ordered.root_le split member), rfl⟩

omit [LinearOrder Elem] in
theorem push_size (heap : CommonHeap Elem) (value : Elem) : (heap.push value).size = heap.size := by
  unfold push
  split
  · rfl
  · split
    · rfl
    · split
      · rfl
      · rfl

theorem inOrder_push (ordered : InOrder heap) (value : Elem) : InOrder (heap.push value) := by
  have lengths : (heap.push value).data.length ≤ heap.size := by
    rcases ordered.push_cases value with ⟨room, grown⟩ | ⟨full, root, rest, split, -, replaced⟩ |
      ⟨full, -, same⟩
    · exact grown.length_eq.trans_le room
    · rw [split] at full
      exact (replaced.length_eq.trans full).le
    · rw [same]
      exact full.le
  have kept : (heap.push value).order = heap.order ∧ (heap.push value).size = heap.size := by
    unfold push
    split
    · exact ⟨rfl, rfl⟩
    · split
      · exact ⟨rfl, rfl⟩
      · split
        · exact ⟨rfl, rfl⟩
        · exact ⟨rfl, rfl⟩
  refine ⟨kept.1.trans ordered.order, ?_, kept.2 ▸ lengths⟩
  unfold push
  split
  · exact heaped_pushBackWith ordered.shouldSwap value () ordered.heaped
  · split
    · exact ordered.heaped
    · split
      · exact heaped_replaceRootWith ordered.shouldSwap value () ordered.heaped
      · exact ordered.heaped

omit [LinearOrder Elem] in
theorem swapRemoveRoot_perm (second : Elem) (rest : List Elem) :
    (swapRemoveRoot second rest).Perm (second :: rest) := by
  have split := List.dropLast_append_getLast (List.cons_ne_nil second rest)
  unfold swapRemoveRoot
  refine (List.perm_append_singleton _ _).symm.trans ?_
  rw [split]

/-- Popping a heap returns a smallest element and leaves a heap of the others. -/
theorem inOrder_pop (ordered : InOrder heap) :
    InOrder heap.pop.2 ∧ heap.pop.1 = heap.data.head? ∧ ∀ root, heap.pop.1 = some root →
      (∀ value ∈ heap.data, root ≤ value) ∧ heap.data.Perm (root :: heap.pop.2.data) := by
  unfold pop
  split
  · rename_i empty
    rw [empty]
    exact ⟨ordered, rfl, fun _ impossible => absurd impossible.symm (Option.some_ne_none _)⟩
  · rename_i only single
    refine ⟨⟨ordered.order, fun _ _ => le_top, Nat.zero_le _⟩, ?_, fun root isRoot => ?_⟩
    · rw [single]
      rfl
    · obtain rfl := Option.some.inj isRoot
      refine ⟨fun value => ordered.root_le single, ?_⟩
      rw [single]
  · rename_i root second rest split
    have lowered := (@bubbleDownFrom_aligned _ _ heap.order.shouldSwap _ _ follows_unreported
      (swapRemoveRoot second rest).length (swapRemoveRoot second rest) 0 () trivial).1
    have others := lowered.trans (swapRemoveRoot_perm second rest)
    refine ⟨⟨ordered.order, ?_, ?_⟩, ?_, fun top isTop => ?_⟩
    · have before := heaped_take ordered.heaped (heap.data.length - 1)
      have agree : ∀ place, place ≠ 0 → rankAt id (swapRemoveRoot second rest) place =
          rankAt id (heap.data.take (heap.data.length - 1)) place := by
        intro place positive
        rw [← List.dropLast_eq_take, split, List.dropLast_cons_cons]
        unfold rankAt swapRemoveRoot
        cases place with
        | zero => exact absurd rfl positive
        | succ place => rw [List.getElem?_cons_succ, List.getElem?_cons_succ]
      exact heaped_bubbleDownFrom ordered.shouldSwap () (Nat.le_add_left _ _)
        (loose_of_heaped before agree) fun positive => absurd positive (Nat.lt_irrefl 0)
    · have fits := ordered.fits
      rw [split, List.length_cons] at fits
      exact others.length_eq.trans_le (Nat.le_of_succ_le fits)
    · rw [split]
      rfl
    · obtain rfl := Option.some.inj isTop
      refine ⟨fun value => ordered.root_le split, ?_⟩
      rw [split]
      exact (others.cons root).symm

theorem inOrder_updateAt (ordered : InOrder heap) (index : ℕ) : InOrder (heap.updateAt index) := by
  have perm := (@updateAtWith_aligned _ _ heap.order.shouldSwap _ _ follows_unreported heap.data
    index () trivial).1
  refine ⟨ordered.order, ?_, perm.length_eq.trans_le ordered.fits⟩
  by_cases inside : index < heap.data.length
  · exact heaped_updateAtWith ordered.shouldSwap ()
      (loose_of_heaped ordered.heaped fun _ _ => rfl) inside
  · unfold updateAt updateAtWith
    rw [if_pos (Nat.le_of_not_lt inside)]
    exact ordered.heaped

theorem inOrder_perform (ordered : InOrder heap) (operation : Operation Elem) :
    InOrder (heap.perform operation) := by
  cases operation with
  | push value => exact inOrder_push ordered value
  | pop => exact (inOrder_pop ordered).1
  | updateAt index => exact inOrder_updateAt ordered index

theorem inOrder_ran (capacity : ℕ) (operations : List (Operation Elem)) :
    InOrder (ran capacity (keepSmallest Elem) operations) := by
  unfold ran
  induction operations using List.reverseRecOn with
  | nil => exact inOrder_withCapacity capacity
  | append_singleton earlier operation hypothesis =>
    rw [List.foldl_append]
    exact inOrder_perform hypothesis operation

theorem largest_push (ordered : InOrder heap) {offered lost : List Elem}
    (largest : Largest heap.size offered heap.data lost) (value : Elem) :
    ∃ lost, Largest heap.size (value :: offered) (heap.push value).data lost := by
  rcases ordered.push_cases value with ⟨room, grown⟩ | ⟨full, root, rest, split, larger, replaced⟩ |
    ⟨full, low, same⟩
  · exact ⟨[], (largest.grow value room).of_perm grown⟩
  · have smallest : ∀ other ∈ rest, root ≤ other := fun other member =>
      ordered.root_le split (by rw [split]; exact List.mem_cons_of_mem root member)
    rw [split] at largest full
    exact ⟨root :: lost, (largest.displace full larger smallest).of_perm replaced⟩
  · rw [same]
    exact ⟨value :: lost, largest.refuse full low⟩

theorem largest_pushAll (capacity : ℕ) (values : List Elem) :
    ∃ offered lost, offered.Perm values ∧ Largest capacity offered
      ((withCapacity capacity (keepSmallest Elem)).pushAll values).data lost ∧
        InOrder ((withCapacity capacity (keepSmallest Elem)).pushAll values) ∧
        ((withCapacity capacity (keepSmallest Elem)).pushAll values).size = capacity := by
  induction values using List.reverseRecOn with
  | nil =>
    exact ⟨[], [], List.Perm.refl _, Largest.empty capacity, inOrder_withCapacity capacity, rfl⟩
  | append_singleton earlier value hypothesis =>
    obtain ⟨offered, lost, perm, largest, ordered, sizeEq⟩ := hypothesis
    have pushed : (withCapacity capacity (keepSmallest Elem)).pushAll (earlier ++ [value]) =
        ((withCapacity capacity (keepSmallest Elem)).pushAll earlier).push value := by
      unfold pushAll
      rw [List.foldl_append]
      rfl
    have held : Largest ((withCapacity capacity (keepSmallest Elem)).pushAll earlier).size offered
        ((withCapacity capacity (keepSmallest Elem)).pushAll earlier).data lost := by
      rwa [sizeEq]
    obtain ⟨lost', largest'⟩ := largest_push ordered held value
    rw [sizeEq] at largest'
    rw [pushed]
    exact ⟨value :: offered, lost', (perm.cons value).trans (List.perm_append_singleton _ _).symm,
      largest', inOrder_push ordered value, (push_size _ value).trans sizeEq⟩

end Smallest

theorem promises_keepSmallest (Elem : Type) [LinearOrder Elem] :
    Promises (keepSmallest Elem) (· ≤ ·) where
  ordered := fun capacity operations _ _ _ => (inOrder_ran capacity operations).le_of_parent
  popped := fun capacity operations => (inOrder_pop (inOrder_ran capacity operations)).2
  retained := by
    intro capacity values
    obtain ⟨offered, lost, perm, largest, -⟩ := largest_pushAll capacity values
    have sorted : offered.mergeSort (fun left right => decide (right ≤ left)) =
        values.mergeSort (fun left right => decide (right ≤ left)) := by
      refine List.Perm.eq_of_pairwise' (List.pairwise_mergeSort' (· ≥ ·) offered)
        (List.pairwise_mergeSort' (· ≥ ·) values) ?_
      exact (List.mergeSort_perm _ _).trans (perm.trans (List.mergeSort_perm _ _).symm)
    rw [← sorted]
    exact largest.perm_take

/-! ### The heap whose root is the largest -/

theorem promises_keepLargest (Elem : Type) [LinearOrder Elem] :
    Promises (keepLargest Elem) (· ≥ ·) :=
  promises_keepSmallest Elemᵒᵈ

section Dual

variable [LinearOrder Elem] {heap : CommonHeap Elem}

def InDualOrder (heap : CommonHeap Elem) : Prop := @InOrder Elemᵒᵈ _ heap

theorem inDualOrder_withCapacity (capacity : ℕ) :
    InDualOrder (withCapacity capacity (keepLargest Elem)) :=
  @inOrder_withCapacity Elemᵒᵈ _ capacity

theorem inDualOrder_push (ordered : InDualOrder heap) (value : Elem) :
    InDualOrder (heap.push value) :=
  @inOrder_push Elemᵒᵈ _ heap ordered value

theorem InDualOrder.le_root (ordered : InDualOrder heap) {root : Elem} {rest : List Elem}
    (split : heap.data = root :: rest) {value : Elem} (member : value ∈ heap.data) :
    value ≤ root :=
  @InOrder.root_le Elemᵒᵈ _ heap ordered root rest split value member

/-- The steps of a push: the value is appended, it takes the place of a larger root, or it is
refused. -/
theorem InDualOrder.push_cases (ordered : InDualOrder heap) (value : Elem) :
    (heap.data.length < heap.size ∧ (heap.push value).data.Perm (value :: heap.data)) ∨
    (heap.data.length = heap.size ∧ ∃ root rest, heap.data = root :: rest ∧ value < root ∧
      (heap.push value).data.Perm (value :: rest)) ∨
    (heap.data.length = heap.size ∧ (∀ other ∈ heap.data, other ≤ value) ∧
      heap.push value = heap) :=
  @InOrder.push_cases Elemᵒᵈ _ heap ordered value

end Dual

end CommonHeap

end AsapSketchlib
