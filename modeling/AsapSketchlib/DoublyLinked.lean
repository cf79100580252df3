/-
This file develops doubly linked lists whose nodes are named by indices. The links
are two functions, `prev` and `next`, from an index to the neighbouring one or to
nothing; a list of indices is linked by them when every node points at its
neighbours in that list. Inserting a node between two halves and taking one out
touch the links of at most three nodes, and the two rules below say which.

Nothing here names a store: the links may be read off any arena.
-/

import Mathlib.Data.List.Nodup

namespace AsapSketchlib

namespace DoublyLinked

/-- The nodes form a doubly linked segment: the first points back at `before`, the last
forward at `after`, and neighbours point at each other. -/
def Linked {Node : Type} (prev next : Node → Option Node) :
    Option Node → List Node → Option Node → Prop
  | _, [], _ => True
  | before, node :: rest, after =>
      prev node = before ∧ next node = rest.head?.or after ∧ Linked prev next (some node) rest after

variable {Node : Type} {prev next prev' next' : Node → Option Node}

theorem linked_append (before after : Option Node) (front back : List Node) :
    Linked prev next before (front ++ back) after ↔
      Linked prev next before front (back.head?.or after) ∧
        Linked prev next (front.getLast?.or before) back after := by
  induction front generalizing before with
  | nil => simp [Linked]
  | cons node rest hypothesis =>
    have last : ((node :: rest).getLast?).or before = rest.getLast?.or (some node) := by
      simp only [List.getLast?_cons, Option.some_or, Option.or_some]
    have first : (rest ++ back).head?.or after = rest.head?.or (back.head?.or after) := by
      cases rest <;> simp
    simp only [List.cons_append, Linked, hypothesis, last, first, and_assoc]

theorem Linked.congr {before after : Option Node} {nodes : List Node}
    (linked : Linked prev next before nodes after)
    (samePrev : ∀ node ∈ nodes, prev' node = prev node)
    (sameNext : ∀ node ∈ nodes, next' node = next node) :
    Linked prev' next' before nodes after := by
  induction nodes generalizing before with
  | nil => trivial
  | cons node rest hypothesis =>
    obtain ⟨back, forth, tail⟩ := linked
    refine ⟨?_, ?_, hypothesis tail ?_ ?_⟩
    · rw [samePrev node List.mem_cons_self, back]
    · rw [sameNext node List.mem_cons_self, forth]
    · exact fun other member => samePrev other (List.mem_cons_of_mem _ member)
    · exact fun other member => sameNext other (List.mem_cons_of_mem _ member)

theorem Linked.retarget_last {before after after' : Option Node} {nodes : List Node}
    (linked : Linked prev next before nodes after) (distinct : nodes.Nodup)
    (samePrev : ∀ node ∈ nodes, prev' node = prev node)
    (last : ∀ node, nodes.getLast? = some node → next' node = after')
    (sameNext : ∀ node ∈ nodes, nodes.getLast? ≠ some node → next' node = next node) :
    Linked prev' next' before nodes after' := by
  induction nodes generalizing before with
  | nil => trivial
  | cons node rest hypothesis =>
    obtain ⟨back, forth, tail⟩ := linked
    obtain ⟨fresh, restDistinct⟩ := List.nodup_cons.mp distinct
    refine ⟨by rw [samePrev node List.mem_cons_self, back], ?_, ?_⟩
    · cases rest with
      | nil => exact last node rfl
      | cons second others =>
        rw [sameNext node List.mem_cons_self ?_, forth]
        · rfl
        · intro same
          rw [List.getLast?_cons_cons] at same
          exact fresh (List.mem_of_getLast? same)
    · cases rest with
      | nil => trivial
      | cons second others =>
        refine hypothesis tail restDistinct
          (fun other member => samePrev other (List.mem_cons_of_mem _ member)) ?_ ?_
        · intro other same
          exact last other (by rw [List.getLast?_cons_cons]; exact same)
        · intro other member different
          refine sameNext other (List.mem_cons_of_mem _ member) ?_
          rw [List.getLast?_cons_cons]
          exact different

theorem Linked.retarget_head {before before' after : Option Node} {nodes : List Node}
    (linked : Linked prev next before nodes after) (distinct : nodes.Nodup)
    (sameNext : ∀ node ∈ nodes, next' node = next node)
    (head : ∀ node, nodes.head? = some node → prev' node = before')
    (samePrev : ∀ node ∈ nodes, nodes.head? ≠ some node → prev' node = prev node) :
    Linked prev' next' before' nodes after := by
  cases nodes with
  | nil => trivial
  | cons node rest =>
    obtain ⟨back, forth, tail⟩ := linked
    obtain ⟨fresh, -⟩ := List.nodup_cons.mp distinct
    refine ⟨head node rfl, by rw [sameNext node List.mem_cons_self, forth], ?_⟩
    refine tail.congr (fun other member => ?_) fun other member =>
      sameNext other (List.mem_cons_of_mem _ member)
    refine samePrev other (List.mem_cons_of_mem _ member) ?_
    intro same
    rw [List.head?_cons] at same
    exact fresh (Option.some.inj same ▸ member)

/-- A whole list is linked: nothing precedes its first node and nothing follows its last. -/
abbrev LinkedList (prev next : Node → Option Node) (nodes : List Node) : Prop :=
  Linked prev next none nodes none

variable {front back : List Node} {node : Node}

theorem LinkedList.prev_eq (linked : LinkedList prev next (front ++ node :: back)) :
    prev node = front.getLast? := by
  obtain ⟨-, back, -⟩ := (linked_append none none front (node :: back)).mp linked
  rw [back, Option.or_none]

theorem LinkedList.next_eq (linked : LinkedList prev next (front ++ node :: back)) :
    next node = back.head? := by
  obtain ⟨-, -, forth, -⟩ := (linked_append none none front (node :: back)).mp linked
  rw [forth, Option.or_none]

/-- Inserting a node between two halves. Besides the node's own links, only the forward link of
the last node before it and the backward link of the first node after it change. -/
theorem LinkedList.insert (linked : LinkedList prev next (front ++ back))
    (distinct : (front ++ back).Nodup) (nodePrev : prev' node = front.getLast?)
    (nodeNext : next' node = back.head?)
    (lastNext : ∀ other, front.getLast? = some other → next' other = some node)
    (headPrev : ∀ other, back.head? = some other → prev' other = some node)
    (sameNext : ∀ other ∈ front ++ back, front.getLast? ≠ some other → next' other = next other)
    (samePrev : ∀ other ∈ front ++ back, back.head? ≠ some other → prev' other = prev other) :
    LinkedList prev' next' (front ++ node :: back) := by
  obtain ⟨frontDistinct, backDistinct, apart⟩ := List.nodup_append.mp distinct
  obtain ⟨frontLinked, backLinked⟩ := (linked_append none none front back).mp linked
  refine (linked_append none none front (node :: back)).mpr ⟨?_, ?_, ?_, ?_⟩
  · refine frontLinked.retarget_last frontDistinct ?_ lastNext ?_
    · intro other member
      refine samePrev other (List.mem_append_left _ member) fun same => ?_
      exact apart other member other (List.mem_of_head? same) rfl
    · exact fun other member => sameNext other (List.mem_append_left _ member)
  · rw [nodePrev, Option.or_none]
  · rw [nodeNext, Option.or_none]
  · refine backLinked.retarget_head backDistinct ?_ headPrev ?_
    · intro other member
      refine sameNext other (List.mem_append_right _ member) fun same => ?_
      exact apart other (List.mem_of_getLast? same) other member rfl
    · exact fun other member => samePrev other (List.mem_append_right _ member)

/-- Taking a node out. Only the forward link of the node before it and the backward link of the
node after it change. -/
theorem LinkedList.remove (linked : LinkedList prev next (front ++ node :: back))
    (distinct : (front ++ node :: back).Nodup)
    (lastNext : ∀ other, front.getLast? = some other → next' other = back.head?)
    (headPrev : ∀ other, back.head? = some other → prev' other = front.getLast?)
    (sameNext : ∀ other ∈ front ++ back, front.getLast? ≠ some other → next' other = next other)
    (samePrev : ∀ other ∈ front ++ back, back.head? ≠ some other → prev' other = prev other) :
    LinkedList prev' next' (front ++ back) := by
  obtain ⟨frontDistinct, nodeBack, apart⟩ := List.nodup_append.mp distinct
  obtain ⟨-, backDistinct⟩ := List.nodup_cons.mp nodeBack
  obtain ⟨frontLinked, -, -, backLinked⟩ := (linked_append none none front (node :: back)).mp linked
  refine (linked_append none none front back).mpr ⟨?_, ?_⟩
  · refine frontLinked.retarget_last frontDistinct ?_ ?_ ?_
    · intro other member
      refine samePrev other (List.mem_append_left _ member) fun same => ?_
      exact apart other member other (List.mem_cons_of_mem _ (List.mem_of_head? same)) rfl
    · intro other same
      rw [lastNext other same, Option.or_none]
    · exact fun other member => sameNext other (List.mem_append_left _ member)
  · refine backLinked.retarget_head backDistinct ?_ ?_ ?_
    · intro other member
      refine sameNext other (List.mem_append_right _ member) fun same => ?_
      exact apart other (List.mem_of_getLast? same) other (List.mem_cons_of_mem _ member) rfl
    · intro other same
      rw [headPrev other same, Option.or_none]
    · exact fun other member => samePrev other (List.mem_append_right _ member)

end DoublyLinked

end AsapSketchlib
