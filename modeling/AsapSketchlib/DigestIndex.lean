/-
This file develops the index the bounded summaries keep beside an array: a hash map from
a digest to the positions that carry it. Positions that share a digest share a slot, and
a slot that empties leaves the map.

An index files an array when the slot of a digest holds exactly the positions with that
digest, each once, and no slot is empty. Each way of changing an index files the array
changed in the same way.
-/

import Mathlib.Data.List.Nodup

namespace AsapSketchlib

abbrev DigestIndex (Digest : Type) := Digest → Option (List ℕ)

/-- `swap_remove`: the last element takes the place of the one removed. -/
def swapRemove {Elem : Type} (elems : List Elem) (place : ℕ) : List Elem :=
  match elems.getLast? with
  | none => []
  | some last => (elems.set place last).dropLast

theorem swapRemove_perm {Elem : Type} {elems : List Elem} {place : ℕ}
    (inside : place < elems.length) : (swapRemove elems place).Perm (elems.eraseIdx place) := by
  rcases List.eq_nil_or_concat elems with rfl | ⟨front, last, rfl⟩
  · exact absurd inside (Nat.not_lt_zero _)
  · have lastEq : (front ++ [last]).getLast? = some last := List.getLast?_concat
    rw [List.concat_eq_append] at inside ⊢
    simp only [swapRemove, lastEq]
    rw [List.length_append, List.length_singleton] at inside
    rcases Nat.lt_succ_iff_lt_or_eq.mp inside with below | rfl
    · rw [List.set_append_left _ _ below, List.dropLast_concat,
        List.eraseIdx_append_of_lt_length below, List.set_eq_take_append_cons_drop, if_pos below,
        List.eraseIdx_eq_take_drop_succ]
      exact List.perm_middle.trans (List.perm_append_singleton _ _).symm
    · rw [List.set_append_right _ _ (Nat.le_refl _), Nat.sub_self, List.set_cons_zero, List.dropLast_concat,
        List.eraseIdx_append_of_length_le (Nat.le_refl _), Nat.sub_self, List.eraseIdx_cons_zero,
        List.append_nil]

theorem replace_of_mem {elems : List ℕ} {source target : ℕ} (member : source ∈ elems)
    (distinct : elems.Nodup) (fresh : target ∉ elems) :
    (elems.replace source target).Nodup ∧
      ∀ node, node ∈ elems.replace source target ↔ node ∈ elems ∧ node ≠ source ∨ node = target := by
  induction elems with
  | nil => exact absurd member List.not_mem_nil
  | cons first rest hypothesis =>
    obtain ⟨apart, restDistinct⟩ := List.nodup_cons.mp distinct
    rw [List.mem_cons, not_or] at fresh
    by_cases same : source = first
    · subst same
      rw [List.replace_cons_self]
      refine ⟨List.nodup_cons.mpr ⟨fresh.2, restDistinct⟩, fun node => ?_⟩
      rw [List.mem_cons, List.mem_cons]
      constructor
      · rintro (rfl | member)
        · exact Or.inr rfl
        · exact Or.inl ⟨Or.inr member, fun same => apart (same ▸ member)⟩
      · rintro (⟨rfl | member, different⟩ | rfl)
        · exact absurd rfl different
        · exact Or.inr member
        · exact Or.inl rfl
    · have memberRest : source ∈ rest := (List.mem_cons.mp member).resolve_left same
      obtain ⟨nodup, members⟩ := hypothesis memberRest restDistinct fresh.2
      rw [List.replace_cons, beq_eq_false_iff_ne.mpr same]
      refine ⟨List.nodup_cons.mpr ⟨?_, nodup⟩, fun node => ?_⟩
      · intro inRest
        rcases (members first).mp inRest with ⟨inRest, -⟩ | equal
        · exact apart inRest
        · exact fresh.1 equal.symm
      · show node ∈ first :: rest.replace source target ↔ _
        rw [List.mem_cons, members, List.mem_cons]
        constructor
        · rintro (rfl | ⟨member, different⟩ | rfl)
          · exact Or.inl ⟨Or.inl rfl, Ne.symm same⟩
          · exact Or.inl ⟨Or.inr member, different⟩
          · exact Or.inr rfl
        · rintro (⟨rfl | member, different⟩ | rfl)
          · exact Or.inl rfl
          · exact Or.inr (Or.inl ⟨member, different⟩)
          · exact Or.inr (Or.inr rfl)

namespace DigestIndex

variable {Digest : Type} [DecidableEq Digest]

def slot (index : DigestIndex Digest) (digest : Digest) : List ℕ := (index digest).getD []

/-- `entry(digest).or_default().push(position)`. -/
def push (index : DigestIndex Digest) (digest : Digest) (position : ℕ) : DigestIndex Digest :=
  Function.update index digest (some (slot index digest ++ [position]))

/-- Stores a changed slot, or takes it out of the map once empty. -/
def store (index : DigestIndex Digest) (digest : Digest) (kept : List ℕ) : DigestIndex Digest :=
  Function.update index digest (if kept = [] then none else some kept)

/-- Takes a position off the slot of a digest with `retain`. -/
def retainOthers (index : DigestIndex Digest) (digest : Digest) (position : ℕ) :
    DigestIndex Digest :=
  match index digest with
  | none => index
  | some ids => store index digest (ids.filter fun id => id ≠ position)

/-- Takes a position off the slot of a digest with `swap_remove`. -/
def dropEntry (index : DigestIndex Digest) (digest : Digest) (position : ℕ) : DigestIndex Digest :=
  match index digest with
  | none => index
  | some ids =>
    if position ∈ ids then store index digest (swapRemove ids (ids.idxOf position))
    else store index digest ids

/-- Redirects the entry of one position to another. -/
def retarget (index : DigestIndex Digest) (digest : Digest) (source target : ℕ) :
    DigestIndex Digest :=
  match index digest with
  | none => index
  | some ids => Function.update index digest (some (ids.replace source target))

/-- The index files the positions under the given digests. -/
structure Files (index : DigestIndex Digest) (digests : ℕ → Option Digest) : Prop where
  filed : ∀ digest position, position ∈ slot index digest ↔ digests position = some digest
  once : ∀ digest ids, index digest = some ids → ids.Nodup
  occupied : ∀ digest ids, index digest = some ids → ids ≠ []

omit [DecidableEq Digest] in
theorem Files.empty : Files (fun _ : Digest => none) fun _ => none :=
  ⟨fun digest position => by simp [slot], by simp, by simp⟩

namespace Files

variable {index : DigestIndex Digest} {digests : ℕ → Option Digest}

omit [DecidableEq Digest] in
theorem nodup (files : Files index digests) (digest : Digest) : (slot index digest).Nodup := by
  unfold slot
  cases known : index digest with
  | none => exact List.nodup_nil
  | some ids => exact files.once digest ids known

omit [DecidableEq Digest] in
theorem exists_slot (files : Files index digests) {digest : Digest} {position : ℕ}
    (known : digests position = some digest) :
    ∃ ids, index digest = some ids ∧ position ∈ ids ∧ ids.Nodup := by
  have inSlot := (files.filed digest position).mpr known
  unfold slot at inSlot
  cases slotEq : index digest with
  | none =>
    rw [slotEq] at inSlot
    exact absurd inSlot (by simp)
  | some ids =>
    rw [slotEq] at inSlot
    exact ⟨ids, rfl, inSlot, files.once digest ids slotEq⟩

theorem push (files : Files index digests) (digest : Digest) {position : ℕ}
    (fresh : digests position = none) :
    Files (push index digest position) (Function.update digests position (some digest)) := by
  have absent : position ∉ slot index digest := fun inSlot => by
    rw [files.filed, fresh] at inSlot
    exact absurd inSlot (by simp)
  refine ⟨?_, ?_, ?_⟩
  · intro other node
    unfold DigestIndex.push
    by_cases sameDigest : other = digest
    · subst sameDigest
      rw [slot, Function.update_self, Option.getD_some, List.mem_append, List.mem_singleton,
        files.filed]
      by_cases sameNode : node = position
      · subst sameNode
        simp
      · rw [Function.update_of_ne sameNode]
        simp [sameNode]
    · rw [slot, Function.update_of_ne sameDigest, ← slot, files.filed]
      by_cases sameNode : node = position
      · subst sameNode
        rw [Function.update_self, fresh]
        simp [Ne.symm sameDigest]
      · rw [Function.update_of_ne sameNode]
  · intro other ids found
    unfold DigestIndex.push at found
    by_cases sameDigest : other = digest
    · subst sameDigest
      rw [Function.update_self] at found
      rw [← Option.some.inj found]
      refine List.nodup_append.mpr ⟨files.nodup other, List.nodup_singleton _, ?_⟩
      rintro left leftMember right rightMember rfl
      exact absent (List.mem_singleton.mp rightMember ▸ leftMember)
    · rw [Function.update_of_ne sameDigest] at found
      exact files.once other ids found
  · intro other ids found
    unfold DigestIndex.push at found
    by_cases sameDigest : other = digest
    · subst sameDigest
      rw [Function.update_self] at found
      rw [← Option.some.inj found]
      simp
    · rw [Function.update_of_ne sameDigest] at found
      exact files.occupied other ids found

/-- Storing what is left of a slot once one of its positions is gone. -/
theorem store (files : Files index digests) {digest : Digest} {position : ℕ} {kept : List ℕ}
    (known : digests position = some digest) (distinct : kept.Nodup)
    (members : ∀ node, node ∈ kept ↔ node ∈ slot index digest ∧ node ≠ position) :
    Files (store index digest kept) (Function.update digests position none) := by
  have slotMembers : ∀ node, node ∈ slot (DigestIndex.store index digest kept) digest ↔
      node ∈ kept := by
    intro node
    unfold DigestIndex.store
    rw [slot, Function.update_self]
    by_cases empty : kept = []
    · rw [if_pos empty, empty]
      rfl
    · rw [if_neg empty]
      rfl
  refine ⟨?_, ?_, ?_⟩
  · intro other node
    by_cases sameDigest : other = digest
    · subst sameDigest
      rw [slotMembers, members, files.filed]
      by_cases sameNode : node = position
      · subst sameNode
        simp
      · rw [Function.update_of_ne sameNode]
        simp [sameNode]
    · unfold DigestIndex.store
      rw [slot, Function.update_of_ne sameDigest, ← slot, files.filed]
      by_cases sameNode : node = position
      · subst sameNode
        rw [Function.update_self, known]
        simp [Ne.symm sameDigest]
      · rw [Function.update_of_ne sameNode]
  · intro other ids found
    unfold DigestIndex.store at found
    by_cases sameDigest : other = digest
    · subst sameDigest
      rw [Function.update_self] at found
      split at found
      · exact absurd found (by simp)
      · rw [← Option.some.inj found]
        exact distinct
    · rw [Function.update_of_ne sameDigest] at found
      exact files.once other ids found
  · intro other ids found
    unfold DigestIndex.store at found
    by_cases sameDigest : other = digest
    · subst sameDigest
      rw [Function.update_self] at found
      split at found
      · exact absurd found (by simp)
      · rename_i something
        rw [← Option.some.inj found]
        exact something
    · rw [Function.update_of_ne sameDigest] at found
      exact files.occupied other ids found

theorem retainOthers (files : Files index digests) {digest : Digest} {position : ℕ}
    (known : digests position = some digest) :
    Files (retainOthers index digest position) (Function.update digests position none) := by
  obtain ⟨ids, slotEq, -, distinct⟩ := files.exists_slot known
  unfold DigestIndex.retainOthers
  rw [slotEq]
  refine files.store known (distinct.filter _) fun node => ?_
  rw [slot, slotEq, Option.getD_some, List.mem_filter, decide_eq_true_iff]

theorem dropEntry (files : Files index digests) {digest : Digest} {position : ℕ}
    (known : digests position = some digest) :
    Files (dropEntry index digest position) (Function.update digests position none) := by
  obtain ⟨ids, slotEq, member, distinct⟩ := files.exists_slot known
  have perm : (swapRemove ids (ids.idxOf position)).Perm (ids.erase position) := by
    rw [← List.eraseIdx_idxOf_eq_erase]
    exact swapRemove_perm (List.idxOf_lt_length_of_mem member)
  simp only [DigestIndex.dropEntry, slotEq, if_pos member]
  refine files.store known (perm.nodup_iff.mpr (distinct.erase _)) fun node => ?_
  rw [perm.mem_iff, distinct.mem_erase_iff, slot, slotEq, Option.getD_some, and_comm]

/-- Redirecting the entries of two positions with different digests to each other. -/
theorem swap (files : Files index digests) {left right : Digest} {first second : ℕ}
    (different : left ≠ right) (knownFirst : digests first = some left)
    (knownSecond : digests second = some right) :
    Files (retarget (retarget index left first second) right second first)
      (Function.update (Function.update digests first (some right)) second (some left)) := by
  obtain ⟨leftIds, leftEq, leftMember, leftDistinct⟩ := files.exists_slot knownFirst
  obtain ⟨rightIds, rightEq, rightMember, rightDistinct⟩ := files.exists_slot knownSecond
  have apart : first ≠ second := by
    rintro rfl
    exact different (Option.some.inj (knownFirst.symm.trans knownSecond))
  have leftFiled : ∀ node, node ∈ leftIds ↔ digests node = some left := fun node => by
    rw [← files.filed, slot, leftEq, Option.getD_some]
  have rightFiled : ∀ node, node ∈ rightIds ↔ digests node = some right := fun node => by
    rw [← files.filed, slot, rightEq, Option.getD_some]
  have leftFresh : second ∉ leftIds := fun member => by
    rw [leftFiled, knownSecond] at member
    exact different (Option.some.inj member).symm
  have rightFresh : first ∉ rightIds := fun member => by
    rw [rightFiled, knownFirst] at member
    exact different (Option.some.inj member)
  obtain ⟨leftNodup, leftMembers⟩ := replace_of_mem leftMember leftDistinct leftFresh
  obtain ⟨rightNodup, rightMembers⟩ := replace_of_mem rightMember rightDistinct rightFresh
  have shape : retarget (retarget index left first second) right second first =
      Function.update (Function.update index left (some (leftIds.replace first second))) right
        (some (rightIds.replace second first)) := by
    have kept : Function.update index left (some (leftIds.replace first second)) right =
        some rightIds := by
      rw [Function.update_of_ne different.symm, rightEq]
    simp only [retarget, leftEq, kept]
  rw [shape]
  refine ⟨?_, ?_, ?_⟩
  · intro digest node
    by_cases isRight : digest = right
    · subst isRight
      rw [slot, Function.update_self, Option.getD_some, rightMembers, rightFiled]
      by_cases isSecond : node = second
      · subst isSecond
        simp [different, Ne.symm apart]
      · rw [Function.update_of_ne isSecond]
        by_cases isFirst : node = first
        · subst isFirst
          simp
        · rw [Function.update_of_ne isFirst]
          simp [isFirst, isSecond]
    · by_cases isLeft : digest = left
      · subst isLeft
        rw [slot, Function.update_of_ne isRight, Function.update_self, Option.getD_some, leftMembers,
          leftFiled]
        by_cases isSecond : node = second
        · subst isSecond
          simp
        · rw [Function.update_of_ne isSecond]
          by_cases isFirst : node = first
          · subst isFirst
            simp [isSecond, Ne.symm isRight]
          · rw [Function.update_of_ne isFirst]
            simp [isFirst, isSecond]
      · rw [slot, Function.update_of_ne isRight, Function.update_of_ne isLeft, ← slot, files.filed]
        by_cases isSecond : node = second
        · subst isSecond
          rw [Function.update_self, knownSecond]
          simp [Ne.symm isRight, Ne.symm isLeft]
        · rw [Function.update_of_ne isSecond]
          by_cases isFirst : node = first
          · subst isFirst
            rw [Function.update_self, knownFirst]
            simp [Ne.symm isRight, Ne.symm isLeft]
          · rw [Function.update_of_ne isFirst]
  · intro digest ids found
    by_cases isRight : digest = right
    · subst isRight
      rw [Function.update_self] at found
      exact Option.some.inj found ▸ rightNodup
    · rw [Function.update_of_ne isRight] at found
      by_cases isLeft : digest = left
      · subst isLeft
        rw [Function.update_self] at found
        exact Option.some.inj found ▸ leftNodup
      · rw [Function.update_of_ne isLeft] at found
        exact files.once digest ids found
  · intro digest ids found
    by_cases isRight : digest = right
    · subst isRight
      rw [Function.update_self] at found
      rw [← Option.some.inj found]
      exact List.ne_nil_of_mem ((rightMembers first).mpr (Or.inr rfl))
    · rw [Function.update_of_ne isRight] at found
      by_cases isLeft : digest = left
      · subst isLeft
        rw [Function.update_self] at found
        rw [← Option.some.inj found]
        exact List.ne_nil_of_mem ((leftMembers second).mpr (Or.inr rfl))
      · rw [Function.update_of_ne isLeft] at found
        exact files.occupied digest ids found

end Files

end DigestIndex

end AsapSketchlib
