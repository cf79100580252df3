/-
This file follows the residents of a heavy-hitter heap while keys are offered to it. An offered
key that is resident afterwards has the offered count; a resident that no offer finds keeps its
own, and stays for as long as there is room.
-/

import AsapSketchlib.HeapRetention

namespace AsapSketchlib

namespace HHHeap

/-! ### One offer -/

/-- No key that equals itself is resident twice. -/
def Single (heap : HHHeap) : Prop := ∀ key, key.isNan = false → (keys heap).count key ≤ 1

theorem single_new (k : ℕ) : Single (new k) := fun _ _ => Nat.zero_le 1

theorem exists_rest {before : HHHeap} {idx : ℕ} {item : HHItem}
    (resident : before.heap[idx]? = some item) (changed : HHItem) :
    ∃ rest, before.heap.Perm (item :: rest) ∧ (before.heap.set idx changed).Perm (changed :: rest) := by
  obtain ⟨inside, rfl⟩ := List.getElem?_eq_some_iff.mp resident
  exact ⟨before.heap.eraseIdx idx, (List.getElem_cons_eraseIdx_perm inside).symm,
    List.set_perm_cons_eraseIdx inside changed⟩

/-- Where an offer lands: the heap is as before, or it holds the offered entry and other residents,
none of them under the key. -/
theorem Offered.lands {before after : HHHeap} {key : HeapItem} {count : ℤ} {flag : Bool}
    (offered : Offered before key count after flag) (single : Single before) :
    (after = before ∧ (key.isNan = false → key ∉ keys before)) ∨
      ∃ rest, after.heap.Perm (⟨key, count⟩ :: rest) ∧ rest.Subperm before.heap ∧
        (key.isNan = false → key ∉ rest.map HHItem.key) := by
  cases offered with
  | rescored idx item resident same perm =>
    subst same
    obtain ⟨rest, beforePerm, afterPerm⟩ := exists_rest resident ⟨item.key, count⟩
    refine Or.inr ⟨rest, perm.trans afterPerm, ?_, fun number member => ?_⟩
    · exact (List.sublist_cons_self item rest).subperm.trans beforePerm.symm.subperm
    · have once := single item.key number
      rw [keys, (beforePerm.map HHItem.key).count_eq, List.map_cons, List.count_cons_self] at once
      exact absurd (List.count_pos_iff.mpr member) (by omega)
  | seated absent _ perm => exact Or.inr ⟨before.heap, perm, List.Subperm.refl _, absent⟩
  | displaced absent _ root rest split _ perm =>
    refine Or.inr ⟨rest, perm, ?_, fun number member => absent number ?_⟩
    · rw [split]
      exact (List.sublist_cons_self root rest).subperm
    · rw [keys, split]
      exact List.mem_cons_of_mem _ member
  | refused absent _ unchanged _ => exact Or.inl ⟨unchanged, absent⟩

theorem count_map_le {Elem Image : Type} [DecidableEq Image] (image : Elem → Image)
    {fewer elems : List Elem} (subperm : fewer.Subperm elems) (value : Image) :
    (fewer.map image).count value ≤ (elems.map image).count value := by
  obtain ⟨others, perm, sublist⟩ := subperm
  rw [← (perm.map image).count_eq]
  exact (sublist.map image).count_le value

theorem Offered.single {before after : HHHeap} {key : HeapItem} {count : ℤ} {flag : Bool}
    (offered : Offered before key count after flag) (single : Single before) : Single after := by
  rcases offered.lands single with ⟨rfl, -⟩ | ⟨rest, perm, fewer, fresh⟩
  · exact single
  · intro other number
    rw [keys, (perm.map HHItem.key).count_eq, List.map_cons]
    by_cases same : key = other
    · subst same
      rw [List.count_cons_self, List.count_eq_zero_of_not_mem (fresh number)]
    · rw [List.count_cons_of_ne same]
      exact (count_map_le HHItem.key fewer other).trans (single other number)

theorem Offered.mem_cases {before after : HHHeap} {key : HeapItem} {count : ℤ} {flag : Bool}
    (offered : Offered before key count after flag) (single : Single before) {item : HHItem}
    (member : item ∈ after.heap) :
    item = ⟨key, count⟩ ∨ item ∈ before.heap ∧ (key.isNan = false → item.key ≠ key) := by
  rcases offered.lands single with ⟨rfl, absent⟩ | ⟨rest, perm, fewer, fresh⟩
  · exact Or.inr ⟨member, fun number same =>
      absent number (List.mem_map.mpr ⟨item, member, same⟩)⟩
  · rcases List.mem_cons.mp (perm.mem_iff.mp member) with new | old
    · exact Or.inl new
    · exact Or.inr ⟨fewer.subset old, fun number same =>
        fresh number (List.mem_map.mpr ⟨item, old, same⟩)⟩

/-! ### Runs of offers -/

variable (xxh : XxHash3) (estimate : HeapItem → ℤ)

def offerAll (heap : HHHeap) (offered : List HeapItem) : HHHeap :=
  offered.foldl (fun heap key => (updateHeapItem xxh heap key (estimate key)).1) heap

/-- What holds of the heap of every sketch. -/
structure WellFormed (heap : HHHeap) : Prop where
  indexed : Indexed xxh heap
  single : Single heap

/-- An item that no offer of these keys finds. -/
def Untouched (offered : List HeapItem) (item : HHItem) : Prop :=
  item.key.isNan = true ∨ item.key ∉ offered

variable {xxh estimate} {heap : HHHeap}

theorem wellFormed_new (k : ℕ) : WellFormed xxh (new k) := ⟨indexed_new k, single_new k⟩

theorem WellFormed.updateHeapItem (wellFormed : WellFormed xxh heap) (key : HeapItem) (count : ℤ) :
    WellFormed xxh (updateHeapItem xxh heap key count).1 := by
  obtain ⟨offered, indexed, -⟩ := updateHeapItem_spec wellFormed.indexed key count
  exact ⟨indexed, offered.single wellFormed.single⟩

theorem untouched_cons {key : HeapItem} {rest : List HeapItem} {item : HHItem} :
    Untouched (key :: rest) item ↔
      (item.key.isNan = true ∨ item.key ≠ key) ∧ Untouched rest item := by
  unfold Untouched
  rw [List.mem_cons, not_or, or_and_left]

theorem mem_offerAll (wellFormed : WellFormed xxh heap) {offered : List HeapItem} {item : HHItem}
    (member : item ∈ (offerAll xxh estimate heap offered).heap) :
    item.count = estimate item.key ∨ item ∈ heap.heap ∧ Untouched offered item := by
  induction offered generalizing heap with
  | nil => exact Or.inr ⟨member, Or.inr List.not_mem_nil⟩
  | cons key rest hypothesis =>
    rcases hypothesis (wellFormed.updateHeapItem key (estimate key)) member with
      fresh | ⟨resident, untouched⟩
    · exact Or.inl fresh
    · obtain ⟨offer, -, -⟩ := updateHeapItem_spec wellFormed.indexed key (estimate key)
      rcases offer.mem_cases wellFormed.single resident with rfl | ⟨before, apart⟩
      · exact Or.inl rfl
      · refine Or.inr ⟨before, untouched_cons.mpr ⟨?_, untouched⟩⟩
        cases nan : item.key.isNan with
        | true => exact Or.inl rfl
        | false => exact Or.inr fun same => apart (same ▸ nan) same

/-- The estimates are fresh after offers exactly where they are for the residents that no offer found
and that are still there. -/
theorem offerAll_fresh_iff (estimate : HeapItem → ℤ) (wellFormed : WellFormed xxh heap)
    (offered : List HeapItem) :
    (∀ item ∈ (offerAll xxh estimate heap offered).heap, item.count = estimate item.key) ↔
      ∀ item ∈ heap.heap, Untouched offered item →
        item ∈ (offerAll xxh estimate heap offered).heap → item.count = estimate item.key := by
  refine ⟨fun fresh item _ _ => fresh item, fun current item member => ?_⟩
  rcases mem_offerAll wellFormed member with fresh | ⟨resident, untouched⟩
  · exact fresh
  · exact current item resident untouched member

section

variable {before after : HHHeap} {key : HeapItem} {count : ℤ} {flag : Bool}
  (offered : Offered before key count after flag)

include offered

theorem Offered.mem_of_room (room : before.heap.length < before.k) {item : HHItem}
    (member : item ∈ before.heap) (apart : item.key ≠ key) : item ∈ after.heap := by
  cases offered with
  | rescored idx resident residentEq same perm =>
    obtain ⟨rest, beforePerm, afterPerm⟩ := exists_rest residentEq ⟨key, count⟩
    rcases List.mem_cons.mp (beforePerm.mem_iff.mp member) with rfl | inRest
    · exact absurd same apart
    · exact (perm.trans afterPerm).mem_iff.mpr (List.mem_cons_of_mem _ inRest)
  | seated _ _ perm => exact perm.mem_iff.mpr (List.mem_cons_of_mem _ member)
  | displaced _ full _ _ _ _ _ => exact absurd full (Nat.ne_of_lt room)
  | refused _ full _ _ => exact absurd full (Nat.ne_of_lt room)

theorem Offered.length_le : after.heap.length ≤ before.heap.length + 1 := by
  cases offered with
  | rescored idx resident _ _ perm =>
    rw [perm.length_eq, List.length_set]
    exact Nat.le_succ _
  | seated _ _ perm => exact perm.length_eq.le
  | displaced _ _ root rest split _ perm =>
    rw [perm.length_eq, split]
    exact Nat.le_succ _
  | refused _ _ unchanged _ =>
    rw [unchanged]
    exact Nat.le_succ _

end

theorem perm_updateHeapItem_nan (indexed : Indexed xxh heap) {key : HeapItem}
    (nan : key.isNan = true) (count : ℤ) (room : heap.heap.length < heap.k) :
    (updateHeapItem xxh heap key count).1.heap.Perm (⟨key, count⟩ :: heap.heap) := by
  have missing : lookup heap (slotForItem xxh key) (fun other => other.eqItem key) = none := by
    cases found : lookup heap (slotForItem xxh key) fun other => other.eqItem key with
    | none => rfl
    | some idx =>
      obtain ⟨-, -, -, number⟩ := findHeapItem_some indexed found
      exact absurd (nan.symm.trans number) (by decide)
  have accepted : shouldAcceptNew heap count = true := by
    unfold shouldAcceptNew
    rw [if_neg (Nat.ne_of_gt (Nat.zero_lt_of_lt room)), if_pos room]
  unfold updateHeapItem offer
  rw [missing]
  simp only [if_pos accepted]
  exact ((indexed_iff.mp indexed).seat_spec_room key count room).1

theorem mem_offerAll_of_room (wellFormed : WellFormed xxh heap) {offered : List HeapItem}
    (room : heap.heap.length + offered.length ≤ heap.k) {item : HHItem} (member : item ∈ heap.heap)
    (untouched : Untouched offered item) : item ∈ (offerAll xxh estimate heap offered).heap := by
  induction offered generalizing heap with
  | nil => exact member
  | cons key rest hypothesis =>
    obtain ⟨apart, later⟩ := untouched_cons.mp untouched
    obtain ⟨offer, -, capacity⟩ := updateHeapItem_spec wellFormed.indexed key (estimate key)
    rw [List.length_cons] at room
    have here : heap.heap.length < heap.k := by omega
    refine hypothesis (wellFormed.updateHeapItem key (estimate key)) ?_ ?_ later
    · have grown := offer.length_le
      show (updateHeapItem xxh heap key (estimate key)).1.heap.length + rest.length ≤
        (updateHeapItem xxh heap key (estimate key)).1.k
      rw [capacity]
      omega
    · by_cases same : item.key = key
      · have nan : key.isNan = true := same ▸ apart.resolve_right (not_not.mpr same)
        exact (perm_updateHeapItem_nan wellFormed.indexed nan _ here).mem_iff.mpr
          (List.mem_cons_of_mem _ member)
      · exact offer.mem_of_room here member same

end HHHeap

end AsapSketchlib
