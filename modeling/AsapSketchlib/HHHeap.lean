/-
This file models the heavy-hitter heap the top-k sketches and the frameworks share: a
bounded min-heap of counted keys beside an index from key digest to heap position, patched
through every sift.

An array position out of range, where the source would panic, reads as no element;
`Indexed` holds of every heap the operations build and rules such a position out.
-/

import AsapSketchlib.CommonHeap
import AsapSketchlib.DigestIndex
import AsapSketchlib.Hash

namespace AsapSketchlib

/-- A key with its estimated count. -/
structure HHItem where
  key : HeapItem
  count : ℤ
  deriving DecidableEq

/-- `KeepSmallest::should_swap` on items, which compare by count. -/
def HHItem.shouldSwap (above below : HHItem) : Bool := below.count < above.count

/-- A bounded min-heap with key lookup. `slots` holds the digest of each resident, parallel to
the heap array. -/
structure HHHeap where
  heap : List HHItem
  slots : List (BitVec 64)
  positions : DigestIndex (BitVec 64)
  k : ℕ

namespace HHHeap

open CommonHeap

/-- Creates a heap of capacity `k`. -/
def new (k : ℕ) : HHHeap where
  heap := []
  slots := []
  positions := fun _ => none
  k := k

def clear (heap : HHHeap) : HHHeap :=
  { heap with heap := [], slots := [], positions := fun _ => none }

/-- The first position filed under a digest whose item passes the test. -/
def lookup (heap : HHHeap) (slot : BitVec 64) (isKey : HeapItem → Bool) : Option ℕ :=
  (DigestIndex.slot heap.positions slot).find? fun idx =>
    (heap.heap[idx]?).any fun item => isKey item.key

def swapEntry (left right : ℕ) (side : List (BitVec 64) × DigestIndex (BitVec 64)) :
    List (BitVec 64) × DigestIndex (BitVec 64) :=
  match side.1[left]?, side.1[right]? with
  | some first, some second =>
    if first = second then side
    else (swapAt side.1 left right,
      DigestIndex.retarget (DigestIndex.retarget side.2 first left right) second right left)
  | _, _ => side

def withSifted (heap : HHHeap)
    (sifted : List HHItem × List (BitVec 64) × DigestIndex (BitVec 64)) : HHHeap :=
  { heap with heap := sifted.1, slots := sifted.2.1, positions := sifted.2.2 }

/-- Writes a new count onto a resident and re-sifts it. -/
def rescore (heap : HHHeap) (idx : ℕ) (count : ℤ) : HHHeap :=
  withSifted heap (updateAtWith HHItem.shouldSwap swapEntry
    (heap.heap.modify idx fun item => { item with count := count }) idx (heap.slots, heap.positions))

/-- Places a key the heap has decided to accept, evicting the root at capacity. -/
def seat (heap : HHHeap) (key : HeapItem) (slot : BitVec 64) (count : ℤ) : HHHeap :=
  if heap.heap.length < heap.k then
    withSifted heap (pushBackWith HHItem.shouldSwap swapEntry heap.heap ⟨key, count⟩
      (heap.slots ++ [slot], DigestIndex.push heap.positions slot heap.heap.length))
  else
    let dropped := match heap.slots[0]? with
      | some displaced => DigestIndex.dropEntry heap.positions displaced 0
      | none => heap.positions
    withSifted heap (replaceRootWith HHItem.shouldSwap swapEntry heap.heap ⟨key, count⟩
      (heap.slots.set 0 slot, DigestIndex.push dropped slot 0))

/-- Whether a key that is not resident earns a place. -/
def shouldAcceptNew (heap : HHHeap) (count : ℤ) : Bool :=
  if heap.k = 0 then false
  else if heap.heap.length < heap.k then true
  else heap.heap.head?.any fun smallest => smallest.count < count

/-- The body `update` and `update_heap_item` share: the heap after the offer, and whether every
key offered so far is still retained. -/
def offer (heap : HHHeap) (isKey : HeapItem → Bool) (key : HeapItem) (slot : BitVec 64)
    (count : ℤ) : HHHeap × Bool :=
  match lookup heap slot isKey with
  | some idx => (rescore heap idx count, true)
  | none =>
    let retainedEveryKey : Bool := heap.heap.length < heap.k
    if shouldAcceptNew heap count = true then (seat heap key slot count, retainedEveryKey)
    else (heap, retainedEveryKey)

/-! ### The index follows the array -/

/-- The array of digests and the index of a heap over these items, under some digests of keys. -/
def FiledBy (digestOf : HeapItem → BitVec 64) (items : List HHItem)
    (side : List (BitVec 64) × DigestIndex (BitVec 64)) : Prop :=
  side.1 = items.map (fun item => digestOf item.key) ∧
    DigestIndex.Files side.2 fun position => side.1[position]?

/-- The digests are those of the residents, the index files them, and no more than `k` keys are
resident. -/
structure IndexedBy (digestOf : HeapItem → BitVec 64) (heap : HHHeap) : Prop where
  filed : FiledBy digestOf heap.heap (heap.slots, heap.positions)
  bounded : heap.heap.length ≤ heap.k

/-- The digests tell apart keys that compare equal, as the two zeros do. Other keys may collide. -/
def TellsApart (digestOf : HeapItem → BitVec 64) : Prop :=
  ∀ left right : HeapItem, left.eqItem right = true → digestOf left = digestOf right → left = right

variable {digestOf : HeapItem → BitVec 64} {heap : HHHeap}

theorem indexedBy_new (k : ℕ) : IndexedBy digestOf (new k) :=
  ⟨⟨rfl, DigestIndex.Files.empty⟩, Nat.zero_le k⟩

theorem clear_eq_new (heap : HHHeap) : clear heap = new heap.k := rfl

theorem swapEntry_follows : Follows swapEntry (FiledBy digestOf) := by
  rintro items ⟨slots, positions⟩ left right leftInside rightInside different ⟨digests, files⟩
  simp only at digests files
  have leftSlots : left < slots.length := by
    rw [digests, List.length_map]
    exact leftInside
  have rightSlots : right < slots.length := by
    rw [digests, List.length_map]
    exact rightInside
  have leftEq : slots[left]? = some slots[left] := List.getElem?_eq_getElem leftSlots
  have rightEq : slots[right]? = some slots[right] := List.getElem?_eq_getElem rightSlots
  have swapped : (swapAt items left right).map (fun item => digestOf item.key) =
      swapAt slots left right := by
    rw [map_swapAt, ← digests]
  simp only [FiledBy, swapEntry, leftEq, rightEq, swapped]
  by_cases same : slots[left] = slots[right]
  · rw [if_pos same]
    have leftKept : slots.set left slots[right] = slots := by
      rw [← same]
      exact List.set_getElem_self leftSlots
    have rightKept : slots.set right slots[left] = slots := by
      rw [same]
      exact List.set_getElem_self rightSlots
    refine ⟨?_, files⟩
    rw [swapAt_eq leftSlots rightSlots, leftKept, rightKept]
  · rw [if_neg same]
    refine ⟨rfl, ?_⟩
    have places : (fun position => (swapAt slots left right)[position]?) =
        Function.update (Function.update (fun position => slots[position]?) left
          (some slots[right])) right (some slots[left]) := by
      funext position
      rw [getElem?_swapAt leftSlots rightSlots, leftEq, rightEq]
      by_cases isRight : position = right
      · rw [if_pos isRight, isRight, Function.update_self]
      · rw [if_neg isRight, Function.update_of_ne isRight]
        by_cases isLeft : position = left
        · rw [if_pos isLeft, isLeft, Function.update_self]
        · rw [if_neg isLeft, Function.update_of_ne isLeft]
    rw [places]
    exact files.swap same leftEq rightEq

/-! ### Residents are identified exactly -/

def keys (heap : HHHeap) : List HeapItem := heap.heap.map HHItem.key

theorem not_isNan_of_eqItem {left right : HeapItem} (equal : left.eqItem right = true) :
    right.isNan = false := by
  have reflexive := HeapItem.eqItem_trans _ _ _ (HeapItem.eqItem_symm _ _ equal) equal
  rw [HeapItem.eqItem_self] at reflexive
  exact Bool.not_eq_true' _ ▸ reflexive

theorem IndexedBy.getElem?_slots (indexed : IndexedBy digestOf heap) (position : ℕ) :
    heap.slots[position]? = (heap.heap[position]?).map fun item => digestOf item.key := by
  have digests : heap.slots = heap.heap.map fun item => digestOf item.key :=
    indexed.filed.1
  rw [digests, List.getElem?_map]

theorem IndexedBy.lookup_some (indexed : IndexedBy digestOf heap) (apart : TellsApart digestOf)
    {key : HeapItem} {idx : ℕ}
    (found : lookup heap (digestOf key) (fun other => other.eqItem key) = some idx) :
    ∃ item, heap.heap[idx]? = some item ∧ item.key = key ∧ key.isNan = false := by
  unfold lookup at found
  have inSlot := List.mem_of_find?_eq_some found
  have passes := List.find?_some found
  obtain ⟨item, itemEq, equal⟩ := (Option.any_eq_true _ _).mp passes
  rw [indexed.filed.2.filed] at inSlot
  rw [show (heap.slots, heap.positions).1 = heap.slots from rfl, indexed.getElem?_slots, itemEq,
    Option.map_some, Option.some.injEq] at inSlot
  exact ⟨item, itemEq, apart _ _ equal inSlot, not_isNan_of_eqItem equal⟩

theorem IndexedBy.lookup_none (indexed : IndexedBy digestOf heap) {key : HeapItem}
    (missing : lookup heap (digestOf key) (fun other => other.eqItem key) = none)
    (number : key.isNan = false) : key ∉ keys heap := by
  intro resident
  obtain ⟨item, member, rfl⟩ := List.mem_map.mp resident
  obtain ⟨position, itemEq⟩ := List.getElem?_of_mem member
  have filed : heap.slots[position]? = some (digestOf item.key) := by
    rw [indexed.getElem?_slots, itemEq, Option.map_some]
  have inSlot := (indexed.filed.2.filed _ _).mpr filed
  have rejects := List.find?_eq_none.mp missing position inSlot
  rw [itemEq, Option.any_some] at rejects
  refine rejects ?_
  show item.key.eqItem item.key = true
  rw [HeapItem.eqItem_self, number]
  rfl

/-! ### What one offer does -/

/-- The cases of an offer: the outcome is the heap after it and the returned flag. -/
inductive Offered (before : HHHeap) (key : HeapItem) (count : ℤ) (after : HHHeap) : Bool → Prop
  /-- The key is resident and gets the new count. -/
  | rescored (idx : ℕ) (item : HHItem) (resident : before.heap[idx]? = some item)
      (same : item.key = key) (perm : after.heap.Perm (before.heap.set idx ⟨key, count⟩)) :
      Offered before key count after true
  /-- There is room for the key. -/
  | seated (absent : key.isNan = false → key ∉ keys before)
      (room : before.heap.length < before.k) (perm : after.heap.Perm (⟨key, count⟩ :: before.heap)) :
      Offered before key count after true
  /-- The key takes the place of the root, whose count is lower. -/
  | displaced (absent : key.isNan = false → key ∉ keys before)
      (full : before.heap.length = before.k) (root : HHItem) (rest : List HHItem)
      (split : before.heap = root :: rest) (beaten : root.count < count)
      (perm : after.heap.Perm (⟨key, count⟩ :: rest)) : Offered before key count after false
  /-- The heap is full and the key is turned away. -/
  | refused (absent : key.isNan = false → key ∉ keys before)
      (full : before.heap.length = before.k) (unchanged : after = before)
      (low : ∀ root, before.heap.head? = some root → count ≤ root.count) :
      Offered before key count after false

theorem map_slot_modify (items : List HHItem) (idx : ℕ) (count : ℤ) :
    (items.modify idx fun item => { item with count := count }).map
      (fun item => digestOf item.key) = items.map fun item => digestOf item.key := by
  refine List.ext_getElem? fun position => ?_
  rw [List.getElem?_map, List.getElem?_map]
  by_cases here : idx = position
  · rw [here, List.getElem?_modify_eq]
    cases items[position]? with
    | none => rfl
    | some item => rfl
  · rw [List.getElem?_modify_ne _ _ here]

theorem IndexedBy.rescore_spec (indexed : IndexedBy digestOf heap) {idx : ℕ} {item : HHItem}
    (resident : heap.heap[idx]? = some item) (count : ℤ) :
    (rescore heap idx count).heap.Perm (heap.heap.set idx ⟨item.key, count⟩) ∧
      IndexedBy digestOf (rescore heap idx count) := by
  have modified : (heap.heap.modify idx fun item => { item with count := count }) =
      heap.heap.set idx ⟨item.key, count⟩ := by
    refine List.ext_getElem? fun position => ?_
    by_cases here : idx = position
    · rw [← here, List.getElem?_modify_eq, List.getElem?_set_self', resident]
      rfl
    · rw [List.getElem?_modify_ne _ _ here, List.getElem?_set_ne here]
  have filed : FiledBy digestOf (heap.heap.modify idx fun item => { item with count := count })
      (heap.slots, heap.positions) :=
    ⟨indexed.filed.1.trans (map_slot_modify heap.heap idx count).symm, indexed.filed.2⟩
  obtain ⟨perm, aligned⟩ := updateAtWith_aligned swapEntry_follows _ idx _ filed
  refine ⟨modified ▸ perm, aligned, ?_⟩
  refine le_of_eq_of_le (perm.length_eq.trans ?_) indexed.bounded
  rw [List.length_modify]

theorem FiledBy.append {items : List HHItem} {slots : List (BitVec 64)}
    {positions : DigestIndex (BitVec 64)} (filed : FiledBy digestOf items (slots, positions))
    (item : HHItem) : FiledBy digestOf (items ++ [item]) (slots ++ [digestOf item.key],
      DigestIndex.push positions (digestOf item.key) items.length) := by
  obtain ⟨digests, files⟩ := filed
  simp only at digests files
  have slotsLength : slots.length = items.length := by
    rw [digests, List.length_map]
  refine ⟨?_, ?_⟩
  · rw [List.map_append, ← digests]
    rfl
  · have places : (fun position => (slots ++ [digestOf item.key])[position]?) =
        Function.update (fun position => slots[position]?) items.length
          (some (digestOf item.key)) := by
      funext position
      by_cases last : position = items.length
      · rw [last, Function.update_self, ← slotsLength, List.getElem?_concat_length]
      · rw [Function.update_of_ne last]
        by_cases inside : position < slots.length
        · rw [List.getElem?_append_left inside]
        · rw [List.getElem?_eq_none (Nat.le_of_not_lt inside), List.getElem?_eq_none]
          rw [List.length_append, List.length_singleton]
          omega
    rw [places]
    exact files.push _ (List.getElem?_eq_none (Nat.le_of_eq slotsLength))

theorem IndexedBy.seat_spec_room (indexed : IndexedBy digestOf heap) (key : HeapItem) (count : ℤ)
    (room : heap.heap.length < heap.k) :
    (seat heap key (digestOf key) count).heap.Perm (⟨key, count⟩ :: heap.heap) ∧
      IndexedBy digestOf (seat heap key (digestOf key) count) := by
  have filed := FiledBy.append indexed.filed ⟨key, count⟩
  obtain ⟨perm, aligned⟩ := pushBackWith_aligned swapEntry_follows _ _ _ filed
  unfold seat
  rw [if_pos room]
  refine ⟨perm.trans (List.perm_append_singleton _ _), aligned, ?_⟩
  refine le_of_eq_of_le perm.length_eq ?_
  rw [List.length_append, List.length_singleton]
  exact room

theorem IndexedBy.seat_spec_full (indexed : IndexedBy digestOf heap) (key : HeapItem) (count : ℤ)
    (full : ¬heap.heap.length < heap.k) {root : HHItem} {rest : List HHItem}
    (split : heap.heap = root :: rest) :
    (seat heap key (digestOf key) count).heap.Perm (⟨key, count⟩ :: rest) ∧
      IndexedBy digestOf (seat heap key (digestOf key) count) := by
  have digests : heap.slots = digestOf root.key ::
      rest.map fun item => digestOf item.key := by
    rw [show heap.slots = _ from indexed.filed.1, split, List.map_cons]
  have rootSlot : heap.slots[0]? = some (digestOf root.key) := by
    rw [digests, List.getElem?_cons_zero]
  have dropped := indexed.filed.2.dropEntry rootSlot
  have filed : FiledBy digestOf (heap.heap.set 0 ⟨key, count⟩) (heap.slots.set 0 (digestOf key),
      DigestIndex.push (DigestIndex.dropEntry heap.positions (digestOf root.key) 0)
        (digestOf key) 0) := by
    refine ⟨?_, ?_⟩
    · rw [split, digests]
      rfl
    · have places : (fun position => (heap.slots.set 0 (digestOf key))[position]?) =
          Function.update (Function.update (fun position => heap.slots[position]?) 0 none) 0
            (some (digestOf key)) := by
        funext position
        rw [Function.update_idem]
        by_cases first : position = 0
        · rw [first, Function.update_self, digests]
          rfl
        · rw [Function.update_of_ne first, List.getElem?_set_ne (Ne.symm first)]
      rw [places]
      exact dropped.push _ (Function.update_self _ _ _)
  obtain ⟨perm, aligned⟩ := replaceRootWith_aligned swapEntry_follows _ _ _ filed
  unfold seat
  rw [if_neg full]
  simp only [rootSlot]
  refine ⟨?_, aligned, ?_⟩
  · rw [split] at perm ⊢
    exact perm
  · refine le_of_eq_of_le (perm.length_eq.trans ?_) indexed.bounded
    rw [List.length_set]

/-- Every offer is one of the cases, and leaves the index following the array. -/
theorem IndexedBy.offer_spec (indexed : IndexedBy digestOf heap) (apart : TellsApart digestOf)
    (key : HeapItem) (count : ℤ) :
    Offered heap key count (offer heap (fun other => other.eqItem key) key (digestOf key) count).1
        (offer heap (fun other => other.eqItem key) key (digestOf key) count).2 ∧
      IndexedBy digestOf
        (offer heap (fun other => other.eqItem key) key (digestOf key) count).1 ∧
      (offer heap (fun other => other.eqItem key) key (digestOf key) count).1.k = heap.k := by
  unfold offer
  cases found : lookup heap (digestOf key) (fun other => other.eqItem key) with
  | some idx =>
    obtain ⟨item, itemEq, rfl, -⟩ := indexed.lookup_some apart found
    obtain ⟨perm, indexed'⟩ := indexed.rescore_spec itemEq count
    exact ⟨Offered.rescored idx item itemEq rfl perm, indexed', rfl⟩
  | none =>
    have absent : key.isNan = false → key ∉ keys heap := indexed.lookup_none found
    have kept : (seat heap key (digestOf key) count).k = heap.k := by
      unfold seat
      split <;> rfl
    by_cases room : heap.heap.length < heap.k
    · have accepted : shouldAcceptNew heap count = true := by
        unfold shouldAcceptNew
        rw [if_neg (Nat.ne_of_gt (Nat.zero_lt_of_lt room)), if_pos room]
      obtain ⟨perm, indexed'⟩ := indexed.seat_spec_room key count room
      simp only [if_pos accepted, decide_eq_true room]
      exact ⟨Offered.seated absent room perm, indexed', kept⟩
    · have full : heap.heap.length = heap.k :=
        Nat.le_antisymm indexed.bounded (Nat.le_of_not_lt room)
      simp only [decide_eq_false room]
      cases split : heap.heap with
      | nil =>
        have refused : shouldAcceptNew heap count = false := by
          unfold shouldAcceptNew
          rw [if_pos (by rw [← full, split, List.length_nil])]
        simp only [refused]
        rw [if_neg Bool.false_ne_true]
        refine ⟨Offered.refused absent full rfl fun root first => ?_, indexed, rfl⟩
        rw [split] at first
        exact absurd first (Option.some_ne_none root).symm
      | cons root rest =>
        have accepts : shouldAcceptNew heap count = decide (root.count < count) := by
          unfold shouldAcceptNew
          rw [if_neg (by rw [← full, split, List.length_cons]; exact Nat.succ_ne_zero _),
            if_neg room, split]
          rfl
        rw [accepts]
        by_cases beaten : root.count < count
        · obtain ⟨perm, indexed'⟩ := indexed.seat_spec_full key count room split
          simp only [decide_eq_true beaten, if_true]
          exact ⟨Offered.displaced absent full root rest split beaten perm, indexed', kept⟩
        · simp only [decide_eq_false beaten]
          rw [if_neg Bool.false_ne_true]
          refine ⟨Offered.refused absent full rfl fun other first => ?_, indexed, rfl⟩
          rw [split] at first
          rw [← Option.some.inj first]
          exact le_of_not_gt beaten

/-! ### Digests of the library -/

section Hashed

variable (xxh : XxHash3)

def slotForItem (key : HeapItem) : BitVec 64 := hashItem64Seeded xxh 0 key

def slotForInput (key : DataInput) : BitVec 64 := hash64Seeded xxh 0 key

def find (heap : HHHeap) (key : DataInput) : Option ℕ :=
  lookup heap (slotForInput xxh key) fun other => other.eqInput key

def findHeapItem (heap : HHHeap) (key : HeapItem) : Option ℕ :=
  lookup heap (slotForItem xxh key) fun other => other.eqItem key

/-- Updates an existing key's count or inserts it if it earns a place. -/
def update (heap : HHHeap) (key : DataInput) (count : ℤ) : HHHeap × Bool :=
  offer heap (fun other => other.eqInput key) (inputToOwned key) (slotForInput xxh key) count

/-- Updates an existing owned item or inserts it if needed. -/
def updateHeapItem (heap : HHHeap) (key : HeapItem) (count : ℤ) : HHHeap × Bool :=
  offer heap (fun other => other.eqItem key) key (slotForItem xxh key) count

variable (heap : HHHeap) (key : DataInput)

theorem update_k (count : ℤ) : (update xxh heap key count).1.k = heap.k := by
  have seated : ∀ owned slot, (seat heap owned slot count).k = heap.k := by
    intro owned slot
    unfold seat
    split <;> rfl
  unfold update offer
  split
  · rfl
  · simp only
    split
    · exact seated _ _
    · rfl

theorem update_eq_updateHeapItem (count : ℤ) :
    update xxh heap key count = updateHeapItem xxh heap (inputToOwned key) count := by
  have tests : (fun other : HeapItem => other.eqInput key) =
      fun other => other.eqItem (inputToOwned key) :=
    funext fun other => HeapItem.eqInput_eq_eqItem other key
  unfold update updateHeapItem
  rw [tests]
  rfl

theorem find_eq_findHeapItem : find xxh heap key = findHeapItem xxh heap (inputToOwned key) := by
  have tests : (fun other : HeapItem => other.eqInput key) =
      fun other => other.eqItem (inputToOwned key) :=
    funext fun other => HeapItem.eqInput_eq_eqItem other key
  unfold find findHeapItem
  rw [tests]
  rfl

end Hashed

/-- The array of digests and the index of a heap over these items. -/
def Filed (xxh : XxHash3) (items : List HHItem)
    (side : List (BitVec 64) × DigestIndex (BitVec 64)) : Prop :=
  side.1 = items.map (fun item => slotForItem xxh item.key) ∧
    DigestIndex.Files side.2 fun position => side.1[position]?

/-- The digests are those of the residents, the index files them, and no more than `k` keys are
resident. -/
structure Indexed (xxh : XxHash3) (heap : HHHeap) : Prop where
  filed : Filed xxh heap.heap (heap.slots, heap.positions)
  bounded : heap.heap.length ≤ heap.k

/-- `rebuild_index`: files the array anew, as a decoded heap does. -/
def rebuildIndex (xxh : XxHash3) (heap : HHHeap) : HHHeap :=
  let filed := heap.heap.zipIdx.foldl (fun side entry =>
    (side.1 ++ [slotForItem xxh entry.1.key],
      DigestIndex.push side.2 (slotForItem xxh entry.1.key) entry.2)) ([], fun _ => none)
  { heap with slots := filed.1, positions := filed.2 }

variable {xxh : XxHash3}

theorem indexed_iff : Indexed xxh heap ↔ IndexedBy (slotForItem xxh) heap :=
  ⟨fun indexed => ⟨indexed.filed, indexed.bounded⟩, fun indexed => ⟨indexed.filed, indexed.bounded⟩⟩

theorem indexed_new (k : ℕ) : Indexed xxh (new k) := indexed_iff.mpr (indexedBy_new k)

theorem indexed_rebuildIndex (bounded : heap.heap.length ≤ heap.k) :
    Indexed xxh (rebuildIndex xxh heap) := by
  have filed : ∀ items : List HHItem, FiledBy (slotForItem xxh) items
      (items.zipIdx.foldl (fun side entry => (side.1 ++ [slotForItem xxh entry.1.key],
        DigestIndex.push side.2 (slotForItem xxh entry.1.key) entry.2)) ([], fun _ => none)) := by
    intro items
    induction items using List.reverseRecOn with
    | nil => exact ⟨rfl, DigestIndex.Files.empty⟩
    | append_singleton front item hypothesis =>
      rw [List.zipIdx_append, List.foldl_append, Nat.zero_add]
      exact hypothesis.append item
  exact ⟨filed heap.heap, bounded⟩

theorem tellsApart_slotForItem : TellsApart (slotForItem xxh) := by
  intro left right equal sameSlot
  unfold slotForItem hashItem64Seeded at sameSlot
  cases right with
  | f32 bits =>
    obtain ⟨other, rfl, -⟩ := (HeapItem.eqItem_f32 left bits).mp equal
    have sameBytes := xxh.oneshot64_inj _ _ _ (by simp [hashBytes]) (by simp [hashBytes]) sameSlot
    rw [leBytes_inj (by decide) sameBytes]
  | f64 bits =>
    obtain ⟨other, rfl, -⟩ := (HeapItem.eqItem_f64 left bits).mp equal
    have sameBytes := xxh.oneshot64_inj _ _ _ (by simp [hashBytes]) (by simp [hashBytes]) sameSlot
    rw [leBytes_inj (by decide) sameBytes]
  | _ => exact (HeapItem.eqItem_of_isExact left _ rfl).mp equal

variable (indexed : Indexed xxh heap)

include indexed

theorem findHeapItem_some {key : HeapItem} {idx : ℕ}
    (found : findHeapItem xxh heap key = some idx) :
    ∃ item, heap.heap[idx]? = some item ∧ item.key = key ∧ key.isNan = false :=
  (indexed_iff.mp indexed).lookup_some tellsApart_slotForItem found

theorem findHeapItem_none {key : HeapItem} (missing : findHeapItem xxh heap key = none)
    (number : key.isNan = false) : key ∉ keys heap :=
  (indexed_iff.mp indexed).lookup_none missing number

theorem findHeapItem_isSome (key : HeapItem) (number : key.isNan = false) :
    (findHeapItem xxh heap key).isSome = true ↔ key ∈ keys heap := by
  cases found : findHeapItem xxh heap key with
  | none =>
    exact ⟨fun impossible => absurd impossible Bool.false_ne_true,
      fun resident => absurd resident (findHeapItem_none indexed found number)⟩
  | some idx =>
    obtain ⟨item, itemEq, same, -⟩ := findHeapItem_some indexed found
    exact ⟨fun _ => List.mem_map.mpr ⟨item, List.mem_of_getElem? itemEq, same⟩, fun _ => rfl⟩

theorem updateHeapItem_spec (key : HeapItem) (count : ℤ) :
    Offered heap key count (updateHeapItem xxh heap key count).1
        (updateHeapItem xxh heap key count).2 ∧
      Indexed xxh (updateHeapItem xxh heap key count).1 ∧
      (updateHeapItem xxh heap key count).1.k = heap.k := by
  obtain ⟨offered, indexed', capacity⟩ :=
    (indexed_iff.mp indexed).offer_spec tellsApart_slotForItem key count
  exact ⟨offered, indexed_iff.mpr indexed', capacity⟩

end HHHeap

end AsapSketchlib
