/-
This file proves the heavy-hitter heap correct over every run: the array is in heap order by
count, the digests and the index follow it, no key stands twice, and a key is found exactly where
it is resident. Keys may collide in their digests. Of distinct keys offered to an empty heap, the
largest counts are retained.
-/

import AsapSketchlib.HeapOrder
import AsapSketchlib.HeapRetention
import AsapSketchlib.Largest

namespace AsapSketchlib

namespace HHHeap

open CommonHeap

/-! ### The order of the array -/

def InOrder (heap : HHHeap) : Prop := Heaped (rankAt HHItem.count heap.heap)

theorem orders_count : Orders HHItem.shouldSwap HHItem.count := fun _ _ => rfl

theorem inOrder_new (k : ℕ) : InOrder (new k) := fun _ _ => le_top

variable {heap : HHHeap}

theorem inOrder_rescore (ordered : InOrder heap) {idx : ℕ} (inside : idx < heap.heap.length)
    (count : ℤ) : InOrder (rescore heap idx count) := by
  have agree : ∀ place, place ≠ idx → rankAt HHItem.count
      (heap.heap.modify idx fun item => { item with count := count }) place =
        rankAt HHItem.count heap.heap place := by
    intro place apart
    unfold rankAt
    rw [List.getElem?_modify_ne _ _ (Ne.symm apart)]
  refine heaped_updateAtWith orders_count _ (loose_of_heaped ordered agree) ?_
  rw [List.length_modify]
  exact inside

theorem inOrder_seat (ordered : InOrder heap) (key : HeapItem) (slot : BitVec 64) (count : ℤ) :
    InOrder (seat heap key slot count) := by
  unfold seat
  split
  · exact heaped_pushBackWith orders_count _ _ ordered
  · exact heaped_replaceRootWith orders_count _ _ ordered

theorem inOrder_offer (ordered : InOrder heap) (isKey : HeapItem → Bool) (key : HeapItem)
    (slot : BitVec 64) (count : ℤ) : InOrder (offer heap isKey key slot count).1 := by
  unfold offer
  cases found : lookup heap slot isKey with
  | some idx =>
    unfold lookup at found
    have passes := List.find?_some found
    obtain ⟨item, itemEq, -⟩ := (Option.any_eq_true _ _).mp passes
    exact inOrder_rescore ordered (List.getElem?_eq_some_iff.mp itemEq).1 count
  | none =>
    simp only
    split
    · exact inOrder_seat ordered key slot count
    · exact ordered

theorem InOrder.root_le (ordered : InOrder heap) {root : HHItem} {rest : List HHItem}
    (split : heap.heap = root :: rest) {item : HHItem} (member : item ∈ rest) :
    root.count ≤ item.count := by
  obtain ⟨place, itemEq⟩ := List.getElem?_of_mem member
  have least := Heaped.root_le ordered (place + 1)
  unfold rankAt at least
  rw [split, List.getElem?_cons_zero, List.getElem?_cons_succ, itemEq] at least
  exact WithTop.coe_le_coe.mp least

/-! ### Runs -/

variable (digestOf : HeapItem → BitVec 64)

def perform (heap : HHHeap) : HeapOp → HHHeap
  | .update key count =>
    (offer heap (fun other => other.eqInput key) (inputToOwned key) (digestOf (inputToOwned key))
      count).1
  | .updateHeapItem key count =>
    (offer heap (fun other => other.eqItem key) key (digestOf key) count).1
  | .clear => clear heap

/-- The key and the count that an operation offers. -/
def HeapOp.offer? : HeapOp → Option (HeapItem × ℤ)
  | .update key count => some (inputToOwned key, count)
  | .updateHeapItem key count => some (key, count)
  | .clear => none

theorem perform_update (heap : HHHeap) (key : DataInput) (count : ℤ) :
    perform digestOf heap (.update key count) =
      perform digestOf heap (.updateHeapItem (inputToOwned key) count) := by
  have tests : (fun other : HeapItem => other.eqInput key) =
      fun other => other.eqItem (inputToOwned key) :=
    funext fun other => HeapItem.eqInput_eq_eqItem other key
  exact congrArg (fun isKey => (offer heap isKey (inputToOwned key)
    (digestOf (inputToOwned key)) count).1) tests

variable {digestOf}

/-- What carries over from one state of a run to the next. -/
structure Kept (digestOf : HeapItem → BitVec 64) (k : ℕ) (heap : HHHeap) : Prop where
  indexed : IndexedBy digestOf heap
  ordered : InOrder heap
  distinct : (keys heap).Nodup
  capacity : heap.k = k

theorem kept_new (k : ℕ) : Kept digestOf k (new k) :=
  ⟨indexedBy_new k, inOrder_new k, List.nodup_nil, rfl⟩

theorem Offered.nodup {before after : HHHeap} {key : HeapItem} {count : ℤ} {flag : Bool}
    (offered : Offered before key count after flag) (number : key.isNan = false)
    (bounded : before.heap.length ≤ before.k) (distinct : (keys before).Nodup) :
    (keys after).Nodup := by
  have itself : Retention before.k (keys before) (keys before) true :=
    { distinct := distinct
      subset := fun _ member => member
      bounded := by
        rw [keys, List.length_map]
        exact bounded
      whole := fun _ _ member => member
      exceeded := fun impossible => absurd impossible.symm Bool.false_ne_true }
  exact (offered.retention (Or.inl number) itself).distinct

theorem Kept.offer {k : ℕ} (kept : Kept digestOf k heap) (apart : TellsApart digestOf)
    {key : HeapItem} (number : key.isNan = false) (count : ℤ) :
    Kept digestOf k (perform digestOf heap (.updateHeapItem key count)) := by
  obtain ⟨offered, indexed, capacity⟩ := kept.indexed.offer_spec apart key count
  exact
    { indexed := indexed
      ordered := inOrder_offer kept.ordered _ _ _ _
      distinct := offered.nodup number kept.indexed.bounded kept.distinct
      capacity := capacity.trans kept.capacity }

theorem Kept.perform {k : ℕ} (kept : Kept digestOf k heap) (apart : TellsApart digestOf)
    {op : HeapOp} (number : ∀ offer ∈ op.offer?, offer.1.isNan = false) :
    Kept digestOf k (perform digestOf heap op) := by
  cases op with
  | update key count =>
    rw [perform_update]
    exact kept.offer apart (number _ rfl) count
  | updateHeapItem key count => exact kept.offer apart (number _ rfl) count
  | clear => exact kept.capacity ▸ kept_new heap.k

def performAll (digestOf : HeapItem → BitVec 64) (heap : HHHeap) (ops : List HeapOp) : HHHeap :=
  ops.foldl (HHHeap.perform digestOf) heap

theorem Kept.performAll {k : ℕ} (kept : Kept digestOf k heap) (apart : TellsApart digestOf)
    {ops : List HeapOp} (numbers : ∀ op ∈ ops, ∀ offer ∈ op.offer?, offer.1.isNan = false) :
    Kept digestOf k (performAll digestOf heap ops) := by
  induction ops generalizing heap with
  | nil => exact kept
  | cons op rest hypothesis =>
    obtain ⟨first, others⟩ := List.forall_mem_cons.mp numbers
    exact hypothesis (kept.perform apart first) others

/-! ### Correct heaps -/

/-- What holds of a heap in every state that is reached. -/
structure Correct (digestOf : HeapItem → BitVec 64) (k : ℕ) (heap : HHHeap) : Prop where
  ordered : ∀ (place : ℕ) (item above : HHItem), 0 < place → heap.heap[place]? = some item →
    heap.heap[parent place]? = some above → above.count ≤ item.count
  parallel : heap.slots = heap.heap.map fun item => digestOf item.key
  filed : ∀ digest position, position ∈ DigestIndex.slot heap.positions digest ↔
    heap.slots[position]? = some digest
  once : ∀ digest, (DigestIndex.slot heap.positions digest).Nodup
  distinct : (keys heap).Nodup
  bounded : heap.heap.length ≤ k
  found : ∀ key : HeapItem, key.isNan = false → ∀ idx,
    lookup heap (digestOf key) (fun other => other.eqItem key) = some idx ↔
      (keys heap)[idx]? = some key

theorem InOrder.parent_le (ordered : InOrder heap) {place : ℕ} {item above : HHItem}
    (below : 0 < place) (itemEq : heap.heap[place]? = some item)
    (aboveEq : heap.heap[parent place]? = some above) : above.count ≤ item.count := by
  have inOrder := ordered place below
  unfold rankAt at inOrder
  rw [itemEq, aboveEq] at inOrder
  exact WithTop.coe_le_coe.mp inOrder

theorem Kept.found {k : ℕ} (kept : Kept digestOf k heap) (apart : TellsApart digestOf)
    {key : HeapItem} (number : key.isNan = false) (idx : ℕ) :
    lookup heap (digestOf key) (fun other => other.eqItem key) = some idx ↔
      (keys heap)[idx]? = some key := by
  have resident : ∀ {place}, lookup heap (digestOf key) (fun other => other.eqItem key) =
      some place → (keys heap)[place]? = some key := by
    intro place found
    obtain ⟨item, itemEq, same, -⟩ := kept.indexed.lookup_some apart found
    rw [keys, List.getElem?_map, itemEq, Option.map_some, same]
  refine ⟨resident, fun keyEq => ?_⟩
  cases found : lookup heap (digestOf key) fun other => other.eqItem key with
  | none =>
    exact absurd (List.mem_of_getElem? keyEq) (kept.indexed.lookup_none found number)
  | some place =>
    have same := resident found
    have inside := (List.getElem?_eq_some_iff.mp same).1
    rw [(List.getElem?_inj inside kept.distinct).mp (same.trans keyEq.symm)]

theorem Kept.correct {k : ℕ} (kept : Kept digestOf k heap) (apart : TellsApart digestOf) :
    Correct digestOf k heap where
  ordered := fun _ _ _ below itemEq aboveEq => kept.ordered.parent_le below itemEq aboveEq
  parallel := kept.indexed.filed.1
  filed := kept.indexed.filed.2.filed
  once := kept.indexed.filed.2.nodup
  distinct := kept.distinct
  bounded := kept.indexed.bounded.trans_eq kept.capacity
  found := fun _ number => kept.found apart number

/-! ### Retained counts -/

def counts (heap : HHHeap) : List ℤ := heap.heap.map HHItem.count

section

variable {before after : HHHeap} {key : HeapItem} {count : ℤ} {flag : Bool}
  (offered : Offered before key count after flag)

include offered

/-- The largest counts stay the residents when another key is offered. -/
theorem Offered.largest (ordered : InOrder before) (absent : key ∉ keys before)
    {values lost : List ℤ} (largest : Largest before.k values (counts before) lost) :
    ∃ lost, Largest before.k (count :: values) (counts after) lost := by
  cases offered with
  | rescored idx item resident same perm =>
    exact absurd (List.mem_map.mpr ⟨item, List.mem_of_getElem? resident, same⟩) absent
  | seated _ room perm =>
    have fewer : (counts before).length < before.k := by
      rw [counts, List.length_map]
      exact room
    exact ⟨_, (largest.grow count fewer).of_perm (perm.map HHItem.count)⟩
  | displaced _ full root rest split beaten perm =>
    have countsEq : counts before = root.count :: rest.map HHItem.count := by
      rw [counts, split, List.map_cons]
    rw [countsEq] at largest
    refine ⟨_, (largest.displace ?_ beaten fun other member => ?_).of_perm
      (perm.map HHItem.count)⟩
    · rw [← countsEq, counts, List.length_map, full]
    · obtain ⟨item, itemMember, rfl⟩ := List.mem_map.mp member
      exact ordered.root_le split itemMember
  | refused _ full unchanged low =>
    subst unchanged
    refine ⟨_, largest.refuse ?_ fun other member => ?_⟩
    · rw [counts, List.length_map, full]
    · obtain ⟨item, itemMember, rfl⟩ := List.mem_map.mp member
      cases split : after.heap with
      | nil =>
        rw [split] at itemMember
        exact absurd itemMember List.not_mem_nil
      | cons root rest =>
        have below : count ≤ root.count := low root (by rw [split]; rfl)
        rw [split] at itemMember
        rcases List.mem_cons.mp itemMember with rfl | inRest
        · exact below
        · exact below.trans (ordered.root_le split inRest)

theorem Offered.mem_keys {other : HeapItem} (member : other ∈ keys after) :
    other = key ∨ other ∈ keys before := by
  cases offered with
  | rescored idx item resident same perm =>
    subst same
    rw [← keys_set resident count]
    exact Or.inr ((perm.map HHItem.key).mem_iff.mp member)
  | seated _ room perm => exact List.mem_cons.mp ((perm.map HHItem.key).mem_iff.mp member)
  | displaced _ full root rest split beaten perm =>
    refine (List.mem_cons.mp ((perm.map HHItem.key).mem_iff.mp member)).imp id fun inRest => ?_
    rw [keys, split, List.map_cons]
    exact List.mem_cons_of_mem _ inRest
  | refused _ full unchanged low => exact Or.inr (unchanged ▸ member)

end

/-- What carries over while distinct keys are offered to an empty heap. -/
structure Retains (digestOf : HeapItem → BitVec 64) (k : ℕ) (offers : List (HeapItem × ℤ))
    (heap : HHHeap) : Prop where
  kept : Kept digestOf k heap
  known : ∀ key ∈ keys heap, key ∈ offers.map Prod.fst
  largest : ∃ lost, Largest k (offers.map Prod.snd) (counts heap) lost

section

variable {k : ℕ} {offers : List (HeapItem × ℤ)} (retains : Retains digestOf k offers heap)
  (apart : TellsApart digestOf)

include retains apart

theorem Retains.offer {key : HeapItem} (number : key.isNan = false) (count : ℤ)
    (fresh : key ∉ offers.map Prod.fst) :
    Retains digestOf k ((key, count) :: offers)
      (perform digestOf heap (.updateHeapItem key count)) := by
  obtain ⟨offered, -, -⟩ := retains.kept.indexed.offer_spec apart key count
  obtain ⟨lost, largest⟩ := retains.largest
  have absent : key ∉ keys heap := fun resident => fresh (retains.known key resident)
  rw [← retains.kept.capacity] at largest
  refine ⟨retains.kept.offer apart number count, fun other member => ?_, ?_⟩
  · rcases offered.mem_keys member with rfl | before
    · exact List.mem_cons_self
    · exact List.mem_cons_of_mem _ (retains.known other before)
  · rw [← retains.kept.capacity]
    exact offered.largest retains.kept.ordered absent largest

/-- Operations that offer distinct keys. -/
theorem Retains.performAll {ops : List HeapOp} (uncleared : HeapOp.clear ∉ ops)
    (numbers : ∀ op ∈ ops, ∀ offer ∈ op.offer?, offer.1.isNan = false)
    (distinct : ((ops.filterMap HeapOp.offer?).map Prod.fst).Nodup)
    (fresh : ∀ offer ∈ ops.filterMap HeapOp.offer?, offer.1 ∉ offers.map Prod.fst) :
    Retains digestOf k ((ops.filterMap HeapOp.offer?).reverse ++ offers)
      (performAll digestOf heap ops) := by
  induction ops generalizing heap offers with
  | nil => exact retains
  | cons op rest hypothesis =>
    obtain ⟨notClear, others⟩ := not_or.mp fun either => uncleared (List.mem_cons.mpr either)
    obtain ⟨first, later⟩ := List.forall_mem_cons.mp numbers
    obtain ⟨offer, offerEq, owned⟩ : ∃ offer, op.offer? = some offer ∧
        perform digestOf heap op = perform digestOf heap (.updateHeapItem offer.1 offer.2) := by
      cases op with
      | update key count => exact ⟨_, rfl, perform_update digestOf heap key count⟩
      | updateHeapItem key count => exact ⟨_, rfl, rfl⟩
      | clear => exact absurd rfl notClear
    have split : (op :: rest).filterMap HeapOp.offer? = offer :: rest.filterMap HeapOp.offer? :=
      List.filterMap_cons_some offerEq
    rw [split, List.map_cons] at distinct
    rw [split] at fresh
    obtain ⟨headFresh, tailFresh⟩ := List.forall_mem_cons.mp fresh
    obtain ⟨headApart, tailDistinct⟩ := List.nodup_cons.mp distinct
    have next := retains.offer apart (first offer offerEq) offer.2 headFresh
    rw [← owned] at next
    have run := hypothesis next others later tailDistinct fun other member => ?_
    · rw [split, List.reverse_cons, List.append_assoc]
      exact run
    · intro known
      rcases List.mem_cons.mp known with same | earlier
      · exact headApart (same ▸ List.mem_map.mpr ⟨other, member, rfl⟩)
      · exact tailFresh other member earlier

end

theorem retains_new (k : ℕ) : Retains digestOf k [] (new k) :=
  ⟨kept_new k, fun _ member => member, [], Largest.empty k⟩

end HHHeap

/-! ### The heap over every run -/

open HHHeap

/-- Under any digests that tell equal keys apart, such as those of the library, every reachable heap
is correct if no NaN is offered, and of distinct keys the largest counts are retained. -/
theorem hhheap_correct (digestOf : HeapItem → BitVec 64) (apart : TellsApart digestOf) (k : ℕ)
    (ops : List HeapOp) (numbers : ∀ op ∈ ops, ∀ offer ∈ op.offer?, offer.1.isNan = false) :
    Correct digestOf k (performAll digestOf (HHHeap.new k) ops) ∧
      (HeapOp.clear ∉ ops → ((ops.filterMap HeapOp.offer?).map Prod.fst).Nodup →
        (counts (performAll digestOf (HHHeap.new k) ops)).Perm
          ((((ops.filterMap HeapOp.offer?).map Prod.snd).mergeSort (· ≥ ·)).take k)) := by
  refine ⟨((kept_new k).performAll apart numbers).correct apart, fun uncleared distinct => ?_⟩
  have retains := (retains_new k).performAll apart uncleared numbers distinct
    fun _ _ => List.not_mem_nil
  obtain ⟨lost, largest⟩ := retains.largest
  rw [List.append_nil, List.map_reverse] at largest
  have same : Largest k ((ops.filterMap HeapOp.offer?).map Prod.snd) _ lost :=
    { largest with split := (List.reverse_perm _).symm.trans largest.split }
  exact same.perm_take

/-- Three keys offered to a heap with room for two. -/
theorem hhheap_correct_small :
    Correct (slotForItem plainXxHash) 2 (performAll (slotForItem plainXxHash) (HHHeap.new 2)
        [.updateHeapItem (.u64 1) 5, .update (.u64 2) 7, .updateHeapItem (.u8 1) 6]) ∧
      (counts (performAll (slotForItem plainXxHash) (HHHeap.new 2)
        [.updateHeapItem (.u64 1) 5, .update (.u64 2) 7, .updateHeapItem (.u8 1) 6])).Perm
          (([5, 7, 6].mergeSort (· ≥ ·)).take 2) := by
  obtain ⟨correct, largest⟩ := hhheap_correct (slotForItem plainXxHash) tellsApart_slotForItem 2
    [.updateHeapItem (.u64 1) 5, .update (.u64 2) 7, .updateHeapItem (.u8 1) 6] (by decide)
  exact ⟨correct, largest (by simp) (by decide)⟩

end AsapSketchlib
