/-
This file proves what the heavy-hitter heap keeps of a stream whose keys are offered with estimates
that never shrink and are never below the weight of their key. A resident's count lies between
its weight and its estimate, and a key that is turned away or displaced weighs no more than the
smallest count, because that count only grows. With estimates that stay fixed the heap keeps the
largest of them.
-/

import AsapSketchlib.HeapCorrectness
import AsapSketchlib.HeapOffers

namespace AsapSketchlib

namespace HHHeap

/-- What the heap holds of the keys that were offered, given the weights and the estimates of
keys. -/
structure Tracks (weight estimate : HeapItem → ℤ) (offered : List HeapItem) (heap : HHHeap) :
    Prop where
  weightLe : ∀ item ∈ heap.heap, weight item.key ≤ item.count
  leEstimate : ∀ item ∈ heap.heap, item.count ≤ estimate item.key
  known : ∀ key ∈ keys heap, key ∈ offered
  full : ∀ key ∈ offered, key ∉ keys heap → heap.heap.length = heap.k
  light : ∀ key ∈ offered, key ∉ keys heap → ∀ item ∈ heap.heap, weight key ≤ item.count

variable {weight estimate weight' estimate' : HeapItem → ℤ} {offered : List HeapItem}

theorem tracks_new (k : ℕ) : Tracks weight estimate [] (new k) where
  weightLe := fun _ member => absurd member List.not_mem_nil
  leEstimate := fun _ member => absurd member List.not_mem_nil
  known := fun _ member => absurd member List.not_mem_nil
  full := fun _ member => absurd member List.not_mem_nil
  light := fun _ member => absurd member List.not_mem_nil

/-- What changes while one key is offered: no estimate shrinks and only the weight of the key
changes, which its count covers. -/
structure Grows (weight estimate weight' estimate' : HeapItem → ℤ) (key : HeapItem) (count : ℤ) :
    Prop where
  grown : ∀ other, estimate other ≤ estimate' other
  others : ∀ other, other ≠ key → weight' other = weight other
  countEq : count = estimate' key
  covered : weight' key ≤ count

variable {before after : HHHeap} {key : HeapItem} {count : ℤ}

section

variable (tracks : Tracks weight estimate offered before)
  (grows : Grows weight estimate weight' estimate' key count)

include tracks grows

theorem Tracks.keep {item : HHItem} (member : item ∈ before.heap) (apart : item.key ≠ key) :
    weight' item.key ≤ item.count ∧ item.count ≤ estimate' item.key := by
  refine ⟨?_, (tracks.leEstimate item member).trans (grows.grown item.key)⟩
  rw [grows.others item.key apart]
  exact tracks.weightLe item member

/-- The key that was offered is resident and the others are as before. -/
theorem Tracks.replace {rest : List HHItem} (perm : after.heap.Perm (⟨key, count⟩ :: rest))
    (within : ∀ item ∈ rest, item ∈ before.heap) (apart : ∀ item ∈ rest, item.key ≠ key)
    (full : ∀ other ∈ offered, other ≠ key → other ∉ rest.map HHItem.key →
      after.heap.length = after.k)
    (light : ∀ other ∈ offered, other ≠ key → other ∉ rest.map HHItem.key → weight other ≤ count ∧
      ∀ item ∈ rest, weight other ≤ item.count) :
    Tracks weight' estimate' (key :: offered) after := by
  have members : ∀ item, item ∈ after.heap ↔ item = ⟨key, count⟩ ∨ item ∈ rest := fun item =>
    perm.mem_iff.trans List.mem_cons
  have keysEq : ∀ other, other ∈ keys after ↔ other = key ∨ other ∈ rest.map HHItem.key :=
    fun other => (perm.map HHItem.key).mem_iff.trans List.mem_cons
  have missing : ∀ other ∈ key :: offered, other ∉ keys after →
      other ∈ offered ∧ other ≠ key ∧ other ∉ rest.map HHItem.key := by
    intro other member absent
    rw [keysEq, not_or] at absent
    exact ⟨(List.mem_cons.mp member).resolve_left absent.1, absent.1, absent.2⟩
  refine ⟨fun item member => ?_, fun item member => ?_, fun other member => ?_,
    fun other member absent => ?_, fun other member absent item inAfter => ?_⟩
  · rcases (members item).mp member with rfl | inRest
    · exact grows.covered
    · exact (tracks.keep grows (within item inRest) (apart item inRest)).1
  · rcases (members item).mp member with rfl | inRest
    · exact grows.countEq.le
    · exact (tracks.keep grows (within item inRest) (apart item inRest)).2
  · rcases (keysEq other).mp member with rfl | inRest
    · exact List.mem_cons_self
    · obtain ⟨item, itemMember, rfl⟩ := List.mem_map.mp inRest
      exact List.mem_cons_of_mem _
        (tracks.known _ (List.mem_map_of_mem (within item itemMember)))
  · obtain ⟨earlier, notKey, notRest⟩ := missing other member absent
    exact full other earlier notKey notRest
  · obtain ⟨earlier, notKey, notRest⟩ := missing other member absent
    rw [grows.others other notKey]
    obtain ⟨belowNew, belowRest⟩ := light other earlier notKey notRest
    rcases (members item).mp inAfter with rfl | inRest
    · exact belowNew
    · exact belowRest item inRest

end

theorem Tracks.offer (tracks : Tracks weight estimate offered before) {flag : Bool}
    (step : Offered before key count after flag) (capacity : after.k = before.k)
    (ordered : InOrder before) (distinct : (keys before).Nodup) (number : key.isNan = false)
    (grows : Grows weight estimate weight' estimate' key count) :
    Tracks weight' estimate' (key :: offered) after := by
  cases step with
  | rescored idx item resident same perm =>
    subst same
    obtain ⟨rest, beforePerm, afterPerm⟩ := exists_rest resident ⟨item.key, count⟩
    have members : ∀ other ∈ item :: rest, other ∈ before.heap := fun other member =>
      beforePerm.mem_iff.mpr member
    have keysEq : ∀ other, other ∈ keys before ↔ other = item.key ∨ other ∈ rest.map HHItem.key :=
      fun other => (beforePerm.map HHItem.key).mem_iff.trans List.mem_cons
    have fresh : item.key ∉ rest.map HHItem.key :=
      (List.nodup_cons.mp ((beforePerm.map HHItem.key).nodup_iff.mp distinct)).1
    have sameLength : after.heap.length = before.heap.length := by
      rw [perm.length_eq, List.length_set]
    -- The resident's count grows, so what was below it stays below it.
    have rises : item.count ≤ count := by
      rw [grows.countEq]
      exact (tracks.leEstimate item (members item List.mem_cons_self)).trans (grows.grown item.key)
    have absent : ∀ other, other ≠ item.key → other ∉ rest.map HHItem.key → other ∉ keys before :=
      fun other notKey notRest => fun member => ((keysEq other).mp member).elim notKey notRest
    refine tracks.replace grows (perm.trans afterPerm)
      (fun other member => members other (List.mem_cons_of_mem _ member))
      (fun other member equal => fresh (equal ▸ List.mem_map_of_mem member))
      (fun other earlier notKey notRest => ?_) fun other earlier notKey notRest => ⟨?_, ?_⟩
    · rw [sameLength, capacity]
      exact tracks.full other earlier (absent other notKey notRest)
    · exact (tracks.light other earlier (absent other notKey notRest) item
        (members item List.mem_cons_self)).trans rises
    · exact fun inner member => tracks.light other earlier (absent other notKey notRest) inner
        (members inner (List.mem_cons_of_mem _ member))
  | seated absent room perm =>
    -- While there is room, every key that was offered is resident.
    have resident : ∀ other ∈ offered, other ∉ before.heap.map HHItem.key → False :=
      fun other earlier notResident =>
        absurd (tracks.full other earlier notResident) (Nat.ne_of_lt room)
    exact tracks.replace grows perm (fun item member => member)
      (fun item member equal => absent number (equal ▸ List.mem_map_of_mem member))
      (fun other earlier _ notRest => (resident other earlier notRest).elim)
      fun other earlier _ notRest => (resident other earlier notRest).elim
  | displaced absent full root rest split beaten perm =>
    have members : ∀ item ∈ root :: rest, item ∈ before.heap := by
      rw [split]
      exact fun item member => member
    have rootLight : ∀ other ∈ offered, other ∉ rest.map HHItem.key →
        weight other ≤ root.count := by
      intro other earlier notRest
      by_cases isRoot : other = root.key
      · rw [isRoot]
        exact tracks.weightLe root (members root List.mem_cons_self)
      · refine tracks.light other earlier ?_ root (members root List.mem_cons_self)
        rw [keys, split, List.map_cons, List.mem_cons, not_or]
        exact ⟨isRoot, notRest⟩
    refine tracks.replace grows perm
      (fun item member => members item (List.mem_cons_of_mem _ member))
      (fun item member equal => absent number ?_) (fun other earlier notKey notRest => ?_)
      fun other earlier notKey notRest => ⟨(rootLight other earlier notRest).trans beaten.le,
        fun item member => (rootLight other earlier notRest).trans (ordered.root_le split member)⟩
    · rw [← equal]
      exact List.mem_map_of_mem (members item (List.mem_cons_of_mem _ member))
    · rw [perm.length_eq, capacity, ← full, split]
      rfl
  | refused absent full unchanged low =>
    subst unchanged
    have notResident := absent number
    have apart : ∀ item ∈ after.heap, item.key ≠ key := fun item member equal =>
      notResident (equal ▸ List.mem_map_of_mem member)
    -- The root has the smallest count, and the offered one is no larger.
    have below : ∀ item ∈ after.heap, count ≤ item.count := by
      intro item member
      cases split : after.heap with
      | nil =>
        rw [split] at member
        exact absurd member List.not_mem_nil
      | cons root rest =>
        have least : count ≤ root.count := low root (by rw [split]; rfl)
        rw [split] at member
        rcases List.mem_cons.mp member with rfl | inRest
        · exact least
        · exact least.trans (ordered.root_le split inRest)
    refine ⟨fun item member => (tracks.keep grows member (apart item member)).1,
      fun item member => (tracks.keep grows member (apart item member)).2,
      fun other member => List.mem_cons_of_mem _ (tracks.known other member),
      fun _ _ _ => full, fun other member missing item inHeap => ?_⟩
    by_cases isKey : other = key
    · rw [isKey]
      exact grows.covered.trans (below item inHeap)
    · rw [grows.others other isKey]
      exact tracks.light other ((List.mem_cons.mp member).resolve_left isKey) missing item inHeap

/-! ### Offers of the library -/

variable {xxh : XxHash3} {k : ℕ}

/-- The heap of a sketch, whose keys are numbers, texts and bytes. -/
structure Watched (xxh : XxHash3) (k : ℕ) (weight estimate : HeapItem → ℤ)
    (offered : List HeapItem) (heap : HHHeap) : Prop where
  kept : Kept (slotForItem xxh) k heap
  tracks : Tracks weight estimate offered heap

theorem watched_new (k : ℕ) : Watched xxh k weight estimate [] (new k) :=
  ⟨kept_new k, tracks_new k⟩

theorem Watched.update {heap : HHHeap} (watched : Watched xxh k weight estimate offered heap)
    (input : DataInput) {count : ℤ} (number : (inputToOwned input).isNan = false)
    (grows : Grows weight estimate weight' estimate' (inputToOwned input) count) :
    Watched xxh k weight' estimate' (inputToOwned input :: offered)
      (update xxh heap input count).1 := by
  obtain ⟨step, -, capacity⟩ :=
    watched.kept.indexed.offer_spec tellsApart_slotForItem (inputToOwned input) count
  have kept := watched.kept.offer tellsApart_slotForItem number count
  rw [update_eq_updateHeapItem]
  exact ⟨kept, watched.tracks.offer step capacity watched.kept.ordered watched.kept.distinct number
    grows⟩

theorem Watched.updateAll {heap : HHHeap} (watched : Watched xxh k estimate estimate offered heap)
    {candidates : List HeapItem} (numbers : ∀ key ∈ candidates, key.isNan = false) :
    Watched xxh k estimate estimate (candidates.reverse ++ offered)
      (candidates.foldl (fun heap key =>
        (HHHeap.update xxh heap (heapItemToSketchInput key) (estimate key)).1) heap) := by
  induction candidates generalizing heap offered with
  | nil => exact watched
  | cons key rest hypothesis =>
    obtain ⟨first, others⟩ := List.forall_mem_cons.mp numbers
    have fixed : Grows estimate estimate estimate estimate
        (inputToOwned (heapItemToSketchInput key)) (estimate key) := by
      rw [inputToOwned_heapItemToSketchInput]
      exact ⟨fun _ => le_rfl, fun _ _ => rfl, rfl, le_rfl⟩
    have next := watched.update (heapItemToSketchInput key)
      (by rw [inputToOwned_heapItemToSketchInput]; exact first) fixed
    rw [inputToOwned_heapItemToSketchInput] at next
    rw [List.reverse_cons, List.append_assoc]
    exact hypothesis next others

/-- The heap holds `k` largest estimates of distinct candidates, each with its estimate. -/
structure HoldsLargest (estimate : HeapItem → ℤ) (candidates : List HeapItem) (heap : HHHeap) :
    Prop where
  distinct : (keys heap).Nodup
  known : ∀ key ∈ keys heap, key ∈ candidates
  counted : ∀ item ∈ heap.heap, item.count = estimate item.key
  size : heap.heap.length = min heap.k candidates.dedup.length
  largest : ∀ key ∈ candidates, key ∉ keys heap → ∀ item ∈ heap.heap, estimate key ≤ item.count

theorem Watched.holdsLargest {heap : HHHeap} (watched : Watched xxh k estimate estimate offered heap) :
    HoldsLargest estimate offered heap := by
  obtain ⟨kept, tracks⟩ := watched
  have lengthEq : (keys heap).length = heap.heap.length := List.length_map _
  have fewer : heap.heap.length ≤ offered.dedup.length := by
    rw [← lengthEq]
    exact (kept.distinct.subperm fun key member =>
      List.mem_dedup.mpr (tracks.known key member)).length_le
  refine ⟨kept.distinct, tracks.known, fun item member => le_antisymm
    (tracks.leEstimate item member) (tracks.weightLe item member), ?_, tracks.light⟩
  by_cases all : ∀ key ∈ offered, key ∈ keys heap
  · have most : offered.dedup.length ≤ heap.heap.length := by
      rw [← lengthEq]
      exact ((List.nodup_dedup offered).subperm fun key member =>
        all key (List.mem_dedup.mp member)).length_le
    rw [min_eq_right (most.trans kept.indexed.bounded)]
    exact le_antisymm fewer most
  · push Not at all
    obtain ⟨key, member, absent⟩ := all
    have full := tracks.full key member absent
    rw [min_eq_left (full ▸ fewer), full]

end HHHeap

end AsapSketchlib
