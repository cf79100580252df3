/-
This file models the KMV distinct-count sketch, a bounded heap of hashes that takes each hash once.
Whatever tree of insertions and merges built it, it keeps the smallest distinct hashes seen, so its
estimate depends on the set of hashes only.
-/

import AsapSketchlib.BoundedHeap
import AsapSketchlib.Floating
import AsapSketchlib.Hash
import AsapSketchlib.SmallestDistinct

namespace AsapSketchlib

/-- A KMV sketch: the `k` smallest hashes, in a heap with the largest at the root. -/
structure KMV where
  k : ℕ
  kVals : CommonHeap ℕ

namespace KMV

def new (k : ℕ) : KMV := ⟨k, CommonHeap.withCapacity k (keepLargest ℕ)⟩

def insertByHash (sketch : KMV) (hashValue : ℕ) : KMV :=
  if sketch.kVals.data.any (fun value => value == hashValue) = true then sketch
  else { sketch with kVals := sketch.kVals.push hashValue }

def insert (hasher : SketchHasher) (sketch : KMV) (item : DataInput) : KMV :=
  sketch.insertByHash (hasher.hash64Seeded canonicalHashSeed item).toNat

/-- `1.0 / (1u64 << 53) as f64`. -/
def divisor : F64 := (F64.ofInt 1).div (F64.ofInt (2 ^ 53))

/-- The estimate. Nothing is returned where the heap is full and empty. -/
def estimate (sketch : KMV) : Option F64 :=
  if sketch.kVals.data.length < sketch.k then some (F64.ofInt sketch.kVals.data.length)
  else sketch.kVals.data.head?.map fun largest =>
    (F64.ofInt (sketch.k - 1)).div ((F64.ofInt (largest >>> 11)).mul divisor)

/-- Inserts the hashes of another sketch. Both have to have the same `k`. -/
def merge (sketch other : KMV) : Option KMV :=
  if sketch.k = other.k then some (other.kVals.data.foldl insertByHash sketch) else none

end KMV

/-- Sketches of one `k`, built by insertions and merges. -/
inductive KmvTree where
  | new
  | insertByHash (tree : KmvTree) (hashValue : ℕ)
  | insert (tree : KmvTree) (item : DataInput)
  | merge (left right : KmvTree)

namespace KmvTree

variable (hasher : SketchHasher) (k : ℕ)

def run : KmvTree → Option KMV
  | new => some (KMV.new k)
  | insertByHash tree hashValue => tree.run.map fun sketch => sketch.insertByHash hashValue
  | insert tree item => tree.run.map fun sketch => sketch.insert hasher item
  | merge left right => left.run.bind fun sketch => right.run.bind fun other => sketch.merge other

def seen : KmvTree → List ℕ
  | new => []
  | insertByHash tree hashValue => hashValue :: tree.seen
  | insert tree item => (hasher.hash64Seeded canonicalHashSeed item).toNat :: tree.seen
  | merge left right => left.seen ++ right.seen

end KmvTree

/-! ### The smallest hashes -/

namespace KMV

/-- The heap holds each of the smallest hashes once. -/
structure Keeps (k : ℕ) (seen : Finset ℕ) (sketch : KMV) : Prop where
  kEq : sketch.k = k
  sizeEq : sketch.kVals.size = k
  ordered : sketch.kVals.InDualOrder
  nodup : sketch.kVals.data.Nodup
  smallest : SmallestOf k seen sketch.kVals.data.toFinset

variable {k : ℕ} {seen seen' : Finset ℕ} {sketch other : KMV}

theorem keeps_new (k : ℕ) : Keeps k ∅ (new k) where
  kEq := rfl
  sizeEq := rfl
  ordered := CommonHeap.inDualOrder_withCapacity k
  nodup := List.nodup_nil
  smallest := SmallestOf.empty k

theorem Keeps.insertByHash (keeps : Keeps k seen sketch) (hashValue : ℕ) :
    Keeps k (Insert.insert hashValue seen) (sketch.insertByHash hashValue) := by
  unfold KMV.insertByHash
  by_cases known : hashValue ∈ sketch.kVals.data
  · have found : sketch.kVals.data.any (fun value => value == hashValue) = true :=
      List.any_eq_true.mpr ⟨hashValue, known, beq_self_eq_true hashValue⟩
    rw [if_pos found]
    exact { keeps with smallest := keeps.smallest.again (List.mem_toFinset.mpr known) }
  · have missed : ¬sketch.kVals.data.any (fun value => value == hashValue) = true := fun found => by
      obtain ⟨value, member, same⟩ := List.any_eq_true.mp found
      exact known (eq_of_beq same ▸ member)
    have fresh : hashValue ∉ sketch.kVals.data.toFinset := fun member =>
      known (List.mem_toFinset.mp member)
    have counted : sketch.kVals.data.toFinset.card = sketch.kVals.data.length :=
      List.toFinset_card_of_nodup keeps.nodup
    rw [if_neg missed]
    suffices pushed : (sketch.kVals.push hashValue).data.Nodup ∧
        SmallestOf k (Insert.insert hashValue seen) (sketch.kVals.push hashValue).data.toFinset from
      ⟨keeps.kEq, (CommonHeap.push_size _ _).trans keeps.sizeEq,
        CommonHeap.inDualOrder_push keeps.ordered hashValue, pushed.1, pushed.2⟩
    rcases keeps.ordered.push_cases hashValue with ⟨room, grown⟩ |
      ⟨full, largest, rest, split, smaller, replaced⟩ | ⟨full, above, same⟩
    · refine ⟨grown.nodup_iff.mpr (List.nodup_cons.mpr ⟨known, keeps.nodup⟩), ?_⟩
      rw [List.toFinset_eq_of_perm _ _ grown, List.toFinset_cons]
      refine keeps.smallest.grow fresh ?_
      rwa [counted, ← keeps.sizeEq]
    · obtain ⟨largestFresh, restNodup⟩ := List.nodup_cons.mp (split ▸ keeps.nodup)
      have notInRest : hashValue ∉ rest := fun member =>
        known (split ▸ List.mem_cons_of_mem largest member)
      refine ⟨replaced.nodup_iff.mpr (List.nodup_cons.mpr ⟨notInRest, restNodup⟩), ?_⟩
      have erased : sketch.kVals.data.toFinset.erase largest = rest.toFinset := by
        rw [split, List.toFinset_cons, Finset.erase_insert fun member =>
          largestFresh (List.mem_toFinset.mp member)]
      rw [List.toFinset_eq_of_perm _ _ replaced, List.toFinset_cons, ← erased]
      refine keeps.smallest.displace fresh ?_ ?_ (fun other member => ?_) smaller
      · rw [counted, full, keeps.sizeEq]
      · rw [split]
        exact List.mem_toFinset.mpr List.mem_cons_self
      · exact keeps.ordered.le_root split (List.mem_toFinset.mp member)
    · rw [same]
      refine ⟨keeps.nodup, keeps.smallest.refuse ?_ fun other member => ?_⟩
      · rw [counted, full, keeps.sizeEq]
      · exact lt_of_le_of_ne (above other (List.mem_toFinset.mp member)) fun equal =>
          fresh (equal ▸ member)

theorem Keeps.insertAll (keeps : Keeps k seen sketch) (hashes : List ℕ) :
    Keeps k (seen ∪ hashes.toFinset) (hashes.foldl KMV.insertByHash sketch) := by
  induction hashes generalizing seen sketch with
  | nil => rwa [List.toFinset_nil, Finset.union_empty]
  | cons hashValue rest hypothesis =>
    have later := hypothesis (keeps.insertByHash hashValue)
    rwa [Finset.insert_union, ← Finset.union_insert, ← List.toFinset_cons] at later

theorem Keeps.merge (keeps : Keeps k seen sketch) (keepsOther : Keeps k seen' other) :
    ∃ merged, sketch.merge other = some merged ∧ Keeps k (seen ∪ seen') merged := by
  have all := keeps.insertAll other.kVals.data
  refine ⟨_, if_pos (keeps.kEq.trans keepsOther.kEq.symm), ?_⟩
  exact { all with smallest := keepsOther.smallest.union all.smallest }

theorem run_keeps (hasher : SketchHasher) (k : ℕ) (tree : KmvTree) :
    ∃ sketch, tree.run hasher k = some sketch ∧
      Keeps k (tree.seen hasher).toFinset sketch := by
  induction tree with
  | new => exact ⟨new k, rfl, keeps_new k⟩
  | insertByHash tree hashValue hypothesis =>
    obtain ⟨sketch, ran, keeps⟩ := hypothesis
    refine ⟨_, congrArg (Option.map _) ran, ?_⟩
    rw [KmvTree.seen, List.toFinset_cons]
    exact keeps.insertByHash hashValue
  | insert tree item hypothesis =>
    obtain ⟨sketch, ran, keeps⟩ := hypothesis
    refine ⟨_, congrArg (Option.map _) ran, ?_⟩
    rw [KmvTree.seen, List.toFinset_cons]
    exact keeps.insertByHash _
  | merge left right leftHypothesis rightHypothesis =>
    obtain ⟨sketch, ran, keeps⟩ := leftHypothesis
    obtain ⟨other, ranOther, keepsOther⟩ := rightHypothesis
    obtain ⟨merged, joined, keepsMerged⟩ := keeps.merge keepsOther
    refine ⟨merged, ?_, ?_⟩
    · rw [KmvTree.run, ran, ranOther]
      exact joined
    · rwa [KmvTree.seen, List.toFinset_append]

theorem Keeps.estimate_eq (keeps : Keeps k seen sketch) (keepsOther : Keeps k seen other) :
    sketch.estimate = other.estimate := by
  have sameSet := keeps.smallest.unique keepsOther.smallest
  have perm := List.perm_of_nodup_nodup_toFinset_eq keeps.nodup keepsOther.nodup sameSet
  have sameRoot : sketch.kVals.data.head? = other.kVals.data.head? := by
    cases split : sketch.kVals.data with
    | nil =>
      rw [split] at perm
      rw [perm.nil_eq]
    | cons root rest =>
      cases splitOther : other.kVals.data with
      | nil =>
        rw [split, splitOther] at perm
        exact absurd perm.length_eq (Nat.succ_ne_zero _)
      | cons rootOther restOther =>
        have member : root ∈ other.kVals.data := perm.subset (split ▸ List.mem_cons_self)
        have memberOther : rootOther ∈ sketch.kVals.data :=
          perm.symm.subset (splitOther ▸ List.mem_cons_self)
        rw [List.head?_cons, List.head?_cons, le_antisymm
          (keepsOther.ordered.le_root splitOther member) (keeps.ordered.le_root split memberOther)]
  unfold estimate
  rw [sameRoot, perm.length_eq, keeps.kEq, keepsOther.kEq]

theorem Keeps.exists_estimate (keeps : Keeps k seen sketch) (positive : 0 < k) :
    ∃ estimate, sketch.estimate = some estimate := by
  unfold estimate
  by_cases room : sketch.kVals.data.length < sketch.k
  · exact ⟨_, if_pos room⟩
  · rw [if_neg room]
    cases split : sketch.kVals.data with
    | nil =>
      rw [split, List.length_nil, keeps.kEq] at room
      exact absurd positive room
    | cons root rest => exact ⟨_, rfl⟩

end KMV

/-! ### Heaps and sketches -/

/-- A bounded heap of either order keeps its order, pops the extreme element and retains the extreme
elements of what is pushed; so a KMV sketch holds each of the smallest distinct hashes it has seen
once, and its estimate depends on the set of hashes only. -/
theorem extremes_kept (hasher : SketchHasher) {k : ℕ} (positive : 0 < k) :
    (∀ (Elem : Type) [LinearOrder Elem], CommonHeap.Promises (keepSmallest Elem) (· ≤ ·) ∧
      CommonHeap.Promises (keepLargest Elem) (· ≥ ·)) ∧
    ∀ tree : KmvTree, ∃ sketch estimate, tree.run hasher k = some sketch ∧
      sketch.kVals.data.Perm (((tree.seen hasher).toFinset.sort (· ≤ ·)).take k) ∧
      sketch.kVals.data.Nodup ∧ sketch.estimate = some estimate ∧
      ∀ other otherSketch, KmvTree.run hasher k other = some otherSketch →
        (∀ hashValue, hashValue ∈ other.seen hasher ↔ hashValue ∈ tree.seen hasher) →
        otherSketch.estimate = some estimate := by
  refine ⟨fun Elem _ => ⟨CommonHeap.promises_keepSmallest Elem,
    CommonHeap.promises_keepLargest Elem⟩, fun tree => ?_⟩
  obtain ⟨sketch, ran, keeps⟩ := KMV.run_keeps hasher k tree
  obtain ⟨estimate, estimated⟩ := keeps.exists_estimate positive
  refine ⟨sketch, estimate, ran, keeps.smallest.perm_take keeps.nodup, keeps.nodup, estimated,
    fun other otherSketch ranOther sameSeen => ?_⟩
  obtain ⟨found, ranFound, keepsFound⟩ := KMV.run_keeps hasher k other
  obtain rfl := Option.some.inj (ranFound.symm.trans ranOther)
  have sameSet : (other.seen hasher).toFinset = (tree.seen hasher).toFinset := by
    ext hashValue
    rw [List.mem_toFinset, List.mem_toFinset, sameSeen]
  rw [sameSet] at keepsFound
  rw [keepsFound.estimate_eq keeps, estimated]

/-- A hash that was displaced and comes back through a merge. -/
theorem extremes_kept_displaced : ∃ sketch,
    KmvTree.run collidingHasher 2
      (.merge (.insertByHash (.insertByHash (.insertByHash .new 9) 4) 7)
        (.insertByHash (.insertByHash .new 9) 4)) = some sketch ∧
      sketch.kVals.data.Nodup := by
  obtain ⟨-, sketches⟩ := extremes_kept collidingHasher (show 0 < 2 by decide)
  obtain ⟨sketch, -, ran, -, nodup, -⟩ := sketches
    (.merge (.insertByHash (.insertByHash (.insertByHash .new 9) 4) 7)
      (.insertByHash (.insertByHash .new 9) 4))
  exact ⟨sketch, ran, nodup⟩

end AsapSketchlib
