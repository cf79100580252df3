/-
This file gives the bucket list of a Stream-Summary its invariant and proves what each
operation on it does: the live buckets form a doubly linked list with strictly
increasing counts between `bucket_head` and `bucket_tail`, and together with the free
stack they partition the arena.

The operations are stated over a split of the live buckets into those below and those
above the place where the operation works, so that a caller learns the new order of the
list and not only that there is one.
-/

import AsapSketchlib.DoublyLinked
import AsapSketchlib.SpaceSaving

namespace AsapSketchlib

open Arena DoublyLinked

namespace SpaceSaving

/-! ### The fields of the bucket arena -/

abbrev bucketCount (buckets : List Bucket) : ℕ → ℕ := fieldAt Bucket.count 0 buckets

abbrev bucketFirst (buckets : List Bucket) : ℕ → Link := fieldAt Bucket.head none buckets

abbrev bucketPrev (buckets : List Bucket) : ℕ → Link := fieldAt Bucket.prev none buckets

abbrev bucketNext (buckets : List Bucket) : ℕ → Link := fieldAt Bucket.next none buckets

/-- The live buckets, from the lowest count to the highest. -/
structure BucketList (summary : SpaceSaving) (live : List ℕ) : Prop where
  partition : (live ++ summary.bucketFree).Perm (List.range summary.buckets.length)
  linked : LinkedList (bucketPrev summary.buckets) (bucketNext summary.buckets) live
  head : summary.bucketHead = live.head?
  tail : summary.bucketTail = live.getLast?
  increasing : live.Pairwise fun lower upper =>
    bucketCount summary.buckets lower < bucketCount summary.buckets upper
  positive : ∀ bid ∈ live, 0 < bucketCount summary.buckets bid
  capped : ∀ bid ∈ live, bucketCount summary.buckets bid ≤ u64Max

/-- Two summaries that differ in their buckets only. -/
structure SameCounters (before after : SpaceSaving) : Prop where
  capacity : after.capacity = before.capacity
  monitored : after.monitored = before.monitored
  index : after.index = before.index
  total : after.total = before.total
  discardedMax : after.discardedMax = before.discardedMax

/-- The counts and the first counters of the listed buckets are the same in both arenas. -/
def SameBuckets (before after : List Bucket) (listed : List ℕ) : Prop :=
  ∀ bid ∈ listed, bucketCount after bid = bucketCount before bid ∧
    bucketFirst after bid = bucketFirst before bid

theorem SameCounters.refl (summary : SpaceSaving) : SameCounters summary summary :=
  ⟨rfl, rfl, rfl, rfl, rfl⟩

theorem SameBuckets.refl (buckets : List Bucket) (listed : List ℕ) :
    SameBuckets buckets buckets listed :=
  fun _ _ => ⟨rfl, rfl⟩

namespace BucketList

variable {summary : SpaceSaving} {live : List ℕ}

theorem nodup (list : BucketList summary live) : live.Nodup :=
  (List.nodup_append.mp (list.partition.nodup_iff.mpr List.nodup_range)).1

variable (list : BucketList summary live) {bid : ℕ} (member : bid ∈ live)

include list member

theorem inside : bid < summary.buckets.length :=
  List.mem_range.mp (list.partition.subset (List.mem_append_left _ member))

theorem getElem? : ∃ bucket, summary.buckets[bid]? = some bucket :=
  ⟨_, List.getElem?_eq_getElem (list.inside member)⟩

theorem readAt :
    ∃ bucket, Arena.readAt summary.buckets (some bid) = .ok bucket ∧
      bucket.count = bucketCount summary.buckets bid ∧
      bucket.head = bucketFirst summary.buckets bid ∧
      bucket.prev = bucketPrev summary.buckets bid ∧
      bucket.next = bucketNext summary.buckets bid := by
  obtain ⟨bucket, present⟩ := list.getElem? member
  exact ⟨bucket, readAt_some present, (fieldAt_of_getElem? present).symm,
    (fieldAt_of_getElem? present).symm, (fieldAt_of_getElem? present).symm,
    (fieldAt_of_getElem? present).symm⟩

end BucketList

/-! ### Inserting a bucket -/

/-- A bucket placed in the arena takes an index outside the live buckets and leaves them as they
are. -/
theorem placeBucket_spec {buckets : List Bucket} {bucketFree live : List ℕ}
    (partition : (live ++ bucketFree).Perm (List.range buckets.length)) (bucket : Bucket) :
    ∃ buckets' bucketFree' bid, placeBucket buckets bucketFree bucket =
        .ok (buckets', bucketFree', bid) ∧
      (bid :: (live ++ bucketFree')).Perm (List.range buckets'.length) ∧
      buckets'[bid]? = some bucket ∧ ∀ other ∈ live, buckets'[other]? = buckets[other]? := by
  have distinct : (live ++ bucketFree).Nodup := partition.nodup_iff.mpr List.nodup_range
  cases bucketFree with
  | nil =>
    refine ⟨buckets ++ [bucket], [], buckets.length, rfl, ?_, by simp, ?_⟩
    · rw [List.length_append, List.length_singleton, List.range_succ]
      exact (List.Perm.cons _ partition).trans (List.perm_append_singleton _ _).symm
    · intro other member
      have inside : other < buckets.length :=
        List.mem_range.mp (partition.subset (List.mem_append_left _ member))
      exact List.getElem?_append_left inside
  | cons bid rest =>
    have inside : bid < buckets.length :=
      List.mem_range.mp (partition.subset (by simp))
    refine ⟨buckets.modify bid fun _ => bucket, rest, bid, ?_, ?_, ?_, ?_⟩
    · rw [placeBucket, writeAt_some _ inside]
      rfl
    · rw [List.length_modify]
      exact List.perm_middle.symm.trans partition
    · rw [List.getElem?_modify_eq, List.getElem?_eq_getElem inside]
      rfl
    · intro other member
      refine List.getElem?_modify_ne _ _ ?_
      rintro rfl
      exact (List.nodup_append.mp distinct).2.2 bid member bid List.mem_cons_self rfl

/-- A fresh bucket between the live buckets below its count and those above it. -/
theorem insertBucket_spec {summary : SpaceSaving} {below above : List ℕ}
    (list : BucketList summary (below ++ above)) {count : ℕ}
    (lower : ∀ bid ∈ below, bucketCount summary.buckets bid < count)
    (upper : ∀ bid ∈ above, count < bucketCount summary.buckets bid)
    (positive : 0 < count) (capped : count ≤ u64Max) :
    ∃ summary' bid, insertBucket summary below.getLast? above.head? count = .ok (summary', bid) ∧
      BucketList summary' (below ++ bid :: above) ∧ SameCounters summary summary' ∧
      bucketCount summary'.buckets bid = count ∧ bucketFirst summary'.buckets bid = none ∧
      SameBuckets summary.buckets summary'.buckets (below ++ above) := by
  let bucket : Bucket :=
    { count := count, head := none, prev := below.getLast?, next := above.head? }
  obtain ⟨placed, bucketFree, bid, placing, partition, present, kept⟩ :=
    placeBucket_spec list.partition bucket
  have fresh : bid ∉ below ++ above := by
    have distinct := partition.nodup_iff.mpr List.nodup_range
    exact fun member => (List.nodup_cons.mp distinct).1 (List.mem_append_left _ member)
  have inside : ∀ other ∈ below ++ above, other < placed.length := fun other member =>
    List.mem_range.mp (partition.subset (List.mem_cons_of_mem _ (List.mem_append_left _ member)))
  have freshBelow : below.getLast? ≠ some bid := fun same =>
    fresh (List.mem_append_left _ (List.mem_of_getLast? same))
  have freshAbove : above.head? ≠ some bid := fun same =>
    fresh (List.mem_append_right _ (List.mem_of_head? same))
  let linked := modifyAt placed below.getLast? fun other => { other with next := some bid }
  let buckets := modifyAt linked above.head? fun other => { other with prev := some bid }
  have linkedEq : writeIfSome placed below.getLast? (fun other => { other with next := some bid }) =
      .ok linked := writeIfSome_eq _ fun index same =>
    inside index (List.mem_append_left _ (List.mem_of_getLast? same))
  have bucketsEq : writeIfSome linked above.head? (fun other => { other with prev := some bid }) =
      .ok buckets := writeIfSome_eq _ fun index same => by
    rw [length_modifyAt]
    exact inside index (List.mem_append_right _ (List.mem_of_head? same))
  have countEq : ∀ other, bucketCount buckets other = bucketCount placed other := fun other => by
    rw [bucketCount, fieldAt_modifyAt_of_keep, fieldAt_modifyAt_of_keep] <;> exact fun _ => rfl
  have firstEq : ∀ other, bucketFirst buckets other = bucketFirst placed other := fun other => by
    rw [bucketFirst, fieldAt_modifyAt_of_keep, fieldAt_modifyAt_of_keep] <;> exact fun _ => rfl
  have nextEq : ∀ other, bucketNext buckets other = bucketNext linked other := fun other => by
    rw [bucketNext, fieldAt_modifyAt_of_keep]
    exact fun _ => rfl
  have prevEq : ∀ other, bucketPrev linked other = bucketPrev placed other := fun other => by
    rw [bucketPrev, fieldAt_modifyAt_of_keep]
    exact fun _ => rfl
  have old : ∀ {Value : Type} (get : Bucket → Value) (default : Value), ∀ other ∈ below ++ above,
      fieldAt get default placed other = fieldAt get default summary.buckets other := by
    intro Value get default other member
    unfold fieldAt
    rw [kept other member]
  have countOld : ∀ other ∈ below ++ above,
      bucketCount buckets other = bucketCount summary.buckets other := fun other member =>
    (countEq other).trans (old _ _ other member)
  have countNew : bucketCount buckets bid = count := by
    rw [countEq, bucketCount, fieldAt_of_getElem? present]
  refine ⟨{ summary with
    buckets := buckets
    bucketFree := bucketFree
    bucketHead := if below.getLast? ≠ none then summary.bucketHead else some bid
    bucketTail := if above.head? ≠ none then summary.bucketTail else some bid }, bid, ?_, ?_,
    ⟨rfl, rfl, rfl, rfl, rfl⟩, countNew, ?_, ?_⟩
  · simp only [insertBucket]
    rw [placing]
    simp only [bind, Except.bind]
    rw [linkedEq]
    simp only
    rw [bucketsEq]
    rfl
  · refine ⟨?_, ?_, ?_, ?_, ?_, ?_, ?_⟩
    · show ((below ++ bid :: above) ++ bucketFree).Perm (List.range buckets.length)
      rw [length_modifyAt, length_modifyAt, List.append_assoc, List.cons_append]
      exact List.perm_middle.trans (by rw [← List.append_assoc]; exact partition)
    · refine list.linked.insert list.nodup ?_ ?_ ?_ ?_ ?_ ?_
      · rw [bucketPrev, fieldAt_modifyAt_of_ne _ freshAbove, ← bucketPrev, prevEq, bucketPrev,
          fieldAt_of_getElem? present]
      · rw [nextEq, bucketNext, fieldAt_modifyAt_of_ne _ freshBelow, fieldAt_of_getElem? present]
      · intro other same
        rw [nextEq, bucketNext, fieldAt_modifyAt_self _ same
          (inside other (List.mem_append_left _ (List.mem_of_getLast? same)))]
      · intro other same
        rw [bucketPrev, fieldAt_modifyAt_self _ same]
        rw [length_modifyAt]
        exact inside other (List.mem_append_right _ (List.mem_of_head? same))
      · intro other member different
        rw [nextEq, bucketNext, fieldAt_modifyAt_of_ne _ different]
        exact old _ _ other member
      · intro other member different
        rw [bucketPrev, fieldAt_modifyAt_of_ne _ different, ← bucketPrev, prevEq]
        exact old _ _ other member
    · show (if below.getLast? ≠ none then summary.bucketHead else some bid) = _
      rw [list.head]
      cases below with
      | nil => rfl
      | cons first rest => rw [if_pos (by simp)]; rfl
    · show (if above.head? ≠ none then summary.bucketTail else some bid) = _
      rw [list.tail]
      cases above with
      | nil => simp
      | cons first rest => rw [if_pos (by simp)]; simp
    · show (below ++ bid :: above).Pairwise _
      obtain ⟨belowIncreasing, aboveIncreasing, between⟩ := List.pairwise_append.mp list.increasing
      refine List.pairwise_append.mpr ⟨?_, List.pairwise_cons.mpr ⟨?_, ?_⟩, ?_⟩
      · refine belowIncreasing.imp_of_mem fun {left right} leftMember rightMember less => ?_
        rw [countOld left (List.mem_append_left _ leftMember),
          countOld right (List.mem_append_left _ rightMember)]
        exact less
      · intro other member
        rw [countNew, countOld other (List.mem_append_right _ member)]
        exact upper other member
      · refine aboveIncreasing.imp_of_mem fun {left right} leftMember rightMember less => ?_
        rw [countOld left (List.mem_append_right _ leftMember),
          countOld right (List.mem_append_right _ rightMember)]
        exact less
      · intro left leftMember right rightMember
        rw [countOld left (List.mem_append_left _ leftMember)]
        rcases List.mem_cons.mp rightMember with rfl | rightMember
        · rw [countNew]
          exact lower left leftMember
        · rw [countOld right (List.mem_append_right _ rightMember)]
          exact between left leftMember right rightMember
    · intro other member
      rcases List.mem_append.mp member with member | member
      · rw [countOld other (List.mem_append_left _ member)]
        exact list.positive other (List.mem_append_left _ member)
      · rcases List.mem_cons.mp member with rfl | member
        · rw [countNew]
          exact positive
        · rw [countOld other (List.mem_append_right _ member)]
          exact list.positive other (List.mem_append_right _ member)
    · intro other member
      rcases List.mem_append.mp member with member | member
      · rw [countOld other (List.mem_append_left _ member)]
        exact list.capped other (List.mem_append_left _ member)
      · rcases List.mem_cons.mp member with rfl | member
        · rw [countNew]
          exact capped
        · rw [countOld other (List.mem_append_right _ member)]
          exact list.capped other (List.mem_append_right _ member)
  · rw [firstEq, bucketFirst, fieldAt_of_getElem? present]
  · exact fun other member =>
      ⟨countOld other member, (firstEq other).trans (old _ _ other member)⟩

/-! ### Finding the bucket of a count -/

/-- The walk stops between the live buckets below the count and those not below it. The fuel of
a walk over the whole arena is enough. -/
theorem bucketWalk_spec {summary : SpaceSaving} {front back : List ℕ}
    (list : BucketList summary (front ++ back)) {count : ℕ}
    (lower : ∀ bid ∈ front, bucketCount summary.buckets bid < count) (fuel : ℕ)
    (enough : back.length < fuel) :
    ∃ below above, bucketWalk summary.buckets count fuel front.getLast? back.head? =
        .ok (below.getLast?, above.head?) ∧ front ++ back = below ++ above ∧ front <+: below ∧
      (∀ bid ∈ below, bucketCount summary.buckets bid < count) ∧
      ∀ bid ∈ above, count ≤ bucketCount summary.buckets bid := by
  induction fuel generalizing front back with
  | zero => exact absurd enough (Nat.not_lt_zero _)
  | succ fuel hypothesis =>
    cases back with
    | nil => exact ⟨front, [], rfl, rfl, List.prefix_rfl, lower, by simp⟩
    | cons bid rest =>
      have member : bid ∈ front ++ bid :: rest := by simp
      obtain ⟨bucket, reading, countEq, -, -, nextEq⟩ := list.readAt member
      simp only [List.head?_cons, bucketWalk, reading, bind, Except.bind]
      by_cases less : bucket.count < count
      · rw [if_pos less, nextEq.trans list.linked.next_eq]
        have regroup : front ++ bid :: rest = (front ++ [bid]) ++ rest := by simp
        have shorter : rest.length < fuel := by
          rw [List.length_cons] at enough
          exact Nat.lt_of_succ_lt_succ enough
        have lower' : ∀ other ∈ front ++ [bid], bucketCount summary.buckets other < count := by
          intro other member
          rcases List.mem_append.mp member with member | member
          · exact lower other member
          · rw [List.mem_singleton.mp member, ← countEq]
            exact less
        obtain ⟨below, above, walk, split, extends_, found⟩ :=
          hypothesis (regroup ▸ list) lower' shorter
        refine ⟨below, above, ?_, regroup.trans split,
          (List.prefix_append front [bid]).trans extends_, found⟩
        rw [List.getLast?_concat] at walk
        exact walk
      · rw [if_neg less]
        refine ⟨front, bid :: rest, rfl, rfl, List.prefix_rfl, lower, ?_⟩
        have lowest : count ≤ bucketCount summary.buckets bid := countEq ▸ Nat.le_of_not_lt less
        intro other member
        rcases List.mem_cons.mp member with rfl | member
        · exact lowest
        · have increasing := (List.pairwise_append.mp list.increasing).2.1
          exact lowest.trans (List.rel_of_pairwise_cons increasing member).le

/-- What `bucket_for` leaves: a live bucket at the count, which was live already or is a fresh
empty one put in its place. -/
structure BucketFound (summary : SpaceSaving) (live : List ℕ) (count : ℕ)
    (summary' : SpaceSaving) (bid : ℕ) (live' : List ℕ) : Prop where
  list : BucketList summary' live'
  member : bid ∈ live'
  countEq : bucketCount summary'.buckets bid = count
  counters : SameCounters summary summary'
  buckets : SameBuckets summary.buckets summary'.buckets live
  kept : ∀ other, other ∈ live' ↔ other ∈ live ∨ other = bid
  fresh : bid ∉ live → bucketFirst summary'.buckets bid = none

/-- The search from a starting point with only lower buckets behind it. -/
theorem bucketFor_of_walk {summary : SpaceSaving} {front back : List ℕ}
    (list : BucketList summary (front ++ back)) {count : ℕ}
    (starting : walkStart summary front.getLast? = .ok back.head?)
    (lower : ∀ bid ∈ front, bucketCount summary.buckets bid < count)
    (positive : 0 < count) (capped : count ≤ u64Max) :
    ∃ summary' bid live', bucketFor summary front.getLast? count = .ok (summary', bid) ∧
      BucketFound summary (front ++ back) count summary' bid live' := by
  have enough : back.length < summary.buckets.length + 1 := by
    have whole := list.partition.length_eq
    simp only [List.length_append, List.length_range] at whole
    omega
  obtain ⟨below, above, walk, split, -, lower', upper⟩ :=
    bucketWalk_spec list lower (summary.buckets.length + 1) enough
  rw [split] at list ⊢
  have inserted (upper : ∀ bid ∈ above, count < bucketCount summary.buckets bid) :
      ∃ summary' bid live', insertBucket summary below.getLast? above.head? count =
          .ok (summary', bid) ∧
        BucketFound summary (below ++ above) count summary' bid live' := by
    obtain ⟨summary', bid, inserting, list', same, countEq, firstEq, buckets⟩ :=
      insertBucket_spec list lower' upper positive capped
    refine ⟨summary', bid, below ++ bid :: above, inserting, list', by simp, countEq, same, buckets,
      ?_, fun _ => firstEq⟩
    intro other
    simp only [List.mem_append, List.mem_cons]
    tauto
  simp only [bucketFor, starting, walk, bind, Except.bind]
  cases above with
  | nil => exact inserted (by simp)
  | cons id rest =>
    have member : id ∈ below ++ id :: rest := by simp
    obtain ⟨bucket, reading, countEq, -⟩ := list.readAt member
    simp only [List.head?_cons, reading]
    by_cases same : bucket.count = count
    · rw [if_pos same]
      refine ⟨summary, id, below ++ id :: rest, rfl, list, member, countEq ▸ same, .refl _,
        .refl _ _, ?_, fun absent => absurd member absent⟩
      intro other
      refine ⟨Or.inl, ?_⟩
      rintro (member | rfl)
      · exact member
      · simp
    · rw [if_neg same]
      refine inserted fun other memberOther => ?_
      have lowest : count < bucketCount summary.buckets id :=
        lt_of_le_of_ne (upper id List.mem_cons_self) fun equal => same (countEq.trans equal.symm)
      rcases List.mem_cons.mp memberOther with rfl | memberRest
      · exact lowest
      · have increasing := (List.pairwise_append.mp list.increasing).2.1
        exact lowest.trans (List.rel_of_pairwise_cons increasing memberRest)

theorem bucketFor_none {summary : SpaceSaving} {live : List ℕ} (list : BucketList summary live)
    {count : ℕ} (positive : 0 < count) (capped : count ≤ u64Max) :
    ∃ summary' bid live', bucketFor summary none count = .ok (summary', bid) ∧
      BucketFound summary live count summary' bid live' := by
  have whole : BucketList summary ([] ++ live) := list
  refine bucketFor_of_walk whole ?_ (by simp) positive capped
  rw [← list.head]
  rfl

theorem bucketFor_some {summary : SpaceSaving} {live : List ℕ} (list : BucketList summary live)
    {source count : ℕ} (member : source ∈ live)
    (lower : bucketCount summary.buckets source < count) (capped : count ≤ u64Max) :
    ∃ summary' bid live', bucketFor summary (some source) count = .ok (summary', bid) ∧
      BucketFound summary live count summary' bid live' := by
  obtain ⟨bucket, reading, -, -, -, nextEq⟩ := list.readAt member
  obtain ⟨front, back, rfl⟩ := List.append_of_mem member
  have starting : walkStart summary (some source) = .ok back.head? := by
    simp only [walkStart, reading, Functor.map, Except.map]
    rw [nextEq.trans list.linked.next_eq]
  have below : ∀ bid ∈ front ++ [source], bucketCount summary.buckets bid < count := by
    intro bid memberBid
    rcases List.mem_append.mp memberBid with memberBid | memberBid
    · refine lt_trans ?_ lower
      exact (List.pairwise_append.mp list.increasing).2.2 bid memberBid source List.mem_cons_self
    · rw [List.mem_singleton.mp memberBid]
      exact lower
  have last : (front ++ [source]).getLast? = some source := List.getLast?_concat
  have regroup : front ++ source :: back = (front ++ [source]) ++ back := by simp
  rw [regroup] at list ⊢
  rw [← last] at starting ⊢
  exact bucketFor_of_walk list starting below (Nat.zero_lt_of_lt lower) capped

/-! ### Dropping a bucket -/

/-- An emptied bucket with live buckets above it is taken out of the list. -/
theorem dropBucket_spec {summary : SpaceSaving} {below above : List ℕ} {bid : ℕ}
    (list : BucketList summary (below ++ bid :: above)) (notLast : above ≠ []) :
    ∃ summary', dropBucket summary bid = .ok summary' ∧ BucketList summary' (below ++ above) ∧
      SameCounters summary summary' ∧
      SameBuckets summary.buckets summary'.buckets (below ++ above) := by
  have distinct := list.nodup
  have member : bid ∈ below ++ bid :: above := by simp
  have sub : ∀ other ∈ below ++ above, other ∈ below ++ bid :: above := by
    intro other memberOther
    rcases List.mem_append.mp memberOther with memberOther | memberOther
    · exact List.mem_append_left _ memberOther
    · exact List.mem_append_right _ (List.mem_cons_of_mem _ memberOther)
  have gone : bid ∉ below ++ above := by
    have moved := List.perm_middle.nodup_iff.mp distinct
    exact (List.nodup_cons.mp moved).1
  obtain ⟨bucket, reading, -, -, prevEq, nextEq⟩ := list.readAt member
  have bucketPrevEq : bucket.prev = below.getLast? := prevEq.trans list.linked.prev_eq
  have bucketNextEq : bucket.next = above.head? := nextEq.trans list.linked.next_eq
  obtain ⟨upper, rest, rfl⟩ := List.exists_cons_of_ne_nil notLast
  have goneBelow : below.getLast? ≠ some bid := fun same =>
    gone (List.mem_append_left _ (List.mem_of_getLast? same))
  let unlinked := modifyAt summary.buckets below.getLast? fun other =>
    { other with next := some upper }
  let relinked := modifyAt unlinked (some upper) fun other => { other with prev := below.getLast? }
  let buckets := modifyAt relinked (some bid) fun other =>
    { other with head := none, prev := none, next := none }
  have unlinkedEq : writeIfSome summary.buckets below.getLast?
      (fun other => { other with next := some upper }) = .ok unlinked :=
    writeIfSome_eq _ fun index same =>
      list.inside (List.mem_append_left _ (List.mem_of_getLast? same))
  have relinkedEq : writeAt unlinked (some upper)
      (fun other => { other with prev := below.getLast? }) = .ok relinked := by
    refine writeAt_some _ ?_
    rw [length_modifyAt]
    exact list.inside (sub upper (by simp))
  have bucketsEq : writeAt relinked (some bid)
      (fun other => { other with head := none, prev := none, next := none }) = .ok buckets := by
    refine writeAt_some _ ?_
    rw [length_modifyAt, length_modifyAt]
    exact list.inside member
  have other_ne : ∀ other ∈ below ++ upper :: rest, some bid ≠ some other := by
    intro other memberOther same
    exact gone (Option.some.inj same ▸ memberOther)
  have countOld : ∀ other, bucketCount buckets other = bucketCount summary.buckets other := by
    intro other
    rw [bucketCount, fieldAt_modifyAt_of_keep, fieldAt_modifyAt_of_keep, fieldAt_modifyAt_of_keep]
    <;> exact fun _ => rfl
  have firstOld : ∀ other ∈ below ++ upper :: rest,
      bucketFirst buckets other = bucketFirst summary.buckets other := by
    intro other memberOther
    rw [bucketFirst, fieldAt_modifyAt_of_ne _ (other_ne other memberOther),
      fieldAt_modifyAt_of_keep, fieldAt_modifyAt_of_keep] <;> exact fun _ => rfl
  refine ⟨{ summary with
    buckets := buckets
    bucketFree := bid :: summary.bucketFree
    bucketHead := if below.getLast? ≠ none then summary.bucketHead else some upper }, ?_, ?_,
    ⟨rfl, rfl, rfl, rfl, rfl⟩, fun other memberOther =>
      ⟨countOld other, firstOld other memberOther⟩⟩
  · simp only [dropBucket, reading, bind, Except.bind, bucketPrevEq, bucketNextEq,
      List.head?_cons]
    rw [unlinkedEq]
    simp only [reduceCtorEq, if_false, relinkedEq, bucketsEq]
    rfl
  · refine ⟨?_, ?_, ?_, ?_, ?_, ?_, ?_⟩
    · show ((below ++ upper :: rest) ++ bid :: summary.bucketFree).Perm
        (List.range buckets.length)
      rw [length_modifyAt, length_modifyAt, length_modifyAt]
      refine List.Perm.trans ?_ list.partition
      refine List.perm_middle.trans ?_
      rw [← List.cons_append]
      exact List.perm_middle.symm.append_right _
    · refine list.linked.remove distinct ?_ ?_ ?_ ?_
      · intro other same
        rw [bucketNext, fieldAt_modifyAt_of_ne _
          (other_ne other (List.mem_append_left _ (List.mem_of_getLast? same))),
          fieldAt_modifyAt_of_keep, fieldAt_modifyAt_self _ same]
        · rfl
        · exact list.inside (List.mem_append_left _ (List.mem_of_getLast? same))
        · exact fun _ => rfl
      · intro other same
        have memberOther : other ∈ below ++ upper :: rest :=
          List.mem_append_right _ (List.mem_of_head? same)
        rw [List.head?_cons] at same
        rw [bucketPrev, fieldAt_modifyAt_of_ne _ (other_ne other memberOther),
          fieldAt_modifyAt_self _ same]
        rw [length_modifyAt]
        exact list.inside (sub other memberOther)
      · intro other memberOther different
        rw [bucketNext, fieldAt_modifyAt_of_ne _ (other_ne other memberOther),
          fieldAt_modifyAt_of_keep, fieldAt_modifyAt_of_ne _ different]
        exact fun _ => rfl
      · intro other memberOther different
        rw [List.head?_cons] at different
        rw [bucketPrev, fieldAt_modifyAt_of_ne _ (other_ne other memberOther),
          fieldAt_modifyAt_of_ne _ different, fieldAt_modifyAt_of_keep]
        exact fun _ => rfl
    · show (if below.getLast? ≠ none then summary.bucketHead else some upper) = _
      rw [list.head]
      cases below with
      | nil => rfl
      | cons first others => rw [if_pos (by simp)]; rfl
    · show summary.bucketTail = _
      rw [list.tail]
      simp
    · show (below ++ upper :: rest).Pairwise _
      simp only [countOld]
      refine list.increasing.sublist (List.Sublist.append_left ?_ _)
      exact List.sublist_cons_self _ _
    · intro other memberOther
      rw [countOld]
      exact list.positive other (sub other memberOther)
    · intro other memberOther
      rw [countOld]
      exact list.capped other (sub other memberOther)

end SpaceSaving

end AsapSketchlib
