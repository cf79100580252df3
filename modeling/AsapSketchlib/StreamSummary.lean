/-
This file states what the arenas of a Space-Saving summary look like between operations
and proves that seating a counter and raising one keep it so. The links form a bucket
list and its chains, no live bucket is empty, and the digest index files every counter
once, under its own digest.

What an operation does to the answers of the summary is stated over `counters`, the
monitored keys with their counts and errors and no links at all.
-/

import AsapSketchlib.CounterChains

namespace AsapSketchlib

open Arena DoublyLinked

/-- A monitored key as the queries see it. -/
structure Counter where
  key : HeapItem
  digest : BitVec 64
  count : ℕ
  error : ℕ

def Counter.ofLabel (count : ℕ) (label : HeapItem × BitVec 64 × ℕ) : Counter :=
  { key := label.1, digest := label.2.1, count := count, error := label.2.2 }

namespace SpaceSaving

def countAt (summary : SpaceSaving) (cid : ℕ) : ℕ :=
  match counterBucket summary.monitored cid with
  | some bid => bucketCount summary.buckets bid
  | none => 0

/-- The monitored keys with their counts and errors. -/
def counters (summary : SpaceSaving) : List Counter :=
  summary.monitored.map fun counter =>
    Counter.ofLabel
      (match counter.bucket with
        | some bid => bucketCount summary.buckets bid
        | none => 0) (label counter)

theorem length_counters (summary : SpaceSaving) :
    (counters summary).length = summary.monitored.length := List.length_map _

theorem counters_getElem? (summary : SpaceSaving) (cid : ℕ) :
    (counters summary)[cid]? =
      ((summary.monitored.map label)[cid]?).map (Counter.ofLabel (countAt summary cid)) := by
  rw [counters, List.getElem?_map, List.getElem?_map, countAt, counterBucket, fieldAt]
  cases summary.monitored[cid]? with
  | none => rfl
  | some counter => rfl

theorem countAt_eq_count {summary : SpaceSaving} {cid : ℕ} {counter : Counter}
    (found : (counters summary)[cid]? = some counter) : countAt summary cid = counter.count := by
  rw [counters_getElem?] at found
  obtain ⟨tag, -, rfl⟩ := Option.map_eq_some_iff.mp found
  rfl

/-! ### The invariant -/

/-- The links of a summary: the bucket list, and a chain of counters for every live bucket. -/
structure Links (summary : SpaceSaving) (live : List ℕ) (chain : ℕ → List ℕ) : Prop where
  list : BucketList summary live
  chains : CounterChains summary live chain (List.range summary.monitored.length)
  occupied : ∀ bid ∈ live, chain bid ≠ []

def digestAt (summary : SpaceSaving) (cid : ℕ) : Option (BitVec 64) :=
  (summary.monitored[cid]?).map MonitoredKey.digest

/-- The structure of a summary: its links and its index. -/
structure Structured (summary : SpaceSaving) : Prop where
  links : ∃ live chain, Links summary live chain
  indexed : DigestIndex.Files summary.index (digestAt summary)

namespace Links

variable {summary : SpaceSaving} {live : List ℕ} {chain : ℕ → List ℕ}

theorem exists_bucket (links : Links summary live chain) {cid : ℕ}
    (inside : cid < summary.monitored.length) : ∃ bid ∈ live, cid ∈ chain bid :=
  links.chains.exists_bucket (List.mem_range.mpr inside)

section

variable (links : Links summary live chain) {bid cid : ℕ} (member : bid ∈ live)
  (inChain : cid ∈ chain bid)

include links member inChain

theorem inside : cid < summary.monitored.length :=
  links.chains.inside cid (links.chains.placed_of_mem member inChain)

theorem readCounter :
    ∃ counter, summary.monitored[cid]? = some counter ∧ counter.bucket = some bid := by
  refine ⟨_, List.getElem?_eq_getElem (links.inside member inChain), ?_⟩
  rw [← links.chains.owner bid member cid inChain, counterBucket,
    fieldAt_of_getElem? (List.getElem?_eq_getElem (links.inside member inChain))]

end

theorem congr {summary' : SpaceSaving} (links : Links summary live chain)
    (buckets : summary'.buckets = summary.buckets)
    (bucketFree : summary'.bucketFree = summary.bucketFree)
    (bucketHead : summary'.bucketHead = summary.bucketHead)
    (bucketTail : summary'.bucketTail = summary.bucketTail)
    (length : summary'.monitored.length = summary.monitored.length)
    (prev : ∀ cid, counterPrev summary'.monitored cid = counterPrev summary.monitored cid)
    (next : ∀ cid, counterNext summary'.monitored cid = counterNext summary.monitored cid)
    (bucket : ∀ cid, counterBucket summary'.monitored cid = counterBucket summary.monitored cid) :
    Links summary' live chain where
  list := by
    refine links.list.congr bucketFree bucketHead bucketTail ?_ ?_ ?_ ?_
    all_goals simp only [buckets, implies_true]
  chains :=
    { cover := length ▸ links.chains.cover
      distinct := List.nodup_range
      inside := fun _ member => List.mem_range.mp member
      first := by
        rw [buckets]
        exact links.chains.first
      linked := fun bid member =>
        (links.chains.linked bid member).congr (fun cid _ => prev cid) fun cid _ => next cid
      owner := fun bid member cid inChain =>
        (bucket cid).trans (links.chains.owner bid member cid inChain) }
  occupied := links.occupied

end Links

theorem CounterChains.countAt_eq {summary : SpaceSaving} {live placed : List ℕ}
    {chain : ℕ → List ℕ} (chains : CounterChains summary live chain placed) {bid cid : ℕ}
    (member : bid ∈ live) (inChain : cid ∈ chain bid) :
    countAt summary cid = bucketCount summary.buckets bid := by
  rw [countAt, chains.owner bid member cid inChain]

/-! ### Raising a counter -/

/-- A counter moves to the bucket of its new count; no other counter changes. -/
theorem raise_links {summary : SpaceSaving} {live : List ℕ} {chain : ℕ → List ℕ}
    (links : Links summary live chain) {cid : ℕ} (inside : cid < summary.monitored.length)
    (weight : ℕ) :
    ∃ summary' live' chain', raise summary cid weight = .ok summary' ∧
      Links summary' live' chain' ∧ SameLabels summary summary' ∧
      countAt summary' cid = saturatingAdd (countAt summary cid) weight ∧
      ∀ other < summary.monitored.length, other ≠ cid →
        countAt summary' other = countAt summary other := by
  obtain ⟨source, member, inChain⟩ := links.exists_bucket inside
  obtain ⟨counter, present, bucketEq⟩ := links.readCounter member inChain
  obtain ⟨bucket, reading, countEq, -⟩ := links.list.readAt member
  have countAtEq : countAt summary cid = bucket.count :=
    (links.chains.countAt_eq member inChain).trans countEq.symm
  simp only [raise, readAt_some present, bucketEq, reading, bind, Except.bind, countAtEq]
  by_cases same : saturatingAdd bucket.count weight = bucket.count
  · rw [if_pos same]
    exact ⟨summary, live, chain, rfl, links, .refl _, countAtEq.trans same.symm,
      fun _ _ _ => rfl⟩
  · rw [if_neg same]
    have capped : bucket.count ≤ u64Max := countEq ▸ links.list.capped source member
    have lower : bucketCount summary.buckets source < saturatingAdd bucket.count weight := by
      rw [← countEq]
      unfold saturatingAdd at same ⊢
      omega
    obtain ⟨found, target, live₁, finding, place⟩ :=
      bucketFor_some links.list member lower (saturatingAdd_le_max _ _)
    simp only [finding]
    -- The destination is a bucket of its own, at a higher count than the source.
    have different : target ≠ source := by
      rintro rfl
      have targetCount := (place.buckets target member).1
      rw [place.countEq] at targetCount
      exact absurd targetCount.symm lower.ne
    obtain ⟨chain₁, chains₁, oldChain⟩ := place.exists_chains links.list links.chains
    have memberFound : source ∈ live₁ := (place.kept source).mpr (Or.inl member)
    have sourceCount : bucketCount found.buckets source = bucket.count :=
      ((place.buckets source member).1).trans countEq.symm
    have notLast : live₁.getLast? ≠ some source := by
      intro last
      obtain ⟨front, split⟩ := List.getLast?_eq_some_iff.mp last
      have increasing := place.list.increasing
      rw [split] at increasing
      have inFront : target ∈ front := by
        have inside := place.member
        rw [split] at inside
        exact (List.mem_append.mp inside).resolve_right fun single =>
          different (List.mem_singleton.mp single)
      have less := (List.pairwise_append.mp increasing).2.2 target inFront source
        (List.mem_singleton.mpr rfl)
      rw [place.countEq, sourceCount] at less
      exact (lower.trans less).ne countEq.symm
    obtain ⟨detached, live₂, detaching, list₂, chains₂, labels₂, counts₂, kept₂⟩ :=
      detach_spec place.list chains₁ memberFound ((oldChain source member).symm ▸ inChain) notLast
    simp only [detaching]
    have memberTarget : target ∈ live₂ :=
      (kept₂ target).mpr ⟨place.member, fun equal => absurd equal different⟩
    have labels : SameLabels summary detached := place.counters.sameLabels.trans labels₂
    have loose : cid ∉ (List.range summary.monitored.length).erase cid := fun stays =>
      (List.nodup_range.mem_erase_iff.mp stays).1 rfl
    obtain ⟨attached, attaching, list₃, chains₃, labels₃, counts₃⟩ :=
      attach_spec list₂ chains₂ memberTarget (labels.length.symm ▸ inside) loose
    let chain₂ := Function.update chain₁ source ((chain₁ source).erase cid)
    let chain₃ := Function.update chain₂ target (cid :: chain₂ target)
    have counts : ∀ bid ∈ live₂, bucketCount attached.buckets bid = bucketCount found.buckets bid :=
      fun bid memberBid => (counts₃ bid).trans (counts₂ bid memberBid)
    refine ⟨attached, live₂, chain₃, attaching, ⟨list₃, ?_, ?_⟩, labels.trans labels₃, ?_, ?_⟩
    · have range : (cid :: (List.range summary.monitored.length).erase cid).Perm
          (List.range attached.monitored.length) := by
        rw [(labels.trans labels₃).length]
        exact (List.perm_cons_erase (List.mem_range.mpr inside)).symm
      refine ⟨chains₃.cover.trans range, List.nodup_range, ?_, chains₃.first, chains₃.linked,
        chains₃.owner⟩
      exact fun other memberOther => List.mem_range.mp memberOther
    · intro bid memberBid
      by_cases isTarget : bid = target
      · subst isTarget
        show Function.update chain₂ bid (cid :: chain₂ bid) bid ≠ []
        rw [Function.update_self]
        exact List.cons_ne_nil _ _
      · show Function.update chain₂ target _ bid ≠ []
        rw [Function.update_of_ne isTarget]
        show Function.update chain₁ source _ bid ≠ []
        obtain ⟨memberOld, nonempty⟩ := (kept₂ bid).mp memberBid
        by_cases isSource : bid = source
        · subst isSource
          rw [Function.update_self]
          exact nonempty rfl
        · rw [Function.update_of_ne isSource]
          have memberLive : bid ∈ live := ((place.kept bid).mp memberOld).resolve_right isTarget
          rw [oldChain bid memberLive]
          exact links.occupied bid memberLive
    · have inTarget : cid ∈ chain₃ target := by
        show cid ∈ Function.update chain₂ target (cid :: chain₂ target) target
        rw [Function.update_self]
        exact List.mem_cons_self
      rw [chains₃.countAt_eq memberTarget inTarget, counts target memberTarget, place.countEq]
    · intro other insideOther differentOther
      obtain ⟨bid, memberBid, inBid⟩ := links.exists_bucket insideOther
      have inOld : other ∈ chain₁ bid := (oldChain bid memberBid).symm ▸ inBid
      have inSecond : other ∈ chain₂ bid := by
        show other ∈ Function.update chain₁ source _ bid
        by_cases isSource : bid = source
        · subst isSource
          rw [Function.update_self]
          exact (List.mem_erase_of_ne differentOther).mpr inOld
        · rw [Function.update_of_ne isSource]
          exact inOld
      have memberSecond : bid ∈ live₂ := by
        refine (kept₂ bid).mpr ⟨(place.kept bid).mpr (Or.inl memberBid), ?_⟩
        rintro rfl
        exact List.ne_nil_of_mem ((List.mem_erase_of_ne differentOther).mpr inOld)
      have inThird : other ∈ chain₃ bid := by
        show other ∈ Function.update chain₂ target _ bid
        by_cases isTarget : bid = target
        · subst isTarget
          rw [Function.update_self]
          exact List.mem_cons_of_mem _ inSecond
        · rw [Function.update_of_ne isTarget]
          exact inSecond
      rw [chains₃.countAt_eq memberSecond inThird, links.chains.countAt_eq memberBid inBid,
        counts bid memberSecond]
      exact (place.buckets bid memberBid).1

/-! ### Seating a counter -/

/-- A new counter is chained into the bucket of its count and filed; no other counter changes. -/
theorem seat_links {summary : SpaceSaving} {live : List ℕ} {chain : ℕ → List ℕ}
    (links : Links summary live chain) (digest : BitVec 64) (key : HeapItem) {count : ℕ} (error : ℕ)
    (positive : 0 < count) (capped : count ≤ u64Max) :
    ∃ summary' live' chain', seat summary digest key count error = .ok summary' ∧
      Links summary' live' chain' ∧
      summary'.monitored.map label = summary.monitored.map label ++ [(key, digest, error)] ∧
      countAt summary' summary.monitored.length = count ∧
      (∀ other < summary.monitored.length, countAt summary' other = countAt summary other) ∧
      summary'.index = (file summary digest summary.monitored.length).index ∧
      summary'.capacity = summary.capacity ∧ summary'.total = summary.total ∧
      summary'.discardedMax = summary.discardedMax := by
  let cid := summary.monitored.length
  let counter : MonitoredKey :=
    { key := key, digest := digest, error := error, bucket := none, prev := none, next := none }
  let pushed : SpaceSaving := { summary with monitored := summary.monitored ++ [counter] }
  have listPushed : BucketList pushed live :=
    links.list.congr rfl rfl rfl rfl (fun _ => rfl) (fun _ => rfl) fun _ => rfl
  have chainsPushed := links.chains.append_counter counter
  obtain ⟨found, target, live₁, finding, place⟩ := bucketFor_none listPushed positive capped
  obtain ⟨chain₁, chains₁, oldChain⟩ := place.exists_chains listPushed chainsPushed
  have insideFound : cid < found.monitored.length := by
    rw [place.counters.monitored]
    simp [pushed, cid]
  obtain ⟨attached, attaching, list₂, chains₂, labels₂, counts₂⟩ :=
    attach_spec place.list chains₁ place.member insideFound
      (fun stays => (List.mem_range.mp stays).ne rfl)
  let chain₂ := Function.update chain₁ target (cid :: chain₁ target)
  have labels : attached.monitored.map label =
      summary.monitored.map label ++ [(key, digest, error)] := by
    rw [(place.counters.sameLabels.trans labels₂).labels, List.map_append]
    rfl
  have length : attached.monitored.length = cid + 1 := by
    simpa using congrArg List.length labels
  have inSecond : ∀ bid ∈ live, ∀ other ∈ chain bid, other ∈ chain₂ bid := by
    intro bid memberBid other inBid
    show other ∈ Function.update chain₁ target _ bid
    rw [← oldChain bid memberBid] at inBid
    by_cases isTarget : bid = target
    · subst isTarget
      rw [Function.update_self]
      exact List.mem_cons_of_mem _ inBid
    · rw [Function.update_of_ne isTarget]
      exact inBid
  have range : (cid :: List.range cid).Perm (List.range attached.monitored.length) := by
    rw [length, List.range_succ]
    exact (List.perm_append_singleton _ _).symm
  have chainsWhole : CounterChains attached live₁ chain₂ (List.range attached.monitored.length) :=
    ⟨chains₂.cover.trans range, List.nodup_range, fun other member => List.mem_range.mp member,
      chains₂.first, chains₂.linked, chains₂.owner⟩
  refine ⟨file attached digest cid, live₁, chain₂, ?_, ⟨?_, ?_, ?_⟩, labels, ?_, ?_, ?_, ?_, ?_, ?_⟩
  · simp only [seat, bind, Except.bind]
    rw [show bucketFor pushed none count = _ from finding]
    simp only
    rw [show attach found cid target = _ from attaching]
    rfl
  · exact list₂.congr rfl rfl rfl rfl (fun _ => rfl) (fun _ => rfl) fun _ => rfl
  · exact chainsWhole.congr rfl fun _ _ => rfl
  · intro bid memberBid
    rcases (place.kept bid).mp memberBid with memberLive | rfl
    · obtain ⟨first, rest, split⟩ := List.exists_cons_of_ne_nil (links.occupied bid memberLive)
      exact List.ne_nil_of_mem (inSecond bid memberLive first (by simp [split]))
    · show Function.update chain₁ bid (cid :: chain₁ bid) bid ≠ []
      rw [Function.update_self]
      exact List.cons_ne_nil _ _
  · have inTarget : cid ∈ chain₂ target := by
      show cid ∈ Function.update chain₁ target (cid :: chain₁ target) target
      rw [Function.update_self]
      exact List.mem_cons_self
    exact (chainsWhole.countAt_eq place.member inTarget).trans
      ((counts₂ target).trans place.countEq)
  · intro other insideOther
    obtain ⟨bid, memberBid, inBid⟩ := links.exists_bucket insideOther
    have memberFound : bid ∈ live₁ := (place.kept bid).mpr (Or.inl memberBid)
    rw [links.chains.countAt_eq memberBid inBid]
    exact (chainsWhole.countAt_eq memberFound (inSecond bid memberBid other inBid)).trans
      ((counts₂ bid).trans (place.buckets bid memberBid).1)
  · have sameIndex : attached.index = summary.index := labels₂.index.trans place.counters.index
    show (file attached digest cid).index = _
    simp only [file, sameIndex]
    rfl
  · exact labels₂.capacity.trans place.counters.capacity
  · exact labels₂.total.trans place.counters.total
  · exact labels₂.discardedMax.trans place.counters.discardedMax

/-! ### What the operations do to the counters -/

theorem digestAt_eq (summary : SpaceSaving) (cid : ℕ) :
    digestAt summary cid = ((summary.monitored.map label)[cid]?).map fun tag => tag.2.1 := by
  rw [digestAt, List.getElem?_map, Option.map_map]
  rfl

theorem raise_spec {summary : SpaceSaving} (structured : Structured summary) {cid : ℕ}
    (inside : cid < summary.monitored.length) (weight : ℕ) :
    ∃ summary', raise summary cid weight = .ok summary' ∧ Structured summary' ∧
      counters summary' = (counters summary).modify cid (fun counter =>
        { counter with count := saturatingAdd counter.count weight }) ∧
      SameLabels summary summary' := by
  obtain ⟨live, chain, links⟩ := structured.links
  obtain ⟨summary', live', chain', raising, links', labels, countSelf, countOther⟩ :=
    raise_links links inside weight
  refine ⟨summary', raising, ⟨⟨live', chain', links'⟩, ?_⟩, ?_, labels⟩
  · have sameDigest : digestAt summary' = digestAt summary := funext fun other => by
      rw [digestAt_eq, digestAt_eq, labels.labels]
    rw [labels.index, sameDigest]
    exact structured.indexed
  · refine List.ext_getElem? fun place => ?_
    rw [List.getElem?_modify, counters_getElem?, counters_getElem?, labels.labels]
    by_cases same : cid = place
    · subst same
      rw [countSelf]
      cases (summary.monitored.map label)[cid]? with
      | none => rfl
      | some tag => simp [Counter.ofLabel]
    · by_cases there : place < summary.monitored.length
      · rw [countOther place there (Ne.symm same)]
        simp [same]
      · rw [List.getElem?_eq_none (by simpa using Nat.le_of_not_lt there)]
        rfl

theorem seat_spec {summary : SpaceSaving} (structured : Structured summary) (digest : BitVec 64)
    (key : HeapItem) {count : ℕ} (error : ℕ) (positive : 0 < count) (capped : count ≤ u64Max) :
    ∃ summary', seat summary digest key count error = .ok summary' ∧ Structured summary' ∧
      counters summary' = counters summary ++
        [{ key := key, digest := digest, count := count, error := error }] ∧
      summary'.capacity = summary.capacity ∧ summary'.total = summary.total ∧
      summary'.discardedMax = summary.discardedMax := by
  obtain ⟨live, chain, links⟩ := structured.links
  obtain ⟨summary', live', chain', seating, links', labels, countSelf, countOther, index, capacity,
    total, discardedMax⟩ := seat_links links digest key error positive capped
  have length : (summary.monitored.map label).length = summary.monitored.length := List.length_map _
  refine ⟨summary', seating, ⟨⟨live', chain', links'⟩, ?_⟩, ?_, capacity, total, discardedMax⟩
  · have digests : digestAt summary' =
        Function.update (digestAt summary) summary.monitored.length (some digest) := by
      funext other
      rw [digestAt_eq, labels]
      rcases Nat.lt_trichotomy other summary.monitored.length with below | same | above
      · rw [Function.update_of_ne below.ne, digestAt_eq, List.getElem?_append_left (by simpa)]
      · subst same
        rw [Function.update_self, List.getElem?_append_right (by simp), length]
        simp
      · rw [Function.update_of_ne above.ne', digestAt_eq, List.getElem?_eq_none,
          List.getElem?_eq_none]
        · simpa using above.le
        · simpa using Nat.succ_le_of_lt above
    rw [index, digests]
    refine structured.indexed.push digest ?_
    rw [digestAt, List.getElem?_eq_none le_rfl]
    rfl
  · refine List.ext_getElem? fun place => ?_
    rw [counters_getElem?, labels]
    rcases Nat.lt_trichotomy place summary.monitored.length with below | same | above
    · rw [List.getElem?_append_left (by simpa), List.getElem?_append_left (by simpa [counters]),
        counters_getElem?, countOther place below]
    · subst same
      rw [List.getElem?_append_right (by simp), List.getElem?_append_right (by simp [counters]),
        countSelf, length, length_counters]
      simp [Counter.ofLabel]
    · rw [List.getElem?_eq_none (by simpa using Nat.succ_le_of_lt above),
        List.getElem?_eq_none (by simpa [counters] using Nat.succ_le_of_lt above)]
      rfl

end SpaceSaving

end AsapSketchlib
