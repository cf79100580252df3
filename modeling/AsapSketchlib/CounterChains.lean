/-
This file gives the counters of a Stream-Summary their invariant and proves what moving
a counter does: every live bucket owns a doubly linked chain of counters, and the chains
together hold every placed counter exactly once.

A counter in flight, taken out of its bucket or not yet put into one, is one that is not
placed. `detach` takes a counter out of the placed ones and `attach` puts it back.
-/

import AsapSketchlib.BucketList

namespace AsapSketchlib

open Arena DoublyLinked

namespace SpaceSaving

/-! ### The fields of the counter arena -/

abbrev counterPrev (monitored : List MonitoredKey) : ℕ → Link :=
  fieldAt MonitoredKey.prev none monitored

abbrev counterNext (monitored : List MonitoredKey) : ℕ → Link :=
  fieldAt MonitoredKey.next none monitored

abbrev counterBucket (monitored : List MonitoredKey) : ℕ → Link :=
  fieldAt MonitoredKey.bucket none monitored

def label (counter : MonitoredKey) : HeapItem × BitVec 64 × ℕ :=
  (counter.key, counter.digest, counter.error)

/-- The chains of the live buckets, which together hold the placed counters. -/
structure CounterChains (summary : SpaceSaving) (live : List ℕ) (chain : ℕ → List ℕ)
    (placed : List ℕ) : Prop where
  cover : (live.flatMap chain).Perm placed
  distinct : placed.Nodup
  inside : ∀ cid ∈ placed, cid < summary.monitored.length
  first : ∀ bid ∈ live, bucketFirst summary.buckets bid = (chain bid).head?
  linked : ∀ bid ∈ live,
    LinkedList (counterPrev summary.monitored) (counterNext summary.monitored) (chain bid)
  owner : ∀ bid ∈ live, ∀ cid ∈ chain bid, counterBucket summary.monitored cid = some bid

/-- Two summaries that differ in their links and their buckets only. -/
structure SameLabels (before after : SpaceSaving) : Prop where
  capacity : after.capacity = before.capacity
  labels : after.monitored.map label = before.monitored.map label
  index : after.index = before.index
  total : after.total = before.total
  discardedMax : after.discardedMax = before.discardedMax

theorem SameLabels.refl (summary : SpaceSaving) : SameLabels summary summary :=
  ⟨rfl, rfl, rfl, rfl, rfl⟩

theorem SameLabels.trans {first second third : SpaceSaving} (left : SameLabels first second)
    (right : SameLabels second third) : SameLabels first third :=
  ⟨right.capacity.trans left.capacity, right.labels.trans left.labels, right.index.trans left.index,
    right.total.trans left.total, right.discardedMax.trans left.discardedMax⟩

theorem SameLabels.length {before after : SpaceSaving} (same : SameLabels before after) :
    after.monitored.length = before.monitored.length := by
  simpa using congrArg List.length same.labels

theorem SameCounters.sameLabels {before after : SpaceSaving} (same : SameCounters before after) :
    SameLabels before after :=
  ⟨same.capacity, by rw [same.monitored], same.index, same.total, same.discardedMax⟩

theorem map_label_modifyAt (monitored : List MonitoredKey) (link : Link)
    (change : MonitoredKey → MonitoredKey) (keep : ∀ counter, label (change counter) = label counter) :
    (modifyAt monitored link change).map label = monitored.map label := by
  cases link with
  | none => rfl
  | some index =>
    refine List.ext_getElem? fun place => ?_
    rw [modifyAt, List.getElem?_map, List.getElem?_map, List.getElem?_modify]
    split
    · cases monitored[place]? with
      | none => rfl
      | some counter => exact congrArg some (keep counter)
    · simp

/-! ### Chains as a cover -/

theorem flatMap_perm {live : List ℕ} {bid : ℕ} (distinct : live.Nodup) (member : bid ∈ live)
    (chain : ℕ → List ℕ) (nodes : List ℕ) :
    (live.flatMap (Function.update chain bid nodes)).Perm
      (nodes ++ (live.erase bid).flatMap chain) := by
  have apart : bid ∉ live.erase bid := fun inRest =>
    (distinct.mem_erase_iff.mp inRest).1 rfl
  have rest : (live.erase bid).flatMap (Function.update chain bid nodes) =
      (live.erase bid).flatMap chain := by
    refine List.flatMap_congr fun other memberOther => ?_
    refine Function.update_of_ne ?_ _ _
    rintro rfl
    exact apart memberOther
  refine ((List.perm_cons_erase member).flatMap_right _).trans ?_
  rw [List.flatMap_cons, Function.update_self, rest]

namespace CounterChains

variable {summary : SpaceSaving} {live placed : List ℕ} {chain : ℕ → List ℕ}

section

variable (chains : CounterChains summary live chain placed)

include chains

theorem placed_of_mem {bid cid : ℕ} (member : bid ∈ live) (inChain : cid ∈ chain bid) :
    cid ∈ placed :=
  chains.cover.subset (List.mem_flatMap.mpr ⟨bid, member, inChain⟩)

theorem exists_bucket {cid : ℕ} (member : cid ∈ placed) : ∃ bid ∈ live, cid ∈ chain bid :=
  List.mem_flatMap.mp (chains.cover.symm.subset member)

theorem nodup {bid : ℕ} (member : bid ∈ live) : (chain bid).Nodup :=
  (List.nodup_flatMap.mp (chains.cover.nodup_iff.mpr chains.distinct)).1 bid member

theorem eq_of_mem {bid other cid : ℕ} (member : bid ∈ live) (inChain : cid ∈ chain bid)
    (memberOther : other ∈ live) (inOther : cid ∈ chain other) : bid = other :=
  Option.some.inj ((chains.owner bid member cid inChain).symm.trans
    (chains.owner other memberOther cid inOther))

end

theorem congr {summary' : SpaceSaving} (chains : CounterChains summary live chain placed)
    (monitored : summary'.monitored = summary.monitored)
    (first : ∀ bid ∈ live, bucketFirst summary'.buckets bid = bucketFirst summary.buckets bid) :
    CounterChains summary' live chain placed where
  cover := chains.cover
  distinct := chains.distinct
  inside := by
    rw [monitored]
    exact chains.inside
  first := fun bid member => (first bid member).trans (chains.first bid member)
  linked := by
    rw [monitored]
    exact chains.linked
  owner := by
    rw [monitored]
    exact chains.owner

theorem perm {live' : List ℕ} (chains : CounterChains summary live chain placed)
    (same : live'.Perm live) : CounterChains summary live' chain placed where
  cover := (same.flatMap_right chain).trans chains.cover
  distinct := chains.distinct
  inside := chains.inside
  first := fun bid member => chains.first bid (same.subset member)
  linked := fun bid member => chains.linked bid (same.subset member)
  owner := fun bid member => chains.owner bid (same.subset member)

theorem cons_empty (chains : CounterChains summary live chain placed) {bid : ℕ} (fresh : bid ∉ live)
    (first : bucketFirst summary.buckets bid = none) :
    CounterChains summary (bid :: live) (Function.update chain bid []) placed := by
  have old : ∀ other ∈ live, Function.update chain bid [] other = chain other := by
    intro other member
    refine Function.update_of_ne ?_ _ _
    rintro rfl
    exact fresh member
  refine ⟨?_, chains.distinct, chains.inside, ?_, ?_, ?_⟩
  · rw [List.flatMap_cons, Function.update_self, List.nil_append, List.flatMap_congr old]
    exact chains.cover
  · intro other member
    rcases List.mem_cons.mp member with rfl | member
    · rw [Function.update_self, first]
      rfl
    · rw [old other member]
      exact chains.first other member
  · intro other member
    rcases List.mem_cons.mp member with rfl | member
    · rw [Function.update_self]
      trivial
    · rw [old other member]
      exact chains.linked other member
  · intro other member cid inChain
    rcases List.mem_cons.mp member with rfl | member
    · rw [Function.update_self] at inChain
      exact absurd inChain List.not_mem_nil
    · rw [old other member] at inChain
      exact chains.owner other member cid inChain

theorem tail_of_empty {bid : ℕ} (chains : CounterChains summary (bid :: live) chain placed)
    (empty : chain bid = []) : CounterChains summary live chain placed where
  cover := by
    have cover := chains.cover
    rw [List.flatMap_cons, empty, List.nil_append] at cover
    exact cover
  distinct := chains.distinct
  inside := chains.inside
  first := fun other member => chains.first other (List.mem_cons_of_mem _ member)
  linked := fun other member => chains.linked other (List.mem_cons_of_mem _ member)
  owner := fun other member => chains.owner other (List.mem_cons_of_mem _ member)

theorem append_counter (chains : CounterChains summary live chain placed) (counter : MonitoredKey) :
    CounterChains { summary with monitored := summary.monitored ++ [counter] } live chain placed := by
  have old : ∀ {Value : Type} (get : MonitoredKey → Value) (default : Value),
      ∀ bid ∈ live, ∀ cid ∈ chain bid, fieldAt get default (summary.monitored ++ [counter]) cid =
        fieldAt get default summary.monitored cid := fun get default bid member cid inChain =>
    fieldAt_append_left _ (chains.inside cid (chains.placed_of_mem member inChain))
  refine ⟨chains.cover, chains.distinct, ?_, chains.first, ?_, ?_⟩
  · intro cid member
    rw [List.length_append]
    exact (chains.inside cid member).trans_le (Nat.le_add_right _ _)
  · intro bid member
    exact (chains.linked bid member).congr (old _ _ bid member) (old _ _ bid member)
  · intro bid member cid inChain
    exact (old _ _ bid member cid inChain).trans (chains.owner bid member cid inChain)

end CounterChains

theorem BucketFound.exists_chains {summary found : SpaceSaving} {live live' placed : List ℕ}
    {chain : ℕ → List ℕ} {count target : ℕ}
    (place : BucketFound summary live count found target live') (list : BucketList summary live)
    (chains : CounterChains summary live chain placed) :
    ∃ chain', CounterChains found live' chain' placed ∧ ∀ bid ∈ live, chain' bid = chain bid := by
  have chainsFound : CounterChains found live chain placed :=
    chains.congr place.counters.monitored fun bid member => (place.buckets bid member).2
  by_cases known : target ∈ live
  · refine ⟨chain, chainsFound.perm ?_, fun _ _ => rfl⟩
    refine (List.perm_ext_iff_of_nodup place.list.nodup list.nodup).mpr fun bid => ?_
    rw [place.kept]
    exact ⟨fun either => either.elim id fun equal => equal ▸ known, Or.inl⟩
  · refine ⟨Function.update chain target [],
      (chainsFound.cons_empty known (place.fresh known)).perm ?_, fun bid member => ?_⟩
    · refine (List.perm_ext_iff_of_nodup place.list.nodup
        (List.nodup_cons.mpr ⟨known, list.nodup⟩)).mpr fun bid => ?_
      rw [place.kept, List.mem_cons, or_comm]
    · refine Function.update_of_ne ?_ _ _
      rintro rfl
      exact known member

theorem BucketList.congr {summary summary' : SpaceSaving} {live : List ℕ}
    (list : BucketList summary live) (bucketFree : summary'.bucketFree = summary.bucketFree)
    (bucketHead : summary'.bucketHead = summary.bucketHead)
    (bucketTail : summary'.bucketTail = summary.bucketTail)
    (length : summary'.buckets.length = summary.buckets.length)
    (prev : ∀ bid, bucketPrev summary'.buckets bid = bucketPrev summary.buckets bid)
    (next : ∀ bid, bucketNext summary'.buckets bid = bucketNext summary.buckets bid)
    (count : ∀ bid, bucketCount summary'.buckets bid = bucketCount summary.buckets bid) :
    BucketList summary' live where
  partition := by
    rw [bucketFree, length]
    exact list.partition
  linked := list.linked.congr (fun bid _ => prev bid) fun bid _ => next bid
  head := bucketHead.trans list.head
  tail := bucketTail.trans list.tail
  increasing := by
    simp only [count]
    exact list.increasing
  positive := by
    simp only [count]
    exact list.positive
  capped := by
    simp only [count]
    exact list.capped

/-! ### Attaching and detaching a counter -/

variable {summary : SpaceSaving} {live placed : List ℕ} {chain : ℕ → List ℕ}
  (list : BucketList summary live) (chains : CounterChains summary live chain placed)

include list chains

/-- A loose counter is put at the front of a live bucket's chain. -/
theorem attach_spec {cid bid : ℕ} (member : bid ∈ live) (inside : cid < summary.monitored.length)
    (loose : cid ∉ placed) :
    ∃ summary', attach summary cid bid = .ok summary' ∧ BucketList summary' live ∧
      CounterChains summary' live (Function.update chain bid (cid :: chain bid)) (cid :: placed) ∧
      SameLabels summary summary' ∧
      ∀ other, bucketCount summary'.buckets other = bucketCount summary.buckets other := by
  obtain ⟨bucket, reading, -, firstEq, -, -⟩ := list.readAt member
  have headEq : bucket.head = (chain bid).head? := firstEq.trans (chains.first bid member)
  have chainInside : ∀ other, (chain bid).head? = some other → other < summary.monitored.length :=
    fun other same => chains.inside other (chains.placed_of_mem member (List.mem_of_head? same))
  have looseIn : ∀ other ∈ live, cid ∉ chain other := fun other memberOther inChain =>
    loose (chains.placed_of_mem memberOther inChain)
  have notHead : (chain bid).head? ≠ some cid := fun same =>
    looseIn bid member (List.mem_of_head? same)
  let seated := summary.monitored.modify cid fun counter =>
    { counter with prev := none, next := (chain bid).head?, bucket := some bid }
  let monitored := modifyAt seated (chain bid).head? fun counter => { counter with prev := some cid }
  let buckets := summary.buckets.modify bid fun other => { other with head := some cid }
  have seatedEq : writeAt summary.monitored (some cid) (fun counter =>
      { counter with prev := none, next := (chain bid).head?, bucket := some bid }) = .ok seated :=
    writeAt_some _ inside
  have monitoredEq : writeIfSome seated (chain bid).head?
      (fun counter => { counter with prev := some cid }) = .ok monitored :=
    writeIfSome_eq _ fun other same => by
      rw [List.length_modify]
      exact chainInside other same
  have bucketsEq : writeAt summary.buckets (some bid) (fun other =>
      { other with head := some cid }) = .ok buckets := writeAt_some _ (list.inside member)
  have ownerEq : ∀ other, counterBucket monitored other = counterBucket seated other := fun other => by
    rw [counterBucket, fieldAt_modifyAt_of_keep]
    exact fun _ => rfl
  have nextEq : ∀ other, counterNext monitored other = counterNext seated other := fun other => by
    rw [counterNext, fieldAt_modifyAt_of_keep]
    exact fun _ => rfl
  have ownerOld : ∀ other, other ≠ cid →
      counterBucket monitored other = counterBucket summary.monitored other := fun other different => by
    rw [ownerEq, counterBucket, fieldAt_modify_of_ne _ different]
  have nextOld : ∀ other, other ≠ cid →
      counterNext monitored other = counterNext summary.monitored other := fun other different => by
    rw [nextEq, counterNext, fieldAt_modify_of_ne _ different]
  have prevOld : ∀ other, other ≠ cid → (chain bid).head? ≠ some other →
      counterPrev monitored other = counterPrev summary.monitored other :=
    fun other different notFirst => by
      rw [counterPrev, fieldAt_modifyAt_of_ne _ notFirst, fieldAt_modify_of_ne _ different]
  have keepLinks : ∀ {Value : Type} (get : Bucket → Value) (default : Value),
      (∀ other : Bucket, get { other with head := some cid } = get other) →
      ∀ other, fieldAt get default buckets other = fieldAt get default summary.buckets other :=
    fun get default keep other => fieldAt_modify_of_keep _ keep other
  refine ⟨{ summary with monitored := monitored, buckets := buckets }, ?_, ?_, ?_, ?_, ?_⟩
  · simp only [attach, reading, bind, Except.bind, headEq, seatedEq, monitoredEq, bucketsEq]
    rfl
  · refine list.congr rfl rfl rfl (List.length_modify _ _ _) ?_ ?_ ?_
    all_goals exact keepLinks _ _ fun _ => rfl
  · have memberPlaced : ∀ other ∈ live, ∀ node ∈ chain other, node ≠ cid := by
      rintro other memberOther node inChain rfl
      exact looseIn other memberOther inChain
    refine ⟨?_, List.nodup_cons.mpr ⟨loose, chains.distinct⟩, ?_, ?_, ?_, ?_⟩
    · refine (flatMap_perm list.nodup member chain _).trans ?_
      rw [List.cons_append]
      refine List.Perm.cons _ (List.Perm.trans ?_ chains.cover)
      have whole := flatMap_perm list.nodup member chain (chain bid)
      rw [Function.update_eq_self] at whole
      exact whole.symm
    · intro other memberOther
      show other < monitored.length
      rw [length_modifyAt, List.length_modify]
      rcases List.mem_cons.mp memberOther with rfl | memberOther
      · exact inside
      · exact chains.inside other memberOther
    · intro other memberOther
      show bucketFirst buckets other = _
      by_cases same : other = bid
      · subst same
        rw [Function.update_self, bucketFirst, fieldAt_modify_self _ (list.inside memberOther)]
        rfl
      · rw [Function.update_of_ne same, bucketFirst, fieldAt_modify_of_ne _ same]
        exact chains.first other memberOther
    · intro other memberOther
      show LinkedList (counterPrev monitored) (counterNext monitored) _
      by_cases same : other = bid
      · subst same
        rw [Function.update_self]
        have whole : LinkedList (counterPrev summary.monitored) (counterNext summary.monitored)
            ([] ++ chain other) := chains.linked other memberOther
        refine whole.insert (chains.nodup memberOther) ?_ ?_ (by simp) ?_ ?_ ?_
        · rw [counterPrev, fieldAt_modifyAt_of_ne _ notHead, fieldAt_modify_self _ inside]
          rfl
        · rw [nextEq, counterNext, fieldAt_modify_self _ inside]
        · intro node head
          rw [counterPrev, fieldAt_modifyAt_self _ head]
          rw [List.length_modify]
          exact chainInside node head
        · exact fun node inChain _ => nextOld node (memberPlaced other memberOther node inChain)
        · exact fun node inChain notFirst =>
            prevOld node (memberPlaced other memberOther node inChain) notFirst
      · rw [Function.update_of_ne same]
        refine (chains.linked other memberOther).congr ?_ ?_
        · intro node inChain
          refine prevOld node (memberPlaced other memberOther node inChain) fun head => ?_
          exact same (chains.eq_of_mem memberOther inChain member (List.mem_of_head? head))
        · exact fun node inChain => nextOld node (memberPlaced other memberOther node inChain)
    · intro other memberOther node inChain
      show counterBucket monitored node = some other
      have old : ∀ bid' ∈ live, node ∈ chain bid' → counterBucket monitored node = some bid' :=
        fun bid' memberBid inBid => (ownerOld node (memberPlaced bid' memberBid node inBid)).trans
          (chains.owner bid' memberBid node inBid)
      by_cases same : other = bid
      · subst same
        rw [Function.update_self] at inChain
        rcases List.mem_cons.mp inChain with rfl | inChain
        · rw [ownerEq, counterBucket, fieldAt_modify_self _ inside]
        · exact old other memberOther inChain
      · rw [Function.update_of_ne same] at inChain
        exact old other memberOther inChain
  · refine ⟨rfl, ?_, rfl, rfl, rfl⟩
    show monitored.map label = _
    exact (map_label_modifyAt seated _ _ fun counter => by rfl).trans
      (map_label_modifyAt summary.monitored (some cid) _ fun counter => by rfl)
  · exact keepLinks _ _ fun _ => rfl

theorem unlink_spec {bid cid : ℕ} {front back : List ℕ} (member : bid ∈ live)
    (split : chain bid = front ++ cid :: back) :
    ∃ summary', unlink summary cid = .ok (summary', some bid) ∧ BucketList summary' live ∧
      CounterChains summary' live (Function.update chain bid (front ++ back)) (placed.erase cid) ∧
      SameLabels summary summary' ∧
      ∀ other, bucketCount summary'.buckets other = bucketCount summary.buckets other := by
  have inChain : cid ∈ chain bid := by simp [split]
  have cidPlaced : cid ∈ placed := chains.placed_of_mem member inChain
  have cidInside := chains.inside cid cidPlaced
  obtain ⟨counter, present⟩ : ∃ counter, summary.monitored[cid]? = some counter :=
    ⟨_, List.getElem?_eq_getElem cidInside⟩
  have linked : LinkedList (counterPrev summary.monitored) (counterNext summary.monitored)
      (front ++ cid :: back) := split ▸ chains.linked bid member
  have distinct : (front ++ cid :: back).Nodup := split ▸ chains.nodup member
  have prevEq : counter.prev = front.getLast? := by
    rw [← linked.prev_eq, counterPrev, fieldAt_of_getElem? present]
  have nextEq : counter.next = back.head? := by
    rw [← linked.next_eq, counterNext, fieldAt_of_getElem? present]
  have bucketEq : counter.bucket = some bid := by
    rw [← chains.owner bid member cid inChain, counterBucket, fieldAt_of_getElem? present]
  have nodeInside : ∀ node ∈ front ++ cid :: back, node < summary.monitored.length :=
    fun node memberNode => chains.inside node (chains.placed_of_mem member (split ▸ memberNode))
  have gone : cid ∉ front ++ back := (List.nodup_cons.mp (List.perm_middle.nodup_iff.mp distinct)).1
  have lastInside : ∀ node, front.getLast? = some node → node ∈ front ++ back :=
    fun node same => List.mem_append_left _ (List.mem_of_getLast? same)
  have headInside : ∀ node, back.head? = some node → node ∈ front ++ back :=
    fun node same => List.mem_append_right _ (List.mem_of_head? same)
  have sub : ∀ node ∈ front ++ back, node ∈ front ++ cid :: back := fun node memberNode =>
    List.perm_middle.symm.subset (List.mem_cons_of_mem _ memberNode)
  let forward := modifyAt summary.monitored front.getLast? fun other =>
    { other with next := back.head? }
  let backward := modifyAt forward back.head? fun other => { other with prev := front.getLast? }
  let monitored := backward.modify cid fun other =>
    { other with prev := none, next := none, bucket := none }
  let buckets := if front.getLast? ≠ none then summary.buckets else
    summary.buckets.modify bid fun other => { other with head := back.head? }
  let summary' : SpaceSaving := { summary with monitored := monitored, buckets := buckets }
  have forwardEq : writeIfSome summary.monitored front.getLast?
      (fun other => { other with next := back.head? }) = .ok forward :=
    writeIfSome_eq _ fun node same => nodeInside node (sub node (lastInside node same))
  have backwardEq : writeIfSome forward back.head?
      (fun other => { other with prev := front.getLast? }) = .ok backward :=
    writeIfSome_eq _ fun node same => by
      rw [length_modifyAt]
      exact nodeInside node (sub node (headInside node same))
  have monitoredEq : writeAt backward (some cid)
      (fun other => { other with prev := none, next := none, bucket := none }) = .ok monitored := by
    refine writeAt_some _ ?_
    rw [length_modifyAt, length_modifyAt]
    exact cidInside
  have keepLinks : ∀ {Value : Type} (get : Bucket → Value) (default : Value),
      (∀ other : Bucket, get { other with head := back.head? } = get other) →
      ∀ other, fieldAt get default buckets other = fieldAt get default summary.buckets other := by
    intro Value get default keep other
    by_cases something : front.getLast? ≠ none
    · simp only [buckets, if_pos something]
    · simp only [buckets, if_neg something]
      exact fieldAt_modify_of_keep _ keep other
  have bucketsLength : buckets.length = summary.buckets.length := by
    by_cases something : front.getLast? ≠ none
    · simp only [buckets, if_pos something]
    · simp only [buckets, if_neg something, List.length_modify]
  have nextOld : ∀ node, node ≠ cid → front.getLast? ≠ some node →
      counterNext monitored node = counterNext summary.monitored node :=
    fun node different notLast => by
      rw [counterNext, fieldAt_modify_of_ne _ different, fieldAt_modifyAt_of_keep,
        fieldAt_modifyAt_of_ne _ notLast]
      exact fun _ => rfl
  have prevOld : ∀ node, node ≠ cid → back.head? ≠ some node →
      counterPrev monitored node = counterPrev summary.monitored node :=
    fun node different notHead => by
      rw [counterPrev, fieldAt_modify_of_ne _ different, fieldAt_modifyAt_of_ne _ notHead,
        fieldAt_modifyAt_of_keep]
      exact fun _ => rfl
  have ownerOld : ∀ node, node ≠ cid →
      counterBucket monitored node = counterBucket summary.monitored node :=
    fun node different => by
      rw [counterBucket, fieldAt_modify_of_ne _ different, fieldAt_modifyAt_of_keep,
        fieldAt_modifyAt_of_keep] <;> exact fun _ => rfl
  refine ⟨summary', ?_, ?_, ?_, ?_, keepLinks _ _ fun _ => rfl⟩
  · simp only [unlink, readAt_some present, bind, Except.bind, prevEq, nextEq, bucketEq, forwardEq]
    by_cases something : front.getLast? ≠ none
    · simp only [if_pos something, pure, Except.pure, backwardEq, monitoredEq]
      simp only [summary', buckets, if_pos something]
    · simp only [if_neg something, writeAt_some _ (list.inside member), backwardEq, monitoredEq]
      simp only [summary', buckets, if_neg something, pure, Except.pure]
  · exact list.congr rfl rfl rfl bucketsLength (keepLinks _ _ fun _ => rfl)
      (keepLinks _ _ fun _ => rfl) (keepLinks _ _ fun _ => rfl)
  · have old : ∀ other ∈ live, other ≠ bid → ∀ node ∈ chain other, node ∉ chain bid := by
      intro other memberOther different node inOther inBid
      exact different (chains.eq_of_mem memberOther inOther member inBid)
    have ne_cid : ∀ other ∈ live, other ≠ bid → ∀ node ∈ chain other, node ≠ cid := by
      rintro other memberOther different node inOther rfl
      exact old other memberOther different node inOther inChain
    refine ⟨?_, chains.distinct.erase _, ?_, ?_, ?_, ?_⟩
    · refine (flatMap_perm list.nodup member chain _).trans ?_
      have whole := flatMap_perm list.nodup member chain (chain bid)
      rw [Function.update_eq_self] at whole
      have step := (whole.symm.trans chains.cover).erase cid
      rw [split] at step
      refine List.Perm.trans ?_ step
      rw [List.append_assoc, List.append_assoc, List.cons_append]
      have front_free : cid ∉ front := fun inFront => gone (List.mem_append_left _ inFront)
      rw [List.erase_append_right _ front_free, List.erase_cons_head]
    · intro node memberNode
      show node < monitored.length
      rw [List.length_modify, length_modifyAt, length_modifyAt]
      exact chains.inside node (List.mem_of_mem_erase memberNode)
    · intro other memberOther
      show bucketFirst buckets other = _
      by_cases same : other = bid
      · subst same
        rw [Function.update_self]
        cases front with
        | nil =>
          simp only [buckets, List.getLast?_nil, ne_eq, not_true_eq_false, if_false,
            List.nil_append]
          rw [bucketFirst, fieldAt_modify_self _ (list.inside memberOther)]
        | cons first rest =>
          simp only [buckets, ne_eq, List.getLast?_eq_none_iff, reduceCtorEq, not_false_eq_true,
            if_true]
          rw [chains.first other memberOther, split]
          rfl
      · rw [Function.update_of_ne same, ← chains.first other memberOther]
        by_cases something : front.getLast? ≠ none
        · simp only [buckets, if_pos something]
        · simp only [buckets, if_neg something]
          exact fieldAt_modify_of_ne _ same
    · intro other memberOther
      show LinkedList (counterPrev monitored) (counterNext monitored) _
      by_cases same : other = bid
      · subst same
        rw [Function.update_self]
        have ne : ∀ node ∈ front ++ back, node ≠ cid := by
          rintro node memberNode rfl
          exact gone memberNode
        refine linked.remove distinct ?_ ?_ ?_ ?_
        · intro node last
          rw [counterNext, fieldAt_modify_of_ne _ (ne node (lastInside node last)),
            fieldAt_modifyAt_of_keep, fieldAt_modifyAt_self _ last]
          · exact nodeInside node (sub node (lastInside node last))
          · exact fun _ => rfl
        · intro node head
          rw [counterPrev, fieldAt_modify_of_ne _ (ne node (headInside node head)),
            fieldAt_modifyAt_self _ head]
          rw [length_modifyAt]
          exact nodeInside node (sub node (headInside node head))
        · exact fun node memberNode notLast => nextOld node (ne node memberNode) notLast
        · exact fun node memberNode notHead => prevOld node (ne node memberNode) notHead
      · rw [Function.update_of_ne same]
        refine (chains.linked other memberOther).congr ?_ ?_
        · intro node inOther
          refine prevOld node (ne_cid other memberOther same node inOther) fun head => ?_
          refine old other memberOther same node inOther ?_
          rw [split]
          exact sub node (headInside node head)
        · intro node inOther
          refine nextOld node (ne_cid other memberOther same node inOther) fun last => ?_
          refine old other memberOther same node inOther ?_
          rw [split]
          exact sub node (lastInside node last)
    · intro other memberOther node inOther
      show counterBucket monitored node = some other
      by_cases same : other = bid
      · subst same
        rw [Function.update_self] at inOther
        have different : node ≠ cid := by
          rintro rfl
          exact gone inOther
        rw [ownerOld node different]
        refine chains.owner other memberOther node ?_
        rw [split]
        exact sub node inOther
      · rw [Function.update_of_ne same] at inOther
        rw [ownerOld node (ne_cid other memberOther same node inOther)]
        exact chains.owner other memberOther node inOther
  · refine ⟨rfl, ?_, rfl, rfl, rfl⟩
    show monitored.map label = _
    exact (map_label_modifyAt backward (some cid) _ fun counter => by rfl).trans
      ((map_label_modifyAt forward _ _ fun counter => by rfl).trans
        (map_label_modifyAt summary.monitored _ _ fun counter => by rfl))

/-- A counter leaves its bucket, which must not be the last one, and an emptied bucket leaves the
list. -/
theorem detach_spec {bid cid : ℕ} (member : bid ∈ live) (inChain : cid ∈ chain bid)
    (notLast : live.getLast? ≠ some bid) :
    ∃ summary' live', detach summary cid = .ok summary' ∧ BucketList summary' live' ∧
      CounterChains summary' live' (Function.update chain bid ((chain bid).erase cid))
        (placed.erase cid) ∧
      SameLabels summary summary' ∧
      (∀ other ∈ live', bucketCount summary'.buckets other = bucketCount summary.buckets other) ∧
      ∀ other, other ∈ live' ↔ other ∈ live ∧ (other = bid → (chain bid).erase cid ≠ []) := by
  obtain ⟨front, back, split⟩ := List.append_of_mem inChain
  have erased : (chain bid).erase cid = front ++ back := by
    have distinct := chains.nodup member
    rw [split] at distinct ⊢
    have apart : cid ∉ front := fun inFront =>
      (List.nodup_append.mp distinct).2.2 cid inFront cid List.mem_cons_self rfl
    rw [List.erase_append_right _ apart, List.erase_cons_head]
  obtain ⟨unlinked, unlinking, list', chains', labels, counts⟩ := unlink_spec list chains member split
  obtain ⟨bucket, reading, -, firstEq, -⟩ := list'.readAt member
  have headEq : bucket.head = (front ++ back).head? := by
    rw [firstEq.trans (chains'.first bid member), Function.update_self]
  rw [erased]
  simp only [detach, unlinking, reading, bind, Except.bind]
  by_cases empty : bucket.head = none
  · rw [if_pos empty]
    have none_left : front ++ back = [] := List.head?_eq_none_iff.mp (headEq.symm.trans empty)
    obtain ⟨below, above, rfl⟩ := List.append_of_mem member
    have something : above ≠ [] := by
      rintro rfl
      exact notLast (by simp)
    obtain ⟨dropped, dropping, list'', same, buckets⟩ := dropBucket_spec list' something
    have gone : bid ∉ below ++ above :=
      (List.nodup_cons.mp (List.perm_middle.nodup_iff.mp list.nodup)).1
    refine ⟨dropped, below ++ above, dropping, list'', ?_, labels.trans same.sameLabels, ?_, ?_⟩
    · refine CounterChains.congr ?_ same.monitored fun other memberOther =>
        (buckets other memberOther).2
      have emptied : Function.update chain bid (front ++ back) bid = [] := by
        rw [Function.update_self, none_left]
      exact CounterChains.tail_of_empty (chains'.perm List.perm_middle.symm) emptied
    · exact fun other memberOther => ((buckets other memberOther).1).trans (counts other)
    · intro other
      constructor
      · intro memberOther
        refine ⟨List.perm_middle.symm.subset (List.mem_cons_of_mem _ memberOther), ?_⟩
        rintro rfl
        exact absurd memberOther gone
      · rintro ⟨memberOther, different⟩
        rcases List.mem_cons.mp (List.perm_middle.subset memberOther) with rfl | memberOther
        · exact absurd none_left (different rfl)
        · exact memberOther
  · rw [if_neg empty]
    have some_left : front ++ back ≠ [] := by
      intro none_left
      rw [headEq, none_left] at empty
      exact empty rfl
    exact ⟨unlinked, live, rfl, list', chains', labels, fun other _ => counts other,
      fun other => ⟨fun memberOther => ⟨memberOther, fun _ => some_left⟩, And.left⟩⟩

end SpaceSaving

end AsapSketchlib
