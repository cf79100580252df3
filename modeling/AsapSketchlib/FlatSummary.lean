/-
This file says what a Space-Saving summary does without its links. A flat summary is the
list of monitored keys with their counts and errors, the capacity, the total and the
ceiling on what has left; recording an occurrence raises a monitored key, seats a new one
on a free counter or gives it the counter of a key at the lowest count.

The operations of the linked summary are shown to do this, and to stop with no fault, on
every summary that satisfies the representation invariant.
-/

import AsapSketchlib.StreamSummary

namespace AsapSketchlib

open Arena

/-- A summary as its queries see it. -/
structure FlatSummary where
  capacity : ℕ
  counters : List Counter
  total : ℕ
  discardedMax : ℕ

def Counter.Monitors (counter : Counter) (digest : BitVec 64) (value : DataInput) : Prop :=
  counter.digest = digest ∧ counter.key.eqInput value = true

def Counter.raise (weight : ℕ) (counter : Counter) : Counter :=
  { counter with count := saturatingAdd counter.count weight }

namespace FlatSummary

def lowest (flat : FlatSummary) : ℕ := (flat.counters.map Counter.count).min?.getD 0

def minCount (flat : FlatSummary) : ℕ :=
  max flat.discardedMax (if flat.counters.length = flat.capacity then flat.lowest else 0)

/-- The ways in which a summary records an occurrence. -/
inductive Recorded (before : FlatSummary) (digest : BitVec 64) (value : DataInput) (weight : ℕ) :
    FlatSummary → Prop where
  /-- The key is monitored: its counter is raised. -/
  | raised (front back : List Counter) (counter : Counter)
      (split : before.counters = front ++ counter :: back)
      (monitors : counter.Monitors digest value) :
      Recorded before digest value weight
        { before with
          counters := front ++ counter.raise weight :: back
          total := saturatingAdd before.total weight }
  /-- The key takes a free counter, at the ceiling on what has left. -/
  | seated (absent : ∀ counter ∈ before.counters, ¬counter.Monitors digest value)
      (room : before.counters.length < before.capacity) :
      Recorded before digest value weight
        { before with
          counters := before.counters ++
            [{ key := inputToOwned value, digest := digest,
               count := saturatingAdd before.discardedMax weight, error := before.discardedMax }]
          total := saturatingAdd before.total weight }
  /-- The key takes the counter of a key at the lowest count. -/
  | displaced (front back : List Counter) (victim : Counter)
      (absent : ∀ counter ∈ before.counters, ¬counter.Monitors digest value)
      (full : before.counters.length = before.capacity)
      (split : before.counters = front ++ victim :: back)
      (smallest : ∀ counter ∈ before.counters, victim.count ≤ counter.count) :
      Recorded before digest value weight
        { before with
          counters := front ++
            { key := inputToOwned value, digest := digest,
              count := saturatingAdd victim.count weight, error := victim.count } :: back
          total := saturatingAdd before.total weight
          discardedMax := victim.count }

structure Bounded (flat : FlatSummary) : Prop where
  positive : 0 < flat.capacity
  room : flat.counters.length ≤ flat.capacity
  errors : ∀ counter ∈ flat.counters, counter.error ≤ counter.count
  ceiling : ∀ counter ∈ flat.counters, flat.discardedMax ≤ counter.count
  counts : ∀ counter ∈ flat.counters, 0 < counter.count ∧ counter.count ≤ u64Max
  capped : flat.discardedMax ≤ u64Max

theorem Recorded.bounded {before after : FlatSummary} {digest : BitVec 64} {value : DataInput}
    {weight : ℕ} (recorded : Recorded before digest value weight after) (bounded : Bounded before)
    (some_weight : 0 < weight) : Bounded after := by
  have raised : ∀ count, count ≤ u64Max → count ≤ saturatingAdd count weight := by
    intro count capped
    unfold saturatingAdd
    omega
  have positive : ∀ count, 0 < saturatingAdd count weight := by
    intro count
    unfold saturatingAdd u64Max
    omega
  have replaced : ∀ {front back : List Counter} {old new other : Counter},
      before.counters = front ++ old :: back → other ∈ front ++ new :: back →
        other ∈ before.counters ∨ other = new := by
    intro front back old new other split member
    rw [split]
    rcases List.mem_append.mp member with member | member
    · exact Or.inl (List.mem_append_left _ member)
    · rcases List.mem_cons.mp member with same | member
      · exact Or.inr same
      · exact Or.inl (List.mem_append_right _ (List.mem_cons_of_mem _ member))
  have sameLength : ∀ {front back : List Counter} {old : Counter} (new : Counter),
      before.counters = front ++ old :: back →
        (front ++ new :: back).length ≤ before.capacity := by
    intro front back old new split
    have room := bounded.room
    rw [split] at room
    simpa using room
  cases recorded with
  | raised front back counter split monitors =>
    have member : counter ∈ before.counters := by simp [split]
    have capped := (bounded.counts counter member).2
    refine ⟨bounded.positive, sameLength _ split, ?_, ?_, ?_, bounded.capped⟩
    all_goals
      intro other memberOther
      rcases replaced split memberOther with memberOther | rfl
    · exact bounded.errors other memberOther
    · exact (bounded.errors counter member).trans (raised _ capped)
    · exact bounded.ceiling other memberOther
    · exact (bounded.ceiling counter member).trans (raised _ capped)
    · exact bounded.counts other memberOther
    · exact ⟨positive _, saturatingAdd_le_max _ _⟩
  | seated absent room =>
    refine ⟨bounded.positive, ?_, ?_, ?_, ?_, bounded.capped⟩
    · show (before.counters ++ [_]).length ≤ before.capacity
      rw [List.length_append]
      exact room
    all_goals
      intro other member
      rcases List.mem_append.mp member with member | member
    · exact bounded.errors other member
    · rw [List.mem_singleton.mp member]
      exact raised _ bounded.capped
    · exact bounded.ceiling other member
    · rw [List.mem_singleton.mp member]
      exact raised _ bounded.capped
    · exact bounded.counts other member
    · rw [List.mem_singleton.mp member]
      exact ⟨positive _, saturatingAdd_le_max _ _⟩
  | displaced front back victim absent full split smallest =>
    have member : victim ∈ before.counters := by simp [split]
    have capped := (bounded.counts victim member).2
    refine ⟨bounded.positive, sameLength _ split, ?_, ?_, ?_, capped⟩
    all_goals
      intro other memberOther
      rcases replaced split memberOther with memberOther | rfl
    · exact bounded.errors other memberOther
    · exact raised _ capped
    · exact smallest other memberOther
    · exact raised _ capped
    · exact bounded.counts other memberOther
    · exact ⟨positive _, saturatingAdd_le_max _ _⟩

end FlatSummary

namespace SpaceSaving

def flatten (summary : SpaceSaving) : FlatSummary where
  capacity := summary.capacity
  counters := counters summary
  total := summary.total
  discardedMax := summary.discardedMax

/-- The representation invariant of a summary: its structure, and the bounds on its counts. -/
structure Represented (summary : SpaceSaving) : Prop where
  structured : Structured summary
  bounded : (flatten summary).Bounded

/-! ### Reading -/

namespace Links

variable {summary : SpaceSaving} {live : List ℕ} {chain : ℕ → List ℕ}

theorem count_eq (links : Links summary live chain) {cid : ℕ} {counter : Counter}
    (found : (counters summary)[cid]? = some counter) :
    ∃ bid ∈ live, cid ∈ chain bid ∧ counter.count = bucketCount summary.buckets bid := by
  have inside : cid < summary.monitored.length := by
    rw [← length_counters]
    exact lt_of_getElem? found
  obtain ⟨bid, member, inChain⟩ := links.exists_bucket inside
  refine ⟨bid, member, inChain, ?_⟩
  rw [← links.chains.countAt_eq member inChain, countAt_eq_count found]

theorem lowest (links : Links summary live chain) (something : summary.monitored ≠ []) :
    ∃ bid cid, summary.bucketHead = some bid ∧ bid ∈ live ∧ cid ∈ chain bid ∧
      bucketFirst summary.buckets bid = some cid ∧
      ∀ counter ∈ counters summary, bucketCount summary.buckets bid ≤ counter.count := by
  have inside : 0 < summary.monitored.length := List.length_pos_iff.mpr something
  obtain ⟨someBid, someMember, -⟩ := links.exists_bucket inside
  obtain ⟨bid, rest, rfl⟩ := List.exists_cons_of_ne_nil (List.ne_nil_of_mem someMember)
  have member : bid ∈ bid :: rest := List.mem_cons_self
  obtain ⟨cid, others, split⟩ := List.exists_cons_of_ne_nil (links.occupied bid member)
  refine ⟨bid, cid, links.list.head, member, by simp [split], ?_, ?_⟩
  · rw [links.chains.first bid member, split]
    rfl
  · intro counter memberCounter
    obtain ⟨place, found⟩ := List.mem_iff_getElem?.mp memberCounter
    obtain ⟨other, memberOther, -, same⟩ := links.count_eq found
    rw [same]
    rcases List.mem_cons.mp memberOther with rfl | memberOther
    · exact le_rfl
    · exact (List.rel_of_pairwise_cons links.list.increasing memberOther).le

end Links

theorem Structured.readBucket {summary : SpaceSaving} (structured : Structured summary)
    {counter : MonitoredKey} {cid : ℕ} (found : summary.monitored[cid]? = some counter) :
    ∃ bucket, readAt summary.buckets counter.bucket = .ok bucket ∧
      (counters summary)[cid]? = some (Counter.ofLabel bucket.count (label counter)) := by
  obtain ⟨live, chain, links⟩ := structured.links
  obtain ⟨bid, member, inChain⟩ := links.exists_bucket (lt_of_getElem? found)
  obtain ⟨same, there, bucketEq⟩ := links.readCounter member inChain
  rw [found] at there
  obtain rfl := Option.some.inj there
  obtain ⟨bucket, reading, countEq, -⟩ := links.list.readAt member
  refine ⟨bucket, by rw [bucketEq, reading], ?_⟩
  rw [counters_getElem?, List.getElem?_map, found, links.chains.countAt_eq member inChain, countEq]
  rfl

theorem findIn_spec {monitored : List MonitoredKey} (test : HeapItem → Bool) {ids : List ℕ}
    (inside : ∀ cid ∈ ids, cid < monitored.length) :
    ∃ found, findIn monitored test ids = .ok found ∧
      (∀ cid, found = some cid → cid ∈ ids ∧
        ∃ counter, monitored[cid]? = some counter ∧ test counter.key = true) ∧
      (found = none → ∀ cid ∈ ids, ∀ counter, monitored[cid]? = some counter →
        test counter.key ≠ true) := by
  induction ids with
  | nil => exact ⟨none, rfl, by simp, by simp⟩
  | cons cid rest hypothesis =>
    obtain ⟨first, present⟩ : ∃ first, monitored[cid]? = some first :=
      ⟨_, List.getElem?_eq_getElem (inside cid List.mem_cons_self)⟩
    obtain ⟨found, searching, hit, miss⟩ :=
      hypothesis fun other member => inside other (List.mem_cons_of_mem _ member)
    simp only [findIn, readAt_some present, bind, Except.bind]
    by_cases passes : test first.key = true
    · refine ⟨some cid, by rw [if_pos passes]; rfl, ?_, by simp⟩
      rintro other same
      obtain rfl := Option.some.inj same
      exact ⟨List.mem_cons_self, _, present, passes⟩
    · refine ⟨found, by rw [if_neg passes, searching], ?_, ?_⟩
      · intro other same
        obtain ⟨member, witness⟩ := hit other same
        exact ⟨List.mem_cons_of_mem _ member, witness⟩
      · intro nothing other member counter there
        rcases List.mem_cons.mp member with rfl | member
        · rw [present] at there
          rw [← Option.some.inj there]
          exact passes
        · exact miss nothing other member counter there

section

variable {summary : SpaceSaving} (structured : Structured summary)

include structured

/-- A search through the index finds a counter with the digest that passes, if there is one. -/
theorem Structured.search (digest : BitVec 64) (test : HeapItem → Bool) :
    ∃ found, findIn summary.monitored test (DigestIndex.slot summary.index digest) = .ok found ∧
      (∀ cid, found = some cid → ∃ counter, (counters summary)[cid]? = some counter ∧
        counter.digest = digest ∧ test counter.key = true) ∧
      (found = none → ∀ counter ∈ counters summary,
        ¬(counter.digest = digest ∧ test counter.key = true)) := by
  have filed : ∀ cid, cid ∈ DigestIndex.slot summary.index digest ↔ digestAt summary cid = some digest :=
    fun cid => structured.indexed.filed digest cid
  have inside : ∀ cid ∈ DigestIndex.slot summary.index digest, cid < summary.monitored.length := by
    intro cid member
    have known := (filed cid).mp member
    rw [digestAt] at known
    obtain ⟨counter, there, -⟩ := Option.map_eq_some_iff.mp known
    exact lt_of_getElem? there
  obtain ⟨found, searching, hit, miss⟩ := findIn_spec test inside
  refine ⟨found, searching, ?_, ?_⟩
  · intro cid same
    obtain ⟨member, counter, there, passes⟩ := hit cid same
    obtain ⟨bucket, -, seen⟩ := structured.readBucket there
    refine ⟨_, seen, ?_, passes⟩
    have known := (filed cid).mp member
    rw [digestAt, there] at known
    exact Option.some.inj known
  · rintro nothing counter member ⟨sameDigest, passes⟩
    obtain ⟨cid, there⟩ := List.mem_iff_getElem?.mp member
    have insideCid : cid < summary.monitored.length := by
      rw [← length_counters]
      exact lt_of_getElem? there
    have present := List.getElem?_eq_getElem insideCid
    obtain ⟨bucket, -, seen⟩ := structured.readBucket present
    rw [there] at seen
    obtain rfl := Option.some.inj seen
    refine miss nothing cid ((filed cid).mpr ?_) _ present passes
    rw [digestAt, present]
    exact congrArg some sameDigest

theorem find_spec (digest : BitVec 64) (value : DataInput) :
    ∃ found, find summary digest value = .ok found ∧
      (∀ cid, found = some cid → ∃ counter, (counters summary)[cid]? = some counter ∧
        counter.Monitors digest value) ∧
      (found = none → ∀ counter ∈ counters summary, ¬counter.Monitors digest value) :=
  structured.search digest fun key => key.eqInput value

theorem countOf_spec {cid : ℕ} {counter : Counter}
    (found : (counters summary)[cid]? = some counter) :
    countOf summary cid = .ok counter.count := by
  have inside : cid < summary.monitored.length := by
    rw [← length_counters]
    exact lt_of_getElem? found
  have present := List.getElem?_eq_getElem inside
  obtain ⟨bucket, reading, seen⟩ := structured.readBucket present
  rw [found] at seen
  simp only [countOf, readAt_some present, bind, Except.bind, reading, Functor.map, Except.map]
  rw [Option.some.inj seen]
  rfl

end

theorem Links.lowest_eq {summary : SpaceSaving} {live : List ℕ} {chain : ℕ → List ℕ}
    (links : Links summary live chain) {bid cid : ℕ} (member : bid ∈ live)
    (inChain : cid ∈ chain bid)
    (smallest : ∀ counter ∈ counters summary, bucketCount summary.buckets bid ≤ counter.count) :
    (flatten summary).lowest = bucketCount summary.buckets bid := by
  have least : ((counters summary).map Counter.count).min? =
      some (bucketCount summary.buckets bid) := by
    refine List.min?_eq_some_iff.mpr ⟨?_, ?_⟩
    · have inside : cid < (counters summary).length := by
        rw [length_counters]
        exact links.inside member inChain
      have found := List.getElem?_eq_getElem inside
      obtain ⟨other, memberOther, inOther, same⟩ := links.count_eq found
      rw [links.chains.eq_of_mem member inChain memberOther inOther, ← same]
      exact List.mem_map_of_mem (List.getElem_mem inside)
    · intro count memberCount
      obtain ⟨counter, memberCounter, rfl⟩ := List.mem_map.mp memberCount
      exact smallest counter memberCounter
  show ((counters summary).map Counter.count).min?.getD 0 = _
  rw [least]
  rfl

theorem minCount_spec {summary : SpaceSaving} (structured : Structured summary)
    (positive : 0 < summary.capacity) :
    minCount summary = .ok (flatten summary).minCount := by
  obtain ⟨live, chain, links⟩ := structured.links
  rw [FlatSummary.minCount]
  show minCount summary = .ok (max summary.discardedMax
    (if (counters summary).length = summary.capacity then (flatten summary).lowest else 0))
  rw [length_counters]
  by_cases full : summary.monitored.length = summary.capacity
  · have something : summary.monitored ≠ [] := by
      rw [← List.length_pos_iff, full]
      exact positive
    obtain ⟨bid, cid, headEq, member, inChain, -, smallest⟩ := links.lowest something
    obtain ⟨bucket, reading, countEq, -⟩ := links.list.readAt member
    rw [if_pos full, links.lowest_eq member inChain smallest, ← countEq]
    simp only [minCount, full, headEq, ne_eq, reduceCtorEq, not_false_eq_true, and_self, if_true,
      reading, Functor.map, Except.map, bind, Except.bind, pure, Except.pure]
  · rw [if_neg full]
    simp only [minCount, full, false_and, if_false, bind, Except.bind, pure, Except.pure]

/-! ### Recording -/

theorem Structured.withTotals {summary : SpaceSaving} (structured : Structured summary)
    (total discardedMax : ℕ) :
    Structured { summary with total := total, discardedMax := discardedMax } := by
  obtain ⟨live, chain, links⟩ := structured.links
  exact ⟨⟨live, chain, links.congr rfl rfl rfl rfl rfl (fun _ => rfl) (fun _ => rfl) fun _ => rfl⟩,
    structured.indexed⟩

/-- Handing a counter to another key: its label changes, and the index with it. -/
theorem handOver_spec {summary : SpaceSaving} (structured : Structured summary) {victim : ℕ}
    (inside : victim < summary.monitored.length) (digest : BitVec 64) (key : HeapItem)
    (error : ℕ) :
    ∃ summary', handOver summary victim digest key error = .ok summary' ∧ Structured summary' ∧
      counters summary' = (counters summary).modify victim (fun counter =>
        { counter with key := key, digest := digest, error := error }) ∧
      summary'.capacity = summary.capacity ∧ summary'.total = summary.total ∧
      summary'.discardedMax = summary.discardedMax := by
  obtain ⟨live, chain, links⟩ := structured.links
  obtain ⟨old, present⟩ : ∃ old, summary.monitored[victim]? = some old :=
    ⟨_, List.getElem?_eq_getElem inside⟩
  let monitored := summary.monitored.modify victim fun counter =>
    { counter with key := key, digest := digest, error := error }
  let cleared : SpaceSaving := { summary with
    monitored := monitored
    index := (unindex summary old.digest victim).index }
  have keepLinks : ∀ {Value : Type} (get : MonitoredKey → Value) (default : Value),
      (∀ counter : MonitoredKey,
        get { counter with key := key, digest := digest, error := error } = get counter) →
      ∀ other, fieldAt get default monitored other = fieldAt get default summary.monitored other :=
    fun get default keep other => fieldAt_modify_of_keep _ keep other
  have writing : writeAt summary.monitored (some victim) (fun counter =>
      { counter with key := key, digest := digest, error := error }) = .ok monitored :=
    writeAt_some _ inside
  refine ⟨file cleared digest victim, ?_, ⟨⟨live, chain, ?_⟩, ?_⟩, ?_, rfl, rfl, rfl⟩
  · simp only [handOver, readAt_some present, bind, Except.bind]
    rw [show writeAt (unindex summary old.digest victim).monitored (some victim) _ = _ from writing]
    rfl
  · exact links.congr rfl rfl rfl rfl (List.length_modify _ _ _) (keepLinks _ _ fun _ => rfl)
      (keepLinks _ _ fun _ => rfl) (keepLinks _ _ fun _ => rfl)
  · have known : digestAt summary victim = some old.digest := by
      rw [digestAt, present]
      rfl
    have unfiled : DigestIndex.Files cleared.index
        (Function.update (digestAt summary) victim none) := structured.indexed.retainOthers known
    have filed := unfiled.push digest (Function.update_self _ _ _)
    rw [Function.update_idem] at filed
    have digests : digestAt (file cleared digest victim) =
        Function.update (digestAt summary) victim (some digest) := by
      funext other
      show (monitored[other]?).map MonitoredKey.digest = _
      by_cases same : other = victim
      · subst same
        rw [Function.update_self, List.getElem?_modify_eq, present]
        rfl
      · rw [Function.update_of_ne same, List.getElem?_modify_ne _ _ (Ne.symm same)]
        rfl
    rw [digests]
    exact filed
  · show monitored.map _ = _
    refine List.ext_getElem? fun place => ?_
    rw [List.getElem?_map, List.getElem?_modify, List.getElem?_modify, counters, List.getElem?_map]
    cases summary.monitored[place]? with
    | none => rfl
    | some counter =>
      refine congrArg some ?_
      by_cases same : victim = place
      · simp only [if_pos same]
        rfl
      · simp only [if_neg same]
        rfl

theorem split_modify {Elem : Type} {elems : List Elem} {place : ℕ} {elem : Elem}
    (found : elems[place]? = some elem) (change : Elem → Elem) :
    elems = elems.take place ++ elem :: elems.drop (place + 1) ∧
      elems.modify place change =
        elems.take place ++ change elem :: elems.drop (place + 1) := by
  obtain ⟨inside, rfl⟩ := List.getElem?_eq_some_iff.mp found
  refine ⟨?_, List.modify_eq_take_cons_drop inside⟩
  rw [← List.drop_eq_getElem_cons inside, List.take_append_drop]

/-- Recording an occurrence never stops with a fault, keeps the invariant and is one of the ways a
flat summary records it. -/
theorem insertMany_spec (H : SketchHasher) {summary : SpaceSaving} (represented : Represented summary)
    (value : DataInput) {weight : ℕ} (some_weight : 0 < weight) :
    ∃ summary', insertMany H summary value weight = .ok summary' ∧ Represented summary' ∧
      (flatten summary).Recorded (H.hash64Seeded 0 value) value weight (flatten summary') := by
  obtain ⟨structured, bounded⟩ := represented
  let digest := H.hash64Seeded 0 value
  let counted : SpaceSaving := { summary with total := saturatingAdd summary.total weight }
  have structuredCounted : Structured counted := structured.withTotals _ summary.discardedMax
  suffices recorded : ∃ summary', insertMany H summary value weight = .ok summary' ∧
      Structured summary' ∧ (flatten summary).Recorded digest value weight (flatten summary') by
    obtain ⟨summary', inserting, structured', step⟩ := recorded
    exact ⟨summary', inserting, ⟨structured', step.bounded bounded some_weight⟩, step⟩
  obtain ⟨found, searching, hit, miss⟩ := find_spec structuredCounted digest value
  have unfolded : insertMany H summary value weight = record counted digest value weight :=
    if_neg some_weight.ne'
  rw [unfolded, record, searching]
  simp only [bind, Except.bind]
  cases found with
  | some cid =>
    obtain ⟨counter, there, monitors⟩ := hit cid rfl
    have inside : cid < counted.monitored.length := by
      rw [← length_counters]
      exact lt_of_getElem? there
    obtain ⟨raised, raising, structured', counters', labels⟩ :=
      raise_spec structuredCounted inside weight
    refine ⟨raised, raising, structured', ?_⟩
    obtain ⟨split, modified⟩ := split_modify there (Counter.raise weight)
    have shape : flatten raised = { flatten summary with
        counters := (counters summary).take cid ++
          counter.raise weight :: (counters summary).drop (cid + 1)
        total := saturatingAdd (flatten summary).total weight } := by
      rw [flatten, counters', labels.capacity, labels.total, labels.discardedMax]
      exact congrArg (FlatSummary.mk summary.capacity · counted.total summary.discardedMax) modified
    rw [shape]
    exact .raised _ _ counter split monitors
  | none =>
    have absent := miss rfl
    by_cases room : summary.monitored.length < summary.capacity
    · have seatPositive : 0 < saturatingAdd summary.discardedMax weight := by
        unfold saturatingAdd u64Max
        omega
      obtain ⟨seated, seating, structured', counters', capacity, total, discardedMax⟩ :=
        seat_spec structuredCounted digest (inputToOwned value) summary.discardedMax seatPositive
          (saturatingAdd_le_max _ _)
      refine ⟨seated, by rw [if_pos room]; exact seating, structured', ?_⟩
      have shape : flatten seated = { flatten summary with
          counters := (flatten summary).counters ++
            [{ key := inputToOwned value, digest := digest,
               count := saturatingAdd (flatten summary).discardedMax weight,
               error := (flatten summary).discardedMax }]
          total := saturatingAdd (flatten summary).total weight } := by
        rw [flatten, counters', capacity, total, discardedMax]
        rfl
      rw [shape]
      exact .seated absent (by
        show (counters summary).length < _
        rw [length_counters]
        exact room)
    · have full : summary.monitored.length = summary.capacity := by
        have notOver : (counters summary).length ≤ summary.capacity := bounded.room
        rw [length_counters] at notOver
        exact le_antisymm notOver (Nat.le_of_not_lt room)
      have something : summary.monitored ≠ [] := by
        rw [← List.length_pos_iff, full]
        exact bounded.positive
      obtain ⟨live, chain, links⟩ := structured.links
      obtain ⟨bid, victim, headEq, member, inChain, firstEq, smallest⟩ := links.lowest something
      obtain ⟨bucket, reading, countEq, bucketHead, -⟩ := links.list.readAt member
      obtain ⟨old, present, -⟩ := links.readCounter member inChain
      have insideVictim := lt_of_getElem? present
      obtain ⟨victimSeen, victimThere⟩ : ∃ counter, (counters summary)[victim]? = some counter :=
        ⟨_, List.getElem?_eq_getElem (by rw [length_counters]; exact insideVictim)⟩
      have victimCount : victimSeen.count = bucket.count := by
        obtain ⟨other, memberOther, inOther, same⟩ := links.count_eq victimThere
        rw [same, countEq, links.chains.eq_of_mem member inChain memberOther inOther]
      have ceiling : ¬bucket.count < counted.discardedMax := by
        show ¬bucket.count < summary.discardedMax
        rw [← victimCount]
        exact Nat.not_lt.mpr (bounded.ceiling victimSeen (List.mem_of_getElem? victimThere))
      obtain ⟨handed, handing, structuredHanded, countersHanded, capacity, total, discardedMax⟩ :=
        handOver_spec (structured.withTotals counted.total bucket.count) insideVictim digest
          (inputToOwned value) bucket.count
      have insideHanded : victim < handed.monitored.length := by
        rw [← length_counters, countersHanded, List.length_modify, length_counters]
        exact insideVictim
      obtain ⟨raised, raising, structured', counters', labels⟩ :=
        raise_spec structuredHanded insideHanded weight
      refine ⟨raised, ?_, structured', ?_⟩
      · have readingHead : readAt summary.buckets summary.bucketHead = .ok bucket := by
          rw [headEq]
          exact reading
        have readingCounted : readAt counted.buckets counted.bucketHead = .ok bucket := readingHead
        rw [if_neg room, displace, readingCounted]
        simp only [bind, Except.bind, if_neg ceiling, bucketHead.trans firstEq]
        rw [show handOver { counted with discardedMax := bucket.count } victim digest
          (inputToOwned value) bucket.count = _ from handing]
        exact raising
      · let handedTo : Counter :=
          { key := inputToOwned value, digest := digest,
            count := saturatingAdd victimSeen.count weight, error := victimSeen.count }
        obtain ⟨split, -⟩ := split_modify victimThere id
        have modified : ((counters summary).modify victim (fun counter =>
            { counter with key := inputToOwned value, digest := digest, error := bucket.count })).modify
              victim (fun counter =>
                { counter with count := saturatingAdd counter.count weight }) =
            (counters summary).take victim ++
              handedTo :: (counters summary).drop (victim + 1) := by
          rw [List.modify_modify_eq, (split_modify victimThere _).2]
          simp only [handedTo, Function.comp_apply, victimCount]
        have shape : flatten raised = { flatten summary with
            counters := (counters summary).take victim ++
              handedTo :: (counters summary).drop (victim + 1)
            total := saturatingAdd (flatten summary).total weight
            discardedMax := victimSeen.count } := by
          rw [flatten, counters', countersHanded, labels.capacity, labels.total,
            labels.discardedMax, capacity, total, discardedMax, victimCount]
          exact congrArg (FlatSummary.mk summary.capacity · counted.total bucket.count) modified
        rw [shape]
        refine .displaced _ _ victimSeen absent ?_ split ?_
        · show (counters summary).length = _
          rw [length_counters]
          exact full
        · intro counter memberCounter
          rw [victimCount, countEq]
          exact smallest counter memberCounter

end SpaceSaving

end AsapSketchlib
