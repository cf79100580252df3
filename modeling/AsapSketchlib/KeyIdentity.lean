/-
This file proves that a key has one entry. Identity is decided by a digest of the bit pattern and
then by `==` on the value, and the two differ on floating-point keys. For a key that equals itself,
every Space-Saving summary and every heavy-hitter heap holds at most one entry, finds it, and the
summary's upper bound covers the weight inserted for the key, whatever other keys arrived. A NaN is
never found, so each of its arrivals takes an entry of its own.
-/

import AsapSketchlib.HeapOffers
import AsapSketchlib.SummaryAccounts

namespace AsapSketchlib

def DataInput.isNan (value : DataInput) : Bool := (inputToOwned value).isNan

theorem position_unique {Elem : Type} {test : Elem → Bool} {elems : List Elem}
    (once : elems.countP test ≤ 1) {left right : ℕ} {first second : Elem}
    (leftEq : elems[left]? = some first) (firstPasses : test first = true)
    (rightEq : elems[right]? = some second) (secondPasses : test second = true) : left = right := by
  have twice : ∀ {rest : List Elem} {place : ℕ} {elem : Elem}, rest[place]? = some elem →
      test elem = true → 0 < rest.countP test := fun placeEq passes =>
    List.countP_pos_iff.mpr ⟨_, List.mem_of_getElem? placeEq, passes⟩
  induction elems generalizing left right with
  | nil => exact absurd leftEq (by simp)
  | cons head rest hypothesis =>
    cases left with
    | zero =>
      cases right with
      | zero => rfl
      | succ right =>
        obtain rfl := Option.some.inj leftEq
        rw [List.countP_cons_of_pos firstPasses] at once
        rw [List.getElem?_cons_succ] at rightEq
        exact absurd (twice rightEq secondPasses) (by omega)
    | succ left =>
      cases right with
      | zero =>
        obtain rfl := Option.some.inj rightEq
        rw [List.countP_cons_of_pos secondPasses] at once
        rw [List.getElem?_cons_succ] at leftEq
        exact absurd (twice leftEq firstPasses) (by omega)
      | succ right =>
        have onceRest : rest.countP test ≤ 1 :=
          ((List.sublist_cons_self head rest).countP_le).trans once
        rw [hypothesis onceRest leftEq rightEq]

/-! ### Summaries and the weights they were fed -/

namespace SpaceSaving

/-- The counter is the key's own: it has its digest, and its stored form bit for bit. -/
def IsEntry (H : SketchHasher) (key : DataInput) (counter : Counter) : Prop :=
  counter.digest = H.hash64Seeded 0 key ∧ counter.key = inputToOwned key

instance (H : SketchHasher) (key : DataInput) (counter : Counter) :
    Decidable (IsEntry H key counter) :=
  inferInstanceAs (Decidable (_ ∧ _))

/-- The reachable summaries with the weight inserted for every key. A summary can also be decoded:
from any state, with nothing inserted yet, or from the triples of a summary, in some order. Stored
keys must then hash as the keys they are the owned form of. -/
inductive Fed (H : SketchHasher) : SpaceSaving → (DataInput → ℕ) → Prop
  | withCapacity (capacity : ℕ) : Fed H (withCapacity capacity) fun _ => 0
  | insertMany {before after : SpaceSaving} {weight : DataInput → ℕ} (fed : Fed H before weight)
      (value : DataInput) (count : ℕ) (step : insertMany H before value count = .ok after) :
      Fed H after fun key => weight key + if SameKey H value key then count else 0
  | merge {mine theirs after : SpaceSaving} {mineWeight theirsWeight : DataInput → ℕ}
      (mineFed : Fed H mine mineWeight) (theirsFed : Fed H theirs theirsWeight) (iter : IterOrder)
      (step : merge iter mine theirs = .ok after) :
      Fed H after fun key => mineWeight key + theirsWeight key
  | clear {before : SpaceSaving} {weight : DataInput → ℕ} (fed : Fed H before weight) :
      Fed H (clear before) fun _ => 0
  | decode {after : SpaceSaving} (coherent : H.Coherent) (state : State)
      (step : rebuild H state = .ok (.ok after)) : Fed H after fun _ => 0
  | reload {before after : SpaceSaving} {weight : DataInput → ℕ} (fed : Fed H before weight)
      (coherent : H.Coherent) (state : State) (listed : List (HeapItem × ℕ × ℕ))
      (listing : entries before = .ok listed) (perm : state.entries.Perm listed)
      (ceiling : state.discardedMax = before.discardedMax)
      (step : rebuild H state = .ok (.ok after)) : Fed H after weight

/-- What the summary owes a key of some weight. -/
structure OneCounter (H : SketchHasher) (summary : SpaceSaving) (key : DataInput) (weight : ℕ) :
    Prop where
  /-- At most one counter is the key's own. -/
  once : (counters summary).countP (fun counter => IsEntry H key counter) ≤ 1
  /-- It is found. -/
  located : ∀ cid counter, (counters summary)[cid]? = some counter → IsEntry H key counter →
    find summary (H.hash64Seeded 0 key) key = .ok (some cid)
  /-- An insertion leaves the key monitored. -/
  inserted : ∀ count, 0 < count →
    ∃ after, insertMany H summary key count = .ok after ∧ Monitored H after key
  /-- The upper bound covers the weight, up to the saturation of the counts. -/
  covered : ∃ bound, upperBound H summary key = .ok bound ∧ min weight u64Max ≤ bound

/-! ### What an occurrence and a merge leave of one key -/

theorem indistinct_of_sameKey {H : SketchHasher} {value key : DataInput}
    (same : SameKey H value key) (number : key.isNan = false) : Indistinct H value key := by
  refine ⟨same.1, ?_⟩
  rw [same.2, HeapItem.eqItem_self, show (inputToOwned key).isNan = false from number]
  rfl

theorem IsEntry.monitors {H : SketchHasher} {key : DataInput} {counter : Counter}
    (own : IsEntry H key counter) (number : key.isNan = false) :
    counter.Monitors (H.hash64Seeded 0 key) key := by
  refine Counter.monitors_iff_eqItem.mpr ⟨own.1, ?_⟩
  rw [own.2, HeapItem.eqItem_self, show (inputToOwned key).isNan = false from number]
  rfl

theorem not_monitors_of_isNan {key : DataInput} (nan : key.isNan = true) (counter : Counter)
    (digest : BitVec 64) : ¬counter.Monitors digest key := by
  intro monitors
  have equal := (Counter.monitors_iff_eqItem.mp monitors).2
  have itself := HeapItem.eqItem_trans _ _ _ (HeapItem.eqItem_symm _ _ equal) equal
  rw [HeapItem.eqItem_self, show (inputToOwned key).isNan = true from nan] at itself
  exact Bool.noConfusion itself

end SpaceSaving

namespace FlatSummary

open SpaceSaving (Apart)

section

variable {H : SketchHasher} {before after : FlatSummary} {key : DataInput} {weight : ℕ}
  (recorded : Recorded before (H.hash64Seeded 0 key) key weight after)

include recorded

theorem Recorded.exists_monitors (number : key.isNan = false) :
    ∃ counter ∈ after.counters, counter.Monitors (H.hash64Seeded 0 key) key := by
  cases recorded with
  | raised front back counter split monitors =>
    exact ⟨counter.raise weight, List.mem_append_right _ List.mem_cons_self, monitors⟩
  | seated absent room =>
    exact ⟨_, List.mem_append_right _ List.mem_cons_self,
      SpaceSaving.IsEntry.monitors ⟨rfl, rfl⟩ number⟩
  | displaced front back victim absent full split smallest =>
    exact ⟨_, List.mem_append_right _ List.mem_cons_self,
      SpaceSaving.IsEntry.monitors ⟨rfl, rfl⟩ number⟩

theorem Recorded.of_isNan (nan : key.isNan = true)
    (room : before.counters.length < before.capacity) :
    after.capacity = before.capacity ∧ ∃ fresh, SpaceSaving.IsEntry H key fresh ∧
      after.counters = before.counters ++ [fresh] := by
  cases recorded with
  | raised front back counter split monitors =>
    exact absurd monitors (SpaceSaving.not_monitors_of_isNan nan counter _)
  | seated absent _ => exact ⟨rfl, _, ⟨rfl, rfl⟩, rfl⟩
  | displaced front back victim absent full split smallest =>
    exact absurd full (Nat.ne_of_lt room)

end

/-- Of counters apart from one another a key has at most one, so the summary tracks it at the weight
that one records. -/
theorem exists_tracks_of_apart {flat : FlatSummary} (apart : flat.counters.Pairwise Apart)
    (digest : BitVec 64) (value : DataInput) : ∃ weight, flat.Tracks digest value weight := by
  have pairwise : (flat.holding digest value).Pairwise Apart := apart.filter _
  have monitors : ∀ counter ∈ flat.holding digest value, counter.Monitors digest value :=
    fun counter member => of_decide_eq_true (List.mem_filter.mp member).2
  cases held : flat.holding digest value with
  | nil => exact ⟨0, .absent held (by simp)⟩
  | cons counter others =>
    cases others with
    | nil =>
      refine ⟨counter.count - counter.error, .held counter held ?_ le_rfl⟩
      exact (min_le_left _ _).trans (Nat.sub_le _ _)
    | cons other rest =>
      rw [held] at pairwise monitors
      obtain ⟨ownDigest, own⟩ := Counter.monitors_iff_eqItem.mp (monitors counter List.mem_cons_self)
      obtain ⟨otherDigest, equal⟩ := Counter.monitors_iff_eqItem.mp
        (monitors other (List.mem_cons_of_mem _ List.mem_cons_self))
      refine absurd ?_ (List.rel_of_pairwise_cons pairwise (List.mem_cons_self : other ∈ _))
      exact ⟨ownDigest.trans otherDigest.symm,
        HeapItem.eqItem_trans _ _ _ own (HeapItem.eqItem_symm _ _ equal)⟩

theorem Tracks.of_perm {before after : FlatSummary} {digest : BitVec 64} {value : DataInput}
    {weight : ℕ} (tracks : before.Tracks digest value weight)
    (perm : after.counters.Perm before.counters)
    (ceiling : after.discardedMax = before.discardedMax) : after.Tracks digest value weight := by
  have holding : (after.holding digest value).Perm (before.holding digest value) := perm.filter _
  cases tracks with
  | held counter only lower upper =>
    rw [only, List.perm_singleton] at holding
    exact .held counter holding lower upper
  | absent nothing low =>
    rw [nothing, List.perm_nil] at holding
    exact .absent holding (ceiling ▸ low)

theorem Tracks.once {flat : FlatSummary} {digest : BitVec 64} {value : DataInput} {weight : ℕ}
    (tracks : flat.Tracks digest value weight) :
    flat.counters.countP (fun counter => counter.Monitors digest value) ≤ 1 := by
  rw [List.countP_eq_length_filter]
  show (flat.holding digest value).length ≤ 1
  cases tracks with
  | held counter only lower upper => rw [only, List.length_singleton]
  | absent nothing ceiling =>
    rw [nothing]
    exact Nat.zero_le _

end FlatSummary

/-! ### Every run of a summary -/

namespace SpaceSaving

/-- What holds of a summary and the weights it was fed. The weight known of a key can be above the
one inserted for it, where keys that are not told apart share a counter. -/
structure Kept (H : SketchHasher) (summary : SpaceSaving) (weight : DataInput → ℕ) : Prop where
  represented : Represented summary
  labelled : H.Coherent → ∀ counter ∈ counters summary,
    counter.digest = H.hashItem64Seeded 0 counter.key
  tracks : ∀ key, ∃ total, (key.isNan = false → weight key ≤ total) ∧
    (flatten summary).Tracks (H.hash64Seeded 0 key) key total

variable {H : SketchHasher} {summary : SpaceSaving} {weight : DataInput → ℕ}

theorem kept_of_empty (represented : Represented summary) (empty : summary.monitored = []) :
    Kept H summary fun _ => 0 := by
  refine ⟨represented, fun _ counter member => ?_, fun key => ?_⟩
  · rw [counters, empty] at member
    exact absurd member List.not_mem_nil
  · exact ⟨0, fun _ => le_rfl, tracks_of_empty empty key⟩

theorem Kept.insertMany (kept : Kept H summary weight) (value : DataInput) {count : ℕ}
    (positive : 0 < count) : ∃ after, insertMany H summary value count = .ok after ∧
      (flatten summary).Recorded (H.hash64Seeded 0 value) value count (flatten after) ∧
      Kept H after fun key => weight key + if SameKey H value key then count else 0 := by
  obtain ⟨after, inserting, represented, step⟩ :=
    insertMany_spec H kept.represented value positive
  refine ⟨after, inserting, step, represented, fun coherent => ?_, fun key => ?_⟩
  · exact step.labelled (fun key digest => digest = H.hashItem64Seeded 0 key) (coherent 0 value)
      (kept.labelled coherent)
  · obtain ⟨total, below, tracks⟩ := kept.tracks key
    refine ⟨_, fun number => ?_, step.tracks kept.represented.bounded tracks⟩
    refine Nat.add_le_add (below number) ?_
    by_cases same : SameKey H value key
    · rw [if_pos same, if_pos (indistinct_of_sameKey same number)]
    · rw [if_neg same]
      exact Nat.zero_le _

theorem Fed.kept (fed : Fed H summary weight) : Kept H summary weight := by
  induction fed with
  | withCapacity capacity => exact kept_of_empty (withCapacity_represented capacity) rfl
  | @insertMany before after weight fed value count step hypothesis =>
    by_cases nothing : count = 0
    · subst nothing
      rw [SpaceSaving.insertMany, if_pos rfl] at step
      obtain rfl : before = after := Except.ok.inj step
      simp only [ite_self, Nat.add_zero]
      exact hypothesis
    · obtain ⟨summary', inserting, -, kept⟩ :=
        hypothesis.insertMany value (Nat.pos_of_ne_zero nothing)
      obtain rfl : summary' = after := Except.ok.inj (inserting.symm.trans step)
      exact kept
  | @merge mine theirs after mineWeight theirsWeight mineFed theirsFed iter step mineKept theirsKept =>
    obtain ⟨summary', sorted, merging, represented, merged, -⟩ :=
      merge_spec iter mineKept.represented theirsKept.represented
    obtain rfl : summary' = after := Except.ok.inj (merging.symm.trans step)
    refine ⟨represented, fun coherent => ?_, fun key => ?_⟩
    · exact merged.labelled (fun key digest => digest = H.hashItem64Seeded 0 key)
        (mineKept.labelled coherent) (theirsKept.labelled coherent)
    · obtain ⟨mineTotal, mineBelow, mineTracks⟩ := mineKept.tracks key
      obtain ⟨theirsTotal, theirsBelow, theirsTracks⟩ := theirsKept.tracks key
      exact ⟨_, fun number => Nat.add_le_add (mineBelow number) (theirsBelow number),
        merged.tracks mineKept.represented.bounded theirsKept.represented.bounded mineTracks
          theirsTracks⟩
  | clear fed hypothesis =>
    exact kept_of_empty (clear_represented hypothesis.represented) rfl
  | @decode after coherent state step =>
    obtain ⟨outcome, rebuilding, rebuilt⟩ := rebuild_spec H state
    have spec := rebuilt after (Except.ok.inj (rebuilding.symm.trans step))
    refine ⟨spec.represented, fun _ => spec.digest_eq, fun key => ?_⟩
    have apart : (flatten after).counters.Pairwise Apart := spec.apart
    obtain ⟨total, tracks⟩ := FlatSummary.exists_tracks_of_apart apart (H.hash64Seeded 0 key) key
    exact ⟨total, fun _ => Nat.zero_le _, tracks⟩
  | @reload before after weight fed coherent state listed listing perm ceiling step
      hypothesis =>
    obtain ⟨outcome, rebuilding, rebuilt⟩ := rebuild_spec H state
    have spec := rebuilt after (Except.ok.inj (rebuilding.symm.trans step))
    have same : (counters after).Perm (counters before) := by
      rw [entries_spec hypothesis.represented.structured] at listing
      obtain rfl := Except.ok.inj listing
      refine (spec.held.trans (perm.map _)).trans (List.Perm.of_eq ?_)
      rw [List.map_map]
      refine (List.map_congr_left fun counter member => ?_).trans (List.map_id _)
      show decodedCounter H (counter.key, counter.count, counter.error) = counter
      rw [decodedCounter, ← hypothesis.labelled coherent counter member]
    refine ⟨spec.represented, fun _ => spec.digest_eq, fun key => ?_⟩
    obtain ⟨total, below, tracks⟩ := hypothesis.tracks key
    exact ⟨total, below, tracks.of_perm same (spec.discardedMax.trans ceiling)⟩

theorem find_of_once (represented : Represented summary) {key : DataInput} {digest : BitVec 64}
    (once : (counters summary).countP (fun counter => counter.Monitors digest key) ≤ 1) {cid : ℕ}
    {counter : Counter} (there : (counters summary)[cid]? = some counter)
    (monitors : counter.Monitors digest key) : find summary digest key = .ok (some cid) := by
  obtain ⟨found, searching, hit, miss⟩ := find_spec represented.structured digest key
  rw [searching]
  cases found with
  | none => exact absurd monitors (miss rfl counter (List.mem_of_getElem? there))
  | some other =>
    obtain ⟨otherCounter, otherThere, otherMonitors⟩ := hit other rfl
    rw [position_unique once otherThere (decide_eq_true otherMonitors) there
      (decide_eq_true monitors)]

theorem monitored_of_mem (represented : Represented summary) {key : DataInput} {counter : Counter}
    (member : counter ∈ counters summary) (monitors : counter.Monitors (H.hash64Seeded 0 key) key) :
    Monitored H summary key := by
  obtain ⟨found, searching, -, miss⟩ :=
    find_spec represented.structured (H.hash64Seeded 0 key) key
  cases found with
  | none => exact absurd monitors (miss rfl counter member)
  | some cid => exact ⟨cid, searching⟩

theorem Kept.oneCounter (kept : Kept H summary weight) {key : DataInput}
    (number : key.isNan = false) : OneCounter H summary key (weight key) := by
  obtain ⟨total, below, tracks⟩ := kept.tracks key
  have once : (counters summary).countP
      (fun counter => counter.Monitors (H.hash64Seeded 0 key) key) ≤ 1 := tracks.once
  refine ⟨?_, ?_, ?_, ?_⟩
  · refine (List.countP_mono_left fun counter _ own => ?_).trans once
    exact decide_eq_true ((of_decide_eq_true own : IsEntry H key counter).monitors number)
  · exact fun cid counter there own =>
      find_of_once kept.represented once there (own.monitors number)
  · intro count positive
    obtain ⟨after, inserting, step, keptAfter⟩ := kept.insertMany key positive
    obtain ⟨counter, member, monitors⟩ := step.exists_monitors number
    exact ⟨after, inserting, monitored_of_mem keptAfter.represented member monitors⟩
  · have lower : min (weight key) u64Max ≤ min total u64Max :=
      min_le_min_right _ (below number)
    by_cases monitored : Monitored H summary key
    · obtain ⟨counter, member, monitors, -, bounding, -⟩ :=
        monitored_queries kept.represented monitored
      refine ⟨_, bounding, lower.trans ?_⟩
      have inHolding : counter ∈ (flatten summary).holding (H.hash64Seeded 0 key) key :=
        List.mem_filter.mpr ⟨member, decide_eq_true monitors⟩
      cases tracks with
      | held other only low high =>
        rw [only, List.mem_singleton] at inHolding
        exact inHolding ▸ low
      | absent nothing ceiling =>
        rw [nothing] at inHolding
        exact absurd inHolding List.not_mem_nil
    · obtain ⟨noneMonitors, bounding, -⟩ := unmonitored_queries kept.represented monitored
      refine ⟨_, bounding, lower.trans ?_⟩
      cases tracks with
      | held other only low high =>
        have inHolding : other ∈ (flatten summary).holding (H.hash64Seeded 0 key) key :=
          only ▸ List.mem_singleton_self other
        exact absurd (of_decide_eq_true (List.mem_filter.mp inHolding).2)
          (noneMonitors other (List.mem_filter.mp inHolding).1)
      | absent nothing ceiling => exact ceiling.trans (le_max_left _ _)

theorem exists_two_entries (H : SketchHasher) {key : DataInput} (nan : key.isNan = true) :
    ∃ summary weight, Fed H summary weight ∧
      (counters summary).countP (fun counter => IsEntry H key counter) = 2 := by
  have start : Fed H (withCapacity 2) fun _ => 0 := .withCapacity 2
  obtain ⟨first, firstInserting, firstStep, firstKept⟩ := start.kept.insertMany key Nat.one_pos
  obtain ⟨firstCapacity, one, ownOne, firstCounters⟩ := firstStep.of_isNan nan (by decide)
  obtain ⟨second, secondInserting, secondStep, -⟩ := firstKept.insertMany key Nat.one_pos
  have room : (flatten first).counters.length < (flatten first).capacity := by
    rw [firstCounters, firstCapacity]
    exact Nat.one_lt_two
  obtain ⟨-, two, ownTwo, secondCounters⟩ := secondStep.of_isNan nan room
  refine ⟨second, _, (start.insertMany key 1 firstInserting).insertMany key 1 secondInserting, ?_⟩
  rw [firstCounters] at secondCounters
  rw [show counters second = [one, two] from secondCounters]
  refine List.countP_eq_length.mpr fun counter member => decide_eq_true ?_
  rcases List.mem_cons.mp member with rfl | member
  · exact ownOne
  · rw [List.mem_singleton.mp member]
    exact ownTwo

end SpaceSaving

/-! ### Every run of a heap -/

namespace HHHeap

/-- The reachable heaps. A decoded heap has its index built anew. -/
inductive Reached (xxh : XxHash3) : HHHeap → Prop
  | new (k : ℕ) : Reached xxh (new k)
  | update {heap : HHHeap} (reached : Reached xxh heap) (key : DataInput) (count : ℤ) :
      Reached xxh (update xxh heap key count).1
  | updateHeapItem {heap : HHHeap} (reached : Reached xxh heap) (key : HeapItem) (count : ℤ) :
      Reached xxh (updateHeapItem xxh heap key count).1
  | clear {heap : HHHeap} (reached : Reached xxh heap) : Reached xxh (clear heap)
  | decode {heap : HHHeap} (reached : Reached xxh heap) : Reached xxh (rebuildIndex xxh heap)

structure OneResident (xxh : XxHash3) (heap : HHHeap) (key : DataInput) : Prop where
  /-- The key is resident at most once. -/
  once : (keys heap).count (inputToOwned key) ≤ 1
  /-- It is found where it is resident. -/
  located : ∀ idx, find xxh heap key = some idx ↔ (keys heap)[idx]? = some (inputToOwned key)
  /-- After an offer it is found, unless the heap turned it away. -/
  inserted : ∀ count, find xxh (update xxh heap key count).1 key = none →
    (update xxh heap key count).1 = heap

variable {xxh : XxHash3} {heap : HHHeap}

theorem Reached.wellFormed (reached : Reached xxh heap) : WellFormed xxh heap := by
  induction reached with
  | new k => exact wellFormed_new k
  | update reached key count hypothesis =>
    rw [update_eq_updateHeapItem]
    exact hypothesis.updateHeapItem (inputToOwned key) count
  | updateHeapItem reached key count hypothesis =>
    exact hypothesis.updateHeapItem key count
  | @clear heap reached hypothesis => exact wellFormed_new heap.k
  | decode reached hypothesis =>
    exact ⟨indexed_rebuildIndex hypothesis.indexed.bounded, hypothesis.single⟩

theorem WellFormed.oneResident (wellFormed : WellFormed xxh heap) {key : DataInput}
    (number : key.isNan = false) : OneResident xxh heap key := by
  have once := wellFormed.single (inputToOwned key) number
  refine ⟨once, fun idx => ?_, fun count missing => ?_⟩
  · rw [find_eq_findHeapItem]
    have resident : ∀ place, findHeapItem xxh heap (inputToOwned key) = some place →
        (keys heap)[place]? = some (inputToOwned key) := by
      intro place found
      obtain ⟨item, itemEq, same, -⟩ := findHeapItem_some wellFormed.indexed found
      rw [keys, List.getElem?_map, itemEq, Option.map_some, same]
    refine ⟨resident idx, fun there => ?_⟩
    obtain ⟨place, found⟩ := Option.isSome_iff_exists.mp
      ((findHeapItem_isSome wellFormed.indexed _ number).mpr (List.mem_of_getElem? there))
    rw [found, position_unique once (resident place found) (beq_self_eq_true _) there
      (beq_self_eq_true _)]
  · rw [update_eq_updateHeapItem] at missing ⊢
    rw [find_eq_findHeapItem] at missing
    obtain ⟨offered, indexed, -⟩ := updateHeapItem_spec wellFormed.indexed (inputToOwned key) count
    have absent := findHeapItem_none indexed missing number
    rcases offered.lands wellFormed.single with ⟨same, -⟩ | ⟨rest, perm, -⟩
    · exact same
    · refine absurd ?_ absent
      exact List.mem_map.mpr ⟨_, perm.mem_iff.mpr List.mem_cons_self, rfl⟩

theorem exists_two_residents (xxh : XxHash3) {key : DataInput} (nan : key.isNan = true) :
    ∃ heap, Reached xxh heap ∧ (keys heap).count (inputToOwned key) = 2 := by
  have start : Reached xxh (new 2) := .new 2
  have first := perm_updateHeapItem_nan start.wellFormed.indexed
    (show (inputToOwned key).isNan = true from nan) 0 (by decide)
  rw [← update_eq_updateHeapItem] at first
  have room : (update xxh (new 2) key 0).1.heap.length < (update xxh (new 2) key 0).1.k := by
    rw [first.length_eq, update_k]
    exact Nat.one_lt_two
  have second := perm_updateHeapItem_nan (start.update key 0).wellFormed.indexed
    (show (inputToOwned key).isNan = true from nan) 0 room
  rw [← update_eq_updateHeapItem] at second
  refine ⟨_, (start.update key 0).update key 0, ?_⟩
  rw [keys, ((second.trans (first.cons _)).map HHItem.key).count_eq, List.map_cons, List.map_cons,
    List.count_cons_self, List.count_cons_self]
  rfl

end HHHeap

/-! ### One entry per key value -/

/-- The keys that every reachable summary and every reachable heap give one entry are exactly those
that equal themselves. -/
theorem one_entry_iff (H : SketchHasher) (xxh : XxHash3) (key : DataInput) :
    ((∀ summary weight, SpaceSaving.Fed H summary weight →
        SpaceSaving.OneCounter H summary key (weight key)) ↔ key.isNan = false) ∧
      ((∀ heap, HHHeap.Reached xxh heap → HHHeap.OneResident xxh heap key) ↔
        key.isNan = false) := by
  refine ⟨⟨fun owed => ?_, fun number summary weight fed => fed.kept.oneCounter number⟩,
    ⟨fun owed => ?_, fun number heap reached => reached.wellFormed.oneResident number⟩⟩
  · cases nan : key.isNan with
    | false => rfl
    | true =>
      obtain ⟨summary, weight, fed, twice⟩ := SpaceSaving.exists_two_entries H nan
      exact absurd (owed summary weight fed).once (by omega)
  · cases nan : key.isNan with
    | false => rfl
    | true =>
      obtain ⟨heap, reached, twice⟩ := HHHeap.exists_two_residents xxh nan
      exact absurd (owed heap reached).once (by omega)

/-- Two arrivals of one NaN leave two counters and two residents, neither of which is found, and an
upper bound of one. -/
theorem one_entry_fails_nan :
    (∃ summary weight, SpaceSaving.Fed (defaultXxHasher plainXxHash) summary weight ∧
      weight (.f64 0x7ff8000000000000#64) = 2 ∧
      (SpaceSaving.counters summary).countP (fun counter =>
        SpaceSaving.IsEntry (defaultXxHasher plainXxHash) (.f64 0x7ff8000000000000#64) counter) = 2 ∧
      ¬SpaceSaving.Monitored (defaultXxHasher plainXxHash) summary (.f64 0x7ff8000000000000#64) ∧
      SpaceSaving.upperBound (defaultXxHasher plainXxHash) summary (.f64 0x7ff8000000000000#64) =
        .ok 1) ∧
    ∃ heap, HHHeap.Reached plainXxHash heap ∧
      (HHHeap.keys heap).count (.f64 0x7ff8000000000000#64) = 2 ∧
      HHHeap.find plainXxHash heap (.f64 0x7ff8000000000000#64) = none := by
  refine ⟨⟨_, _, ((SpaceSaving.Fed.withCapacity 2).insertMany (.f64 0x7ff8000000000000#64) 1
    rfl).insertMany (.f64 0x7ff8000000000000#64) 1 rfl, by decide +kernel, by decide +kernel, ?_,
    rfl⟩, _, ((HHHeap.Reached.new 2).update (.f64 0x7ff8000000000000#64) 1).update
    (.f64 0x7ff8000000000000#64) 2, by decide +kernel, by decide +kernel⟩
  rintro ⟨cid, finding⟩
  exact absurd (Except.ok.inj finding) (by simp)

end AsapSketchlib
