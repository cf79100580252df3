/-
This file follows the parent of an Elastic pipeline along the deltas it receives. For every flow
and every row, the votes of its bucket and the counter of the row together grow by what a delta
brings. While the bucket of a resident has its flag down, no delta received has marked the flow,
and the votes alone are all that came under its key, provided that a flow once marked is never
named unmarked again.
-/

import AsapSketchlib.ElasticCoverage
import AsapSketchlib.ElasticOctoWorkers

namespace AsapSketchlib

namespace Elastic

variable {hasher : SketchHasher} {sketch : Elastic}

/-! ### What one insertion does -/

theorem insertMany_cases (settled : sketch.staleCopies = false) (id : String) {count : ℤ}
    (positive : 0 < count) :
    let old := bucketAt sketch (bucketIndex hasher sketch id)
    ∃ bucket light, insertMany hasher sketch id count =
        { setBucket sketch (bucketIndex hasher sketch id) bucket with light := light } ∧
      ((old.votePos = 0 ∧ bucket = old.occupyMany id count ∧ light = sketch.light) ∨
        (old.Seats id ∧ bucket = { old with votePos := old.votePos + count } ∧
          light = sketch.light) ∨
        (old.votePos ≠ 0 ∧ old.flowId ≠ id ∧
          bucket = { old with voteNeg := old.voteNeg + count } ∧
          light = CountMin.insertMany hasher sketch.light (.string id) count) ∨
        (old.votePos ≠ 0 ∧ old.flowId ≠ id ∧ bucket = old.evictMany id count ∧
          light = CountMin.insertMany hasher sketch.light (.string old.flowId) old.votePos)) := by
  intro old
  have live : staleAt hasher sketch (bucketIndex hasher sketch id) = false := by
    rw [staleAt, settled, Bool.false_and]
  simp only [insertMany, if_neg (not_le.mpr positive), live, Bool.false_eq_true, if_false,
    HeavyBucket.isVacant, decide_eq_true_eq]
  by_cases vacant : old.votePos = 0
  · rw [if_pos vacant]
    exact ⟨_, _, rfl, Or.inl ⟨vacant, rfl, rfl⟩⟩
  · rw [if_neg vacant]
    by_cases resident : old.flowId = id
    · rw [if_pos resident]
      exact ⟨_, _, rfl, Or.inr (Or.inl ⟨⟨vacant, resident⟩, rfl, rfl⟩)⟩
    · rw [if_neg resident]
      split
      · exact ⟨_, _, rfl, Or.inr (Or.inr (Or.inl ⟨vacant, resident, rfl, rfl⟩))⟩
      · exact ⟨_, _, rfl, Or.inr (Or.inr (Or.inr ⟨vacant, resident, rfl, rfl⟩))⟩

/-! ### The weight of a flow -/

/-- What every parent keeps: its tables have their sizes, no copies are stale and no vote is
negative. -/
structure Grounded (sketch : Elastic) (rows cols : ℕ) : Prop where
  sized : sketch.heavy.length = sketch.bktlen
  someBucket : 0 < sketch.bktlen
  settled : sketch.staleCopies = false
  lightRows : sketch.light.counts.rows = rows
  lightCols : sketch.light.counts.cols = cols
  votes : ∀ idx, 0 ≤ (bucketAt sketch idx).votePos

def seatedVotes (bucket : HeavyBucket) (flow : String) : ℤ :=
  if bucket.flowId = flow then bucket.votePos else 0

def lightCounter (hasher : SketchHasher) (light : CountMin) (flow : String) (row : ℕ) : ℤ :=
  light.counts.queryOneCounter row (CountMin.colFor hasher light (.string flow) row)

/-- The weight of a flow in a row: the votes of its bucket and the counter. -/
def weight (hasher : SketchHasher) (sketch : Elastic) (flow : String) (row : ℕ) : ℤ :=
  seatedVotes (bucketAt sketch (bucketIndex hasher sketch flow)) flow +
    lightCounter hasher sketch.light flow row

theorem lightCounter_insertMany (hasher : SketchHasher) {light : CountMin} (someCol : 0 < light.counts.cols)
    (key : String) {many : ℤ} (nonneg : 0 ≤ many) (flow : String) {row : ℕ}
    (inside : row < light.counts.rows) :
    lightCounter hasher light flow row + arrival key many flow ≤
      lightCounter hasher (CountMin.insertMany hasher light (.string key) many) flow row := by
  refine le_of_le_of_eq ?_ (CountMin.queryOneCounter_insertMany light (.string key) many inside
    (lower32Col_lt _ _ someCol)).symm
  refine add_le_add_right ?_ _
  by_cases own : key = flow
  · subst own
    rw [arrival_self, if_pos rfl]
  · rw [arrival_of_ne own]
    split
    · exact nonneg
    · exact le_rfl

variable {rows cols : ℕ}

section

variable (grounded : Grounded sketch rows cols)

include grounded

theorem Grounded.bucketIndex_lt (hasher : SketchHasher) (id : String) :
    bucketIndex hasher sketch id < sketch.heavy.length :=
  grounded.sized.symm ▸ Nat.mod_lt _ grounded.someBucket

theorem Grounded.rewrite (id : String) {bucket : HeavyBucket} {light : CountMin}
    (votes : 0 ≤ bucket.votePos) (sameRows : light.counts.rows = rows)
    (sameCols : light.counts.cols = cols) :
    Grounded { setBucket sketch (bucketIndex hasher sketch id) bucket with light := light }
      rows cols := by
  refine ⟨List.length_set.trans grounded.sized, grounded.someBucket, grounded.settled, sameRows,
    sameCols, fun idx => ?_⟩
  refine le_of_le_of_eq ?_ (congrArg HeavyBucket.votePos
    (bucketAt_setBucket (grounded.bucketIndex_lt hasher id) bucket idx)).symm
  split
  · exact votes
  · exact grounded.votes idx

theorem Grounded.insertMany (id : String) (count : ℤ) :
    Grounded (insertMany hasher sketch id count) rows cols := by
  by_cases positive : 0 < count
  · obtain ⟨bucket, light, inserted, cases⟩ := insertMany_cases grounded.settled id positive
    have votes := grounded.votes (bucketIndex hasher sketch id)
    rw [inserted]
    rcases cases with ⟨-, rfl, rfl⟩ | ⟨-, rfl, rfl⟩ | ⟨-, -, rfl, rfl⟩ | ⟨-, -, rfl, rfl⟩
    · exact grounded.rewrite id positive.le grounded.lightRows grounded.lightCols
    · exact grounded.rewrite id (add_nonneg votes positive.le) grounded.lightRows
        grounded.lightCols
    · exact grounded.rewrite id votes grounded.lightRows grounded.lightCols
    · exact grounded.rewrite id positive.le grounded.lightRows grounded.lightCols
  · rw [Elastic.insertMany, if_pos (not_lt.mp positive)]
    exact grounded

theorem weight_rewrite (id : String) (bucket : HeavyBucket) (light : CountMin) (flow : String)
    (row : ℕ) :
    weight hasher { setBucket sketch (bucketIndex hasher sketch id) bucket with light := light }
        flow row =
      (if bucketIndex hasher sketch id = bucketIndex hasher sketch flow then
        seatedVotes bucket flow
      else seatedVotes (bucketAt sketch (bucketIndex hasher sketch flow)) flow) +
        lightCounter hasher light flow row := by
  have read := bucketAt_setBucket (grounded.bucketIndex_lt hasher id) bucket
    (bucketIndex hasher sketch flow)
  show seatedVotes (bucketAt (setBucket sketch (bucketIndex hasher sketch id) bucket)
    (bucketIndex hasher sketch flow)) flow + _ = _
  rw [read]
  split <;> rfl

/-- An insert adds its count to the weight of its flow, and takes from none. -/
theorem weight_insertMany (someCol : 0 < cols) (id : String) {count : ℤ} (positive : 0 < count)
    (flow : String) {row : ℕ} (inside : row < rows) :
    weight hasher sketch flow row + arrival id count flow ≤
      weight hasher (insertMany hasher sketch id count) flow row := by
  have someCol' : 0 < sketch.light.counts.cols := grounded.lightCols.symm ▸ someCol
  have inside' : row < sketch.light.counts.rows := grounded.lightRows.symm ▸ inside
  obtain ⟨bucket, light, inserted, cases⟩ := insertMany_cases grounded.settled id positive
  have votes := grounded.votes (bucketIndex hasher sketch id)
  rw [inserted, weight_rewrite grounded id, weight]
  by_cases same : bucketIndex hasher sketch id = bucketIndex hasher sketch flow
  · rw [if_pos same, ← same]
    rcases cases with ⟨vacant, rfl, rfl⟩ | ⟨seats, rfl, rfl⟩ | ⟨-, -, rfl, rfl⟩ | ⟨-, -, rfl, rfl⟩
    · have none : seatedVotes (bucketAt sketch (bucketIndex hasher sketch id)) flow = 0 := by
        rw [seatedVotes, vacant, ite_self]
      have seated : seatedVotes ((bucketAt sketch (bucketIndex hasher sketch id)).occupyMany id
          count) flow = arrival id count flow := rfl
      rw [none, seated]
      linarith only
    · have gained : seatedVotes { bucketAt sketch (bucketIndex hasher sketch id) with
          votePos := (bucketAt sketch (bucketIndex hasher sketch id)).votePos + count } flow =
          seatedVotes (bucketAt sketch (bucketIndex hasher sketch id)) flow +
            arrival id count flow := by
        simp only [seatedVotes, arrival, seats.2]
        split
        · rfl
        · exact (add_zero 0).symm
      rw [gained]
      linarith only
    · have counted := lightCounter_insertMany hasher someCol' id positive.le flow inside'
      have kept : seatedVotes { bucketAt sketch (bucketIndex hasher sketch id) with
          voteNeg := (bucketAt sketch (bucketIndex hasher sketch id)).voteNeg + count } flow =
          seatedVotes (bucketAt sketch (bucketIndex hasher sketch id)) flow := rfl
      rw [kept]
      linarith only [counted]
    · have counted := lightCounter_insertMany hasher someCol'
        (bucketAt sketch (bucketIndex hasher sketch id)).flowId votes flow inside'
      have seated : seatedVotes ((bucketAt sketch (bucketIndex hasher sketch id)).evictMany id
          count) flow = arrival id count flow := rfl
      have left : seatedVotes (bucketAt sketch (bucketIndex hasher sketch id)) flow =
          arrival (bucketAt sketch (bucketIndex hasher sketch id)).flowId
            (bucketAt sketch (bucketIndex hasher sketch id)).votePos flow := rfl
      rw [seated, left]
      linarith only [counted]
  · have elsewhere : arrival id count flow = 0 := arrival_of_ne (fun equal =>
      same (congrArg _ equal)) count
    have grown : lightCounter hasher sketch.light flow row ≤ lightCounter hasher light flow row := by
      rcases cases with ⟨-, -, rfl⟩ | ⟨-, -, rfl⟩ | ⟨-, -, -, rfl⟩ | ⟨-, -, -, rfl⟩
      · exact le_rfl
      · exact le_rfl
      · have counted := lightCounter_insertMany hasher someCol' id positive.le flow
          inside'
        rw [elsewhere, add_zero] at counted
        exact counted
      · have counted := lightCounter_insertMany hasher someCol'
          (bucketAt sketch (bucketIndex hasher sketch id)).flowId votes flow inside'
        refine le_trans (le_add_of_nonneg_right ?_) counted
        rw [arrival]
        split
        · exact votes
        · exact le_rfl
    rw [if_neg same, elsewhere, add_zero]
    exact add_le_add_right grown _

end

/-! ### Flags -/

def flagIf (bucket : HeavyBucket) (id : String) : HeavyBucket :=
  if !bucket.isVacant && bucket.flowId = id then { bucket with eviction := true } else bucket

theorem flagIf_of_seats {bucket : HeavyBucket} {id : String} (seats : bucket.Seats id) :
    flagIf bucket id = { bucket with eviction := true } :=
  if_pos ((HeavyBucket.seats_iff bucket id).mpr seats)

theorem flagIf_of_not_seats {bucket : HeavyBucket} {id : String} (absent : ¬bucket.Seats id) :
    flagIf bucket id = bucket :=
  if_neg fun seats => absent ((HeavyBucket.seats_iff bucket id).mp seats)

theorem seatedVotes_flagIf (bucket : HeavyBucket) (id flow : String) :
    seatedVotes (flagIf bucket id) flow = seatedVotes bucket flow := by
  unfold flagIf
  split <;> rfl

theorem flagIfResident_eq (sketch : Elastic) (idx : ℕ) (id : String) :
    flagIfResident sketch idx id = setBucket sketch idx (flagIf (bucketAt sketch idx) id) ∨
      flagIfResident sketch idx id = sketch ∧ flagIf (bucketAt sketch idx) id = bucketAt sketch idx := by
  unfold flagIfResident flagIf
  by_cases seats : (!(bucketAt sketch idx).isVacant && (bucketAt sketch idx).flowId = id) = true
  · simp only [if_pos seats]
    exact Or.inl trivial
  · simp only [if_neg seats]
    exact Or.inr ⟨trivial, trivial⟩

theorem bucketAt_flagIfResident {idx : ℕ} (inside : idx < sketch.heavy.length) (id : String)
    (other : ℕ) : bucketAt (flagIfResident sketch idx id) other =
      if idx = other then flagIf (bucketAt sketch idx) id else bucketAt sketch other := by
  rcases flagIfResident_eq sketch idx id with written | ⟨same, kept⟩
  · rw [written, bucketAt_setBucket inside]
  · rw [same, kept]
    split
    · rename_i here
      rw [here]
    · rfl

theorem flagIfResident_light (sketch : Elastic) (idx : ℕ) (id : String) :
    (flagIfResident sketch idx id).light = sketch.light := by
  rcases flagIfResident_eq sketch idx id with written | ⟨same, -⟩
  · rw [written]
    rfl
  · rw [same]

theorem flagIfResident_bktlen (sketch : Elastic) (idx : ℕ) (id : String) :
    (flagIfResident sketch idx id).bktlen = sketch.bktlen := by
  rcases flagIfResident_eq sketch idx id with written | ⟨same, -⟩
  · rw [written]
    rfl
  · rw [same]

theorem Grounded.flagIfResident (grounded : Grounded sketch rows cols) (hasher : SketchHasher)
    (id : String) :
    Grounded (flagIfResident sketch (bucketIndex hasher sketch id) id) rows cols := by
  rcases flagIfResident_eq sketch (bucketIndex hasher sketch id) id with written | ⟨same, -⟩
  · rw [written]
    refine grounded.rewrite id ?_ grounded.lightRows grounded.lightCols
    refine le_of_le_of_eq (grounded.votes (bucketIndex hasher sketch id)) ?_
    unfold flagIf
    split <;> rfl
  · rw [same]
    exact grounded

theorem weight_flagIfResident (grounded : Grounded sketch rows cols) (hasher : SketchHasher)
    (id flow : String) (row : ℕ) :
    weight hasher (Elastic.flagIfResident sketch (bucketIndex hasher sketch id) id) flow row =
      weight hasher sketch flow row := by
  have sameIndex : bucketIndex hasher
      (Elastic.flagIfResident sketch (bucketIndex hasher sketch id) id) flow =
        bucketIndex hasher sketch flow := by
    unfold bucketIndex
    rw [flagIfResident_bktlen]
  unfold weight
  rw [flagIfResident_light, sameIndex, bucketAt_flagIfResident (grounded.bucketIndex_lt hasher id)]
  split
  · rename_i same
    rw [seatedVotes_flagIf, same]
  · rfl

/-! ### What a bucket has heard of a flow -/

/-- What the bucket of a flow tells of the deltas received: a resident was named; while the flag
is down a resident was not marked and has all that came under its key as votes, and a vacant
bucket has heard nothing of a flow that was not marked. -/
structure Heard (bucket : HeavyBucket) (deltas : List ElasticDelta) (flow : String) : Prop where
  named : bucket.Seats flow → ∃ delta ∈ deltas, delta.Names flow
  clear : Orderly flow deltas → bucket.Seats flow → bucket.eviction = false →
    (∀ delta ∈ deltas, ¬delta.Marks flow) ∧ (carriedIn deltas flow : ℤ) ≤ bucket.votePos
  vacant : bucket.votePos = 0 → bucket.eviction = false →
    (∀ delta ∈ deltas, ¬delta.Marks flow) → carriedIn deltas flow = 0

variable {bucket : HeavyBucket} {deltas : List ElasticDelta} {delta : ElasticDelta}
  {flow id : String}

theorem Heard.append (heard : Heard bucket deltas flow) (other : ¬delta.Names flow) :
    Heard bucket (deltas ++ [delta]) flow := by
  have others : ∀ late ∈ [delta], ¬late.Names flow := by
    intro late member
    rw [List.mem_singleton.mp member]
    exact other
  have nothing : carriedIn (deltas ++ [delta]) flow = carriedIn deltas flow := by
    rw [carriedIn_append, carriedIn_of_not_names others, Nat.add_zero]
  refine ⟨fun seats => ?_, fun orderly seats down => ?_, fun empty down unmarked => ?_⟩
  · obtain ⟨early, member, names⟩ := heard.named seats
    exact ⟨early, List.mem_append_left _ member, names⟩
  · obtain ⟨unmarked, votes⟩ := heard.clear (List.pairwise_append.mp orderly).1 seats down
    refine ⟨List.forall_mem_append.mpr ⟨unmarked, fun late member marks => ?_⟩, nothing ▸ votes⟩
    exact others late member marks.names
  · rw [nothing]
    exact heard.vacant empty down fun early member => unmarked early (List.mem_append_left _ member)

theorem heard_of_absent (taken : bucket.votePos ≠ 0) (absent : bucket.flowId ≠ flow) :
    Heard bucket deltas flow :=
  ⟨fun seats => absurd seats.2 absent, fun _ seats => absurd seats.2 absent,
    fun empty => absurd empty taken⟩

theorem heard_of_flagged (flagged : bucket.eviction = true)
    (named : ∃ delta ∈ deltas, delta.Names flow) : Heard bucket deltas flow :=
  ⟨fun _ => named, fun _ _ down => absurd (flagged.symm.trans down) (by decide),
    fun _ down => absurd (flagged.symm.trans down) (by decide)⟩

theorem unmarked_of_orderly {value : ℕ}
    (orderly : Orderly flow (deltas ++ [.heavy flow value false])) :
    ∀ delta ∈ deltas ++ [ElasticDelta.heavy flow value false], ¬delta.Marks flow := by
  refine List.forall_mem_append.mpr ⟨fun early member marks => ?_, fun late member marks => ?_⟩
  · have late := (List.pairwise_append.mp orderly).2.2 early member _ List.mem_cons_self marks rfl
    exact Bool.false_ne_true late.2
  · rw [List.mem_singleton.mp member] at marks
    exact Bool.false_ne_true marks.2

theorem carriedIn_heavy (deltas : List ElasticDelta) (flow : String) (value : ℕ)
    (eviction : Bool) : carriedIn (deltas ++ [.heavy flow value eviction]) flow =
      carriedIn deltas flow + value := by
  rw [carriedIn_append]
  simp [carriedIn, ElasticDelta.carried]

theorem Heard.occupy (heard : Heard bucket deltas flow) (vacant : bucket.votePos = 0) {value : ℕ}
    (positive : 0 < value) :
    Heard (bucket.occupyMany flow value) (deltas ++ [.heavy flow value false]) flow := by
  refine ⟨fun _ => ⟨_, List.mem_append_right deltas List.mem_cons_self, rfl⟩,
    fun orderly _ down => ?_, fun empty => absurd empty (Int.natCast_ne_zero.mpr positive.ne')⟩
  have unmarked := unmarked_of_orderly orderly
  have before := heard.vacant vacant down fun early member =>
    unmarked early (List.mem_append_left _ member)
  refine ⟨unmarked, ?_⟩
  rw [carriedIn_heavy, before, Nat.zero_add]
  exact le_rfl

theorem Heard.vote (heard : Heard bucket deltas flow) (seats : bucket.Seats flow) {value : ℕ}
    (nonneg : 0 ≤ bucket.votePos) (positive : 0 < value) :
    Heard { bucket with votePos := bucket.votePos + value }
      (deltas ++ [.heavy flow value false]) flow := by
  refine ⟨fun _ => ⟨_, List.mem_append_right deltas List.mem_cons_self, rfl⟩,
    fun orderly _ down => ?_, fun empty => ?_⟩
  · refine ⟨unmarked_of_orderly orderly, ?_⟩
    have before := (heard.clear (List.pairwise_append.mp orderly).1 seats down).2
    rw [carriedIn_heavy, Nat.cast_add]
    exact add_le_add_left before _
  · have more : bucket.votePos + (value : ℤ) = 0 := empty
    omega

/-- The bucket that votes arrived at, before it is flagged. -/
theorem Heard.insert (heard : Heard bucket deltas flow) (id : String) {value : ℕ}
    (positive : 0 < value) (nonneg : 0 ≤ bucket.votePos) {after : HeavyBucket}
    (cases : (bucket.votePos = 0 ∧ after = bucket.occupyMany id value) ∨
      (bucket.Seats id ∧ after = { bucket with votePos := bucket.votePos + value }) ∨
      (bucket.votePos ≠ 0 ∧ bucket.flowId ≠ id ∧
        after = { bucket with voteNeg := bucket.voteNeg + value }) ∨
      (bucket.votePos ≠ 0 ∧ bucket.flowId ≠ id ∧ after = bucket.evictMany id value))
    (eviction : Bool) :
    Heard (if eviction then flagIf after id else after)
      (deltas ++ [.heavy id value eviction]) flow := by
  have arrived : (value : ℤ) ≠ 0 := Int.natCast_ne_zero.mpr positive.ne'
  have gained : bucket.votePos + (value : ℤ) ≠ 0 := by omega
  have kept : after.Seats id ∨ after.flowId ≠ id ∧ after.votePos ≠ 0 := by
    rcases cases with ⟨-, rfl⟩ | ⟨seats, rfl⟩ | ⟨taken, apart, rfl⟩ | ⟨-, -, rfl⟩
    · exact Or.inl ⟨arrived, rfl⟩
    · exact Or.inl ⟨gained, seats.2⟩
    · exact Or.inr ⟨apart, taken⟩
    · exact Or.inl ⟨arrived, rfl⟩
  have unflagged : after.flowId ≠ id → (if eviction then flagIf after id else after) = after :=
    fun apart => by rw [flagIf_of_not_seats fun seats => apart seats.2, ite_self]
  by_cases own : id = flow
  · subst own
    have named : ∃ delta ∈ deltas ++ [.heavy id value eviction], ElasticDelta.Names id delta :=
      ⟨_, List.mem_append_right deltas List.mem_cons_self, rfl⟩
    rcases kept with seats | ⟨apart, taken⟩
    · cases eviction with
      | true =>
        rw [if_pos rfl, flagIf_of_seats seats]
        exact heard_of_flagged rfl named
      | false =>
        rw [if_neg Bool.false_ne_true]
        rcases cases with ⟨vacant, rfl⟩ | ⟨before, rfl⟩ | ⟨-, different, rfl⟩ | ⟨-, -, rfl⟩
        · exact heard.occupy vacant positive
        · exact heard.vote before nonneg positive
        · exact absurd seats.2 different
        · exact heard_of_flagged rfl named
    · rw [unflagged apart]
      exact heard_of_absent taken apart
  · have other : ¬(ElasticDelta.heavy id value eviction).Names flow := own
    have taken : after.flowId = id → after.votePos ≠ 0 →
        Heard (if eviction then flagIf after id else after)
          (deltas ++ [.heavy id value eviction]) flow := by
      intro resident votes
      have result : (if eviction then flagIf after id else after).votePos = after.votePos ∧
          (if eviction then flagIf after id else after).flowId = after.flowId := by
        unfold flagIf
        split
        · split <;> exact ⟨rfl, rfl⟩
        · exact ⟨rfl, rfl⟩
      refine heard_of_absent (result.1 ▸ votes) ?_
      rw [result.2, resident]
      exact own
    rcases cases with ⟨-, rfl⟩ | ⟨seats, rfl⟩ | ⟨-, apart, rfl⟩ | ⟨-, -, rfl⟩
    · exact taken rfl arrived
    · exact taken seats.2 gained
    · have before := heard.append other
      rw [unflagged apart]
      exact ⟨before.named, before.clear, before.vacant⟩
    · exact taken rfl arrived

/-! ### The account of the parent -/

/-- The account of a parent that has received deltas. -/
structure ParentAccount (xxh : XxHash3) (rows cols : ℕ) (deltas : List ElasticDelta)
    (sketch : Elastic) : Prop where
  grounded : Grounded sketch rows cols
  weighed : ∀ flow, ∀ row < rows,
    (carriedIn deltas flow : ℤ) + OctoSketch.queuedAt (cellDeltas deltas)
        (row, lower32Col (hash64Seeded xxh row (.str flow)) cols) ≤
      weight (defaultXxHasher xxh) sketch flow row
  heard : ∀ flow,
    Heard (bucketAt sketch (bucketIndex (defaultXxHasher xxh) sketch flow)) deltas flow

theorem insertMany_bktlen (sketch : Elastic) (id : String) (count : ℤ) :
    (insertMany hasher sketch id count).bktlen = sketch.bktlen := by
  simp only [insertMany]
  split
  · rfl
  · split
    · rfl
    · split
      · rfl
      · split
        · rfl
        · split <;> rfl

variable {xxh : XxHash3}

theorem bucketIndex_insertMany (sketch : Elastic) (id : String) (count : ℤ) (flow : String) :
    bucketIndex hasher (insertMany hasher sketch id count) flow = bucketIndex hasher sketch flow := by
  unfold bucketIndex
  rw [insertMany_bktlen]

theorem bucketIndex_flagIfResident (sketch : Elastic) (idx : ℕ) (id flow : String) :
    bucketIndex hasher (flagIfResident sketch idx id) flow = bucketIndex hasher sketch flow := by
  unfold bucketIndex
  rw [flagIfResident_bktlen]

theorem cellDeltas_heavy (deltas : List ElasticDelta) (id : String) (value : ℕ)
    (eviction : Bool) : cellDeltas (deltas ++ [.heavy id value eviction]) = cellDeltas deltas := by
  rw [cellDeltas_append]
  exact List.append_nil _

theorem ParentAccount.mergeHeavy (account : ParentAccount xxh rows cols deltas sketch)
    (someCol : 0 < cols) (id : String) {value : ℕ} (positive : 0 < value) (eviction : Bool) :
    ParentAccount xxh rows cols (deltas ++ [.heavy id value eviction])
      (mergeHeavy (defaultXxHasher xxh) sketch id value eviction) := by
  have grounded := account.grounded
  have positive' : (0 : ℤ) < value := Int.natCast_pos.mpr positive
  have inserted : Grounded (insertMany (defaultXxHasher xxh) sketch id value) rows cols :=
    grounded.insertMany id value
  have result : Elastic.mergeHeavy (defaultXxHasher xxh) sketch id value eviction =
      if eviction then flagIfResident (insertMany (defaultXxHasher xxh) sketch id value)
        (bucketIndex (defaultXxHasher xxh) (insertMany (defaultXxHasher xxh) sketch id value) id) id
      else insertMany (defaultXxHasher xxh) sketch id value := by
    rw [Elastic.mergeHeavy, if_neg (not_le.mpr positive'), bucketIndex_insertMany]
  rw [result]
  refine ⟨?_, fun flow row inside => ?_, fun flow => ?_⟩
  · split
    · exact inserted.flagIfResident _ id
    · exact inserted
  · have before := account.weighed flow row inside
    have grown : weight (defaultXxHasher xxh) sketch flow row + arrival id value flow ≤ _ :=
      weight_insertMany grounded someCol id positive' flow inside
    have brought : (carriedIn (deltas ++ [.heavy id value eviction]) flow : ℤ) =
        carriedIn deltas flow + arrival id value flow := by
      rw [carriedIn_append, Nat.cast_add]
      simp [carriedIn, ElasticDelta.carried, arrival]
    have unchanged : weight (defaultXxHasher xxh) (if eviction then flagIfResident
        (insertMany (defaultXxHasher xxh) sketch id value) (bucketIndex (defaultXxHasher xxh)
          (insertMany (defaultXxHasher xxh) sketch id value) id) id
        else insertMany (defaultXxHasher xxh) sketch id value) flow row =
          weight (defaultXxHasher xxh) (insertMany (defaultXxHasher xxh) sketch id value) flow
            row := by
      split
      · exact weight_flagIfResident inserted _ id flow row
      · rfl
    rw [unchanged, brought, cellDeltas_heavy]
    linarith only [before, grown]
  · have heard := account.heard flow
    obtain ⟨after, light, insertedEq, cases⟩ := insertMany_cases grounded.settled id positive'
    have read : ∀ idx, bucketAt (insertMany (defaultXxHasher xxh) sketch id value) idx =
        if bucketIndex (defaultXxHasher xxh) sketch id = idx then after
        else bucketAt sketch idx := by
      rw [insertedEq]
      exact bucketAt_setBucket (grounded.bucketIndex_lt _ id) after
    have sameIndex : bucketIndex (defaultXxHasher xxh) (if eviction then flagIfResident
        (insertMany (defaultXxHasher xxh) sketch id value) (bucketIndex (defaultXxHasher xxh)
          (insertMany (defaultXxHasher xxh) sketch id value) id) id
        else insertMany (defaultXxHasher xxh) sketch id value) flow =
          bucketIndex (defaultXxHasher xxh) sketch flow := by
      split
      · rw [bucketIndex_flagIfResident, bucketIndex_insertMany]
      · exact bucketIndex_insertMany _ _ _ _
    have readAfter : bucketAt (if eviction then flagIfResident
        (insertMany (defaultXxHasher xxh) sketch id value) (bucketIndex (defaultXxHasher xxh)
          (insertMany (defaultXxHasher xxh) sketch id value) id) id
        else insertMany (defaultXxHasher xxh) sketch id value)
          (bucketIndex (defaultXxHasher xxh) sketch flow) =
        if bucketIndex (defaultXxHasher xxh) sketch id =
          bucketIndex (defaultXxHasher xxh) sketch flow then
          if eviction then flagIf after id else after
        else bucketAt sketch (bucketIndex (defaultXxHasher xxh) sketch flow) := by
      cases eviction with
      | true =>
        rw [if_pos rfl, if_pos rfl, bucketAt_flagIfResident (inserted.bucketIndex_lt _ id),
          bucketIndex_insertMany, read, read, if_pos rfl]
        split <;> rfl
      | false =>
        rw [if_neg Bool.false_ne_true, if_neg Bool.false_ne_true, read]
    rw [sameIndex, readAfter]
    by_cases same : bucketIndex (defaultXxHasher xxh) sketch id =
        bucketIndex (defaultXxHasher xxh) sketch flow
    · rw [if_pos same]
      rw [← same] at heard
      refine heard.insert id positive (grounded.votes _) ?_ eviction
      rcases cases with ⟨vacant, rfl, -⟩ | ⟨seats, rfl, -⟩ | ⟨taken, apart, rfl, -⟩ |
        ⟨taken, apart, rfl, -⟩
      · exact Or.inl ⟨vacant, rfl⟩
      · exact Or.inr (Or.inl ⟨seats, rfl⟩)
      · exact Or.inr (Or.inr (Or.inl ⟨taken, apart, rfl⟩))
      · exact Or.inr (Or.inr (Or.inr ⟨taken, apart, rfl⟩))
    · rw [if_neg same]
      exact heard.append fun named => same (congrArg _ named)

theorem Grounded.insertLight (grounded : Grounded sketch rows cols) (id : String) (votes : ℤ) :
    Grounded (insertLight hasher sketch id votes) rows cols :=
  ⟨grounded.sized, grounded.someBucket, grounded.settled, grounded.lightRows, grounded.lightCols,
    grounded.votes⟩

variable (account : ParentAccount xxh rows cols deltas sketch) (someCol : 0 < cols)

include account someCol

theorem ParentAccount.absorbEvicted (id : String) (votes : ℕ) :
    ParentAccount xxh rows cols (deltas ++ [.evicted id votes])
      (absorbEvicted (defaultXxHasher xxh) sketch id votes) := by
  have grounded := account.grounded
  have spilledOf : ∃ spilled, (if 0 < (votes : ℤ) then
        insertLight (defaultXxHasher xxh) sketch id votes else sketch) = spilled ∧
      Grounded spilled rows cols ∧ spilled.heavy = sketch.heavy ∧ spilled.bktlen = sketch.bktlen ∧
      ∀ flow, ∀ row < rows, weight (defaultXxHasher xxh) sketch flow row + arrival id votes flow ≤
        weight (defaultXxHasher xxh) spilled flow row := by
    refine ⟨_, rfl, ?_⟩
    by_cases some : 0 < (votes : ℤ)
    · rw [if_pos some]
      refine ⟨grounded.insertLight id votes, rfl, rfl, fun flow row inside => ?_⟩
      have counted := lightCounter_insertMany (defaultXxHasher xxh)
        (grounded.lightCols.symm ▸ someCol) id some.le flow (grounded.lightRows.symm ▸ inside)
      unfold weight
      rw [add_assoc]
      exact add_le_add_right counted _
    · rw [if_neg some]
      have none : (votes : ℤ) = 0 := le_antisymm (not_lt.mp some) (Int.natCast_nonneg votes)
      refine ⟨grounded, rfl, rfl, fun flow row _ => ?_⟩
      rw [none, arrival, ite_self, add_zero]
  obtain ⟨spilled, spilledEq, spilledGrounded, sameHeavy, sameCount, grown⟩ := spilledOf
  have sameIndex : ∀ flow, bucketIndex (defaultXxHasher xxh) spilled flow =
      bucketIndex (defaultXxHasher xxh) sketch flow := by
    intro flow
    unfold bucketIndex
    rw [sameCount]
  have sameBucket : ∀ idx, bucketAt spilled idx = bucketAt sketch idx := by
    intro idx
    unfold bucketAt
    rw [sameHeavy]
  have result : Elastic.absorbEvicted (defaultXxHasher xxh) sketch id votes =
      flagIfResident spilled (bucketIndex (defaultXxHasher xxh) spilled id) id := by
    rw [Elastic.absorbEvicted, spilledEq, sameIndex]
  rw [result]
  refine ⟨spilledGrounded.flagIfResident _ id, fun flow row inside => ?_, fun flow => ?_⟩
  · have before := account.weighed flow row inside
    have more := grown flow row inside
    have brought : (carriedIn (deltas ++ [.evicted id votes]) flow : ℤ) =
        carriedIn deltas flow + arrival id votes flow := by
      rw [carriedIn_append, Nat.cast_add]
      simp [carriedIn, ElasticDelta.carried, arrival]
    have noCell : cellDeltas (deltas ++ [.evicted id votes]) = cellDeltas deltas := by
      rw [cellDeltas_append]
      exact List.append_nil _
    rw [weight_flagIfResident spilledGrounded, brought, noCell]
    linarith only [before, more]
  · have heard := account.heard flow
    rw [bucketIndex_flagIfResident, bucketAt_flagIfResident (spilledGrounded.bucketIndex_lt _ id),
      sameIndex, sameIndex, sameBucket, sameBucket]
    by_cases own : id = flow
    · subst own
      have named : ∃ delta ∈ deltas ++ [ElasticDelta.evicted id votes], delta.Names id :=
        ⟨_, List.mem_append_right deltas List.mem_cons_self, rfl⟩
      have marked : ∃ delta ∈ deltas ++ [ElasticDelta.evicted id votes], delta.Marks id :=
        ⟨_, List.mem_append_right deltas List.mem_cons_self, rfl⟩
      rw [if_pos rfl]
      by_cases seats : (bucketAt sketch (bucketIndex (defaultXxHasher xxh) sketch id)).Seats id
      · rw [flagIf_of_seats seats]
        exact heard_of_flagged rfl named
      · rw [flagIf_of_not_seats seats]
        obtain ⟨mark, member, marks⟩ := marked
        exact ⟨fun seated => absurd seated seats, fun _ seated => absurd seated seats,
          fun _ _ unmarked => absurd marks (unmarked mark member)⟩
    · have other : ¬(ElasticDelta.evicted id votes).Names flow := own
      have after := heard.append other
      by_cases same : bucketIndex (defaultXxHasher xxh) sketch id =
          bucketIndex (defaultXxHasher xxh) sketch flow
      · rw [if_pos same, same]
        by_cases seats : (bucketAt sketch
            (bucketIndex (defaultXxHasher xxh) sketch flow)).Seats id
        · rw [flagIf_of_seats seats]
          exact heard_of_absent seats.1 fun resident => own (seats.2.symm.trans resident)
        · rw [flagIf_of_not_seats seats]
          exact after
      · rw [if_neg same]
        exact after

theorem ParentAccount.light {cell : CellDelta} (colInside : cell.col < cols) :
    ParentAccount xxh rows cols (deltas ++ [.light cell])
      { sketch with light := sketch.light.applyDelta cell.row cell.col cell.value } := by
  have grounded := account.grounded
  refine ⟨⟨grounded.sized, grounded.someBucket, grounded.settled, grounded.lightRows,
    grounded.lightCols, grounded.votes⟩, fun flow row inside => ?_, fun flow => ?_⟩
  · have before := account.weighed flow row inside
    have unnamed : carriedIn (deltas ++ [.light cell]) flow = carriedIn deltas flow := by
      rw [carriedIn_append]
      rfl
    have hashes : CountMin.colFor (defaultXxHasher xxh) sketch.light (.string flow) row =
        lower32Col (hash64Seeded xxh row (.str flow)) cols := by
      rw [CountMin.colFor, grounded.lightCols]
      rfl
    have counter : lightCounter (defaultXxHasher xxh)
        (sketch.light.applyDelta cell.row cell.col cell.value) flow row =
          lightCounter (defaultXxHasher xxh) sketch.light flow row +
            if (cell.row, cell.col) =
              (row, lower32Col (hash64Seeded xxh row (.str flow)) cols) then cell.value else 0 := by
      show (sketch.light.counts.updateOneCounter cell.row cell.col fun counter =>
        counter + cell.value).queryOneCounter row (CountMin.colFor (defaultXxHasher xxh)
          sketch.light (.string flow) row) = _
      rw [Vector2D.queryOneCounter_updateOneCounter _ _ (grounded.lightRows.symm ▸ inside) ?_
        (grounded.lightCols.symm ▸ colInside), hashes, lightCounter, hashes]
      · split
        · rfl
        · exact (add_zero _).symm
      · rw [hashes, grounded.lightCols]
        exact lower32Col_lt _ _ someCol
    have brought : OctoSketch.queuedAt (cellDeltas (deltas ++ [.light cell]))
        (row, lower32Col (hash64Seeded xxh row (.str flow)) cols) =
          OctoSketch.queuedAt (cellDeltas deltas)
            (row, lower32Col (hash64Seeded xxh row (.str flow)) cols) +
            if (cell.row, cell.col) =
              (row, lower32Col (hash64Seeded xxh row (.str flow)) cols) then cell.value else 0 := by
      rw [cellDeltas_append, OctoSketch.queuedAt, List.map_append, Promotion.promotedAt_append]
      show _ + ((if (cell.row, cell.col) = _ then cell.value else 0) + 0) = _
      rw [add_zero]
      rfl
    have weighed : weight (defaultXxHasher xxh) { sketch with
        light := sketch.light.applyDelta cell.row cell.col cell.value } flow row =
          seatedVotes (bucketAt sketch (bucketIndex (defaultXxHasher xxh) sketch flow)) flow +
            lightCounter (defaultXxHasher xxh)
              (sketch.light.applyDelta cell.row cell.col cell.value) flow row := rfl
    rw [weighed, unnamed, brought, counter]
    unfold weight at before
    linarith only [before]
  · exact (account.heard flow).append fun named => named

theorem ParentAccount.applyDelta (sound : delta.Sound rows cols) :
    ParentAccount xxh rows cols (deltas ++ [delta]) (applyDelta xxh sketch delta) := by
  cases delta with
  | heavy key value eviction => exact account.mergeHeavy someCol key sound eviction
  | evicted key votes => exact account.absorbEvicted someCol key votes
  | light cell => exact account.light someCol sound.2

end Elastic

end AsapSketchlib
