/-
This file proves that merging, expanding and compressing Elastic sketches keep what a sketch
owes its flows. A merge moves the losers of each bucket to the light layer and flags what it
keeps; an expansion copies every bucket; a compression spills the residents that do not win
their group, and a group without a resident keeps a flag that was up.
-/

import AsapSketchlib.ElasticCoverage

namespace AsapSketchlib

namespace Elastic

variable {hasher : SketchHasher} {sketch other : Elastic} {total otherTotal : String → ℤ}

/-! ### Spilling -/

/-- The light layer with each flow's votes added. -/
def spillLight (hasher : SketchHasher) (light : CountMin) (flows : List (String × ℤ)) : CountMin :=
  flows.foldl (fun light flow => CountMin.insertMany hasher light (.string flow.1) flow.2) light

theorem spill_eq (sketch : Elastic) (flows : List (String × ℤ)) :
    spill hasher sketch flows = { sketch with light := spillLight hasher sketch.light flows } := by
  induction flows generalizing sketch with
  | nil => rfl
  | cons flow rest hypothesis => exact hypothesis _

section

variable {light : CountMin} (accruing : light.Accruing) {flows : List (String × ℤ)}
  (votes : ∀ flow ∈ flows, 0 ≤ flow.2)

include accruing votes

theorem accruing_spillLight : (spillLight hasher light flows).Accruing := by
  induction flows generalizing light with
  | nil => exact accruing
  | cons flow rest hypothesis =>
    exact hypothesis (accruing.insertMany _ (votes flow List.mem_cons_self))
      fun other member => votes other (List.mem_cons_of_mem flow member)

theorem estimate_le_spillLight (value : DataInput) :
    CountMin.estimate hasher light value ≤
      CountMin.estimate hasher (spillLight hasher light flows) value := by
  induction flows generalizing light with
  | nil => exact le_rfl
  | cons flow rest hypothesis =>
    have nonneg : 0 ≤ flow.2 := votes flow List.mem_cons_self
    exact (accruing.estimate_le_insertMany (.string flow.1) value nonneg).trans
      (hypothesis (accruing.insertMany _ nonneg)
        fun other member => votes other (List.mem_cons_of_mem flow member))

theorem estimate_add_le_spillLight {id : String} {lost : ℤ} (member : (id, lost) ∈ flows) :
    CountMin.estimate hasher light (.string id) + lost ≤
      CountMin.estimate hasher (spillLight hasher light flows) (.string id) := by
  induction flows generalizing light with
  | nil => exact absurd member List.not_mem_nil
  | cons first rest hypothesis =>
    have nonneg : 0 ≤ first.2 := votes first List.mem_cons_self
    have restVotes : ∀ other ∈ rest, 0 ≤ other.2 :=
      fun other inRest => votes other (List.mem_cons_of_mem first inRest)
    have inserted := (accruing.insertMany (.string first.1) nonneg : (CountMin.insertMany hasher light _ _).Accruing)
    rcases List.mem_cons.mp member with rfl | inRest
    · exact (accruing.estimate_add_le_insertMany _ nonneg).trans
        (estimate_le_spillLight inserted restVotes _)
    · exact (add_le_add_left (accruing.estimate_le_insertMany _ _ nonneg) lost).trans
        (hypothesis inserted restVotes inRest)

end

/-! ### Merging -/

theorem not_seats_of_contender_none {idx : ℕ} (absent : contender hasher sketch idx = none)
    {id : String} (here : bucketIndex hasher sketch id = idx) :
    ¬(bucketAt sketch idx).Seats id := by
  intro seats
  by_cases stale : staleAt hasher sketch idx = true
  · exact not_seats_of_staleAt stale here seats
  · simp [contender, HeavyBucket.isVacant, seats.1, stale] at absent

section

variable (covers : Covers hasher sketch total)

include covers

theorem Covers.contender_eq_some {idx : ℕ} (inside : idx < sketch.bktlen) {bucket : HeavyBucket}
    (found : contender hasher sketch idx = some bucket) :
    bucket = bucketAt sketch idx ∧ bucket.votePos ≠ 0 ∧
      bucketIndex hasher sketch bucket.flowId = idx := by
  simp only [contender] at found
  split at found
  case isFalse => exact absurd found (by simp)
  rename_i live
  simp only [HeavyBucket.isVacant, Bool.and_eq_true, Bool.not_eq_true', decide_eq_false_iff_not]
    at live
  obtain rfl := Option.some.inj found
  exact ⟨rfl, live.1, covers.placed_of_not_staleAt inside (by simp [live.2]) live.1⟩

theorem Covers.side_owed {id : String} {bucket : HeavyBucket}
    (found : contender hasher sketch (bucketIndex hasher sketch id) = some bucket) :
    0 < bucket.votePos ∧
      (bucket.flowId = id → total id ≤ bucket.votePos + lightEstimate hasher sketch id) ∧
      (bucket.flowId ≠ id → total id ≤ lightEstimate hasher sketch id) := by
  obtain ⟨rfl, seated, -⟩ := covers.contender_eq_some (covers.bucketIndex_lt id) found
  refine ⟨lt_of_le_of_ne (covers.votes _) seated.symm, fun resident =>
      (covers.owed id).le_votes_add ⟨seated, resident⟩ (covers.estimate_nonneg id),
    fun apart => (covers.owed id).le_estimate fun seats => apart seats.2⟩

theorem Covers.absent_owed {id : String}
    (absent : contender hasher sketch (bucketIndex hasher sketch id) = none) :
    total id ≤ lightEstimate hasher sketch id :=
  (covers.owed id).le_estimate (not_seats_of_contender_none absent rfl)

end

theorem owed_mergedBucket {kept : HeavyBucket} {estimate sum : ℤ} {id : String}
    (seated : 0 < kept.votePos) (resident : kept.flowId = id → sum ≤ kept.votePos + estimate)
    (absent : kept.flowId ≠ id → sum ≤ estimate) :
    (mergedBucket (some kept)).Owed estimate sum id := by
  by_cases same : kept.flowId = id
  · exact HeavyBucket.owed_of_flagged ⟨seated.ne', same⟩ rfl (resident same)
  · exact HeavyBucket.owed_of_absent (fun seats => same seats.2) (absent same) (Or.inr rfl)

/-- What a contest leaves owes a flow of its bucket what both sides owed it. -/
theorem Covers.contest_owed (covers : Covers hasher sketch total)
    (otherCovers : Covers hasher other otherTotal) {id : String}
    (sameIndex : bucketIndex hasher other id = bucketIndex hasher sketch id) {estimate : ℤ}
    (grown : lightEstimate hasher sketch id + lightEstimate hasher other id ≤ estimate)
    (spilled : ∀ votes,
      (contest hasher sketch other (bucketIndex hasher sketch id)).2 = some (id, votes) →
        lightEstimate hasher sketch id + lightEstimate hasher other id + votes ≤ estimate) :
    (mergedBucket (contest hasher sketch other (bucketIndex hasher sketch id)).1).Owed estimate
      (total id + otherTotal id) id := by
  cases mine : contender hasher sketch (bucketIndex hasher sketch id) with
  | none =>
    have below := covers.absent_owed mine
    cases theirs : contender hasher other (bucketIndex hasher sketch id) with
    | none =>
      have otherBelow := otherCovers.absent_owed (sameIndex ▸ theirs)
      simp only [contest, mine, theirs]
      exact HeavyBucket.owed_of_absent (fun seats => seats.1 rfl)
        ((add_le_add below otherBelow).trans grown) (Or.inr rfl)
    | some kept =>
      obtain ⟨seated, resident, apart⟩ := otherCovers.side_owed (sameIndex ▸ theirs)
      simp only [contest, mine, theirs]
      refine owed_mergedBucket seated (fun same => ?_) fun different => ?_
      · linarith [resident same]
      · linarith [apart different]
  | some bucket =>
    obtain ⟨seated, resident, apart⟩ := covers.side_owed mine
    cases theirs : contender hasher other (bucketIndex hasher sketch id) with
    | none =>
      have otherBelow := otherCovers.absent_owed (sameIndex ▸ theirs)
      simp only [contest, mine, theirs]
      refine owed_mergedBucket seated (fun same => ?_) fun different => ?_
      · linarith [resident same]
      · linarith [apart different]
    | some peer =>
      obtain ⟨otherSeated, otherResident, otherApart⟩ :=
        otherCovers.side_owed (sameIndex ▸ theirs)
      simp only [contest, mine, theirs] at spilled ⊢
      by_cases sameFlow : bucket.flowId = peer.flowId
      · simp only [if_pos sameFlow]
        refine owed_mergedBucket (add_pos seated otherSeated) (fun same => ?_) fun different => ?_
        · show _ ≤ bucket.votePos + peer.votePos + estimate
          linarith [resident same, otherResident (sameFlow.symm.trans same)]
        · linarith [apart different, otherApart fun same => different (sameFlow.trans same)]
      · simp only [if_neg sameFlow] at spilled ⊢
        split at spilled
        · rename_i larger
          rw [if_pos larger]
          refine owed_mergedBucket seated (fun same => ?_) fun different => ?_
          · linarith [resident same, otherApart fun loser => sameFlow (same.trans loser.symm)]
          · by_cases loses : peer.flowId = id
            · linarith [apart different, otherResident loses, spilled peer.votePos (by rw [loses])]
            · linarith [apart different, otherApart loses]
        · rename_i smaller
          rw [if_neg smaller]
          refine owed_mergedBucket otherSeated (fun same => ?_) fun different => ?_
          · linarith [otherResident same, apart fun loser => sameFlow (loser.trans same.symm)]
          · by_cases loses : bucket.flowId = id
            · linarith [otherApart different, resident loses,
                spilled bucket.votePos (by rw [loses])]
            · linarith [otherApart different, apart loses]

/-- What a contest keeps hashes to its bucket, and no loser has negative votes. -/
theorem Covers.contest_placed (covers : Covers hasher sketch total)
    (otherCovers : Covers hasher other otherTotal) (sameLength : sketch.bktlen = other.bktlen)
    {idx : ℕ} (inside : idx < sketch.bktlen) :
    (∀ kept, (contest hasher sketch other idx).1 = some kept →
      0 ≤ kept.votePos ∧ bucketIndex hasher sketch kept.flowId = idx) ∧
    ∀ flow, (contest hasher sketch other idx).2 = some flow → 0 ≤ flow.2 := by
  have mineOk : ∀ bucket, contender hasher sketch idx = some bucket →
      0 ≤ bucket.votePos ∧ bucketIndex hasher sketch bucket.flowId = idx := by
    intro bucket found
    obtain ⟨rfl, -, placed⟩ := covers.contender_eq_some inside found
    exact ⟨covers.votes idx, placed⟩
  have theirsOk : ∀ bucket, contender hasher other idx = some bucket →
      0 ≤ bucket.votePos ∧ bucketIndex hasher sketch bucket.flowId = idx := by
    intro bucket found
    obtain ⟨rfl, -, placed⟩ := otherCovers.contender_eq_some (sameLength ▸ inside) found
    refine ⟨otherCovers.votes idx, ?_⟩
    unfold bucketIndex at placed ⊢
    rw [sameLength]
    exact placed
  cases mine : contender hasher sketch idx with
  | none =>
    cases theirs : contender hasher other idx with
    | none =>
      simp only [contest, mine, theirs]
      exact ⟨fun _ found => absurd found (by simp), fun _ found => absurd found (by simp)⟩
    | some peer =>
      simp only [contest, mine, theirs]
      refine ⟨fun kept found => ?_, fun _ found => absurd found (by simp)⟩
      rw [← Option.some.inj found]
      exact theirsOk peer theirs
  | some bucket =>
    cases theirs : contender hasher other idx with
    | none =>
      simp only [contest, mine, theirs]
      refine ⟨fun kept found => ?_, fun _ found => absurd found (by simp)⟩
      rw [← Option.some.inj found]
      exact mineOk bucket mine
    | some peer =>
      obtain ⟨votes, placed⟩ := mineOk bucket mine
      obtain ⟨otherVotes, otherPlaced⟩ := theirsOk peer theirs
      simp only [contest, mine, theirs]
      split
      · refine ⟨fun kept found => ?_, fun _ found => absurd found (by simp)⟩
        rw [← Option.some.inj found]
        exact ⟨add_nonneg votes otherVotes, placed⟩
      · split
        · refine ⟨fun kept found => ?_, fun flow found => ?_⟩
          · rw [← Option.some.inj found]
            exact ⟨votes, placed⟩
          · rw [← Option.some.inj found]
            exact otherVotes
        · refine ⟨fun kept found => ?_, fun flow found => ?_⟩
          · rw [← Option.some.inj found]
            exact ⟨otherVotes, otherPlaced⟩
          · rw [← Option.some.inj found]
            exact votes

theorem bucketAt_contestHeavyAgainst {idx : ℕ} (inside : idx < sketch.heavy.length) :
    bucketAt (contestHeavyAgainst hasher sketch other).1 idx =
      mergedBucket (contest hasher sketch other idx).1 := by
  simp only [bucketAt, contestHeavyAgainst, List.getElem?_map, List.getElem?_range inside,
    Option.map_some, Option.getD_some]

/-- A merge keeps what a sketch has to, and the totals add up. -/
theorem Covers.merge (covers : Covers hasher sketch total)
    (otherCovers : Covers hasher other otherTotal) {merged : Elastic}
    (accepted : merge hasher sketch other = some merged) :
    Covers hasher merged fun id => total id + otherTotal id := by
  unfold Elastic.merge at accepted
  split at accepted
  case isFalse => exact absurd accepted (by simp)
  rename_i sameLength
  obtain ⟨light, lightAccepted, rfl⟩ := Option.map_eq_some_iff.mp accepted
  change sketch.light.merge other.light = some light at lightAccepted
  have accruing := covers.accruing.merge otherCovers.accruing lightAccepted
  have votes : ∀ flow ∈ (contestHeavyAgainst hasher sketch other).2, 0 ≤ flow.2 := by
    intro flow member
    obtain ⟨outcome, inContests, lost⟩ := List.mem_filterMap.mp member
    obtain ⟨idx, inRange, rfl⟩ := List.mem_map.mp inContests
    exact (covers.contest_placed otherCovers sameLength
      (covers.sized ▸ List.mem_range.mp inRange)).2 flow lost
  rw [spill_eq]
  have readAt : ∀ idx < sketch.bktlen,
      bucketAt (contestHeavyAgainst hasher sketch other).1 idx =
        mergedBucket (contest hasher sketch other idx).1 :=
    fun idx inside => bucketAt_contestHeavyAgainst (covers.sized.symm ▸ inside)
  have sized : (contestHeavyAgainst hasher sketch other).1.heavy.length = sketch.bktlen :=
    (List.length_map _).trans ((List.length_map _).trans (List.length_range.trans covers.sized))
  refine ⟨sized, covers.someBucket, accruing_spillLight accruing votes, fun idx => ?_,
    fun _ idx inside seated => ?_, fun id => ?_⟩
  · change 0 ≤ (bucketAt (contestHeavyAgainst hasher sketch other).1 idx).votePos
    by_cases inside : idx < sketch.bktlen
    · rw [readAt idx inside]
      cases kept : (contest hasher sketch other idx).1 with
      | none => exact le_rfl
      | some bucket =>
        exact ((covers.contest_placed otherCovers sameLength inside).1 bucket kept).1
    · rw [bucketAt_of_length_le (sized.trans_le (not_lt.mp inside))]
      exact le_rfl
  · change (bucketAt (contestHeavyAgainst hasher sketch other).1 idx).votePos ≠ 0 at seated
    change bucketIndex hasher sketch
      (bucketAt (contestHeavyAgainst hasher sketch other).1 idx).flowId = idx
    rw [readAt idx inside] at seated ⊢
    cases kept : (contest hasher sketch other idx).1 with
    | none => exact absurd (kept ▸ seated) (fun seated => seated rfl)
    | some bucket =>
      exact ((covers.contest_placed otherCovers sameLength inside).1 bucket kept).2
  · have sameIndex : bucketIndex hasher other id = bucketIndex hasher sketch id := by
      unfold bucketIndex
      rw [sameLength]
    have inside := covers.bucketIndex_lt id
    have summed : lightEstimate hasher sketch id + lightEstimate hasher other id ≤
        CountMin.estimate hasher light (.string id) :=
      covers.accruing.estimate_add_le_merge otherCovers.accruing lightAccepted _
    change (bucketAt (contestHeavyAgainst hasher sketch other).1
      (bucketIndex hasher sketch id)).Owed _ _ _
    rw [readAt _ inside]
    refine covers.contest_owed otherCovers sameIndex
      (summed.trans (estimate_le_spillLight accruing votes _)) fun lost found => ?_
    have inRange : bucketIndex hasher sketch id ∈ List.range sketch.heavy.length :=
      List.mem_range.mpr (covers.sized.symm ▸ inside)
    have member : (id, lost) ∈ (contestHeavyAgainst hasher sketch other).2 :=
      List.mem_filterMap.mpr ⟨_, List.mem_map.mpr ⟨_, inRange, rfl⟩, found⟩
    exact (add_le_add_left summed lost).trans (estimate_add_le_spillLight accruing votes member)

/-! ### Expanding -/

def expandedTable (sketch : Elastic) : Elastic where
  heavy := sketch.heavy ++ sketch.heavy
  light := sketch.light
  bktlen := sketch.bktlen * 2
  staleCopies := true

theorem expandHeavy_eq (sketch : Elastic) : expandHeavy sketch =
    if sketch.bktlen * 2 < 2 ^ 31 then some (expandedTable sketch) else none := rfl

theorem length_expandedTable (sized : sketch.heavy.length = sketch.bktlen) :
    (expandedTable sketch).heavy.length = sketch.bktlen * 2 := by
  rw [expandedTable, List.length_append, sized, Nat.mul_two]

theorem bucketAt_expandedTable (sized : sketch.heavy.length = sketch.bktlen) {idx : ℕ}
    (inside : idx < sketch.bktlen * 2) :
    bucketAt (expandedTable sketch) idx = bucketAt sketch (idx % sketch.bktlen) := by
  simp only [bucketAt, expandedTable]
  by_cases firstHalf : idx < sketch.bktlen
  · rw [List.getElem?_append_left (sized.symm ▸ firstHalf), Nat.mod_eq_of_lt firstHalf]
  · have secondHalf : sketch.bktlen ≤ idx := not_lt.mp firstHalf
    rw [List.getElem?_append_right (sized.symm ▸ secondHalf), sized, Nat.mod_eq_sub_mod secondHalf,
      Nat.mod_eq_of_lt (by omega)]

theorem bucketIndex_expandedTable (sketch : Elastic) (id : String) :
    bucketIndex hasher (expandedTable sketch) id % sketch.bktlen = bucketIndex hasher sketch id :=
  Nat.mod_mul_right_mod _ _ _

theorem Covers.expandHeavy (covers : Covers hasher sketch total) {expanded : Elastic}
    (accepted : expandHeavy sketch = some expanded) : Covers hasher expanded total := by
  rw [expandHeavy_eq] at accepted
  split at accepted
  case isFalse => exact absurd accepted (by simp)
  obtain rfl := Option.some.inj accepted
  have someBucket : 0 < sketch.bktlen * 2 := Nat.mul_pos covers.someBucket (by decide)
  refine ⟨length_expandedTable covers.sized, someBucket, covers.accruing, fun idx => ?_,
    fun settled => absurd settled (by simp [expandedTable]), fun id => ?_⟩
  · by_cases inside : idx < sketch.bktlen * 2
    · rw [bucketAt_expandedTable covers.sized inside]
      exact covers.votes _
    · rw [bucketAt_of_length_le ((length_expandedTable covers.sized).trans_le (not_lt.mp inside))]
      exact le_rfl
  · have inside : bucketIndex hasher (expandedTable sketch) id < sketch.bktlen * 2 :=
      Nat.mod_lt _ someBucket
    rw [bucketAt_expandedTable covers.sized inside, bucketIndex_expandedTable]
    exact covers.owed id

/-! ### Dropping stale copies -/

section

variable (sketch : Elastic)

theorem bucketAt_dropStaleCopies (idx : ℕ) :
    bucketAt (dropStaleCopies hasher sketch) idx =
      if staleAt hasher sketch idx = true then HeavyBucket.emptied else bucketAt sketch idx := by
  unfold dropStaleCopies
  by_cases copies : sketch.staleCopies = true
  · rw [if_pos copies]
    simp only [bucketAt, List.getElem?_mapIdx]
    by_cases inside : idx < sketch.heavy.length
    · rw [List.getElem?_eq_getElem inside]
      rfl
    · have outside := bucketAt_of_length_le (not_lt.mp inside)
      have vacant : ¬staleAt hasher sketch idx = true := fun stale =>
        ((staleAt_iff idx).mp stale).2.1 (by rw [outside]; rfl)
      rw [if_neg vacant, List.getElem?_eq_none (not_lt.mp inside)]
      rfl
  · have live : ¬staleAt hasher sketch idx = true := fun stale =>
      copies ((staleAt_iff idx).mp stale).1
    rw [if_neg copies, if_neg live]

@[simp] theorem dropStaleCopies_light : (dropStaleCopies hasher sketch).light = sketch.light := by
  unfold dropStaleCopies
  split <;> rfl

@[simp] theorem dropStaleCopies_bktlen :
    (dropStaleCopies hasher sketch).bktlen = sketch.bktlen := by
  unfold dropStaleCopies
  split <;> rfl

@[simp] theorem dropStaleCopies_staleCopies :
    (dropStaleCopies hasher sketch).staleCopies = false := by
  unfold dropStaleCopies
  split
  · rfl
  · rename_i settled
    exact Bool.eq_false_iff.mpr settled

@[simp] theorem length_dropStaleCopies :
    (dropStaleCopies hasher sketch).heavy.length = sketch.heavy.length := by
  unfold dropStaleCopies
  split
  · exact List.length_mapIdx
  · rfl

@[simp] theorem bucketIndex_dropStaleCopies (id : String) :
    bucketIndex hasher (dropStaleCopies hasher sketch) id = bucketIndex hasher sketch id := by
  unfold bucketIndex
  rw [dropStaleCopies_bktlen]

@[simp] theorem lightEstimate_dropStaleCopies (id : String) :
    lightEstimate hasher (dropStaleCopies hasher sketch) id = lightEstimate hasher sketch id := by
  unfold lightEstimate
  rw [dropStaleCopies_light]

end

theorem Covers.dropStaleCopies (covers : Covers hasher sketch total) :
    Covers hasher (dropStaleCopies hasher sketch) total := by
  refine ⟨?_, ?_, ?_, fun idx => ?_, fun _ idx inside seated => ?_, fun id => ?_⟩
  · rw [length_dropStaleCopies, dropStaleCopies_bktlen]
    exact covers.sized
  · rw [dropStaleCopies_bktlen]
    exact covers.someBucket
  · rw [dropStaleCopies_light]
    exact covers.accruing
  · rw [bucketAt_dropStaleCopies]
    split
    · exact le_rfl
    · exact covers.votes idx
  · rw [bucketAt_dropStaleCopies] at seated ⊢
    rw [dropStaleCopies_bktlen] at inside
    rw [bucketIndex_dropStaleCopies]
    split at seated
    · exact absurd rfl seated
    · rename_i live
      rw [if_neg live]
      exact covers.placed_of_not_staleAt inside live seated
  · rw [bucketIndex_dropStaleCopies, lightEstimate_dropStaleCopies, bucketAt_dropStaleCopies]
    have owed := covers.owed id
    split
    · rename_i stale
      exact HeavyBucket.owed_of_absent (fun seats => seats.1 rfl)
        (owed.le_estimate (not_seats_of_staleAt stale rfl)) (Or.inr rfl)
    · exact owed

theorem query_dropStaleCopies (sketch : Elastic) (id : String) :
    query hasher (dropStaleCopies hasher sketch) id = query hasher sketch id := by
  rw [query_eq_answer, query_eq_answer, bucketIndex_dropStaleCopies,
    lightEstimate_dropStaleCopies, bucketAt_dropStaleCopies]
  split
  · rename_i stale
    rw [HeavyBucket.answer_of_not_seats (not_seats_of_staleAt stale rfl)]
    exact HeavyBucket.answer_of_not_seats (fun seats => seats.1 rfl) _
  · rfl

/-! ### Compressing -/

/-- What is known of the groups once the buckets listed are scanned: a group without a winner
had vacant buckets only, a flag of a vacant bucket is noted, and a winner is a bucket of its
group that holds a flow. -/
structure Scanned (sketch : Elastic) (width : ℕ) (seen : List ℕ) (groups : ℕ → Group) : Prop where
  vacant : ∀ idx ∈ seen, (groups (idx % width)).winner = none → (bucketAt sketch idx).votePos = 0
  flagged : ∀ idx ∈ seen, (bucketAt sketch idx).votePos = 0 →
    (groups (idx % width)).flagged = false → (bucketAt sketch idx).eviction = false
  winner : ∀ group place, (groups group).winner = some place →
    place ∈ seen ∧ place % width = group ∧ (bucketAt sketch place).votePos ≠ 0

theorem Scanned.scanBucket {width : ℕ} {seen : List ℕ} {groups : ℕ → Group}
    (scanned : Scanned sketch width seen groups) (idx : ℕ) :
    Scanned sketch width (seen ++ [idx]) (scanBucket hasher sketch width groups idx) := by
  have old : ∀ {place}, place ∈ seen → place ∈ seen ++ [idx] := List.mem_append_left [idx]
  unfold Elastic.scanBucket
  simp only [HeavyBucket.isVacant, decide_eq_true_eq]
  by_cases vacant : (bucketAt sketch idx).votePos = 0
  · rw [if_pos vacant]
    have sameWinner : ∀ group, (Function.update groups (idx % width)
        { groups (idx % width) with flagged := (groups (idx % width)).flagged ||
          (bucketAt sketch idx).eviction } group).winner = (groups group).winner := by
      intro group
      rw [Function.update_apply]
      split
      · rename_i same
        rw [same]
      · rfl
    refine ⟨fun place member lacks => ?_, fun place member empty clear => ?_,
      fun group place won => ?_⟩
    · rw [sameWinner] at lacks
      rcases List.mem_append.mp member with before | here
      · exact scanned.vacant place before lacks
      · rw [List.mem_singleton.mp here]
        exact vacant
    · rw [Function.update_apply] at clear
      rcases List.mem_append.mp member with before | here
      · refine scanned.flagged place before empty ?_
        split at clear
        · rename_i same
          rw [same]
          exact (Bool.or_eq_false_iff.mp clear).1
        · exact clear
      · obtain rfl := List.mem_singleton.mp here
        rw [if_pos rfl] at clear
        exact (Bool.or_eq_false_iff.mp clear).2
    · rw [sameWinner] at won
      obtain ⟨member, inGroup, seated⟩ := scanned.winner group place won
      exact ⟨old member, inGroup, seated⟩
  · rw [if_neg vacant]
    split
    · refine ⟨fun place member lacks => ?_, fun place member empty clear => ?_,
        fun group place won => ?_⟩
      · rw [Function.update_apply] at lacks
        split at lacks
        · exact absurd lacks (by simp)
        · rename_i apart
          rcases List.mem_append.mp member with before | here
          · exact scanned.vacant place before lacks
          · exact absurd (congrArg (· % width) (List.mem_singleton.mp here)) apart
      · rcases List.mem_append.mp member with before | here
        · refine scanned.flagged place before empty ?_
          rw [Function.update_apply] at clear
          split at clear
          · rename_i same
            rw [same]
            exact clear
          · exact clear
        · rw [List.mem_singleton.mp here] at empty
          exact absurd empty vacant
      · rw [Function.update_apply] at won
        split at won
        · rename_i same
          obtain rfl := Option.some.inj won
          exact ⟨List.mem_append_right seen List.mem_cons_self, same.symm, vacant⟩
        · obtain ⟨member, inGroup, seated⟩ := scanned.winner group place won
          exact ⟨old member, inGroup, seated⟩
    · rename_i keeps
      refine ⟨fun place member lacks => ?_, fun place member empty clear => ?_,
        fun group place won => ?_⟩
      · rcases List.mem_append.mp member with before | here
        · exact scanned.vacant place before lacks
        · rw [List.mem_singleton.mp here] at lacks
          exact absurd (by simp [lacks]) keeps
      · rcases List.mem_append.mp member with before | here
        · exact scanned.flagged place before empty clear
        · rw [List.mem_singleton.mp here] at empty
          exact absurd empty vacant
      · obtain ⟨member, inGroup, seated⟩ := scanned.winner group place won
        exact ⟨old member, inGroup, seated⟩

theorem scanned_scanGroups (sketch : Elastic) (width : ℕ) :
    Scanned sketch width (List.range sketch.heavy.length) (scanGroups hasher sketch width) := by
  have run : ∀ (rest seen : List ℕ) (groups : ℕ → Group), Scanned sketch width seen groups →
      Scanned sketch width (seen ++ rest)
        (rest.foldl (Elastic.scanBucket hasher sketch width) groups) := by
    intro rest
    induction rest with
    | nil =>
      intro seen groups scanned
      rw [List.append_nil]
      exact scanned
    | cons idx rest hypothesis =>
      intro seen groups scanned
      rw [List.append_cons]
      exact hypothesis _ _ (scanned.scanBucket idx)
  refine run _ [] _ ⟨fun _ member => absurd member List.not_mem_nil,
    fun _ member => absurd member List.not_mem_nil, fun _ _ won => absurd won (by simp)⟩

def compressedTable (sketch : Elastic) (width : ℕ) (groups : ℕ → Group) : Elastic :=
  { sketch with
    heavy := (List.range width).map fun group => compressedBucket sketch (groups group)
    bktlen := width }

theorem bucketAt_compressedTable {width group : ℕ} (inside : group < width)
    (groups : ℕ → Group) : bucketAt (compressedTable sketch width groups) group =
      compressedBucket sketch (groups group) := by
  simp only [bucketAt, compressedTable, List.getElem?_map, List.getElem?_range inside,
    Option.map_some, Option.getD_some]

/-- A settled table compressed by a width that divides its own. -/
theorem Covers.compress (covers : Covers hasher sketch total)
    (settled : sketch.staleCopies = false) {width ratio : ℕ} {groups : ℕ → Group}
    (divides : sketch.bktlen = width * ratio)
    (scanned : Scanned sketch width (List.range sketch.heavy.length) groups) :
    Covers hasher (spill hasher (compressedTable sketch width groups)
      (losersOf sketch width groups)) total := by
  have someBucket : 0 < width := Nat.pos_of_ne_zero fun empty => by
    have none := covers.someBucket
    rw [divides, empty, Nat.zero_mul] at none
    exact Nat.lt_irrefl 0 none
  have inTable : ∀ idx, idx ∈ List.range sketch.heavy.length ↔ idx < sketch.bktlen := by
    intro idx
    rw [List.mem_range, covers.sized]
  have votes : ∀ flow ∈ losersOf sketch width groups, 0 ≤ flow.2 := by
    intro flow member
    obtain ⟨idx, -, lost⟩ := List.mem_filterMap.mp member
    simp only at lost
    split at lost
    · exact absurd lost (by simp)
    · rw [← Option.some.inj lost]
      exact covers.votes idx
  have sized : (compressedTable sketch width groups).heavy.length = width :=
    (List.length_map _).trans List.length_range
  have hashesTo : ∀ id, bucketIndex hasher sketch id % width =
      bucketIndex hasher (compressedTable sketch width groups) id := by
    intro id
    unfold bucketIndex
    rw [divides]
    exact Nat.mod_mul_right_mod _ _ _
  rw [spill_eq]
  refine ⟨sized, someBucket, accruing_spillLight covers.accruing votes, fun idx => ?_,
    fun _ idx inside seated => ?_, fun id => ?_⟩
  · change 0 ≤ (bucketAt (compressedTable sketch width groups) idx).votePos
    by_cases inside : idx < width
    · rw [bucketAt_compressedTable inside]
      unfold compressedBucket
      split
      · exact covers.votes _
      · exact le_rfl
    · rw [bucketAt_of_length_le (sized.trans_le (not_lt.mp inside))]
      exact le_rfl
  · change idx < width at inside
    change (bucketAt (compressedTable sketch width groups) idx).votePos ≠ 0 at seated
    change bucketIndex hasher (compressedTable sketch width groups)
      (bucketAt (compressedTable sketch width groups) idx).flowId = idx
    rw [bucketAt_compressedTable inside] at seated ⊢
    rw [← hashesTo]
    unfold compressedBucket at seated ⊢
    cases won : (groups idx).winner with
    | none =>
      simp only [won] at seated
      exact absurd rfl seated
    | some place =>
      obtain ⟨member, inGroup, holds⟩ := scanned.winner idx place won
      rw [covers.placed settled place ((inTable place).mp member) holds]
      exact inGroup
  · have old := covers.owed id
    have inside := covers.bucketIndex_lt id
    have grown : lightEstimate hasher sketch id ≤ CountMin.estimate hasher
        (spillLight hasher sketch.light (losersOf sketch width groups)) (.string id) :=
      estimate_le_spillLight covers.accruing votes _
    have intoGroup : bucketIndex hasher (compressedTable sketch width groups) id < width :=
      Nat.mod_lt _ someBucket
    change (bucketAt (compressedTable sketch width groups)
      (bucketIndex hasher (compressedTable sketch width groups) id)).Owed _ _ _
    rw [bucketAt_compressedTable intoGroup, ← hashesTo]
    unfold compressedBucket
    cases won : (groups (bucketIndex hasher sketch id % width)).winner with
    | none =>
      have vacant := scanned.vacant _ ((inTable _).mpr inside) won
      refine ⟨?_, fun _ clear => old.untouched vacant
        (scanned.flagged _ ((inTable _).mpr inside) vacant clear)⟩
      rw [HeavyBucket.answer_of_not_seats fun seats => seats.1 rfl]
      exact (old.le_estimate fun seats => seats.1 vacant).trans grown
    | some place =>
      obtain ⟨member, -, holds⟩ := scanned.winner _ place won
      by_cases own : place = bucketIndex hasher sketch id
      · simp only [own]
        exact old.mono grown
      · have apart : ¬(bucketAt sketch place).Seats id := fun seats => own <| by
          rw [← covers.placed settled place ((inTable place).mp member) holds, seats.2]
        refine HeavyBucket.owed_of_absent apart ?_ (Or.inl holds)
        by_cases loses : (bucketAt sketch (bucketIndex hasher sketch id)).Seats id
        · refine (old.le_votes_add loses (covers.estimate_nonneg id)).trans ?_
          have member : (id, (bucketAt sketch (bucketIndex hasher sketch id)).votePos) ∈
              losersOf sketch width groups := by
            refine List.mem_filterMap.mpr ⟨_, (inTable _).mpr inside, ?_⟩
            simp [HeavyBucket.isVacant, loses.1, won, own, loses.2]
          rw [add_comm]
          exact estimate_add_le_spillLight covers.accruing votes member
        · exact (old.le_estimate loses).trans grown

theorem Covers.compressHeavy (covers : Covers hasher sketch total) {ratio : ℕ}
    {compressed : Elastic} (accepted : compressHeavy hasher sketch ratio = some compressed) :
    Covers hasher compressed total := by
  unfold Elastic.compressHeavy at accepted
  split at accepted
  case isFalse => exact absurd accepted (by simp)
  rename_i allowed
  split at accepted
  · rw [← Option.some.inj accepted]
    exact covers
  · rw [← Option.some.inj accepted]
    have divides : (Elastic.dropStaleCopies hasher sketch).bktlen =
        (Elastic.dropStaleCopies hasher sketch).bktlen / ratio * ratio := by
      rw [dropStaleCopies_bktlen]
      exact (Nat.div_mul_cancel (Nat.dvd_of_mod_eq_zero allowed.2)).symm
    exact covers.dropStaleCopies.compress (dropStaleCopies_staleCopies sketch) divides
      (scanned_scanGroups _ _)

end Elastic

end AsapSketchlib
