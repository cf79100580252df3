/-
This file proves what the operations of the Elastic sketch keep: the bucket a flow hashes to
and the light layer together account for every occurrence of the flow.

What a bucket owes a flow that hashes to it is stated for the bucket alone. An operation moves
mass between the bucket and the light layer, and a flow that was never seated where no flag is
up has no mass in the light layer.
-/

import AsapSketchlib.Elastic

namespace AsapSketchlib

/-! ### The light layer from below -/

namespace CountMin

variable {hasher : SketchHasher}

/-- A light layer as the operations build it: some cells, and no negative counter. -/
structure Accruing (sketch : CountMin) : Prop where
  someRow : 0 < sketch.counts.rows
  someCol : 0 < sketch.counts.cols
  nonneg : ∀ row < sketch.counts.rows, ∀ col < sketch.counts.cols,
    0 ≤ sketch.counts.queryOneCounter row col

variable {sketch other : CountMin}

theorem accruing_withDimensions {rows cols : ℕ} (someRow : 0 < rows) (someCol : 0 < cols) :
    Accruing (withDimensions rows cols) :=
  ⟨someRow, someCol, fun row _ col _ => (Vector2D.queryOneCounter_filled rows cols row col).ge⟩

theorem Accruing.colFor_lt (accruing : Accruing sketch) (value : DataInput) (row : ℕ) :
    colFor hasher sketch value row < sketch.counts.cols := lower32Col_lt _ _ accruing.someCol

theorem le_estimate_iff (someRow : 0 < sketch.counts.rows) (value : DataInput) (bound : ℤ) :
    bound ≤ estimate hasher sketch value ↔ ∀ row < sketch.counts.rows,
      bound ≤ sketch.counts.queryOneCounter row (colFor hasher sketch value row) := by
  constructor
  · intro below row inside
    refine below.trans ?_
    cases row with
    | zero => exact runningMin_le _ _ _
    | succ previous =>
      refine runningMin_le_of_mem (List.mem_range'_1.mpr ⟨Nat.le_add_left 1 previous, ?_⟩)
      rw [Nat.add_sub_cancel' someRow]
      exact inside
  · intro each
    refine le_runningMin (each 0 someRow) fun row member => each row ?_
    have inside := (List.mem_range'_1.mp member).2
    rw [Nat.add_sub_cancel' someRow] at inside
    exact inside

section

variable (accruing : Accruing sketch)

include accruing

theorem Accruing.estimate_le (value : DataInput) {row : ℕ} (inside : row < sketch.counts.rows) :
    estimate hasher sketch value ≤
      sketch.counts.queryOneCounter row (colFor hasher sketch value row) :=
  (le_estimate_iff accruing.someRow value _).mp le_rfl row inside

theorem Accruing.estimate_nonneg (value : DataInput) : 0 ≤ estimate hasher sketch value :=
  (le_estimate_iff accruing.someRow value 0).mpr fun row inside =>
    accruing.nonneg row inside _ (accruing.colFor_lt value row)

theorem Accruing.insertMany (value : DataInput) {many : ℤ} (nonneg : 0 ≤ many) :
    Accruing (insertMany hasher sketch value many) := by
  refine ⟨accruing.someRow, accruing.someCol, fun row rowInside col colInside => ?_⟩
  rw [queryOneCounter_insertMany sketch value many rowInside colInside]
  refine add_nonneg (accruing.nonneg row rowInside col colInside) ?_
  split
  · exact nonneg
  · exact le_rfl

theorem Accruing.estimate_le_insertMany (key value : DataInput) {many : ℤ} (nonneg : 0 ≤ many) :
    estimate hasher sketch value ≤
      estimate hasher (CountMin.insertMany hasher sketch key many) value := by
  refine (le_estimate_iff (accruing.insertMany key nonneg).someRow value _).mpr
    fun row inside => ?_
  refine (accruing.estimate_le value inside).trans ?_
  refine le_of_le_of_eq ?_ (queryOneCounter_insertMany sketch key many inside
    (accruing.colFor_lt value row)).symm
  refine le_add_of_nonneg_right ?_
  split
  · exact nonneg
  · exact le_rfl

theorem Accruing.estimate_add_le_insertMany (key : DataInput) {many : ℤ} (nonneg : 0 ≤ many) :
    estimate hasher sketch key + many ≤
      estimate hasher (CountMin.insertMany hasher sketch key many) key := by
  refine (le_estimate_iff (accruing.insertMany key nonneg).someRow key _).mpr
    fun row inside => ?_
  refine le_of_le_of_eq ?_ (queryOneCounter_insertMany sketch key many inside
    (accruing.colFor_lt key row)).symm
  have visited : lower32Col (hasher.hash64Seeded row key) sketch.counts.cols =
      colFor hasher sketch key row := rfl
  rw [if_pos visited]
  exact add_le_add_left (accruing.estimate_le key inside) many

end

theorem merge_eq_some {merged : CountMin} (accepted : merge sketch other = some merged) :
    sketch.counts.rows = other.counts.rows ∧ sketch.counts.cols = other.counts.cols ∧
      merged = ⟨sketch.counts.add other.counts⟩ := by
  unfold merge at accepted
  split at accepted
  case isFalse => exact absurd accepted (by simp)
  rename_i same
  exact ⟨same.1, same.2, (Option.some.inj accepted).symm⟩

variable {merged : CountMin}

theorem Accruing.merge (accruing : Accruing sketch) (otherAccruing : Accruing other)
    (accepted : merge sketch other = some merged) : Accruing merged := by
  obtain ⟨sameRows, sameCols, rfl⟩ := merge_eq_some accepted
  refine ⟨accruing.someRow, accruing.someCol, fun row rowInside col colInside => ?_⟩
  refine le_of_le_of_eq ?_
    (Vector2D.queryOneCounter_add sameRows sameCols rowInside colInside).symm
  exact add_nonneg (accruing.nonneg row rowInside col colInside)
    (otherAccruing.nonneg row (sameRows ▸ rowInside) col (sameCols ▸ colInside))

theorem Accruing.estimate_add_le_merge (accruing : Accruing sketch)
    (otherAccruing : Accruing other) (accepted : CountMin.merge sketch other = some merged)
    (value : DataInput) :
    estimate hasher sketch value + estimate hasher other value ≤ estimate hasher merged value := by
  have mergedAccruing := accruing.merge otherAccruing accepted
  obtain ⟨sameRows, sameCols, rfl⟩ := merge_eq_some accepted
  refine (le_estimate_iff mergedAccruing.someRow value _).mpr fun row inside => ?_
  have sameColumn : colFor hasher other value row = colFor hasher sketch value row := by
    unfold colFor
    rw [sameCols]
  refine le_of_le_of_eq ?_ (Vector2D.queryOneCounter_add sameRows sameCols inside
    (accruing.colFor_lt value row)).symm
  refine add_le_add (accruing.estimate_le value inside) ?_
  rw [← sameColumn]
  exact otherAccruing.estimate_le value (sameRows ▸ inside)

end CountMin

/-! ### What a bucket owes a flow -/

namespace HeavyBucket

/-- The answer a query reads from the bucket of a flow and an estimate of the light layer. -/
def answer (bucket : HeavyBucket) (estimate : ℤ) (id : String) : ℤ :=
  if !bucket.isVacant && bucket.flowId = id then
    if bucket.eviction then bucket.votePos + estimate else bucket.votePos
  else estimate

def Seats (bucket : HeavyBucket) (id : String) : Prop :=
  bucket.votePos ≠ 0 ∧ bucket.flowId = id

theorem seats_iff (bucket : HeavyBucket) (id : String) :
    (!bucket.isVacant && bucket.flowId = id) = true ↔ bucket.Seats id := by
  simp [isVacant, Seats]

theorem answer_of_seats {bucket : HeavyBucket} {id : String} (seats : bucket.Seats id)
    (estimate : ℤ) : bucket.answer estimate id =
      if bucket.eviction then bucket.votePos + estimate else bucket.votePos :=
  if_pos ((seats_iff bucket id).mpr seats)

theorem answer_of_not_seats {bucket : HeavyBucket} {id : String} (absent : ¬bucket.Seats id)
    (estimate : ℤ) : bucket.answer estimate id = estimate :=
  if_neg fun seats => absent ((seats_iff bucket id).mp seats)

/-- What the bucket of a flow owes it: the answer covers the occurrences, and a vacant bucket
whose flag is down never met one. -/
structure Owed (bucket : HeavyBucket) (estimate total : ℤ) (id : String) : Prop where
  covered : total ≤ bucket.answer estimate id
  untouched : bucket.votePos = 0 → bucket.eviction = false → total ≤ 0

variable {bucket : HeavyBucket} {estimate estimate' total total' : ℤ} {id : String}

section

variable (owed : bucket.Owed estimate total id)

include owed

theorem Owed.le_votes_add (seats : bucket.Seats id) (nonneg : 0 ≤ estimate) :
    total ≤ bucket.votePos + estimate := by
  have covered := owed.covered
  rw [answer_of_seats seats] at covered
  split at covered
  · exact covered
  · exact covered.trans (le_add_of_nonneg_right nonneg)

theorem Owed.le_estimate (absent : ¬bucket.Seats id) : total ≤ estimate := by
  rw [← answer_of_not_seats absent estimate]
  exact owed.covered

theorem Owed.mono (grown : estimate ≤ estimate') : bucket.Owed estimate' total id := by
  refine ⟨owed.covered.trans ?_, owed.untouched⟩
  unfold answer
  split
  · split
    · exact add_le_add_right grown bucket.votePos
    · exact le_rfl
  · exact grown

end

theorem owed_of_absent (absent : ¬bucket.Seats id) (below : total ≤ estimate)
    (known : bucket.votePos ≠ 0 ∨ bucket.eviction = true) : bucket.Owed estimate total id := by
  refine ⟨below.trans_eq (answer_of_not_seats absent estimate).symm, fun vacant down => ?_⟩
  rcases known with seated | flagged
  · exact absurd vacant seated
  · exact absurd (flagged.symm.trans down) (by decide)

theorem owed_of_flagged (seats : bucket.Seats id) (flagged : bucket.eviction = true)
    (below : total ≤ bucket.votePos + estimate) : bucket.Owed estimate total id := by
  refine ⟨?_, fun vacant _ => absurd vacant seats.1⟩
  rw [answer_of_seats seats, if_pos flagged]
  exact below

theorem Owed.vote (owed : bucket.Owed estimate total id) (seats : bucket.Seats id) {count : ℤ}
    (positive : 0 < count) (nonneg : 0 ≤ bucket.votePos) :
    ({ bucket with votePos := bucket.votePos + count } : HeavyBucket).Owed estimate
      (total + count) id := by
  have seated : ({ bucket with votePos := bucket.votePos + count } : HeavyBucket).Seats id :=
    ⟨(add_pos_of_nonneg_of_pos nonneg positive).ne', seats.2⟩
  refine ⟨?_, fun vacant _ => absurd vacant seated.1⟩
  have covered := owed.covered
  rw [answer_of_seats seats] at covered
  rw [answer_of_seats seated]
  show total + count ≤ if bucket.eviction = true then bucket.votePos + count + estimate
    else bucket.votePos + count
  split at covered
  · rename_i flagged
    rw [if_pos flagged, add_right_comm]
    exact add_le_add_left covered count
  · rename_i clear
    rw [if_neg clear]
    exact add_le_add_left covered count

theorem Owed.occupyMany (owed : bucket.Owed estimate total id) (vacant : bucket.votePos = 0)
    {count : ℤ} (positive : 0 < count) :
    (bucket.occupyMany id count).Owed estimate (total + count) id := by
  have seated : (bucket.occupyMany id count).Seats id := ⟨positive.ne', rfl⟩
  refine ⟨?_, fun empty _ => absurd empty seated.1⟩
  rw [answer_of_seats seated]
  show total + count ≤ if bucket.eviction = true then count + estimate else count
  split
  · rw [add_comm]
    exact add_le_add_right (owed.le_estimate fun seats => seats.1 vacant) count
  · rename_i clear
    refine add_le_of_nonpos_left (owed.untouched vacant ?_)
    exact Bool.eq_false_iff.mpr clear

end HeavyBucket

/-! ### What a sketch keeps -/

namespace Elastic

theorem bucketAt_setBucket {sketch : Elastic} {idx : ℕ} (inside : idx < sketch.heavy.length)
    (bucket : HeavyBucket) (other : ℕ) :
    bucketAt (setBucket sketch idx bucket) other =
      if idx = other then bucket else bucketAt sketch other := by
  unfold bucketAt setBucket
  rw [List.getElem?_set]
  split
  · rfl
  · rfl

theorem bucketAt_of_length_le {sketch : Elastic} {idx : ℕ} (outside : sketch.heavy.length ≤ idx) :
    bucketAt sketch idx = HeavyBucket.new := by
  unfold bucketAt
  rw [List.getElem?_eq_none outside]
  rfl

variable (hasher : SketchHasher)

/-- What every sketch the operations build keeps, for totals of the flows: its tables have their
sizes, no vote is negative, only an expansion leaves a bucket whose resident hashes elsewhere,
and the bucket of each flow covers it. -/
structure Covers (sketch : Elastic) (total : String → ℤ) : Prop where
  sized : sketch.heavy.length = sketch.bktlen
  someBucket : 0 < sketch.bktlen
  accruing : sketch.light.Accruing
  votes : ∀ idx, 0 ≤ (bucketAt sketch idx).votePos
  placed : sketch.staleCopies = false → ∀ idx < sketch.bktlen,
    (bucketAt sketch idx).votePos ≠ 0 → bucketIndex hasher sketch (bucketAt sketch idx).flowId = idx
  owed : ∀ id, (bucketAt sketch (bucketIndex hasher sketch id)).Owed
    (lightEstimate hasher sketch id) (total id) id

variable {hasher} {sketch : Elastic} {total : String → ℤ}

theorem query_eq_answer (sketch : Elastic) (id : String) : query hasher sketch id =
    (bucketAt sketch (bucketIndex hasher sketch id)).answer (lightEstimate hasher sketch id) id :=
  rfl

theorem Covers.bucketIndex_lt (covers : Covers hasher sketch total) (id : String) :
    bucketIndex hasher sketch id < sketch.bktlen := Nat.mod_lt _ covers.someBucket

theorem Covers.estimate_nonneg (covers : Covers hasher sketch total) (id : String) :
    0 ≤ lightEstimate hasher sketch id := covers.accruing.estimate_nonneg _

theorem staleAt_iff (idx : ℕ) : staleAt hasher sketch idx = true ↔
    sketch.staleCopies = true ∧ (bucketAt sketch idx).votePos ≠ 0 ∧
      bucketIndex hasher sketch (bucketAt sketch idx).flowId ≠ idx := by
  simp [staleAt, HeavyBucket.isVacant]

theorem not_seats_of_staleAt {idx : ℕ} (stale : staleAt hasher sketch idx = true) {id : String}
    (here : bucketIndex hasher sketch id = idx) : ¬(bucketAt sketch idx).Seats id := by
  rintro ⟨-, rfl⟩
  exact ((staleAt_iff idx).mp stale).2.2 here

theorem Covers.placed_of_not_staleAt (covers : Covers hasher sketch total) {idx : ℕ}
    (inside : idx < sketch.bktlen) (live : ¬staleAt hasher sketch idx = true)
    (seated : (bucketAt sketch idx).votePos ≠ 0) :
    bucketIndex hasher sketch (bucketAt sketch idx).flowId = idx := by
  by_contra elsewhere
  by_cases copies : sketch.staleCopies = true
  · exact live ((staleAt_iff idx).mpr ⟨copies, seated, elsewhere⟩)
  · exact elsewhere (covers.placed (Bool.eq_false_iff.mpr copies) idx inside seated)

/-- A sketch keeps what it has to where one bucket changes and the light layer grows, if the
bucket still owes what it has to. -/
theorem Covers.rewrite (covers : Covers hasher sketch total) {total' : String → ℤ} {idx : ℕ}
    {bucket : HeavyBucket} {light : CountMin} (inside : idx < sketch.bktlen)
    (accruing : light.Accruing) (votes : 0 ≤ bucket.votePos)
    (placed : bucketIndex hasher sketch bucket.flowId = idx)
    (grown : ∀ id, lightEstimate hasher sketch id ≤ CountMin.estimate hasher light (.string id))
    (elsewhere : ∀ id, bucketIndex hasher sketch id ≠ idx → total' id = total id)
    (here : ∀ id, bucketIndex hasher sketch id = idx →
      bucket.Owed (CountMin.estimate hasher light (.string id)) (total' id) id) :
    Covers hasher { setBucket sketch idx bucket with light := light } total' := by
  have readAt : ∀ other, bucketAt { setBucket sketch idx bucket with light := light } other =
      if idx = other then bucket else bucketAt sketch other :=
    bucketAt_setBucket (covers.sized.symm ▸ inside) bucket
  refine ⟨List.length_set.trans covers.sized, covers.someBucket, accruing, fun other => ?_,
    fun settled other otherInside seated => ?_, fun id => ?_⟩
  · rw [readAt]
    split
    · exact votes
    · exact covers.votes other
  · rw [readAt] at seated ⊢
    by_cases same : idx = other
    · rw [if_pos same]
      exact placed.trans same
    · rw [if_neg same] at seated ⊢
      exact covers.placed settled other otherInside seated
  · rw [readAt]
    by_cases same : idx = bucketIndex hasher sketch id
    · exact (if_pos same).symm ▸ here id same.symm
    · have kept := (covers.owed id).mono (grown id)
      rw [← elsewhere id (Ne.symm same)] at kept
      exact (if_neg same).symm ▸ kept

/-! ### Inserting -/

/-- What an insert adds to the total of a flow. -/
def arrival (id : String) (count : ℤ) (flow : String) : ℤ := if id = flow then count else 0

theorem arrival_self (id : String) (count : ℤ) : arrival id count id = count := if_pos rfl

theorem arrival_of_ne {id flow : String} (different : id ≠ flow) (count : ℤ) :
    arrival id count flow = 0 := if_neg different

/-- An insert of a positive count keeps what a sketch has to, and the flow gains the count. -/
theorem Covers.insertMany (covers : Covers hasher sketch total) (id : String) {count : ℤ}
    (positive : 0 < count) :
    Covers hasher (insertMany hasher sketch id count) fun flow =>
      total flow + arrival id count flow := by
  have inside := covers.bucketIndex_lt id
  have others : ∀ flow, bucketIndex hasher sketch flow ≠ bucketIndex hasher sketch id →
      total flow + arrival id count flow = total flow := fun flow apart => by
    rw [arrival_of_ne (fun same => apart (congrArg _ same.symm)), add_zero]
  have idOwed := covers.owed id
  have gains : ∀ {bucket : HeavyBucket} {light : CountMin},
      bucket.Owed (CountMin.estimate hasher light (.string id)) (total id + count) id →
      (∀ flow, id ≠ flow → bucketIndex hasher sketch flow = bucketIndex hasher sketch id →
        bucket.Owed (CountMin.estimate hasher light (.string flow)) (total flow) flow) →
      ∀ flow, bucketIndex hasher sketch flow = bucketIndex hasher sketch id →
        bucket.Owed (CountMin.estimate hasher light (.string flow))
          (total flow + arrival id count flow) flow := by
    intro bucket light own rest flow same
    by_cases isId : id = flow
    · subst isId
      rw [arrival_self]
      exact own
    · rw [arrival_of_ne isId, add_zero]
      exact rest flow isId same
  unfold Elastic.insertMany
  rw [if_neg (not_le.mpr positive)]
  by_cases stale : staleAt hasher sketch (bucketIndex hasher sketch id) = true
  · simp only [stale, if_true]
    refine covers.rewrite inside covers.accruing positive.le rfl (fun _ => le_rfl) others
      (gains ?_ fun flow different same => ?_)
    · refine HeavyBucket.owed_of_flagged ⟨positive.ne', rfl⟩ rfl ?_
      rw [add_comm]
      exact add_le_add_right (idOwed.le_estimate (not_seats_of_staleAt stale rfl)) count
    · refine HeavyBucket.owed_of_absent (fun seats => different seats.2) ?_ (Or.inr rfl)
      have owed := covers.owed flow
      rw [same] at owed
      exact owed.le_estimate (not_seats_of_staleAt stale same)
  · have live : staleAt hasher sketch (bucketIndex hasher sketch id) = false :=
      Bool.eq_false_iff.mpr stale
    simp only [live, Bool.false_eq_true, if_false, HeavyBucket.isVacant, decide_eq_true_eq]
    by_cases vacant : (bucketAt sketch (bucketIndex hasher sketch id)).votePos = 0
    · rw [if_pos vacant]
      refine covers.rewrite inside covers.accruing positive.le rfl (fun _ => le_rfl) others
        (gains (idOwed.occupyMany vacant positive) fun flow different same => ?_)
      refine HeavyBucket.owed_of_absent (fun seats => different seats.2) ?_ (Or.inl positive.ne')
      have owed := covers.owed flow
      rw [same] at owed
      exact owed.le_estimate fun seats => seats.1 vacant
    · rw [if_neg vacant]
      have votes := covers.votes (bucketIndex hasher sketch id)
      by_cases resident : (bucketAt sketch (bucketIndex hasher sketch id)).flowId = id
      · rw [if_pos resident]
        refine covers.rewrite inside covers.accruing (add_nonneg votes positive.le)
          (congrArg (bucketIndex hasher sketch) resident) (fun _ => le_rfl) others
          (gains (idOwed.vote ⟨vacant, resident⟩ positive votes) fun flow different same => ?_)
        have absent : ¬(bucketAt sketch (bucketIndex hasher sketch id)).Seats flow :=
          fun seats => different (resident.symm.trans seats.2)
        have owed := covers.owed flow
        rw [same] at owed
        exact HeavyBucket.owed_of_absent (fun seats => absent ⟨vacant, seats.2⟩)
          (owed.le_estimate absent) (Or.inl (add_pos_of_nonneg_of_pos votes positive).ne')
      · rw [if_neg resident]
        have absent : ¬(bucketAt sketch (bucketIndex hasher sketch id)).Seats id :=
          fun seats => resident seats.2
        split
        · refine covers.rewrite inside (covers.accruing.insertMany _ positive.le) votes
            (covers.placed_of_not_staleAt inside stale vacant)
            (fun flow => covers.accruing.estimate_le_insertMany _ _ positive.le) others
            (gains ?_ fun flow different same => ?_)
          · refine HeavyBucket.owed_of_absent (fun seats => absent seats) ?_ (Or.inl vacant)
            exact (add_le_add_left (idOwed.le_estimate absent) count).trans
              (covers.accruing.estimate_add_le_insertMany _ positive.le)
          · have owed := covers.owed flow
            rw [same] at owed
            have grown := owed.mono (covers.accruing.estimate_le_insertMany (.string id)
              (.string flow) positive.le)
            exact ⟨grown.covered, grown.untouched⟩
        · refine covers.rewrite inside (covers.accruing.insertMany _ votes) positive.le rfl
            (fun flow => covers.accruing.estimate_le_insertMany _ _ votes) others
            (gains ?_ fun flow different same => ?_)
          · refine HeavyBucket.owed_of_flagged ⟨positive.ne', rfl⟩ rfl ?_
            rw [add_comm]
            exact add_le_add_right ((idOwed.le_estimate absent).trans
              (covers.accruing.estimate_le_insertMany _ _ votes)) count
          · refine HeavyBucket.owed_of_absent (fun seats => different seats.2) ?_ (Or.inr rfl)
            have owed := covers.owed flow
            rw [same] at owed
            by_cases loses : (bucketAt sketch (bucketIndex hasher sketch id)).Seats flow
            · refine (owed.le_votes_add loses (covers.estimate_nonneg flow)).trans ?_
              rw [add_comm, loses.2]
              exact covers.accruing.estimate_add_le_insertMany _ votes
            · exact (owed.le_estimate loses).trans
                (covers.accruing.estimate_le_insertMany _ _ votes)

end Elastic

end AsapSketchlib
