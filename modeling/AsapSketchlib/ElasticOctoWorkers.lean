/-
This file accounts for what an Elastic worker does with its inputs: every occurrence of a flow
is a vote the worker still holds, a vote it has sent under the key of the flow, or one unit in
each row of the light layer.

What the flag of a bucket says of the deltas sent is part of the account: while it is down, its
first resident has sent everything unmarked and no other flow was ever named.
-/

import AsapSketchlib.ElasticOcto
import AsapSketchlib.OctoConservation

namespace AsapSketchlib

/-! ### What deltas carry -/

namespace ElasticDelta

def carried (flow : String) : ElasticDelta → ℕ
  | heavy key value _ => if key = flow then value else 0
  | evicted key votes => if key = flow then votes else 0
  | light _ => 0

def Names (flow : String) : ElasticDelta → Prop
  | heavy key _ _ => key = flow
  | evicted key _ => key = flow
  | light _ => False

/-- A delta tells that a flow may have mass in the light layer. -/
def Marks (flow : String) : ElasticDelta → Prop
  | heavy key _ eviction => key = flow ∧ eviction = true
  | evicted key _ => key = flow
  | light _ => False

/-- A delta has votes to report, or names a cell of the light layer. -/
def Sound (rows cols : ℕ) : ElasticDelta → Prop
  | heavy _ value _ => 0 < value
  | evicted _ _ => True
  | light delta => delta.row < rows ∧ delta.col < cols

def cell? : ElasticDelta → Option CellDelta
  | light delta => some delta
  | _ => none

theorem Marks.names {flow : String} {delta : ElasticDelta} (marks : delta.Marks flow) :
    delta.Names flow := by
  cases delta with
  | heavy key value eviction => exact marks.1
  | evicted key votes => exact marks
  | light delta => exact marks

theorem carried_of_not_names {flow : String} {delta : ElasticDelta} (other : ¬delta.Names flow) :
    delta.carried flow = 0 := by
  cases delta with
  | heavy key value eviction => exact if_neg other
  | evicted key votes => exact if_neg other
  | light delta => rfl

end ElasticDelta

/-- The occurrences of a flow that deltas carry under its key. -/
def carriedIn (deltas : List ElasticDelta) (flow : String) : ℕ :=
  (deltas.map (ElasticDelta.carried flow)).sum

@[simp] theorem carriedIn_append (first second : List ElasticDelta) (flow : String) :
    carriedIn (first ++ second) flow = carriedIn first flow + carriedIn second flow := by
  rw [carriedIn, List.map_append, List.sum_append]
  rfl

theorem carriedIn_of_not_names {deltas : List ElasticDelta} {flow : String}
    (others : ∀ delta ∈ deltas, ¬delta.Names flow) : carriedIn deltas flow = 0 := by
  refine List.sum_eq_zero fun amount member => ?_
  obtain ⟨delta, inDeltas, rfl⟩ := List.mem_map.mp member
  exact ElasticDelta.carried_of_not_names (others delta inDeltas)

/-- Once a flow is marked, every delta that names it marks it. -/
def Orderly (flow : String) (deltas : List ElasticDelta) : Prop :=
  deltas.Pairwise fun early late => early.Marks flow → late.Names flow → late.Marks flow

def arrives (id flow : String) : ℕ := if id = flow then 1 else 0

theorem count_append_singleton (keys : List String) (id flow : String) :
    (keys ++ [id]).count flow = keys.count flow + arrives id flow := by
  rw [List.count_append, List.count_singleton]
  simp only [arrives, beq_iff_eq]

/-! ### The account of one flow -/

namespace ElasticWorkerBucket

def held (bucket : ElasticWorkerBucket) (flow : String) : ℕ :=
  if bucket.flowId = some flow then bucket.votePos else 0

/-- The account of a flow with its bucket: its occurrences so far, the deltas sent, and how
often it went to the light layer. -/
structure Standing (bucket : ElasticWorkerBucket) (counted : ℕ) (deltas : List ElasticDelta)
    (spilled : ℕ) (flow : String) : Prop where
  balanced : counted = carriedIn deltas flow + bucket.held flow + spilled
  untaken : bucket.flowId = none → bucket.eviction = false ∧ spilled = 0
  resident : bucket.flowId = some flow → bucket.eviction = false →
    spilled = 0 ∧ ∀ delta ∈ deltas, ¬delta.Marks flow
  stranger : bucket.flowId ≠ some flow → bucket.eviction = false →
    ∀ delta ∈ deltas, ¬delta.Names flow
  flagged : bucket.eviction = true →
    (∃ delta ∈ deltas, delta.Marks flow) ∨ ∀ delta ∈ deltas, ¬delta.Names flow
  orderly : Orderly flow deltas

variable {bucket : ElasticWorkerBucket} {counted spilled : ℕ} {deltas sent : List ElasticDelta}
  {flow id other : String}

theorem Standing.append (standing : bucket.Standing counted deltas spilled flow)
    (others : ∀ delta ∈ sent, ¬delta.Names flow) :
    bucket.Standing counted (deltas ++ sent) spilled flow := by
  have absent : ∀ delta ∈ sent, ¬delta.Marks flow :=
    fun delta member marks => others delta member marks.names
  refine ⟨?_, standing.untaken, fun seated down => ?_, fun apart down => ?_, fun up => ?_, ?_⟩
  · rw [carriedIn_append, carriedIn_of_not_names others, Nat.add_zero]
    exact standing.balanced
  · obtain ⟨noSpill, unmarked⟩ := standing.resident seated down
    exact ⟨noSpill, List.forall_mem_append.mpr ⟨unmarked, absent⟩⟩
  · exact List.forall_mem_append.mpr ⟨standing.stranger apart down, others⟩
  · rcases standing.flagged up with ⟨delta, member, marks⟩ | unnamed
    · exact Or.inl ⟨delta, List.mem_append_left sent member, marks⟩
    · exact Or.inr (List.forall_mem_append.mpr ⟨unnamed, others⟩)
  · refine List.pairwise_append.mpr ⟨standing.orderly, ?_, fun early _ late member _ names =>
      absurd names (others late member)⟩
    exact List.pairwise_of_forall_mem_list fun early _ late member _ names =>
      absurd names (others late member)

theorem held_of_ne (apart : bucket.flowId ≠ some flow) : bucket.held flow = 0 := if_neg apart

variable (standing : bucket.Standing counted deltas spilled flow)

include standing

theorem Standing.promote : ({ bucket with votePos := 0 } : ElasticWorkerBucket).Standing counted
      (deltas ++ bucket.promotion) spilled flow := by
  have cleared : ({ bucket with votePos := 0 } : ElasticWorkerBucket).held flow = 0 := ite_self 0
  by_cases seated : bucket.flowId = some flow
  · have shipped : bucket.promotion = [.heavy flow bucket.votePos bucket.eviction] := by
      rw [promotion, seated]
      rfl
    rw [shipped]
    refine ⟨?_, fun none => absurd (seated.symm.trans none) (by simp), fun _ down => ?_,
      fun apart => absurd seated apart, fun up => Or.inl ⟨_, List.mem_append_right deltas
        List.mem_cons_self, rfl, up⟩, ?_⟩
    · have balanced := standing.balanced
      rw [held, if_pos seated] at balanced
      rw [carriedIn_append, cleared, balanced]
      simp [carriedIn, ElasticDelta.carried]
    · obtain ⟨noSpill, unmarked⟩ := standing.resident seated down
      refine ⟨noSpill, List.forall_mem_append.mpr ⟨unmarked, fun delta member marks => ?_⟩⟩
      rw [List.mem_singleton.mp member] at marks
      exact Bool.false_ne_true (down.symm.trans marks.2)
    · refine List.pairwise_append.mpr ⟨standing.orderly, List.pairwise_singleton _ _,
        fun early inDeltas late member marks _ => ?_⟩
      rw [List.mem_singleton.mp member]
      refine ⟨rfl, ?_⟩
      by_contra down
      exact (standing.resident seated (Bool.eq_false_iff.mpr down)).2 early inDeltas marks
  · have others : ∀ delta ∈ bucket.promotion, ¬delta.Names flow := by
      intro delta member names
      obtain ⟨resident, inBucket, rfl⟩ := List.mem_map.mp member
      exact seated ((Option.mem_toList.mp inBucket).trans (congrArg some names))
    have kept : ({ bucket with votePos := 0 } : ElasticWorkerBucket).Standing counted deltas
        spilled flow := by
      refine ⟨?_, standing.untaken, standing.resident, standing.stranger, standing.flagged,
        standing.orderly⟩
      rw [cleared, ← held_of_ne seated]
      exact standing.balanced
    exact kept.append others

theorem Standing.promoteHeavy (threshold : ℕ) : (bucket.promoteHeavy threshold).1.Standing counted
      (deltas ++ (bucket.promoteHeavy threshold).2) spilled flow := by
  unfold ElasticWorkerBucket.promoteHeavy
  split
  · rw [List.append_nil]
    exact standing
  · exact standing.promote

theorem Standing.flush :
    bucket.flush.1.Standing counted (deltas ++ bucket.flush.2) spilled flow := by
  unfold ElasticWorkerBucket.flush
  split
  · rw [List.append_nil]
    exact standing
  · exact standing.promote

theorem Standing.seat (free : bucket.flowId = none) (id : String) :
    (⟨some id, 1, 0, false⟩ : ElasticWorkerBucket).Standing (counted + arrives id flow) deltas
      spilled flow := by
  obtain ⟨down, noSpill⟩ := standing.untaken free
  have unnamed := standing.stranger (by simp [free]) down
  refine ⟨?_, fun none => absurd none (by simp), fun _ _ => ⟨noSpill, fun delta member marks =>
    unnamed delta member marks.names⟩, fun _ _ => unnamed, fun up => absurd up (by simp),
    standing.orderly⟩
  have balanced := standing.balanced
  rw [held_of_ne (by simp [free])] at balanced
  simp only [balanced, held, arrives, Option.some.injEq]
  omega

theorem Standing.vote (seated : bucket.flowId = some id) :
    ({ bucket with votePos := bucket.votePos + 1 } : ElasticWorkerBucket).Standing
      (counted + arrives id flow) deltas spilled flow := by
  refine ⟨?_, standing.untaken, standing.resident, standing.stranger, standing.flagged,
    standing.orderly⟩
  have balanced := standing.balanced
  simp only [held, seated, Option.some.injEq] at balanced
  simp only [balanced, held, arrives, seated, Option.some.injEq]
  split <;> omega

theorem Standing.lose (seated : bucket.flowId = some other) (apart : other ≠ id) (votes : ℤ) :
    ({ bucket with voteNeg := votes } : ElasticWorkerBucket).Standing (counted + arrives id flow)
      deltas (spilled + arrives id flow) flow := by
  refine ⟨?_, fun none => absurd (seated.symm.trans none) (by simp), fun here down => ?_,
    standing.stranger, standing.flagged, standing.orderly⟩
  · have balanced := standing.balanced
    show counted + _ = carriedIn deltas flow + bucket.held flow + _
    omega
  · have different : id ≠ flow := fun same =>
      apart ((Option.some.inj (seated.symm.trans here)).trans same.symm)
    rw [arrives, if_neg different]
    exact standing.resident here down

theorem Standing.evict (seated : bucket.flowId = some other) (id : String) :
    (⟨some id, 1, 1, true⟩ : ElasticWorkerBucket).Standing (counted + arrives id flow)
      (deltas ++ [.evicted other bucket.votePos]) spilled flow := by
  refine ⟨?_, fun none => absurd none (by simp), fun _ down => absurd down (by simp),
    fun _ down => absurd down (by simp), fun _ => ?_, ?_⟩
  · have balanced := standing.balanced
    rw [carriedIn_append]
    simp only [held, seated, Option.some.injEq] at balanced
    simp only [balanced, held, arrives, carriedIn, ElasticDelta.carried, Option.some.injEq,
      List.map_cons, List.map_nil, List.sum_cons, List.sum_nil]
    omega
  · by_cases evicted : other = flow
    · exact Or.inl ⟨_, List.mem_append_right deltas List.mem_cons_self, evicted⟩
    · have others : ∀ delta ∈ [ElasticDelta.evicted other bucket.votePos], ¬delta.Names flow := by
        intro delta member names
        rw [List.mem_singleton.mp member] at names
        exact evicted names
      by_cases up : bucket.eviction = true
      · rcases standing.flagged up with ⟨delta, member, marks⟩ | unnamed
        · exact Or.inl ⟨delta, List.mem_append_left _ member, marks⟩
        · exact Or.inr (List.forall_mem_append.mpr ⟨unnamed, others⟩)
      · have stranger := standing.stranger
          (fun here => evicted (Option.some.inj (seated.symm.trans here)))
          (Bool.eq_false_iff.mpr up)
        exact Or.inr (List.forall_mem_append.mpr ⟨stranger, others⟩)
  · refine List.pairwise_append.mpr ⟨standing.orderly, List.pairwise_singleton _ _,
      fun early _ late member _ names => ?_⟩
    rw [List.mem_singleton.mp member] at names ⊢
    exact names

end ElasticWorkerBucket

/-! ### The account of a worker -/

def cellDeltas (deltas : List ElasticDelta) : List CellDelta := deltas.filterMap ElasticDelta.cell?

@[simp] theorem cellDeltas_append (first second : List ElasticDelta) :
    cellDeltas (first ++ second) = cellDeltas first ++ cellDeltas second := List.filterMap_append

@[simp] theorem cellDeltas_light (cells : List CellDelta) : cellDeltas (cells.map .light) = cells := by
  rw [cellDeltas, List.filterMap_map]
  exact List.filterMap_some

theorem cellDeltas_promotion (bucket : ElasticWorkerBucket) : cellDeltas bucket.promotion = [] := by
  rw [ElasticWorkerBucket.promotion, cellDeltas, List.filterMap_map]
  exact List.filterMap_eq_nil_iff.mpr fun _ _ => rfl

namespace ElasticWorkerSketch

open Promotion

theorem bucketAt_setBucket {sketch : ElasticWorkerSketch} {idx : ℕ}
    (inside : idx < sketch.heavy.length) (bucket : ElasticWorkerBucket) (other : ℕ) :
    bucketAt (setBucket sketch idx bucket) other =
      if idx = other then bucket else bucketAt sketch other := by
  unfold bucketAt setBucket
  rw [List.getElem?_set]
  split
  · rfl
  · rfl

/-- What the spills of flows add to a cell of the light layer. -/
def spilledAt (xxh : XxHash3) (rows cols : ℕ) (spilled : List String) (cell : ℕ × ℕ) : ℤ :=
  (spilled.map fun id => (cmOcto xxh).gainOf rows cols (.str id) cell).sum

/-- The account of a worker: for the keys it was given, the deltas it has sent and the flows it
has spilled, one unit each. -/
structure Account (xxh : XxHash3) (bucketCount rows cols : ℕ) (keys : List String)
    (sketch : ElasticWorkerSketch) (deltas : List ElasticDelta) (spilled : List String) :
    Prop where
  sized : sketch.heavy.length = max bucketCount 1
  lightRows : sketch.light.counters.rows = max rows 1
  lightCols : sketch.light.counters.cols = max cols 1
  settled : sketch.light.Settled unsignedByte
  votes : ∀ idx, (bucketAt sketch idx).votePos ≤ 126
  placed : ∀ idx < sketch.heavy.length, ∀ id, (bucketAt sketch idx).flowId = some id →
    id ∈ keys ∧ bucketIndex xxh sketch id = idx
  standing : ∀ flow, (bucketAt sketch (bucketIndex xxh sketch flow)).Standing (keys.count flow)
    deltas (spilled.count flow) flow
  named : ∀ delta ∈ deltas, ∀ flow, delta.Names flow → flow ∈ keys
  sound : ∀ delta ∈ deltas, delta.Sound (max rows 1) (max cols 1)
  cells : ∀ cell, OctoSketch.queuedAt (cellDeltas deltas) cell + sketch.light.counters.cellAt cell =
    spilledAt xxh rows cols spilled cell

variable {xxh : XxHash3} {bucketCount rows cols : ℕ} {keys spilled : List String}
  {sketch : ElasticWorkerSketch} {deltas : List ElasticDelta}

theorem account_new (xxh : XxHash3) (bucketCount rows cols : ℕ) :
    Account xxh bucketCount rows cols [] (new bucketCount rows cols) [] [] := by
  have untouched : ∀ idx, bucketAt (new bucketCount rows cols) idx =
      ElasticWorkerBucket.default := by
    intro idx
    simp only [bucketAt, new, List.getElem?_replicate]
    split <;> rfl
  refine ⟨List.length_replicate, rfl, rfl, fun cell => ?_, fun idx => ?_, fun idx _ id seated => ?_,
    fun flow => ?_, fun _ member => absurd member List.not_mem_nil,
    fun _ member => absurd member List.not_mem_nil, fun cell => ?_⟩
  · rw [show (new bucketCount rows cols).light.counters.cellAt cell = 0 from
      Vector2D.cellAt_filled _ _ cell]
    exact ⟨unsignedByte.residual_zero, fun _ => rfl⟩
  · rw [untouched]
    exact Nat.zero_le _
  · rw [untouched] at seated
    exact absurd seated (by simp [ElasticWorkerBucket.default])
  · rw [untouched]
    exact ⟨rfl, fun _ => ⟨rfl, rfl⟩, fun seated => absurd seated (by
      simp [ElasticWorkerBucket.default]), fun _ _ _ member => absurd member List.not_mem_nil,
      fun _ => Or.inr fun _ member => absurd member List.not_mem_nil, List.Pairwise.nil⟩
  · show (0 : ℤ) + (Vector2D.filled _ _ 0).cellAt cell = 0
    rw [Vector2D.cellAt_filled, add_zero]

section

variable (account : Account xxh bucketCount rows cols keys sketch deltas spilled)

include account

theorem Account.bucketIndex_lt (id : String) : bucketIndex xxh sketch id < sketch.heavy.length := by
  refine Nat.mod_lt _ ?_
  rw [account.sized]
  exact lt_of_lt_of_le Nat.one_pos (le_max_right _ _)

/-- A key that changes one bucket, which sends deltas under keys of its own. -/
theorem Account.store (id : String) {bucket : ElasticWorkerBucket} {sent : List ElasticDelta}
    (votes : bucket.votePos ≤ 126)
    (placed : ∀ resident, bucket.flowId = some resident → resident ∈ keys ++ [id] ∧
      bucketIndex xxh sketch resident = bucketIndex xxh sketch id)
    (standing : ∀ flow, bucketIndex xxh sketch flow = bucketIndex xxh sketch id →
      bucket.Standing (keys.count flow + arrives id flow) (deltas ++ sent) (spilled.count flow)
        flow)
    (named : ∀ delta ∈ sent, ∀ flow, delta.Names flow → flow ∈ keys ++ [id] ∧
      bucketIndex xxh sketch flow = bucketIndex xxh sketch id)
    (sound : ∀ delta ∈ sent, delta.Sound (max rows 1) (max cols 1)) (keyed : cellDeltas sent = []) :
    Account xxh bucketCount rows cols (keys ++ [id])
      (setBucket sketch (bucketIndex xxh sketch id) bucket) (deltas ++ sent) spilled := by
  have inside := account.bucketIndex_lt id
  have readAt := bucketAt_setBucket inside bucket
  have sameIndex : ∀ flow, bucketIndex xxh
      (setBucket sketch (bucketIndex xxh sketch id) bucket) flow = bucketIndex xxh sketch flow := by
    intro flow
    unfold bucketIndex setBucket
    rw [List.length_set]
  refine ⟨List.length_set.trans account.sized, account.lightRows, account.lightCols,
    account.settled, fun idx => ?_, fun idx idxInside resident seated => ?_, fun flow => ?_, ?_,
    ?_, fun cell => ?_⟩
  · rw [readAt]
    split
    · exact votes
    · exact account.votes idx
  · rw [readAt] at seated
    rw [sameIndex]
    by_cases same : bucketIndex xxh sketch id = idx
    · rw [if_pos same] at seated
      exact ⟨(placed resident seated).1, (placed resident seated).2.trans same⟩
    · rw [if_neg same] at seated
      have before := account.placed idx (List.length_set ▸ idxInside) resident seated
      exact ⟨List.mem_append_left [id] before.1, before.2⟩
  · rw [sameIndex, readAt, count_append_singleton]
    by_cases same : bucketIndex xxh sketch flow = bucketIndex xxh sketch id
    · rw [if_pos same.symm]
      exact standing flow same
    · have elsewhere : id ≠ flow := fun equal => same (congrArg _ equal.symm)
      rw [if_neg (Ne.symm same), arrives, if_neg elsewhere]
      exact (account.standing flow).append fun delta member names =>
        same (named delta member flow names).2
  · intro delta member flow names
    rcases List.mem_append.mp member with before | now
    · exact List.mem_append_left _ (account.named delta before flow names)
    · exact (named delta now flow names).1
  · exact List.forall_mem_append.mpr ⟨account.sound, sound⟩
  · rw [cellDeltas_append, keyed, List.append_nil]
    exact account.cells cell

/-- A key that another resident keeps out goes to every row of the light layer. -/
theorem Account.lose (addressable : rows ≤ 2 ^ 32) {id other : String}
    (seated : (bucketAt sketch (bucketIndex xxh sketch id)).flowId = some other)
    (apart : other ≠ id) (votes : ℤ) (threshold : ℕ)
    {result : ElasticWorkerSketch × List ElasticDelta}
    (spills : spill xxh (setBucket sketch (bucketIndex xxh sketch id)
      { bucketAt sketch (bucketIndex xxh sketch id) with voteNeg := votes }) id threshold =
        some result) :
    Account xxh bucketCount rows cols (keys ++ [id]) result.1 (deltas ++ result.2)
      (spilled ++ [id]) := by
  have inside := account.bucketIndex_lt id
  have readAt := bucketAt_setBucket inside
    { bucketAt sketch (bucketIndex xxh sketch id) with voteNeg := votes }
  have maxAddressable : max rows 1 ≤ 2 ^ 32 := max_le addressable (by decide)
  have maxPositive : 0 < max cols 1 := lt_of_lt_of_le Nat.one_pos (le_max_right _ _)
  have oneEach : (WorkerSketch.hashes xxh sketch.light.counters.rows (.str id)).length =
      sketch.light.counters.rows := by
    rw [WorkerSketch.hashes, List.length_map, List.length_range, account.lightRows]
    exact max_eq_left (le_max_right _ _)
  obtain ⟨inserted, processed, rfl⟩ := Option.map_eq_some_iff.mp spills
  obtain ⟨found, foundProcessed, settled, addressed, balanced⟩ :=
    WorkerSketch.insertHashesEmitDelta_spec account.settled
      (account.lightRows ▸ maxAddressable) (account.lightCols ▸ maxPositive) oneEach threshold
  obtain rfl : found = inserted := Option.some.inj (foundProcessed.symm.trans processed)
  obtain ⟨foundRows, foundCols⟩ := WorkerSketch.insertHashesEmitDelta_shape processed
  rw [account.lightRows, account.lightCols] at addressed
  have sameIndex : ∀ flow, bucketIndex xxh (setBucket sketch (bucketIndex xxh sketch id)
      { bucketAt sketch (bucketIndex xxh sketch id) with voteNeg := votes }) flow =
        bucketIndex xxh sketch flow := by
    intro flow
    unfold bucketIndex setBucket
    rw [List.length_set]
  have unnamed : ∀ flow, ∀ delta ∈ found.2.map ElasticDelta.light, ¬delta.Names flow := by
    intro flow delta member names
    obtain ⟨cell, _, rfl⟩ := List.mem_map.mp member
    exact names
  refine ⟨List.length_set.trans account.sized, foundRows.trans account.lightRows,
    foundCols.trans account.lightCols, settled, fun idx => ?_,
    fun idx idxInside resident seatedNow => ?_, fun flow => ?_, ?_, ?_, fun cell => ?_⟩
  · refine le_of_eq_of_le (congrArg ElasticWorkerBucket.votePos (readAt idx)) ?_
    split
    · rename_i same
      exact same ▸ account.votes (bucketIndex xxh sketch id)
    · exact account.votes idx
  · have seatedBefore : (bucketAt sketch idx).flowId = some resident := by
      rw [← seatedNow]
      refine Eq.trans ?_ (congrArg ElasticWorkerBucket.flowId (readAt idx)).symm
      split
      · rename_i same
        rw [same]
      · rfl
    have before := account.placed idx (List.length_set ▸ idxInside) resident seatedBefore
    exact ⟨List.mem_append_left [id] before.1, (sameIndex resident).trans before.2⟩
  · rw [count_append_singleton, count_append_singleton]
    have standing := account.standing flow
    change (bucketAt (setBucket sketch (bucketIndex xxh sketch id) _) (bucketIndex xxh
      (setBucket sketch (bucketIndex xxh sketch id) _) flow)).Standing _ _ _ _
    rw [sameIndex, readAt]
    by_cases same : bucketIndex xxh sketch id = bucketIndex xxh sketch flow
    · rw [if_pos same]
      rw [← same] at standing
      exact (standing.lose seated apart votes).append (unnamed flow)
    · have elsewhere : id ≠ flow := fun equal => same (congrArg _ equal)
      rw [if_neg same, arrives, if_neg elsewhere]
      exact standing.append (unnamed flow)
  · intro delta member flow names
    rcases List.mem_append.mp member with before | now
    · exact List.mem_append_left _ (account.named delta before flow names)
    · exact absurd names (unnamed flow delta now)
  · refine List.forall_mem_append.mpr ⟨account.sound, fun delta member => ?_⟩
    obtain ⟨cell, sentCell, rfl⟩ := List.mem_map.mp member
    exact addressed cell sentCell
  · have before := account.cells cell
    have now := balanced cell
    rw [account.lightCols, account.lightRows, WorkerSketch.hashes,
      max_eq_left (le_max_right rows 1)] at now
    have gained := OctoSketch.sum_rows (cmOcto xxh) (.str id) (max cols 1) (max rows 1) cell
    have total : spilledAt xxh rows cols (spilled ++ [id]) cell =
        spilledAt xxh rows cols spilled cell + (cmOcto xxh).gainOf rows cols (.str id) cell := by
      rw [spilledAt, List.map_append, List.sum_append, List.map_singleton, List.sum_singleton]
      rfl
    rw [cellDeltas_append, cellDeltas_light, OctoSketch.queuedAt, List.map_append,
      promotedAt_append, total]
    unfold OctoSketch.queuedAt at before
    unfold OctoSketch.gainOf
    change _ + (found.1.counters.cellAt cell) = _
    have sums := now.trans (congrArg (sketch.light.counters.cellAt cell + ·) gained)
    linarith only [before, sums]

end

theorem promoteHeavy_votes (bucket : ElasticWorkerBucket) (tau : ℕ) :
    (bucket.promoteHeavy (clampPromask tau)).1.votePos ≤ 126 := by
  have small := clampPromask_le tau
  unfold maxPromask at small
  unfold ElasticWorkerBucket.promoteHeavy
  split
  · rename_i below
    show bucket.votePos ≤ 126
    omega
  · exact Nat.zero_le _

theorem promoteHeavy_flowId (bucket : ElasticWorkerBucket) (threshold : ℕ) :
    (bucket.promoteHeavy threshold).1.flowId = bucket.flowId := by
  unfold ElasticWorkerBucket.promoteHeavy
  split <;> rfl

theorem flowId_of_names {bucket : ElasticWorkerBucket} {delta : ElasticDelta} {flow : String}
    (member : delta ∈ bucket.promotion) (names : delta.Names flow) : bucket.flowId = some flow := by
  obtain ⟨resident, inBucket, rfl⟩ := List.mem_map.mp member
  exact (Option.mem_toList.mp inBucket).trans (congrArg some names)

theorem mem_promoteHeavy {bucket : ElasticWorkerBucket} {threshold : ℕ} {delta : ElasticDelta}
    (member : delta ∈ (bucket.promoteHeavy threshold).2) : delta ∈ bucket.promotion := by
  unfold ElasticWorkerBucket.promoteHeavy at member
  split at member
  · exact absurd member List.not_mem_nil
  · exact member

theorem cellDeltas_promoteHeavy (bucket : ElasticWorkerBucket) (threshold : ℕ) :
    cellDeltas (bucket.promoteHeavy threshold).2 = [] := by
  unfold ElasticWorkerBucket.promoteHeavy
  split
  · rfl
  · exact cellDeltas_promotion bucket

theorem sound_promotion {bucket : ElasticWorkerBucket} (some : 0 < bucket.votePos)
    (rows cols : ℕ) : ∀ delta ∈ bucket.promotion, delta.Sound rows cols := by
  intro delta member
  obtain ⟨resident, _, rfl⟩ := List.mem_map.mp member
  exact some

theorem sound_promoteHeavy (bucket : ElasticWorkerBucket) (tau rows cols : ℕ) :
    ∀ delta ∈ (bucket.promoteHeavy (clampPromask tau)).2, delta.Sound rows cols := by
  unfold ElasticWorkerBucket.promoteHeavy
  split
  · exact fun _ member => absurd member List.not_mem_nil
  · rename_i reached
    exact sound_promotion ((clampPromask_pos tau).trans (not_lt.mp reached)) rows cols

theorem Account.insertEmitDelta (account : Account xxh bucketCount rows cols keys sketch deltas
    spilled) (addressable : rows ≤ 2 ^ 32) {id : String} {threshold : ℕ}
    {result : ElasticWorkerSketch × List ElasticDelta}
    (processed : sketch.insertEmitDelta xxh id threshold = some result) :
    ∃ spilled', Account xxh bucketCount rows cols (keys ++ [id]) result.1 (deltas ++ result.2)
      spilled' := by
  have arrived : id ∈ keys ++ [id] := List.mem_append_right keys List.mem_cons_self
  have ownKey : ∀ {bucket : ElasticWorkerBucket}, bucket.flowId = some id →
      ∀ delta ∈ (bucket.promoteHeavy (clampPromask threshold)).2, ∀ flow, delta.Names flow →
        flow ∈ keys ++ [id] ∧ bucketIndex xxh sketch flow = bucketIndex xxh sketch id := by
    intro bucket seated delta member flow names
    have same := flowId_of_names (mem_promoteHeavy member) names
    obtain rfl : id = flow := Option.some.inj (seated.symm.trans same)
    exact ⟨arrived, rfl⟩
  have ownPlace : ∀ {bucket : ElasticWorkerBucket}, bucket.flowId = some id → ∀ resident,
      (bucket.promoteHeavy (clampPromask threshold)).1.flowId = some resident →
        resident ∈ keys ++ [id] ∧ bucketIndex xxh sketch resident = bucketIndex xxh sketch id := by
    intro bucket seated resident found
    rw [promoteHeavy_flowId, seated] at found
    rw [← Option.some.inj found]
    exact ⟨arrived, rfl⟩
  simp only [ElasticWorkerSketch.insertEmitDelta] at processed
  split at processed
  · rename_i free
    rw [← Option.some.inj processed]
    refine ⟨spilled, account.store id (promoteHeavy_votes _ _) (ownPlace rfl) (fun flow same => ?_)
      (ownKey rfl) (sound_promoteHeavy _ _ _ _) (cellDeltas_promoteHeavy _ _)⟩
    have standing := account.standing flow
    rw [same] at standing
    exact (standing.seat free id).promoteHeavy _
  · rename_i resident seated
    split at processed
    · rename_i own
      subst own
      rw [← Option.some.inj processed]
      refine ⟨spilled, account.store resident (promoteHeavy_votes _ _) (ownPlace seated)
        (fun flow same => ?_) (ownKey seated) (sound_promoteHeavy _ _ _ _)
        (cellDeltas_promoteHeavy _ _)⟩
      have standing := account.standing flow
      rw [same] at standing
      have noWrap := account.votes (bucketIndex xxh sketch resident)
      rw [Nat.mod_eq_of_lt (by omega)]
      exact (standing.vote seated).promoteHeavy _
    · rename_i apart
      split at processed
      · exact ⟨_, account.lose addressable seated apart _ _ processed⟩
      · rw [← Option.some.inj processed]
        have placed := account.placed _ (account.bucketIndex_lt id) resident seated
        refine ⟨spilled, account.store id (promoteHeavy_votes _ _) (ownPlace rfl)
          (fun flow same => ?_) (fun delta member flow names => ?_)
          (List.forall_mem_cons.mpr ⟨trivial, sound_promoteHeavy _ _ _ _⟩) ?_⟩
        · have standing := account.standing flow
          rw [same] at standing
          have evicted := (standing.evict seated id).promoteHeavy (clampPromask threshold)
          rw [List.append_assoc] at evicted
          exact evicted
        · rcases List.mem_cons.mp member with rfl | promoted
          · obtain rfl : resident = flow := names
            exact ⟨List.mem_append_left [id] placed.1, placed.2⟩
          · exact ownKey rfl delta promoted flow names
        · exact cellDeltas_promoteHeavy _ _

theorem flowId_of_names_flush {bucket : ElasticWorkerBucket} {delta : ElasticDelta}
    {flow : String} (member : delta ∈ bucket.flush.2) (names : delta.Names flow) :
    bucket.flowId = some flow := by
  unfold ElasticWorkerBucket.flush at member
  split at member
  · exact absurd member List.not_mem_nil
  · exact flowId_of_names member names

theorem flush_flowId (bucket : ElasticWorkerBucket) : bucket.flush.1.flowId = bucket.flowId := by
  unfold ElasticWorkerBucket.flush
  split <;> rfl

theorem flush_votePos (bucket : ElasticWorkerBucket) : bucket.flush.1.votePos = 0 := by
  unfold ElasticWorkerBucket.flush
  split
  · assumption
  · rfl

theorem cellDeltas_flush (buckets : List ElasticWorkerBucket) :
    cellDeltas (buckets.flatMap fun bucket => bucket.flush.2) = [] := by
  refine List.filterMap_eq_nil_iff.mpr fun delta member => ?_
  obtain ⟨bucket, _, sentByBucket⟩ := List.mem_flatMap.mp member
  unfold ElasticWorkerBucket.flush at sentByBucket
  split at sentByBucket
  · exact absurd sentByBucket List.not_mem_nil
  · obtain ⟨resident, _, rfl⟩ := List.mem_map.mp sentByBucket
    rfl

theorem standing_flushAll {buckets : List ElasticWorkerBucket} {idx : ℕ}
    {bucket : ElasticWorkerBucket} (found : buckets[idx]? = some bucket) {flow : String}
    (others : ∀ place ≠ idx, ∀ other, buckets[place]? = some other → other.flowId ≠ some flow)
    {counted spilled : ℕ} {deltas : List ElasticDelta}
    (standing : bucket.Standing counted deltas spilled flow) :
    bucket.flush.1.Standing counted
      (deltas ++ buckets.flatMap fun bucket => bucket.flush.2) spilled flow := by
  induction buckets generalizing idx deltas with
  | nil => exact absurd found (by simp)
  | cons first rest hypothesis =>
    rw [List.flatMap_cons, ← List.append_assoc]
    cases idx with
    | zero =>
      obtain rfl : first = bucket := Option.some.inj found
      refine standing.flush.append fun delta member names => ?_
      obtain ⟨other, inRest, sentByOther⟩ := List.mem_flatMap.mp member
      obtain ⟨place, placed⟩ := List.getElem?_of_mem inRest
      exact others (place + 1) (Nat.succ_ne_zero place) other placed
        (flowId_of_names_flush sentByOther names)
    | succ place =>
      refine hypothesis found (fun elsewhere different other found =>
        others (elsewhere + 1) (fun same => different (Nat.succ.inj same)) other found) ?_
      refine standing.append fun delta member names => ?_
      exact others 0 (Nat.succ_ne_zero place).symm first rfl (flowId_of_names_flush member names)

/-- A flush keeps the account, and leaves no votes and no counters behind. -/
theorem Account.flush (account : Account xxh bucketCount rows cols keys sketch deltas spilled)
    (addressable : rows ≤ 2 ^ 32) : Account xxh bucketCount rows cols keys sketch.flush.1
      (deltas ++ sketch.flush.2) spilled := by
  have maxAddressable : max rows 1 ≤ 2 ^ 32 := max_le addressable (by decide)
  obtain ⟨settled, addressed, balanced⟩ := WorkerSketch.flush_spec account.settled
    (account.lightRows ▸ maxAddressable)
  rw [account.lightRows, account.lightCols] at addressed
  have readAt : ∀ idx, bucketAt sketch.flush.1 idx = (bucketAt sketch idx).flush.1 := by
    intro idx
    show ((sketch.heavy.map fun bucket => bucket.flush.1)[idx]?).getD _ = _
    rw [List.getElem?_map]
    unfold bucketAt
    cases sketch.heavy[idx]? with
    | none => rfl
    | some bucket => rfl
  have lengths : sketch.flush.1.heavy.length = sketch.heavy.length := List.length_map _
  have sameIndex : ∀ flow, bucketIndex xxh sketch.flush.1 flow = bucketIndex xxh sketch flow := by
    intro flow
    unfold bucketIndex
    rw [lengths]
  have unnamed : ∀ flow, ∀ delta ∈ sketch.light.flush.2.map ElasticDelta.light,
      ¬delta.Names flow := by
    intro flow delta member names
    obtain ⟨cell, _, rfl⟩ := List.mem_map.mp member
    exact names
  have foundAt : ∀ idx bucket, sketch.heavy[idx]? = some bucket →
      idx < sketch.heavy.length ∧ bucketAt sketch idx = bucket := by
    intro idx bucket found
    refine ⟨(List.getElem?_eq_some_iff.mp found).1, ?_⟩
    rw [bucketAt, found]
    rfl
  refine ⟨lengths.trans account.sized, (WorkerSketch.visitAll_rows _ _).trans account.lightRows,
    (WorkerSketch.visitAll_cols _ _).trans account.lightCols, settled, fun idx => ?_,
    fun idx inside id seated => ?_, fun flow => ?_, ?_, ?_, fun cell => ?_⟩
  · rw [readAt, flush_votePos]
    exact Nat.zero_le _
  · rw [readAt, flush_flowId] at seated
    rw [sameIndex]
    exact account.placed idx (lengths ▸ inside) id seated
  · rw [sameIndex, readAt]
    have inside := account.bucketIndex_lt flow
    have found : sketch.heavy[bucketIndex xxh sketch flow]? =
        some (bucketAt sketch (bucketIndex xxh sketch flow)) := by
      rw [bucketAt, List.getElem?_eq_getElem inside]
      rfl
    refine Eq.subst (motive := fun deltas => ElasticWorkerBucket.Standing _ _ deltas _ _)
      (List.append_assoc _ _ _) ((standing_flushAll found (fun place different other placed seated =>
        different ?_) (account.standing flow)).append (unnamed flow))
    obtain ⟨placeInside, rfl⟩ := foundAt place other placed
    exact (account.placed place placeInside flow seated).2.symm
  · intro delta member flow names
    rcases List.mem_append.mp member with before | now
    · exact account.named delta before flow names
    · rcases List.mem_append.mp now with heavy | light
      · obtain ⟨bucket, inHeavy, sentByBucket⟩ := List.mem_flatMap.mp heavy
        obtain ⟨idx, placed⟩ := List.getElem?_of_mem inHeavy
        obtain ⟨inside, rfl⟩ := foundAt idx bucket placed
        exact (account.placed idx inside flow (flowId_of_names_flush sentByBucket names)).1
      · exact absurd names (unnamed flow delta light)
  · refine List.forall_mem_append.mpr ⟨account.sound, List.forall_mem_append.mpr
      ⟨fun delta member => ?_, fun delta member => ?_⟩⟩
    · obtain ⟨bucket, _, sentByBucket⟩ := List.mem_flatMap.mp member
      unfold ElasticWorkerBucket.flush at sentByBucket
      split at sentByBucket
      · exact absurd sentByBucket List.not_mem_nil
      · rename_i some
        exact sound_promotion (Nat.pos_of_ne_zero some) _ _ delta sentByBucket
    · obtain ⟨cell, sentCell, rfl⟩ := List.mem_map.mp member
      exact addressed cell sentCell
  · have before := account.cells cell
    have now := balanced cell
    have sentCells : cellDeltas sketch.flush.2 = sketch.light.flush.2 := by
      show cellDeltas (_ ++ _) = _
      rw [cellDeltas_append, cellDeltas_flush, cellDeltas_light]
      rfl
    rw [cellDeltas_append, sentCells, OctoSketch.queuedAt, List.map_append, promotedAt_append]
    unfold OctoSketch.queuedAt at before
    change _ + sketch.light.flush.1.counters.cellAt cell = _
    linarith only [before, now]

/-- A worker that is flushed holds nothing back: every occurrence of a flow is carried by a
delta under its key or by one unit in each row of the light layer. -/
structure Emptied (sketch : ElasticWorkerSketch) : Prop where
  votes : ∀ idx, (bucketAt sketch idx).votePos = 0
  cells : ∀ cell, sketch.light.counters.cellAt cell = 0

theorem emptied_flush (sketch : ElasticWorkerSketch) : Emptied sketch.flush.1 := by
  refine ⟨fun idx => ?_, WorkerSketch.cellAt_flush sketch.light⟩
  show (((sketch.heavy.map fun (bucket : ElasticWorkerBucket) => bucket.flush.1)[idx]?).getD
    ElasticWorkerBucket.default).votePos = 0
  rw [List.getElem?_map]
  cases sketch.heavy[idx]? with
  | none => rfl
  | some bucket => exact flush_votePos bucket

theorem bucketAt_new (bucketCount rows cols idx : ℕ) :
    bucketAt (new bucketCount rows cols) idx = ElasticWorkerBucket.default := by
  simp only [bucketAt, new, List.getElem?_replicate]
  split <;> rfl

theorem emptied_new (bucketCount rows cols : ℕ) : Emptied (new bucketCount rows cols) := by
  refine ⟨fun idx => ?_, fun cell => Vector2D.cellAt_filled _ _ cell⟩
  rw [bucketAt_new]
  rfl

end ElasticWorkerSketch

end AsapSketchlib
