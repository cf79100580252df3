/-
This file proves what the Elastic sketch keeps of its one-sided guarantee over the Octo
pipeline. Under any routing the workers lose nothing, and the votes of a flow in the parent and
its light estimate together cover its inputs. A flow whose inputs all go to one worker is never
underestimated; a flow spread over two workers can be, when one of them holds it unflagged and
the other sends it through the light layer.
-/

import AsapSketchlib.ElasticOctoParent
import Mathlib.Algebra.BigOperators.Ring.Finset
import Mathlib.Algebra.Order.BigOperators.Group.Finset

namespace AsapSketchlib

open ElasticWorkerSketch OctoState

/-! ### Spilled units in a row -/

theorem gainOf_nonneg (xxh : XxHash3) (rows cols : ℕ) (input : DataInput) (cell : ℕ × ℕ) :
    0 ≤ (cmOcto xxh).gainOf rows cols input cell := by
  unfold OctoSketch.gainOf
  split
  · exact zero_le_one
  · exact le_rfl

theorem count_le_spilledAt (xxh : XxHash3) {rows cols row : ℕ} (inside : row < max rows 1)
    (spilled : List String) (flow : String) : (spilled.count flow : ℤ) ≤
      spilledAt xxh rows cols spilled
        (row, lower32Col (hash64Seeded xxh row (.str flow)) (max cols 1)) := by
  induction spilled with
  | nil => exact le_rfl
  | cons id rest hypothesis =>
    rw [List.count_cons, Nat.cast_add, add_comm, spilledAt, List.map_cons, List.sum_cons]
    refine add_le_add ?_ hypothesis
    by_cases own : id = flow
    · subst own
      rw [beq_self_eq_true, if_pos rfl, OctoSketch.gainOf, if_pos ⟨inside, rfl⟩]
      exact le_rfl
    · rw [if_neg (by simpa using own)]
      exact gainOf_nonneg xxh rows cols _ _

/-! ### Deltas of one worker among those received -/

theorem orderly_of_home {workers : ℕ} {home : Fin workers} {flow : String}
    {received : List (Fin workers × ElasticDelta)}
    (only : ∀ receipt ∈ received, receipt.2.Names flow → receipt.1 = home)
    (orderly : Orderly flow ((received.filter fun receipt => receipt.1 = home).map Prod.snd)) :
    Orderly flow (received.map Prod.snd) := by
  unfold Orderly at orderly ⊢
  rw [List.pairwise_map] at orderly ⊢
  rw [List.pairwise_filter] at orderly
  refine List.Pairwise.imp_of_mem (fun {early late} earlyMember lateMember order marks names => ?_)
    orderly
  exact order (by simpa using only early earlyMember marks.names)
    (by simpa using only late lateMember names) marks names

namespace ElasticOcto

variable {xxh : XxHash3} {display : FloatDisplay} {bucketCount lightRows lightCols workers : ℕ}

def keysOf (display : FloatDisplay) (inputs : List DataInput) : List String :=
  inputs.map (flowKeyString display)

theorem keysOf_append (first second : List DataInput) :
    keysOf display (first ++ second) = keysOf display first ++ keysOf display second :=
  List.map_append

theorem worker_account (addressable : lightRows ≤ 2 ^ 32)
    {start reached : ElasticOctoState workers} {events : List (OctoEvent DataInput workers)}
    {worker : Fin workers}
    (fresh : start.worker worker = ElasticWorkerSketch.new bucketCount lightRows lightCols)
    (ran : run (elasticOcto xxh display) events start = some reached) :
    ∃ spilled, Account xxh bucketCount lightRows lightCols
      (keysOf display (inputsOf worker events)) (reached.worker worker)
      (sent (elasticOcto xxh display) worker events start) spilled := by
  refine worker_history (motive := fun inputs sketch deltas => ∃ spilled,
    Account xxh bucketCount lightRows lightCols (keysOf display inputs) sketch deltas spilled)
    ⟨[], ?_⟩ (fun inputs sketch deltas threshold input result held processed => ?_)
    (fun inputs sketch deltas held => ?_) ran
  · rw [fresh]
    exact account_new xxh bucketCount lightRows lightCols
  · obtain ⟨spilled, account⟩ := held
    rw [keysOf_append]
    exact account.insertEmitDelta addressable processed
  · obtain ⟨spilled, account⟩ := held
    exact ⟨spilled, account.flush addressable⟩

def occurrences (display : FloatDisplay) (events : List (OctoEvent DataInput workers))
    (flow : String) : ℕ :=
  (keysOf display (OctoEvent.inputs events)).count flow

theorem occurrences_eq_sum (events : List (OctoEvent DataInput workers)) (flow : String) :
    occurrences display events flow =
      ∑ worker, (keysOf display (inputsOf worker events)).count flow := by
  have parts := OctoState.sum_parts (fun inputs => (keysOf display inputs).count flow) rfl
    (fun first second => by rw [keysOf_append, List.count_append]) (routed events)
  rw [map_routed] at parts
  refine parts.trans (Finset.sum_congr rfl fun worker _ => ?_)
  rw [filter_routed]

/-- What a run comes to once every worker has flushed and every queue is empty: the deltas each
worker has sent carry each of its inputs once, and the parent has heard them all. -/
structure Settled (xxh : XxHash3) (display : FloatDisplay) (lightRows lightCols : ℕ)
    (start reached : ElasticOctoState workers) (events : List (OctoEvent DataInput workers)) :
    Prop where
  worker : ∀ worker, ∃ spilled, (∀ flow,
      (keysOf display (OctoState.inputsOf worker events)).count flow =
        carriedIn (OctoState.sent (elasticOcto xxh display) worker events start) flow +
          spilled.count flow) ∧
    ∀ cell, OctoSketch.queuedAt
        (cellDeltas (OctoState.sent (elasticOcto xxh display) worker events start)) cell =
      spilledAt xxh lightRows lightCols spilled cell
  parent : Elastic.ParentAccount xxh lightRows lightCols
    ((OctoState.received (elasticOcto xxh display) events start).map Prod.snd) reached.parent

section Run

variable {tau : ℕ} {start reached : ElasticOctoState workers}
  {events : List (OctoEvent DataInput workers)}

theorem parentAccount_start (xxh : XxHash3)
    (started : elasticOctoStart bucketCount lightRows lightCols workers tau = some start) :
    (0 < lightRows ∧ 0 < lightCols) ∧
      (∀ worker, start.worker worker =
        ElasticWorkerSketch.new bucketCount lightRows lightCols ∧ start.queue worker = []) ∧
      Elastic.ParentAccount xxh lightRows lightCols [] start.parent := by
  obtain ⟨parent, initialised, rfl⟩ := Option.map_eq_some_iff.mp started
  unfold Elastic.initWithDimensions at initialised
  split at initialised
  case isFalse => exact absurd initialised (by simp)
  rename_i dimensions
  obtain rfl := Option.some.inj initialised
  have allNew : ∀ idx, Elastic.bucketAt (Elastic.mk (List.replicate bucketCount HeavyBucket.new)
      (CountMin.withDimensions lightRows lightCols) bucketCount false) idx = HeavyBucket.new := by
    intro idx
    simp only [Elastic.bucketAt, List.getElem?_replicate]
    split <;> rfl
  refine ⟨dimensions.2, fun worker => ⟨rfl, rfl⟩, ⟨List.length_replicate, dimensions.1, rfl, rfl,
    rfl, fun idx => ?_⟩, fun flow row inside => ?_, fun flow => ?_⟩
  · refine le_of_eq_of_le rfl (le_of_le_of_eq ?_ (congrArg HeavyBucket.votePos (allNew idx)).symm)
    exact le_rfl
  · show (0 : ℤ) + 0 ≤ Elastic.seatedVotes (Elastic.bucketAt (Elastic.mk _ _ _ _) _) flow +
      (Vector2D.filled lightRows lightCols 0).queryOneCounter _ _
    rw [allNew, Vector2D.queryOneCounter_filled, Elastic.seatedVotes]
    simp [HeavyBucket.new]
  · refine Eq.subst (motive := fun bucket => Elastic.Heard bucket [] flow) (allNew _).symm ?_
    exact ⟨fun seats => absurd rfl seats.1, fun _ seats => absurd rfl seats.1, fun _ _ _ => rfl⟩

section

variable (started : elasticOctoStart bucketCount lightRows lightCols workers tau = some start)
  (ran : run (elasticOcto xxh display) events start = some reached)

include started ran

theorem received_eq_sent (drained : ∀ worker, reached.queue worker = []) (worker : Fin workers) :
    ((OctoState.received (elasticOcto xxh display) events start).filter
        fun receipt => receipt.1 = worker).map Prod.snd =
      sent (elasticOcto xxh display) worker events start := by
  have fresh := ((parentAccount_start xxh started).2.1 worker).2
  rw [sent_eq_received fresh ran, drained, List.append_nil]

theorem mem_sent_of_received (drained : ∀ worker, reached.queue worker = [])
    {receipt : Fin workers × ElasticDelta}
    (member : receipt ∈ OctoState.received (elasticOcto xxh display) events start) :
    receipt.2 ∈ sent (elasticOcto xxh display) receipt.1 events start := by
  rw [← received_eq_sent started ran drained receipt.1]
  exact List.mem_map.mpr ⟨receipt, List.mem_filter.mpr ⟨member, by simp⟩, rfl⟩

theorem emptied_of_flushed {worker : Fin workers}
    (flushed : flushed worker events = true) :
    Emptied (reached.worker worker) := by
  refine flushed_history (motive := Emptied) ?_ emptied_flush ran flushed
  rw [((parentAccount_start xxh started).2.1 worker).1]
  exact emptied_new bucketCount lightRows lightCols

end

theorem settled_of_flushed (addressable : lightRows ≤ 2 ^ 32)
    (started : elasticOctoStart bucketCount lightRows lightCols workers tau = some start)
    (ran : run (elasticOcto xxh display) events start = some reached)
    (flushed : ∀ worker, flushed worker events = true)
    (drained : ∀ worker, reached.queue worker = []) :
    Settled xxh display lightRows lightCols start reached events := by
  obtain ⟨dimensions, fresh, parentFresh⟩ := parentAccount_start xxh started
  refine ⟨fun worker => ?_, ?_⟩
  · obtain ⟨spilled, account⟩ := worker_account addressable (fresh worker).1 ran
    have emptied := emptied_of_flushed started ran (flushed worker)
    refine ⟨spilled, fun flow => ?_, fun cell => ?_⟩
    · have balanced := (account.standing flow).balanced
      rw [ElasticWorkerBucket.held, emptied.votes, ite_self, Nat.add_zero] at balanced
      exact balanced
    · have cells := account.cells cell
      rw [emptied.cells, add_zero] at cells
      exact cells
  · refine parent_history (motive := fun deltas parent =>
      (∀ delta ∈ deltas, delta.Sound lightRows lightCols) →
        Elastic.ParentAccount xxh lightRows lightCols deltas parent)
      (fun _ => parentFresh) (fun deltas parent threshold delta held sound => ?_) ran
      fun delta member => ?_
    · obtain ⟨earlier, last⟩ := List.forall_mem_append.mp sound
      exact (held earlier).applyDelta dimensions.2 (last delta List.mem_cons_self)
    · obtain ⟨receipt, received, rfl⟩ := List.mem_map.mp member
      obtain ⟨spilled, account⟩ := worker_account addressable (fresh receipt.1).1 ran
      have sound := account.sound receipt.2 (mem_sent_of_received started ran drained received)
      rw [max_eq_left dimensions.1, max_eq_left dimensions.2] at sound
      exact sound

/-- Under any routing, the votes of a flow in the parent and its light estimate cover its
inputs. -/
theorem Settled.occurrences_le {start reached : ElasticOctoState workers}
    (settled : Settled xxh display lightRows lightCols start reached events)
    (received : ∀ worker, ((OctoState.received (elasticOcto xxh display) events start).filter
        fun receipt => receipt.1 = worker).map Prod.snd =
      sent (elasticOcto xxh display) worker events start)
    (dimensions : 0 < lightRows ∧ 0 < lightCols) (flow : String) :
    (occurrences display events flow : ℤ) ≤
      Elastic.seatedVotes (Elastic.bucketAt reached.parent (Elastic.bucketIndex
        (defaultXxHasher xxh) reached.parent flow)) flow +
        Elastic.lightEstimate (defaultXxHasher xxh) reached.parent flow := by
  have grounded := settled.parent.grounded
  have someRow : 0 < reached.parent.light.counts.rows := grounded.lightRows.symm ▸ dimensions.1
  rw [← sub_le_iff_le_add']
  refine (CountMin.le_estimate_iff someRow (.string flow) _).mpr fun row inside => ?_
  rw [grounded.lightRows] at inside
  rw [sub_le_iff_le_add']
  refine le_trans ?_ (settled.parent.weighed flow row inside)
  have carried := OctoState.sum_parts (fun deltas => (carriedIn deltas flow : ℤ)) rfl
    (fun first second => by rw [carriedIn_append, Nat.cast_add])
    (OctoState.received (elasticOcto xxh display) events start)
  have queued := OctoState.sum_parts (fun deltas => OctoSketch.queuedAt (cellDeltas deltas)
    (row, lower32Col (hash64Seeded xxh row (.str flow)) lightCols)) rfl
    (fun first second => by rw [cellDeltas_append, OctoSketch.queuedAt, List.map_append,
      Promotion.promotedAt_append]; rfl)
    (OctoState.received (elasticOcto xxh display) events start)
  rw [carried, queued, ← Finset.sum_add_distrib, occurrences_eq_sum, Nat.cast_sum]
  refine Finset.sum_le_sum fun worker _ => ?_
  obtain ⟨spilled, balanced, cells⟩ := settled.worker worker
  have inRow : (spilled.count flow : ℤ) ≤ spilledAt xxh lightRows lightCols spilled
      (row, lower32Col (hash64Seeded xxh row (.str flow)) (max lightCols 1)) :=
    count_le_spilledAt xxh (lt_of_lt_of_le inside (le_max_left _ _)) spilled flow
  rw [max_eq_left dimensions.2] at inRow
  rw [received, balanced, cells, Nat.cast_add]
  exact add_le_add_right inRow _

theorem exists_routed_of_mem {worker : Fin workers} {flow : String}
    (member : flow ∈ keysOf display (inputsOf worker events)) :
    ∃ entry ∈ routed events,
      flowKeyString display entry.2 = flow ∧ entry.1 = worker := by
  obtain ⟨input, handled, key⟩ := List.mem_map.mp member
  rw [← filter_routed] at handled
  obtain ⟨entry, inRouted, rfl⟩ := List.mem_map.mp handled
  obtain ⟨routed, own⟩ := List.mem_filter.mp inRouted
  exact ⟨entry, routed, key, by simpa using own⟩

/-- While the flag of its bucket is down, the votes of a flow that only one worker handles are
all its inputs. -/
theorem occurrences_le_votes (addressable : lightRows ≤ 2 ^ 32)
    (started : elasticOctoStart bucketCount lightRows lightCols workers tau = some start)
    (ran : run (elasticOcto xxh display) events start = some reached)
    (flushed : ∀ worker, flushed worker events = true)
    (drained : ∀ worker, reached.queue worker = []) {flow : String} {home : Fin workers}
    (only : ∀ entry ∈ routed events, flowKeyString display entry.2 = flow →
      entry.1 = home)
    {bucket : HeavyBucket} (heard : Elastic.Heard bucket
      ((OctoState.received (elasticOcto xxh display) events start).map Prod.snd) flow)
    (seats : bucket.Seats flow) (down : bucket.eviction = false) :
    (occurrences display events flow : ℤ) ≤ bucket.votePos := by
  obtain ⟨_, fresh, _⟩ := parentAccount_start xxh started
  obtain ⟨spilled, account⟩ := worker_account addressable (fresh home).1 ran
  have standing := account.standing flow
  have balanced := standing.balanced
  rw [ElasticWorkerBucket.held, (emptied_of_flushed started ran (flushed home)).votes, ite_self,
    Nat.add_zero] at balanced
  have homeOnly : ∀ worker, flow ∈ keysOf display (inputsOf worker events) →
      worker = home := by
    intro worker member
    obtain ⟨entry, routed, key, rfl⟩ := exists_routed_of_mem member
    exact only entry routed key
  have namedByHome : ∀ receipt ∈ OctoState.received (elasticOcto xxh display) events start,
      receipt.2.Names flow → receipt.1 = home := by
    intro receipt member names
    obtain ⟨_, other⟩ := worker_account addressable (fresh receipt.1).1 ran
    exact homeOnly _ (other.named receipt.2 (mem_sent_of_received started ran drained member) flow
      names)
  have ordered : Orderly flow
      ((OctoState.received (elasticOcto xxh display) events start).map Prod.snd) := by
    refine orderly_of_home namedByHome ?_
    rw [received_eq_sent started ran drained]
    exact standing.orderly
  obtain ⟨unmarked, votes⟩ := heard.clear ordered seats down
  have inReceived : ∀ delta ∈ sent (elasticOcto xxh display) home events start,
      delta ∈ (OctoState.received (elasticOcto xxh display) events start).map Prod.snd := by
    intro delta member
    rw [← received_eq_sent started ran drained] at member
    obtain ⟨receipt, inHome, rfl⟩ := List.mem_map.mp member
    exact List.mem_map_of_mem (List.mem_filter.mp inHome).1
  have namedAtHome : ∃ delta ∈ sent (elasticOcto xxh display) home events start,
      delta.Names flow := by
    obtain ⟨delta, member, names⟩ := heard.named seats
    obtain ⟨receipt, inReceipts, rfl⟩ := List.mem_map.mp member
    exact ⟨receipt.2, namedByHome receipt inReceipts names ▸
      mem_sent_of_received started ran drained inReceipts, names⟩
  obtain ⟨named, namedMember, names⟩ := namedAtHome
  -- The worker of the flow has marked nothing either, so it never let the flow go.
  have noSpill : spilled.count flow = 0 := by
    by_cases flagged : (ElasticWorkerSketch.bucketAt (reached.worker home)
        (ElasticWorkerSketch.bucketIndex xxh (reached.worker home) flow)).eviction = true
    · rcases standing.flagged flagged with ⟨mark, member, marks⟩ | unnamed
      · exact absurd marks (unmarked mark (inReceived mark member))
      · exact absurd names (unnamed named namedMember)
    · by_cases resident : (ElasticWorkerSketch.bucketAt (reached.worker home)
          (ElasticWorkerSketch.bucketIndex xxh (reached.worker home) flow)).flowId = some flow
      · exact (standing.resident resident (Bool.eq_false_iff.mpr flagged)).1
      · exact absurd names
          (standing.stranger resident (Bool.eq_false_iff.mpr flagged) named namedMember)
  have allHome : occurrences display events flow =
      (keysOf display (inputsOf home events)).count flow := by
    rw [occurrences_eq_sum]
    refine Finset.sum_eq_single home (fun worker _ different => ?_) fun outside =>
      absurd (Finset.mem_univ home) outside
    exact List.count_eq_zero.mpr fun member => different (homeOnly worker member)
  have carried := OctoState.sum_parts (fun deltas => carriedIn deltas flow) rfl
    (fun first second => carriedIn_append first second flow)
    (OctoState.received (elasticOcto xxh display) events start)
  have share : carriedIn (sent (elasticOcto xxh display) home events start) flow ≤
      carriedIn ((OctoState.received (elasticOcto xxh display) events start).map Prod.snd) flow := by
    rw [carried, ← received_eq_sent started ran drained home]
    exact Finset.single_le_sum (f := fun worker => carriedIn (((OctoState.received
      (elasticOcto xxh display) events start).filter fun receipt => receipt.1 = worker).map
        Prod.snd) flow) (fun _ _ => Nat.zero_le _) (Finset.mem_univ home)
  rw [allHome, balanced, noSpill, Nat.add_zero]
  exact (Int.ofNat_le.mpr share).trans votes

end Run

end ElasticOcto

open ElasticOcto in
/-- Once every worker has flushed and every queue is empty, the workers have sent each of their
inputs once, under its key or as one unit in each row of the light layer; under any routing the
votes of a flow in the parent and its light estimate cover its inputs; and a flow whose inputs
all went to one worker is not underestimated. -/
theorem elastic_octo_guarantee (xxh : XxHash3) (display : FloatDisplay)
    {bucketCount lightRows lightCols workers tau : ℕ} (addressable : lightRows ≤ 2 ^ 32)
    {start reached : ElasticOctoState workers}
    (started : elasticOctoStart bucketCount lightRows lightCols workers tau = some start)
    {events : List (OctoEvent DataInput workers)}
    (ran : OctoState.run (elasticOcto xxh display) events start = some reached)
    (flushed : ∀ worker, OctoState.flushed worker events = true)
    (drained : ∀ worker, reached.queue worker = []) :
    (∀ worker, ∃ spilled, (∀ flow,
        (keysOf display (OctoState.inputsOf worker events)).count flow =
          carriedIn (OctoState.sent (elasticOcto xxh display) worker events start) flow +
            spilled.count flow) ∧
      ∀ cell, OctoSketch.queuedAt
          (cellDeltas (OctoState.sent (elasticOcto xxh display) worker events start)) cell =
        spilledAt xxh lightRows lightCols spilled cell) ∧
    (∀ flow, (occurrences display events flow : ℤ) ≤
      Elastic.seatedVotes (Elastic.bucketAt reached.parent (Elastic.bucketIndex
        (defaultXxHasher xxh) reached.parent flow)) flow +
        Elastic.lightEstimate (defaultXxHasher xxh) reached.parent flow) ∧
    ∀ flow home, (∀ entry ∈ OctoState.routed events, flowKeyString display entry.2 = flow →
        entry.1 = home) →
      (occurrences display events flow : ℤ) ≤
        Elastic.query (defaultXxHasher xxh) reached.parent flow := by
  have settled := settled_of_flushed addressable started ran flushed drained
  have covered := settled.occurrences_le (received_eq_sent started ran drained)
    (parentAccount_start xxh started).1
  refine ⟨settled.worker, covered, fun flow home only => ?_⟩
  have coveredHere := covered flow
  rw [Elastic.query_eq_answer]
  by_cases seats : (Elastic.bucketAt reached.parent (Elastic.bucketIndex (defaultXxHasher xxh)
      reached.parent flow)).Seats flow
  · rw [HeavyBucket.answer_of_seats seats]
    rw [Elastic.seatedVotes, if_pos seats.2] at coveredHere
    split
    · exact coveredHere
    · rename_i down
      exact occurrences_le_votes addressable started ran flushed drained only
        (settled.parent.heard flow) seats (Bool.eq_false_iff.mpr down)
  · have noVotes : Elastic.seatedVotes (Elastic.bucketAt reached.parent (Elastic.bucketIndex
        (defaultXxHasher xxh) reached.parent flow)) flow = 0 := by
      unfold Elastic.seatedVotes
      split
      · rename_i resident
        by_contra votes
        exact seats ⟨votes, resident⟩
      · rfl
    rw [HeavyBucket.answer_of_not_seats seats]
    rw [noVotes, zero_add] at coveredHere
    exact coveredHere

/-! ### Two workers in turn -/

/-- A display that no key of the runs below uses. -/
def noFloats : FloatDisplay := ⟨fun _ => "", fun _ => ""⟩

/-- Four inputs dealt to two workers in turn: the first flow is resident at one worker, and
loses to the second flow at the other. -/
def dealtInTurn : List (OctoEvent DataInput 2) :=
  [.data 0 (.str "first"), .data 1 (.str "second"), .data 0 (.str "first"),
    .data 1 (.str "first"), .flush 0, .flush 1, .apply 0, .apply 1, .apply 1]

theorem elastic_octo_low_in_turn : ∃ start reached : ElasticOctoState 2,
    elasticOctoStart 1 1 1 2 31 = some start ∧
    OctoState.run (elasticOcto plainXxHash noFloats) dealtInTurn start = some reached ∧
    (OctoState.routed dealtInTurn).zipIdx.map (fun entry => entry.1.1.val) =
      (OctoState.routed dealtInTurn).zipIdx.map (fun entry =>
        OctoPartition.roundRobin.workerFor plainXxHash 2 entry.2 entry.1.2) ∧
    (∀ worker, OctoState.flushed worker dealtInTurn = true) ∧
    (∀ worker, reached.queue worker = []) ∧
    Elastic.query (defaultXxHasher plainXxHash) reached.parent "first" = 2 ∧
    ElasticOcto.occurrences noFloats dealtInTurn "first" = 3 := by
  refine ⟨_, _, rfl, rfl, ?_, ?_, ?_, ?_, ?_⟩
  · decide
  · decide
  · exact Fin.forall_fin_two.mpr ⟨rfl, rfl⟩
  · rfl
  · decide

def inTurnStart : ElasticOctoState 2 :=
  OctoState.start (clampPromask 31) (fun _ => ElasticWorkerSketch.new 1 1 1)
    ⟨List.replicate 1 HeavyBucket.new, CountMin.withDimensions 1 1, 1, false⟩

/-- In the same run, the flow that only one of the workers handled is not underestimated. -/
theorem elastic_octo_guarantee_in_turn : ∃ start reached : ElasticOctoState 2,
    elasticOctoStart 1 1 1 2 31 = some start ∧
    OctoState.run (elasticOcto plainXxHash noFloats) dealtInTurn start = some reached ∧
    (ElasticOcto.occurrences noFloats dealtInTurn "second" : ℤ) ≤
      Elastic.query (defaultXxHasher plainXxHash) reached.parent "second" := by
  have started : elasticOctoStart 1 1 1 2 31 = some inTurnStart := rfl
  have ran : OctoState.run (elasticOcto plainXxHash noFloats) dealtInTurn inTurnStart = some _ :=
    rfl
  have guarantee := elastic_octo_guarantee plainXxHash noFloats (by decide) started ran
    (by decide) (Fin.forall_fin_two.mpr ⟨rfl, rfl⟩)
  exact ⟨_, _, started, ran, guarantee.2.2 "second" 1 (by decide)⟩

end AsapSketchlib
