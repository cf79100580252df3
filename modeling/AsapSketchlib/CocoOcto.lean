/-
This file models the Coco sketch over the Octo pipeline: workers that keep the whole table with
one-byte counters, the deltas that carry the key a bucket stands for, and the aggregator that
inserts what it receives into a full table.

Every random number comes from a sequence of lotteries, one sequence for each worker and one for
the aggregator, so that what holds for all sequences holds for every outcome.
-/

import AsapSketchlib.Coco
import AsapSketchlib.ElasticOcto

namespace AsapSketchlib

open CocoBucket

/-! ### Workers -/

structure CocoDelta where
  key : String
  value : ℕ

/-- `CocoWorkerSketch`: keys and one-byte counters, side by side. -/
structure CocoWorkerSketch where
  w : ℕ
  d : ℕ
  buckets : List CocoBucket
  sized : buckets.length = d * w

namespace CocoWorkerSketch

def new (w d : ℕ) : CocoWorkerSketch where
  w := w
  d := d
  buckets := List.replicate (d * w) CocoBucket.new
  sized := List.length_replicate

def setCell (sketch : CocoWorkerSketch) (cell : ℕ) (bucket : CocoBucket) : CocoWorkerSketch where
  w := sketch.w
  d := sketch.d
  buckets := sketch.buckets.set cell bucket
  sized := (List.length_set).trans sketch.sized

/-- What a bucket promotes, under the key it names. -/
def promotion (bucket : CocoBucket) : List CocoDelta :=
  bucket.fullKey.toList.map fun resident => ⟨resident, bucket.val⟩

/-- Inserts a key. The bucket that reaches the threshold is emitted and cleared. -/
def insertEmitDelta (xxh : XxHash3) (sketch : CocoWorkerSketch) (key : String) (threshold : ℕ)
    (lottery : Lottery) : Option (CocoWorkerSketch × List CocoDelta) :=
  if sketch.d = 0 ∨ sketch.w = 0 then some (sketch, [])
  else
    (CocoBucket.settle 255 sketch.buckets sketch.d
      (Coco.cellOf (defaultXxHasher xxh) sketch.w key) key 1 lottery).map fun update =>
        if clampPromask threshold ≤ update.2.val then
          (sketch.setCell update.1 { update.2 with val := 0 }, promotion update.2)
        else (sketch.setCell update.1 update.2, [])

def residue (bucket : CocoBucket) : List CocoDelta :=
  if bucket.val = 0 then [] else promotion bucket

/-- Promotes and clears every bucket, leaving the keys. -/
def flush (sketch : CocoWorkerSketch) : CocoWorkerSketch × List CocoDelta :=
  ({ w := sketch.w
     d := sketch.d
     buckets := sketch.buckets.map fun bucket => { bucket with val := 0 }
     sized := (List.length_map _).trans sketch.sized },
    sketch.buckets.flatMap residue)

def carried (deltas : List CocoDelta) : ℕ := (deltas.map CocoDelta.value).sum

/-- A worker between two messages: its keys are at home and its counters below the greatest
threshold. -/
structure Ready (xxh : XxHash3) (w d : ℕ) (sketch : CocoWorkerSketch) : Prop where
  width : sketch.w = w
  depth : sketch.d = d
  housed : CocoBucket.Housed 255 d (Coco.cellOf (defaultXxHasher xxh) w) sketch.buckets
  below : ∀ cell, (CocoBucket.bucketAt sketch.buckets cell).val < maxPromask

variable {xxh : XxHash3} {w d : ℕ} {sketch : CocoWorkerSketch}

theorem ready_new (xxh : XxHash3) (w d : ℕ) : (new w d).Ready xxh w d where
  width := rfl
  depth := rfl
  housed := housed_replicate _ _ _ _
  below := fun cell => by
    show (bucketAt (List.replicate _ _) cell).val < maxPromask
    rw [bucketAt_replicate]
    exact show 0 < 127 by decide

theorem carried_promotion {bucket : CocoBucket} (named : bucket.fullKey ≠ none) :
    carried (promotion bucket) = bucket.val := by
  obtain ⟨key, keyEq⟩ := Option.ne_none_iff_exists'.mp named
  rw [promotion, keyEq]
  exact Nat.add_zero bucket.val

theorem Ready.cleared (ready : sketch.Ready xxh w d) {key : String} {cell : ℕ} {bucket : CocoBucket}
    (settled : CocoBucket.Settled 255 d sketch.buckets
      (Coco.cellOf (defaultXxHasher xxh) w key) key 1 cell bucket)
    (inside : cell < sketch.buckets.length) :
    (sketch.setCell cell { bucket with val := 0 }).Ready xxh w d ∧
      weight (sketch.buckets.set cell { bucket with val := 0 }) + bucket.val =
        weight sketch.buckets + 1 := by
  have written := ready.housed.settled settled inside
  have stillInside : cell < (sketch.buckets.set cell bucket).length := by
    rwa [List.length_set]
  have sameKey : bucket.fullKey =
      (bucketAt (sketch.buckets.set cell bucket) cell).fullKey := by
    rw [bucketAt_set inside, if_pos rfl]
  have emptied : CocoBucket.Housed 255 d (Coco.cellOf (defaultXxHasher xxh) w)
      (sketch.buckets.set cell { bucket with val := 0 }) := by
    rw [← List.set_set bucket]
    exact written.revalue stillInside sameKey (fun _ => rfl) (Nat.zero_le 255)
  refine ⟨⟨ready.width, ready.depth, emptied, fun other => ?_⟩, ?_⟩
  · show (bucketAt (sketch.buckets.set cell _) other).val < maxPromask
    rw [bucketAt_set inside]
    split
    · exact show 0 < 127 by decide
    · exact ready.below other
  · have replaced := weight_set inside { bucket with val := 0 }
    rw [Nat.add_zero] at replaced
    rw [settled.val, ← Nat.add_assoc, replaced]

/-- A worker that is ready handles every key: the unit is kept or emitted. -/
theorem Ready.insertEmitDelta (ready : sketch.Ready xxh w d) (widePositive : 0 < w)
    (deepPositive : 0 < d) (key : String) (threshold : ℕ) (lottery : Lottery) :
    ∃ result, sketch.insertEmitDelta xxh key threshold lottery = some result ∧
      result.1.Ready xxh w d ∧
      weight result.1.buckets + carried result.2 =
        weight sketch.buckets + 1 := by
  have fits : ∀ cell, (bucketAt sketch.buckets cell).val + 1 ≤ 255 := fun cell =>
    (Nat.succ_le_of_lt (ready.below cell)).trans (show 127 ≤ 255 by decide)
  obtain ⟨update, settledEq⟩ := Option.isSome_iff_exists.mp
    (settle_isSome fits d (Coco.cellOf (defaultXxHasher xxh) w key) key lottery)
  have settled := settle_spec ready.housed.bounded deepPositive settledEq
  have inside : update.1 < sketch.buckets.length := by
    obtain ⟨row, rowIn, home⟩ := settled.home
    rw [← home, sketch.sized, ready.depth, ready.width]
    exact Grid.position_lt rowIn (Coco.colOf_lt _ widePositive key row)
  have notEmpty : ¬(sketch.d = 0 ∨ sketch.w = 0) := by
    rw [ready.depth, ready.width]
    exact fun empty => empty.elim (Nat.ne_of_gt deepPositive) (Nat.ne_of_gt widePositive)
  unfold CocoWorkerSketch.insertEmitDelta
  rw [if_neg notEmpty, ready.depth, ready.width, settledEq]
  by_cases reaches : clampPromask threshold ≤ update.2.val
  · refine ⟨_, congrArg some (if_pos reaches), (ready.cleared settled inside).1, ?_⟩
    rw [carried_promotion settled.keyed]
    exact (ready.cleared settled inside).2
  · refine ⟨_, congrArg some (if_neg reaches), ⟨ready.width, ready.depth,
      ready.housed.settled settled inside, fun other => ?_⟩, settled.weight inside⟩
    show (bucketAt (sketch.buckets.set _ _) other).val < maxPromask
    rw [bucketAt_set inside]
    split
    · exact (Nat.lt_of_not_le reaches).trans_le (clampPromask_le threshold)
    · exact ready.below other

theorem bucketAt_cleared (buckets : List CocoBucket) (cell : ℕ) :
    bucketAt (buckets.map fun bucket => { bucket with val := 0 }) cell =
      { bucketAt buckets cell with val := 0 } := by
  rw [bucketAt, bucketAt, List.getD_eq_getElem?_getD,
    List.getD_eq_getElem?_getD, List.getElem?_map]
  cases buckets[cell]? with
  | none => rfl
  | some bucket => rfl

theorem weight_cleared (buckets : List CocoBucket) :
    weight (buckets.map fun bucket => { bucket with val := 0 }) = 0 := by
  refine List.sum_eq_zero fun value member => ?_
  obtain ⟨cleared, inTable, rfl⟩ := List.mem_map.mp member
  obtain ⟨bucket, -, rfl⟩ := List.mem_map.mp inTable
  rfl

theorem carried_residue {buckets : List CocoBucket}
    (keyed : ∀ bucket ∈ buckets, bucket.fullKey = none → bucket.val = 0) :
    carried (buckets.flatMap residue) = weight buckets := by
  induction buckets with
  | nil => rfl
  | cons bucket rest hypothesis =>
    have others := hypothesis fun other inRest =>
      keyed other (List.mem_cons_of_mem bucket inRest)
    have emitted : carried (residue bucket) = bucket.val := by
      unfold residue
      by_cases empty : bucket.val = 0
      · rw [if_pos empty, empty]
        rfl
      · rw [if_neg empty]
        exact carried_promotion fun unnamed => empty (keyed bucket List.mem_cons_self unnamed)
    have joined : carried (residue bucket ++ rest.flatMap residue) =
        carried (residue bucket) + carried (rest.flatMap residue) := by
      unfold carried
      rw [List.map_append, List.sum_append]
    rw [List.flatMap_cons, joined, others, emitted]
    rfl

theorem Ready.keyed (ready : sketch.Ready xxh w d) :
    ∀ bucket ∈ sketch.buckets, bucket.fullKey = none → bucket.val = 0 := by
  intro bucket member unnamed
  obtain ⟨cell, inside, rfl⟩ := List.mem_iff_getElem.mp member
  have here : bucketAt sketch.buckets cell = sketch.buckets[cell] :=
    List.getD_eq_getElem _ _ inside
  rw [← here] at unnamed ⊢
  exact ready.housed.keyed cell unnamed

theorem Ready.flush (ready : sketch.Ready xxh w d) :
    sketch.flush.1.Ready xxh w d ∧ weight sketch.flush.1.buckets = 0 ∧
      carried sketch.flush.2 = weight sketch.buckets := by
  have cleared := bucketAt_cleared sketch.buckets
  refine ⟨⟨ready.width, ready.depth, ⟨fun cell key named => ?_, fun first second key named other => ?_,
    fun cell _ => ?_, fun cell => ?_⟩, fun cell => ?_⟩, weight_cleared _, carried_residue ready.keyed⟩
  · exact ready.housed.placed cell key ((congrArg fullKey (cleared cell)).symm.trans named)
  · exact ready.housed.single first second key
      ((congrArg fullKey (cleared first)).symm.trans named)
      ((congrArg fullKey (cleared second)).symm.trans other)
  · exact congrArg val (cleared cell)
  · exact (congrArg val (cleared cell)).trans_le (Nat.zero_le 255)
  · exact (congrArg val (cleared cell)).trans_lt (show 0 < 127 by decide)

end CocoWorkerSketch

/-! ### The pipeline -/

/-- `CocoOctoWorker`: its table, and the lotteries to come. -/
structure CocoOctoWorker where
  sketch : CocoWorkerSketch
  lotteries : ℕ → Lottery

/-- `CocoOctoAggregator`: its table, unless a counter has overflowed, and the lotteries to come. -/
structure CocoOctoAggregator where
  sketch : Option Coco
  lotteries : ℕ → Lottery

def laterLotteries (lotteries : ℕ → Lottery) : ℕ → Lottery := fun turn => lotteries (turn + 1)

/-- `CocoOctoAggregator::apply`. -/
def CocoOctoAggregator.apply (xxh : XxHash3) (aggregator : CocoOctoAggregator) (delta : CocoDelta) :
    CocoOctoAggregator where
  sketch := aggregator.sketch.bind fun coco =>
    coco.insert (defaultXxHasher xxh) delta.key delta.value (aggregator.lotteries 0)
  lotteries := laterLotteries aggregator.lotteries

def cocoOcto (xxh : XxHash3) (display : FloatDisplay) :
    OctoTraits DataInput String CocoOctoWorker CocoDelta CocoOctoAggregator where
  prepare := flowKeyString display
  process := fun threshold worker key =>
    (worker.sketch.insertEmitDelta xxh key threshold (worker.lotteries 0)).map fun result =>
      (⟨result.1, laterLotteries worker.lotteries⟩, result.2)
  flush := fun worker => (⟨worker.sketch.flush.1, worker.lotteries⟩, worker.sketch.flush.2)
  apply := fun _ aggregator delta => aggregator.apply xxh delta

abbrev CocoOctoState (workers : ℕ) : Type :=
  OctoState CocoOctoWorker CocoDelta CocoOctoAggregator workers

def cocoOctoStart (w d tau : ℕ) {workers : ℕ} (workerLotteries : Fin workers → ℕ → Lottery)
    (lotteries : ℕ → Lottery) : CocoOctoState workers :=
  OctoState.start (clampPromask tau)
    (fun worker => ⟨CocoWorkerSketch.new w d, workerLotteries worker⟩)
    ⟨some (Coco.initWithSize w d), lotteries⟩

namespace CocoOctoState

variable {workers : ℕ}

/-- Whether a worker has handled no input since it last flushed, given whether it had not before
an event. -/
def flushedAfter (worker : Fin workers) (flushed : Bool) : OctoEvent DataInput workers → Bool
  | .data other _ => flushed && other ≠ worker
  | .flush other => flushed || other = worker
  | .finish other => flushed || other = worker
  | .setThreshold _ => flushed
  | .apply _ => flushed

/-- A worker has handled no input since it last flushed. -/
def Flushed (events : List (OctoEvent DataInput workers)) (worker : Fin workers) : Prop :=
  events.foldl (flushedAfter worker) true = true

/-- What is in the aggregator, under way and held back. -/
def ledger (state : CocoOctoState workers) (coco : Coco) : Promotion.Ledger (Fin workers) Unit ℕ where
  parent := fun _ => coco.weight
  queue := fun worker => (state.queue worker).map fun delta => ((), delta.value)
  residual := fun worker _ => CocoBucket.weight (state.worker worker).sketch.buckets

/-- What holds after some events, as long as the inputs fit a counter. -/
structure Accounted (xxh : XxHash3) (w d : ℕ) (events : List (OctoEvent DataInput workers))
    (state : CocoOctoState workers) : Prop where
  ready : ∀ worker, (state.worker worker).sketch.Ready xxh w d
  flushed : ∀ worker, Flushed events worker →
    CocoBucket.weight (state.worker worker).sketch.buckets = 0
  parent : (OctoEvent.inputs events).length ≤ u64Max → ∃ coco, state.parent.sketch = some coco ∧
    coco.Sound (defaultXxHasher xxh) w d ∧
    (state.ledger coco).total () = (OctoEvent.inputs events).length

variable {xxh : XxHash3} {w d : ℕ}

theorem promotedAt_carried (deltas : List CocoDelta) :
    Promotion.promotedAt (deltas.map fun delta => ((), delta.value)) () =
      CocoWorkerSketch.carried deltas := by
  induction deltas with
  | nil => rfl
  | cons delta rest hypothesis =>
    rw [List.map_cons, Promotion.promotedAt, hypothesis]
    rfl

theorem ledger_handle (state : CocoOctoState workers) (coco : Coco) (worker : Fin workers)
    (result : CocoOctoWorker × List CocoDelta) :
    CocoOctoState.ledger (state.handle worker result) coco = (state.ledger coco).promote worker
      (fun _ => weight result.1.sketch.buckets)
      (result.2.map fun delta => ((), delta.value)) := by
  have queues : (fun other => (Function.update state.queue worker (state.queue worker ++ result.2)
      other).map fun delta : CocoDelta => ((), delta.value)) =
        Function.update (state.ledger coco).queue worker
          ((state.ledger coco).queue worker ++ result.2.map fun delta => ((), delta.value)) := by
    funext other
    by_cases same : other = worker
    · subst same
      rw [Function.update_self, Function.update_self, List.map_append]
      rfl
    · rw [Function.update_of_ne same, Function.update_of_ne same]
      rfl
  have residuals : (fun other (_ : Unit) => weight
      (Function.update state.worker worker result.1 other).sketch.buckets) =
        Function.update (state.ledger coco).residual worker
          fun _ => weight result.1.sketch.buckets := by
    funext other
    by_cases same : other = worker
    · subst same
      rw [Function.update_self, Function.update_self]
    · rw [Function.update_of_ne same, Function.update_of_ne same]
      rfl
  exact congrArg₂ (Promotion.Ledger.mk _) queues residuals

theorem Accounted.handle {events : List (OctoEvent DataInput workers)} {before : CocoOctoState workers}
    (accounted : before.Accounted xxh w d events) (event : OctoEvent DataInput workers)
    {worker : Fin workers} {result : CocoOctoWorker × List CocoDelta} (handled : ℕ)
    (ready : result.1.sketch.Ready xxh w d)
    (balanced : weight result.1.sketch.buckets + CocoWorkerSketch.carried result.2 =
      weight (before.worker worker).sketch.buckets + handled)
    (inputs : (OctoEvent.inputs (events ++ [event])).length =
      (OctoEvent.inputs events).length + handled)
    (flushed : ∀ other, Flushed (events ++ [event]) other →
      (other ≠ worker → Flushed events other) ∧
        (other = worker → weight result.1.sketch.buckets = 0)) :
    Accounted xxh w d (events ++ [event]) (before.handle worker result) where
  ready := (Function.forall_update_iff before.worker fun _ held => held.sketch.Ready xxh w d).mpr
    ⟨ready, fun other _ => accounted.ready other⟩
  flushed := by
    refine (Function.forall_update_iff before.worker fun other held =>
      Flushed (events ++ [event]) other → weight held.sketch.buckets = 0).mpr
        ⟨fun settled => (flushed worker settled).2 rfl, fun other different settled => ?_⟩
    exact accounted.flushed other ((flushed other settled).1 different)
  parent := by
    intro fits
    rw [inputs] at fits ⊢
    obtain ⟨coco, parent, sound, total⟩ := accounted.parent ((Nat.le_add_right _ _).trans fits)
    refine ⟨coco, parent, sound, ?_⟩
    rw [ledger_handle, Promotion.Ledger.total_promote _ worker _ (fun _ => handled), total]
    rw [promotedAt_carried]
    exact balanced

section

variable (events : List (OctoEvent DataInput workers)) (event : OctoEvent DataInput workers)

theorem flushed_append (worker : Fin workers) :
    Flushed (events ++ [event]) worker ↔
      flushedAfter worker (events.foldl (flushedAfter worker) true) event = true := by
  rw [Flushed, List.foldl_append]
  rfl

theorem length_inputs_append : (OctoEvent.inputs (events ++ [event])).length =
      (OctoEvent.inputs events).length + (OctoEvent.inputs [event]).length := by
  rw [OctoEvent.inputs, List.filterMap_append, List.length_append]
  rfl

end

theorem accounted_start (xxh : XxHash3) (w d tau : ℕ) (workerLotteries : Fin workers → ℕ → Lottery)
    (lotteries : ℕ → Lottery) :
    Accounted xxh w d [] (cocoOctoStart w d tau workerLotteries lotteries) where
  ready := fun _ => CocoWorkerSketch.ready_new xxh w d
  flushed := fun _ _ => Coco.weight_initWithSize w d
  parent := fun _ => ⟨Coco.initWithSize w d, rfl, Coco.sound_initWithSize _ w d,
    (Promotion.Ledger.total_of_drained (fun _ => rfl)
      fun _ => Coco.weight_initWithSize w d).trans (Coco.weight_initWithSize w d)⟩

section

variable {events : List (OctoEvent DataInput workers)} {before : CocoOctoState workers}
  (accounted : before.Accounted xxh w d events)

include accounted

theorem Accounted.flush (event : OctoEvent DataInput workers) (worker : Fin workers)
    (noInput : OctoEvent.inputs [event] = [])
    (flushes : ∀ other flushed, flushedAfter other flushed event = (flushed || worker = other))
    (display : FloatDisplay) : Accounted xxh w d (events ++ [event])
      (before.handle worker ((cocoOcto xxh display).flush (before.worker worker))) := by
  obtain ⟨ready, cleared, emitted⟩ := (accounted.ready worker).flush
  refine accounted.handle event 0 ready ?_ ?_ fun other settled => ⟨fun different => ?_,
    fun _ => cleared⟩
  · rw [Nat.add_zero]
    exact (congrArg₂ (· + ·) cleared emitted).trans (Nat.zero_add _)
  · rw [length_inputs_append, noInput]
    rfl
  · rw [flushed_append, flushes] at settled
    exact ((Bool.or_eq_true _ _).mp settled).resolve_right fun same =>
      different (of_decide_eq_true same).symm

/-- The aggregator applies a delta: there is room for it, as it was counted before. -/
theorem Accounted.receive (widePositive : 0 < w) (deepPositive : 0 < d) (display : FloatDisplay)
    {worker : Fin workers} {delta : CocoDelta} {rest : List CocoDelta}
    (head : before.queue worker = delta :: rest) :
    Accounted xxh w d (events ++ [.apply worker])
      (before.receive (cocoOcto xxh display) worker delta rest) where
  ready := accounted.ready
  flushed := fun other settled => accounted.flushed other ((flushed_append _ _ _).mp settled)
  parent := by
    intro fits
    rw [length_inputs_append] at fits ⊢
    obtain ⟨coco, parent, sound, total⟩ := accounted.parent fits
    have queued : (before.ledger coco).queue worker =
        ((), delta.value) :: rest.map fun delta => ((), delta.value) := by
      show (before.queue worker).map _ = _
      rw [head]
      rfl
    have moved := (before.ledger coco).total_apply worker () delta.value _ () queued
    have room : coco.weight + delta.value ≤ u64Max := by
      refine le_trans ?_ (total.trans_le fits)
      rw [← moved]
      exact Nat.le_add_right (coco.weight + delta.value) _
    obtain ⟨after, inserted⟩ := Option.isSome_iff_exists.mp (Coco.insert_isSome
      (defaultXxHasher xxh) coco delta.key room (before.parent.lotteries 0))
    obtain ⟨kept, weighs⟩ := sound.insert widePositive deepPositive inserted
    refine ⟨after, ?_, kept, ?_⟩
    · show before.parent.sketch.bind _ = some after
      rw [parent]
      exact inserted
    · rw [← Nat.add_zero (OctoEvent.inputs events).length] at total
      refine Eq.trans ?_ (moved.trans total)
      have queues : (fun other => (Function.update before.queue worker rest other).map
          fun delta : CocoDelta => ((), delta.value)) = Function.update (before.ledger coco).queue
            worker (rest.map fun delta => ((), delta.value)) := by
        funext other
        by_cases same : other = worker
        · subst same
          rw [Function.update_self, Function.update_self]
        · rw [Function.update_of_ne same, Function.update_of_ne same]
          rfl
      have parents : (fun _ : Unit => after.weight) = fun cell =>
          coco.weight + if () = cell then delta.value else 0 := by
        funext cell
        rw [if_pos rfl, weighs]
      exact congrArg (Promotion.Ledger.total · ()) (congrArg₂
        (fun parent queue => Promotion.Ledger.mk parent queue (before.ledger coco).residual)
        parents queues)

end

theorem accounted_run (widePositive : 0 < w) (deepPositive : 0 < d) (display : FloatDisplay)
    (tau : ℕ) (workerLotteries : Fin workers → ℕ → Lottery) (lotteries : ℕ → Lottery)
    {events : List (OctoEvent DataInput workers)} {reached : CocoOctoState workers}
    (ran : OctoState.run (cocoOcto xxh display) events
      (cocoOctoStart w d tau workerLotteries lotteries) = some reached) :
    reached.Accounted xxh w d events := by
  refine OctoState.run_induction (motive := fun events reached => Accounted xxh w d events reached)
    (accounted_start xxh w d tau workerLotteries lotteries)
    (fun events before event after accounted stepped => ?_) ran
  cases stepped with
  | data worker input result running processed =>
    obtain ⟨inserted, insertedEq, rfl⟩ := Option.map_eq_some_iff.mp processed
    obtain ⟨expected, expectedEq, ready, balanced⟩ :=
      (accounted.ready worker).insertEmitDelta widePositive deepPositive (flowKeyString display input)
        before.threshold ((before.worker worker).lotteries 0)
    cases Option.some.inj (expectedEq.symm.trans insertedEq)
    refine accounted.handle (.data worker input) 1 ready balanced (length_inputs_append _ _)
      fun other settled => ?_
    rw [flushed_append] at settled
    obtain ⟨earlier, different⟩ := (Bool.and_eq_true _ _).mp settled
    exact ⟨fun _ => earlier, fun same => absurd same.symm (of_decide_eq_true different)⟩
  | flush worker running => exact accounted.flush (.flush worker) worker rfl (fun _ _ => rfl) display
  | finish worker running =>
    have flushed := accounted.flush (.finish worker) worker rfl (fun _ _ => rfl) display
    exact ⟨flushed.ready, flushed.flushed, flushed.parent⟩
  | setThreshold tau =>
    refine ⟨accounted.ready, fun other settled =>
      accounted.flushed other ((flushed_append _ _ _).mp settled), fun fits => ?_⟩
    rw [length_inputs_append] at fits ⊢
    exact accounted.parent fits
  | apply worker delta rest head =>
    exact accounted.receive widePositive deepPositive display head

/-- What is promised of a state: the aggregator's table, what is under way and what workers hold
add up to the inputs, and the table has them all once workers have flushed and queues are empty. -/
structure Conserved (xxh : XxHash3) (events : List (OctoEvent DataInput workers))
    (state : CocoOctoState workers) (coco : Coco) : Prop where
  parent : state.parent.sketch = some coco
  balanced : coco.weight + ∑ worker, (CocoWorkerSketch.carried (state.queue worker) +
    CocoBucket.weight (state.worker worker).sketch.buckets) = (OctoEvent.inputs events).length
  drained : (∀ worker, Flushed events worker) → (∀ worker, state.queue worker = []) →
    coco.Conserved (defaultXxHasher xxh) (OctoEvent.inputs events).length

theorem Accounted.conserved {events : List (OctoEvent DataInput workers)}
    {state : CocoOctoState workers} (accounted : state.Accounted xxh w d events)
    (fits : (OctoEvent.inputs events).length ≤ u64Max) :
    ∃ coco, state.Conserved xxh events coco := by
  obtain ⟨coco, parent, sound, total⟩ := accounted.parent fits
  refine ⟨coco, parent, ?_, fun flushed empty => ?_⟩
  · rw [← total]
    refine congrArg (coco.weight + ·) (Finset.sum_congr rfl fun worker _ => ?_)
    rw [← promotedAt_carried]
    rfl
  · have drained : (state.ledger coco).total () = coco.weight :=
      Promotion.Ledger.total_of_drained (fun worker => congrArg (List.map _) (empty worker))
        fun worker => accounted.flushed worker (flushed worker)
    rw [← total, drained]
    exact sound.conserved

end CocoOctoState

/-- Coco tables conserve the inserted weight for every outcome of the draws: tables built by
inserts and merges, and the table of an aggregator once its workers have flushed and every delta
is applied. -/
theorem coco_conserves :
    (∀ (hasher : SketchHasher) (history : Coco.History) (coco : Coco), history.Positive →
      history.outcome hasher = some coco → coco.Conserved hasher history.inserted) ∧
    ∀ (xxh : XxHash3) (display : FloatDisplay) (w d tau workers : ℕ)
      (workerLotteries : Fin workers → ℕ → Lottery) (lotteries : ℕ → Lottery)
      (events : List (OctoEvent DataInput workers)) (reached : CocoOctoState workers),
      0 < w → 0 < d → (OctoEvent.inputs events).length ≤ u64Max →
      OctoState.run (cocoOcto xxh display) events
        (cocoOctoStart w d tau workerLotteries lotteries) = some reached →
      ∃ coco, reached.Conserved xxh events coco := by
  refine ⟨fun hasher history coco positive reached => ?_, fun xxh display w d tau workers
    workerLotteries lotteries events reached widePositive deepPositive fits ran => ?_⟩
  · obtain ⟨w, d, -, sound, weighs⟩ := history.sound hasher positive reached
    exact weighs ▸ sound.conserved
  · exact (CocoOctoState.accounted_run widePositive deepPositive display tau workerLotteries
      lotteries ran).conserved fits

/-- A table of two rows of two buckets takes in three keys that collide, and another table. -/
def collidingCoco : Coco.History :=
  let lottery : Lottery := ⟨fun _ => 1, 1 / 2⟩
  .merge
    (.insert (.insert (.insert (.initWithSize 2 2) "a" 3 lottery) "b" 4 lottery) "c" 5 lottery)
    (.insert (.initWithSize 2 2) "d" 7 lottery) fun _ => lottery

/-- One worker handles a key and flushes, and the aggregator applies the delta. -/
def singleCoco : List (OctoEvent DataInput 1) :=
  (List.finRange 1).flatMap fun worker => [.data worker (.str "a"), .flush worker, .apply worker]

def evenLottery : Lottery := ⟨fun _ => 0, 1 / 2⟩

theorem coco_conserves_colliding :
    (∃ coco, collidingCoco.outcome collidingHasher = some coco ∧
      coco.Conserved collidingHasher 19) ∧
    ∃ reached, OctoState.run (cocoOcto plainXxHash ⟨fun _ => "", fun _ => ""⟩) singleCoco
        (cocoOctoStart 2 2 3 (fun _ _ => evenLottery) fun _ => evenLottery) = some reached ∧
      ∃ coco, CocoOctoState.Conserved plainXxHash singleCoco reached coco := by
  obtain ⟨coco, outcome⟩ := Option.isSome_iff_exists.mp
    (show (collidingCoco.outcome collidingHasher).isSome = true by decide +kernel)
  have positive : collidingCoco.Positive := ⟨⟨by decide, by decide⟩, by decide, by decide⟩
  obtain ⟨reached, ran⟩ := Option.isSome_iff_exists.mp
    (show (OctoState.run (cocoOcto plainXxHash ⟨fun _ => "", fun _ => ""⟩) singleCoco
      (cocoOctoStart 2 2 3 (fun _ _ => evenLottery) fun _ => evenLottery)).isSome = true by
        decide +kernel)
  refine ⟨⟨coco, outcome, coco_conserves.1 collidingHasher collidingCoco coco positive outcome⟩,
    reached, ran, ?_⟩
  exact coco_conserves.2 plainXxHash _ 2 2 3 1 _ _ singleCoco reached (by decide) (by decide)
    (by decide) ran

end AsapSketchlib
