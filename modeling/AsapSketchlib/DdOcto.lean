/-
This file models DDSketch over the Octo pipeline. A worker counts the samples of each bucket in one
byte, and sends a count on and clears it when it reaches the threshold. What the parent counts in a
bucket, what is under way and what the workers hold back add up to the samples of the bucket, and
after the flushes the parent counts all of them.
-/

import AsapSketchlib.DDSketchMachine
import AsapSketchlib.Input
import AsapSketchlib.OctoPipeline
import AsapSketchlib.Promotion
import Mathlib.Data.List.AList

namespace AsapSketchlib

/-- The value of a float of some widths, given its bits. -/
def F64.ofBits (exponentBits mantissaBits bits : ℕ) : F64 :=
  let mantissa := bits % 2 ^ mantissaBits
  let exponent := bits / 2 ^ mantissaBits % 2 ^ exponentBits
  let negative := decide (0 < bits / 2 ^ mantissaBits / 2 ^ exponentBits)
  if exponent = 2 ^ exponentBits - 1 then if mantissa = 0 then .infinite negative else .nan
  else
    let significand := if exponent = 0 then mantissa else 2 ^ mantissaBits + mantissa
    let scale : ℤ := exponent.max 1 + 1 - 2 ^ (exponentBits - 1) - mantissaBits
    .finite ((if negative then -significand else significand : ℚ) * 2 ^ scale)

/-- What is not a number is refused. -/
def dataInputToF64 : DataInput → Option F64
  | .i8 value => some (.ofInt value.toInt)
  | .i16 value => some (.ofInt value.toInt)
  | .i32 value => some (.ofInt value.toInt)
  | .i64 value => some (.ofInt value.toInt)
  | .i128 value => some (.ofInt value.toInt)
  | .isize value => some (.ofInt value.toInt)
  | .u8 value => some (.ofInt value.toNat)
  | .u16 value => some (.ofInt value.toNat)
  | .u32 value => some (.ofInt value.toNat)
  | .u64 value => some (.ofInt value.toNat)
  | .u128 value => some (.ofInt value.toNat)
  | .usize value => some (.ofInt value.toNat)
  | .f32 bits => some (.ofBits 8 23 bits.toNat)
  | .f64 bits => some (.ofBits 11 52 bits.toNat)
  | _ => none

/-- The counters of a worker. The sketch in it stays empty and maps samples to buckets. -/
structure DdWorkerSketch where
  mapping : DDSketch
  counters : AList fun _ : DdStore × Int32 => ℕ

namespace DdWorkerSketch

def new (alpha : ℚ) : DdWorkerSketch := ⟨.ofAlpha alpha, ∅⟩

/-- What is held back of a bucket. -/
def residual (sketch : DdWorkerSketch) (bucket : DdStore × Int32) : ℕ :=
  (sketch.counters.lookup bucket).getD 0

/-- A value that the parent would reject is dropped. -/
def addEmitDelta (index : BucketIndex) (sketch : DdWorkerSketch) (value : F64) (threshold : ℕ) :
    DdWorkerSketch × List DdDelta :=
  match sketch.mapping.signedBucketFor index value with
  | none => (sketch, [])
  | some bucket =>
    let counter := sketch.residual bucket + 1
    let counters := sketch.counters.insert bucket counter
    if clampPromask threshold ≤ counter then
      ({ sketch with counters := counters.erase bucket },
        [⟨bucket.1, bucket.2, .ofNat counter⟩])
    else ({ sketch with counters := counters }, [])

/-- What is sent of a counter that is drained. -/
def drained (entry : Sigma fun _ : DdStore × Int32 => ℕ) : Option DdDelta :=
  if entry.2 ≠ 0 then some ⟨entry.1.1, entry.1.2, .ofNat entry.2⟩ else none

/-- Drains the counters, in the order of a hash map. -/
def flush (order : List DdDelta → List DdDelta) (sketch : DdWorkerSketch) :
    DdWorkerSketch × List DdDelta :=
  ({ sketch with counters := ∅ }, order (sketch.counters.entries.filterMap drained))

end DdWorkerSketch

/-- `DdOctoPlan`, with the arithmetic and the hash maps that its workers and its aggregator use: an
alpha that is accepted and whose indexes stay well inside an `i32`. -/
structure DdOctoPlan where
  alpha : ℚ
  valid : 0 < alpha ∧ alpha < 1
  index : BucketIndex
  narrow : ∀ k, Machine.Indexable index (.ofAlpha alpha) k →
    -2 ^ 29 ≤ k.toInt ∧ k.toInt ≤ 2 ^ 29
  order : List DdDelta → List DdDelta
  permutes : ∀ deltas, (order deltas).Perm deltas

/-- The bucket of a delta, and its count. -/
def DdDelta.promotion (delta : DdDelta) : (DdStore × Int32) × ℕ :=
  ((delta.store, delta.index), delta.value.toNat)

namespace DdOctoPlan

variable (plan : DdOctoPlan)

/-- Nothing is left of a parent whose indexes have left the ranges of the machine. -/
def traits : OctoTraits DataInput (Option F64) DdWorkerSketch DdDelta (Option DDSketch) where
  prepare := dataInputToF64
  process threshold worker payload :=
    some (payload.elim (worker, []) (worker.addEmitDelta plan.index · threshold))
  flush := DdWorkerSketch.flush plan.order
  apply _ parent delta := parent.bind (Machine.applyDelta plan.index · delta)

def start (workers tau : ℕ) : OctoState DdWorkerSketch DdDelta (Option DDSketch) workers :=
  .start (clampPromask tau) (fun _ => .new plan.alpha) (some (.ofAlpha plan.alpha))

/-- The bucket of an input, unless it is not a number that the sketch takes. -/
def bucketOf (input : DataInput) : Option (DdStore × Int32) :=
  (dataInputToF64 input).bind ((DDSketch.ofAlpha plan.alpha).signedBucketFor plan.index)

/-- How many inputs there are of a bucket. -/
def samplesOf (inputs : List DataInput) (bucket : DdStore × Int32) : ℕ :=
  inputs.countP fun input => plan.bucketOf input = some bucket

end DdOctoPlan

/-- What a sketch counts in a bucket. -/
def DDSketch.countOf (sketch : DDSketch) : DdStore × Int32 → ℕ
  | (.positive, k) => sketch.store.countAt k.toInt
  | (.negative, k) => sketch.negativeStore.countAt k.toInt
  | (.zero, k) => if k = 0 then sketch.zeroCount else 0

/-- What a sketch counts in all buckets. -/
def DDSketch.stored (sketch : DDSketch) : ℕ :=
  sketch.store.counts.sum + sketch.negativeStore.counts.sum + sketch.zeroCount

/-! ### Counts of the parent -/

/-- A store is empty, or reaches at most a chunk further than to `2^29` on both sides. -/
def Buckets.Short (store : Buckets) : Prop :=
  store.Valid ∧ (store.counts ≠ [] → -2 ^ 29 - 128 ≤ store.offset ∧ store.right ≤ 2 ^ 29 + 128)

namespace Machine

variable {plan : DdOctoPlan} {sketch : DDSketch}

theorem applyAt_short {store : Buckets} (short : store.Short) {k : ℤ}
    (narrow : -2 ^ 29 ≤ k ∧ k ≤ 2 ^ 29) (amount : ℕ) :
    ∃ after : Buckets, ensure store k = some (store.ensure k) ∧
      addAt (store.ensure k) k amount = some after ∧ after.Short ∧
      (∀ index, after.countAt index = store.countAt index + if index = k then amount else 0) ∧
      after.counts.sum = store.counts.sum + amount := by
  obtain ⟨valid, reach⟩ := short
  have near : store.Near k := by
    unfold Buckets.Near i32Max
    by_cases empty : store.counts = []
    · have := valid.2.2 empty
      omega
    · have first := reach empty
      have size := List.length_pos_iff.mpr empty
      unfold Buckets.right at first
      omega
  have grows : store.CanGrow k := by
    unfold Buckets.CanGrow Buckets.Narrow i32Max i32Min
    split
    · omega
    next filled =>
      have first := reach fun empty => filled (List.isEmpty_iff.mpr empty)
      omega
  obtain ⟨ensured, grownValid⟩ := ensure_eq valid (by unfold i32Min i32Max; omega) near grows
  obtain ⟨kept, keptSum, first, last⟩ := store.ensure_spec k
  refine ⟨_, ensured, addAt_eq near amount, ⟨⟨grownValid.1, grownValid.2.1,
    fun nil => grownValid.2.2 (modify_eq_nil nil)⟩, fun _ => ?_⟩, fun index => ?_, ?_⟩
  · simp only [Buckets.right, List.length_modify]
    unfold Buckets.ensure
    split
    · simp only [growChunk, List.length_replicate]
      omega
    next filled =>
      have reached := reach fun empty => filled (List.isEmpty_iff.mpr empty)
      unfold Buckets.right growChunk at *
      split
      · simp only [List.length_append, List.length_replicate]
        omega
      · split
        · simp only [List.length_append, List.length_replicate]
          omega
        · exact reached
  · refine (Dense.countAt_modify first last (· + amount) index).trans ?_
    rw [show Dense.countAt _ _ index = store.countAt index from kept index]
    split <;> rfl
  · rw [← keptSum]
    exact Dense.sum_modify_add (by omega) amount

theorem countOf_applyZeroDelta (count : ℕ) (bucket : DdStore × Int32) :
    (applyZeroDelta sketch count).countOf bucket =
      sketch.countOf bucket + if (.zero, 0) = bucket then count else 0 := by
  obtain ⟨store, k⟩ := bucket
  cases store with
  | zero => by_cases middle : k = 0 <;> simp [DDSketch.countOf, applyZeroDelta, middle, eq_comm]
  | _ => simp [DDSketch.countOf, applyZeroDelta]

/-- A store that has got more of one index. -/
theorem countOf_withStore {store : DdStore} (signed : store ≠ .zero)
    {after : Buckets} {k : Int32} {amount : ℕ}
    (counted : ∀ index, after.countAt index =
      (sketch.storeFor store).countAt index + if index = k.toInt then amount else 0)
    (bucket : DdStore × Int32) :
    (sketch.withStore after store).countOf bucket =
      sketch.countOf bucket + if (store, k) = bucket then amount else 0 := by
  obtain ⟨target, l⟩ := bucket
  have key : l.toInt = k.toInt ↔ k = l := Int32.toInt_inj.trans eq_comm
  have here := counted l.toInt
  simp only [key] at here
  cases store with
  | zero => exact absurd rfl signed
  | positive =>
    cases target with
    | positive =>
      simp only [Prod.mk.injEq, true_and]
      exact here
    | _ => simp [DDSketch.countOf, DDSketch.withStore]
  | negative =>
    cases target with
    | negative =>
      simp only [Prod.mk.injEq, true_and]
      exact here
    | _ => simp [DDSketch.countOf, DDSketch.withStore]

/-- The buckets of samples: one of zeros, and those in reach of both stores. -/
theorem of_signedBucketFor {value : F64} {bucket : DdStore × Int32}
    (found : (DDSketch.ofAlpha plan.alpha).signedBucketFor plan.index value = some bucket) :
    (bucket.1 = .zero → bucket.2 = 0) ∧
      (bucket.1 ≠ .zero → Indexable plan.index (.ofAlpha plan.alpha) bucket.2) := by
  cases value with
  | finite v =>
    rw [DDSketch.signedBucketFor, show (DDSketch.ofAlpha plan.alpha).alpha = plan.alpha from rfl]
      at found
    by_cases above : (plan.index.bounds plan.alpha).2 < |v|
    · exact absurd ((if_pos above).symm.trans found) (Option.some_ne_none _).symm
    · rw [if_neg above] at found
      by_cases below : |v| < (plan.index.bounds plan.alpha).1
      · rw [if_pos below] at found
        cases found
        exact ⟨fun _ => rfl, fun signed => absurd rfl signed⟩
      · rw [if_neg below] at found
        cases found
        refine ⟨fun zero => ?_, fun _ => plan.index.between _ _ plan.valid.1 plan.valid.2
          (not_lt.mp below) (not_lt.mp above)⟩
        by_cases negative : v < 0
        · exact absurd zero (by simp [negative])
        · exact absurd zero (by simp [negative])
  | _ => cases found

/-- What a parent has in its buckets, which is its count. -/
structure Counts (plan : DdOctoPlan) (amounts : DdStore × Int32 → ℕ) (sketch : DDSketch) :
    Prop where
  alpha : sketch.alpha = plan.alpha
  short : sketch.store.Short ∧ sketch.negativeStore.Short
  stock : sketch.count = sketch.stored
  counts : ∀ bucket, sketch.countOf bucket = amounts bucket

theorem Counts.start (plan : DdOctoPlan) : Counts plan (fun _ => 0) (.ofAlpha plan.alpha) where
  alpha := rfl
  short := ⟨⟨valid_new, fun filled => absurd rfl filled⟩,
    ⟨valid_new, fun filled => absurd rfl filled⟩⟩
  stock := rfl
  counts := by
    rintro ⟨store, k⟩
    cases store with
    | zero => exact ite_self 0
    | _ => exact Dense.countAt_nil _ _

/-- A delta of a bucket that the mapping can produce is applied. -/
theorem Counts.applyDelta {amounts : DdStore × Int32 → ℕ} (before : Counts plan amounts sketch)
    {delta : DdDelta} (found : delta.value ≠ 0 → ∃ value,
      (DDSketch.ofAlpha plan.alpha).signedBucketFor plan.index value =
        some (delta.store, delta.index)) :
    ∃ after, applyDelta plan.index sketch delta = some after ∧
      Counts plan (fun bucket => amounts bucket +
        if (delta.store, delta.index) = bucket then delta.value.toNat else 0) after := by
  obtain ⟨alpha, short, stock, counts⟩ := before
  rw [DDSketch.stored] at stock
  simp only [← counts]
  by_cases zero : delta.store = .zero
  · refine ⟨_, if_pos zero, alpha, short, ?_, fun bucket => ?_⟩
    · simp only [applyZeroDelta, DDSketch.stored]
      omega
    · rw [zero, countOf_applyZeroDelta]
      by_cases nothing : delta.value = 0
      · simp [nothing]
      · obtain ⟨value, found⟩ := found nothing
        rw [show delta.index = 0 from (of_signedBucketFor found).1 zero]
  by_cases nothing : delta.value = 0
  · refine ⟨sketch, (if_neg zero).trans (if_pos nothing), alpha, short, stock, ?_⟩
    simp [nothing]
  obtain ⟨value, found⟩ := found nothing
  have indexable : Indexable plan.index sketch delta.index := by
    unfold Indexable
    rw [alpha]
    exact (of_signedBucketFor found).2 zero
  have narrow := plan.narrow delta.index ((of_signedBucketFor found).2 zero)
  have own : (sketch.storeFor delta.store).Short := by
    unfold DDSketch.storeFor
    split
    · exact short.2
    · exact short.1
  obtain ⟨added, ensured, addedAt, addedShort, counted, sum⟩ :=
    applyAt_short own narrow delta.value.toNat
  have computed : Machine.applyDelta plan.index sketch delta =
      some (applyScalars plan.index (sketch.withStore added delta.store) delta) := by
    rw [Machine.applyDelta, if_neg zero, if_neg nothing, if_neg (not_not_intro indexable), ensured]
    simp only [Option.bind_eq_bind, Option.bind_some, addedAt]
  refine ⟨_, computed, ?_⟩
  have counts := countOf_withStore zero counted
  obtain ⟨store, k, value⟩ := delta
  cases store with
  | zero => exact absurd rfl zero
  | positive =>
    simp only [DDSketch.storeFor] at sum
    refine ⟨alpha, ⟨addedShort, short.2⟩, ?_, counts⟩
    simp only [applyScalars, DDSketch.withStore, DDSketch.stored]
    omega
  | negative =>
    simp only [DDSketch.storeFor] at sum
    refine ⟨alpha, ⟨short.1, addedShort⟩, ?_, counts⟩
    simp only [applyScalars, DDSketch.withStore, DDSketch.stored]
    omega

end Machine

/-! ### What a worker has sent -/

theorem DdDelta.promotion_ofNat (bucket : DdStore × Int32) {count : ℕ} (fits : count < 2 ^ 64) :
    promotion ⟨bucket.1, bucket.2, .ofNat count⟩ = (bucket, count) :=
  Prod.ext rfl (UInt64.toNat_ofNat_of_lt fits)

open Promotion in
theorem DdDelta.le_promotedAt {deltas : List DdDelta} {delta : DdDelta} (member : delta ∈ deltas) :
    delta.value.toNat ≤ promotedAt (deltas.map promotion) (delta.store, delta.index) := by
  induction deltas with
  | nil => exact absurd member List.not_mem_nil
  | cons first rest hypothesis =>
    rw [List.map_cons, promotion, promotedAt]
    rcases List.mem_cons.mp member with rfl | later
    · rw [if_pos rfl]
      exact Nat.le_add_right _ _
    · exact (hypothesis later).trans (Nat.le_add_left _ _)

namespace DdWorkerSketch

open Promotion

/-- What is sent of counters that are drained. -/
theorem promotedAt_drained (entries : List (Sigma fun _ : DdStore × Int32 => ℕ))
    (distinct : entries.NodupKeys) (small : ∀ entry ∈ entries, entry.2 < 2 ^ 64)
    (bucket : DdStore × Int32) :
    promotedAt ((entries.filterMap drained).map DdDelta.promotion) bucket =
      (entries.dlookup bucket).getD 0 := by
  induction entries with
  | nil => rfl
  | cons entry rest hypothesis =>
    obtain ⟨key, count⟩ := entry
    obtain ⟨fresh, distinctRest⟩ := List.nodupKeys_cons.mp distinct
    obtain ⟨fits, smallRest⟩ := List.forall_mem_cons.mp small
    have first : promotedAt (((⟨key, count⟩ :: rest).filterMap drained).map DdDelta.promotion)
        bucket = (if key = bucket then count else 0) +
          promotedAt ((rest.filterMap drained).map DdDelta.promotion) bucket := by
      by_cases zero : count = 0
      · have skipped : drained ⟨key, count⟩ = none := if_neg (not_not_intro zero)
        rw [List.filterMap_cons_none skipped, zero, ite_self, zero_add]
      · have emitted : drained ⟨key, count⟩ = some ⟨key.1, key.2, .ofNat count⟩ := if_pos zero
        rw [List.filterMap_cons_some emitted, List.map_cons, DdDelta.promotion_ofNat key fits,
          promotedAt]
    rw [first, hypothesis distinctRest smallRest]
    by_cases here : key = bucket
    · subst here
      rw [if_pos rfl, List.dlookup_cons_eq, List.dlookup_eq_none.mpr fresh]
      rfl
    · rw [if_neg here, zero_add]
      exact congrArg (Option.getD · 0) (List.dlookup_cons_ne rest ⟨key, count⟩ (Ne.symm here)).symm

/-- What a worker holds and has sent: the samples of its inputs. -/
structure Sent (plan : DdOctoPlan) (done : Bool) (inputs : List DataInput)
    (worker : DdWorkerSketch) (deltas : List DdDelta) : Prop where
  mapping : worker.mapping = .ofAlpha plan.alpha
  balanced : ∀ bucket, promotedAt (deltas.map DdDelta.promotion) bucket + worker.residual bucket =
    plan.samplesOf inputs bucket
  small : ∀ bucket, worker.residual bucket < maxPromask
  drained : done = true → ∀ bucket, worker.residual bucket = 0

variable {plan : DdOctoPlan} {done : Bool} {inputs : List DataInput} {worker : DdWorkerSketch}
  {deltas : List DdDelta}

/-- A sample is kept, or is sent on with all that is held of its bucket. -/
theorem addEmitDelta_spec {bucket : DdStore × Int32} {value : F64}
    (found : worker.mapping.signedBucketFor plan.index value = some bucket)
    (small : ∀ other, worker.residual other < maxPromask) (threshold : ℕ) :
    ∃ after sent, worker.addEmitDelta plan.index value threshold = (after, sent) ∧
      after.mapping = worker.mapping ∧ ∀ other,
        promotedAt (sent.map DdDelta.promotion) other + after.residual other =
          worker.residual other + (if bucket = other then 1 else 0) ∧
        after.residual other < maxPromask := by
  rw [addEmitDelta, found]
  simp only
  by_cases full : clampPromask threshold ≤ worker.residual bucket + 1
  · rw [if_pos full]
    refine ⟨_, _, rfl, rfl, fun other => ?_⟩
    have fits : worker.residual bucket + 1 < 2 ^ 64 :=
      (Nat.succ_le_of_lt (small bucket)).trans_lt (by decide)
    rw [List.map_cons, DdDelta.promotion_ofNat bucket fits, promotedAt]
    by_cases here : bucket = other
    · subst here
      have cleared : residual ⟨worker.mapping, (worker.counters.insert bucket
          (worker.residual bucket + 1)).erase bucket⟩ bucket = 0 :=
        congrArg (Option.getD · 0) (AList.lookup_erase _ _)
      rw [cleared, if_pos rfl, if_pos rfl]
      exact ⟨rfl, by decide⟩
    · have same : residual ⟨worker.mapping, (worker.counters.insert bucket
          (worker.residual bucket + 1)).erase bucket⟩ other = worker.residual other :=
        congrArg (Option.getD · 0) ((AList.lookup_erase_ne (Ne.symm here)).trans
          (AList.lookup_insert_ne (Ne.symm here)))
      rw [same, if_neg here, if_neg here, zero_add]
      exact ⟨zero_add _, small other⟩
  · rw [if_neg full]
    refine ⟨_, _, rfl, rfl, fun other => ?_⟩
    by_cases here : bucket = other
    · subst here
      have grown : residual ⟨worker.mapping, worker.counters.insert bucket
          (worker.residual bucket + 1)⟩ bucket = worker.residual bucket + 1 :=
        congrArg (Option.getD · 0) (AList.lookup_insert _)
      rw [grown, if_pos rfl]
      exact ⟨zero_add _, (not_le.mp full).trans_le (clampPromask_le threshold)⟩
    · have same : residual ⟨worker.mapping, worker.counters.insert bucket
          (worker.residual bucket + 1)⟩ other = worker.residual other :=
        congrArg (Option.getD · 0) (AList.lookup_insert_ne (Ne.symm here))
      rw [same, if_neg here]
      exact ⟨zero_add _, small other⟩

theorem Sent.process (before : Sent plan done inputs worker deltas) (threshold : ℕ)
    (input : DataInput) {result : DdWorkerSketch × List DdDelta}
    (processed : plan.traits.process threshold worker (dataInputToF64 input) = some result) :
    Sent plan false (inputs ++ [input]) result.1 (deltas ++ result.2) := by
  obtain ⟨mapping, balanced, small, -⟩ := before
  have counted : ∀ bucket, plan.samplesOf (inputs ++ [input]) bucket =
      plan.samplesOf inputs bucket + if plan.bucketOf input = some bucket then 1 else 0 := by
    intro bucket
    rw [DdOctoPlan.samplesOf, List.countP_append, List.countP_singleton]
    simp only [decide_eq_true_eq]
    rfl
  have skip : plan.bucketOf input = none →
      Sent plan false (inputs ++ [input]) worker (deltas ++ []) := by
    intro none
    refine ⟨mapping, fun bucket => ?_, small, fun done => absurd done Bool.false_ne_true⟩
    rw [List.append_nil, balanced, counted, none]
    rfl
  cases prepared : dataInputToF64 input with
  | none =>
    rw [prepared] at processed
    cases processed
    exact skip (congrArg (Option.bind · _) prepared)
  | some value =>
    rw [prepared] at processed
    have same : plan.bucketOf input = worker.mapping.signedBucketFor plan.index value := by
      rw [mapping]
      exact congrArg (Option.bind · _) prepared
    cases found : worker.mapping.signedBucketFor plan.index value with
    | none =>
      have dropped : worker.addEmitDelta plan.index value threshold = (worker, []) := by
        rw [addEmitDelta, found]
      cases processed.symm.trans (congrArg some dropped)
      exact skip (same.trans found)
    | some bucket =>
      obtain ⟨after, sent, emitted, kept, each⟩ := addEmitDelta_spec found small threshold
      cases processed.symm.trans (congrArg some emitted)
      refine ⟨kept.trans mapping, fun other => ?_, fun other => (each other).2,
        fun done => absurd done Bool.false_ne_true⟩
      rw [counted, same, found, ← balanced, List.map_append, promotedAt_append]
      simp only [Option.some.injEq]
      have each := (each other).1
      omega

theorem Sent.flush (before : Sent plan done inputs worker deltas) :
    Sent plan true inputs (worker.flush plan.order).1 (deltas ++ (worker.flush plan.order).2) := by
  refine ⟨before.mapping, fun bucket => ?_, fun _ => by exact (by decide : 0 < maxPromask),
    fun _ _ => rfl⟩
  have held : promotedAt ((worker.flush plan.order).2.map DdDelta.promotion) bucket =
      worker.residual bucket := by
    refine (promotedAt_perm ((plan.permutes _).map _) bucket).trans ?_
    refine promotedAt_drained _ worker.counters.nodupKeys (fun entry member => ?_) bucket
    have read : worker.residual entry.1 = entry.2 :=
      congrArg (Option.getD · 0) (AList.mem_lookup_iff.mpr member)
    exact read ▸ (before.small entry.1).trans (by decide)
  rw [List.map_append, promotedAt_append, held]
  exact before.balanced bucket

end DdWorkerSketch

/-! ### The pipeline -/

namespace DdOctoPlan

open DdWorkerSketch Machine OctoState Promotion

variable {plan : DdOctoPlan}

/-- A delta that carries something is of a bucket that some input has. -/
theorem exists_input {done : Bool} {inputs : List DataInput} {worker : DdWorkerSketch}
    {deltas : List DdDelta} (held : Sent plan done inputs worker deltas) {delta : DdDelta}
    (member : delta ∈ deltas) (carries : delta.value ≠ 0) :
    ∃ value, (DDSketch.ofAlpha plan.alpha).signedBucketFor plan.index value =
      some (delta.store, delta.index) := by
  have positive : 0 < delta.value.toNat :=
    Nat.pos_of_ne_zero fun zero => carries (UInt64.toNat_inj.mp zero)
  have sampled : 0 < plan.samplesOf inputs (delta.store, delta.index) := by
    rw [← held.balanced]
    exact (positive.trans_le (DdDelta.le_promotedAt member)).trans_le (Nat.le_add_right _ _)
  obtain ⟨input, -, found⟩ := List.countP_pos_iff.mp sampled
  obtain ⟨value, -, here⟩ := Option.bind_eq_some_iff.mp (of_decide_eq_true found)
  exact ⟨value, here⟩

/-- Whatever the thresholds, the routing and the order in which deltas are applied: a worker holds
back less than `MAX_PROMASK` samples of a bucket, so that no counter of a byte overflows; no delta
takes the parent out of the ranges of the machine, and its count is what its buckets hold; what it
counts in a bucket, what is under way and what is held back are the samples of the bucket; and when
all workers have flushed and all deltas are applied it counts all samples. -/
theorem octo_conserves (plan : DdOctoPlan) {workers tau : ℕ}
    {events : List (OctoEvent DataInput workers)}
    {reached : OctoState DdWorkerSketch DdDelta (Option DDSketch) workers}
    (ran : run plan.traits events (plan.start workers tau) = some reached) :
    (∀ worker bucket, (reached.worker worker).residual bucket < maxPromask) ∧
    ∃ parent, reached.parent = some parent ∧ parent.count = parent.stored ∧
      (∀ bucket, parent.countOf bucket + ∑ worker,
        (promotedAt ((reached.queue worker).map DdDelta.promotion) bucket +
          (reached.worker worker).residual bucket) =
        plan.samplesOf (OctoEvent.inputs events) bucket) ∧
      ((∀ worker, flushed worker events = true ∧ reached.queue worker = []) →
        ∀ bucket, parent.countOf bucket = plan.samplesOf (OctoEvent.inputs events) bucket) := by
  have sentBy : ∀ worker, Sent plan (flushed worker events) (inputsOf worker events)
      (reached.worker worker) (sent plan.traits worker events (plan.start workers tau)) := by
    intro worker
    exact flushing_history (motive := Sent plan)
      ⟨rfl, fun _ => rfl, fun _ => by exact (by decide : 0 < maxPromask), fun _ _ => rfl⟩
      (fun _ _ _ _ threshold input _ before processed => before.process threshold input processed)
      (fun _ _ _ _ before => before.flush) ran
  have parent := @parent_history _ _ _ _ _ _ plan.traits
    (fun deltas parent => (∀ delta ∈ deltas, delta.value ≠ 0 → ∃ value,
        (DDSketch.ofAlpha plan.alpha).signedBucketFor plan.index value =
          some (delta.store, delta.index)) →
      ∃ sketch, parent = some sketch ∧
        Counts plan (promotedAt (deltas.map DdDelta.promotion)) sketch)
    (plan.start workers tau) (fun _ => ⟨_, rfl, .start plan⟩)
    (fun deltas parent _ delta before found => by
      obtain ⟨sketch, rfl, counts⟩ := before fun delta member =>
        found delta (List.mem_append_left _ member)
      obtain ⟨after, applied, counts⟩ :=
        counts.applyDelta (found delta (List.mem_append_right _ List.mem_cons_self))
      have promoted : promotedAt ((deltas ++ [delta]).map DdDelta.promotion) = fun bucket =>
          promotedAt (deltas.map DdDelta.promotion) bucket +
            if (delta.store, delta.index) = bucket then delta.value.toNat else 0 := by
        funext bucket
        rw [List.map_append, promotedAt_append]
        rfl
      exact ⟨after, applied, promoted ▸ counts⟩) events reached ran
  obtain ⟨parent, known, counts⟩ := parent fun delta member carries => by
    obtain ⟨worker, sent⟩ := exists_sent (fun _ => rfl) ran member
    exact exists_input (sentBy worker) sent carries
  have total : ∀ bucket, parent.countOf bucket + ∑ worker,
      (promotedAt ((reached.queue worker).map DdDelta.promotion) bucket +
        (reached.worker worker).residual bucket) =
      plan.samplesOf (OctoEvent.inputs events) bucket := by
    intro bucket
    have samples := sum_parts (plan.samplesOf · bucket) rfl
      (fun _ _ => List.countP_append) (routed events)
    have amounts := sum_parts (fun deltas => promotedAt (deltas.map DdDelta.promotion) bucket) rfl
      (fun _ _ => by rw [List.map_append, promotedAt_append])
      (received plan.traits events (plan.start workers tau))
    rw [map_routed] at samples
    rw [counts.counts, amounts, ← Finset.sum_add_distrib, samples]
    refine Finset.sum_congr rfl fun worker _ => ?_
    rw [filter_routed, ← (sentBy worker).balanced, sent_eq_received rfl ran, List.map_append,
      promotedAt_append, add_assoc]
  refine ⟨fun worker => (sentBy worker).small, parent, known, counts.stock, total,
    fun done bucket => ?_⟩
  rw [← total, Finset.sum_eq_zero fun worker _ => ?_, add_zero]
  rw [(done worker).2, (sentBy worker).drained (done worker).1]
  rfl

/-- The plan whose buckets are powers of two. -/
def thirdsPlan : DdOctoPlan where
  alpha := 1 / 3
  valid := third_inside
  index := thirds
  narrow k inside := by
    have ends : -2 ^ 29 ≤ (thirds.keyFor (1 / 3) (thirds.bounds (1 / 3)).1).toInt ∧
        (thirds.keyFor (1 / 3) (thirds.bounds (1 / 3)).2).toInt ≤ 2 ^ 29 := by decide +kernel
    exact ⟨ends.1.trans (Int32.le_iff_toInt_le.mp inside.1),
      (Int32.le_iff_toInt_le.mp inside.2).trans ends.2⟩
  order := id
  permutes := .refl

/-- Two samples of one bucket that are promoted together, and one below zero that is flushed. -/
def threeSamples : List (OctoEvent DataInput 1) :=
  (List.finRange 1).flatMap fun worker =>
    [.data worker (.u8 1), .data worker (.f64 0x3ff8000000000000#64), .apply worker,
      .data worker (.i32 (-2)), .flush worker, .apply worker]

theorem octo_conserves_three : ∃ reached, run thirdsPlan.traits threeSamples (thirdsPlan.start 1 2) =
    some reached ∧ ∃ parent, reached.parent = some parent ∧ parent.count = parent.stored := by
  obtain ⟨reached, ran⟩ := Option.isSome_iff_exists.mp
    (show (run thirdsPlan.traits threeSamples (thirdsPlan.start 1 2)).isSome = true by decide +kernel)
  obtain ⟨-, parent, known, stock, -⟩ := octo_conserves thirdsPlan ran
  exact ⟨reached, ran, parent, known, stock⟩

end DdOctoPlan

end AsapSketchlib
