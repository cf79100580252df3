/-
This file compares the two DDSketches: the native one and the portable one, which has its own
growth rule, merges behind a limit of the span and swaps its stores for a negative sample. Fed the
same samples and merged alike, both hold the same counts at the same offsets, padding included.
-/

import AsapSketchlib.DDSketchMachine
import AsapSketchlib.PortableDdSketch
import Mathlib.Algebra.Order.BigOperators.Group.List

namespace AsapSketchlib

namespace Portable

/-! ### Updates of the portable sketch -/

def ddsketchGrowChunk : ℕ := 128

namespace DdStore

/-- `ensure_bucket`. The differences are `i64`, the offset stays an `i32`. -/
def ensureBucket (store : DdStore) (k : ℤ) : Option DdStore :=
  if store.counts.isEmpty then do
    let offset ← Machine.i32 (k - 64)
    some ⟨List.replicate ddsketchGrowChunk 0, offset⟩
  else if k < store.offset then do
    let grow := max (store.offset - k).toNat ddsketchGrowChunk
    let offset ← Machine.i32 (store.offset - Machine.asI32 grow)
    some ⟨List.replicate grow 0 ++ store.counts, offset⟩
  else if store.stop ≤ k then
    let grow := max (k - store.stop + 1).toNat ddsketchGrowChunk
    some ⟨store.counts ++ List.replicate grow 0, store.offset⟩
  else some store

def increment (store : DdStore) (k : ℤ) : Option DdStore := do
  let slot ← Machine.usize (k - store.offset)
  if slot < store.counts.length then
    some ⟨store.counts.modify slot (saturatingAddU64 · 1), store.offset⟩
  else none

def UnionWithin (store other : DdStore) : Prop :=
  ¬store.counts.isEmpty → ¬other.counts.isEmpty →
    max store.stop other.stop - min store.offset other.offset ≤ maxApplyDeltaSpanBuckets

instance (store other : DdStore) : Decidable (store.UnionWithin other) :=
  inferInstanceAs (Decidable (_ → _ → _ ≤ _))

end DdStore

namespace DdSketch

/-- The value of alpha, which is finite in a sketch made by `new`. -/
def alphaValue (sketch : DdSketch) : ℚ :=
  match sketch.alpha with
  | .finite alpha => alpha
  | _ => 0

def new (alpha : ℚ) : DdSketch := ⟨.finite alpha, ⟨[], 0⟩, ⟨[], 0⟩, 0⟩

def swap (sketch : DdSketch) : DdSketch :=
  { sketch with positive := sketch.negative, negative := sketch.positive }

/-- `try_update`. A negative sample is counted in the positive store of the swapped sketch. -/
def tryUpdate (index : BucketIndex) (sketch : DdSketch) : F64 → Option (DdSketch × Returned)
  | .finite value =>
    let bounds := index.bounds sketch.alphaValue
    if bounds.2 < |value| then
      some (sketch, .err "DDSketch value exceeds indexable range")
    else if |value| < bounds.1 then
      match checkedAddU64 sketch.zeroCount 1 with
      | some zeroCount => some ({ sketch with zeroCount }, .ok)
      | none => some (sketch, .err "DDSketch zero count overflow")
    else do
      let swapped := if value < 0 then sketch.swap else sketch
      let idx := (index.keyFor sketch.alphaValue |value|).toInt
      let grown ← swapped.positive.ensureBucket idx
      let positive ← grown.increment idx
      let updated : DdSketch := { swapped with positive }
      some (if value < 0 then updated.swap else updated, .ok)
  | _ => some (sketch, .err "DDSketch requires finite values")

end DdSketch

end Portable

/-! ### Stores of one layout -/

/-- The same counts at the same offset. -/
structure SameStore (ours : Buckets) (portable : Portable.DdStore) : Prop where
  counts : ours.counts = portable.counts.map UInt64.toNat
  offset : ours.offset = portable.offset

namespace SameStore

variable {ours other : Buckets} {portable otherPortable : Portable.DdStore} {k : ℤ}

theorem length (same : SameStore ours portable) :
    ours.counts.length = portable.counts.length := by rw [same.counts, List.length_map]

theorem isEmpty (same : SameStore ours portable) :
    ours.counts.isEmpty = portable.counts.isEmpty := by rw [same.counts, List.isEmpty_map]

theorem right (same : SameStore ours portable) : ours.right = portable.stop - 1 := by
  rw [Buckets.right, Portable.DdStore.stop, same.length, same.offset]

theorem map_zeros (size : ℕ) :
    (List.replicate size (0 : UInt64)).map UInt64.toNat = List.replicate size 0 :=
  List.map_replicate

theorem ensureBucket (same : SameStore ours portable) (near : ours.Near k)
    (valid : (ours.ensure k).Valid) :
    ∃ grown, portable.ensureBucket k = some grown ∧ SameStore (ours.ensure k) grown := by
  have offsetFits : Machine.i32 (ours.ensure k).offset = some (ours.ensure k).offset :=
    Machine.i32_eq valid.1 valid.2.1
  unfold Portable.DdStore.ensureBucket
  unfold Buckets.ensure at offsetFits ⊢
  rw [← same.isEmpty, ← same.offset]
  by_cases empty : ours.counts.isEmpty
  · rw [if_pos empty] at offsetFits ⊢
    rw [if_pos empty]
    exact ⟨⟨_, k - 64⟩, congrArg (Option.bind · _) offsetFits, ⟨(map_zeros _).symm, rfl⟩⟩
  · rw [if_neg empty] at offsetFits ⊢
    rw [if_neg empty]
    by_cases below : k < ours.offset
    · rw [if_pos below] at offsetFits ⊢
      rw [if_pos below]
      have length : Machine.asI32 (max (ours.offset - k).toNat growChunk) =
          (max (ours.offset - k).toNat growChunk : ℕ) := by
        refine Machine.asI32_eq ?_
        have distance := near.2
        unfold i32Max at distance ⊢
        unfold growChunk
        omega
      refine ⟨⟨List.replicate (max (ours.offset - k).toNat growChunk) 0 ++ portable.counts,
        ours.offset - (max (ours.offset - k).toNat growChunk : ℕ)⟩, ?_, ?_, rfl⟩
      · rw [show Portable.ddsketchGrowChunk = growChunk from rfl]
        simp only [length]
        exact congrArg (Option.bind · _) offsetFits
      · rw [List.map_append, map_zeros, ← same.counts]
    · rw [if_neg below] at offsetFits ⊢
      rw [if_neg below]
      have reaches : ours.right < k ↔ portable.stop ≤ k := by
        rw [same.right]
        omega
      have needed : k - ours.right = k - portable.stop + 1 := by
        rw [same.right]
        omega
      by_cases above : ours.right < k
      · rw [if_pos above, if_pos (reaches.mp above), needed]
        refine ⟨_, rfl, ?_, rfl⟩
        rw [List.map_append, map_zeros, ← same.counts]
        rfl
      · rw [if_neg above, if_neg fun reached => above (reaches.mpr reached)]
        exact ⟨portable, rfl, same⟩

theorem toNat_saturatingAdd {left right : UInt64} (room : left.toNat + right.toNat ≤ u64Max) :
    (Portable.saturatingAddU64 left right).toNat = left.toNat + right.toNat := by
  rw [Portable.saturatingAddU64, saturatingAdd, min_eq_left room, UInt64.toNat_ofNat']
  unfold u64Max at room
  exact Nat.mod_eq_of_lt (by omega)

theorem sum_modify_le (counts : List ℕ) (slot amount : ℕ) :
    (counts.modify slot (· + amount)).sum ≤ counts.sum + amount := by
  by_cases inside : slot < counts.length
  · exact (Dense.sum_modify_add inside amount).le
  · rw [List.modify_eq_self (not_lt.mp inside)]
    exact Nat.le_add_right _ _

theorem map_modify {counts : List UInt64} {amount : UInt64} (slot : ℕ)
    (room : (counts.map UInt64.toNat).sum + amount.toNat ≤ u64Max) :
    (counts.modify slot (Portable.saturatingAddU64 · amount)).map UInt64.toNat =
      (counts.map UInt64.toNat).modify slot (· + amount.toNat) := by
  refine List.ext_getElem? fun place => ?_
  rw [List.getElem?_map, List.getElem?_modify, List.getElem?_modify, List.getElem?_map]
  cases found : counts[place]? with
  | none => rfl
  | some count =>
    by_cases here : slot = place
    · have member : count.toNat ∈ counts.map UInt64.toNat :=
        List.mem_map_of_mem (List.mem_of_getElem? found)
      have atMost : count.toNat ≤ (counts.map UInt64.toNat).sum :=
        List.single_le_sum (fun _ _ => Nat.zero_le _) _ member
      simp only [here, if_true, Option.map_eq_map, Option.map_some]
      rw [toNat_saturatingAdd ((Nat.add_le_add_right atMost _).trans room)]
    · simp only [here, if_false, Option.map_eq_map, Option.map_some]

theorem increment (same : SameStore ours portable) (low : ours.offset ≤ k)
    (high : k < ours.offset + ours.counts.length) (room : ours.counts.sum < u64Max) :
    ∃ after, portable.increment k = some after ∧
      SameStore ⟨ours.counts.modify (k - ours.offset).toNat (· + 1), ours.offset⟩ after := by
  rw [same.counts] at room
  rw [same.length] at high
  rw [same.offset] at low high
  refine ⟨⟨portable.counts.modify (k - portable.offset).toNat
    (Portable.saturatingAddU64 · 1), portable.offset⟩, ?_, ⟨?_, same.offset⟩⟩
  · rw [Portable.DdStore.increment, Machine.usize_eq (by omega), Option.bind_eq_bind,
      Option.bind_some, if_pos (by omega)]
  · show _ = List.map _ (List.modify _ _ _)
    rw [@map_modify portable.counts 1 _ room, same.counts, same.offset]
    rfl

theorem addOne (same : SameStore ours portable) (valid : ours.Valid)
    (range : i32Min ≤ k ∧ k ≤ i32Max) (fits : ours.CanAdd k) (room : ours.counts.sum < u64Max) :
    ∃ after, (portable.ensureBucket k).bind (·.increment k) = some after ∧
      SameStore (ours.addOne k) after := by
  obtain ⟨near, place⟩ := fits
  by_cases inside : ours.Has k
  · have low := inside.1
    have high : k < ours.offset + ours.counts.length := by
      have right := inside.2
      unfold Buckets.right at right
      omega
    obtain ⟨after, incremented, afterSame⟩ := same.increment low high room
    have ensured : portable.ensureBucket k = some portable := by
      have filled : ¬portable.counts.isEmpty := by
        rw [← same.isEmpty]
        intro empty
        rw [List.isEmpty_iff.mp empty, List.length_nil] at high
        omega
      rw [same.length, same.offset] at high
      rw [same.offset] at low
      rw [Portable.DdStore.ensureBucket, if_neg filled, if_neg (not_lt.mpr low),
        if_neg (show ¬portable.stop ≤ k from not_le.mpr high)]
    refine ⟨after, by rw [ensured, Option.bind_some, incremented], ?_⟩
    rw [Buckets.addOne, if_pos (by omega)]
    exact afterSame
  · have grows := place.resolve_left inside
    obtain ⟨-, grownValid⟩ := Machine.ensure_eq valid range near grows
    obtain ⟨grown, ensured, grownSame⟩ := same.ensureBucket near grownValid
    obtain ⟨-, sum, low, high⟩ := ours.ensure_spec k
    obtain ⟨after, incremented, afterSame⟩ := grownSame.increment low high (sum.symm ▸ room)
    refine ⟨after, by rw [ensured, Option.bind_some, incremented], ?_⟩
    rw [Buckets.addOne, if_neg]
    · exact afterSame
    · intro place
      refine inside ⟨by omega, ?_⟩
      unfold Buckets.right
      omega

/-! ### Merging stores -/

theorem foldl_layOver (start : ℤ) {counts merged : List UInt64} (i : ℕ) (offset : ℤ)
    (room : (merged.map UInt64.toNat).sum + (counts.map UInt64.toNat).sum ≤ u64Max) :
    ((counts.zipIdx i).foldl (fun merged entry =>
        merged.modify (offset + entry.2 - start).toNat fun count =>
          Portable.saturatingAddU64 count entry.1) merged).map UInt64.toNat =
      Dense.layOver start (offset + i) (counts.map UInt64.toNat) (merged.map UInt64.toNat) := by
  induction counts generalizing i merged with
  | nil => rfl
  | cons count rest hypothesis =>
    rw [List.map_cons, List.sum_cons] at room
    rw [List.zipIdx_cons, List.foldl_cons, List.map_cons, Dense.layOver]
    have modified := @map_modify merged count (offset + i - start).toNat (by omega)
    have grown : ((merged.modify (offset + i - start).toNat
        (Portable.saturatingAddU64 · count)).map UInt64.toNat).sum ≤
          (merged.map UInt64.toNat).sum + count.toNat := by
      rw [modified]
      exact sum_modify_le _ _ _
    rw [hypothesis (i + 1) ((Nat.add_le_add_right grown _).trans (by omega)),
      modified, Nat.cast_succ, add_assoc]

theorem layOver_eq (start : ℤ) (merged : List UInt64) (portable : Portable.DdStore)
    (room : (merged.map UInt64.toNat).sum + (portable.counts.map UInt64.toNat).sum ≤ u64Max) :
    (portable.layOver start merged).map UInt64.toNat =
      Dense.layOver start portable.offset (portable.counts.map UInt64.toNat)
        (merged.map UInt64.toNat) := by
  have laid := foldl_layOver start 0 portable.offset room
  rwa [Nat.cast_zero, add_zero] at laid

theorem sum_layOver_le (start index : ℤ) (counts merged : List ℕ) :
    (Dense.layOver start index counts merged).sum ≤ merged.sum + counts.sum := by
  induction counts generalizing index merged with
  | nil => exact Nat.le_refl _
  | cons count rest hypothesis =>
    have modified := sum_modify_le merged (index - start).toNat count
    have laid := hypothesis (index + 1) (merged.modify (index - start).toNat (· + count))
    rw [Dense.layOver, List.sum_cons]
    omega

theorem merge_ok {after : Portable.DdStore} (same : SameStore ours portable)
    (otherSame : SameStore other otherPortable)
    (merged : portable.merge otherPortable = .ok after)
    (room : ours.counts.sum + other.counts.sum ≤ u64Max) :
    SameStore (ours.merge other) after := by
  unfold Portable.DdStore.merge at merged
  unfold Buckets.merge
  rw [← same.isEmpty, ← otherSame.isEmpty] at merged
  by_cases otherEmpty : other.counts.isEmpty
  · rw [if_pos otherEmpty] at merged ⊢
    exact Except.ok.inj merged ▸ same
  · rw [if_neg otherEmpty] at merged ⊢
    by_cases empty : ours.counts.isEmpty
    · rw [if_pos empty] at merged ⊢
      exact Except.ok.inj merged ▸ otherSame
    · rw [if_neg empty] at merged ⊢
      have start : min ours.offset other.offset = min portable.offset otherPortable.offset := by
        rw [same.offset, otherSame.offset]
      have length : max ours.right other.right - min ours.offset other.offset + 1 =
          max portable.stop otherPortable.stop - min portable.offset otherPortable.offset := by
        rw [same.right, otherSame.right, start]
        omega
      simp only at merged
      split at merged
      · cases merged
      obtain rfl := Except.ok.inj merged
      refine ⟨?_, start⟩
      show Dense.layOver _ _ _ (Dense.layOver _ _ _ (List.replicate
        (max ours.right other.right - min ours.offset other.offset + 1).toNat 0)) = _
      rw [length, start, same.counts, otherSame.counts, same.offset, otherSame.offset]
      rw [same.counts, otherSame.counts] at room
      generalize min portable.offset otherPortable.offset = newStart
      generalize (max portable.stop otherPortable.stop - newStart).toNat = newLen
      have zeros : ((List.replicate newLen (0 : UInt64)).map UInt64.toNat).sum = 0 := by
        rw [map_zeros, Buckets.sum_zeros]
      have first := layOver_eq newStart (List.replicate newLen 0) portable (by omega)
      have laid := sum_layOver_le newStart portable.offset (portable.counts.map UInt64.toNat)
        ((List.replicate newLen (0 : UInt64)).map UInt64.toNat)
      rw [layOver_eq newStart _ otherPortable (by rw [first]; omega), first, map_zeros]

theorem merge_of_unionWithin (within : portable.UnionWithin otherPortable) :
    ∃ after, portable.merge otherPortable = .ok after := by
  unfold Portable.DdStore.merge
  by_cases otherEmpty : otherPortable.counts.isEmpty
  · exact ⟨portable, if_pos otherEmpty⟩
  · rw [if_neg otherEmpty]
    by_cases empty : portable.counts.isEmpty
    · exact ⟨otherPortable, if_pos empty⟩
    · rw [if_neg empty]
      exact ⟨_, if_neg fun large => absurd (within empty otherEmpty) (not_le.mpr large.1)⟩

theorem merge (same : SameStore ours portable) (otherSame : SameStore other otherPortable)
    (within : portable.UnionWithin otherPortable)
    (room : ours.counts.sum + other.counts.sum ≤ u64Max) :
    ∃ after, portable.merge otherPortable = .ok after ∧ SameStore (ours.merge other) after := by
  obtain ⟨after, merged⟩ := merge_of_unionWithin within
  exact ⟨after, merged, same.merge_ok otherSame merged room⟩

end SameStore

/-! ### Trees of samples and merges -/

/-- What is done to sketches of one alpha, native and portable. -/
inductive TwinTree where
  | new
  | update (before : TwinTree) (value : F64)
  | merge (before other : TwinTree)

def Accepted (index : BucketIndex) (alpha : ℚ) : F64 → Prop
  | .finite value => |value| ≤ (index.bounds alpha).2
  | _ => False

instance (index : BucketIndex) (alpha : ℚ) : DecidablePred (Accepted index alpha)
  | .finite _ => inferInstanceAs (Decidable (_ ≤ _))
  | .infinite _ => .isFalse id
  | .nan => .isFalse id

namespace TwinTree

variable (index : BucketIndex) (alpha : ℚ)

def samples : TwinTree → ℕ
  | new => 0
  | update before value => before.samples + if Accepted index alpha value then 1 else 0
  | merge before other => before.samples + other.samples

def ours (valid : 0 < alpha ∧ alpha < 1) : TwinTree → Machine.History
  | new => .new alpha valid
  | update before value => .tryAdd (before.ours valid) value
  | merge before other => .merge (before.ours valid) (other.ours valid)

def portable : TwinTree → Option Portable.DdSketch
  | new => some (.new alpha)
  | update before value => do
    let sketch ← before.portable
    let updated ← sketch.tryUpdate index value
    some updated.1
  | merge before other => do
    let sketch ← before.portable
    let otherSketch ← other.portable
    some (sketch.merge otherSketch).1

def UnionsWithin : TwinTree → Prop
  | new => True
  | update before _ => before.UnionsWithin
  | merge before other =>
    before.UnionsWithin ∧ other.UnionsWithin ∧
      ∀ sketch ∈ before.portable index alpha, ∀ otherSketch ∈ other.portable index alpha,
        sketch.positive.UnionWithin otherSketch.positive ∧
          sketch.negative.UnionWithin otherSketch.negative

end TwinTree

/-! ### Twins -/

/-- The sketches hold the same zero count and stores. -/
structure SameLayout (ours : DDSketch) (portable : Portable.DdSketch) : Prop where
  zeroCount : ours.zeroCount = portable.zeroCount.toNat
  positive : SameStore ours.store portable.positive
  negative : SameStore ours.negativeStore portable.negative

def Filled (store : Buckets) : Prop := store.counts.sum = 0 → store.counts = []

/-- Sketches of one layout, which account for every sample. -/
structure Twins (alpha : ℚ) (samples : ℕ) (ours : DDSketch) (portable : Portable.DdSketch) :
    Prop extends SameLayout ours portable where
  nativeAlpha : ours.alpha = alpha
  gamma : ours.gamma = (1 + alpha) / (1 - alpha)
  portableAlpha : portable.alpha = .finite alpha
  valid : Machine.Valid ours
  count : ours.count = samples
  total : ours.store.counts.sum + ours.negativeStore.counts.sum + ours.zeroCount = samples
  filled : Filled ours.store
  negativeFilled : Filled ours.negativeStore

theorem filled_addOne (store : Buckets) (k : ℤ) : Filled (store.addOne k) := by
  intro none
  rw [(store.addOne_spec k).2] at none
  exact absurd none (Nat.succ_ne_zero _)

theorem filled_merge {store other : Buckets} (filled : Filled store) (otherFilled : Filled other) :
    Filled (store.merge other) := by
  intro none
  rw [(store.merge_spec other).2, Nat.add_eq_zero_iff] at none
  rw [Buckets.merge, if_pos (List.isEmpty_iff.mpr (otherFilled none.2))]
  exact filled none.1

def scalarsOf (sketch : DDSketch) (v : ℚ) : DDSketch :=
  { sketch with
    count := sketch.count + 1
    sum := DDSketch.addToSum sketch.sum (.finite v)
    min := sketch.min.min (.finite v)
    max := sketch.max.max (.finite v) }

def swapped (sketch : DDSketch) : DDSketch :=
  { sketch with store := sketch.negativeStore, negativeStore := sketch.store }

namespace Twins

variable {index : BucketIndex} {alpha : ℚ} {samples otherSamples : ℕ} {ours other : DDSketch}
  {portable otherPortable : Portable.DdSketch}

theorem alphaValue (twins : Twins alpha samples ours portable) : portable.alphaValue = alpha := by
  rw [Portable.DdSketch.alphaValue, twins.portableAlpha]

theorem swap (twins : Twins alpha samples ours portable) :
    Twins alpha samples (swapped ours) portable.swap where
  zeroCount := twins.zeroCount
  positive := twins.negative
  negative := twins.positive
  nativeAlpha := twins.nativeAlpha
  gamma := twins.gamma
  portableAlpha := twins.portableAlpha
  valid := ⟨twins.valid.2, twins.valid.1⟩
  count := twins.count
  total := by
    rw [← twins.total, Nat.add_comm ours.store.counts.sum]
    rfl
  filled := twins.negativeFilled
  negativeFilled := twins.filled

theorem positiveSample (twins : Twins alpha samples ours portable) (few : samples < u64Max)
    {k : ℤ} (range : i32Min ≤ k ∧ k ≤ i32Max) (fits : ours.store.CanAdd k) (scalars : DDSketch)
    (stores : scalars.store = ours.store.addOne k ∧
      scalars.negativeStore = ours.negativeStore ∧ scalars.zeroCount = ours.zeroCount)
    (mapping : scalars.alpha = ours.alpha ∧ scalars.gamma = ours.gamma)
    (count : scalars.count = ours.count + 1) :
    ∃ after, (portable.positive.ensureBucket k).bind (·.increment k) = some after ∧
      Twins alpha (samples + 1) scalars { portable with positive := after } := by
  obtain ⟨store, negativeStore, zeros⟩ := stores
  have room : ours.store.counts.sum < u64Max := by
    have total := twins.total
    omega
  obtain ⟨after, updated, same⟩ := twins.positive.addOne twins.valid.1 range fits room
  obtain ⟨-, storeValid⟩ := Machine.addOne_eq twins.valid.1 range fits
  refine ⟨after, updated,
    ⟨zeros.trans twins.zeroCount, store ▸ same, negativeStore ▸ twins.negative⟩,
    mapping.1.trans twins.nativeAlpha, mapping.2.trans twins.gamma, twins.portableAlpha,
    ⟨store ▸ storeValid, negativeStore ▸ twins.valid.2⟩, by rw [count, twins.count], ?_,
    store ▸ filled_addOne _ _, negativeStore ▸ twins.negativeFilled⟩
  rw [store, negativeStore, zeros, (ours.store.addOne_spec k).2, ← twins.total]
  omega

theorem tiny (twins : Twins alpha samples ours portable) (few : samples < u64Max)
    (scalars : DDSketch)
    (stores : scalars.store = ours.store ∧ scalars.negativeStore = ours.negativeStore)
    (mapping : scalars.alpha = ours.alpha ∧ scalars.gamma = ours.gamma)
    (count : scalars.count = ours.count + 1) (zeros : scalars.zeroCount = ours.zeroCount + 1) :
    ∃ zeroCount, Portable.checkedAddU64 portable.zeroCount 1 = some zeroCount ∧
      Twins alpha (samples + 1) scalars { portable with zeroCount } := by
  have total := twins.total
  rw [twins.zeroCount] at total
  have room : portable.zeroCount.toNat + (1 : UInt64).toNat < 2 ^ 64 := by
    unfold u64Max at few
    show portable.zeroCount.toNat + 1 < 2 ^ 64
    omega
  refine ⟨_, if_pos room, ⟨?_, stores.1 ▸ twins.positive, stores.2 ▸ twins.negative⟩,
    mapping.1.trans twins.nativeAlpha, mapping.2.trans twins.gamma, twins.portableAlpha,
    ⟨stores.1 ▸ twins.valid.1, stores.2 ▸ twins.valid.2⟩, by rw [count, twins.count], ?_,
    stores.1 ▸ twins.filled, stores.2 ▸ twins.negativeFilled⟩
  · rw [zeros, twins.zeroCount, UInt64.toNat_add, Nat.mod_eq_of_lt room]
    rfl
  · rw [stores.1, stores.2, zeros, ← Nat.add_assoc, twins.total]

/-- Both sketches take a sample, or reject it, alike. -/
theorem update (twins : Twins alpha samples ours portable) {value : F64}
    (few : samples + (if Accepted index alpha value then 1 else 0) ≤ u64Max)
    (fits : Machine.CanTryAdd index ours value) :
    ∃ returned updated, Machine.tryAdd index ours value = some returned ∧
      portable.tryUpdate index value = some updated ∧
      Twins alpha (samples + if Accepted index alpha value then 1 else 0)
        (Machine.kept ours returned) updated.1 := by
  obtain rfl := twins.nativeAlpha
  cases value with
  | finite v =>
    have limit : Accepted index ours.alpha (.finite v) ↔
        ¬(index.bounds ours.alpha).2 < |v| := not_lt.symm
    by_cases exceeds : (index.bounds ours.alpha).2 < |v|
    · rw [if_neg fun accepted => limit.mp accepted exceeds]
      exact ⟨_, _, if_pos exceeds, if_pos (twins.alphaValue.symm ▸ exceeds), twins⟩
    · rw [if_pos (limit.mpr exceeds)] at few ⊢
      have room : ¬u64Max ≤ ours.count := by
        rw [twins.count]
        exact not_le.mpr few
      have target := fits (not_le.mp room)
      rw [Machine.tryAdd, Portable.DdSketch.tryUpdate, twins.alphaValue]
      rw [DDSketch.signedBucketFor] at target
      rw [if_neg exceeds] at target ⊢
      simp only [if_neg exceeds, if_neg room]
      by_cases tiny : |v| < (index.bounds ours.alpha).1
      · simp only [if_pos tiny]
        obtain ⟨zeroCount, added, after⟩ :=
          twins.tiny few { scalarsOf ours v with zeroCount := ours.zeroCount + 1 }
            ⟨rfl, rfl⟩ ⟨rfl, rfl⟩ rfl rfl
        rw [added]
        exact ⟨_, _, rfl, rfl, after⟩
      · rw [if_neg tiny] at target
        simp only [if_neg tiny]
        have fit := target _ rfl
        have range := Machine.int32_range (index.keyFor ours.alpha |v|)
        by_cases negative : v < 0
        · simp only [if_pos negative] at fit ⊢
          have room : ours.negativeStore.CanAdd _ := fit DdStore.noConfusion
          rw [(Machine.addOne_eq twins.valid.2 range room).1]
          obtain ⟨after, updated, afterTwins⟩ :=
            twins.swap.positiveSample few range room
              { swapped (scalarsOf ours v) with
                store := ours.negativeStore.addOne (index.keyFor ours.alpha |v|).toInt }
              ⟨rfl, rfl, rfl⟩ ⟨rfl, rfl⟩ rfl
          obtain ⟨grown, ensured, incremented⟩ := Option.bind_eq_some_iff.mp updated
          simp only [ensured, incremented, Option.bind_eq_bind, Option.bind_some]
          exact ⟨_, _, rfl, rfl, afterTwins.swap⟩
        · simp only [if_neg negative] at fit ⊢
          have room : ours.store.CanAdd _ := fit DdStore.noConfusion
          rw [(Machine.addOne_eq twins.valid.1 range room).1]
          obtain ⟨after, updated, afterTwins⟩ :=
            twins.positiveSample few range room
              { scalarsOf ours v with
                store := ours.store.addOne (index.keyFor ours.alpha |v|).toInt }
              ⟨rfl, rfl, rfl⟩ ⟨rfl, rfl⟩ rfl
          obtain ⟨grown, ensured, incremented⟩ := Option.bind_eq_some_iff.mp updated
          simp only [ensured, incremented, Option.bind_eq_bind, Option.bind_some]
          exact ⟨_, _, rfl, rfl, afterTwins⟩
  | infinite negative => exact ⟨_, _, rfl, rfl, twins⟩
  | nan => exact ⟨_, _, rfl, rfl, twins⟩

/-- What a merge of native sketches gives, whichever of them is empty. -/
structure Merged (ours other after : DDSketch) : Prop where
  store : after.store = ours.store.merge other.store
  negativeStore : after.negativeStore = ours.negativeStore.merge other.negativeStore
  zeroCount : after.zeroCount = ours.zeroCount + other.zeroCount
  count : after.count = ours.count + other.count
  alpha : after.alpha = ours.alpha
  gamma : after.gamma = ours.gamma

theorem empty_of_count (twins : Twins alpha samples ours portable) (none : ours.count = 0) :
    ours.store.counts = [] ∧ ours.negativeStore.counts = [] ∧ ours.zeroCount = 0 := by
  have total := twins.total
  have count := twins.count
  refine ⟨twins.filled ?_, twins.negativeFilled ?_, ?_⟩
  · omega
  · omega
  · omega

theorem merge_of_empty_other {store other : Buckets} (empty : other.counts = []) :
    store.merge other = store := if_pos (List.isEmpty_iff.mpr empty)

theorem merge_of_empty {store other : Buckets} (valid : store.Valid) (otherValid : other.Valid)
    (empty : store.counts = []) : store.merge other = other := by
  by_cases otherEmpty : other.counts = []
  · rw [merge_of_empty_other otherEmpty]
    cases store
    cases other
    simp_all [Buckets.Valid]
  · have filled : ¬other.counts.isEmpty := fun nil => otherEmpty (List.isEmpty_iff.mp nil)
    rw [Buckets.merge, if_neg filled, if_pos (List.isEmpty_iff.mpr empty)]

theorem native_merge (twins : Twins alpha samples ours portable)
    (otherTwins : Twins alpha otherSamples other otherPortable)
    (fits : Machine.CanMerge ours other) :
    ∃ returned, Machine.merge ours other = some returned ∧
      Merged ours other (Machine.kept ours returned) := by
  have mapping : ¬Machine.Mismatch ours other := by
    unfold Machine.Mismatch
    rw [twins.nativeAlpha, otherTwins.nativeAlpha, twins.gamma, otherTwins.gamma, sub_self,
      sub_self, abs_zero]
    norm_num
  rw [Machine.merge, if_neg mapping]
  by_cases otherNone : other.count = 0
  · obtain ⟨store, negativeStore, zeros⟩ := otherTwins.empty_of_count otherNone
    refine ⟨_, if_pos otherNone, ?_, ?_, ?_, ?_, rfl, rfl⟩
    · exact (merge_of_empty_other store).symm
    · exact (merge_of_empty_other negativeStore).symm
    · rw [zeros]
      rfl
    · rw [otherNone]
      rfl
  · rw [if_neg otherNone]
    by_cases none : ours.count = 0
    · obtain ⟨store, negativeStore, zeros⟩ := twins.empty_of_count none
      refine ⟨_, if_pos none, ?_, ?_, ?_, ?_, ?_, ?_⟩
      · exact (merge_of_empty twins.valid.1 otherTwins.valid.1 store).symm
      · exact (merge_of_empty twins.valid.2 otherTwins.valid.2 negativeStore).symm
      · rw [zeros, Nat.zero_add]
        rfl
      · rw [none, Nat.zero_add]
        rfl
      · exact otherTwins.nativeAlpha.trans twins.nativeAlpha.symm
      · exact otherTwins.gamma.trans twins.gamma.symm
    · rw [if_neg none]
      obtain ⟨positive, negative⟩ := fits mapping otherNone none
      simp only [(Machine.mergeStore_eq twins.valid.1 otherTwins.valid.1 positive).1,
        (Machine.mergeStore_eq twins.valid.2 otherTwins.valid.2 negative).1,
        Option.bind_eq_bind, Option.bind_some]
      exact ⟨_, rfl, rfl, rfl, rfl, rfl, rfl, rfl⟩

theorem mergePositive_eq (alpha : ℚ) (store otherStore : Portable.DdStore) :
    Portable.DdSketch.mergePositive (.finite alpha) (.finite alpha) store otherStore =
      store.merge otherStore := by
  have difference : (F64.finite alpha).sub (.finite alpha) = .finite 0 := by
    rw [F64.sub, F64.neg, F64.add, add_neg_cancel]
    exact F64.round_of_exact (by decide)
  have small : ¬Portable.DdSketch.epsilon.Less (F64.finite alpha |>.sub (.finite alpha)).abs := by
    rw [difference, F64.abs, abs_zero]
    decide +kernel
  rw [Portable.DdSketch.mergePositive, if_neg small]

theorem zeros_bound {left right total : UInt64}
    (added : Portable.checkedAddU64 left right = some total) :
    total.toNat = left.toNat + right.toNat := by
  unfold Portable.checkedAddU64 at added
  by_cases room : left.toNat + right.toNat < 2 ^ 64
  · rw [if_pos room] at added
    rw [← Option.some.inj added, UInt64.toNat_add, Nat.mod_eq_of_lt room]
  · rw [if_neg room] at added
    cases added

theorem merge (twins : Twins alpha samples ours portable)
    (otherTwins : Twins alpha otherSamples other otherPortable)
    (within : portable.positive.UnionWithin otherPortable.positive ∧
      portable.negative.UnionWithin otherPortable.negative)
    (few : samples + otherSamples ≤ u64Max) (fits : Machine.CanMerge ours other) :
    ∃ returned, Machine.merge ours other = some returned ∧
      Twins alpha (samples + otherSamples) (Machine.kept ours returned)
        (portable.merge otherPortable).1 := by
  obtain ⟨returned, ran, merged⟩ := twins.native_merge otherTwins fits
  obtain ⟨again, ranAgain, valid⟩ := Machine.merge_some twins.valid otherTwins.valid fits
  obtain rfl := Option.some.inj (ran.symm.trans ranAgain)
  have total := twins.total
  have otherTotal := otherTwins.total
  obtain ⟨positive, positiveRan, positiveSame⟩ :=
    twins.positive.merge otherTwins.positive within.1 (by omega)
  obtain ⟨negative, negativeRan, negativeSame⟩ :=
    twins.negative.merge otherTwins.negative within.2 (by omega)
  have zeros : Portable.checkedAddU64 portable.zeroCount otherPortable.zeroCount =
      some (portable.zeroCount + otherPortable.zeroCount) := by
    rw [twins.zeroCount] at total
    rw [otherTwins.zeroCount] at otherTotal
    unfold u64Max at few
    exact if_pos (by omega)
  have portableRan : (portable.merge otherPortable).1 =
      ⟨portable.alpha, positive, negative, portable.zeroCount + otherPortable.zeroCount⟩ := by
    unfold Portable.DdSketch.merge
    rw [twins.portableAlpha, otherTwins.portableAlpha, mergePositive_eq, mergePositive_eq,
      positiveRan, negativeRan, zeros]
    rfl
  refine ⟨returned, ran, ?_⟩
  rw [portableRan]
  have sum := (ours.store.merge_spec other.store).2
  have negativeSum := (ours.negativeStore.merge_spec other.negativeStore).2
  have zeroBound := zeros_bound zeros
  refine ⟨⟨?_, merged.store ▸ positiveSame, merged.negativeStore ▸ negativeSame⟩,
    merged.alpha.trans twins.nativeAlpha, merged.gamma.trans twins.gamma, twins.portableAlpha,
    valid, ?_, ?_, merged.store ▸ filled_merge twins.filled otherTwins.filled,
    merged.negativeStore ▸ filled_merge twins.negativeFilled otherTwins.negativeFilled⟩
  · rw [merged.zeroCount, twins.zeroCount, otherTwins.zeroCount]
    exact zeroBound.symm
  · rw [merged.count, twins.count, otherTwins.count]
  · rw [merged.store, merged.negativeStore, merged.zeroCount, sum, negativeSum]
    omega

end Twins

/-! ### The layouts of a tree -/

/-- The buckets of a payload: the counts and the offset of the positive store and, where there are
negative samples or zeros, those of the negative store and the zero count. -/
structure WireStores where
  counts : List ℕ
  offset : ℤ
  signed : Option (List ℕ × ℤ × ℕ)
  deriving DecidableEq

def DDSketch.wireStores (sketch : DDSketch) : WireStores where
  counts := sketch.store.counts
  offset := sketch.store.offset
  signed :=
    if sketch.negativeStore.counts.isEmpty ∧ sketch.zeroCount = 0 then none
    else some (sketch.negativeStore.counts, sketch.negativeStore.offset, sketch.zeroCount)

def Portable.DdSketch.wireStores (sketch : Portable.DdSketch) : WireStores where
  counts := sketch.positive.counts.map UInt64.toNat
  offset := sketch.positive.offset
  signed :=
    if sketch.negative.counts.isEmpty ∧ sketch.zeroCount = 0 then none
    else some (sketch.negative.counts.map UInt64.toNat, sketch.negative.offset,
      sketch.zeroCount.toNat)

theorem SameLayout.wireStores {ours : DDSketch} {portable : Portable.DdSketch}
    (same : SameLayout ours portable) : ours.wireStores = portable.wireStores := by
  have zero : portable.zeroCount = 0 ↔ portable.zeroCount.toNat = 0 := UInt64.toNat_inj.symm
  simp only [DDSketch.wireStores, Portable.DdSketch.wireStores, same.positive.counts,
    same.positive.offset, same.negative.counts, same.negative.offset, same.zeroCount, zero,
    List.isEmpty_map]

namespace TwinTree

variable {index : BucketIndex} {alpha : ℚ}

theorem twins (valid : 0 < alpha ∧ alpha < 1) {tree : TwinTree}
    (within : tree.UnionsWithin index alpha) (few : tree.samples index alpha ≤ u64Max)
    (fits : (tree.ours alpha valid).Fits index) :
    ∃ ours portable, (tree.ours alpha valid).outcome index = some ours ∧
      tree.portable index alpha = some portable ∧
      Twins alpha (tree.samples index alpha) ours portable := by
  induction tree with
  | new =>
    refine ⟨_, _, rfl, rfl, ⟨rfl, ⟨rfl, rfl⟩, ⟨rfl, rfl⟩⟩, rfl, rfl, rfl,
      ⟨Machine.valid_new, Machine.valid_new⟩, rfl, rfl, fun _ => rfl, fun _ => rfl⟩
  | update before value hypothesis =>
    obtain ⟨ours, portable, ran, portableRan, same⟩ :=
      hypothesis within ((Nat.le_add_right _ _).trans few) fits.1
    obtain ⟨returned, updated, added, portableAdded, after⟩ := same.update few (fits.2 ours ran)
    refine ⟨_, _, ?_, ?_, after⟩
    · simp only [TwinTree.ours, Machine.History.outcome, ran, added, Option.bind_eq_bind,
        Option.bind_some]
    · simp only [TwinTree.portable, portableRan, portableAdded, Option.bind_eq_bind,
        Option.bind_some]
  | merge before other hypothesis otherHypothesis =>
    obtain ⟨ours, portable, ran, portableRan, same⟩ :=
      hypothesis within.1 ((Nat.le_add_right _ _).trans few) fits.1
    obtain ⟨otherNative, otherPortable, otherRan, otherPortableRan, otherSame⟩ :=
      otherHypothesis within.2.1 ((Nat.le_add_left _ _).trans few) fits.2.1
    obtain ⟨returned, merged, after⟩ :=
      same.merge otherSame (within.2.2 portable portableRan otherPortable otherPortableRan) few
        (fits.2.2 ours ran otherNative otherRan)
    refine ⟨_, _, ?_, ?_, after⟩
    · simp only [TwinTree.ours, Machine.History.outcome, ran, otherRan, merged,
        Option.bind_eq_bind, Option.bind_some]
    · simp only [TwinTree.portable, portableRan, otherPortableRan, Option.bind_eq_bind,
        Option.bind_some]

/-- Fed the same samples and merged alike, the native and the portable sketch hold the same zero
count and the same stores, and emit them alike. -/
theorem layouts_agree (index : BucketIndex) (alpha : ℚ) (valid : 0 < alpha ∧ alpha < 1)
    (tree : TwinTree) (within : tree.UnionsWithin index alpha)
    (few : tree.samples index alpha ≤ u64Max) (fits : (tree.ours alpha valid).Fits index) :
    ∃ ours portable, (tree.ours alpha valid).outcome index = some ours ∧
      tree.portable index alpha = some portable ∧ SameLayout ours portable ∧
      ours.wireStores = portable.wireStores := by
  obtain ⟨ours, portable, ran, portableRan, same⟩ := twins valid within few fits
  exact ⟨ours, portable, ran, portableRan, same.toSameLayout, same.toSameLayout.wireStores⟩

/-- Samples of both signs, a tiny one and a merge. -/
def smallTree : TwinTree :=
  .merge (.update (.update (.update .new (.finite 1)) (.finite (-1))) (.finite (1 / 2 ^ 1022)))
    (.update .new (.finite 1))

theorem layouts_agree_smallTree :
    ∃ ours portable, (smallTree.ours (1 / 3) Machine.third_inside).outcome Machine.thirds =
        some ours ∧ smallTree.portable Machine.thirds (1 / 3) = some portable ∧
      SameLayout ours portable ∧ ours.wireStores = portable.wireStores :=
  layouts_agree Machine.thirds (1 / 3) Machine.third_inside smallTree
    ⟨trivial, trivial, by decide +kernel⟩ (by decide +kernel) (by decide +kernel)

/-- The index mapping of an alpha of 2 to the power of -22, as far as it concerns magnitudes of 2
to the powers of -1000 and 1000. -/
def finest : BucketIndex where
  bounds _ := (1 / 2 ^ 1021, 2 ^ 1022)
  keyFor _ magnitude := if magnitude < 1 then -1453634997 else 1453634996
  binRepresentative _ _ := .finite 1
  between _ magnitude _ _ _ _ := by
    have below : (1 : ℚ) / 2 ^ 1021 < 1 :=
      (div_lt_one (by positivity)).mpr (one_lt_pow₀ one_lt_two (by decide))
    have above : ¬(2 : ℚ) ^ 1022 < 1 := not_lt.mpr (one_le_pow₀ one_le_two)
    rw [if_pos below, if_neg above]
    by_cases small : magnitude < 1
    · rw [if_pos small]
      decide
    · rw [if_neg small]
      decide

theorem tiny_alpha_inside : (0 : ℚ) < 1 / 2 ^ 22 ∧ (1 : ℚ) / 2 ^ 22 < 1 := by norm_num

/-- Two samples whose indexes are further apart than `i32` reaches. -/
def wideTree : TwinTree := .update (.update .new (.finite (1 / 2 ^ 1000))) (.finite (2 ^ 1000))

/-- The native sketch does not survive them. -/
theorem wideTree_disagrees :
    wideTree.UnionsWithin finest (1 / 2 ^ 22) ∧ wideTree.samples finest (1 / 2 ^ 22) ≤ u64Max ∧
      ¬∃ ours portable,
        (wideTree.ours (1 / 2 ^ 22) tiny_alpha_inside).outcome finest = some ours ∧
          wideTree.portable finest (1 / 2 ^ 22) = some portable ∧ SameLayout ours portable := by
  have overflows : (wideTree.ours (1 / 2 ^ 22) tiny_alpha_inside).outcome finest = none := by
    decide +kernel
  refine ⟨trivial, by decide +kernel, ?_⟩
  rintro ⟨ours, portable, ran, -, -⟩
  rw [overflows] at ran
  cases ran

end TwinTree

end AsapSketchlib
