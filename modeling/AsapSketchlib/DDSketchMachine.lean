/-
This file carries DDSketch over the bucket arithmetic of the machine: the decoders of both forms
with their checks, the updates, and every history of sketches that begin empty or decoded.

A history whose steps each find a store that can take what they add never leaves the ranges of
the machine. The index of a magnitude is any `i32` between those of the two indexable bounds.
-/

import AsapSketchlib.BucketArithmetic

namespace AsapSketchlib

/-! ### Decoding -/

/-- The payload of an envelope of metadata version 1. -/
structure DdPayload where
  counts : List UInt64
  offset : Int32
  sum : F64
  min : F64
  max : F64

/-- The fields that a serialized sketch carries. -/
structure DDSketchState where
  alpha : F64
  store : DdPayload
  negativeCounts : List UInt64
  negativeOffset : Int32
  zeroCount : UInt64

namespace DDSketch

def checkAlpha : F64 → Except String ℚ
  | .finite alpha =>
    if alpha ≤ 0 ∨ 1 ≤ alpha then .error "DDSketch alpha is not in (0, 1)" else .ok alpha
  | _ => .error "DDSketch alpha is not in (0, 1)"

def checkStoreSpan (offset : Int32) (len : ℕ) : Except String Unit :=
  if len = 0 then
    if offset ≠ 0 then .error "DDSketch empty store must be at offset 0" else .ok ()
  else if i32Max < offset.toInt + len - 1 then .error "DDSketch store span past i32"
  else .ok ()

/-- Total sample count, the checked sum of every bucket. -/
def totalCount (counts : List UInt64) : Option ℕ :=
  counts.foldlM (fun total count =>
    if total + count.toNat ≤ u64Max then some (total + count.toNat) else none) 0

/-- Checks the running scalars against the store's total count. -/
def checkScalars (count : ℕ) (sum min max : F64) : Except String Unit :=
  if count = 0 then
    if sum = .zero ∧ min = .infinite false ∧ max = .infinite true then .ok ()
    else .error "DDSketch empty store must carry sum=0, min=inf, max=-inf"
  else
    match sum, min, max with
    | .finite sum, .finite min, .finite max =>
      if 0 < min ∧ min ≤ max ∧ min ≤ sum then .ok () else .error "DDSketch scalars out of order"
    | _, _, _ => .error "DDSketch scalars must be finite for a populated store"

/-- The check of the scalars where there are negative samples or zeros. -/
def checkSignedScalars (count : ℕ) (sum min max : F64) : Except String Unit :=
  if count = 0 then checkScalars count sum min max
  else
    match sum, min, max with
    | .finite _, .finite min, .finite max =>
      if min ≤ max then .ok () else .error "DDSketch invalid signed scalars"
    | _, _, _ => .error "DDSketch invalid signed scalars"

def storeOf (counts : List UInt64) (offset : Int32) : Buckets :=
  ⟨counts.map UInt64.toNat, offset.toInt⟩

def okOr {Value : Type} (value : Option Value) (message : String) : Except String Value :=
  value.elim (.error message) .ok

def ofDdPayload (alpha : F64) (payload : DdPayload) : Except String DDSketch := do
  let alpha ← checkAlpha alpha
  checkStoreSpan payload.offset payload.counts.length
  let count ← okOr (totalCount payload.counts)
    "DDSketch bucket counts overflow the total sample count"
  checkScalars count payload.sum payload.min payload.max
  return {
    alpha
    gamma := (1 + alpha) / (1 - alpha)
    store := storeOf payload.counts payload.offset
    count
    sum := payload.sum
    min := payload.min
    max := payload.max
    negativeStore := .new
    zeroCount := 0 }

/-- `try_from`, of the derived deserializer and of a payload of metadata version 2. -/
def tryFrom (state : DDSketchState) : Except String DDSketch := do
  let alpha ← checkAlpha state.alpha
  checkStoreSpan state.store.offset state.store.counts.length
  checkStoreSpan state.negativeOffset state.negativeCounts.length
  let negativeCount ← okOr (totalCount state.negativeCounts) "DDSketch count overflow"
  let count ← okOr (do
      let positiveCount ← totalCount state.store.counts
      let total := positiveCount + negativeCount + state.zeroCount.toNat
      if total ≤ u64Max then some total else none)
    "DDSketch bucket counts overflow the total sample count"
  (if negativeCount = 0 ∧ state.zeroCount = 0 then
      checkScalars count state.store.sum state.store.min state.store.max
    else checkSignedScalars count state.store.sum state.store.min state.store.max :
      Except String Unit)
  return {
    alpha
    gamma := (1 + alpha) / (1 - alpha)
    store := storeOf state.store.counts state.store.offset
    count
    sum := state.store.sum
    min := state.store.min
    max := state.store.max
    negativeStore := storeOf state.negativeCounts state.negativeOffset
    zeroCount := state.zeroCount.toNat }

/-- What a decoder reads before the checks: an envelope of metadata version 1, or the fields of
the derived form, which an envelope of version 2 has too. -/
inductive Payload where
  | version1 (alpha : F64) (payload : DdPayload)
  | derived (state : DDSketchState)

def Payload.accept : Payload → Except String DDSketch
  | version1 alpha payload => ofDdPayload alpha payload
  | derived state => tryFrom state

end DDSketch

/-! ### Updates -/

inductive DdStore where
  | positive
  | negative
  | zero
  deriving DecidableEq

/-- A promoted bucket count. -/
structure DdDelta where
  store : DdStore
  index : Int32
  value : UInt64

/-- What floating point gives for each alpha: the indexable bounds, the index of a magnitude and
the representative of a bucket. Every index lies between those of the bounds. -/
structure BucketIndex where
  bounds : ℚ → ℚ × ℚ
  keyFor : ℚ → ℚ → Int32
  binRepresentative : ℚ → Int32 → F64
  between : ∀ alpha magnitude, 0 < alpha → alpha < 1 →
    (bounds alpha).1 ≤ magnitude → magnitude ≤ (bounds alpha).2 →
      keyFor alpha (bounds alpha).1 ≤ keyFor alpha magnitude ∧
        keyFor alpha magnitude ≤ keyFor alpha (bounds alpha).2

namespace DDSketch

variable (index : BucketIndex)

def ofAlpha (alpha : ℚ) : DDSketch where
  alpha
  gamma := (1 + alpha) / (1 - alpha)
  store := .new
  count := 0
  sum := .zero
  min := .infinite false
  max := .infinite true
  negativeStore := .new
  zeroCount := 0

def signedBucketFor (sketch : DDSketch) : F64 → Option (DdStore × Int32)
  | .finite v =>
    if (index.bounds sketch.alpha).2 < |v| then none
    else if |v| < (index.bounds sketch.alpha).1 then some (.zero, 0)
    else some (if v < 0 then .negative else .positive, index.keyFor sketch.alpha |v|)
  | _ => none

def storeFor (sketch : DDSketch) : DdStore → Buckets
  | .negative => sketch.negativeStore
  | _ => sketch.store

def withStore (sketch : DDSketch) (store : Buckets) : DdStore → DDSketch
  | .negative => { sketch with negativeStore := store }
  | _ => { sketch with store := store }

end DDSketch

namespace Machine

variable (index : BucketIndex)

/-- `try_add`. A sketch that returns an error is left as it was. -/
def tryAdd (sketch : DDSketch) : F64 → Option (Except String DDSketch)
  | .finite v =>
    if (index.bounds sketch.alpha).2 < |v| then
      some (.error "DDSketch value exceeds indexable range")
    else if u64Max ≤ sketch.count then some (.error "DDSketch count overflow")
    else
      let counted : DDSketch :=
        { sketch with
          count := sketch.count + 1
          sum := DDSketch.addToSum sketch.sum (.finite v)
          min := sketch.min.min (.finite v)
          max := sketch.max.max (.finite v) }
      if |v| < (index.bounds sketch.alpha).1 then
        some (.ok { counted with zeroCount := counted.zeroCount + 1 })
      else
        let key := (index.keyFor sketch.alpha |v|).toInt
        if v < 0 then do
          let negativeStore ← addOne counted.negativeStore key
          some (.ok { counted with negativeStore })
        else do
          let store ← addOne counted.store key
          some (.ok { counted with store })
  | _ => some (.error "DDSketch requires finite values")

def applyZeroDelta (sketch : DDSketch) (count : ℕ) : DDSketch :=
  { sketch with
    count := sketch.count + count
    zeroCount := sketch.zeroCount + count
    min := if count ≠ 0 then sketch.min.min .zero else sketch.min
    max := if count ≠ 0 then sketch.max.max .zero else sketch.max }

/-- The count of a delta is added to the sketch, with the representative of the bucket. -/
def applyScalars (sketch : DDSketch) (delta : DdDelta) : DDSketch :=
  let value := index.binRepresentative sketch.alpha delta.index
  let representative := if delta.store = .negative then value.neg else value
  { sketch with
    count := sketch.count + delta.value.toNat
    sum := DDSketch.addToSum sketch.sum (representative.mul (.ofInt delta.value.toNat))
    min := if representative.Less sketch.min then representative else sketch.min
    max := if sketch.max.Less representative then representative else sketch.max }

def Indexable (sketch : DDSketch) (k : Int32) : Prop :=
  index.keyFor sketch.alpha (index.bounds sketch.alpha).1 ≤ k ∧
    k ≤ index.keyFor sketch.alpha (index.bounds sketch.alpha).2

instance (sketch : DDSketch) (k : Int32) : Decidable (Indexable index sketch k) :=
  inferInstanceAs (Decidable (_ ∧ _))

def applyDelta (sketch : DDSketch) (delta : DdDelta) : Option DDSketch :=
  if delta.store = .zero then some (applyZeroDelta sketch delta.value.toNat)
  else if delta.value = 0 then some sketch
  else if ¬Indexable index sketch delta.index then some sketch
  else do
    let grown ← ensure (sketch.storeFor delta.store) delta.index.toInt
    let store ← addAt grown delta.index.toInt delta.value.toNat
    some (applyScalars index (sketch.withStore store delta.store) delta)

def Mismatch (sketch other : DDSketch) : Prop :=
  1 / 10 ^ 12 ≤ |sketch.alpha - other.alpha| ∨ 1 / 10 ^ 12 ≤ |sketch.gamma - other.gamma|

instance (sketch other : DDSketch) : Decidable (Mismatch sketch other) :=
  inferInstanceAs (Decidable (_ ∨ _))

/-- Merges another sketch, which needs the same index mapping. -/
def merge (sketch other : DDSketch) : Option (Except String DDSketch) :=
  if Mismatch sketch other then
    some (.error "cannot merge DDSketches with different index mappings")
  else if other.count = 0 then some (.ok sketch)
  else if sketch.count = 0 then some (.ok other)
  else do
    let store ← mergeStore sketch.store other.store
    let negativeStore ← mergeStore sketch.negativeStore other.negativeStore
    some (.ok
      { sketch with
        count := sketch.count + other.count
        sum := DDSketch.addToSum sketch.sum other.sum
        min := if other.min.Less sketch.min then other.min else sketch.min
        max := if sketch.max.Less other.max then other.max else sketch.max
        store
        negativeStore
        zeroCount := sketch.zeroCount + other.zeroCount })

end Machine

/-! ### Histories -/

namespace Machine

variable (index : BucketIndex)

/-- What is done to sketches that begin empty, with an alpha inside the unit interval, or
decoded from a payload that is accepted. -/
inductive History where
  | new (alpha : ℚ) (valid : 0 < alpha ∧ alpha < 1)
  | decoded (payload : DDSketch.Payload) (sketch : DDSketch)
    (accepted : payload.accept = .ok sketch)
  | tryAdd (before : History) (value : F64)
  | applyDelta (before : History) (delta : DdDelta)
  | merge (before other : History)
  | getValueAtQuantile (before : History) (q : F64)

def kept (before : DDSketch) : Except String DDSketch → DDSketch
  | .ok after => after
  | .error _ => before

namespace History

def outcome : History → Option DDSketch
  | new alpha _ => some (.ofAlpha alpha)
  | decoded _ sketch _ => some sketch
  | tryAdd before value => do
    let sketch ← before.outcome
    let returned ← Machine.tryAdd index sketch value
    some (kept sketch returned)
  | applyDelta before delta => do
    let sketch ← before.outcome
    Machine.applyDelta index sketch delta
  | merge before other => do
    let sketch ← before.outcome
    let otherSketch ← other.outcome
    let returned ← Machine.merge sketch otherSketch
    some (kept sketch returned)
  | getValueAtQuantile before _ => before.outcome

end History

/-! ### Steps that fit -/

def CanTryAdd (sketch : DDSketch) (value : F64) : Prop :=
  sketch.count < u64Max → ∀ target ∈ sketch.signedBucketFor index value, target.1 ≠ .zero →
    (sketch.storeFor target.1).CanAdd target.2.toInt

def CanApplyDelta (sketch : DDSketch) (delta : DdDelta) : Prop :=
  delta.store ≠ .zero → delta.value ≠ 0 → Indexable index sketch delta.index →
    (sketch.storeFor delta.store).CanApply delta.index.toInt

/-- Both stores of a sketch with samples can take those of the other. -/
def CanMerge (sketch other : DDSketch) : Prop :=
  ¬Mismatch sketch other → other.count ≠ 0 → sketch.count ≠ 0 →
    sketch.store.CanMerge other.store ∧ sketch.negativeStore.CanMerge other.negativeStore

instance (sketch : DDSketch) (value : F64) : Decidable (CanTryAdd index sketch value) :=
  inferInstanceAs (Decidable (_ → ∀ target ∈ sketch.signedBucketFor index value,
    target.1 ≠ .zero → (sketch.storeFor target.1).CanAdd target.2.toInt))

instance (sketch : DDSketch) (delta : DdDelta) : Decidable (CanApplyDelta index sketch delta) :=
  inferInstanceAs (Decidable (_ → _ → _ → Buckets.CanApply _ _))

instance (sketch other : DDSketch) : Decidable (CanMerge sketch other) :=
  inferInstanceAs (Decidable (_ → _ → _ → Buckets.CanMerge _ _ ∧ Buckets.CanMerge _ _))

def History.Fits : History → Prop
  | .new _ _ => True
  | .decoded _ _ _ => True
  | .tryAdd before value =>
    before.Fits ∧ ∀ sketch ∈ before.outcome index, CanTryAdd index sketch value
  | .applyDelta before delta =>
    before.Fits ∧ ∀ sketch ∈ before.outcome index, CanApplyDelta index sketch delta
  | .merge before other =>
    before.Fits ∧ other.Fits ∧
      ∀ sketch ∈ before.outcome index, ∀ otherSketch ∈ other.outcome index,
        CanMerge sketch otherSketch
  | .getValueAtQuantile before _ => before.Fits

instance decidableFits : ∀ history : History, Decidable (history.Fits index)
  | .new _ _ => .isTrue trivial
  | .decoded _ _ _ => .isTrue trivial
  | .tryAdd before value =>
    have := decidableFits before
    inferInstanceAs (Decidable
      (_ ∧ ∀ sketch ∈ before.outcome index, CanTryAdd index sketch value))
  | .applyDelta before delta =>
    have := decidableFits before
    inferInstanceAs (Decidable
      (_ ∧ ∀ sketch ∈ before.outcome index, CanApplyDelta index sketch delta))
  | .merge before other =>
    have := decidableFits before
    have := decidableFits other
    inferInstanceAs (Decidable
      (_ ∧ _ ∧ ∀ sketch ∈ before.outcome index, ∀ otherSketch ∈ other.outcome index,
        CanMerge sketch otherSketch))
  | .getValueAtQuantile before _ => decidableFits before

def Valid (sketch : DDSketch) : Prop := sketch.store.Valid ∧ sketch.negativeStore.Valid

variable {index} {sketch other : DDSketch}

theorem int32_range (k : Int32) : i32Min ≤ k.toInt ∧ k.toInt ≤ i32Max := by
  have low := k.le_toInt
  have high := k.toInt_lt
  unfold i32Min i32Max
  omega

theorem valid_new : Buckets.new.Valid := by
  unfold Buckets.new Buckets.Valid i32Min i32Max
  exact ⟨by decide, by decide, fun _ => rfl⟩

theorem valid_storeFor (valid : Valid sketch) (store : DdStore) :
    (sketch.storeFor store).Valid := by
  cases store with
  | positive => exact valid.1
  | negative => exact valid.2
  | zero => exact valid.1

theorem valid_withStore (valid : Valid sketch) {after : Buckets} (afterValid : after.Valid)
    (store : DdStore) : Valid (sketch.withStore after store) := by
  cases store with
  | positive => exact ⟨afterValid, valid.2⟩
  | negative => exact ⟨valid.1, afterValid⟩
  | zero => exact ⟨afterValid, valid.2⟩

theorem tryAdd_some (valid : Valid sketch) {value : F64} (fits : CanTryAdd index sketch value) :
    ∃ returned, tryAdd index sketch value = some returned ∧ Valid (kept sketch returned) := by
  cases value with
  | finite v =>
    rw [tryAdd]
    by_cases exceeds : (index.bounds sketch.alpha).2 < |v|
    · exact ⟨_, if_pos exceeds, valid⟩
    · rw [if_neg exceeds]
      by_cases full : u64Max ≤ sketch.count
      · exact ⟨_, if_pos full, valid⟩
      · rw [if_neg full]
        by_cases tiny : |v| < (index.bounds sketch.alpha).1
        · exact ⟨_, if_pos tiny, valid⟩
        · rw [if_neg tiny]
          have target := fits (Nat.lt_of_not_le full)
          rw [DDSketch.signedBucketFor, if_neg exceeds, if_neg tiny] at target
          have room := target _ rfl
          have range := int32_range (index.keyFor sketch.alpha |v|)
          by_cases negative : v < 0
          · rw [if_pos negative]
            rw [if_pos negative] at room
            obtain ⟨added, after⟩ := addOne_eq valid.2 range (room DdStore.noConfusion)
            simp only [added]
            exact ⟨_, rfl, valid.1, after⟩
          · rw [if_neg negative]
            rw [if_neg negative] at room
            obtain ⟨added, after⟩ := addOne_eq valid.1 range (room DdStore.noConfusion)
            simp only [added]
            exact ⟨_, rfl, after, valid.2⟩
  | infinite negative => exact ⟨_, rfl, valid⟩
  | nan => exact ⟨_, rfl, valid⟩

theorem applyDelta_some (valid : Valid sketch) {delta : DdDelta}
    (fits : CanApplyDelta index sketch delta) :
    ∃ after, applyDelta index sketch delta = some after ∧ Valid after := by
  unfold applyDelta
  by_cases zero : delta.store = .zero
  · exact ⟨_, if_pos zero, valid⟩
  · rw [if_neg zero]
    by_cases nothing : delta.value = 0
    · exact ⟨_, if_pos nothing, valid⟩
    · rw [if_neg nothing]
      by_cases dropped : ¬Indexable index sketch delta.index
      · exact ⟨_, if_pos dropped, valid⟩
      · rw [if_neg dropped]
        obtain ⟨store, ensured, added, after⟩ := applyAt_eq (valid_storeFor valid delta.store)
          (int32_range delta.index) (fits zero nothing (not_not.mp dropped)) delta.value.toNat
        simp only [ensured, Option.bind_eq_bind, Option.bind_some, added]
        exact ⟨_, rfl, valid_withStore valid after delta.store⟩

theorem merge_some (valid : Valid sketch) (otherValid : Valid other)
    (fits : CanMerge sketch other) :
    ∃ returned, merge sketch other = some returned ∧ Valid (kept sketch returned) := by
  unfold merge
  by_cases mismatch : Mismatch sketch other
  · exact ⟨_, if_pos mismatch, valid⟩
  · rw [if_neg mismatch]
    by_cases otherEmpty : other.count = 0
    · exact ⟨_, if_pos otherEmpty, valid⟩
    · rw [if_neg otherEmpty]
      by_cases empty : sketch.count = 0
      · exact ⟨_, if_pos empty, otherValid⟩
      · rw [if_neg empty]
        obtain ⟨positive, negative⟩ := fits mismatch otherEmpty empty
        obtain ⟨store, storeValid⟩ := mergeStore_eq valid.1 otherValid.1 positive
        obtain ⟨negativeStore, negativeValid⟩ := mergeStore_eq valid.2 otherValid.2 negative
        simp only [store, negativeStore]
        exact ⟨_, rfl, storeValid, negativeValid⟩

/-! ### Decoded sketches -/

theorem bind_eq_ok {Value Result : Type} {value : Except String Value}
    {next : Value → Except String Result} {result : Result}
    (returned : value >>= next = .ok result) :
    ∃ read, value = .ok read ∧ next read = .ok result := by
  cases value with
  | error message => cases returned
  | ok read => exact ⟨read, rfl, returned⟩

theorem valid_storeOf {counts : List UInt64} {offset : Int32}
    (checked : DDSketch.checkStoreSpan offset counts.length = .ok ()) :
    (DDSketch.storeOf counts offset).Valid := by
  refine ⟨(int32_range offset).1, (int32_range offset).2, fun nil => ?_⟩
  have empty : counts.length = 0 := by rw [List.map_eq_nil_iff.mp nil, List.length_nil]
  rw [DDSketch.checkStoreSpan, if_pos empty] at checked
  by_cases zero : offset ≠ 0
  · rw [if_pos zero] at checked
    cases checked
  · rw [not_not.mp zero]
    rfl

theorem valid_of_accepted {payload : DDSketch.Payload} (accepted : payload.accept = .ok sketch) :
    Valid sketch := by
  cases payload with
  | version1 alpha payload =>
    obtain ⟨_, -, rest⟩ := bind_eq_ok accepted
    obtain ⟨_, span, rest⟩ := bind_eq_ok rest
    obtain ⟨_, -, rest⟩ := bind_eq_ok rest
    obtain ⟨_, -, rest⟩ := bind_eq_ok rest
    cases rest
    exact ⟨valid_storeOf span, valid_new⟩
  | derived state =>
    obtain ⟨_, -, rest⟩ := bind_eq_ok accepted
    obtain ⟨_, span, rest⟩ := bind_eq_ok rest
    obtain ⟨_, negativeSpan, rest⟩ := bind_eq_ok rest
    obtain ⟨_, -, rest⟩ := bind_eq_ok rest
    obtain ⟨_, -, rest⟩ := bind_eq_ok rest
    obtain ⟨_, -, rest⟩ := bind_eq_ok rest
    cases rest
    exact ⟨valid_storeOf span, valid_storeOf negativeSpan⟩

/-! ### Histories that fit -/

theorem History.outcome_valid {history : History} (fits : history.Fits index) :
    ∃ sketch, history.outcome index = some sketch ∧ Valid sketch := by
  induction history with
  | new alpha valid => exact ⟨_, rfl, valid_new, valid_new⟩
  | decoded payload sketch accepted => exact ⟨sketch, rfl, valid_of_accepted accepted⟩
  | tryAdd before value hypothesis =>
    obtain ⟨sketch, reached, valid⟩ := hypothesis fits.1
    obtain ⟨returned, added, after⟩ := tryAdd_some valid (fits.2 sketch reached)
    refine ⟨kept sketch returned, ?_, after⟩
    rw [History.outcome, reached, Option.bind_eq_bind, Option.bind_some, added]
    rfl
  | applyDelta before delta hypothesis =>
    obtain ⟨sketch, reached, valid⟩ := hypothesis fits.1
    obtain ⟨after, applied, afterValid⟩ := applyDelta_some valid (fits.2 sketch reached)
    refine ⟨after, ?_, afterValid⟩
    rw [History.outcome, reached, Option.bind_eq_bind, Option.bind_some, applied]
  | merge before other hypothesis otherHypothesis =>
    obtain ⟨sketch, reached, valid⟩ := hypothesis fits.1
    obtain ⟨otherSketch, otherReached, otherValid⟩ := otherHypothesis fits.2.1
    obtain ⟨returned, merged, after⟩ :=
      merge_some valid otherValid (fits.2.2 sketch reached otherSketch otherReached)
    refine ⟨kept sketch returned, ?_, after⟩
    simp only [History.outcome, reached, otherReached, Option.bind_eq_bind, Option.bind_some,
      merged]
  | getValueAtQuantile before q hypothesis => exact hypothesis fits

/-- A history whose every step fits the sketch it finds stays inside the ranges of the machine. -/
theorem bucket_arithmetic_in_range (index : BucketIndex) (history : History)
    (fits : history.Fits index) : (history.outcome index).isSome := by
  obtain ⟨sketch, reached, -⟩ := History.outcome_valid fits
  rw [reached]
  rfl

theorem log_range {magnitude : ℚ} (low : 1 / 2 ^ 1021 ≤ magnitude) (high : magnitude ≤ 2 ^ 1022) :
    (Int32.ofInt (Int.log 2 magnitude)).toInt = Int.log 2 magnitude := by
  have positive : (0 : ℚ) < 1 / 2 ^ 1021 := by positivity
  have lowest : Int.log 2 ((1 : ℚ) / 2 ^ 1021) = -1021 := by
    rw [one_div, ← zpow_natCast, ← zpow_neg]
    exact Int.log_zpow (by decide) _
  have highest : Int.log 2 ((2 : ℚ) ^ 1022) = 1022 := by
    rw [← zpow_natCast]
    exact Int.log_zpow (by decide) _
  have above := Int.log_mono_right (b := 2) positive low
  have below := Int.log_mono_right (b := 2) (positive.trans_le low) high
  rw [lowest] at above
  rw [highest] at below
  exact Int32.toInt_ofInt_of_le (by omega) (by omega)

theorem log_le {magnitude larger : ℚ} (low : 1 / 2 ^ 1021 ≤ magnitude) (le : magnitude ≤ larger)
    (high : larger ≤ 2 ^ 1022) :
    Int32.ofInt (Int.log 2 magnitude) ≤ Int32.ofInt (Int.log 2 larger) := by
  have positive : (0 : ℚ) < 1 / 2 ^ 1021 := by positivity
  rw [Int32.le_iff_toInt_le, log_range low (le.trans high), log_range (low.trans le) high]
  exact Int.log_mono_right (positive.trans_le low) le

/-- The index mapping of alpha one third, whose buckets are powers of two. -/
def thirds : BucketIndex where
  bounds _ := (1 / 2 ^ 1021, 2 ^ 1022)
  keyFor _ magnitude := Int32.ofInt (Int.log 2 magnitude)
  binRepresentative _ k := .finite (4 / 3 * 2 ^ k.toInt)
  between _ _ _ _ low high := ⟨log_le le_rfl low high, log_le low high le_rfl⟩

theorem third_inside : (0 : ℚ) < 1 / 3 ∧ (1 : ℚ) / 3 < 1 := by norm_num

/-- The payload of a sketch with one sample in the bucket of `i32::MIN`. -/
def lowestPayload : DDSketch.Payload :=
  .version1 (.finite (1 / 3)) ⟨[1], Int32.minValue, .finite 1, .finite 1, .finite 1⟩

def lowestSketch : DDSketch where
  alpha := 1 / 3
  gamma := (1 + 1 / 3) / (1 - 1 / 3)
  store := ⟨[1], i32Min⟩
  count := 1
  sum := .finite 1
  min := .finite 1
  max := .finite 1
  negativeStore := .new
  zeroCount := 0

theorem lowestPayload_accept : lowestPayload.accept = .ok lowestSketch := by decide +kernel

/-- A sample of one after the decoding: the difference of its index and `i32::MIN` overflows. -/
theorem decoded_lowest_overflows :
    (History.tryAdd (.decoded lowestPayload lowestSketch lowestPayload_accept)
      (.finite 1)).outcome thirds = none := by decide +kernel

/-- A sketch with samples of both signs, a delta and a merge fits. -/
theorem bucket_arithmetic_in_range_merged :
    ((History.merge
      (.applyDelta (.tryAdd (.tryAdd (.new (1 / 3) third_inside) (.finite 1)) (.finite (-1)))
        ⟨.positive, 300, 2⟩)
      (.tryAdd (.new (1 / 3) third_inside) (.finite 1))).outcome thirds).isSome :=
  bucket_arithmetic_in_range thirds _ (by decide +kernel)

end Machine

end AsapSketchlib
