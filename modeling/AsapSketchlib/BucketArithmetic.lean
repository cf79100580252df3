/-
This file models the bucket arithmetic of DDSketch as the machine carries it out: indexes,
offsets and lengths are `i32`, differences become `usize`, and a slot is looked up in a vector. A
step that leaves one of these ranges has no result.

The condition under which a store can take an index, or the buckets of another store, is stated
on the store as it was before. Where it holds, the machine computes what exact arithmetic does.
-/

import AsapSketchlib.DDSketchContents

namespace AsapSketchlib

/-! ### Machine integers -/

/-- `i32::MIN`. -/
def i32Min : ℤ := -2147483648

/-- `i32::MAX`. -/
def i32Max : ℤ := 2147483647

namespace Machine

/-- The result of an addition or a subtraction of `i32`, unless it overflows. -/
def i32 (value : ℤ) : Option ℤ :=
  if i32Min ≤ value ∧ value ≤ i32Max then some value else none

/-- `value as usize`, unless the value is negative. -/
def usize (value : ℤ) : Option ℕ := if 0 ≤ value then some value.toNat else none

/-- `length as i32`: it wraps. -/
def asI32 (length : ℕ) : ℤ := (Int32.ofNat length).toInt

def addSlot (counts : List ℕ) (slot amount : ℕ) : Option (List ℕ) :=
  if slot < counts.length then some (counts.modify slot (· + amount)) else none

/-- The first and the last index of a store that is not empty. -/
def range (store : Buckets) : Option (ℤ × ℤ) := do
  let stop ← i32 (store.offset + asI32 store.counts.length)
  let right ← i32 (stop - 1)
  some (store.offset, right)

def ensure (store : Buckets) (k : ℤ) : Option Buckets :=
  if store.counts.isEmpty then do
    let offset ← i32 (k - 64)
    some ⟨List.replicate growChunk 0, offset⟩
  else do
    let (left, right) ← range store
    if k < left then
      let needed ← usize (← i32 (left - k))
      let grow := max needed growChunk
      let offset ← i32 (store.offset - asI32 grow)
      some ⟨List.replicate grow 0 ++ store.counts, offset⟩
    else if right < k then
      let needed ← usize (← i32 (k - right))
      let grow := max needed growChunk
      some ⟨store.counts ++ List.replicate grow 0, store.offset⟩
    else some store

def addAt (store : Buckets) (k : ℤ) (amount : ℕ) : Option Buckets := do
  let slot ← usize (← i32 (k - store.offset))
  let counts ← addSlot store.counts slot amount
  some ⟨counts, store.offset⟩

def addOne (store : Buckets) (k : ℤ) : Option Buckets := do
  let idx ← i32 (k - store.offset)
  if 0 ≤ idx ∧ idx.toNat < store.counts.length then
    some ⟨store.counts.modify idx.toNat (· + 1), store.offset⟩
  else
    let grown ← ensure store k
    addAt grown k 1

/-- The loop that adds the counts of a store to the merged vector, from its `i`-th on. -/
def copy (left newL : ℤ) : ℕ → List ℕ → List ℕ → Option (List ℕ)
  | _, [], merged => some merged
  | i, count :: rest, merged => do
    let k ← i32 (left + asI32 i)
    let slot ← usize (← i32 (k - newL))
    let merged ← addSlot merged slot count
    copy left newL (i + 1) rest merged

def mergeStore (store other : Buckets) : Option Buckets :=
  if other.counts.isEmpty then some store
  else if store.counts.isEmpty then some other
  else do
    let (selfL, selfR) ← range store
    let (otherL, otherR) ← range other
    let newL := min selfL otherL
    let newR := max selfR otherR
    let span ← i32 (newR - newL)
    let newLen ← usize (← i32 (span + 1))
    let merged ← copy selfL newL 0 store.counts (List.replicate newLen 0)
    let merged ← copy otherL newL 0 other.counts merged
    some ⟨merged, newL⟩

theorem i32_eq {value : ℤ} (low : i32Min ≤ value) (high : value ≤ i32Max) :
    i32 value = some value := if_pos ⟨low, high⟩

theorem usize_eq {value : ℤ} (nonneg : 0 ≤ value) : usize value = some value.toNat :=
  if_pos nonneg

theorem asI32_eq {length : ℕ} (small : (length : ℤ) ≤ i32Max) : asI32 length = length := by
  unfold i32Max at small
  exact Int32.toInt_ofNat_of_lt (by omega)

theorem modify_eq_nil {counts : List ℕ} {slot : ℕ} {change : ℕ → ℕ}
    (nil : counts.modify slot change = []) : counts = [] := by
  rw [← List.length_eq_zero_iff, ← List.length_modify change, nil]
  rfl

theorem addSlot_eq {counts : List ℕ} {slot : ℕ} (inside : slot < counts.length) (amount : ℕ) :
    addSlot counts slot amount = some (counts.modify slot (· + amount)) := if_pos inside

end Machine

/-! ### What a store can take -/

namespace Buckets

/-- The first index is an `i32`, that of an empty store zero. -/
def Valid (store : Buckets) : Prop :=
  i32Min ≤ store.offset ∧ store.offset ≤ i32Max ∧ (store.counts = [] → store.offset = 0)

/-- Indexes from one to another end below `i32::MAX` and are at most `i32::MAX` many. -/
def Narrow (left right : ℤ) : Prop := right < i32Max ∧ right - left < i32Max

/-- The distance between an index and the first of the store is an `i32`. -/
def Near (store : Buckets) (k : ℤ) : Prop :=
  k - store.offset ≤ i32Max ∧ store.offset - k ≤ i32Max

def Has (store : Buckets) (k : ℤ) : Prop := store.offset ≤ k ∧ k ≤ store.right

/-- The store can grow to an index: what it has is narrow, and a chunk that begins below the index
begins at an `i32`. -/
def CanGrow (store : Buckets) (k : ℤ) : Prop :=
  if store.counts.isEmpty then i32Min + 64 ≤ k
  else
    Narrow store.offset store.right ∧
      (k < store.offset → k ≤ store.offset - 128 ∨ i32Min + 128 ≤ store.offset)

def CanAdd (store : Buckets) (k : ℤ) : Prop := store.Near k ∧ (store.Has k ∨ store.CanGrow k)

def CanApply (store : Buckets) (k : ℤ) : Prop := store.Near k ∧ store.CanGrow k

/-- The store can take another: one of them is empty, or what they reach together is narrow. -/
def CanMerge (store other : Buckets) : Prop :=
  store.counts.isEmpty ∨ other.counts.isEmpty ∨
    Narrow (min store.offset other.offset) (max store.right other.right)

instance (left right : ℤ) : Decidable (Narrow left right) := inferInstanceAs (Decidable (_ ∧ _))

instance (store : Buckets) (k : ℤ) : Decidable (store.CanGrow k) :=
  inferInstanceAs (Decidable (if store.counts.isEmpty then _ else Narrow _ _ ∧ (_ → _ ∨ _)))

instance (store : Buckets) (k : ℤ) : Decidable (store.CanAdd k) :=
  inferInstanceAs (Decidable ((_ ∧ _) ∧ ((_ ∧ _) ∨ store.CanGrow k)))

instance (store : Buckets) (k : ℤ) : Decidable (store.CanApply k) :=
  inferInstanceAs (Decidable ((_ ∧ _) ∧ store.CanGrow k))

instance (store other : Buckets) : Decidable (store.CanMerge other) :=
  inferInstanceAs (Decidable (_ ∨ _ ∨ Narrow _ _))

end Buckets

/-! ### One store -/

namespace Machine

variable {store other : Buckets} {k : ℤ}

theorem range_eq (valid : store.Valid) (some_bucket : ¬store.counts.isEmpty)
    (narrow : Buckets.Narrow store.offset store.right) :
    range store = some (store.offset, store.right) := by
  have filled : 0 < store.counts.length :=
    List.length_pos_iff.mpr fun empty => some_bucket (List.isEmpty_iff.mpr empty)
  obtain ⟨low, high, -⟩ := valid
  unfold Buckets.Narrow Buckets.right at narrow
  unfold i32Min at low
  unfold i32Max at high narrow
  have length : asI32 store.counts.length = store.counts.length :=
    asI32_eq (by unfold i32Max; omega)
  have stop : i32 (store.offset + store.counts.length) = some _ :=
    i32_eq (by unfold i32Min; omega) (by unfold i32Max; omega)
  have right : i32 (store.offset + store.counts.length - 1) = some _ :=
    i32_eq (by unfold i32Min; omega) (by unfold i32Max; omega)
  rw [range, length, stop, Option.bind_eq_bind, Option.bind_some, right]
  rfl

theorem narrow_of_le {left right newL newR : ℤ} (low : newL ≤ left) (high : right ≤ newR)
    (narrow : Buckets.Narrow newL newR) : Buckets.Narrow left right :=
  ⟨high.trans_lt narrow.1, (Int.sub_le_sub high low).trans_lt narrow.2⟩

theorem ensure_empty (empty : store.counts.isEmpty) (high : k ≤ i32Max)
    (grows : store.CanGrow k) :
    ensure store k = some (store.ensure k) ∧ (store.ensure k).Valid := by
  rw [Buckets.CanGrow, if_pos empty] at grows
  unfold i32Max at high
  unfold i32Min at grows
  have offset : i32 (k - 64) = some (k - 64) :=
    i32_eq (by unfold i32Min; omega) (by unfold i32Max; omega)
  rw [ensure, if_pos empty, offset, Buckets.ensure, if_pos empty]
  refine ⟨rfl, ?_, ?_, fun nil => ?_⟩
  · show i32Min ≤ k - 64
    unfold i32Min
    omega
  · show k - 64 ≤ i32Max
    unfold i32Max
    omega
  · exact absurd (congrArg List.length nil) (Nat.succ_ne_zero 127)

theorem ensure_filled (valid : store.Valid) (some_bucket : ¬store.counts.isEmpty)
    (index : i32Min ≤ k ∧ k ≤ i32Max) (near : store.Near k) (grows : store.CanGrow k) :
    ensure store k = some (store.ensure k) ∧ (store.ensure k).Valid := by
  rw [Buckets.CanGrow, if_neg some_bucket] at grows
  obtain ⟨narrow, chunk⟩ := grows
  rw [ensure, if_neg some_bucket, range_eq valid some_bucket narrow, Buckets.ensure,
    if_neg some_bucket]
  simp only [Option.bind_eq_bind, Option.bind_some]
  have filled : store.counts ≠ [] := fun empty => some_bucket (List.isEmpty_iff.mpr empty)
  obtain ⟨low, high, -⟩ := id valid
  unfold Buckets.Near i32Max at near
  unfold i32Min at index low chunk
  unfold i32Max at index high
  by_cases below : k < store.offset
  · rw [if_pos below, if_pos below]
    have needed : i32 (store.offset - k) = some (store.offset - k) :=
      i32_eq (by unfold i32Min; omega) (by unfold i32Max; omega)
    rw [needed, Option.bind_some, usize_eq (by omega), Option.bind_some]
    generalize enough : max (store.offset - k).toNat growChunk = grow
    have side := chunk below
    unfold growChunk at enough
    have length : asI32 grow = grow := asI32_eq (by unfold i32Max; omega)
    have offset : i32 (store.offset - grow) = some (store.offset - grow) :=
      i32_eq (by unfold i32Min; omega) (by unfold i32Max; omega)
    rw [length, offset]
    refine ⟨rfl, ?_, ?_, fun nil => ?_⟩
    · show i32Min ≤ store.offset - grow
      unfold i32Min
      omega
    · show store.offset - grow ≤ i32Max
      unfold i32Max
      omega
    · exact absurd (List.append_eq_nil_iff.mp nil).2 filled
  · rw [if_neg below, if_neg below]
    by_cases above : store.right < k
    · rw [if_pos above, if_pos above]
      have reached : store.offset ≤ store.right := by
        have size := List.length_pos_iff.mpr filled
        unfold Buckets.right
        omega
      have needed : i32 (k - store.right) = some (k - store.right) :=
        i32_eq (by unfold i32Min; omega) (by unfold i32Max; omega)
      rw [needed, Option.bind_some, usize_eq (by omega)]
      exact ⟨rfl, valid.1, valid.2.1, fun nil => absurd (List.append_eq_nil_iff.mp nil).1 filled⟩
    · rw [if_neg above, if_neg above]
      exact ⟨rfl, valid⟩

theorem ensure_eq (valid : store.Valid) (index : i32Min ≤ k ∧ k ≤ i32Max) (near : store.Near k)
    (grows : store.CanGrow k) :
    ensure store k = some (store.ensure k) ∧ (store.ensure k).Valid := by
  by_cases empty : store.counts.isEmpty
  · exact ensure_empty empty index.2 grows
  · exact ensure_filled valid empty index near grows

theorem ensure_near (near : store.Near k) : k - (store.ensure k).offset ≤ i32Max := by
  unfold Buckets.ensure
  split
  · show k - (k - 64) ≤ i32Max
    unfold i32Max
    omega
  · split
    · show k - (store.offset - (max (store.offset - k).toNat growChunk : ℕ)) ≤ i32Max
      unfold growChunk i32Max
      omega
    · split
      · exact near.1
      · exact near.1

theorem addAt_eq (near : store.Near k) (amount : ℕ) :
    addAt (store.ensure k) k amount =
      some ⟨(store.ensure k).counts.modify (k - (store.ensure k).offset).toNat (· + amount),
        (store.ensure k).offset⟩ := by
  obtain ⟨-, -, low, high⟩ := store.ensure_spec k
  have difference : i32 (k - (store.ensure k).offset) = some _ :=
    i32_eq (by unfold i32Min; omega) (ensure_near near)
  rw [addAt, difference, Option.bind_eq_bind, Option.bind_some, usize_eq (by omega),
    Option.bind_eq_bind, Option.bind_some, addSlot_eq (by omega)]
  rfl

theorem addOne_eq (valid : store.Valid) (index : i32Min ≤ k ∧ k ≤ i32Max)
    (fits : store.CanAdd k) :
    addOne store k = some (store.addOne k) ∧ (store.addOne k).Valid := by
  obtain ⟨near, room⟩ := fits
  have difference : i32 (k - store.offset) = some _ :=
    i32_eq (by have := near.2; unfold i32Max at this; unfold i32Min; omega) near.1
  rw [addOne, difference, Option.bind_eq_bind, Option.bind_some, Buckets.addOne]
  by_cases inside : 0 ≤ k - store.offset ∧ (k - store.offset).toNat < store.counts.length
  · rw [if_pos inside, if_pos inside]
    exact ⟨rfl, valid.1, valid.2.1, fun nil => valid.2.2 (modify_eq_nil nil)⟩
  · rw [if_neg inside, if_neg inside]
    have grows : store.CanGrow k := by
      refine room.resolve_left fun has => inside ?_
      unfold Buckets.Has Buckets.right at has
      omega
    obtain ⟨ensured, grown⟩ := ensure_eq valid index near grows
    rw [ensured, Option.bind_eq_bind, Option.bind_some, addAt_eq near]
    exact ⟨rfl, grown.1, grown.2.1, fun nil => grown.2.2 (modify_eq_nil nil)⟩

theorem copy_eq {left newL : ℤ} {counts : List ℕ} {i : ℕ} {merged : List ℕ} (low : i32Min ≤ left)
    (start : newL ≤ left) (inside : left + i + counts.length ≤ newL + merged.length)
    (narrow : Buckets.Narrow newL (newL + merged.length - 1)) :
    copy left newL i counts merged = some (Dense.layOver newL (left + i) counts merged) := by
  induction counts generalizing i merged with
  | nil => rfl
  | cons count rest hypothesis =>
    rw [List.length_cons] at inside
    obtain ⟨high, span⟩ := id narrow
    unfold i32Max at high span
    have length : asI32 i = i := asI32_eq (by unfold i32Max; omega)
    have k : i32 (left + i) = some (left + i) :=
      i32_eq (by omega) (by unfold i32Max; omega)
    have difference : i32 (left + i - newL) = some (left + i - newL) :=
      i32_eq (by unfold i32Min; omega) (by unfold i32Max; omega)
    have slot : usize (left + i - newL) = some (left + i - newL).toNat := usize_eq (by omega)
    have added : addSlot merged (left + i - newL).toNat count = some _ :=
      addSlot_eq (by omega) count
    simp only [copy, Option.bind_eq_bind, length, k, difference, slot, added, Option.bind_some]
    rw [hypothesis (by rw [List.length_modify]; omega) (by rwa [List.length_modify]),
      Dense.layOver, Nat.cast_succ, add_assoc]

theorem copy_store {newL newR : ℤ} (low : i32Min ≤ store.offset) (left : newL ≤ store.offset)
    (right : store.right ≤ newR) (narrow : Buckets.Narrow newL newR) (merged : List ℕ)
    (size : merged.length = (newR - newL + 1).toNat) :
    copy store.offset newL 0 store.counts merged =
      some (Dense.layOver newL store.offset store.counts merged) := by
  unfold Buckets.right at right
  have last : newL + merged.length - 1 = newR := by omega
  have copied : copy store.offset newL 0 store.counts merged = _ :=
    copy_eq low left (by omega) (last ▸ narrow)
  rwa [Nat.cast_zero, add_zero] at copied

theorem mergeStore_eq (valid : store.Valid) (otherValid : other.Valid)
    (fits : store.CanMerge other) :
    mergeStore store other = some (store.merge other) ∧ (store.merge other).Valid := by
  unfold mergeStore Buckets.merge
  by_cases otherEmpty : other.counts.isEmpty
  · rw [if_pos otherEmpty, if_pos otherEmpty]
    exact ⟨rfl, valid⟩
  · rw [if_neg otherEmpty, if_neg otherEmpty]
    by_cases empty : store.counts.isEmpty
    · rw [if_pos empty, if_pos empty]
      exact ⟨rfl, otherValid⟩
    · rw [if_neg empty, if_neg empty]
      have narrow := (fits.resolve_left empty).resolve_left otherEmpty
      have left := min_le_left store.offset other.offset
      have otherLeft := min_le_right store.offset other.offset
      have right := le_max_left store.right other.right
      have otherRight := le_max_right store.right other.right
      have lowest : i32Min ≤ min store.offset other.offset := le_min valid.1 otherValid.1
      have highest : min store.offset other.offset ≤ i32Max := left.trans valid.2.1
      have storeRange : range store = some (store.offset, store.right) :=
        range_eq valid empty (narrow_of_le left right narrow)
      have otherRange : range other = some (other.offset, other.right) :=
        range_eq otherValid otherEmpty (narrow_of_le otherLeft otherRight narrow)
      simp only [storeRange, otherRange, Option.bind_eq_bind, Option.bind_some]
      obtain ⟨storeCopied, otherCopied⟩ : _ ∧ _ :=
        ⟨copy_store valid.1 left right narrow, copy_store otherValid.1 otherLeft otherRight narrow⟩
      generalize min store.offset other.offset = newL at *
      generalize max store.right other.right = newR at *
      have reached : store.offset ≤ store.right := by
        have size := List.length_pos_iff.mpr fun nil => empty (List.isEmpty_iff.mpr nil)
        unfold Buckets.right
        omega
      obtain ⟨high, width⟩ := id narrow
      unfold i32Max at high width
      have span : i32 (newR - newL) = some (newR - newL) :=
        i32_eq (by unfold i32Min; omega) (by unfold i32Max; omega)
      have newLen : i32 (newR - newL + 1) = some (newR - newL + 1) :=
        i32_eq (by unfold i32Min; omega) (by unfold i32Max; omega)
      have size : usize (newR - newL + 1) = some (newR - newL + 1).toNat := usize_eq (by omega)
      simp only [span, newLen, size, Option.bind_some]
      rw [storeCopied _ List.length_replicate, Option.bind_some, otherCopied _ (by
        rw [Dense.length_layOver, List.length_replicate])]
      refine ⟨rfl, lowest, highest, fun nil => ?_⟩
      have count := congrArg List.length nil
      rw [Dense.length_layOver, Dense.length_layOver, List.length_replicate] at count
      have none : (newR - newL + 1).toNat = 0 := count
      omega

theorem applyAt_eq (valid : store.Valid) (index : i32Min ≤ k ∧ k ≤ i32Max)
    (fits : store.CanApply k) (amount : ℕ) :
    ∃ after : Buckets, ensure store k = some (store.ensure k) ∧
      addAt (store.ensure k) k amount = some after ∧ after.Valid := by
  obtain ⟨ensured, grown⟩ := ensure_eq valid index fits.1 fits.2
  exact ⟨_, ensured, addAt_eq fits.1 amount, grown.1, grown.2.1,
    fun nil => grown.2.2 (modify_eq_nil nil)⟩

end Machine

end AsapSketchlib
