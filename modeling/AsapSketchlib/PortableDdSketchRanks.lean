/-
This file models the quantiles of the portable DDSketch over exact arithmetic and proves what a
rank is answered with. One descending rank is threaded through the negative buckets from the last
on, the zeros and the positive buckets, and finds the bucket of the element with that rank.
-/

import AsapSketchlib.DDSketchLayouts
import AsapSketchlib.PortableDdSketchDeltas

namespace AsapSketchlib

namespace Portable

/-! ### The code -/

namespace DdStore

def indexed (store : DdStore) : List (UInt64 × ℤ) :=
  store.counts.zipIdx.map fun entry => (entry.1, store.offset + entry.2)

end DdStore

namespace DdSketch

def totalCount (sketch : DdSketch) : ℕ :=
  (sketch.positive.counts ++ sketch.negative.counts).foldl
    (fun sum count => saturatingAdd sum count.toNat) sketch.zeroCount.toNat

/-- The representative of a bucket: `gamma.powf(k) * (1.0 + alpha)`. -/
def representative (alpha : ℚ) (k : ℤ) : ℚ := ((1 + alpha) / (1 - alpha)) ^ k * (1 + alpha)

def walkNegative (alpha : ℚ) : List (UInt64 × ℤ) → ℕ → Option (ℚ ⊕ ℕ)
  | [], target => some (.inr target)
  | (count, k) :: rest, target =>
    if target < count.toNat then some (.inl (-representative alpha k))
    else if count.toNat ≤ target then walkNegative alpha rest (target - count.toNat)
    else none

/-- The walk over the positive store, which falls back to the last bucket that is not empty. -/
def walkPositive (alpha : ℚ) (target : ℕ) : List (UInt64 × ℤ) → ℕ → Option ℤ → Option ℚ
  | [], _, lastNonempty => lastNonempty.map (representative alpha)
  | (count, k) :: rest, cumulative, lastNonempty =>
    let lastNonempty := if 0 < count then some k else lastNonempty
    let cumulative := saturatingAdd cumulative count.toNat
    if target < cumulative then some (representative alpha k)
    else walkPositive alpha target rest cumulative lastNonempty

def valueAtRank (sketch : DdSketch) (target : ℕ) : Option ℚ :=
  (walkNegative sketch.alphaValue sketch.negative.indexed.reverse target).bind fun walked =>
    match walked with
    | .inl answer => some answer
    | .inr target =>
      if target < sketch.zeroCount.toNat then some 0
      else if sketch.zeroCount.toNat ≤ target then
        walkPositive sketch.alphaValue (target - sketch.zeroCount.toNat) sketch.positive.indexed 0
          none
      else none

/-- Estimate the quantile at rank `q`. -/
def quantile (sketch : DdSketch) (q : ℚ) : Option ℚ :=
  let count := sketch.totalCount
  if count = 0 then none
  else sketch.valueAtRank (Nat.min ⌊q * (count - 1 : ℕ)⌋.toNat u64Max)

/-- The counts of all buckets and of the zeros, unless they overflow. -/
def checkedCount (sketch : DdSketch) : Option ℕ :=
  (sketch.positive.counts ++ sketch.negative.counts).foldlM
    (fun sum count => if sum + count.toNat ≤ u64Max then some (sum + count.toNat) else none)
    sketch.zeroCount.toNat

/-- Estimate the linearly interpolated quantile at `q * (n - 1)`. -/
def quantileInterpolated (sketch : DdSketch) (q : ℚ) : Option ℚ :=
  if ¬(0 ≤ q ∧ q ≤ 1) ∨ ¬(0 ≤ sketch.alphaValue ∧ sketch.alphaValue < 1) ∨
      sketch.alphaValue = 0 then none
  else
    sketch.checkedCount.bind fun count =>
      if count = 0 ∨ 9007199254740992 < count then none
      else
        let rank := q * (count - 1 : ℕ)
        let lowerRank := ⌊rank⌋.toNat
        let upperRank := ⌈rank⌉.toNat
        (sketch.valueAtRank lowerRank).bind fun lower =>
          (sketch.valueAtRank upperRank).bind fun upper =>
            let fraction := rank - lowerRank
            some (lower * (1 - fraction) + upper * fraction)

/-! ### The elements of a sketch -/

/-- The bucket of every element: the negative buckets by decreasing index, the zeros and the
positive buckets by increasing index. -/
def elements (sketch : DdSketch) : List SignedBucket :=
  (sketch.negative.indexed.reverse.flatMap fun entry =>
      List.replicate entry.1.toNat (SignedBucket.negative entry.2)) ++
    (List.replicate sketch.zeroCount.toNat SignedBucket.zero ++
      sketch.positive.indexed.flatMap fun entry =>
        List.replicate entry.1.toNat (SignedBucket.positive entry.2))

def representativeOf (alpha : ℚ) : SignedBucket → ℚ
  | .negative k => -representative alpha k
  | .zero => 0
  | .positive k => representative alpha k

/-! ### Walking the elements -/

section Walk

variable {alpha : ℚ}

theorem getElem?_replicate_append {Elem : Type} (size : ℕ) (elem : Elem) (rest : List Elem)
    (place : ℕ) : (List.replicate size elem ++ rest)[place]? =
      if place < size then some elem else rest[place - size]? := by
  by_cases inside : place < size
  · rw [if_pos inside, List.getElem?_append_left (by rwa [List.length_replicate]),
      List.getElem?_replicate, if_pos inside]
  · rw [if_neg inside, List.getElem?_append_right
      (by rw [List.length_replicate]; exact Nat.le_of_not_lt inside), List.length_replicate]

def negativeElements (entries : List (UInt64 × ℤ)) : List SignedBucket :=
  entries.flatMap fun entry => List.replicate entry.1.toNat (SignedBucket.negative entry.2)

def positiveElements (entries : List (UInt64 × ℤ)) : List SignedBucket :=
  entries.flatMap fun entry => List.replicate entry.1.toNat (SignedBucket.positive entry.2)

theorem walkNegative_inside {entries : List (UInt64 × ℤ)} {target : ℕ} {bucket : SignedBucket}
    (found : (negativeElements entries)[target]? = some bucket) :
    walkNegative alpha entries target = some (.inl (representativeOf alpha bucket)) := by
  induction entries generalizing target with
  | nil => exact absurd found.symm (Option.some_ne_none bucket)
  | cons entry rest hypothesis =>
    rw [negativeElements, List.flatMap_cons, getElem?_replicate_append] at found
    rw [walkNegative]
    by_cases here : target < entry.1.toNat
    · rw [if_pos here] at found ⊢
      rw [← Option.some.inj found]
      rfl
    · rw [if_neg here] at found ⊢
      rw [if_pos (Nat.le_of_not_lt here)]
      exact hypothesis found

theorem walkNegative_outside {entries : List (UInt64 × ℤ)} {target : ℕ}
    (behind : (negativeElements entries).length ≤ target) :
    walkNegative alpha entries target =
      some (.inr (target - (negativeElements entries).length)) := by
  induction entries generalizing target with
  | nil => rfl
  | cons entry rest hypothesis =>
    have size : (negativeElements (entry :: rest)).length =
        entry.1.toNat + (negativeElements rest).length := by
      rw [negativeElements, List.flatMap_cons, List.length_append, List.length_replicate]
      rfl
    rw [size] at behind ⊢
    rw [walkNegative, if_neg (Nat.not_lt.mpr ((Nat.le_add_right _ _).trans behind)),
      if_pos ((Nat.le_add_right _ _).trans behind), hypothesis (Nat.le_sub_of_add_le'
        behind), Nat.sub_sub]

theorem walkPositive_eq {entries : List (UInt64 × ℤ)} {target cumulative : ℕ}
    {bucket : SignedBucket} (lastNonempty : Option ℤ) (before : cumulative ≤ target)
    (few : cumulative + (positiveElements entries).length ≤ u64Max)
    (found : (positiveElements entries)[target - cumulative]? = some bucket) :
    walkPositive alpha target entries cumulative lastNonempty =
      some (representativeOf alpha bucket) := by
  induction entries generalizing cumulative lastNonempty with
  | nil => exact absurd found.symm (Option.some_ne_none bucket)
  | cons entry rest hypothesis =>
    have size : (positiveElements (entry :: rest)).length =
        entry.1.toNat + (positiveElements rest).length := by
      rw [positiveElements, List.flatMap_cons, List.length_append, List.length_replicate]
      rfl
    rw [size, ← Nat.add_assoc] at few
    have added : saturatingAdd cumulative entry.1.toNat = cumulative + entry.1.toNat :=
      min_eq_left ((Nat.le_add_right _ _).trans few)
    rw [positiveElements, List.flatMap_cons, getElem?_replicate_append] at found
    rw [walkPositive]
    simp only [added]
    by_cases here : target < cumulative + entry.1.toNat
    · rw [if_pos ((Nat.sub_lt_iff_lt_add' before).mpr here)] at found
      rw [if_pos here, ← Option.some.inj found]
      rfl
    · have reached := Nat.le_of_not_lt here
      rw [if_neg fun inside => here ((Nat.sub_lt_iff_lt_add' before).mp inside),
        Nat.sub_sub] at found
      rw [if_neg here]
      exact hypothesis _ reached few found

end Walk

/-! ### Ranks -/

variable {sketch : DdSketch}

theorem foldl_saturatingAdd {counts : List UInt64} {start : ℕ}
    (few : start + (counts.map UInt64.toNat).sum ≤ u64Max) :
    counts.foldl (fun sum count => saturatingAdd sum count.toNat) start =
      start + (counts.map UInt64.toNat).sum := by
  induction counts generalizing start with
  | nil => rfl
  | cons count rest hypothesis =>
    rw [List.map_cons, List.sum_cons, ← Nat.add_assoc] at few ⊢
    rw [List.foldl_cons, saturatingAdd, min_eq_left ((Nat.le_add_right _ _).trans few),
      hypothesis few]

theorem foldlM_checkedAdd {counts : List UInt64} {start : ℕ}
    (few : start + (counts.map UInt64.toNat).sum ≤ u64Max) :
    counts.foldlM (fun sum count =>
        if sum + count.toNat ≤ u64Max then some (sum + count.toNat) else none) start =
      some (start + (counts.map UInt64.toNat).sum) := by
  induction counts generalizing start with
  | nil => rfl
  | cons count rest hypothesis =>
    rw [List.map_cons, List.sum_cons, ← Nat.add_assoc] at few ⊢
    rw [List.foldlM_cons, if_pos ((Nat.le_add_right _ _).trans few)]
    exact hypothesis few

theorem length_flatMap_indexed (store : DdStore) (bucket : ℤ → SignedBucket) :
    (store.indexed.flatMap fun entry => List.replicate entry.1.toNat (bucket entry.2)).length =
      (store.counts.map UInt64.toNat).sum := by
  rw [List.length_flatMap, DdStore.indexed, List.map_map]
  have sizes : store.counts.zipIdx.map ((fun entry : UInt64 × ℤ =>
      (List.replicate entry.1.toNat (bucket entry.2)).length) ∘
        fun entry => (entry.1, store.offset + entry.2)) =
      (store.counts.zipIdx.map Prod.fst).map UInt64.toNat := by
    rw [List.map_map]
    refine List.map_congr_left fun entry _ => ?_
    exact List.length_replicate
  rw [sizes, List.zipIdx_map_fst]

theorem length_elements (sketch : DdSketch) : sketch.elements.length =
    sketch.zeroCount.toNat +
      ((sketch.positive.counts ++ sketch.negative.counts).map UInt64.toNat).sum := by
  have reversed : ∀ entries : List (UInt64 × ℤ),
      (negativeElements entries.reverse).length = (negativeElements entries).length := fun entries =>
    ((List.reverse_perm entries).flatMap_right _).length_eq
  have negative : (sketch.negative.indexed.reverse.flatMap fun entry =>
      List.replicate entry.1.toNat (SignedBucket.negative entry.2)).length =
        (sketch.negative.counts.map UInt64.toNat).sum :=
    (reversed _).trans (length_flatMap_indexed sketch.negative SignedBucket.negative)
  rw [elements, List.length_append, List.length_append, negative, List.length_replicate,
    length_flatMap_indexed sketch.positive SignedBucket.positive, List.map_append, List.sum_append]
  omega

theorem totalCount_eq (few : sketch.elements.length ≤ u64Max) :
    sketch.totalCount = sketch.elements.length := by
  rw [length_elements] at few ⊢
  exact foldl_saturatingAdd few

theorem checkedCount_eq (few : sketch.elements.length ≤ u64Max) :
    sketch.checkedCount = some sketch.elements.length := by
  rw [length_elements] at few ⊢
  exact foldlM_checkedAdd few

theorem valueAtRank_eq (few : sketch.elements.length ≤ u64Max) {target : ℕ}
    {bucket : SignedBucket} (found : sketch.elements[target]? = some bucket) :
    sketch.valueAtRank target = some (representativeOf sketch.alphaValue bucket) := by
  have parts : sketch.elements = negativeElements sketch.negative.indexed.reverse ++
      (List.replicate sketch.zeroCount.toNat SignedBucket.zero ++
        positiveElements sketch.positive.indexed) := rfl
  rw [parts] at found few
  rw [List.length_append, List.length_append] at few
  rw [valueAtRank]
  by_cases negative : target < (negativeElements sketch.negative.indexed.reverse).length
  · rw [List.getElem?_append_left negative] at found
    rw [walkNegative_inside found]
    rfl
  · have behind := Nat.le_of_not_lt negative
    rw [List.getElem?_append_right behind, getElem?_replicate_append] at found
    rw [walkNegative_outside behind, Option.bind_some]
    simp only
    by_cases zero : target - (negativeElements sketch.negative.indexed.reverse).length <
        sketch.zeroCount.toNat
    · rw [if_pos zero] at found ⊢
      rw [← Option.some.inj found]
      rfl
    · rw [if_neg zero] at found ⊢
      rw [if_pos (Nat.le_of_not_lt zero)]
      refine walkPositive_eq none (Nat.zero_le _) ?_ found
      rw [Nat.zero_add]
      exact (Nat.le_add_left _ _).trans ((Nat.le_add_left _ _).trans few)

/-! ### Elements are sorted counts -/

theorem pairwise_indexed (store : DdStore) :
    store.indexed.Pairwise fun earlier later => earlier.2 < later.2 := by
  rw [DdStore.indexed, List.pairwise_map]
  refine (pairwise_zipIdx store.counts).imp fun less => ?_
  exact Int.add_lt_add_left (Int.ofNat_lt.mpr less) store.offset

theorem pairwise_elements (sketch : DdSketch) : sketch.elements.Pairwise (· ≤ ·) := by
  have runs : ∀ (entries : List (UInt64 × ℤ)) (bucket : ℤ → SignedBucket),
      (entries.Pairwise fun earlier later => bucket earlier.2 ≤ bucket later.2) →
        (entries.flatMap fun entry => List.replicate entry.1.toNat (bucket entry.2)).Pairwise
          (· ≤ ·) := by
    intro entries bucket ascending
    refine List.pairwise_flatMap.mpr ⟨fun entry _ => List.pairwise_replicate.mpr (Or.inr le_rfl),
      ascending.imp fun le left leftMember right rightMember => ?_⟩
    rwa [List.eq_of_mem_replicate leftMember, List.eq_of_mem_replicate rightMember]
  have origin : ∀ (entries : List (UInt64 × ℤ)) (bucket : ℤ → SignedBucket),
      ∀ element ∈ entries.flatMap fun entry => List.replicate entry.1.toNat (bucket entry.2),
        ∃ k, element = bucket k := by
    intro entries bucket element member
    obtain ⟨entry, -, inRun⟩ := List.mem_flatMap.mp member
    exact ⟨entry.2, List.eq_of_mem_replicate inRun⟩
  refine List.pairwise_append.mpr ⟨runs _ SignedBucket.negative ?_, List.pairwise_append.mpr
    ⟨List.pairwise_replicate.mpr (Or.inr le_rfl), runs _ SignedBucket.positive ?_, ?_⟩, ?_⟩
  · exact List.pairwise_reverse.mpr ((pairwise_indexed sketch.negative).imp fun less =>
      (SignedBucket.negative_lt_negative less).le)
  · exact (pairwise_indexed sketch.positive).imp fun less =>
      (SignedBucket.positive_lt_positive less).le
  · intro left leftMember right rightMember
    obtain ⟨k, rfl⟩ := origin _ SignedBucket.positive right rightMember
    rw [List.eq_of_mem_replicate leftMember]
    exact (SignedBucket.zero_lt_positive k).le
  · intro left leftMember right rightMember
    obtain ⟨k, rfl⟩ := origin _ SignedBucket.negative left leftMember
    rcases List.mem_append.mp rightMember with zero | positive
    · rw [List.eq_of_mem_replicate zero]
      exact (SignedBucket.negative_lt_zero k).le
    · obtain ⟨l, rfl⟩ := origin _ SignedBucket.positive right positive
      exact ((SignedBucket.negative_lt_zero k).trans (SignedBucket.zero_lt_positive l)).le

theorem sum_indexed (store : DdStore) (k : ℤ) :
    (store.indexed.map fun entry => if entry.2 = k then entry.1.toNat else 0).sum =
      (store.countAt k).toNat := by
  have counted : ∀ (counts : List UInt64) (offset : ℤ) (start : ℕ),
      ((counts.zipIdx start).map fun entry =>
        if offset + (entry.2 : ℤ) = k then entry.1.toNat else 0).sum =
        Dense.countAt (offset + start) (counts.map UInt64.toNat) k := by
    intro counts
    induction counts with
    | nil => exact fun offset start => (Dense.countAt_nil _ k).symm
    | cons count rest hypothesis =>
      intro offset start
      rw [List.zipIdx_cons, List.map_cons, List.sum_cons, hypothesis, List.map_cons,
        Dense.countAt_cons, Nat.cast_succ, ← add_assoc]
      exact congrArg (· + _) (if_congr eq_comm rfl rfl)
  have read : (store.countAt k).toNat =
      Dense.countAt store.offset (store.counts.map UInt64.toNat) k := by
    rw [DdStore.countAt, Dense.countAt]
    split
    · rw [List.getD_eq_getElem?_getD, List.getD_eq_getElem?_getD, List.getElem?_map]
      cases store.counts[(k - store.offset).toNat]? <;> rfl
    · rfl
  rw [DdStore.indexed, List.map_map, read]
  have counts := counted store.counts store.offset 0
  rw [Nat.cast_zero, add_zero] at counts
  exact counts

theorem count_flatMap_indexed (store : DdStore) {bucket : ℤ → SignedBucket}
    (injective : Function.Injective bucket) (k : ℤ) :
    (store.indexed.flatMap fun entry =>
      List.replicate entry.1.toNat (bucket entry.2)).count (bucket k) =
        (store.countAt k).toNat := by
  rw [List.count_flatMap, ← sum_indexed]
  refine congrArg List.sum (List.map_congr_left fun entry _ => ?_)
  show (List.replicate entry.1.toNat (bucket entry.2)).count (bucket k) = _
  rw [List.count_replicate]
  exact if_congr ((beq_iff_eq).trans injective.eq_iff) rfl rfl

theorem count_flatMap_of_ne {entries : List (UInt64 × ℤ)} {bucket : ℤ → SignedBucket}
    {other : SignedBucket} (apart : ∀ k, bucket k ≠ other) :
    (entries.flatMap fun entry =>
      List.replicate entry.1.toNat (bucket entry.2)).count other = 0 := by
  refine List.count_eq_zero.mpr fun member => ?_
  obtain ⟨entry, -, inRun⟩ := List.mem_flatMap.mp member
  exact apart entry.2 (List.eq_of_mem_replicate inRun).symm

/-- How many elements a bucket has. -/
def countOf (sketch : DdSketch) : SignedBucket → ℕ
  | .negative k => (sketch.negative.countAt k).toNat
  | .zero => sketch.zeroCount.toNat
  | .positive k => (sketch.positive.countAt k).toNat

theorem count_elements (sketch : DdSketch) (bucket : SignedBucket) :
    sketch.elements.count bucket = sketch.countOf bucket := by
  have negatives : ∀ other, ((sketch.negative.indexed.reverse.flatMap fun entry =>
      List.replicate entry.1.toNat (SignedBucket.negative entry.2)).count other) =
      (sketch.negative.indexed.flatMap fun entry =>
        List.replicate entry.1.toNat (SignedBucket.negative entry.2)).count other := fun other =>
    ((List.reverse_perm _).flatMap_right _).count_eq other
  rw [elements, List.count_append, List.count_append, List.count_replicate, negatives]
  have noNegatives : ∀ other, (∀ k, SignedBucket.negative k ≠ other) →
      (sketch.negative.indexed.flatMap fun entry =>
        List.replicate entry.1.toNat (SignedBucket.negative entry.2)).count other = 0 :=
    fun _ apart => count_flatMap_of_ne apart
  have noPositives : ∀ other, (∀ k, SignedBucket.positive k ≠ other) →
      (sketch.positive.indexed.flatMap fun entry =>
        List.replicate entry.1.toNat (SignedBucket.positive entry.2)).count other = 0 :=
    fun _ apart => count_flatMap_of_ne apart
  cases bucket with
  | negative k =>
    rw [count_flatMap_indexed sketch.negative (fun _ _ => SignedBucket.negative.inj) k,
      noPositives _ fun _ same => SignedBucket.noConfusion same,
      if_neg fun same => SignedBucket.noConfusion (beq_iff_eq.mp same)]
    rfl
  | zero =>
    rw [noNegatives _ fun _ same => SignedBucket.noConfusion same,
      noPositives _ fun _ same => SignedBucket.noConfusion same, if_pos (beq_self_eq_true _),
      Nat.zero_add, Nat.add_zero]
    rfl
  | positive k =>
    rw [count_flatMap_indexed sketch.positive (fun _ _ => SignedBucket.positive.inj) k,
      noNegatives _ fun _ same => SignedBucket.noConfusion same,
      if_neg fun same => SignedBucket.noConfusion (beq_iff_eq.mp same), Nat.zero_add, Nat.zero_add]
    rfl

theorem elements_eq {buckets : List SignedBucket} (sorted : buckets.Pairwise (· ≤ ·))
    (counts : ∀ bucket, buckets.count bucket = sketch.countOf bucket) :
    sketch.elements = buckets := by
  have perm : sketch.elements.Perm buckets := List.perm_iff_count.mpr fun bucket =>
    (count_elements sketch bucket).trans (counts bucket).symm
  exact perm.eq_of_pairwise (fun _ _ _ _ => le_antisymm) (pairwise_elements sketch) sorted

end DdSketch

end Portable

end AsapSketchlib
