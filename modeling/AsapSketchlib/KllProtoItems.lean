/-
This file models the proto form of a KLL sketch: the items and the level boundaries that a decoder
takes from the wire, the weighted samples it lays out by them, and the quantiles it answers. Only
the last boundary is checked when a state is accepted; the file shows exactly which accepted
states are read as they were written.

A shift by the word width, an addition past the word and a slice that is not inside of the items
panic, and give nothing here. The power of ten of a value scale is a parameter.
-/

import AsapSketchlib.FallibleMaps
import AsapSketchlib.RankedGroups
import AsapSketchlib.RoundingOrder
import AsapSketchlib.SliceRuns
import AsapSketchlib.UnivMonQQueries
import Mathlib.Algebra.BigOperators.Ring.List
import Mathlib.Algebra.Order.BigOperators.Group.List
import Mathlib.Data.List.GetD

namespace AsapSketchlib

/-! ### Floats in order -/

namespace F64

theorem atMost_iff {left right : F64} (leftNumber : left ≠ nan) (rightNumber : right ≠ nan) :
    left.AtMost right ↔ left.totalRank ≤ right.totalRank := by
  cases left with
  | nan => exact absurd rfl leftNumber
  | infinite leftSign =>
    cases right with
    | nan => exact absurd rfl rightNumber
    | infinite rightSign => cases leftSign <;> cases rightSign <;> decide
    | finite value => cases leftSign <;> simp [AtMost, partialCmp, totalRank, Prod.Lex.le_iff]
  | finite left =>
    cases right with
    | nan => exact absurd rfl rightNumber
    | infinite rightSign =>
      cases rightSign <;> simp [AtMost, partialCmp, totalRank, Prod.Lex.le_iff]
    | finite right =>
      show some (compare left right) = _ ∨ some (compare left right) = _ ↔ _
      rw [Option.some.injEq, Option.some.injEq, compare_lt_iff_lt, compare_eq_iff_eq]
      rw [totalRank, totalRank, Prod.Lex.toLex_le_toLex, or_iff_right (lt_irrefl 1),
        and_iff_right rfl]
      exact le_iff_lt_or_eq.symm

end F64

/-! ### Wire states -/

/-- `KllState`, without the state of the coin. -/
structure KllState where
  k : ℕ
  m : ℕ
  numLevels : ℕ
  levels : List ℕ
  items : List F64
  offset : F64
  valueScale : ℤ
  residuals : List ℤ

def decodeValueOffset (powi : ℤ → F64) (offset : F64) (valueScale : ℤ) (residuals : List ℤ) :
    List F64 :=
  let mul := powi valueScale
  residuals.map fun r => ((F64.ofInt r).mul mul).add offset

def KllState.retained (powi : ℤ → F64) (s : KllState) : Except String (List F64) :=
  if s.residuals ≠ [] then
    if s.items ≠ [] then .error "kll: both residuals and raw items[] set"
    else .ok (decodeValueOffset powi s.offset s.valueScale s.residuals)
  else .ok s.items

structure KllProtoItems where
  items : List F64
  levels : List ℕ
  numLevels : ℕ
  k : ℕ
  m : ℕ

def sampleAtMost (left right : F64 × ℕ) : Prop := left.1.AtMost right.1

instance : DecidableRel sampleAtMost := fun left right =>
  inferInstanceAs (Decidable (left.1.AtMost right.1))

/-- `sort_by`, which unwraps the comparison of each of two or more samples with some other. -/
def sortSamples (samples : List (F64 × ℕ)) : Option (List (F64 × ℕ)) :=
  if samples.length < 2 ∨ ∀ sample ∈ samples, sample.1 ≠ .nan then
    some (samples.insertionSort sampleAtMost)
  else none

/-- `sum`, for weights. -/
def sumWeights (weights : List ℕ) : Option ℕ :=
  if weights.sum ≤ u64Max then some weights.sum else none

/-- `(q * total as f64).ceil() as u64`. -/
def rankTarget (q : F64) (total : ℕ) : ℕ := ((q.mul (F64.ofInt total)).ceil).asU64

namespace KllProtoItems

def fromState (powi : ℤ → F64) (s : KllState) : Except String KllProtoItems := do
  let items ← s.retained powi
  if s.levels.length < 2 then .error ("kll: invalid levels length " ++ toString s.levels.length)
  else if s.levels.getLast? ≠ some items.length then .error "kll: invalid item layout"
  else .ok ⟨items, s.levels, s.numLevels, s.k, s.m⟩

/-- One round of the loop over the levels: the samples of the level `h` below the last one. -/
def levelSamples (kll : KllProtoItems) (h : ℕ) : Option (List (F64 × ℕ)) := do
  if 64 ≤ h then none
  else
    let weight := 2 ^ h
    let idx := kll.numLevels - 1 - h
    if kll.levels.length ≤ idx + 1 then some []
    else
      let start ← kll.levels[idx]?
      let stop ← kll.levels[idx + 1]?
      let slice ← Slice.between kll.items start stop
      some (slice.map fun v => (v, weight))

def weightedSamples (kll : KllProtoItems) : Option (List (F64 × ℕ)) :=
  ((List.range kll.numLevels).mapM kll.levelSamples).map List.flatten

def quantile (kll : KllProtoItems) (q : F64) : Option F64 := do
  let samples ← kll.weightedSamples
  if samples = [] then some F64.zero
  else
    let sorted ← sortSamples samples
    let total ← sumWeights (sorted.map Prod.snd)
    (Ranked.walk (rankTarget q total) (sorted.map Prod.swap) 0).or (sorted.getLast?.map Prod.fst)

/-! ### Layouts -/

def boundary (kll : KllProtoItems) (level : ℕ) : ℕ := kll.levels.getD level 0

def slice (kll : KllProtoItems) (level : ℕ) : List F64 :=
  (kll.items.take (kll.boundary (level + 1))).drop (kll.boundary level)

/-- The items of the first levels, with the weights they have where these are all of the levels. -/
def layered (kll : KllProtoItems) (count : ℕ) : List (F64 × ℕ) :=
  (List.range count).flatMap fun level =>
    (kll.slice level).map fun v => (v, 2 ^ (count - 1 - level))

/-- Every item of every level slice, with the weight of its distance from the last slice. -/
def leveled (kll : KllProtoItems) : List (F64 × ℕ) := kll.layered (kll.levels.length - 1)

def totalWeight (kll : KllProtoItems) : ℕ := (kll.leveled.map Prod.snd).sum

def weightUpTo (kll : KllProtoItems) (value : F64) : ℕ :=
  ((kll.leveled.filter fun sample => sample.1.AtMost value).map Prod.snd).sum

/-- The layout is read exactly: the samples are the items with their weights, each item once, and
the quantiles are the items with the ranks. -/
structure ReadExactly (kll : KllProtoItems) : Prop where
  samples : ∃ samples, kll.weightedSamples = some samples ∧ samples.Perm kll.leveled
  once : kll.leveled.map Prod.fst = kll.items
  answers : ∀ q, (kll.quantile q).isSome
  smallest : kll.items ≠ [] → (∀ item ∈ kll.items, item ≠ .nan) →
    ∀ q : F64, F64.zero.Less q → q.AtMost F64.one →
      ∃ value ∈ kll.items, kll.quantile q = some value ∧
        rankTarget q kll.totalWeight ≤ kll.weightUpTo value ∧
        ∀ other ∈ kll.items, rankTarget q kll.totalWeight ≤ kll.weightUpTo other →
          value.AtMost other

/-- The slice of a level is one, where the level is one of the boundary list. -/
def Inside (kll : KllProtoItems) (level : ℕ) : Prop :=
  level + 1 < kll.levels.length →
    kll.boundary level ≤ kll.boundary (level + 1) ∧ kll.boundary (level + 1) ≤ kll.items.length

instance (kll : KllProtoItems) (level : ℕ) : Decidable (kll.Inside level) :=
  inferInstanceAs (Decidable (_ → _))

/-- The layouts that can be read: at most 64 levels, with slices inside of the items. Where there
are items, the level count is that of the boundary list, which starts at 0, and the total weight
is a word that does not grow when it becomes an `f64`. Two or more items are numbers. -/
structure Readable (kll : KllProtoItems) : Prop where
  fewLevels : kll.numLevels ≤ 64
  inside : ∀ level < kll.numLevels, kll.Inside level
  whole : kll.items ≠ [] → kll.numLevels + 1 = kll.levels.length ∧ kll.boundary 0 = 0
  light : kll.items ≠ [] → kll.totalWeight ≤ u64Max
  compared : kll.items.length < 2 ∨ ∀ item ∈ kll.items, item ≠ .nan
  unrounded : kll.items ≠ [] → (∀ item ∈ kll.items, item ≠ .nan) →
    (F64.ofInt kll.totalWeight).asU64 ≤ kll.totalWeight

/-! ### Reading the levels -/

variable {kll : KllProtoItems}

theorem slice_of_le {level : ℕ} (beyond : kll.levels.length ≤ level + 1) :
    kll.slice level = [] := by
  unfold slice boundary
  rw [List.getD_eq_default _ _ beyond, List.take_zero, List.drop_nil]

theorem levelSamples_eq (h : ℕ) :
    kll.levelSamples h = if h < 64 ∧ kll.Inside (kll.numLevels - 1 - h) then
      some ((kll.slice (kll.numLevels - 1 - h)).map fun v => (v, 2 ^ h)) else none := by
  unfold levelSamples
  by_cases wide : 64 ≤ h
  · rw [if_pos wide, if_neg fun both => Nat.not_lt.mpr wide both.1]
  rw [if_neg wide]
  generalize kll.numLevels - 1 - h = level
  by_cases beyond : kll.levels.length ≤ level + 1
  · have inside : kll.Inside level := fun within => absurd within (Nat.not_lt.mpr beyond)
    simp only [if_pos beyond, if_pos (And.intro (Nat.lt_of_not_le wide) inside),
      slice_of_le beyond, List.map_nil]
  · have within : level + 1 < kll.levels.length := Nat.lt_of_not_le beyond
    have start : kll.levels[level]? = some (kll.boundary level) := by
      rw [boundary, List.getD_eq_getElem _ _ (Nat.lt_of_succ_lt within)]
      exact List.getElem?_eq_getElem _
    have stop : kll.levels[level + 1]? = some (kll.boundary (level + 1)) := by
      rw [boundary, List.getD_eq_getElem _ _ within]
      exact List.getElem?_eq_getElem _
    simp only [if_neg beyond, start, stop, Option.bind_eq_bind, Option.bind_some, Slice.between]
    by_cases ordered : kll.boundary level ≤ kll.boundary (level + 1) ∧
        kll.boundary (level + 1) ≤ kll.items.length
    · rw [if_pos ordered, if_pos ⟨Nat.lt_of_not_le wide, fun _ => ordered⟩]
      rfl
    · rw [if_neg ordered, if_neg fun both => ordered (both.2 within)]
      rfl

theorem weightedSamples_eq : kll.weightedSamples =
    if kll.numLevels ≤ 64 ∧ ∀ level < kll.numLevels, kll.Inside level then
      some ((List.range kll.numLevels).flatMap fun h =>
        (kll.slice (kll.numLevels - 1 - h)).map fun v => (v, 2 ^ h)) else none := by
  have rounds : kll.levelSamples = fun h =>
      if h < 64 ∧ kll.Inside (kll.numLevels - 1 - h) then
        some ((kll.slice (kll.numLevels - 1 - h)).map fun v => (v, 2 ^ h)) else none :=
    funext levelSamples_eq
  have same : (∀ h ∈ List.range kll.numLevels, h < 64 ∧ kll.Inside (kll.numLevels - 1 - h)) ↔
      kll.numLevels ≤ 64 ∧ ∀ level < kll.numLevels, kll.Inside level := by
    simp only [List.mem_range]
    constructor
    · intro each
      refine ⟨?_, fun level below => ?_⟩
      · by_contra many
        exact absurd (each 64 (Nat.lt_of_not_le many)).1 (Nat.lt_irrefl 64)
      · have mirrored := (each (kll.numLevels - 1 - level) (by omega)).2
        rwa [Nat.sub_sub_self (Nat.le_sub_one_of_lt below)] at mirrored
    · intro all h below
      exact ⟨Nat.lt_of_lt_of_le below all.1, all.2 _ (by omega)⟩
  unfold weightedSamples
  rw [rounds, mapM_guarded]
  by_cases readable : kll.numLevels ≤ 64 ∧ ∀ level < kll.numLevels, kll.Inside level
  · rw [if_pos readable, if_pos (same.mpr readable), Option.map_some, ← List.flatMap_def]
  · rw [if_neg readable, if_neg fun each => readable (same.mp each)]
    rfl

theorem perm_layered (kll : KllProtoItems) :
    ((List.range kll.numLevels).flatMap fun h =>
      (kll.slice (kll.numLevels - 1 - h)).map fun v => (v, 2 ^ h)).Perm
        (kll.layered kll.numLevels) := by
  have mirrored : (List.range kll.numLevels).map (kll.numLevels - 1 - ·) =
      (List.range kll.numLevels).reverse := by
    rw [List.range_eq_range', List.reverse_range', Nat.zero_add, List.range_eq_range']
  have swapped : ((List.range kll.numLevels).flatMap fun h =>
      (kll.slice (kll.numLevels - 1 - h)).map fun v => (v, 2 ^ h)) =
        (List.range kll.numLevels).reverse.flatMap fun level =>
          (kll.slice level).map fun v => (v, 2 ^ (kll.numLevels - 1 - level)) := by
    rw [← mirrored, List.flatMap_map]
    refine List.flatMap_congr fun h member => ?_
    rw [Nat.sub_sub_self (Nat.le_sub_one_of_lt (List.mem_range.mp member))]
  rw [swapped]
  exact (List.reverse_perm _).flatMap_right _

/-! ### Weights of the levels -/

/-- The weight of the first levels, where these are all of the levels. -/
def layeredWeight (kll : KllProtoItems) (count : ℕ) : ℕ := ((kll.layered count).map Prod.snd).sum

theorem layeredWeight_eq (kll : KllProtoItems) (count : ℕ) : kll.layeredWeight count =
    ((List.range count).map fun level =>
      (kll.slice level).length * 2 ^ (count - 1 - level)).sum := by
  unfold layeredWeight layered
  rw [List.map_flatMap, List.flatMap_def, List.sum_flatten, List.map_map]
  refine congrArg List.sum (List.map_congr_left fun level _ => ?_)
  rw [Function.comp_apply, List.map_map]
  show ((kll.slice level).map fun _ => 2 ^ (count - 1 - level)).sum = _
  rw [List.map_const', List.sum_replicate_nat]

theorem layeredWeight_succ (kll : KllProtoItems) (count : ℕ) :
    kll.layeredWeight (count + 1) = 2 * kll.layeredWeight count + (kll.slice count).length := by
  rw [layeredWeight_eq, layeredWeight_eq, List.range_succ, List.map_append, List.sum_append,
    ← List.sum_map_mul_left, List.map_singleton, List.sum_singleton, Nat.add_sub_cancel,
    Nat.sub_self, Nat.pow_zero, Nat.mul_one]
  refine congrArg (List.sum · + _) (List.map_congr_left fun level member => ?_)
  have before : count - level = count - 1 - level + 1 := by
    have := List.mem_range.mp member
    omega
  rw [before, Nat.pow_succ, Nat.mul_comm 2, Nat.mul_assoc]

theorem layeredWeight_lt (kll : KllProtoItems) {fewer more : ℕ} (before : fewer < more) :
    2 * kll.layeredWeight fewer ≤ kll.layeredWeight more := by
  induction more, before using Nat.le_induction with
  | base =>
    rw [layeredWeight_succ]
    exact Nat.le_add_right _ _
  | succ more _ hypothesis =>
    rw [layeredWeight_succ]
    omega

theorem layeredWeight_eq_zero {first second : ℕ} (different : first ≠ second)
    (same : kll.layeredWeight first = kll.layeredWeight second) : kll.layeredWeight second = 0 := by
  rcases Nat.lt_or_gt_of_ne different with before | after
  · have double := kll.layeredWeight_lt before
    omega
  · have double := kll.layeredWeight_lt after
    omega

/-! ### Items of the levels -/

theorem map_fst_layered (kll : KllProtoItems) (count : ℕ) :
    (kll.layered count).map Prod.fst = (List.range count).flatMap kll.slice := by
  unfold layered
  rw [List.map_flatMap]
  refine List.flatMap_congr fun level _ => ?_
  rw [List.map_map]
  exact List.map_id _

theorem flatMap_slice {count : ℕ} (short : count < kll.levels.length)
    (inside : ∀ level < count, kll.Inside level) :
    (List.range count).flatMap kll.slice =
        (kll.items.take (kll.boundary count)).drop (kll.boundary 0) ∧
      kll.boundary 0 ≤ kll.boundary count := by
  induction count with
  | zero => exact ⟨(List.drop_eq_nil_of_le (List.length_take_le _ _)).symm, le_rfl⟩
  | succ count hypothesis =>
    obtain ⟨joined, ordered⟩ := hypothesis (Nat.lt_of_succ_lt short) fun level below =>
      inside level (Nat.lt_succ_of_lt below)
    obtain ⟨next, within⟩ := inside count (Nat.lt_succ_self count) short
    refine ⟨?_, ordered.trans next⟩
    have front : kll.items.take (kll.boundary count) =
        (kll.items.take (kll.boundary (count + 1))).take (kll.boundary count) := by
      rw [List.take_take, Nat.min_eq_left next]
    have size : kll.boundary count ≤ (kll.items.take (kll.boundary (count + 1))).length := by
      rw [List.length_take, Nat.min_eq_left within]
      exact next
    rw [List.range_succ, List.flatMap_append, joined, List.flatMap_singleton, slice, front]
    generalize kll.items.take (kll.boundary (count + 1)) = items at size
    calc
      (items.take (kll.boundary count)).drop (kll.boundary 0) ++ items.drop (kll.boundary count) =
          (items.take (kll.boundary count) ++ items.drop (kll.boundary count)).drop
            (kll.boundary 0) := by
        rw [List.drop_append_of_le_length]
        rwa [List.length_take, Nat.min_eq_left size]
      _ = items.drop (kll.boundary 0) := by rw [List.take_append_drop]

/-- What an accepted state is known for. -/
structure Accepted (kll : KllProtoItems) : Prop where
  levels : 2 ≤ kll.levels.length
  last : kll.boundary (kll.levels.length - 1) = kll.items.length

theorem accepted_of_fromState {powi : ℤ → F64} {s : KllState}
    (accepted : fromState powi s = .ok kll) : kll.Accepted := by
  unfold fromState at accepted
  cases retained : s.retained powi with
  | error text =>
    rw [retained] at accepted
    cases accepted
  | ok items =>
    rw [retained] at accepted
    change (if s.levels.length < 2 then
        .error ("kll: invalid levels length " ++ toString s.levels.length)
      else if s.levels.getLast? ≠ some items.length then .error "kll: invalid item layout"
      else Except.ok (KllProtoItems.mk items s.levels s.numLevels s.k s.m)) = .ok kll at accepted
    split at accepted
    · cases accepted
    rename_i long
    split at accepted
    · cases accepted
    rename_i last
    obtain rfl := Except.ok.inj accepted
    refine ⟨Nat.le_of_not_lt long, ?_⟩
    rw [not_not, List.getLast?_eq_getElem?] at last
    exact List.getD_eq_getElem?_getD.trans (congrArg (Option.getD · 0) last)

/-! ### Sorted samples -/

def sampleBefore (left right : F64 × ℕ) : Prop := left.1.totalRank ≤ right.1.totalRank

instance : DecidableRel sampleBefore := fun left right =>
  inferInstanceAs (Decidable (left.1.totalRank ≤ right.1.totalRank))

instance : Std.Total sampleBefore := ⟨fun left right => le_total left.1.totalRank right.1.totalRank⟩

instance : IsTrans (F64 × ℕ) sampleBefore := ⟨fun _ _ _ before after => le_trans before after⟩

theorem pairwise_insertionSort {samples : List (F64 × ℕ)}
    (numbers : ∀ sample ∈ samples, sample.1 ≠ .nan) :
    (samples.insertionSort sampleAtMost).Pairwise sampleBefore := by
  have same : samples.insertionSort sampleAtMost = samples.insertionSort sampleBefore := by
    have mapped := List.map_insertionSort sampleAtMost sampleBefore id samples
      fun left leftHeld right rightHeld =>
        F64.atMost_iff (numbers left leftHeld) (numbers right rightHeld)
    rwa [List.map_id, List.map_id] at mapped
  rw [same]
  exact List.pairwise_insertionSort sampleBefore samples

/-! ### Quantiles -/

theorem quantile_nil (q : F64) (ran : kll.weightedSamples = some []) :
    kll.quantile q = some F64.zero := by
  unfold quantile
  rw [ran]
  rfl

section

variable {samples : List (F64 × ℕ)} (q : F64) (ran : kll.weightedSamples = some samples)

include ran

theorem quantile_eq (nonempty : samples ≠ [])
    (sortable : samples.length < 2 ∨ ∀ sample ∈ samples, sample.1 ≠ .nan)
    (light : (samples.map Prod.snd).sum ≤ u64Max) :
    kll.quantile q =
      (Ranked.walk (rankTarget q (samples.map Prod.snd).sum)
        ((samples.insertionSort sampleAtMost).map Prod.swap) 0).or
          ((samples.insertionSort sampleAtMost).getLast?.map Prod.fst) := by
  have sorted : sortSamples samples = some (samples.insertionSort sampleAtMost) := if_pos sortable
  have sum : ((samples.insertionSort sampleAtMost).map Prod.snd).sum = (samples.map Prod.snd).sum :=
    ((List.perm_insertionSort sampleAtMost samples).map Prod.snd).sum_eq
  have total : sumWeights ((samples.insertionSort sampleAtMost).map Prod.snd) =
      some (samples.map Prod.snd).sum := by
    unfold sumWeights
    rw [sum, if_pos light]
  unfold quantile
  simp only [ran, Option.bind_eq_bind, Option.bind_some, if_neg nonempty, sorted, total]

theorem quantile_isSome (sortable : samples.length < 2 ∨ ∀ sample ∈ samples, sample.1 ≠ .nan)
    (light : (samples.map Prod.snd).sum ≤ u64Max) : (kll.quantile q).isSome := by
  by_cases empty : samples = []
  · rw [quantile_nil q (empty ▸ ran)]
    rfl
  · have sorted : samples.insertionSort sampleAtMost ≠ [] := by
      intro none
      have perm := List.perm_insertionSort sampleAtMost samples
      rw [none] at perm
      exact empty (List.nil_perm.mp perm)
    rw [quantile_eq q ran empty sortable light, Option.isSome_or, Option.isSome_map,
      List.getLast?_isSome.mpr sorted, Bool.or_true]

end

theorem of_quantile {samples : List (F64 × ℕ)} {q : F64}
    (ran : kll.weightedSamples = some samples) (nonempty : samples ≠ [])
    (answered : (kll.quantile q).isSome) :
    (samples.length < 2 ∨ ∀ sample ∈ samples, sample.1 ≠ .nan) ∧
      (samples.map Prod.snd).sum ≤ u64Max := by
  obtain ⟨value, answered⟩ := Option.isSome_iff_exists.mp answered
  unfold quantile at answered
  simp only [ran, Option.bind_eq_bind, Option.bind_some, if_neg nonempty,
    Option.bind_eq_some_iff] at answered
  obtain ⟨sorted, sort, total, sum, _⟩ := answered
  unfold sortSamples at sort
  split at sort
  · rename_i sortable
    obtain rfl := Option.some.inj sort
    unfold sumWeights at sum
    split at sum
    · rename_i light
      rw [((List.perm_insertionSort sampleAtMost samples).map Prod.snd).sum_eq] at light
      exact ⟨sortable, light⟩
    · cases sum
  · cases sort

/-! ### Ranks -/

theorem ofInt_total {total : ℕ} (light : total ≤ u64Max) :
    F64.ofInt total = .finite (roundF64 total) ∧ roundF64 total < 2 ^ 1024 := by
  have double : roundF64 total ≤ 2 * total := roundF64_le_double (Nat.cast_nonneg total)
  have small : (2 * total : ℚ) < 2 ^ 1024 := by
    have bound : 2 * total < 2 ^ 65 := by
      unfold u64Max at light
      omega
    calc
      (2 * total : ℚ) < 2 ^ 65 := by exact_mod_cast bound
      _ ≤ 2 ^ 1024 := pow_le_pow_right₀ (by norm_num) (by norm_num)
  have below := double.trans_lt small
  refine ⟨?_, below⟩
  unfold F64.ofInt F64.round
  rw [Int.cast_natCast, abs_of_nonneg (roundF64_nonneg (Nat.cast_nonneg total)),
    if_neg (not_le.mpr below)]

theorem rankTarget_finite {part : ℚ} {total : ℕ} (light : total ≤ u64Max) (nonneg : 0 ≤ part)
    (atMost : part ≤ 1) :
    roundF64 (part * roundF64 total) ≤ roundF64 total ∧
      rankTarget (.finite part) total =
        Nat.min ⌈roundF64 (part * roundF64 total)⌉.toNat u64Max := by
  obtain ⟨whole, small⟩ := ofInt_total light
  have totalNonneg : 0 ≤ roundF64 (total : ℚ) := roundF64_nonneg (Nat.cast_nonneg total)
  have product : 0 ≤ part * roundF64 total := mul_nonneg nonneg totalNonneg
  have below : roundF64 (part * roundF64 total) ≤ roundF64 total := by
    have rounded := roundF64_mono product (mul_le_of_le_one_left totalNonneg atMost)
    rwa [roundF64_roundF64 (Nat.cast_nonneg total)] at rounded
  refine ⟨below, ?_⟩
  unfold rankTarget
  rw [whole]
  show ((F64.round (part * roundF64 total)).ceil).asU64 = _
  unfold F64.round
  rw [abs_of_nonneg (roundF64_nonneg product), if_neg (not_le.mpr (below.trans_lt small))]
  show Nat.min ⌊((⌈roundF64 (part * roundF64 total)⌉ : ℤ) : ℚ)⌋.toNat u64Max = _
  rw [Int.floor_intCast]

theorem asU64_total {total : ℕ} (light : total ≤ u64Max) :
    (F64.ofInt total).asU64 = Nat.min ⌈roundF64 total⌉.toNat u64Max := by
  obtain ⟨whole, isWhole⟩ := exists_roundF64_natCast total
  rw [(ofInt_total light).1, isWhole, Int.ceil_intCast]
  show Nat.min ⌊(whole : ℚ)⌋.toNat u64Max = _
  rw [Int.floor_intCast]

theorem rankTarget_one {total : ℕ} (light : total ≤ u64Max) :
    rankTarget F64.one total = (F64.ofInt total).asU64 := by
  have one : F64.one = .finite 1 := (F64.ofInt_of_exact (by decide)).trans (by norm_num)
  rw [asU64_total light, one, (rankTarget_finite light zero_le_one le_rfl).2, one_mul,
    roundF64_roundF64 (Nat.cast_nonneg total)]

theorem rankTarget_le {q : F64} {total : ℕ} (light : total ≤ u64Max) (positive : F64.zero.Less q)
    (atMost : q.AtMost F64.one) : rankTarget q total ≤ (F64.ofInt total).asU64 := by
  have one : F64.one = .finite 1 := (F64.ofInt_of_exact (by decide)).trans (by norm_num)
  cases q with
  | nan => cases positive
  | infinite negative =>
    cases negative with
    | true => cases positive
    | false =>
      rw [one] at atMost
      rcases atMost with less | equal
      · cases less
      · cases equal
  | finite part =>
    have nonneg : 0 ≤ part := by
      have compared : some (compare 0 part) = some .lt := positive
      exact (compare_lt_iff_lt.mp (Option.some.inj compared)).le
    have below : part ≤ 1 := by
      rw [one] at atMost
      have compared : some (compare part 1) = some .lt ∨ some (compare part 1) = some .eq := atMost
      rw [Option.some.injEq, Option.some.injEq, compare_lt_iff_lt, compare_eq_iff_eq] at compared
      exact le_iff_lt_or_eq.mpr compared
    obtain ⟨rounded, rank⟩ := rankTarget_finite light nonneg below
    rw [rank, asU64_total light]
    exact min_le_min_right u64Max (Int.toNat_le_toNat (Int.ceil_le_ceil rounded))

theorem weightUpTo_eq {samples : List (F64 × ℕ)} (perm : samples.Perm kll.leveled)
    (numbers : ∀ sample ∈ samples, sample.1 ≠ .nan) {value : F64} (number : value ≠ .nan) :
    Ranked.weightUpTo F64.totalRank (samples.map Prod.swap) value.totalRank =
      kll.weightUpTo value := by
  unfold Ranked.weightUpTo weightUpTo
  rw [List.filter_map, List.map_map]
  have kept :
      samples.filter ((fun item => decide (item.2.totalRank ≤ value.totalRank)) ∘ Prod.swap) =
      samples.filter fun sample => sample.1.AtMost value :=
    List.filter_congr fun sample held =>
      decide_eq_decide.mpr (F64.atMost_iff (numbers sample held) number).symm
  rw [kept]
  exact ((perm.filter _).map Prod.snd).sum_eq

/-- A rank that the total weight reaches is that of the least value whose weight reaches it. -/
theorem quantile_least {samples : List (F64 × ℕ)} (q : F64)
    (ran : kll.weightedSamples = some samples) (perm : samples.Perm kll.leveled)
    (nonempty : samples ≠ []) (numbers : ∀ sample ∈ samples, sample.1 ≠ .nan)
    (light : kll.totalWeight ≤ u64Max) (reached : rankTarget q kll.totalWeight ≤ kll.totalWeight) :
    ∃ sample ∈ samples, kll.quantile q = some sample.1 ∧
      rankTarget q kll.totalWeight ≤ kll.weightUpTo sample.1 ∧
      ∀ other ∈ samples, rankTarget q kll.totalWeight ≤ kll.weightUpTo other.1 →
        sample.1.AtMost other.1 := by
  have sum : (samples.map Prod.snd).sum = kll.totalWeight := (perm.map Prod.snd).sum_eq
  have sortedPerm := List.perm_insertionSort sampleAtMost samples
  have sorted := pairwise_insertionSort numbers
  have answer := quantile_eq q ran nonempty (.inr numbers) (sum.trans_le light)
  rw [sum] at answer
  generalize samples.insertionSort sampleAtMost = sortedSamples at sortedPerm sorted answer
  have sortedNumbers : ∀ sample ∈ sortedSamples, sample.1 ≠ .nan := fun sample held =>
    numbers sample (sortedPerm.mem_iff.mp held)
  have swapped : (sortedSamples.map Prod.swap).Pairwise fun left right =>
      left.2.totalRank ≤ right.2.totalRank := List.pairwise_map.mpr sorted
  have some : sortedSamples.map Prod.swap ≠ [] := by
    intro empty
    rw [List.map_eq_nil_iff] at empty
    exact nonempty (List.nil_perm.mp (empty ▸ sortedPerm))
  have enough : rankTarget q kll.totalWeight ≤
      0 + ((sortedSamples.map Prod.swap).map Prod.fst).sum := by
    rw [List.map_map, Nat.zero_add]
    exact reached.trans_eq (sum.symm.trans (sortedPerm.map Prod.snd).sum_eq.symm)
  obtain ⟨found, foundHeld, walked, heavy, least⟩ :=
    Ranked.walk_weighted F64.totalRank swapped some enough
  obtain ⟨sample, held, rfl⟩ := List.mem_map.mp foundHeld
  have weight : ∀ other ∈ sortedSamples,
      Ranked.weightUpTo F64.totalRank (sortedSamples.map Prod.swap) other.1.totalRank =
        kll.weightUpTo other.1 := fun other otherHeld =>
    weightUpTo_eq (sortedPerm.trans perm) sortedNumbers (sortedNumbers other otherHeld)
  refine ⟨sample, sortedPerm.mem_iff.mp held, ?_, ?_, fun other otherHeld reaches => ?_⟩
  · rw [answer, walked]
    rfl
  · rw [Nat.zero_add] at heavy
    exact heavy.trans_eq (weight sample held)
  · have otherSorted := sortedPerm.mem_iff.mpr otherHeld
    refine (F64.atMost_iff (sortedNumbers sample held) (numbers other otherHeld)).mpr ?_
    refine least other.swap (List.mem_map_of_mem otherSorted) ?_
    rw [Nat.zero_add]
    exact reaches.trans_eq (weight other otherSorted).symm

/-! ### Reading exactly -/

theorem map_fst_leveled (accepted : kll.Accepted)
    (inside : ∀ level < kll.levels.length - 1, kll.Inside level) (start : kll.boundary 0 = 0) :
    kll.leveled.map Prod.fst = kll.items := by
  have short : kll.levels.length - 1 < kll.levels.length :=
    Nat.sub_one_lt (Nat.pos_iff_ne_zero.mp (Nat.lt_of_lt_of_le Nat.two_pos accepted.levels))
  rw [leveled, map_fst_layered, (flatMap_slice short inside).1, accepted.last, start,
    List.take_length, List.drop_zero]

section

variable (once : kll.leveled.map Prod.fst = kll.items) {samples : List (F64 × ℕ)}
  (perm : samples.Perm kll.leveled)

include once perm

theorem fst_mem_items {sample : F64 × ℕ} (held : sample ∈ samples) :
    sample.1 ∈ kll.items := once ▸ List.mem_map_of_mem (perm.mem_iff.mp held)

theorem exists_sample {item : F64} (held : item ∈ kll.items) :
    ∃ sample ∈ samples, sample.1 = item := by
  rw [← once] at held
  obtain ⟨sample, sampleHeld, same⟩ := List.mem_map.mp held
  exact ⟨sample, perm.mem_iff.mpr sampleHeld, same⟩

theorem length_samples : samples.length = kll.items.length := by
  rw [perm.length_eq, ← once, List.length_map]

end

theorem Readable.readExactly (readable : kll.Readable) (accepted : kll.Accepted) :
    kll.ReadExactly := by
  have ran := (@weightedSamples_eq kll).trans (if_pos ⟨readable.fewLevels, readable.inside⟩)
  have read := kll.perm_layered
  generalize ((List.range kll.numLevels).flatMap fun h =>
    (kll.slice (kll.numLevels - 1 - h)).map fun v => (v, 2 ^ h)) = samples at ran read
  by_cases empty : kll.items = []
  · have noSlice : ∀ level, kll.slice level = [] := fun level => by
      rw [slice, empty, List.take_nil, List.drop_nil]
    have noLayer : ∀ count, kll.layered count = [] := fun count =>
      List.flatMap_eq_nil_iff.mpr fun level _ => by rw [noSlice, List.map_nil]
    rw [noLayer, List.perm_nil] at read
    subst read
    refine ⟨⟨[], ran, ?_⟩, ?_, fun q => ?_, fun nonempty => absurd empty nonempty⟩
    · rw [leveled, noLayer]
    · rw [leveled, noLayer, empty, List.map_nil]
    · rw [quantile_nil q ran]
      rfl
  · obtain ⟨levels, start⟩ := readable.whole empty
    have counted : kll.numLevels = kll.levels.length - 1 := Nat.eq_sub_of_add_eq levels
    have perm : samples.Perm kll.leveled := by rwa [counted] at read
    have once := map_fst_leveled accepted (counted ▸ readable.inside) start
    have light : (samples.map Prod.snd).sum ≤ u64Max :=
      (perm.map Prod.snd).sum_eq.trans_le (readable.light empty)
    have sortable : samples.length < 2 ∨ ∀ sample ∈ samples, sample.1 ≠ .nan := by
      rw [length_samples once perm]
      exact readable.compared.imp_right fun numbers sample held =>
        numbers _ (fst_mem_items once perm held)
    refine ⟨⟨samples, ran, perm⟩, once, fun q => quantile_isSome q ran sortable light, ?_⟩
    intro _ numbers q positive atMost
    have nonempty : samples ≠ [] := by
      rintro rfl
      exact empty (List.length_eq_zero_iff.mp (length_samples once perm).symm)
    have reached := (rankTarget_le (readable.light empty) positive atMost).trans
      (readable.unrounded empty numbers)
    obtain ⟨sample, held, answer, heavy, least⟩ := quantile_least q ran perm nonempty
      (fun sample held => numbers _ (fst_mem_items once perm held)) (readable.light empty) reached
    refine ⟨sample.1, fst_mem_items once perm held, answer, heavy, fun item itemHeld reaches => ?_⟩
    obtain ⟨other, otherHeld, rfl⟩ := exists_sample once perm itemHeld
    exact least other otherHeld reaches

theorem levels_of_perm (once : kll.leveled.map Prod.fst = kll.items) (nonempty : kll.items ≠ [])
    (perm : (kll.layered kll.numLevels).Perm kll.leveled) :
    kll.numLevels = kll.levels.length - 1 := by
  by_contra different
  have weightless : kll.layeredWeight (kll.levels.length - 1) = 0 :=
    layeredWeight_eq_zero different (perm.map Prod.snd).sum_eq
  obtain ⟨item, held⟩ := List.exists_mem_of_ne_nil kll.items nonempty
  obtain ⟨sample, sampleHeld, _⟩ := exists_sample once (List.Perm.refl _) held
  obtain ⟨level, _, inLevel⟩ := List.mem_flatMap.mp sampleHeld
  obtain ⟨value, _, rfl⟩ := List.mem_map.mp inLevel
  have heavy := List.single_le_sum (fun _ _ => Nat.zero_le _) _
    (List.mem_map_of_mem (f := Prod.snd) sampleHeld)
  exact absurd (heavy.trans_eq weightless) (Nat.not_le.mpr (Nat.two_pow_pos _))

theorem boundary_zero_of_once (accepted : kll.Accepted)
    (inside : ∀ level < kll.levels.length - 1, kll.Inside level) (nonempty : kll.items ≠ [])
    (once : kll.leveled.map Prod.fst = kll.items) : kll.boundary 0 = 0 := by
  have short : kll.levels.length - 1 < kll.levels.length :=
    Nat.sub_one_lt (Nat.pos_iff_ne_zero.mp (Nat.lt_of_lt_of_le Nat.two_pos accepted.levels))
  rw [leveled, map_fst_layered, (flatMap_slice short inside).1, accepted.last,
    List.take_length] at once
  have length := congrArg List.length once
  have positive := List.length_pos_iff.mpr nonempty
  rw [List.length_drop] at length
  omega

theorem ReadExactly.readable (exact : kll.ReadExactly) (accepted : kll.Accepted) :
    kll.Readable := by
  obtain ⟨samples, ran, perm⟩ := exact.samples
  have once := exact.once
  have some : kll.numLevels ≤ 64 ∧ ∀ level < kll.numLevels, kll.Inside level := by
    by_contra refused
    rw [weightedSamples_eq, if_neg refused] at ran
    cases ran
  have read := kll.perm_layered
  rw [weightedSamples_eq, if_pos some] at ran
  rw [Option.some.inj ran] at read
  have ran : kll.weightedSamples = Option.some samples := by
    rw [weightedSamples_eq, if_pos some, ran]
  have filled : kll.items ≠ [] → samples ≠ [] := by
    rintro nonempty rfl
    exact nonempty (List.length_eq_zero_iff.mp (length_samples once perm).symm)
  have sum : (samples.map Prod.snd).sum = kll.totalWeight := (perm.map Prod.snd).sum_eq
  have light : kll.items ≠ [] → kll.totalWeight ≤ u64Max := fun nonempty =>
    sum ▸ (of_quantile ran (filled nonempty) (exact.answers F64.one)).2
  refine ⟨some.1, some.2, fun nonempty => ?_, light, ?_, fun nonempty numbers => ?_⟩
  · have counted := levels_of_perm once nonempty (read.symm.trans perm)
    have levels : kll.numLevels + 1 = kll.levels.length := by
      have := accepted.levels
      omega
    exact ⟨levels, boundary_zero_of_once accepted (counted ▸ some.2) nonempty once⟩
  · by_cases empty : kll.items = []
    · exact .inl (empty ▸ Nat.two_pos)
    · have sortable := (of_quantile ran (filled empty) (exact.answers F64.one)).1
      rw [length_samples once perm] at sortable
      refine sortable.imp_right fun numbers item held => ?_
      obtain ⟨sample, sampleHeld, rfl⟩ := exists_sample once perm held
      exact numbers sample sampleHeld
  · obtain ⟨value, _, _, heavy, _⟩ :=
      exact.smallest nonempty numbers F64.one (by decide +kernel) (by decide +kernel)
    rw [← rankTarget_one (light nonempty)]
    refine heavy.trans ?_
    exact (List.Sublist.map _ List.filter_sublist).sum_le_sum fun _ _ => Nat.zero_le _

/-- An accepted state is read exactly if and only if its layout can be read. -/
theorem read_exactly_iff {powi : ℤ → F64} {s : KllState}
    (accepted : fromState powi s = .ok kll) : kll.ReadExactly ↔ kll.Readable :=
  ⟨fun exact => exact.readable (accepted_of_fromState accepted),
    fun readable => readable.readExactly (accepted_of_fromState accepted)⟩

def twoLevels : KllState where
  k := 8
  m := 2
  numLevels := 2
  levels := [0, 2, 3]
  items := [.finite 5, .finite 1, .finite 3]
  offset := .finite 0
  valueScale := 0
  residuals := []

theorem read_exactly_twoLevels :
    ∃ kll, fromState (fun _ => F64.one) twoLevels = .ok kll ∧ kll.ReadExactly := by
  refine ⟨_, rfl, (@read_exactly_iff _ (fun _ => F64.one) twoLevels rfl).mpr ?_⟩
  refine ⟨by decide, by decide, fun _ => by decide, fun _ => by decide, .inr (by decide), ?_⟩
  exact fun _ _ => by decide +kernel

def descendingBoundaries : KllState :=
  { twoLevels with levels := [0, 2, 1], items := [.finite 5] }

/-- Boundaries that go down are accepted, and then no sample can be read. -/
theorem descendingBoundaries_accepted :
    ∃ kll, fromState (fun _ => F64.one) descendingBoundaries = .ok kll ∧
      kll.weightedSamples = none ∧ ¬kll.ReadExactly := by
  refine ⟨_, rfl, by decide +kernel, fun exact => ?_⟩
  obtain ⟨samples, ran, _⟩ := exact.samples
  cases (show none = some samples from ran)

end KllProtoItems

end AsapSketchlib
