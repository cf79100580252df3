/-
This file models the uniform sampler, which draws a priority for every value and keeps the entries
of lowest priority, and says when its sample is the lowest part of all entries drawn. The number of
entries kept grows with the stream, but an entry that was dropped does not come back; so the sample
is right exactly as long as no dropped entry is among the lowest of a longer stream.
-/

import AsapSketchlib.Floating
import AsapSketchlib.LowestKeys

namespace AsapSketchlib

/-- `f64::EPSILON`. -/
def F64.epsilon : F64 := .finite (1 / 2 ^ 52)

/-- A value with the priority drawn for it. -/
structure SampleEntry where
  priority : BitVec 64
  value : F64
  deriving DecidableEq

def SampleEntry.rank (entry : SampleEntry) : ℕ := entry.priority.toNat

/-- A sampler: its rate, the number of values seen, the state of its generator and the entries it
retains. -/
structure UniformSampling where
  sampleRate : F64
  totalSeen : ℕ
  rngState : BitVec 64
  entries : List SampleEntry

namespace UniformSampling

def defaultSeed : BitVec 64 := 0x9E3779B97F4A7C15

def gamma : BitVec 64 := 0xBF58476D1CE4E5B9

def delta : BitVec 64 := 0x94D049BB133111EB

def validRate (sampleRate : F64) : Bool :=
  F64.zero.AtMost sampleRate ∧ sampleRate.AtMost (F64.ofInt 1) ∧ F64.zero.Less sampleRate

def initState (seed : BitVec 64) : BitVec 64 := if seed = 0 then defaultSeed else seed

/-- `with_seed`: nothing is returned where the rate is not within (0, 1]. -/
def withSeed (sampleRate : F64) (seed : BitVec 64) : Option UniformSampling :=
  if validRate sampleRate = true then some ⟨sampleRate, 0, initState seed, []⟩ else none

/-- How many entries are retained of a number of values seen. -/
def targetSize (totalSeen : ℕ) (rate : F64) : ℕ :=
  if totalSeen = 0 then 0 else ((F64.ofInt totalSeen).mul rate).ceil.asU64

/-- Inserts an entry at the place a binary search for its priority finds: behind the entries of
lower priority. -/
def insertEntry (entries : List SampleEntry) (entry : SampleEntry) : List SampleEntry :=
  entries.insertIdx (entries.countP fun probe => probe.rank < entry.rank) entry

/-- `truncate_to`: entries are popped off the end. -/
def truncateTo (entries : List SampleEntry) (targetSize : ℕ) : List SampleEntry :=
  entries.take targetSize

def nextState (rngState : BitVec 64) : BitVec 64 := rngState + defaultSeed

def drawnIn (rngState : BitVec 64) : BitVec 64 :=
  let first := (rngState ^^^ (rngState >>> 30)) * gamma
  let second := (first ^^^ (first >>> 27)) * delta
  second ^^^ (second >>> 31)

def mixState (rngState other : BitVec 64) : BitVec 64 :=
  let mixed := rngState ^^^ other.rotateLeft 19
  if mixed = 0 then defaultSeed else mixed

def update (sampler : UniformSampling) (value : F64) : UniformSampling :=
  let totalSeen := saturatingAdd sampler.totalSeen 1
  let rngState := nextState sampler.rngState
  { sampler with
    totalSeen := totalSeen
    rngState := rngState
    entries := truncateTo (insertEntry sampler.entries ⟨drawnIn rngState, value⟩)
      (targetSize totalSeen sampler.sampleRate) }

def merge (sampler other : UniformSampling) : Except String UniformSampling :=
  if F64.epsilon.Less (sampler.sampleRate.sub other.sampleRate).abs then
    .error "Cannot merge uniform samplers with different sampling rates"
  else
    let combinedSeen := saturatingAdd sampler.totalSeen other.totalSeen
    let merged := (sampler.entries ++ other.entries).mergeSort fun left right =>
      left.rank ≤ right.rank
    .ok {
      sampleRate := sampler.sampleRate
      totalSeen := combinedSeen
      rngState := mixState sampler.rngState other.rngState
      entries := merged.take (targetSize combinedSeen sampler.sampleRate) }

end UniformSampling

/-! ### Trees of samplers -/

open UniformSampling LowestKeys

/-- Samplers of one rate, built by updates and merges. -/
inductive SampleTree where
  | seeded (seed : BitVec 64)
  | update (tree : SampleTree) (value : F64)
  | merge (left right : SampleTree)

namespace SampleTree

def run (rate : F64) : SampleTree → Option UniformSampling
  | seeded seed => withSeed rate seed
  | update tree value => (tree.run rate).map fun sampler => sampler.update value
  | merge left right => (left.run rate).bind fun sampler =>
      (right.run rate).bind fun other => (sampler.merge other).toOption

def rngState : SampleTree → BitVec 64
  | seeded seed => initState seed
  | update tree _ => nextState tree.rngState
  | merge left right => mixState left.rngState right.rngState

def drawn (tree : SampleTree) (value : F64) : SampleEntry :=
  ⟨drawnIn (nextState tree.rngState), value⟩

/-- All entries ever drawn. -/
def draws : SampleTree → List SampleEntry
  | seeded _ => []
  | update tree value => tree.draws ++ [tree.drawn value]
  | merge left right => left.draws ++ right.draws

def parts : SampleTree → List SampleTree
  | seeded seed => [seeded seed]
  | update tree value => update tree value :: tree.parts
  | merge left right => merge left right :: (left.parts ++ right.parts)

/-- The number of entries retained of the entries drawn. -/
def target (rate : F64) (draws : List SampleEntry) : ℕ :=
  targetSize (min draws.length u64Max) rate

/-- Two streams of which so many of the lowest were kept can be joined: the whole keeps no more than
both do, and no entry that was dropped is among the lowest of the whole. -/
def Joins (whole left right : ℕ) (leftDraws rightDraws : List SampleEntry) : Prop :=
  whole ≤ left + right ∧
    (∀ gone ∈ leftDraws, left ≤ below SampleEntry.rank leftDraws gone →
      whole ≤ below SampleEntry.rank (leftDraws ++ rightDraws) gone) ∧
    ∀ gone ∈ rightDraws, right ≤ below SampleEntry.rank rightDraws gone →
      whole ≤ below SampleEntry.rank (leftDraws ++ rightDraws) gone

instance (whole left right : ℕ) (leftDraws rightDraws : List SampleEntry) :
    Decidable (Joins whole left right leftDraws rightDraws) :=
  inferInstanceAs (Decidable (_ ∧ _ ∧ _))

/-- Every update and every merge of the tree joins its streams. An update joins the one entry it
draws. -/
def Settled (rate : F64) : SampleTree → Prop
  | seeded _ => True
  | update tree value => tree.Settled rate ∧ Joins (target rate (tree.draws ++ [tree.drawn value]))
      (target rate tree.draws) 1 tree.draws [tree.drawn value]
  | merge left right => left.Settled rate ∧ right.Settled rate ∧
      Joins (target rate (left.draws ++ right.draws)) (target rate left.draws)
        (target rate right.draws) left.draws right.draws

instance decidableSettled (rate : F64) : (tree : SampleTree) → Decidable (tree.Settled rate)
  | seeded _ => inferInstanceAs (Decidable True)
  | update tree _ =>
    have := decidableSettled rate tree
    inferInstanceAs (Decidable (_ ∧ _))
  | merge left right =>
    have := decidableSettled rate left
    have := decidableSettled rate right
    inferInstanceAs (Decidable (_ ∧ _ ∧ _))

end SampleTree

/-- The sample is the lowest part of the entries drawn: its entries are in rising order, as many as
the rate asks for of the values seen, and the ones of lowest priority. -/
structure UniformSampling.IsBottomK (rate : F64) (draws : List SampleEntry)
    (sampler : UniformSampling) : Prop where
  rising : Rising SampleEntry.rank sampler.entries
  counted : sampler.entries.length = targetSize sampler.totalSeen rate
  chosen : sampler.entries = lowest SampleEntry.rank (targetSize sampler.totalSeen rate) draws

/-! ### One join -/

namespace SampleTree

theorem distinct_append {first second : List SampleEntry}
    (distinct : Distinct SampleEntry.rank (first ++ second)) :
    Distinct SampleEntry.rank first ∧ Distinct SampleEntry.rank second := by
  unfold Distinct at distinct
  rw [List.map_append] at distinct
  exact ⟨(List.nodup_append.mp distinct).1, (List.nodup_append.mp distinct).2.1⟩

/-- Two parts that are lowest give a lowest whole exactly where they can be joined. -/
theorem joins_iff {leftDraws rightDraws left right : List SampleEntry} {leftCount rightCount : ℕ}
    (distinct : Distinct SampleEntry.rank (leftDraws ++ rightDraws))
    (leftLength : left.length = leftCount) (rightLength : right.length = rightCount)
    (leftLowest : left = lowest SampleEntry.rank leftCount leftDraws)
    (rightLowest : right = lowest SampleEntry.rank rightCount rightDraws) (whole : ℕ) :
    ((lowest SampleEntry.rank whole (left ++ right)).length = whole ∧
      lowest SampleEntry.rank whole (left ++ right) =
        lowest SampleEntry.rank whole (leftDraws ++ rightDraws)) ↔
      Joins whole leftCount rightCount leftDraws rightDraws := by
  have distinctParts := distinct_append distinct
  have splitLeft : leftDraws.Perm (left ++ (sorted SampleEntry.rank leftDraws).drop leftCount) := by
    rw [leftLowest]
    exact perm_lowest_append leftDraws leftCount
  have splitRight : rightDraws.Perm
      (right ++ (sorted SampleEntry.rank rightDraws).drop rightCount) := by
    rw [rightLowest]
    exact perm_lowest_append rightDraws rightCount
  have split : (leftDraws ++ rightDraws).Perm ((left ++ right) ++
      ((sorted SampleEntry.rank leftDraws).drop leftCount ++
        (sorted SampleEntry.rank rightDraws).drop rightCount)) := by
    refine (splitLeft.append splitRight).trans ?_
    rw [List.append_assoc, List.append_assoc]
    refine List.Perm.append_left left ?_
    rw [← List.append_assoc, ← List.append_assoc]
    exact List.perm_append_comm.append_right _
  have counted : (lowest SampleEntry.rank whole (left ++ right)).length = whole ↔
      whole ≤ leftCount + rightCount := by
    rw [length_lowest, List.length_append, leftLength, rightLength]
    exact min_eq_left_iff
  rw [Joins, counted]
  refine and_congr_right fun enough => ?_
  rw [lowest_eq_iff distinct split (by rwa [List.length_append, leftLength, rightLength])]
  constructor
  · intro high
    refine ⟨fun gone member dropped => high gone (List.mem_append_left _ ?_),
      fun gone member dropped => high gone (List.mem_append_right _ ?_)⟩
    · exact (mem_dropped_iff distinctParts.1 leftCount).mpr ⟨member, dropped⟩
    · exact (mem_dropped_iff distinctParts.2 rightCount).mpr ⟨member, dropped⟩
  · rintro ⟨highLeft, highRight⟩ gone member
    rcases List.mem_append.mp member with inLeft | inRight
    · obtain ⟨inDraws, dropped⟩ := (mem_dropped_iff distinctParts.1 leftCount).mp inLeft
      exact highLeft gone inDraws dropped
    · obtain ⟨inDraws, dropped⟩ := (mem_dropped_iff distinctParts.2 rightCount).mp inRight
      exact highRight gone inDraws dropped

/-! ### Runs -/

/-- What holds of the sampler of every tree: it has seen the entries drawn, its generator is in the
state of the tree and its entries are among the ones drawn. -/
structure Follows (rate : F64) (tree : SampleTree) (sampler : UniformSampling) : Prop where
  ran : tree.run rate = some sampler
  rated : sampler.sampleRate = rate
  seen : sampler.totalSeen = min tree.draws.length u64Max
  state : sampler.rngState = tree.rngState
  within : sampler.entries.Subperm tree.draws

variable {rate : F64} {tree left right : SampleTree} {sampler other : UniformSampling}

theorem follows_seeded (valid : validRate rate = true) (seed : BitVec 64) :
    Follows rate (seeded seed) ⟨rate, 0, initState seed, []⟩ where
  ran := if_pos valid
  rated := rfl
  seen := rfl
  state := rfl
  within := List.nil_subperm

theorem Follows.update (follows : Follows rate tree sampler) (value : F64)
    (distinct : Distinct SampleEntry.rank (tree.draws ++ [tree.drawn value]))
    (rising : Rising SampleEntry.rank sampler.entries) :
    Follows rate (.update tree value) (sampler.update value) ∧
      (sampler.update value).entries = lowest SampleEntry.rank
        (target rate (tree.draws ++ [tree.drawn value])) (sampler.entries ++ [tree.drawn value]) := by
  have drawnHere : (⟨drawnIn (nextState sampler.rngState), value⟩ : SampleEntry) =
      tree.drawn value := by
    rw [follows.state]
    rfl
  have seenNow : saturatingAdd sampler.totalSeen 1 =
      min (tree.draws ++ [tree.drawn value]).length u64Max := by
    rw [follows.seen, saturatingAdd, List.length_append, List.length_singleton, u64Max]
    omega
  have part : (sampler.entries ++ [tree.drawn value]).Subperm (tree.draws ++ [tree.drawn value]) :=
    follows.within.append (List.Subperm.refl _)
  have candidates := distinct.of_subperm part
  have kept : (sampler.update value).entries = lowest SampleEntry.rank
      (target rate (tree.draws ++ [tree.drawn value])) (sampler.entries ++ [tree.drawn value]) := by
    have comm : (sampler.entries ++ [tree.drawn value]).Perm (tree.drawn value :: sampler.entries) :=
      List.perm_append_singleton _ _
    rw [lowest_perm candidates comm, lowest,
      ← insertIdx_below_eq_sorted rising (candidates.of_perm comm), ← drawnHere]
    show truncateTo _ (targetSize (saturatingAdd sampler.totalSeen 1) sampler.sampleRate) = _
    rw [seenNow, follows.rated, drawnHere, target, truncateTo, insertEntry, below]
  refine ⟨⟨congrArg (Option.map _) follows.ran, follows.rated, seenNow,
    congrArg nextState follows.state, ?_⟩, kept⟩
  rw [kept]
  exact (lowest_subperm _ _).trans part

theorem not_apart (valid : validRate rate = true) : ¬F64.epsilon.Less (rate.sub rate).abs := by
  cases rate with
  | finite value =>
    have rounded : F64.round ((0 : ℤ) : ℚ) = .finite ((0 : ℤ) : ℚ) :=
      F64.round_of_exact (by decide +kernel)
    have difference : (F64.finite value).sub (F64.finite value) = .finite 0 := by
      show F64.round (value + -value) = _
      rwa [add_neg_cancel, ← Int.cast_zero]
    rw [difference]
    decide +kernel
  | infinite negative =>
    have invalid : validRate (.infinite false) = false ∧ validRate (.infinite true) = false := by
      decide +kernel
    cases negative with
    | false => exact absurd (valid.symm.trans invalid.1) Bool.true_eq_false.mp
    | true => exact absurd (valid.symm.trans invalid.2) Bool.true_eq_false.mp
  | nan =>
    have invalid : validRate .nan = false := by decide +kernel
    exact absurd (valid.symm.trans invalid) Bool.true_eq_false.mp

theorem Follows.merge (valid : validRate rate = true) (follows : Follows rate left sampler)
    (followsOther : Follows rate right other) :
    ∃ merged, Follows rate (.merge left right) merged ∧
      merged.entries = lowest SampleEntry.rank (target rate (left.draws ++ right.draws))
        (sampler.entries ++ other.entries) := by
  have seenNow : saturatingAdd sampler.totalSeen other.totalSeen =
      min (left.draws ++ right.draws).length u64Max := by
    rw [follows.seen, followsOther.seen, saturatingAdd, List.length_append]
    omega
  obtain ⟨merged, joined, rated, seen, state, kept⟩ : ∃ merged, sampler.merge other = .ok merged ∧
      merged.sampleRate = sampler.sampleRate ∧
      merged.totalSeen = saturatingAdd sampler.totalSeen other.totalSeen ∧
      merged.rngState = mixState sampler.rngState other.rngState ∧
      merged.entries = lowest SampleEntry.rank
        (targetSize (saturatingAdd sampler.totalSeen other.totalSeen) sampler.sampleRate)
        (sampler.entries ++ other.entries) := by
    unfold UniformSampling.merge
    rw [if_neg (by rw [follows.rated, followsOther.rated]; exact not_apart valid)]
    exact ⟨_, rfl, rfl, rfl, rfl, rfl⟩
  rw [seenNow, follows.rated] at kept
  refine ⟨merged, ⟨?_, rated.trans follows.rated, seen.trans seenNow, ?_, ?_⟩, kept⟩
  · show ((left.run rate).bind fun sampler => (right.run rate).bind fun other =>
      (sampler.merge other).toOption) = _
    rw [follows.ran, followsOther.ran, Option.bind_some, Option.bind_some, joined]
    rfl
  · rw [state, follows.state, followsOther.state]
    rfl
  · rw [kept]
    exact (lowest_subperm _ _).trans (follows.within.append followsOther.within)

theorem exists_follows (valid : validRate rate = true) (tree : SampleTree)
    (distinct : Distinct SampleEntry.rank tree.draws) :
    ∃ sampler, Follows rate tree sampler ∧ Rising SampleEntry.rank sampler.entries := by
  induction tree with
  | seeded seed => exact ⟨_, follows_seeded valid seed, List.Pairwise.nil⟩
  | update tree value hypothesis =>
    obtain ⟨sampler, follows, rising⟩ := hypothesis (distinct_append distinct).1
    obtain ⟨next, kept⟩ := follows.update value distinct rising
    refine ⟨_, next, ?_⟩
    rw [kept]
    exact rising_lowest (distinct.of_subperm (follows.within.append (List.Subperm.refl _))) _
  | merge left right leftHypothesis rightHypothesis =>
    obtain ⟨sampler, follows, -⟩ := leftHypothesis (distinct_append distinct).1
    obtain ⟨other, followsOther, -⟩ := rightHypothesis (distinct_append distinct).2
    obtain ⟨merged, next, kept⟩ := follows.merge valid followsOther
    refine ⟨merged, next, ?_⟩
    rw [kept]
    exact rising_lowest (distinct.of_subperm (follows.within.append followsOther.within)) _

/-- The sampler of a tree exists, and its sample is the lowest part of the entries drawn. -/
def Right (rate : F64) (tree : SampleTree) : Prop :=
  ∃ sampler, tree.run rate = some sampler ∧ sampler.IsBottomK rate tree.draws

theorem Follows.right_iff (follows : Follows rate tree sampler)
    (rising : Rising SampleEntry.rank sampler.entries) : Right rate tree ↔
      sampler.entries.length = target rate tree.draws ∧
        sampler.entries = lowest SampleEntry.rank (target rate tree.draws) tree.draws := by
  have sizes : targetSize sampler.totalSeen rate = target rate tree.draws := by
    rw [follows.seen]
    rfl
  constructor
  · rintro ⟨found, ran, isLowest⟩
    obtain rfl := Option.some.inj (follows.ran.symm.trans ran)
    exact ⟨sizes ▸ isLowest.counted, sizes ▸ isLowest.chosen⟩
  · rintro ⟨counted, chosen⟩
    exact ⟨sampler, follows.ran, rising, sizes ▸ counted, sizes ▸ chosen⟩

theorem right_update_iff (valid : validRate rate = true) (value : F64)
    (distinct : Distinct SampleEntry.rank (tree.draws ++ [tree.drawn value]))
    (right : Right rate tree) : Right rate (.update tree value) ↔
      Joins (target rate (tree.draws ++ [tree.drawn value])) (target rate tree.draws) 1 tree.draws
        [tree.drawn value] := by
  obtain ⟨sampler, follows, rising⟩ := exists_follows valid tree (distinct_append distinct).1
  obtain ⟨counted, chosen⟩ := (follows.right_iff rising).mp right
  obtain ⟨next, kept⟩ := follows.update value distinct rising
  have nextRising : Rising SampleEntry.rank (sampler.update value).entries := by
    rw [kept]
    exact rising_lowest (distinct.of_subperm (follows.within.append (List.Subperm.refl _))) _
  have single : Rising SampleEntry.rank [tree.drawn value] := List.pairwise_singleton _ _
  have alone : [tree.drawn value] = lowest SampleEntry.rank 1 [tree.drawn value] := by
    rw [lowest, single.sorted_eq]
    rfl
  rw [next.right_iff nextRising, kept]
  exact joins_iff distinct counted rfl chosen alone _

theorem right_merge_iff (valid : validRate rate = true)
    (distinct : Distinct SampleEntry.rank (left.draws ++ right.draws)) (leftRight : Right rate left)
    (rightRight : Right rate right) : Right rate (.merge left right) ↔
      Joins (target rate (left.draws ++ right.draws)) (target rate left.draws)
        (target rate right.draws) left.draws right.draws := by
  obtain ⟨sampler, follows, rising⟩ := exists_follows valid left (distinct_append distinct).1
  obtain ⟨other, followsOther, risingOther⟩ :=
    exists_follows valid right (distinct_append distinct).2
  obtain ⟨counted, chosen⟩ := (follows.right_iff rising).mp leftRight
  obtain ⟨countedOther, chosenOther⟩ := (followsOther.right_iff risingOther).mp rightRight
  obtain ⟨merged, next, kept⟩ := follows.merge valid followsOther
  have nextRising : Rising SampleEntry.rank merged.entries := by
    rw [kept]
    exact rising_lowest (distinct.of_subperm (follows.within.append followsOther.within)) _
  rw [next.right_iff nextRising, kept]
  exact joins_iff distinct counted countedOther chosen chosenOther _

theorem mem_parts_self (tree : SampleTree) : tree ∈ tree.parts := by
  cases tree with
  | seeded seed => exact List.mem_cons_self
  | update tree value => exact List.mem_cons_self
  | merge left right => exact List.mem_cons_self

/-- Every sampler of a tree holds the lowest part of its entries exactly where each update and each
merge joins its streams. -/
theorem bottom_k_iff (valid : validRate rate = true) (tree : SampleTree)
    (distinct : Distinct SampleEntry.rank tree.draws) :
    (∀ part ∈ tree.parts, Right rate part) ↔ tree.Settled rate := by
  induction tree with
  | seeded seed =>
    refine ⟨fun _ => trivial, fun _ part member => ?_⟩
    rw [List.mem_singleton.mp member]
    exact ⟨_, if_pos valid, List.Pairwise.nil, rfl, rfl⟩
  | update tree value hypothesis =>
    have earlier := hypothesis (distinct_append distinct).1
    rw [parts, List.forall_mem_cons, Settled, ← earlier]
    constructor
    · rintro ⟨whole, below⟩
      have right := below tree tree.mem_parts_self
      exact ⟨below, (right_update_iff valid value distinct right).mp whole⟩
    · rintro ⟨below, joins⟩
      have right := below tree tree.mem_parts_self
      exact ⟨(right_update_iff valid value distinct right).mpr joins, below⟩
  | merge left right leftHypothesis rightHypothesis =>
    have earlierLeft := leftHypothesis (distinct_append distinct).1
    have earlierRight := rightHypothesis (distinct_append distinct).2
    rw [parts, List.forall_mem_cons, List.forall_mem_append, Settled, ← earlierLeft, ← earlierRight]
    constructor
    · rintro ⟨whole, belowLeft, belowRight⟩
      exact ⟨belowLeft, belowRight, (right_merge_iff valid distinct
        (belowLeft left left.mem_parts_self) (belowRight right right.mem_parts_self)).mp whole⟩
    · rintro ⟨belowLeft, belowRight, joins⟩
      exact ⟨(right_merge_iff valid distinct (belowLeft left left.mem_parts_self)
        (belowRight right right.mem_parts_self)).mpr joins, belowLeft, belowRight⟩

def ofValues (seed : BitVec 64) (values : List F64) : SampleTree :=
  values.foldl SampleTree.update (seeded seed)

/-- Two values sampled at rate one half: the lower priority is kept. -/
theorem bottom_k_two : Right (.finite (1 / 2)) (ofValues defaultSeed [.finite 1, .finite 2]) :=
  (bottom_k_iff (by decide +kernel) (ofValues defaultSeed [.finite 1, .finite 2])
    (show (List.map _ _).Nodup by decide +kernel)).mpr (by decide +kernel) _ (mem_parts_self _)

/-- The first priority was dropped for the second, and the third, which is higher than both, is kept
as the sample grows. -/
theorem bottom_k_missed :
    Distinct SampleEntry.rank (draws (ofValues defaultSeed [.finite 1, .finite 2, .finite 3])) ∧
      ¬Right (.finite (1 / 2)) (ofValues defaultSeed [.finite 1, .finite 2, .finite 3]) := by
  have valid : validRate (.finite (1 / 2)) = true := by decide +kernel
  have distinct : Distinct SampleEntry.rank
      (draws (ofValues defaultSeed [.finite 1, .finite 2, .finite 3])) :=
    show (List.map _ _).Nodup by decide +kernel
  have none : Right (.finite (1 / 2)) (ofValues defaultSeed []) :=
    ⟨_, if_pos valid, List.Pairwise.nil, rfl, rfl⟩
  have one : Right (.finite (1 / 2)) (ofValues defaultSeed [.finite 1]) :=
    (right_update_iff valid _ (show (List.map _ _).Nodup by decide +kernel) none).mpr
      (by decide +kernel)
  have two : Right (.finite (1 / 2)) (ofValues defaultSeed [.finite 1, .finite 2]) :=
    (right_update_iff valid _ (show (List.map _ _).Nodup by decide +kernel) one).mpr
      (by decide +kernel)
  refine ⟨distinct, fun three => ?_⟩
  exact absurd ((right_update_iff valid (.finite 3) distinct two).mp three) (by decide +kernel)

end SampleTree

end AsapSketchlib
