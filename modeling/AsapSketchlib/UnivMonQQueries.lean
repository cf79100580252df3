/-
This file models the queries of a UnivMon-Q sketch: the candidates that are recovered from its
levels, the logical heavy sets with the sums over them, the CDF of the occurrence sample, and the
answers that are taken from these, directly or from a prepared snapshot.

A value that was observed is given by its bits; frequencies, ranks and entropies are `F64`. The
logarithm and the square root are parameters.
-/

import AsapSketchlib.Floating
import AsapSketchlib.SortedMap
import AsapSketchlib.UnivMonQSketch

namespace AsapSketchlib

/-! ### Floats -/

namespace F64

def one : F64 := ofInt 1

/-- `round`, with halves away from zero. -/
def roundAway : F64 → F64
  | finite value => .finite (if 0 ≤ value then ⌊value + 1 / 2⌋ else ⌈value - 1 / 2⌉)
  | infinite negative => .infinite negative
  | nan => .nan

/-- `left == right`. -/
def Same (left right : F64) : Prop := left.partialCmp right = some .eq

instance (left right : F64) : Decidable (Same left right) := inferInstanceAs (Decidable (_ = _))

/-- `is_finite` and `(0.0..=1.0).contains`. -/
def InUnit : F64 → Prop
  | finite value => 0 ≤ value ∧ value ≤ 1
  | infinite _ => False
  | nan => False

instance (value : F64) : Decidable (InUnit value) :=
  match value with
  | finite value => inferInstanceAs (Decidable (0 ≤ value ∧ value ≤ 1))
  | infinite _ => isFalse id
  | nan => isFalse id

/-- The place of a value in the order of `total_cmp`. -/
def totalRank : F64 → ℕ ×ₗ ℚ
  | infinite true => toLex (0, 0)
  | finite value => toLex (1, value)
  | infinite false => toLex (2, 0)
  | nan => toLex (3, 0)

def sum (values : List F64) : F64 := values.foldl add zero

end F64

namespace UnivMonQ

/-- The functions on floats that are not arithmetic. -/
structure ElementaryFunctions where
  ln : F64 → F64
  sqrt : F64 → F64

/-- `partition_point`, on a list that the predicate cuts in two. -/
def partitionPoint {Point : Type} (before : Point → Bool) (points : List Point) : ℕ :=
  (points.takeWhile before).length

def roundedCount (count : ℕ) (estimate : F64) : ℕ :=
  (estimate.roundAway.clamp F64.zero (F64.ofInt count)).asU64

/-- `ordered_to_float`, of a key. -/
def valueOf (key : ℕ) : BitVec 64 := orderedToFloat (BitVec.ofNat 64 key)

/-! ### Recovery -/

def PackedCountSketch.estimatedF2 (sketch : PackedCountSketch) : F64 :=
  let rows := (List.range sketch.depth).map fun row =>
    let counters := (sketch.counters.values.drop (row * sketch.width)).take sketch.width
    F64.sum (counters.map fun counter => (F64.ofInt counter).mul (F64.ofInt counter))
  (rows.insertionSort fun left right => left.totalRank ≤ right.totalRank).getD (sketch.depth / 2)
    F64.zero

structure RecoveredCandidate where
  key : ℕ
  frequency : F64
  terminal : ℕ

structure CandidateRecovery where
  physicalF2 : List F64
  byTerminal : List (List RecoveredCandidate)

/-- The order in which candidates are sorted: descending by frequency, then ascending by key. -/
def RecoveredCandidate.Precedes (left right : RecoveredCandidate) : Prop :=
  right.frequency.totalRank < left.frequency.totalRank ∨
    right.frequency.totalRank = left.frequency.totalRank ∧ left.key ≤ right.key

instance : DecidableRel RecoveredCandidate.Precedes := fun _ _ =>
  inferInstanceAs (Decidable (_ ∨ _))

/-- The candidates that stand after some terminal level, and what was added up on the way. -/
structure Suffix where
  candidates : List RecoveredCandidate
  f2 : F64
  seen : ℕ
  everEvicted : Bool

namespace Suffix

def empty : Suffix := ⟨[], F64.zero, 0, false⟩

def extend (config : Config) (suffix : Suffix) (physicalF2 : F64)
    (recovered : List RecoveredCandidate) (everEvicted : Bool) : Suffix where
  candidates := ((suffix.candidates ++ recovered).insertionSort RecoveredCandidate.Precedes).take
    config.candidates
  f2 := suffix.f2.add physicalF2
  seen := suffix.seen + recovered.length
  everEvicted := suffix.everEvicted || everEvicted

/-- The candidates that are heavy in a suffix. All are, where recovery is complete. -/
def heavy (floats : ElementaryFunctions) (config : Config) (suffix : Suffix) :
    List RecoveredCandidate :=
  if suffix.everEvicted = false ∧ suffix.seen ≤ config.candidates then suffix.candidates
  else
    let threshold := (F64.ofInt 2).mul (floats.sqrt (suffix.f2.div (F64.ofInt config.candidates)))
    suffix.candidates.filter fun candidate => threshold.AtMost candidate.frequency

end Suffix

def suffixes (config : Config) : List (F64 × List RecoveredCandidate × Bool) → List Suffix
  | [] => []
  | (physicalF2, recovered, everEvicted) :: rest =>
    let after := suffixes config rest
    (after.headD Suffix.empty).extend config physicalF2 recovered everEvicted :: after

/-- `estimate_keyed_sum_from`, from a level on. -/
def keyedSumFrom (weigh : ℕ → F64 → F64) : ℕ → List (List RecoveredCandidate) → F64
  | _, [] => F64.zero
  | _, [last] => F64.sum (last.map fun candidate => weigh candidate.key candidate.frequency)
  | level, here :: next :: rest =>
    let correction := F64.sum (here.map fun candidate =>
      let sign := if candidate.terminal = level then F64.one else F64.one.neg
      sign.mul (weigh candidate.key candidate.frequency))
    ((F64.ofInt 2).mul (keyedSumFrom weigh (level + 1) (next :: rest))).add correction

def estimateKeyedSumFrom (heavy : List (List RecoveredCandidate)) (weigh : ℕ → F64 → F64) : F64 :=
  keyedSumFrom weigh 0 heavy

def estimateGSumFrom (heavy : List (List RecoveredCandidate)) (weigh : F64 → F64) : F64 :=
  estimateKeyedSumFrom heavy fun _ frequency => weigh frequency

section Queries

variable (hasher : SketchHasher) (floats : ElementaryFunctions) (sketch : UnivMonQ)

def recoverLevel (terminal : ℕ) (level : Level) : List RecoveredCandidate :=
  level.candidateScores.keys.filterMap fun key =>
    let hash := hashKey hasher sketch.config key
    let frequency := F64.ofInt (level.sketch.estimate hash sketch.hashLayout.bucketBits)
    if F64.zero.Less frequency then some ⟨key, frequency, terminal⟩ else none

def recoverCandidates : CandidateRecovery where
  physicalF2 := sketch.levels.map fun level => level.sketch.estimatedF2
  byTerminal := sketch.levels.mapIdx (sketch.recoverLevel hasher)

def topCandidatesFrom (recovery : CandidateRecovery) : List RecoveredCandidate :=
  (recovery.byTerminal.flatten.insertionSort RecoveredCandidate.Precedes).take
    sketch.config.candidates

def logicalHeavySetsFrom (recovery : CandidateRecovery) : List (List RecoveredCandidate) :=
  let rows := recovery.physicalF2.zip (recovery.byTerminal.zip (sketch.levels.map (·.everEvicted)))
  (suffixes sketch.config rows).map (Suffix.heavy floats sketch.config)

def candidateRecoveryComplete : Bool :=
  sketch.levels.all (fun level => !level.everEvicted) ∧
    (sketch.levels.map fun level => level.candidateScores.entries.length).sum ≤
      sketch.config.candidates

/-- `frequency_key`. The terminal level of a hash is one of the levels. -/
def frequencyKey (key : ℕ) : ℤ :=
  let hash := hashKey hasher sketch.config key
  (sketch.levels[sketch.hashLayout.terminalLevel hash]?).elim 0 fun level =>
    level.sketch.estimate hash sketch.hashLayout.bucketBits

def assistedOrderedHeavy (logicalHeavy : List (List RecoveredCandidate))
    (heavyHitters : List RecoveredCandidate) : List (ℕ × F64) :=
  if sketch.count = 0 ∨ sketch.config.orderedSamples = 0 then []
  else
    let f2 := (estimateGSumFrom logicalHeavy fun frequency => frequency.mul frequency).max F64.zero
    let count := F64.ofInt sketch.count
    let concentration := f2.div (count.mul count)
    if concentration.Less (F64.one.div (F64.ofInt sketch.config.orderedSamples)) then []
    else
      let threshold := floats.sqrt (f2.div (F64.ofInt sketch.config.width))
      ((heavyHitters.take 64).filter fun candidate => threshold.AtMost candidate.frequency).map
        fun candidate => (candidate.key, candidate.frequency)

def assistedEntropyHeavy (logicalHeavy : List (List RecoveredCandidate)) : List (ℕ × F64) :=
  ((logicalHeavy.headD []).take 64).map fun candidate => (candidate.key, candidate.frequency)

/-- Heavy frequencies that exceed a total together are scaled down to it. -/
def scaledTo (total : F64) (heavy : SortedMap ℕ F64) : SortedMap ℕ F64 :=
  let heavyTotal := F64.sum heavy.values
  if total.Less heavyTotal then
    heavy.mapValues fun frequency => frequency.mul (total.div heavyTotal)
  else heavy

def entropyFromOccurrences (assistedHeavy : List (ℕ × F64)) : Option F64 :=
  if sketch.count = 0 then some F64.zero
  else if sketch.orderedHeap = [] then none
  else
    let total := F64.ofInt sketch.count
    let heavy := scaledTo total (SortedMap.ofList assistedHeavy)
    let heavyEntropy := F64.sum (heavy.values.map fun frequency =>
      let probability := frequency.div total
      if F64.zero.Less probability then probability.neg.mul (floats.ln probability) else F64.zero)
    let residualMass := (F64.one.sub ((F64.sum heavy.values).div total)).max F64.zero
    let sampledKeys := ((sketch.orderedHeap.map (·.key)).filter
      fun key => !heavy.containsKey key).foldl
        (fun sampled key => sampled.alter key fun multiplicity => multiplicity.getD 0 + 1)
        (SortedMap.empty : SortedMap ℕ ℕ)
    let residualSamples := sampledKeys.values.sum
    if residualSamples = 0 then if residualMass.Same F64.zero then some heavyEntropy else none
    else
      let residualEntropy := F64.sum (sampledKeys.entries.map fun (key, multiplicity) =>
        let frequency := (F64.ofInt (max (sketch.frequencyKey hasher key) 1)).min total
        (F64.ofInt multiplicity).mul (floats.ln (total.div frequency)))
      some ((heavyEntropy.add
        ((residualMass.mul residualEntropy).div (F64.ofInt residualSamples))).max F64.zero)

end Queries

/-! ### The CDF -/

structure CdfComposition where
  heavy : List (ℕ × F64)
  heavyMass : F64
  residualMass : F64
  residualSamples : ℕ

/-- A block of neighbouring points that share a rank. -/
structure Block where
  start : ℕ
  stop : ℕ
  sum : F64
  weight : F64

def Block.mean (block : Block) : F64 := block.sum.div block.weight

/-- The inner loop of `isotonicize`: the last block is joined with those before it whose mean is not
below its own. -/
def settle (right : Block) : List Block → List Block
  | [] => [right]
  | left :: before =>
    if left.mean.AtMost right.mean then right :: left :: before
    else
      settle ⟨left.start, right.stop, left.sum.add right.sum, left.weight.add right.weight⟩ before

/-- `isotonicize`. The blocks stand with the last in front. -/
def isotonicize (points : List (ℕ × F64)) : List (ℕ × F64) :=
  let blocks := points.zipIdx.foldl (fun blocks (point, index) =>
    settle ⟨index, index + 1, point.2, F64.one⟩ blocks) []
  blocks.reverse.foldl (fun points block =>
    points.mapIdx fun index point =>
      if block.start ≤ index ∧ index < block.stop then
        (point.1, block.mean.clamp F64.zero F64.one)
      else point) points

/-- The points of ascending weights, each with the share of the count that is reached there. -/
def accumulate (count running : F64) : List (ℕ × F64) → List (ℕ × F64)
  | [] => []
  | (value, weight) :: rest =>
    let reached := running.add weight
    (value, (reached.div count).clamp F64.zero F64.one) :: accumulate count reached rest

def completed : List (ℕ × F64) → List (ℕ × F64)
  | [] => []
  | [last] => [(last.1, F64.one)]
  | point :: next :: rest => point :: completed (next :: rest)

/-- `UnivMonQPoint`. -/
structure Point where
  value : BitVec 64
  rank : F64

def pointOf (point : ℕ × F64) : Point := ⟨valueOf point.1, point.2⟩

section Queries

variable (hasher : SketchHasher) (floats : ElementaryFunctions) (sketch : UnivMonQ)

/-- `cdf_keys_and_composition_from`. Both extrema are there when the count is not zero. -/
def cdfKeysAndCompositionFrom (globalHeavy : List (ℕ × F64)) :
    List (ℕ × F64) × CdfComposition :=
  if sketch.count = 0 ∨ sketch.config.orderedSamples = 0 then ([], ⟨[], F64.zero, F64.zero, 0⟩)
  else
    let count := F64.ofInt sketch.count
    let scaled := scaledTo count (SortedMap.ofList globalHeavy)
    let keys := sketch.orderedHeap.map (·.key)
    let outside := keys.filter fun key => !scaled.containsKey key
    let remaining := (count.sub (F64.sum scaled.values)).max F64.zero
    let sampleOnly : Bool := outside.isEmpty ∧ F64.zero.Less remaining
    let heavy := if sampleOnly then SortedMap.empty else scaled
    let residualKeys := if sampleOnly then keys else outside
    let residualTotal :=
      if heavy.entries.isEmpty then count else (count.sub (F64.sum heavy.values)).max F64.zero
    let residualWeight :=
      if residualKeys.isEmpty then F64.zero
      else residualTotal.div (F64.ofInt residualKeys.length)
    let weights := residualKeys.foldl
      (fun weights key => weights.alter key fun weight => (weight.getD F64.zero).add residualWeight)
      heavy
    let withMin := sketch.minKey.elim weights fun key => weights.alter key (·.getD F64.zero)
    let withMax := sketch.maxKey.elim withMin fun key => withMin.alter key (·.getD F64.zero)
    (isotonicize (completed (accumulate count F64.zero withMax.entries)),
      ⟨heavy.entries, F64.sum heavy.values, residualTotal, residualKeys.length⟩)

def cdfKeys : List (ℕ × F64) :=
  if sketch.count = 0 ∨ sketch.config.orderedSamples = 0 then []
  else
    let recovery := sketch.recoverCandidates hasher
    let logicalHeavy := sketch.logicalHeavySetsFrom floats recovery
    let topCandidates := sketch.topCandidatesFrom recovery
    (sketch.cdfKeysAndCompositionFrom
      (sketch.assistedOrderedHeavy floats logicalHeavy topCandidates)).1

/-! ### Direct queries -/

/-- `min`. -/
def leastValue : Option (BitVec 64) := sketch.minKey.map valueOf

/-- `max`. -/
def greatestValue : Option (BitVec 64) := sketch.maxKey.map valueOf

def estimateGSum (weigh : F64 → F64) : F64 :=
  if sketch.count = 0 then F64.zero
  else
    estimateGSumFrom (sketch.logicalHeavySetsFrom floats (sketch.recoverCandidates hasher)) weigh

def frequencyLogFrequency (frequency : F64) : F64 :=
  if F64.zero.Less frequency then frequency.mul (floats.ln frequency) else F64.zero

def entropyOfSum (sum : F64) : F64 :=
  let count := F64.ofInt sketch.count
  ((floats.ln count).sub (sum.div count)).max F64.zero

def estimateEntropy : F64 :=
  if sketch.count = 0 then F64.zero
  else
    let logicalHeavy := sketch.logicalHeavySetsFrom floats (sketch.recoverCandidates hasher)
    let universal := sketch.entropyOfSum floats
      (estimateGSumFrom logicalHeavy (frequencyLogFrequency floats))
    if sketch.orderedHeap = [] ∨ sketch.candidateRecoveryComplete then universal
    else
      let f2 := (estimateGSumFrom logicalHeavy fun frequency =>
        frequency.mul frequency).max F64.zero
      let count := F64.ofInt sketch.count
      let concentration := f2.div (count.mul count)
      if concentration.Less (F64.one.div (F64.ofInt sketch.orderedHeap.length)) then universal
      else
        (sketch.entropyFromOccurrences hasher floats (assistedEntropyHeavy logicalHeavy)).getD
          universal

def estimateEntropyOccurrence : Option F64 :=
  if sketch.count = 0 then some F64.zero
  else
    sketch.entropyFromOccurrences hasher floats (assistedEntropyHeavy
      (sketch.logicalHeavySetsFrom floats (sketch.recoverCandidates hasher)))

def reported (candidate : RecoveredCandidate) : BitVec 64 × ℕ :=
  (valueOf candidate.key, (candidate.frequency.roundAway.max F64.zero).asU64)

def heavyHitters (most : ℕ) : List (BitVec 64 × ℕ) :=
  if most = 0 ∨ sketch.count = 0 then []
  else ((sketch.topCandidatesFrom (sketch.recoverCandidates hasher)).take most).map reported

def rank (value : BitVec 64) : Option ℕ :=
  if sketch.count = 0 ∨ sketch.config.orderedSamples = 0 then none
  else do
    let key := (floatToOrdered value).toNat
    let minKey ← sketch.minKey
    if key < minKey then some 0
    else do
      let maxKey ← sketch.maxKey
      if maxKey ≤ key then some sketch.count
      else
        let cdf := sketch.cdfKeys hasher floats
        let index := partitionPoint (fun point => point.1 ≤ key) cdf
        some (if index = 0 then 0 else (cdf[index - 1]?).elim 0 fun point =>
          roundedCount sketch.count (point.2.mul (F64.ofInt sketch.count)))

def quantileFromCdf (q : F64) (cdf : List (ℕ × F64)) : Option (BitVec 64) :=
  if sketch.count = 0 ∨ ¬q.InUnit then none
  else if q.Same F64.zero then sketch.leastValue
  else if q.Same F64.one then sketch.greatestValue
  else if sketch.config.orderedSamples = 0 then none
  else
    let count := F64.ofInt sketch.count
    let target := ((q.mul count).ceil.max F64.one).div count
    let index := partitionPoint (fun point => point.2.Less target) cdf
    (cdf[Nat.min index (cdf.length - 1)]?).map fun point => valueOf point.1

def quantile (q : F64) : Option (BitVec 64) :=
  if sketch.count = 0 ∨ ¬q.InUnit then none
  else if q.Same F64.zero then sketch.leastValue
  else if q.Same F64.one then sketch.greatestValue
  else if sketch.config.orderedSamples = 0 then none
  else sketch.quantileFromCdf q (sketch.cdfKeys hasher floats)

def quantiles (fractions : List F64) : List (Option (BitVec 64)) :=
  if sketch.count = 0 then List.replicate fractions.length none
  else fractions.map fun q => sketch.quantileFromCdf q (sketch.cdfKeys hasher floats)

def cdf : List Point := (sketch.cdfKeys hasher floats).map pointOf

end Queries

end UnivMonQ

/-! ### Prepared queries -/

structure UnivMonQQuery where
  sketch : UnivMonQ
  logicalHeavy : List (List UnivMonQ.RecoveredCandidate)
  topCandidates : List UnivMonQ.RecoveredCandidate
  occurrenceEntropy : Option F64
  candidateRecoveryComplete : Bool
  cdf : List UnivMonQ.Point
  cdfComposition : UnivMonQ.CdfComposition

namespace UnivMonQ

def prepareQueries (hasher : SketchHasher) (floats : ElementaryFunctions) (sketch : UnivMonQ) :
    UnivMonQQuery :=
  let recovery := sketch.recoverCandidates hasher
  let logicalHeavy := sketch.logicalHeavySetsFrom floats recovery
  let topCandidates := sketch.topCandidatesFrom recovery
  let orderedHeavy := sketch.assistedOrderedHeavy floats logicalHeavy topCandidates
  let points := sketch.cdfKeysAndCompositionFrom orderedHeavy
  { sketch
    logicalHeavy
    topCandidates
    occurrenceEntropy :=
      sketch.entropyFromOccurrences hasher floats (assistedEntropyHeavy logicalHeavy)
    candidateRecoveryComplete := sketch.candidateRecoveryComplete
    cdf := points.1.map pointOf
    cdfComposition := points.2 }

end UnivMonQ

namespace UnivMonQQuery

open UnivMonQ

variable (floats : ElementaryFunctions) (query : UnivMonQQuery)

def count : ℕ := query.sketch.count

def estimateRankUniversal (value : BitVec 64) : Option ℕ :=
  if query.count = 0 then none
  else do
    let key := (floatToOrdered value).toNat
    let minKey ← query.sketch.minKey
    if key < minKey then some 0
    else do
      let maxKey ← query.sketch.maxKey
      if maxKey ≤ key then some query.count
      else
        some (roundedCount query.count (estimateKeyedSumFrom query.logicalHeavy
          fun candidateKey frequency => if candidateKey ≤ key then frequency else F64.zero))

def estimateGSum (weigh : F64 → F64) : F64 := estimateGSumFrom query.logicalHeavy weigh

def estimateF2 : F64 := (query.estimateGSum fun frequency => frequency.mul frequency).max F64.zero

def estimateEntropyUniversal : F64 :=
  if query.count = 0 then F64.zero
  else query.sketch.entropyOfSum floats (query.estimateGSum (frequencyLogFrequency floats))

def estimateEntropyOccurrence : Option F64 := query.occurrenceEntropy

def estimateEntropy : F64 :=
  let universal := query.estimateEntropyUniversal floats
  if query.count = 0 ∨ query.occurrenceEntropy.isNone ∨ query.candidateRecoveryComplete then
    universal
  else
    let count := F64.ofInt query.count
    let concentration := query.estimateF2.div (count.mul count)
    if concentration.Less (F64.one.div (F64.ofInt query.sketch.orderedHeap.length)) then universal
    else query.estimateEntropyOccurrence.getD universal

def heavyHitters (most : ℕ) : List (BitVec 64 × ℕ) :=
  if most = 0 ∨ query.count = 0 then [] else (query.topCandidates.take most).map reported

def rank (value : BitVec 64) : Option ℕ :=
  if query.count = 0 ∨ query.sketch.config.orderedSamples = 0 then none
  else do
    let least ← query.sketch.leastValue
    let greatest ← query.sketch.greatestValue
    if totalCmp value least = .lt then some 0
    else if totalCmp value greatest ≠ .lt then some query.count
    else
      let index := partitionPoint (fun point => totalCmp point.value value ≠ .gt) query.cdf
      some (if index = 0 then 0 else (query.cdf[index - 1]?).elim 0 fun point =>
        roundedCount query.count (point.rank.mul (F64.ofInt query.count)))

def quantile (q : F64) : Option (BitVec 64) :=
  if query.count = 0 ∨ ¬q.InUnit then none
  else if q.Same F64.zero then query.sketch.leastValue
  else if q.Same F64.one then query.sketch.greatestValue
  else if query.sketch.config.orderedSamples = 0 then none
  else
    let count := F64.ofInt query.count
    let target := ((q.mul count).ceil.max F64.one).div count
    let index := partitionPoint (fun point => point.rank.Less target) query.cdf
    (query.cdf[Nat.min index (query.cdf.length - 1)]?).map (·.value)

def quantiles (fractions : List F64) : List (Option (BitVec 64)) := fractions.map query.quantile

end UnivMonQQuery

namespace UnivMonQ

def estimateRankUniversal (hasher : SketchHasher) (floats : ElementaryFunctions)
    (sketch : UnivMonQ) (value : BitVec 64) : Option ℕ :=
  if sketch.count = 0 then none
  else (sketch.prepareQueries hasher floats).estimateRankUniversal value

end UnivMonQ

end AsapSketchlib
