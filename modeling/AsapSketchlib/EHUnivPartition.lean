/-
This file proves that the two tiers of the hybrid histogram together cut what is left of the
stream into consecutive blocks. A map bucket has the frequencies of its block, and what a
sketch adds up of its inserts and merges is, for a sketch bucket, what its block adds up to:
promotion, merging and the reuse of pooled sketches lose and double nothing.
-/

import AsapSketchlib.EHUnivOptimized
import AsapSketchlib.HistogramPartition

namespace AsapSketchlib

open HashTable

/-! ### Totals of a block -/

def pairsOf (block : List TimedUpdate) : List (HeapItem × ℤ) :=
  block.map fun entry => (inputToOwned entry.key, entry.value)

/-- Keys of a block that a map takes for equal weigh alike. -/
def Alike {Total : Type} (weight : HeapItem → ℤ → Total) (block : List TimedUpdate) : Prop :=
  ∀ stored ∈ (pairsOf block).map Prod.fst, ∀ key ∈ (pairsOf block).map Prod.fst,
    HeapItem.eqItem stored key = true → weight stored = weight key

theorem Alike.mono {Total : Type} {weight : HeapItem → ℤ → Total} {block larger : List TimedUpdate}
    (alike : Alike weight larger) (subset : ∀ entry ∈ block, entry ∈ larger) :
    Alike weight block := by
  have keys : ∀ key ∈ (pairsOf block).map Prod.fst, key ∈ (pairsOf larger).map Prod.fst := by
    intro key member
    unfold pairsOf at member ⊢
    rw [List.map_map] at member ⊢
    obtain ⟨entry, inside, rfl⟩ := List.mem_map.mp member
    exact List.mem_map_of_mem (subset entry inside)
  exact fun stored storedMember key keyMember =>
    alike stored (keys stored storedMember) key (keys key keyMember)

/-- A weight that adds up over the values of a key. -/
def Additive {Total : Type} [AddCommMonoid Total] (weight : HeapItem → ℤ → Total) : Prop :=
  ∀ key old new, weight key (old + new) = weight key old + weight key new

def sizeOf (block : List TimedUpdate) : ℕ := (block.map fun entry => entry.value.toNat).sum

theorem sizeOf_append (first second : List TimedUpdate) :
    sizeOf (first ++ second) = sizeOf first + sizeOf second := by
  unfold sizeOf
  rw [List.map_append, List.sum_append]

theorem pairsOf_append (first second : List TimedUpdate) :
    pairsOf (first ++ second) = pairsOf first ++ pairsOf second := List.map_append

/-! ### Frequencies -/

/-- A map has the frequencies of a block: its keys are those of the block, and whatever adds up
over the values of a key is the same over the map and over the block. -/
structure Frequencies (block : List TimedUpdate) (freqMap : List (HeapItem × ℤ)) : Prop where
  keys : ∀ key ∈ freqMap.map Prod.fst, key ∈ (pairsOf block).map Prod.fst
  held : ∀ key ∈ (pairsOf block).map Prod.fst,
    HashTable.Held HeapItem.eqItem (freqMap.map Prod.fst) key
  weighs : ∀ {Total : Type} [AddCommMonoid Total] (weight : HeapItem → ℤ → Total),
    Additive weight → Alike weight block →
      HashTable.weigh weight freqMap = HashTable.weigh weight (pairsOf block)

theorem Frequencies.pairs (block : List TimedUpdate) : Frequencies block (pairsOf block) where
  keys := fun _ member => member
  held := fun _ member => HashTable.Held.of_mem member
  weighs := fun _ _ _ => rfl

theorem Frequencies.perm {block : List TimedUpdate} {freqMap entries : List (HeapItem × ℤ)}
    (frequencies : Frequencies block freqMap) (perm : entries.Perm freqMap) :
    Frequencies block entries where
  keys := fun key member => frequencies.keys key ((perm.map Prod.fst).mem_iff.mp member)
  held := fun key member => (frequencies.held key member).of_subset fun _ stored =>
    (perm.map Prod.fst).mem_iff.mpr stored
  weighs := fun weight additive alike =>
    (weigh_perm weight perm).trans (frequencies.weighs weight additive alike)

theorem Frequencies.add {table : HashTable HeapItem HeapItem.eqItem}
    {first second : List TimedUpdate} {freqMap entries : List (HeapItem × ℤ)}
    (left : Frequencies first freqMap) (right : Frequencies second entries) :
    Frequencies (first ++ second) (addFrequencies table freqMap entries) := by
  have merged : (addFrequencies table freqMap entries).map Prod.fst =
      table.insertKeys (freqMap.map Prod.fst) (entries.map Prod.fst) :=
    map_fst_upsertAll _ _ _
  have keysFirst : ∀ key ∈ freqMap.map Prod.fst,
      key ∈ (pairsOf (first ++ second)).map Prod.fst := by
    intro key member
    rw [pairsOf_append, List.map_append]
    exact List.mem_append_left _ (left.keys key member)
  have keysSecond : ∀ key ∈ entries.map Prod.fst,
      key ∈ (pairsOf (first ++ second)).map Prod.fst := by
    intro key member
    rw [pairsOf_append, List.map_append]
    exact List.mem_append_right _ (right.keys key member)
  refine ⟨?_, ?_, ?_⟩
  · intro key member
    rw [merged] at member
    exact (mem_insertKeys _ _ key member).elim (keysFirst key) (keysSecond key)
  · intro key member
    rw [merged]
    rw [pairsOf_append, List.map_append] at member
    rcases List.mem_append.mp member with inFirst | inSecond
    · exact (left.held key inFirst).of_subset (insertKeys_subset _ _)
    · exact (right.held key inSecond).trans HeapItem.eqItem_trans
        (held_insertKeys _ _)
  · intro Total _ weight additive alike
    have added : weigh weight (addFrequencies table freqMap entries) =
        weigh weight freqMap + weigh weight entries := by
      refine weigh_upsertAll _ additive fun stored storedMember key keyMember => ?_
      refine alike stored ?_ key (keysSecond key keyMember)
      rw [List.map_append] at storedMember
      exact (List.mem_append.mp storedMember).elim (keysFirst stored) (keysSecond stored)
    rw [added, pairsOf_append, weigh_append,
      left.weighs weight additive (alike.mono fun _ => List.mem_append_left second),
      right.weighs weight additive (alike.mono fun _ => List.mem_append_right first)]

def frequencyOf (within : HeapItem → Bool) (freqMap : List (HeapItem × ℤ)) : ℤ :=
  HashTable.weigh (fun key value => if within key then value else 0) freqMap

/-- Two maps hold the same classes of equal keys, with the same frequencies. -/
def SameFrequencies (left right : List (HeapItem × ℤ)) : Prop :=
  ∀ within : HeapItem → Bool,
    (∀ stored key, HeapItem.eqItem stored key = true → within stored = within key) →
      (left.any fun entry => within entry.1) = (right.any fun entry => within entry.1) ∧
        frequencyOf within left = frequencyOf within right

theorem Frequencies.any {block : List TimedUpdate} {freqMap : List (HeapItem × ℤ)}
    (frequencies : Frequencies block freqMap) {within : HeapItem → Bool}
    (closed : ∀ stored key, HeapItem.eqItem stored key = true → within stored = within key) :
    (freqMap.any fun entry => within entry.1) = true ↔
      ∃ key ∈ (pairsOf block).map Prod.fst, within key = true := by
  rw [List.any_eq_true]
  constructor
  · rintro ⟨entry, member, inside⟩
    exact ⟨entry.1, frequencies.keys entry.1 (List.mem_map_of_mem member), inside⟩
  · rintro ⟨key, member, inside⟩
    obtain ⟨stored, storedMember, same⟩ := frequencies.held key member
    obtain ⟨entry, entryMember, rfl⟩ := List.mem_map.mp storedMember
    refine ⟨entry, entryMember, ?_⟩
    rcases same with rfl | equalKey
    · exact inside
    · exact (closed entry.1 key equalKey).trans inside

theorem Frequencies.same {block : List TimedUpdate} {left right : List (HeapItem × ℤ)}
    (leftHolds : Frequencies block left) (rightHolds : Frequencies block right) :
    SameFrequencies left right := by
  intro within closed
  have additive : Additive fun key (value : ℤ) => if within key then value else 0 := by
    intro key old new
    dsimp only
    split
    · rfl
    · exact (add_zero 0).symm
  have alike : Alike (fun key (value : ℤ) => if within key then value else 0) block := by
    intro stored _ key _ equalKey
    funext value
    dsimp only
    rw [closed stored key equalKey]
  refine ⟨?_, ?_⟩
  · rw [Bool.eq_iff_iff, leftHolds.any closed, rightHolds.any closed]
  · exact (leftHolds.weighs _ additive alike).trans (rightHolds.weighs _ additive alike).symm

/-! ### Map buckets -/

/-- A map bucket stands for a block. -/
structure MapHolds (block : List TimedUpdate) (bucket : EHMapBucket) : Prop where
  spans : Spans TimedUpdate.time block bucket.minTime bucket.maxTime
  size : bucket.bucketSize = sizeOf block
  frequencies : Frequencies block bucket.freqMap

theorem mapHolds_single (arith : MassArith) (entry : TimedUpdate) :
    MapHolds [entry] (EHMapBucket.single arith entry) where
  spans := Spans.singleton entry
  size := (Nat.add_zero _).symm
  frequencies := Frequencies.pairs [entry]

theorem MapHolds.join {arith : MassArith} {table otherTable : HashTable HeapItem HeapItem.eqItem}
    {first second : List TimedUpdate} {older newer : EHMapBucket} (left : MapHolds first older)
    (right : MapHolds second newer) :
    MapHolds (first ++ second) (EHMapBucket.join arith table otherTable older newer) where
  spans := left.spans.append right.spans
  size := by
    rw [sizeOf_append, ← left.size, ← right.size]
    rfl
  frequencies := left.frequencies.add (right.frequencies.perm (otherTable.iterate_perm _))

/-! ### Sketch buckets -/

/-- Something a sketch adds up over its inserts and merges, as long as it is valid. -/
structure UnivObservation {Sketch : Type} (kind : UnivKind Sketch) (Total : Type)
    [AddCommMonoid Total] where
  valid : Sketch → Prop
  observe : Sketch → Total
  weight : HeapItem → ℤ → Total
  additive : Additive weight
  fresh : ∀ sketch, kind.initUnivmon = some sketch → valid sketch ∧ observe sketch = 0
  insert : ∀ sketch key value updated, valid sketch → kind.insert sketch key value = some updated →
    valid updated ∧ observe updated = observe sketch + weight (inputToOwned key) value
  merge : ∀ sketch other merged, valid sketch → valid other →
    kind.merge sketch other = some merged →
      valid merged ∧ observe merged = observe sketch + observe other
  free : ∀ sketch, valid sketch → valid (kind.free sketch) ∧ observe (kind.free sketch) = 0

namespace UnivObservation

variable {Sketch Total : Type} [AddCommMonoid Total] {kind : UnivKind Sketch}
  (observation : UnivObservation kind Total)

/-- A sketch bucket stands for a block. -/
structure SketchHolds (block : List TimedUpdate) (bucket : EHUnivMonBucket Sketch) : Prop where
  spans : Spans TimedUpdate.time block bucket.minTime bucket.maxTime
  size : bucket.bucketSize = sizeOf block
  valid : observation.valid bucket.sketch
  observes : Alike observation.weight block →
    observation.observe bucket.sketch = HashTable.weigh observation.weight (pairsOf block)

/-- A sketch of the pool is as good as a fresh one. -/
def Clean (sketch : Sketch) : Prop := observation.valid sketch ∧ observation.observe sketch = 0

def PoolClean (pool : UnivSketchPool Sketch) : Prop :=
  ∀ sketch ∈ pool.freeList, observation.Clean sketch

variable {observation}

theorem SketchHolds.join {first second : List TimedUpdate}
    {older newer merged : EHUnivMonBucket Sketch}
    (left : observation.SketchHolds first older) (right : observation.SketchHolds second newer)
    (joined : EHUnivMonBucket.join kind older newer = some merged) :
    observation.SketchHolds (first ++ second) merged := by
  obtain ⟨sketch, union, rfl⟩ := Option.map_eq_some_iff.mp joined
  obtain ⟨valid, total⟩ := observation.merge _ _ sketch left.valid right.valid union
  refine ⟨left.spans.append right.spans, ?_, valid, fun alike => ?_⟩
  · rw [sizeOf_append, ← left.size, ← right.size]
  · rw [total, pairsOf_append, weigh_append,
      left.observes (alike.mono fun _ => List.mem_append_left second),
      right.observes (alike.mono fun _ => List.mem_append_right first)]

theorem observe_insertAll {entries : List (HeapItem × ℤ)} {sketch fed : Sketch}
    (valid : observation.valid sketch) (insertion : kind.insertAll sketch entries = some fed) :
    observation.valid fed ∧ observation.observe fed =
      observation.observe sketch + weigh observation.weight entries := by
  induction entries generalizing sketch with
  | nil =>
    obtain rfl := Option.some.inj insertion
    exact ⟨valid, (add_zero _).symm⟩
  | cons first rest hypothesis =>
    obtain ⟨next, inserted, later⟩ := Option.bind_eq_some_iff.mp insertion
    obtain ⟨validNext, observed⟩ := observation.insert _ _ _ next valid inserted
    rw [inputToOwned_heapItemToSketchInput] at observed
    obtain ⟨validFed, total⟩ := hypothesis validNext later
    exact ⟨validFed, by rw [total, observed, add_assoc]; rfl⟩

/-! ### The pool -/

theorem poolClean_putAll {pool : UnivSketchPool Sketch} {sketches : List Sketch}
    (clean : observation.PoolClean pool) (valid : ∀ sketch ∈ sketches, observation.valid sketch) :
    observation.PoolClean (pool.putAll kind sketches) := by
  induction sketches generalizing pool with
  | nil => exact clean
  | cons first rest hypothesis =>
    refine hypothesis ?_ fun sketch member =>
      valid sketch (List.mem_cons_of_mem first member)
    intro sketch member
    rcases List.mem_cons.mp member with rfl | earlier
    · exact observation.free first (valid first List.mem_cons_self)
    · exact clean sketch earlier

theorem poolClean_new {cap : ℕ} {pool : UnivSketchPool Sketch}
    (created : UnivSketchPool.new kind cap = some pool) : observation.PoolClean pool := by
  obtain ⟨freeList, allocated, rfl⟩ := Option.map_eq_some_iff.mp created
  show ∀ sketch ∈ freeList, observation.Clean sketch
  clear created
  induction cap generalizing freeList with
  | zero =>
    obtain rfl := Option.some.inj allocated
    exact fun _ member => absurd member List.not_mem_nil
  | succ cap hypothesis =>
    rw [List.replicate_succ, List.mapM_cons] at allocated
    obtain ⟨fresh, freshEq, allocated⟩ := Option.bind_eq_some_iff.mp allocated
    obtain ⟨rest, restEq, allocated⟩ := Option.bind_eq_some_iff.mp allocated
    obtain rfl := Option.some.inj allocated
    exact List.forall_mem_cons.mpr
      ⟨observation.fresh fresh freshEq, hypothesis rest restEq⟩

theorem poolClean_take {pool taken : UnivSketchPool Sketch} {sketch : Sketch}
    (clean : observation.PoolClean pool) (take : pool.take kind = some (sketch, taken)) :
    observation.Clean sketch ∧ observation.PoolClean taken := by
  unfold UnivSketchPool.take at take
  cases free : pool.freeList with
  | nil =>
    rw [free] at take
    obtain ⟨fresh, created, equal⟩ := Option.map_eq_some_iff.mp take
    obtain ⟨rfl, rfl⟩ := Prod.mk.inj equal
    exact ⟨observation.fresh fresh created, fun _ member => absurd member List.not_mem_nil⟩
  | cons first rest =>
    rw [free] at take
    obtain ⟨rfl, rfl⟩ := Prod.mk.inj (Option.some.inj take)
    refine ⟨clean first (free ▸ List.mem_cons_self), fun sketch member => clean sketch ?_⟩
    exact free ▸ List.mem_cons_of_mem first member

end UnivObservation

/-! ### The backward scan -/

namespace MassScan

variable {Bucket : Type} {arith : MassArith} {k : ℕ} {massOf : Bucket → ℚ}
  {join : ℕ → Bucket → Bucket → Option Bucket}

theorem visit_cases {i : ℕ} {scan visited : MassScan Bucket}
    (step : visit arith k massOf join i scan = some visited) :
    ∃ front bucket next back, scan.buckets = front ++ bucket :: next :: back ∧ front.length = i ∧
      ((arith.add (arith.div scan.sumL22 k) arith.massEpsilon <
            arith.add (massOf bucket) (massOf next) ∧
          visited = { scan with sumL22 := arith.add scan.sumL22 (massOf next) }) ∨
        ∃ merged, join i bucket next = some merged ∧
          visited = ⟨front ++ merged :: back, scan.sumL22, scan.consumed ++ [next]⟩) := by
  unfold visit at step
  cases bucketEq : scan.buckets[i]? with
  | none =>
    rw [bucketEq] at step
    exact absurd step.symm (Option.some_ne_none _)
  | some bucket =>
    cases nextEq : scan.buckets[i + 1]? with
    | none =>
      rw [bucketEq, nextEq] at step
      exact absurd step.symm (Option.some_ne_none _)
    | some next =>
      obtain ⟨front, back, cut, rfl⟩ := exists_split_pair bucketEq nextEq
      refine ⟨front, bucket, next, back, cut, rfl, ?_⟩
      rw [bucketEq, nextEq] at step
      by_cases light : arith.add (massOf bucket) (massOf next) ≤
          arith.add (arith.div scan.sumL22 k) arith.massEpsilon
      · simp only [if_pos light] at step
        obtain ⟨merged, joined, rfl⟩ := Option.map_eq_some_iff.mp step
        refine Or.inr ⟨merged, joined, ?_⟩
        rw [cut, set_eraseIdx_pair]
      · simp only [if_neg light] at step
        exact Or.inl ⟨lt_of_not_ge light, (Option.some.inj step).symm⟩

theorem below_coarsens {count : ℕ} {scan final : MassScan Bucket}
    (run : below arith k massOf join count scan = some final) :
    Coarsens (fun older newer merged => ∃ i, join i older newer = some merged) scan.buckets
      final.buckets := by
  induction count generalizing scan with
  | zero =>
    obtain rfl := Option.some.inj run
    exact .refl _
  | succ i hypothesis =>
    obtain ⟨visited, step, later⟩ := Option.bind_eq_some_iff.mp run
    obtain ⟨front, bucket, next, back, cut, -, passed | ⟨merged, joined, rfl⟩⟩ := visit_cases step
    · obtain ⟨-, rfl⟩ := passed
      have rest := hypothesis later
      exact rest
    · rw [cut]
      exact .step front back ⟨i, joined⟩ (hypothesis later)

theorem below_forall {motive : Bucket → Prop}
    (keeps : ∀ i older newer merged, motive older → motive newer →
      join i older newer = some merged → motive merged)
    {count : ℕ} {scan final : MassScan Bucket}
    (run : below arith k massOf join count scan = some final)
    (all : ∀ bucket ∈ scan.buckets ++ scan.consumed, motive bucket) :
    ∀ bucket ∈ final.buckets ++ final.consumed, motive bucket := by
  induction count generalizing scan with
  | zero =>
    obtain rfl := Option.some.inj run
    exact all
  | succ i hypothesis =>
    obtain ⟨visited, step, later⟩ := Option.bind_eq_some_iff.mp run
    obtain ⟨front, bucket, next, back, cut, -, passed | ⟨merged, joined, rfl⟩⟩ := visit_cases step
    · obtain ⟨-, rfl⟩ := passed
      exact hypothesis later all
    · rw [cut] at all
      refine hypothesis later fun other member => ?_
      have bucketHolds := all bucket (by simp)
      have nextHolds := all next (by simp)
      simp only [List.append_assoc, List.cons_append, List.mem_append, List.mem_cons] at member
      rcases member with inFront | rfl | inBack | inConsumed | rfl | none
      · exact all other (by simp [inFront])
      · exact keeps i bucket next other bucketHolds nextHolds joined
      · exact all other (by simp [inBack])
      · exact all other (by simp [inConsumed])
      · exact nextHolds
      · exact absurd none List.not_mem_nil

end MassScan

/-! ### The two tiers -/

namespace EHUnivOptimized

variable {Sketch : Type}

def tiers (eh : EHUnivOptimized Sketch) : List (EHUnivMonBucket Sketch ⊕ EHMapBucket) :=
  eh.umBuckets.map Sum.inl ++ eh.mapBuckets.map Sum.inr

def tierMin : EHUnivMonBucket Sketch ⊕ EHMapBucket → ℕ :=
  Sum.elim EHUnivMonBucket.minTime EHMapBucket.minTime

def tierMax : EHUnivMonBucket Sketch ⊕ EHMapBucket → ℕ :=
  Sum.elim EHUnivMonBucket.maxTime EHMapBucket.maxTime

end EHUnivOptimized

open EHUnivOptimized

namespace UnivObservation

variable {Sketch Total : Type} [AddCommMonoid Total] {kind : UnivKind Sketch}
  {observation : UnivObservation kind Total} {arith : MassArith}

variable (observation) in
def TierHolds (block : List TimedUpdate) : EHUnivMonBucket Sketch ⊕ EHMapBucket → Prop :=
  Sum.elim (observation.SketchHolds block) (MapHolds block)

/-- The merges within the tiers. -/
inductive TierJoins (kind : UnivKind Sketch) (arith : MassArith) :
    EHUnivMonBucket Sketch ⊕ EHMapBucket → EHUnivMonBucket Sketch ⊕ EHMapBucket →
      EHUnivMonBucket Sketch ⊕ EHMapBucket → Prop
  | sketches {older newer merged : EHUnivMonBucket Sketch}
      (joined : EHUnivMonBucket.join kind older newer = some merged) :
      TierJoins kind arith (.inl older) (.inl newer) (.inl merged)
  | maps (table otherTable : HashTable HeapItem HeapItem.eqItem) (older newer : EHMapBucket) :
      TierJoins kind arith (.inr older) (.inr newer)
        (.inr (EHMapBucket.join arith table otherTable older newer))

theorem TierHolds.spans {block : List TimedUpdate}
    {bucket : EHUnivMonBucket Sketch ⊕ EHMapBucket} (holds : observation.TierHolds block bucket) :
    Spans TimedUpdate.time block (tierMin bucket) (tierMax bucket) := by
  cases bucket with
  | inl sketch => exact SketchHolds.spans holds
  | inr map => exact MapHolds.spans holds

theorem TierHolds.join {first second : List TimedUpdate}
    {older newer merged : EHUnivMonBucket Sketch ⊕ EHMapBucket}
    (left : observation.TierHolds first older) (right : observation.TierHolds second newer)
    (joined : TierJoins kind arith older newer merged) :
    observation.TierHolds (first ++ second) merged := by
  cases joined with
  | sketches joined => exact SketchHolds.join left right joined
  | maps table otherTable older newer => exact MapHolds.join left right

variable (observation) in
/-- The tiers cut what is left of the stream, and the pool is clean. -/
structure Sound (bound : ℕ) (stream : List TimedUpdate) (eh : EHUnivOptimized Sketch) : Prop where
  pool : observation.PoolClean eh.pool
  partitions : Partitions TimedUpdate.time observation.TierHolds bound stream eh.tiers

/-! ### The parts of an update -/

theorem valid_of_member {eh : EHUnivOptimized Sketch} {bound : ℕ} {stream : List TimedUpdate}
    (sound : observation.Sound bound stream eh) {bucket : EHUnivMonBucket Sketch}
    (member : bucket ∈ eh.umBuckets) : observation.valid bucket.sketch := by
  obtain ⟨expired, held, rfl, cut, -⟩ := sound.partitions
  obtain ⟨block, -, holds⟩ := cut.block_of_mem
    (List.mem_append_left _ (List.mem_map_of_mem member))
  exact SketchHolds.valid holds

section

variable {eh : EHUnivOptimized Sketch} {bound time : ℕ} {stream : List TimedUpdate}
  (sound : observation.Sound bound stream eh)

include sound

theorem tiers_expire (sorted : stream.Pairwise fun earlier later => earlier.time ≤ later.time) :
    (kind.expire time eh).tiers =
      eh.tiers.dropWhile fun bucket => tierMax bucket < time - eh.window := by
  obtain ⟨within, ordered⟩ := sound.partitions.ordered (fun _ _ holds => TierHolds.spans holds)
    sorted
  unfold tiers
  rw [dropWhile_append_of_stays, List.dropWhile_map, List.dropWhile_map]
  · rfl
  · intro bucket member stays later laterMember
    have before : tierMax bucket ≤ tierMin later :=
      (List.pairwise_append.mp ordered).2.2 bucket member later laterMember
    have inside : tierMin later ≤ tierMax later :=
      within later (List.mem_append_right _ laterMember)
    have kept := of_decide_eq_false stays
    exact decide_eq_false (by omega)

theorem sound_expire (le : bound ≤ time - eh.window)
    (sorted : stream.Pairwise fun earlier later => earlier.time ≤ later.time) :
    observation.Sound (time - eh.window) stream (kind.expire time eh) where
  pool := by
    refine poolClean_putAll sound.pool fun sketch member => ?_
    obtain ⟨bucket, inside, rfl⟩ := List.mem_map.mp member
    exact valid_of_member sound ((List.takeWhile_sublist _).subset inside)
  partitions := by
    rw [tiers_expire sound sorted]
    exact sound.partitions.expireWhile le fun _ _ holds => TierHolds.spans holds

end

theorem sound_mapTier {eh : EHUnivOptimized Sketch} {bound : ℕ} {stream : List TimedUpdate}
    {entry : TimedUpdate} {tables : ℕ → HashTable HeapItem HeapItem.eqItem}
    {scan : MassScan EHMapBucket} (sound : observation.Sound bound stream eh)
    (run : UnivKind.mergeMapBuckets arith tables eh.k
      (eh.mapBuckets ++ [EHMapBucket.single arith entry]) = some scan) :
    observation.Sound bound (stream ++ [entry]) { eh with mapBuckets := scan.buckets } where
  pool := sound.pool
  partitions := by
    have single : observation.TierHolds [entry] (.inr (EHMapBucket.single arith entry)) :=
      mapHolds_single arith entry
    have pushed := sound.partitions.push single
    have appended : eh.tiers ++ [.inr (EHMapBucket.single arith entry)] =
        eh.umBuckets.map Sum.inl ++
          (eh.mapBuckets ++ [EHMapBucket.single arith entry]).map Sum.inr := by
      unfold tiers
      rw [List.map_append, List.append_assoc]
      rfl
    rw [appended] at pushed
    have coarsens : Coarsens (TierJoins kind arith)
        ((eh.mapBuckets ++ [EHMapBucket.single arith entry]).map Sum.inr)
        (scan.buckets.map Sum.inr) := by
      refine (MassScan.below_coarsens run).map ?_
      rintro older newer merged ⟨i, joined⟩
      obtain rfl := Option.some.inj joined
      exact .maps (tables i) (tables (i + 1)) older newer
    exact pushed.coarsens (fun _ _ _ _ _ left right joined => TierHolds.join left right joined)
      (coarsens.append_left _)

variable {eh eh' : EHUnivOptimized Sketch}

theorem sound_mergeSketchBuckets {bound : ℕ} {stream : List TimedUpdate} {sumL22 : ℚ}
    (sound : observation.Sound bound stream eh)
    (merged : kind.mergeSketchBuckets arith sumL22 eh = some eh') :
    observation.Sound bound stream eh' := by
  obtain ⟨scan, run, rfl⟩ := Option.map_eq_some_iff.mp merged
  refine ⟨?_, ?_⟩
  · refine poolClean_putAll sound.pool fun sketch member => ?_
    obtain ⟨bucket, inside, rfl⟩ := List.mem_map.mp member
    refine MassScan.below_forall (motive := fun bucket => observation.valid bucket.sketch) ?_ run ?_
      bucket (List.mem_append_right _ inside)
    · intro i older newer merged left right joined
      obtain ⟨sketch, union, rfl⟩ := Option.map_eq_some_iff.mp joined
      exact (observation.merge _ _ sketch left right union).1
    · intro bucket member
      rw [List.append_nil] at member
      exact valid_of_member sound member
  · have coarsens : Coarsens (TierJoins kind arith) (eh.umBuckets.map Sum.inl)
        (scan.buckets.map Sum.inl) := by
      refine (MassScan.below_coarsens run).map ?_
      rintro older newer merged ⟨i, joined⟩
      exact .sketches joined
    exact sound.partitions.coarsens
      (fun _ _ _ _ _ left right joined => TierHolds.join left right joined)
      (coarsens.append_right _)

theorem sound_promoteOldestMap {bound : ℕ} {stream : List TimedUpdate}
    {tables : ℕ → HashTable HeapItem HeapItem.eqItem} {sumL22 : ℚ}
    (sound : observation.Sound bound stream eh)
    (promoted : kind.promoteOldestMap arith tables sumL22 eh = some eh') :
    observation.Sound bound stream eh' := by
  unfold UnivKind.promoteOldestMap at promoted
  cases maps : eh.mapBuckets with
  | nil =>
    rw [maps] at promoted
    exact absurd promoted.symm (Option.some_ne_none _)
  | cons oldest newer =>
    simp only [maps] at promoted
    obtain ⟨⟨clean, pool⟩, taken, promoted⟩ := Option.bind_eq_some_iff.mp promoted
    obtain ⟨sketch, fed, promoted⟩ := Option.bind_eq_some_iff.mp promoted
    obtain ⟨isClean, poolClean⟩ := poolClean_take sound.pool taken
    obtain ⟨valid, observed⟩ := observe_insertAll isClean.1 fed
    refine sound_mergeSketchBuckets ⟨poolClean, ?_⟩ promoted
    have partitions := sound.partitions
    unfold tiers at partitions ⊢
    rw [maps] at partitions
    rw [List.map_append, List.append_assoc]
    refine partitions.replace fun block holds => ?_
    have mapHolds : MapHolds block oldest := holds
    refine SketchHolds.mk mapHolds.spans mapHolds.size valid fun alike => ?_
    rw [observed, isClean.2, zero_add, weigh_perm _ ((tables 0).iterate_perm _),
      mapHolds.frequencies.weighs _ observation.additive alike]

theorem sound_update {stream : List TimedUpdate} {entry : TimedUpdate}
    {tables : ℕ → HashTable HeapItem HeapItem.eqItem}
    (sorted : (stream ++ [entry]).Pairwise fun earlier later => earlier.time ≤ later.time)
    (sound : observation.Sound (lastTime TimedUpdate.time stream - eh.window) stream eh)
    (step : kind.update arith tables entry eh = some eh') :
    observation.Sound (lastTime TimedUpdate.time (stream ++ [entry]) - eh.window)
      (stream ++ [entry]) eh' := by
  have later := Nat.sub_le_sub_right (lastTime_le sorted) eh.window
  have expired := sound_expire sound later (List.pairwise_append.mp sorted).1
  obtain ⟨scan, run, step⟩ := Option.bind_eq_some_iff.mp step
  have scanned := sound_mapTier expired run
  rw [lastTime_append_singleton]
  dsimp only at step
  split at step
  · exact sound_promoteOldestMap scanned step
  · exact Option.some.inj step ▸ scanned

end UnivObservation

/-! ### Runs -/

namespace UnivKind

variable {Sketch : Type} {kind : UnivKind Sketch} {arith : MassArith}

def Configured (k window : ℕ) (eh : EHUnivOptimized Sketch) : Prop := eh.k = k ∧ eh.window = window

theorem configured_mergeSketchBuckets {k window : ℕ} {eh eh' : EHUnivOptimized Sketch} {sumL22 : ℚ}
    (configured : Configured k window eh)
    (merged : kind.mergeSketchBuckets arith sumL22 eh = some eh') : Configured k window eh' := by
  obtain ⟨scan, -, rfl⟩ := Option.map_eq_some_iff.mp merged
  exact configured

theorem configured_update {k window : ℕ} {eh eh' : EHUnivOptimized Sketch} {entry : TimedUpdate}
    {tables : ℕ → HashTable HeapItem HeapItem.eqItem} (configured : Configured k window eh)
    (step : kind.update arith tables entry eh = some eh') : Configured k window eh' := by
  obtain ⟨scan, -, step⟩ := Option.bind_eq_some_iff.mp step
  dsimp only at step
  split at step
  · unfold promoteOldestMap at step
    split at step
    · exact absurd step.symm (Option.some_ne_none _)
    · obtain ⟨taken, -, step⟩ := Option.bind_eq_some_iff.mp step
      obtain ⟨sketch, -, step⟩ := Option.bind_eq_some_iff.mp step
      refine configured_mergeSketchBuckets ?_ step
      exact configured
  · exact Option.some.inj step ▸ configured

theorem configured_of_reaches {k window sketchRow sketchCol layerSize poolCap : ℕ}
    {start eh : EHUnivOptimized Sketch} {stream : List TimedUpdate}
    (created : kind.newHistogram k window sketchRow sketchCol layerSize poolCap = some start)
    (reached : kind.Reaches arith start stream eh) : Configured (max k 1) window eh := by
  induction reached with
  | start =>
    obtain ⟨pool, -, rfl⟩ := Option.map_eq_some_iff.mp created
    exact ⟨rfl, rfl⟩
  | update tables before step hypothesis =>
    exact configured_update hypothesis step

end UnivKind

namespace UnivObservation

variable {Sketch Total : Type} [AddCommMonoid Total] {kind : UnivKind Sketch}
  {arith : MassArith}

theorem sound_of_reaches (observation : UnivObservation kind Total)
    {k window sketchRow sketchCol layerSize poolCap : ℕ}
    {start eh : EHUnivOptimized Sketch} {stream : List TimedUpdate}
    (created : kind.newHistogram k window sketchRow sketchCol layerSize poolCap = some start)
    (reached : kind.Reaches arith start stream eh)
    (sorted : stream.Pairwise fun earlier later => earlier.time ≤ later.time) :
    observation.Sound (lastTime TimedUpdate.time stream - window) stream eh := by
  induction reached with
  | start =>
    obtain ⟨pool, allocated, rfl⟩ := Option.map_eq_some_iff.mp created
    exact ⟨poolClean_new allocated, .empty⟩
  | update tables before step hypothesis =>
    obtain ⟨-, rfl⟩ := UnivKind.configured_of_reaches created before
    exact sound_update sorted (hypothesis (List.pairwise_append.mp sorted).1) step

/-! ### What the buckets stand for -/

end UnivObservation

def UnivMon.totalWeight (xxh : XxHash3) (tables : ℕ → HashTable HeapItem HeapItem.eqItem)
    (heapSize sketchRow sketchCol layerSize : ℕ) :
    UnivObservation (UnivMon.kind xxh tables heapSize sketchRow sketchCol layerSize) ℤ where
  valid := fun _ => True
  observe := fun mon => mon.bucketSize
  weight := fun _ value => value
  additive := fun _ _ _ => rfl
  fresh := by
    intro mon created
    simp only [UnivMon.kind, UnivMon.initUnivmon, LayeredMon.create] at created
    split at created
    · exact ⟨trivial, by rw [← Option.some.inj created]; rfl⟩
    · exact absurd created.symm (Option.some_ne_none _)
  insert := by
    intro mon key value updated _ inserted
    obtain ⟨begun, began, rfl⟩ := Option.map_eq_some_iff.mp inserted
    unfold LayeredMon.beginUpdate at began
    split at began
    · exact absurd began.symm (Option.some_ne_none _)
    · next nonneg =>
      split at began
      · exact absurd began.symm (Option.some_ne_none _)
      · split at began
        · exact absurd began.symm (Option.some_ne_none _)
        · obtain rfl := Option.some.inj began
          refine ⟨trivial, ?_⟩
          show ((mon.bucketSize + value.toNat : ℕ) : ℤ) = mon.bucketSize + value
          rw [Nat.cast_add, Int.toNat_of_nonneg (not_lt.mp nonneg)]
  merge := by
    intro mon other merged _ _ union
    simp only [UnivMon.kind, LayeredMon.merge] at union
    split at union
    · obtain ⟨mode, -, guarded⟩ := Option.bind_eq_some_iff.mp union
      split at guarded
      · exact absurd guarded.symm (Option.some_ne_none _)
      · exact ⟨trivial, by rw [← Option.some.inj guarded]; exact Nat.cast_add _ _⟩
    · exact absurd union.symm (Option.some_ne_none _)
  free := fun _ _ => ⟨trivial, rfl⟩

/-! ### The partition -/

end AsapSketchlib
