/-
This file models a UnivMon-Q sketch: its configuration, the layout of the fields of a key hash,
one physical level for every terminal stratum, the extrema, and a bottom-k sample of occurrences.

Observed values are the bits of an `f64`, keys are the numbers these are encoded as. A binary heap
is the list of its entries, in an order that nothing depends on.
-/

import AsapSketchlib.Hash
import AsapSketchlib.OrderedKeys
import AsapSketchlib.UnivMonQEvictions

namespace AsapSketchlib

namespace UnivMonQ

/-! ### Configurations -/

/-- `UnivMonQConfig`. -/
structure Config where
  levels : ℕ
  width : ℕ
  widthHalvingPeriod : ℕ
  depth : ℕ
  counterBits : ℕ
  candidates : ℕ
  orderedSamples : ℕ
  hashSeed : ℕ
  deriving DecidableEq

def validateConfig (config : Config) : Except String Unit :=
  if ¬(2 ≤ config.levels ∧ config.levels ≤ 63) then .error "levels must be in 2..=63"
  else if config.width = 0 then .error "width must be positive"
  else if config.depth = 0 ∨ config.depth % 2 = 0 then
    .error "depth must be a positive odd number"
  else if ¬(config.counterBits = 32 ∨ config.counterBits = 64) then
    .error "counter_bits must be 32 or 64"
  else if config.candidates = 0 then .error "candidates must be positive"
  else .ok ()

structure HashLayout where
  bucketBits : ℕ
  terminalOffset : ℕ
  terminalBits : ℕ
  deriving DecidableEq

def bitLength (value : ℕ) : ℕ := if value = 0 then 0 else Nat.log2 value + 1

namespace HashLayout

/-- `HashLayout::new`. -/
def new (config : Config) : Except String HashLayout :=
  let bucketBits := bitLength (config.width - 1)
  let terminalOffset := (bucketBits + 1) * config.depth
  let terminalBits := config.levels - 1
  if 64 < config.depth ∨ 128 < terminalOffset + terminalBits then
    .error "hash layout needs more than the available 128 hash bits"
  else .ok ⟨bucketBits, terminalOffset, terminalBits⟩

def terminalLevel (layout : HashLayout) (hash : BitVec 128) : ℕ :=
  let mask := (1#128 <<< layout.terminalBits) - 1#128
  let field := (hash >>> layout.terminalOffset) &&& mask
  Nat.min field.ctz.toNat layout.terminalBits

theorem terminalLevel_le (layout : HashLayout) (hash : BitVec 128) :
    layout.terminalLevel hash ≤ layout.terminalBits := Nat.min_le_right _ _

end HashLayout

def levelWidth (config : Config) (level : ℕ) : ℕ :=
  let shift := if config.widthHalvingPeriod = 0 then 0 else level / config.widthHalvingPeriod
  let recoveryFloor := Nat.min config.candidates config.width
  Nat.max (if shift < 64 then config.width >>> shift else 0) recoveryFloor

/-! ### Occurrences -/

structure OrderedOccurrence where
  priorityHigh : ℕ
  priorityLow : ℕ
  key : ℕ
  deriving DecidableEq

namespace OrderedOccurrence

/-- The fields in the order in which they are compared. -/
def rank (occurrence : OrderedOccurrence) : ℕ ×ₗ ℕ ×ₗ ℕ :=
  toLex (occurrence.priorityHigh, toLex (occurrence.priorityLow, occurrence.key))

/-- The greatest entry of a heap, which `peek` gives. -/
def greatest (first : OrderedOccurrence) (rest : List OrderedOccurrence) : OrderedOccurrence :=
  rest.foldl (fun largest occurrence =>
    if largest.rank < occurrence.rank then occurrence else largest) first

/-- `update_ordered_sample`. -/
def sample (capacity : ℕ) (heap : List OrderedOccurrence) (occurrence : OrderedOccurrence) :
    List OrderedOccurrence :=
  if capacity = 0 then heap
  else if heap.length < capacity then occurrence :: heap
  else
    match heap with
    | [] => heap
    | first :: rest =>
      let largest := greatest first rest
      if occurrence.rank < largest.rank then occurrence :: heap.erase largest else heap

theorem mem_sample {capacity : ℕ} {heap : List OrderedOccurrence}
    {occurrence other : OrderedOccurrence} (member : other ∈ sample capacity heap occurrence) :
    other = occurrence ∨ other ∈ heap := by
  unfold sample at member
  split at member
  · exact .inr member
  · split at member
    · exact List.mem_cons.mp member
    · split at member
      · exact .inr member
      · simp only at member
        split at member
        · exact (List.mem_cons.mp member).imp id List.mem_of_mem_erase
        · exact .inr member

theorem mem_foldl_sample {capacity : ℕ} {heap more : List OrderedOccurrence}
    {other : OrderedOccurrence} (member : other ∈ more.foldl (sample capacity) heap) :
    other ∈ more ∨ other ∈ heap := by
  induction more generalizing heap with
  | nil => exact .inr member
  | cons first rest hypothesis =>
    rcases hypothesis member with later | sampled
    · exact .inl (List.mem_cons_of_mem first later)
    · exact (mem_sample sampled).imp (fun here : other = first => here ▸ List.mem_cons_self) id

end OrderedOccurrence

end UnivMonQ

/-! ### Sketches -/

structure UnivMonQ where
  config : UnivMonQ.Config
  hashLayout : UnivMonQ.HashLayout
  levels : List UnivMonQ.Level
  count : ℕ
  minKey : Option ℕ
  maxKey : Option ℕ
  sourceId : ℕ
  nextSequence : ℕ
  orderedHeap : List UnivMonQ.OrderedOccurrence

namespace UnivMonQ

/-- `with_hasher_and_source_id`. -/
def new (config : Config) (sourceId : ℕ) : Except String UnivMonQ := do
  validateConfig config
  let hashLayout ← HashLayout.new config
  return {
    config
    hashLayout
    levels := (List.range config.levels).map fun level =>
      .new (levelWidth config level) config.depth config.counterBits config.candidates
    count := 0
    minKey := none
    maxKey := none
    sourceId
    nextSequence := 0
    orderedHeap := [] }

def occurrenceHashSeedDomain : ℕ := 6148914691236517205

section Hashed

variable (hasher : SketchHasher)

def hashKey (config : Config) (key : ℕ) : BitVec 128 :=
  hasher.hash128Seeded config.hashSeed (.u64 (BitVec.ofNat 64 key))

def occurrence (sketch : UnivMonQ) (key sequence : ℕ) : OrderedOccurrence :=
  let identity := (BitVec.ofNat 128 sketch.sourceId <<< 64) ||| BitVec.ofNat 128 sequence
  let priority := hasher.hash128Seeded
    (sketch.config.hashSeed ^^^ occurrenceHashSeedDomain) (.u128 identity)
  ⟨(priority >>> 64).toNat, (priority.setWidth 64).toNat, key⟩

/-- `update_value`. A source sequence that is exhausted is a panic. -/
def updateValue (sketch : UnivMonQ) (value : BitVec 64) : Option UnivMonQ :=
  let key := (floatToOrdered value).toNat
  let hash := hashKey hasher sketch.config key
  let terminal := sketch.hashLayout.terminalLevel hash
  if u64Max ≤ sketch.nextSequence then none
  else do
    let level ← sketch.levels[terminal]?
    let updated ← level.update key hash sketch.hashLayout.bucketBits
    some
      { sketch with
        nextSequence := sketch.nextSequence + 1
        count := saturatingAdd sketch.count 1
        minKey := some (sketch.minKey.elim key (Nat.min · key))
        maxKey := some (sketch.maxKey.elim key (Nat.max · key))
        levels := sketch.levels.set terminal updated
        orderedHeap :=
          if 0 < sketch.config.orderedSamples then
            OrderedOccurrence.sample sketch.config.orderedSamples sketch.orderedHeap
              (sketch.occurrence hasher key sketch.nextSequence)
          else sketch.orderedHeap }

def mergeLevels (config : Config) (bucketBits : ℕ) :
    List Level → List Level → Option (List Level)
  | left :: lefts, right :: rights => do
    let merged ← Level.merge (hashKey hasher config) bucketBits left right
    let rest ← mergeLevels config bucketBits lefts rights
    some (merged :: rest)
  | lefts, _ => some lefts

def eitherKey (choose : ℕ → ℕ → ℕ) : Option ℕ → Option ℕ → Option ℕ
  | some left, some right => some (choose left right)
  | left, right => left.or right

/-- `merge`. A sketch that returns an error is left as it was. -/
def merge (sketch other : UnivMonQ) : Option (Except String UnivMonQ) :=
  if sketch.config ≠ other.config then
    some (.error "cannot merge UnivMon-Q sketches with different configurations")
  else do
    let levels ← mergeLevels hasher sketch.config sketch.hashLayout.bucketBits sketch.levels
      other.levels
    some (.ok
      { sketch with
        count := saturatingAdd sketch.count other.count
        minKey := eitherKey Nat.min sketch.minKey other.minKey
        maxKey := eitherKey Nat.max sketch.maxKey other.maxKey
        levels
        orderedHeap := other.orderedHeap.foldl
          (OrderedOccurrence.sample sketch.config.orderedSamples) sketch.orderedHeap })

def clear (sketch : UnivMonQ) : UnivMonQ :=
  { sketch with
    count := 0
    minKey := none
    maxKey := none
    orderedHeap := []
    levels := sketch.levels.map Level.clear }

/-- The sketches that are reached from new ones. -/
inductive Reached : UnivMonQ → Prop
  | new {sketch : UnivMonQ} (config : Config) (sourceId : ℕ)
      (made : UnivMonQ.new config sourceId = .ok sketch) : Reached sketch
  | update {sketch next : UnivMonQ} (before : Reached sketch) (value : BitVec 64)
      (ran : sketch.updateValue hasher value = some next) : Reached next
  | merge {sketch other merged : UnivMonQ} (left : Reached sketch) (right : Reached other)
      (ran : sketch.merge hasher other = some (.ok merged)) : Reached merged
  | clear {sketch : UnivMonQ} (before : Reached sketch) : Reached sketch.clear

/-! ### What holds in every run -/

/-- Candidates are held at the level of their hash, each once in the heap; keys are the encoding of
a value; and a sketch without observations holds nothing. -/
structure WellFormed (sketch : UnivMonQ) : Prop where
  layout : HashLayout.new sketch.config = .ok sketch.hashLayout
  oneEach : ∀ level ∈ sketch.levels, level.OneEach
  placed : ∀ terminal level, sketch.levels[terminal]? = some level →
    ∀ key ∈ level.candidateScores, key < 2 ^ 64 ∧
      sketch.hashLayout.terminalLevel (hashKey hasher sketch.config key) = terminal
  sampled : ∀ occurrence ∈ sketch.orderedHeap, occurrence.key < 2 ^ 64
  minKey : ∀ key ∈ sketch.minKey, key < 2 ^ 64
  maxKey : ∀ key ∈ sketch.maxKey, key < 2 ^ 64
  extrema : sketch.count ≠ 0 → sketch.minKey.isSome ∧ sketch.maxKey.isSome
  empty : sketch.count = 0 → ∀ level ∈ sketch.levels, level.candidateScores.keys = []

end Hashed

namespace Level

theorem mem_outcome {level next : Level} {key score other : ℕ}
    (outcome : Outcome level key score next) (member : other ∈ next.candidateScores) :
    other = key ∨ other ∈ level.candidateScores := by
  cases outcome with
  | resident held => exact (AList.mem_insert _).mp member
  | seated absent room => exact (AList.mem_insert _).mp member
  | @contested absent full found rest searched =>
    cases found with
    | none => exact .inr member
    | some top =>
      unfold contest at member
      simp only at member
      split at member
      · refine ((AList.mem_insert _).mp member).imp id fun held => ?_
        exact (AList.mem_erase.mp held).2
      · exact .inr member

theorem mem_merge {hash : ℕ → BitVec 128} {bucketBits : ℕ} {level other merged : Level}
    (ran : merge hash bucketBits level other = some merged) {key : ℕ}
    (member : key ∈ merged.candidateScores) :
    key ∈ level.candidateScores ∨ key ∈ other.candidateScores := by
  simp only [merge, Option.bind_eq_bind, Option.bind_eq_some_iff, Option.some.injEq] at ran
  obtain ⟨sketch, added, rfl⟩ := ran
  obtain ⟨score, stored⟩ := Option.isSome_iff_exists.mp (AList.lookup_isSome.mpr member)
  rcases ((rebuild_spec _ (nodup_first (List.nodup_dedup _) _ _)).lookup key score).mp stored with
    retained | before
  · have scored := List.mem_insertionSort _ |>.mp (List.mem_of_mem_take retained)
    obtain ⟨held, inCombined, same⟩ := List.mem_map.mp scored
    obtain rfl : held = key := congrArg Prod.fst same
    exact (List.mem_append.mp (List.mem_dedup.mp inCombined)).imp AList.mem_keys.mpr
      AList.mem_keys.mpr
  · cases before

end Level

section Runs

variable {hasher : SketchHasher} {sketch other merged : UnivMonQ}

theorem mergeLevels_spec {config : Config} {bucketBits : ℕ} {lefts rights levels : List Level}
    (ran : mergeLevels hasher config bucketBits lefts rights = some levels)
    {terminal : ℕ} {merged : Level} (here : levels[terminal]? = some merged) :
    lefts[terminal]? = some merged ∨
      ∃ left right, lefts[terminal]? = some left ∧ rights[terminal]? = some right ∧
        Level.merge (hashKey hasher config) bucketBits left right = some merged := by
  induction lefts generalizing rights levels terminal with
  | nil =>
    obtain rfl := Option.some.inj ran
    cases here
  | cons left lefts hypothesis =>
    cases rights with
    | nil =>
      obtain rfl := Option.some.inj ran
      exact .inl here
    | cons right rights =>
      simp only [mergeLevels, Option.bind_eq_bind, Option.bind_eq_some_iff] at ran
      obtain ⟨first, firstRan, rest, restRan, made⟩ := ran
      obtain rfl := Option.some.inj made
      cases terminal with
      | zero => exact .inr ⟨left, right, rfl, rfl, firstRan.trans here⟩
      | succ terminal => exact hypothesis restRan here

theorem new_eq {config : Config} {sourceId : ℕ} (made : new config sourceId = .ok sketch) :
    ∃ hashLayout, validateConfig config = .ok () ∧ HashLayout.new config = .ok hashLayout ∧
      sketch = ⟨config, hashLayout, (List.range config.levels).map fun level =>
        Level.new (levelWidth config level) config.depth config.counterBits config.candidates,
        0, none, none, sourceId, 0, []⟩ := by
  unfold new at made
  cases valid : validateConfig config with
  | error message =>
    rw [valid] at made
    cases made
  | ok accepted =>
    cases layout : HashLayout.new config with
    | error message =>
      rw [valid, layout] at made
      cases made
    | ok hashLayout =>
      rw [valid, layout] at made
      exact ⟨hashLayout, rfl, rfl, (Except.ok.inj made).symm⟩

theorem merge_eq (ran : sketch.merge hasher other = some (.ok merged)) :
    sketch.config = other.config ∧ ∃ levels,
      mergeLevels hasher sketch.config sketch.hashLayout.bucketBits sketch.levels other.levels =
        some levels ∧
      merged = { sketch with
        count := saturatingAdd sketch.count other.count
        minKey := eitherKey Nat.min sketch.minKey other.minKey
        maxKey := eitherKey Nat.max sketch.maxKey other.maxKey
        levels
        orderedHeap := other.orderedHeap.foldl
          (OrderedOccurrence.sample sketch.config.orderedSamples) sketch.orderedHeap } := by
  unfold merge at ran
  split at ran
  · cases ran
  next config =>
    simp only [Option.bind_eq_bind, Option.bind_eq_some_iff] at ran
    obtain ⟨levels, levelsRan, made⟩ := ran
    exact ⟨not_not.mp config, levels, levelsRan, (Except.ok.inj (Option.some.inj made)).symm⟩

theorem eitherKey_cases {choose : ℕ → ℕ → ℕ} {left right : Option ℕ} {key : ℕ}
    (chooses : ∀ left right, choose left right = left ∨ choose left right = right)
    (held : key ∈ eitherKey choose left right) : key ∈ left ∨ key ∈ right := by
  cases left with
  | none => exact .inr held
  | some left =>
    cases right with
    | none => exact .inl held
    | some right =>
      obtain rfl := Option.some.inj held
      exact (chooses left right).imp (congrArg some ·.symm) (congrArg some ·.symm)

theorem isSome_eitherKey {choose : ℕ → ℕ → ℕ} {left right : Option ℕ}
    (either : left.isSome ∨ right.isSome) : (eitherKey choose left right).isSome := by
  cases left with
  | none => exact either.resolve_left Bool.false_ne_true
  | some left => cases right <;> rfl

theorem wellFormed_of_empty (layout : HashLayout.new sketch.config = .ok sketch.hashLayout)
    (levels : ∀ level ∈ sketch.levels, level.candidateScores = ∅ ∧ level.candidateHeap = [])
    (count : sketch.count = 0) (minKey : sketch.minKey = none) (maxKey : sketch.maxKey = none)
    (heap : sketch.orderedHeap = []) : WellFormed hasher sketch where
  layout := layout
  oneEach level member := by
    unfold Level.OneEach
    rw [(levels level member).1, (levels level member).2]
    exact List.Perm.refl _
  placed terminal level here key held := by
    rw [(levels level (List.mem_of_getElem? here)).1] at held
    exact absurd held (AList.notMem_empty key)
  sampled occurrence member := by
    rw [heap] at member
    cases member
  minKey key held := by
    rw [minKey] at held
    cases held
  maxKey key held := by
    rw [maxKey] at held
    cases held
  extrema some := absurd count some
  empty _ level member := by
    rw [(levels level member).1]
    rfl

theorem wellFormed_new {config : Config} {sourceId : ℕ} (made : new config sourceId = .ok sketch) :
    WellFormed hasher sketch := by
  obtain ⟨hashLayout, -, layout, rfl⟩ := new_eq made
  refine wellFormed_of_empty layout (fun level member => ?_) rfl rfl rfl rfl
  obtain ⟨terminal, -, rfl⟩ := List.mem_map.mp member
  exact ⟨rfl, rfl⟩

theorem wellFormed_update {value : BitVec 64} {next : UnivMonQ} (formed : WellFormed hasher sketch)
    (ran : sketch.updateValue hasher value = some next) : WellFormed hasher next := by
  unfold updateValue at ran
  simp only at ran
  split at ran
  · cases ran
  · simp only [Option.bind_eq_bind, Option.bind_eq_some_iff] at ran
    obtain ⟨level, here, updated, levelRan, made⟩ := ran
    obtain rfl := Option.some.inj made
    have keyBound := (floatToOrdered value).isLt
    generalize (floatToOrdered value).toNat = key at *
    have one := formed.oneEach level (List.mem_of_getElem? here)
    obtain ⟨same, went, outcome⟩ := Level.update_spec one key (hashKey hasher sketch.config key)
      sketch.hashLayout.bucketBits
    obtain rfl : same = updated := Option.some.inj (went.symm.trans levelRan)
    have counted : saturatingAdd sketch.count 1 ≠ 0 := by
      unfold saturatingAdd u64Max
      omega
    refine ⟨formed.layout, fun level member => ?_, fun terminal level found other held => ?_,
      fun occurrence member => ?_, fun other held => ?_, fun other held => ?_,
      fun _ => ⟨rfl, rfl⟩, fun none => absurd none counted⟩
    · rcases List.mem_or_eq_of_mem_set member with before | rfl
      · exact formed.oneEach level before
      · exact Level.oneEach_outcome outcome one
    · rw [List.getElem?_set] at found
      split at found
      next same =>
        split at found
        · obtain rfl := Option.some.inj found
          rcases Level.mem_outcome outcome held with rfl | before
          · exact ⟨keyBound, same⟩
          · exact same ▸ formed.placed _ _ here other before
        · cases found
      next => exact formed.placed terminal level found other held
    · simp only at member
      split at member
      · rcases OrderedOccurrence.mem_sample member with rfl | before
        · exact keyBound
        · exact formed.sampled occurrence before
      · exact formed.sampled occurrence member
    · obtain rfl := Option.some.inj held
      cases least : sketch.minKey with
      | none => exact keyBound
      | some minKey => exact (Nat.min_le_left _ _).trans_lt (formed.minKey minKey least)
    · obtain rfl := Option.some.inj held
      cases most : sketch.maxKey with
      | none => exact keyBound
      | some maxKey => exact Nat.max_lt.mpr ⟨formed.maxKey maxKey most, keyBound⟩

theorem wellFormed_merge (formed : WellFormed hasher sketch) (otherFormed : WellFormed hasher other)
    (ran : sketch.merge hasher other = some (.ok merged)) : WellFormed hasher merged := by
  obtain ⟨config, levels, levelsRan, rfl⟩ := merge_eq ran
  have hashLayout : sketch.hashLayout = other.hashLayout :=
    Except.ok.inj (formed.layout.symm.trans ((congrArg HashLayout.new config).trans
      otherFormed.layout))
  refine ⟨formed.layout, fun level member => ?_, fun terminal level found key held => ?_,
    fun occurrence member => ?_, fun key held => ?_, fun key held => ?_, fun some => ?_,
    fun none level member => ?_⟩
  · obtain ⟨terminal, found⟩ := List.mem_iff_getElem?.mp member
    rcases mergeLevels_spec levelsRan found with before | ⟨left, right, -, -, levelRan⟩
    · exact formed.oneEach level (List.mem_of_getElem? before)
    · exact (Level.merge_spec levelRan).1
  · rcases mergeLevels_spec levelsRan found with before | ⟨left, right, atLeft, atRight, levelRan⟩
    · exact formed.placed terminal level before key held
    · rcases Level.mem_merge levelRan held with ours | theirs
      · exact formed.placed terminal left atLeft key ours
      · have placed := otherFormed.placed terminal right atRight key theirs
        rw [← hashLayout, ← config] at placed
        exact placed
  · rcases OrderedOccurrence.mem_foldl_sample member with theirs | ours
    · exact otherFormed.sampled occurrence theirs
    · exact formed.sampled occurrence ours
  · rcases eitherKey_cases min_choice held with ours | theirs
    · exact formed.minKey key ours
    · exact otherFormed.minKey key theirs
  · rcases eitherKey_cases max_choice held with ours | theirs
    · exact formed.maxKey key ours
    · exact otherFormed.maxKey key theirs
  · have counted : sketch.count ≠ 0 ∨ other.count ≠ 0 := by
      by_contra neither
      obtain ⟨ours, theirs⟩ := not_or.mp neither
      refine some ?_
      show saturatingAdd sketch.count other.count = 0
      rw [not_not.mp ours, not_not.mp theirs]
      rfl
    rcases counted with ours | theirs
    · exact ⟨isSome_eitherKey (.inl (formed.extrema ours).1),
        isSome_eitherKey (.inl (formed.extrema ours).2)⟩
    · exact ⟨isSome_eitherKey (.inr (otherFormed.extrema theirs).1),
        isSome_eitherKey (.inr (otherFormed.extrema theirs).2)⟩
  · have zero : saturatingAdd sketch.count other.count = 0 := none
    have both : sketch.count = 0 ∧ other.count = 0 := by
      unfold saturatingAdd u64Max at zero
      omega
    obtain ⟨terminal, found⟩ := List.mem_iff_getElem?.mp member
    rcases mergeLevels_spec levelsRan found with before | ⟨left, right, atLeft, atRight, levelRan⟩
    · exact formed.empty both.1 level (List.mem_of_getElem? before)
    · have ours := formed.empty both.1 left (List.mem_of_getElem? atLeft)
      have theirs := otherFormed.empty both.2 right (List.mem_of_getElem? atRight)
      refine List.eq_nil_iff_forall_not_mem.mpr fun key held => ?_
      rcases Level.mem_merge levelRan (AList.mem_keys.mpr held) with inOurs | inTheirs
      · exact List.not_mem_nil (ours ▸ AList.mem_keys.mp inOurs)
      · exact List.not_mem_nil (theirs ▸ AList.mem_keys.mp inTheirs)

theorem wellFormed_clear (formed : WellFormed hasher sketch) :
    WellFormed hasher sketch.clear := by
  refine wellFormed_of_empty formed.layout (fun level member => ?_) rfl rfl rfl rfl
  obtain ⟨before, -, rfl⟩ := List.mem_map.mp member
  exact ⟨rfl, rfl⟩

theorem Reached.wellFormed (reached : Reached hasher sketch) : WellFormed hasher sketch := by
  induction reached with
  | new config sourceId made => exact wellFormed_new made
  | update before value ran formed => exact wellFormed_update formed ran
  | merge left right ran leftFormed rightFormed =>
    exact wellFormed_merge leftFormed rightFormed ran
  | clear before formed => exact wellFormed_clear formed

end Runs

end UnivMonQ

end AsapSketchlib
