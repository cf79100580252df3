/-
This file relates the prepared queries of a UnivMon-Q sketch to the direct ones: every answer is the
same, and it is the same for every order of the entries of the heaps and of the hash maps.
-/

import AsapSketchlib.NitroRows
import AsapSketchlib.UnivMonQQueries

namespace AsapSketchlib

open UnivMonQ

namespace UnivMonQ

/-! ### Sketches of the same contents -/

/-- Two sketches with the same contents, whatever the order in their heaps and hash maps. -/
structure SameContents (left right : UnivMonQ) : Prop where
  config : left.config = right.config
  hashLayout : left.hashLayout = right.hashLayout
  levels : List.Forall₂ Level.Alike left.levels right.levels
  count : left.count = right.count
  minKey : left.minKey = right.minKey
  maxKey : left.maxKey = right.maxKey
  orderedHeap : left.orderedHeap.Perm right.orderedHeap

theorem Level.Alike.keys {left right : Level} (alike : left.Alike right) :
    left.candidateScores.keys.Perm right.candidateScores.keys := by
  refine (List.perm_ext_iff_of_nodup left.candidateScores.keys_nodup
    right.candidateScores.keys_nodup).mpr fun key => ?_
  rw [← AList.mem_keys, ← AList.mem_keys]
  exact alike.mem_iff key

/-! ### Sorted candidates -/

theorem insertionSort_congr {Element : Type} {order : Element → Element → Prop}
    [DecidableRel order] [Std.Total order] [IsTrans Element order] {left right : List Element}
    (perm : left.Perm right)
    (same : ∀ first ∈ left, ∀ second ∈ left, order first second → order second first →
      first = second) :
    left.insertionSort order = right.insertionSort order := by
  have sorted : (left.insertionSort order).Perm (right.insertionSort order) :=
    (List.perm_insertionSort order left).trans
      (perm.trans (List.perm_insertionSort order right).symm)
  refine sorted.eq_of_pairwise (fun first second member other => ?_)
    (List.pairwise_insertionSort order left) (List.pairwise_insertionSort order right)
  exact same first ((List.mem_insertionSort order).mp member) second
    (perm.mem_iff.mpr ((List.mem_insertionSort order).mp other))

namespace RecoveredCandidate

def place (candidate : RecoveredCandidate) : (ℕ ×ₗ ℚ)ᵒᵈ ×ₗ ℕ :=
  toLex (OrderDual.toDual candidate.frequency.totalRank, candidate.key)

theorem precedes_iff {left right : RecoveredCandidate} :
    left.Precedes right ↔ left.place ≤ right.place := by
  rw [place, place, Prod.Lex.toLex_le_toLex]
  show _ ↔ right.frequency.totalRank < left.frequency.totalRank ∨
    left.frequency.totalRank = right.frequency.totalRank ∧ left.key ≤ right.key
  rw [eq_comm (a := left.frequency.totalRank)]
  rfl

instance : Std.Total Precedes where
  total left right := by
    rw [precedes_iff, precedes_iff]
    exact le_total left.place right.place

instance : IsTrans RecoveredCandidate Precedes where
  trans first second third before after := by
    rw [precedes_iff] at before after ⊢
    exact before.trans after

theorem key_eq_of_precedes {left right : RecoveredCandidate} (before : left.Precedes right)
    (after : right.Precedes left) : left.key = right.key := by
  have same := le_antisymm (precedes_iff.mp before) (precedes_iff.mp after)
  exact congrArg (fun place => (ofLex place).2) same

end RecoveredCandidate

def Determined (recovered : ℕ → RecoveredCandidate) (candidates : List RecoveredCandidate) : Prop :=
  ∀ candidate ∈ candidates, candidate = recovered candidate.key

theorem Determined.sorted (recovered : ℕ → RecoveredCandidate)
    {left right : List RecoveredCandidate} (determined : Determined recovered left)
    (perm : left.Perm right) :
    left.insertionSort RecoveredCandidate.Precedes =
      right.insertionSort RecoveredCandidate.Precedes := by
  refine insertionSort_congr perm fun first member second other before after => ?_
  rw [determined first member, determined second other,
    RecoveredCandidate.key_eq_of_precedes before after]

/-! ### Suffixes -/

/-- Two rows of terminal levels with the same candidates in any order. -/
structure SameRow (left right : F64 × List RecoveredCandidate × Bool) : Prop where
  physicalF2 : left.1 = right.1
  recovered : left.2.1.Perm right.2.1
  everEvicted : left.2.2 = right.2.2

theorem determined_suffixes {config : Config} {recovered : ℕ → RecoveredCandidate}
    {rows : List (F64 × List RecoveredCandidate × Bool)}
    (determined : ∀ row ∈ rows, Determined recovered row.2.1) :
    Determined recovered ((suffixes config rows).headD Suffix.empty).candidates := by
  induction rows with
  | nil =>
    intro candidate member
    cases member
  | cons row rest hypothesis =>
    intro candidate member
    have sorted := (List.mem_insertionSort _).mp (List.mem_of_mem_take member)
    rcases List.mem_append.mp sorted with later | here
    · exact hypothesis (fun row member => determined row (List.mem_cons_of_mem _ member))
        candidate later
    · exact determined row List.mem_cons_self candidate here

theorem suffixes_congr {config : Config} (recovered : ℕ → RecoveredCandidate)
    {left right : List (F64 × List RecoveredCandidate × Bool)}
    (same : List.Forall₂ SameRow left right)
    (determined : ∀ row ∈ left, Determined recovered row.2.1) :
    suffixes config left = suffixes config right := by
  induction same with
  | nil => rfl
  | @cons row other rest others sameRow sameRest hypothesis =>
    have restDetermined : ∀ row ∈ rest, Determined recovered row.2.1 := fun row member =>
      determined row (List.mem_cons_of_mem _ member)
    rw [suffixes, suffixes, ← hypothesis restDetermined]
    refine congrArg (· :: _) ?_
    unfold Suffix.extend
    rw [sameRow.physicalF2, sameRow.everEvicted, sameRow.recovered.length_eq]
    refine congrArg (fun sorted => Suffix.mk (List.take config.candidates sorted) _ _ _) ?_
    refine Determined.sorted recovered (fun candidate member => ?_)
      (sameRow.recovered.append_left _)
    rcases List.mem_append.mp member with later | here
    · exact determined_suffixes restDetermined candidate later
    · exact determined row List.mem_cons_self candidate here

/-! ### What is recovered -/

section Contents

variable {hasher : SketchHasher} {floats : ElementaryFunctions} {sketch other : UnivMonQ}

def candidateOf (hasher : SketchHasher) (sketch : UnivMonQ) (key : ℕ) : RecoveredCandidate :=
  ⟨key, F64.ofInt (sketch.frequencyKey hasher key),
    sketch.hashLayout.terminalLevel (hashKey hasher sketch.config key)⟩

theorem WellFormed.determined (formed : WellFormed hasher sketch) :
    ∀ recovered ∈ (sketch.recoverCandidates hasher).byTerminal,
      Determined (sketch.candidateOf hasher) recovered := by
  intro recovered member candidate held
  obtain ⟨terminal, inside, rfl⟩ := List.mem_mapIdx.mp member
  obtain ⟨key, keyHeld, found⟩ := List.mem_filterMap.mp held
  simp only at found
  split at found
  · obtain rfl := Option.some.inj found
    have here : sketch.levels[terminal]? = some sketch.levels[terminal] :=
      List.getElem?_eq_getElem inside
    have placed := (formed.placed terminal _ here key (AList.mem_keys.mpr keyHeld)).2
    unfold candidateOf frequencyKey
    simp only
    rw [placed, here]
    rfl
  · cases found

theorem SameContents.recoverLevel (same : sketch.SameContents other) (terminal : ℕ)
    {left right : Level} (alike : left.Alike right) :
    (sketch.recoverLevel hasher terminal left).Perm (other.recoverLevel hasher terminal right) := by
  unfold UnivMonQ.recoverLevel
  rw [same.config, same.hashLayout, alike.sketch]
  exact alike.keys.filterMap _

theorem forall₂_mapIdx {First Second Left Right : Type} {related : First → Second → Prop}
    {results : Left → Right → Prop} {left : ℕ → First → Left} {right : ℕ → Second → Right}
    {firsts : List First} {seconds : List Second}
    (relatedResults : ∀ index first second, related first second →
      results (left index first) (right index second))
    (same : List.Forall₂ related firsts seconds) :
    List.Forall₂ results (firsts.mapIdx left) (seconds.mapIdx right) := by
  induction same generalizing left right with
  | nil => exact List.Forall₂.nil
  | cons relatedHeads relatedTails hypothesis =>
    rw [List.mapIdx_cons, List.mapIdx_cons]
    exact List.Forall₂.cons (relatedResults 0 _ _ relatedHeads)
      (hypothesis fun index => relatedResults (index + 1))

theorem map_congr_related {First Second Result : Type} {related : First → Second → Prop}
    {left : First → Result} {right : Second → Result} {firsts : List First} {seconds : List Second}
    (equal : ∀ first second, related first second → left first = right second)
    (same : List.Forall₂ related firsts seconds) : firsts.map left = seconds.map right := by
  induction same with
  | nil => rfl
  | cons relatedHeads relatedTails hypothesis =>
    rw [List.map_cons, List.map_cons, equal _ _ relatedHeads, hypothesis]

theorem sameRow_zip (physicalF2 : List F64) (everEvicted : List Bool)
    {left right : List (List RecoveredCandidate)} (same : List.Forall₂ List.Perm left right) :
    List.Forall₂ SameRow (physicalF2.zip (left.zip everEvicted))
      (physicalF2.zip (right.zip everEvicted)) := by
  induction same generalizing physicalF2 everEvicted with
  | nil =>
    rw [List.zip_nil_left, List.zip_nil_right]
    exact List.Forall₂.nil
  | cons perm rest hypothesis =>
    cases physicalF2 with
    | nil => exact List.Forall₂.nil
    | cons f2 later =>
      cases everEvicted with
      | nil => exact List.Forall₂.nil
      | cons evicted others =>
        exact List.Forall₂.cons ⟨rfl, perm, rfl⟩ (hypothesis later others)

section

variable (same : sketch.SameContents other)

include same

theorem SameContents.byTerminal :
    List.Forall₂ List.Perm (sketch.recoverCandidates hasher).byTerminal
      (other.recoverCandidates hasher).byTerminal :=
  forall₂_mapIdx (fun terminal _ _ alike => same.recoverLevel terminal alike) same.levels

theorem SameContents.physicalF2 :
    (sketch.recoverCandidates hasher).physicalF2 = (other.recoverCandidates hasher).physicalF2 :=
  map_congr_related (fun _ _ alike => congrArg PackedCountSketch.estimatedF2 alike.sketch)
    same.levels

theorem SameContents.topCandidatesFrom (formed : WellFormed hasher sketch) :
    sketch.topCandidatesFrom (sketch.recoverCandidates hasher) =
      other.topCandidatesFrom (other.recoverCandidates hasher) := by
  unfold UnivMonQ.topCandidatesFrom
  rw [same.config]
  refine congrArg (List.take _) (Determined.sorted (sketch.candidateOf hasher)
    (fun candidate member => ?_) (List.Perm.flatten_congr same.byTerminal))
  obtain ⟨recovered, atTerminal, held⟩ := List.mem_flatten.mp member
  exact formed.determined recovered atTerminal candidate held

theorem SameContents.logicalHeavySetsFrom (formed : WellFormed hasher sketch) :
    sketch.logicalHeavySetsFrom floats (sketch.recoverCandidates hasher) =
      other.logicalHeavySetsFrom floats (other.recoverCandidates hasher) := by
  unfold UnivMonQ.logicalHeavySetsFrom
  have everEvicted : sketch.levels.map (·.everEvicted) = other.levels.map (·.everEvicted) :=
    map_congr_related (fun _ _ alike => alike.everEvicted) same.levels
  simp only
  rw [same.config, ← same.physicalF2, ← everEvicted]
  refine congrArg (List.map _) (suffixes_congr (sketch.candidateOf hasher)
    (sameRow_zip _ _ same.byTerminal) fun row member => ?_)
  exact formed.determined _ (List.of_mem_zip (List.of_mem_zip member).2).1

theorem SameContents.candidateRecoveryComplete :
    sketch.candidateRecoveryComplete = other.candidateRecoveryComplete := by
  unfold UnivMonQ.candidateRecoveryComplete
  have everEvicted : sketch.levels.map (!·.everEvicted) = other.levels.map (!·.everEvicted) :=
    map_congr_related (fun _ _ alike => congrArg not alike.everEvicted) same.levels
  have lengths : (sketch.levels.map fun level => level.candidateScores.entries.length) =
      other.levels.map fun level => level.candidateScores.entries.length :=
    map_congr_related (fun _ _ alike => alike.length_eq) same.levels
  have all : (sketch.levels.all fun level => !level.everEvicted) =
      other.levels.all fun level => !level.everEvicted := by
    have mapped := congrArg (List.all · id) everEvicted
    simpa only [List.all_map, Function.id_comp] using mapped
  rw [lengths, all, same.config]

theorem SameContents.frequencyKey : sketch.frequencyKey hasher = other.frequencyKey hasher := by
  funext key
  unfold UnivMonQ.frequencyKey
  have estimates : (sketch.levels.map fun level => level.sketch) =
      other.levels.map fun level => level.sketch :=
    map_congr_related (fun _ _ alike => alike.sketch) same.levels
  simp only
  rw [same.config, same.hashLayout]
  have here := congrArg (·[other.hashLayout.terminalLevel (hashKey hasher other.config key)]?)
    estimates
  simp only [List.getElem?_map] at here
  have elims := congrArg (fun found => Option.elim found 0 fun counters =>
    counters.estimate (hashKey hasher other.config key) other.hashLayout.bucketBits) here
  rw [Option.elim_map, Option.elim_map] at elims
  exact elims

theorem SameContents.keys : (sketch.orderedHeap.map (·.key)).Perm (other.orderedHeap.map (·.key)) :=
  same.orderedHeap.map _

theorem SameContents.entropyFromOccurrences :
    sketch.entropyFromOccurrences hasher floats = other.entropyFromOccurrences hasher floats := by
  funext assistedHeavy
  unfold UnivMonQ.entropyFromOccurrences
  have none : sketch.orderedHeap = [] ↔ other.orderedHeap = [] :=
    ⟨fun empty => (empty ▸ same.orderedHeap).nil_eq.symm,
      fun empty => (empty ▸ same.orderedHeap).eq_nil⟩
  simp only
  rw [same.count, same.frequencyKey, SortedMap.foldl_alter_perm (same.keys.filter _)]
  simp only [none]

theorem SameContents.cdfKeysAndCompositionFrom :
    sketch.cdfKeysAndCompositionFrom = other.cdfKeysAndCompositionFrom := by
  funext globalHeavy
  unfold UnivMonQ.cdfKeysAndCompositionFrom
  simp only
  rw [same.count, same.config, same.minKey, same.maxKey]
  generalize scaledTo (F64.ofInt other.count) (SortedMap.ofList globalHeavy) = scaled
  have keys := same.keys
  have outside := keys.filter fun key => !scaled.containsKey key
  rw [outside.isEmpty_eq]
  split
  · rfl
  by_cases sampleOnly :
      ((other.orderedHeap.map (·.key)).filter fun key => !scaled.containsKey key).isEmpty = true ∧
        F64.zero.Less (((F64.ofInt other.count).sub (F64.sum scaled.values)).max F64.zero)
  · simp only [decide_eq_true sampleOnly, if_true]
    rw [keys.isEmpty_eq, keys.length_eq, SortedMap.foldl_alter_perm keys]
  · simp only [decide_eq_false sampleOnly, Bool.false_eq_true, if_false]
    rw [outside.isEmpty_eq, outside.length_eq, SortedMap.foldl_alter_perm outside]

end

/-! ### Keys of the CDF -/

def Encoded (keys : List ℕ) : Prop := ∀ key ∈ keys, key < 2 ^ 64

theorem encoded_alter {Value : Type} {map : SortedMap ℕ Value}
    (encoded : Encoded (map.entries.map Prod.fst)) {key : ℕ} (inside : key < 2 ^ 64)
    (change : Option Value → Value) : Encoded ((map.alter key change).entries.map Prod.fst) := by
  intro other member
  rcases SortedMap.mem_map_alterEntries member with rfl | before
  · exact inside
  · exact encoded other before

theorem encoded_foldl_alter {Value : Type} {keys : List ℕ} (inside : Encoded keys)
    {map : SortedMap ℕ Value} (encoded : Encoded (map.entries.map Prod.fst))
    (change : Option Value → Value) :
    Encoded ((keys.foldl (fun map key => map.alter key change) map).entries.map Prod.fst) := by
  induction keys generalizing map with
  | nil => exact encoded
  | cons key rest hypothesis =>
    exact hypothesis (fun other member => inside other (List.mem_cons_of_mem _ member))
      (encoded_alter encoded (inside key List.mem_cons_self) change)

theorem encoded_ofList {Value : Type} {entries : List (ℕ × Value)}
    (inside : Encoded (entries.map Prod.fst)) :
    Encoded ((SortedMap.ofList entries).entries.map Prod.fst) := by
  suffices encoded : ∀ map : SortedMap ℕ Value, Encoded (map.entries.map Prod.fst) →
      Encoded ((entries.foldl (fun map entry => map.insert entry.1 entry.2) map).entries.map
        Prod.fst) from
    encoded SortedMap.empty fun key member => absurd member List.not_mem_nil
  induction entries with
  | nil => exact fun map encoded => encoded
  | cons entry rest hypothesis =>
    intro map encoded
    exact hypothesis (fun key member => inside key (List.mem_cons_of_mem _ member)) _
      (encoded_alter encoded (inside entry.1 List.mem_cons_self) _)

theorem encoded_elim {Value : Type} {map : SortedMap ℕ Value}
    (encoded : Encoded (map.entries.map Prod.fst)) {extremum : Option ℕ}
    (inside : ∀ key ∈ extremum, key < 2 ^ 64) (change : Option Value → Value) :
    Encoded ((extremum.elim map fun key => map.alter key change).entries.map Prod.fst) := by
  cases extremum with
  | none => exact encoded
  | some key => exact encoded_alter encoded (inside key rfl) change

theorem keys_scaledTo (total : F64) (heavy : SortedMap ℕ F64) :
    (scaledTo total heavy).entries.map Prod.fst = heavy.entries.map Prod.fst := by
  unfold scaledTo
  simp only
  split
  · exact List.map_map
  · rfl

theorem keys_accumulate (count running : F64) (weights : List (ℕ × F64)) :
    (accumulate count running weights).map Prod.fst = weights.map Prod.fst := by
  induction weights generalizing running with
  | nil => rfl
  | cons weight rest hypothesis =>
    exact congrArg (weight.1 :: ·) (hypothesis (running.add weight.2))

theorem keys_completed (points : List (ℕ × F64)) :
    (completed points).map Prod.fst = points.map Prod.fst := by
  induction points with
  | nil => rfl
  | cons point rest hypothesis =>
    cases rest with
    | nil => rfl
    | cons next rest => exact congrArg (point.1 :: ·) hypothesis

theorem keys_isotonicize (points : List (ℕ × F64)) :
    (isotonicize points).map Prod.fst = points.map Prod.fst := by
  unfold isotonicize
  simp only
  generalize List.reverse _ = blocks
  induction blocks generalizing points with
  | nil => rfl
  | cons block rest hypothesis =>
    rw [List.foldl_cons, hypothesis]
    refine List.ext_getElem? fun index => ?_
    rw [List.getElem?_map, List.getElem?_map, List.getElem?_mapIdx, Option.map_map]
    refine congrFun (congrArg Option.map (funext fun point => ?_)) _
    show Prod.fst (ite _ _ _) = point.1
    split
    · rfl
    · rfl

theorem encoded_cdf (formed : WellFormed hasher sketch) {globalHeavy : List (ℕ × F64)}
    (inside : Encoded (globalHeavy.map Prod.fst)) :
    Encoded ((sketch.cdfKeysAndCompositionFrom globalHeavy).1.map Prod.fst) := by
  unfold UnivMonQ.cdfKeysAndCompositionFrom
  split
  · exact fun key member => absurd member List.not_mem_nil
  simp only
  rw [keys_isotonicize, keys_completed, keys_accumulate]
  have sampled : Encoded (sketch.orderedHeap.map (·.key)) := by
    intro key member
    obtain ⟨occurrence, held, rfl⟩ := List.mem_map.mp member
    exact formed.sampled occurrence held
  have scaled : Encoded ((scaledTo (F64.ofInt sketch.count)
      (SortedMap.ofList globalHeavy)).entries.map Prod.fst) := by
    rw [keys_scaledTo]
    exact encoded_ofList inside
  generalize scaledTo (F64.ofInt sketch.count) (SortedMap.ofList globalHeavy) = heavy at scaled ⊢
  have outside : Encoded ((sketch.orderedHeap.map (·.key)).filter
      fun key => !heavy.containsKey key) := fun key member =>
    sampled key (List.mem_of_mem_filter member)
  refine encoded_elim (encoded_elim (encoded_foldl_alter ?_ ?_ _) formed.minKey _) formed.maxKey _
  · split
    · exact sampled
    · exact outside
  · split
    · exact fun key member => absurd member List.not_mem_nil
    · exact scaled

theorem encoded_topCandidates (formed : WellFormed hasher sketch) :
    ∀ candidate ∈ sketch.topCandidatesFrom (sketch.recoverCandidates hasher),
      candidate.key < 2 ^ 64 := by
  intro candidate member
  obtain ⟨recovered, atTerminal, held⟩ := List.mem_flatten.mp
    ((List.mem_insertionSort _).mp (List.mem_of_mem_take member))
  obtain ⟨terminal, inside, rfl⟩ := List.mem_mapIdx.mp atTerminal
  obtain ⟨key, keyHeld, found⟩ := List.mem_filterMap.mp held
  simp only at found
  split at found
  · obtain rfl := Option.some.inj found
    exact (formed.placed terminal _ (List.getElem?_eq_getElem inside) key
      (AList.mem_keys.mpr keyHeld)).1
  · cases found

theorem cdfKeys_eq : sketch.cdfKeys hasher floats =
    (sketch.cdfKeysAndCompositionFrom (sketch.assistedOrderedHeavy floats
      (sketch.logicalHeavySetsFrom floats (sketch.recoverCandidates hasher))
      (sketch.topCandidatesFrom (sketch.recoverCandidates hasher)))).1 := by
  unfold cdfKeys
  split
  next guarded =>
    unfold UnivMonQ.cdfKeysAndCompositionFrom
    rw [if_pos guarded]
  next => rfl

theorem encoded_cdfKeys (formed : WellFormed hasher sketch) :
    ∀ point ∈ sketch.cdfKeys hasher floats, point.1 < 2 ^ 64 := by
  intro point member
  rw [cdfKeys_eq] at member
  refine encoded_cdf formed (fun key heavy => ?_) point.1 (List.mem_map_of_mem member)
  unfold assistedOrderedHeavy at heavy
  split at heavy
  · cases heavy
  simp only at heavy
  split at heavy
  · cases heavy
  obtain ⟨entry, entered, rfl⟩ := List.mem_map.mp heavy
  obtain ⟨candidate, chosen, rfl⟩ := List.mem_map.mp entered
  exact encoded_topCandidates formed candidate
    (List.mem_of_mem_take (List.mem_of_mem_filter chosen))

/-! ### Sketches without observations -/

theorem keyedSumFrom_empty (weigh : ℕ → F64 → F64) (level : ℕ)
    {heavy : List (List RecoveredCandidate)} (none : ∀ candidates ∈ heavy, candidates = []) :
    keyedSumFrom weigh level heavy = F64.zero := by
  induction heavy generalizing level with
  | nil => rfl
  | cons here rest hypothesis =>
    obtain rfl := none here List.mem_cons_self
    cases rest with
    | nil => rfl
    | cons next rest =>
      have later := hypothesis (level + 1) fun candidates member =>
        none candidates (List.mem_cons_of_mem _ member)
      have doubled : ((F64.ofInt 2).mul F64.zero).add F64.zero = F64.zero := by decide +kernel
      rw [keyedSumFrom, later]
      exact doubled

theorem suffixes_empty {config : Config} {rows : List (F64 × List RecoveredCandidate × Bool)}
    (none : ∀ row ∈ rows, row.2.1 = []) : ∀ suffix ∈ suffixes config rows,
      suffix.candidates = [] := by
  induction rows with
  | nil => exact fun suffix member => absurd member List.not_mem_nil
  | cons row rest hypothesis =>
    have later := hypothesis fun row member => none row (List.mem_cons_of_mem _ member)
    have before : ((suffixes config rest).headD Suffix.empty).candidates = [] := by
      cases after : suffixes config rest with
      | nil => rfl
      | cons first others => exact later first (after ▸ List.mem_cons_self)
    intro suffix member
    rcases List.mem_cons.mp member with rfl | held
    · unfold Suffix.extend
      rw [before, none row List.mem_cons_self]
      exact List.take_nil
    · exact later suffix held

theorem WellFormed.logicalHeavy_empty (formed : WellFormed hasher sketch)
    (empty : sketch.count = 0) :
    ∀ candidates ∈ sketch.logicalHeavySetsFrom floats (sketch.recoverCandidates hasher),
      candidates = [] := by
  intro candidates member
  obtain ⟨suffix, held, rfl⟩ := List.mem_map.mp member
  have without : suffix.candidates = [] := by
    refine suffixes_empty (fun row rowHeld => ?_) suffix held
    have recovered := (List.of_mem_zip (List.of_mem_zip rowHeld).2).1
    obtain ⟨terminal, inside, here⟩ := List.mem_mapIdx.mp recovered
    rw [← here]
    unfold UnivMonQ.recoverLevel
    rw [formed.empty empty _ (List.getElem_mem inside)]
    rfl
  unfold Suffix.heavy
  rw [without]
  split
  · rfl
  · rfl

/-! ### Answers of a prepared snapshot -/

theorem totalCmp_valueOf (value : BitVec 64) {key : ℕ} (inside : key < 2 ^ 64) :
    totalCmp value (valueOf key) = compare (floatToOrdered value).toNat key := by
  rw [valueOf, ← compare_floatToOrdered, floatToOrdered_orderedToFloat, BitVec.toNat_ofNat,
    Nat.mod_eq_of_lt inside]

theorem totalCmp_valueOf_left (value : BitVec 64) {key : ℕ} (inside : key < 2 ^ 64) :
    totalCmp (valueOf key) value = compare key (floatToOrdered value).toNat := by
  rw [valueOf, ← compare_floatToOrdered, floatToOrdered_orderedToFloat, BitVec.toNat_ofNat,
    Nat.mod_eq_of_lt inside]

theorem partitionPoint_map {First Second : Type} (convert : First → Second)
    {before : Second → Bool} {other : First → Bool} {points : List First}
    (same : ∀ point ∈ points, before (convert point) = other point) :
    partitionPoint before (points.map convert) = partitionPoint other points := by
  unfold partitionPoint
  induction points with
  | nil => rfl
  | cons point rest hypothesis =>
    rw [List.map_cons, List.takeWhile_cons, List.takeWhile_cons, same point List.mem_cons_self]
    cases other point with
    | true =>
      exact congrArg (· + 1) (hypothesis fun later member =>
        same later (List.mem_cons_of_mem _ member))
    | false => rfl

theorem cdf_prepareQueries : (sketch.prepareQueries hasher floats).cdf =
    (sketch.cdfKeys hasher floats).map pointOf := by
  rw [cdfKeys_eq]
  rfl

theorem WellFormed.rank_eq (formed : WellFormed hasher sketch) :
    (sketch.prepareQueries hasher floats).rank = sketch.rank hasher floats := by
  funext value
  unfold UnivMonQQuery.rank rank
  rw [cdf_prepareQueries]
  show ite (sketch.count = 0 ∨ sketch.config.orderedSamples = 0) _ _ = _
  split
  · rfl
  next some =>
    obtain ⟨leastSome, greatestSome⟩ := formed.extrema (not_or.mp some).1
    obtain ⟨minKey, least⟩ := Option.isSome_iff_exists.mp leastSome
    obtain ⟨maxKey, greatest⟩ := Option.isSome_iff_exists.mp greatestSome
    have leastValue : sketch.leastValue = Option.some (valueOf minKey) := by
      rw [leastValue, least, Option.map_some]
    have greatestValue : sketch.greatestValue = Option.some (valueOf maxKey) := by
      rw [greatestValue, greatest, Option.map_some]
    have points : partitionPoint (fun point : Point => decide (totalCmp point.value value ≠ .gt))
        ((sketch.cdfKeys hasher floats).map pointOf) =
        partitionPoint (fun point => decide (point.1 ≤ (floatToOrdered value).toNat))
          (sketch.cdfKeys hasher floats) := by
      refine partitionPoint_map pointOf fun point member => decide_eq_decide.mpr ?_
      show totalCmp (valueOf point.1) value ≠ .gt ↔ _
      rw [totalCmp_valueOf_left value (encoded_cdfKeys formed point member)]
      exact compare_le_iff_le
    show (sketch.leastValue >>= fun _ => sketch.greatestValue >>= fun _ => _) = _
    rw [leastValue, greatestValue, least, greatest]
    simp only [Option.bind_eq_bind, Option.bind_some]
    rw [totalCmp_valueOf value (formed.minKey minKey least),
      totalCmp_valueOf value (formed.maxKey maxKey greatest), points]
    simp only [compare_lt_iff_lt, ne_eq, not_lt, List.getElem?_map, Option.elim_map]
    rfl

theorem quantile_direct : sketch.quantile hasher floats = fun q =>
    sketch.quantileFromCdf q (sketch.cdfKeys hasher floats) := by
  funext q
  unfold quantile quantileFromCdf
  by_cases outside : sketch.count = 0 ∨ ¬q.InUnit
  · rw [if_pos outside, if_pos outside]
  rw [if_neg outside, if_neg outside]
  by_cases first : q.Same F64.zero
  · rw [if_pos first, if_pos first]
  rw [if_neg first, if_neg first]
  by_cases last : q.Same F64.one
  · rw [if_pos last, if_pos last]
  rw [if_neg last, if_neg last]
  by_cases unsampled : sketch.config.orderedSamples = 0
  · rw [if_pos unsampled, if_pos unsampled]
  · rw [if_neg unsampled, if_neg unsampled]

theorem quantile_eq :
    (sketch.prepareQueries hasher floats).quantile = sketch.quantile hasher floats := by
  funext q
  rw [quantile_direct]
  unfold UnivMonQQuery.quantile quantileFromCdf
  rw [cdf_prepareQueries]
  simp only
  rw [List.length_map, partitionPoint_map pointOf fun point _ => rfl, List.getElem?_map,
    Option.map_map]
  rfl

theorem quantiles_eq (fractions : List F64) :
    sketch.quantiles hasher floats fractions = fractions.map (sketch.quantile hasher floats) := by
  unfold quantiles
  split
  next empty =>
    have none : sketch.quantile hasher floats = fun _ => none := by
      funext q
      exact if_pos (.inl empty)
    rw [none, List.map_const']
  next => rw [quantile_direct]

theorem WellFormed.gSum_eq (formed : WellFormed hasher sketch) :
    (sketch.prepareQueries hasher floats).estimateGSum = sketch.estimateGSum hasher floats := by
  funext weigh
  unfold estimateGSum
  split
  next empty => exact keyedSumFrom_empty _ 0 (formed.logicalHeavy_empty empty)
  next => rfl

theorem entropyOccurrence_eq :
    (sketch.prepareQueries hasher floats).estimateEntropyOccurrence =
      sketch.estimateEntropyOccurrence hasher floats := by
  unfold estimateEntropyOccurrence
  split
  next empty => exact if_pos empty
  next => rfl

theorem sketch_prepareQueries : (sketch.prepareQueries hasher floats).sketch = sketch := rfl

theorem count_prepareQueries : (sketch.prepareQueries hasher floats).count = sketch.count := rfl

/-- The prepared entropy tests whether the sample gives an entropy, the direct one whether it holds
an occurrence. -/
theorem WellFormed.entropy_eq (formed : WellFormed hasher sketch) :
    (sketch.prepareQueries hasher floats).estimateEntropy floats =
      sketch.estimateEntropy hasher floats := by
  unfold UnivMonQQuery.estimateEntropy estimateEntropy
    UnivMonQQuery.estimateEntropyUniversal UnivMonQQuery.estimateF2
  rw [formed.gSum_eq, entropyOccurrence_eq]
  unfold estimateGSum estimateEntropyOccurrence
  simp only
  rw [sketch_prepareQueries, count_prepareQueries]
  by_cases empty : sketch.count = 0
  · rw [if_pos (.inl empty), if_pos empty, if_pos empty]
  show (if sketch.count = 0 ∨ (sketch.entropyFromOccurrences hasher floats _).isNone ∨
    sketch.candidateRecoveryComplete = true then _ else _) = _
  simp only [empty, false_or, if_false]
  have unsampled : sketch.orderedHeap = [] → ∀ heavy,
      sketch.entropyFromOccurrences hasher floats heavy = none := by
    intro none heavy
    unfold UnivMonQ.entropyFromOccurrences
    rw [if_neg empty, if_pos none]
  generalize sketch.logicalHeavySetsFrom floats (sketch.recoverCandidates hasher) = logicalHeavy
  have occurrences := fun none => unsampled none (assistedEntropyHeavy logicalHeavy)
  generalize sketch.entropyFromOccurrences hasher floats _ = occurrenceEntropy at occurrences ⊢
  by_cases complete : sketch.candidateRecoveryComplete = true
  · rw [if_pos (.inr complete), if_pos (.inr complete)]
  cases occurrenceEntropy with
  | none =>
    rw [if_pos (.inl rfl), Option.getD_none, ite_self, ite_self]
  | some entropy =>
    have sampled : ¬sketch.orderedHeap = [] := fun none => Option.some_ne_none _ (occurrences none)
    have present : ¬(Option.some entropy).isNone = true := Bool.false_ne_true
    rw [if_neg (not_or.mpr ⟨present, complete⟩), if_neg (not_or.mpr ⟨sampled, complete⟩)]

theorem heavyHitters_eq :
    (sketch.prepareQueries hasher floats).heavyHitters = sketch.heavyHitters hasher := by
  funext most
  rfl

theorem rankUniversal_eq :
    (sketch.prepareQueries hasher floats).estimateRankUniversal =
      sketch.estimateRankUniversal hasher floats := by
  funext value
  unfold estimateRankUniversal
  split
  next empty => exact if_pos empty
  next => rfl

/-! ### Answers -/

/-- The answers to the queries that a sketch and a prepared snapshot share. -/
@[ext] structure Answers where
  rank : BitVec 64 → Option ℕ
  estimateRankUniversal : BitVec 64 → Option ℕ
  quantile : F64 → Option (BitVec 64)
  quantiles : List F64 → List (Option (BitVec 64))
  cdf : List Point
  heavyHitters : ℕ → List (BitVec 64 × ℕ)
  estimateGSum : (F64 → F64) → F64
  estimateEntropy : F64
  estimateEntropyOccurrence : Option F64

def answers (hasher : SketchHasher) (floats : ElementaryFunctions) (sketch : UnivMonQ) :
    Answers where
  rank := sketch.rank hasher floats
  estimateRankUniversal := sketch.estimateRankUniversal hasher floats
  quantile := sketch.quantile hasher floats
  quantiles := sketch.quantiles hasher floats
  cdf := sketch.cdf hasher floats
  heavyHitters := sketch.heavyHitters hasher
  estimateGSum := sketch.estimateGSum hasher floats
  estimateEntropy := sketch.estimateEntropy hasher floats
  estimateEntropyOccurrence := sketch.estimateEntropyOccurrence hasher floats

def preparedAnswers (floats : ElementaryFunctions) (query : UnivMonQQuery) : Answers where
  rank := query.rank
  estimateRankUniversal := query.estimateRankUniversal
  quantile := query.quantile
  quantiles := query.quantiles
  cdf := query.cdf
  heavyHitters := query.heavyHitters
  estimateGSum := query.estimateGSum
  estimateEntropy := query.estimateEntropy floats
  estimateEntropyOccurrence := query.estimateEntropyOccurrence

theorem WellFormed.preparedAnswers_eq (formed : WellFormed hasher sketch) :
    preparedAnswers floats (sketch.prepareQueries hasher floats) =
      sketch.answers hasher floats := by
  refine Answers.ext formed.rank_eq rankUniversal_eq quantile_eq ?_ cdf_prepareQueries
    heavyHitters_eq formed.gSum_eq formed.entropy_eq entropyOccurrence_eq
  funext fractions
  show fractions.map (sketch.prepareQueries hasher floats).quantile =
    sketch.quantiles hasher floats fractions
  rw [quantile_eq, quantiles_eq]

theorem SameContents.assistedOrderedHeavy (same : sketch.SameContents other) :
    sketch.assistedOrderedHeavy floats = other.assistedOrderedHeavy floats := by
  unfold UnivMonQ.assistedOrderedHeavy
  rw [same.count, same.config]

theorem SameContents.cdfKeys (same : sketch.SameContents other)
    (formed : WellFormed hasher sketch) :
    sketch.cdfKeys hasher floats = other.cdfKeys hasher floats := by
  rw [cdfKeys_eq, cdfKeys_eq, same.cdfKeysAndCompositionFrom, same.assistedOrderedHeavy,
    same.logicalHeavySetsFrom formed, same.topCandidatesFrom formed]

theorem logicalHeavy_prepareQueries : (sketch.prepareQueries hasher floats).logicalHeavy =
    sketch.logicalHeavySetsFrom floats (sketch.recoverCandidates hasher) := rfl

/-- The answers do not depend on the order in heaps and hash maps. -/
theorem SameContents.answers_eq (same : sketch.SameContents other)
    (formed : WellFormed hasher sketch) :
    other.answers hasher floats = sketch.answers hasher floats := by
  have none : other.orderedHeap = [] ↔ sketch.orderedHeap = [] :=
    ⟨fun empty => (empty ▸ same.orderedHeap).eq_nil,
      fun empty => (empty ▸ same.orderedHeap).nil_eq.symm⟩
  have universal : other.entropyOfSum floats = sketch.entropyOfSum floats := by
    unfold entropyOfSum
    rw [same.count]
  have quantile : other.quantile hasher floats = sketch.quantile hasher floats := by
    funext q
    rw [quantile_direct, quantile_direct, same.cdfKeys formed]
    unfold quantileFromCdf leastValue greatestValue
    rw [same.count, same.config, same.minKey, same.maxKey]
  refine Answers.ext (funext fun value => ?_) (funext fun value => ?_) quantile
    (funext fun fractions => ?_) ?_ (funext fun most => ?_) (funext fun weigh => ?_) ?_ ?_
  · show other.rank hasher floats value = sketch.rank hasher floats value
    unfold rank
    rw [same.count, same.config, same.minKey, same.maxKey, same.cdfKeys formed]
  · show other.estimateRankUniversal hasher floats value =
      sketch.estimateRankUniversal hasher floats value
    unfold estimateRankUniversal UnivMonQQuery.estimateRankUniversal
    rw [logicalHeavy_prepareQueries, logicalHeavy_prepareQueries, count_prepareQueries,
      count_prepareQueries, sketch_prepareQueries, sketch_prepareQueries,
      same.logicalHeavySetsFrom formed, same.count, same.minKey, same.maxKey]
  · show other.quantiles hasher floats fractions = sketch.quantiles hasher floats fractions
    rw [quantiles_eq, quantiles_eq, quantile]
  · show other.cdf hasher floats = sketch.cdf hasher floats
    unfold cdf
    rw [same.cdfKeys formed]
  · show other.heavyHitters hasher most = sketch.heavyHitters hasher most
    unfold heavyHitters
    rw [same.topCandidatesFrom formed, same.count]
  · show other.estimateGSum hasher floats weigh = sketch.estimateGSum hasher floats weigh
    unfold estimateGSum
    rw [same.logicalHeavySetsFrom formed, same.count]
  · show other.estimateEntropy hasher floats = sketch.estimateEntropy hasher floats
    unfold estimateEntropy
    simp only [none, universal]
    rw [same.logicalHeavySetsFrom formed, same.entropyFromOccurrences,
      same.candidateRecoveryComplete, same.orderedHeap.length_eq, same.count]
  · show other.estimateEntropyOccurrence hasher floats =
      sketch.estimateEntropyOccurrence hasher floats
    unfold estimateEntropyOccurrence
    rw [same.logicalHeavySetsFrom formed, same.entropyFromOccurrences, same.count]

theorem preparedAnswers_congr {query : UnivMonQQuery} (same : query.sketch.SameContents other) :
    preparedAnswers floats { query with sketch := other } = preparedAnswers floats query := by
  have quantile : UnivMonQQuery.quantile { query with sketch := other } = query.quantile := by
    funext q
    unfold UnivMonQQuery.quantile UnivMonQQuery.count leastValue greatestValue
    rw [same.count, same.config, same.minKey, same.maxKey]
  refine Answers.ext (funext fun value => ?_) (funext fun value => ?_) quantile
    (funext fun fractions => congrArg (List.map · fractions) quantile) rfl
    (funext fun most => ?_) rfl ?_ rfl
  · show UnivMonQQuery.rank { query with sketch := other } value = query.rank value
    unfold UnivMonQQuery.rank UnivMonQQuery.count leastValue greatestValue
    rw [same.count, same.config, same.minKey, same.maxKey]
  · show UnivMonQQuery.estimateRankUniversal { query with sketch := other } value =
      query.estimateRankUniversal value
    unfold UnivMonQQuery.estimateRankUniversal UnivMonQQuery.count
    rw [same.count, same.minKey, same.maxKey]
  · show UnivMonQQuery.heavyHitters { query with sketch := other } most = query.heavyHitters most
    unfold UnivMonQQuery.heavyHitters UnivMonQQuery.count
    rw [same.count]
  · show UnivMonQQuery.estimateEntropy floats { query with sketch := other } =
      query.estimateEntropy floats
    unfold UnivMonQQuery.estimateEntropy UnivMonQQuery.estimateEntropyUniversal
      UnivMonQQuery.estimateF2 UnivMonQQuery.estimateGSum UnivMonQQuery.estimateEntropyOccurrence
      UnivMonQQuery.count entropyOfSum
    rw [same.count, same.orderedHeap.length_eq]

theorem SameContents.prepareQueries (same : sketch.SameContents other)
    (formed : WellFormed hasher sketch) :
    other.prepareQueries hasher floats =
      { sketch.prepareQueries hasher floats with sketch := other } := by
  unfold UnivMonQ.prepareQueries
  simp only
  rw [same.logicalHeavySetsFrom formed, same.topCandidatesFrom formed,
    same.cdfKeysAndCompositionFrom, same.assistedOrderedHeavy, same.entropyFromOccurrences,
    same.candidateRecoveryComplete]

end Contents

/-! ### The result -/

/-- Every query that is prepared gives what the direct one gives, several quantiles are the
quantiles, and no answer depends on the order in a heap or a hash map. The keys that the direct
queries compare are in bijection with the values, in their total order. -/
theorem prepared_queries_agree (hasher : SketchHasher) (floats : ElementaryFunctions)
    {sketch : UnivMonQ} (reached : Reached hasher sketch) :
    preparedAnswers floats (sketch.prepareQueries hasher floats) = sketch.answers hasher floats ∧
      (∀ fractions, sketch.quantiles hasher floats fractions =
        fractions.map (sketch.quantile hasher floats)) ∧
      (∀ other, sketch.SameContents other →
        other.answers hasher floats = sketch.answers hasher floats ∧
        preparedAnswers floats (other.prepareQueries hasher floats) =
          sketch.answers hasher floats) ∧
      (∀ bits, orderedToFloat (floatToOrdered bits) = bits) ∧
      (∀ key, floatToOrdered (orderedToFloat key) = key) ∧
      ∀ left right, compare (floatToOrdered left).toNat (floatToOrdered right).toNat =
        totalCmp left right := by
  have formed := reached.wellFormed
  refine ⟨formed.preparedAnswers_eq, quantiles_eq, fun other same => ⟨same.answers_eq formed, ?_⟩,
    orderedToFloat_floatToOrdered, floatToOrdered_orderedToFloat, compare_floatToOrdered⟩
  rw [same.prepareQueries formed, preparedAnswers_congr same]
  exact formed.preparedAnswers_eq

/-- A configuration of two levels with one cell each. -/
def smallConfig : Config := ⟨2, 1, 0, 1, 64, 1, 1, 0⟩

/-- A sketch with one observation. -/
theorem prepared_queries_agree_one : ∃ sketch : UnivMonQ, sketch.count = 1 ∧
    ∀ floats, preparedAnswers floats (sketch.prepareQueries collidingHasher floats) =
      sketch.answers collidingHasher floats := by
  have made : ∃ sketch, new smallConfig 7 = .ok sketch ∧
      (sketch.updateValue collidingHasher 0#64).any (·.count = 1) = true :=
    ⟨_, rfl, by decide +kernel⟩
  obtain ⟨sketch, fresh, updates⟩ := made
  obtain ⟨next, ran, counted⟩ := (Option.any_eq_true _ _).mp updates
  exact ⟨next, of_decide_eq_true counted, fun floats => (prepared_queries_agree collidingHasher
    floats ((Reached.new smallConfig 7 fresh).update 0#64 ran)).1⟩

end UnivMonQ

end AsapSketchlib
