/-
This file proves when the logical candidate sets that queries rebuild from the terminal strata
are as complete as their flags say. The flag of a level compares the candidates of that level
with the capacity; a truncation at a deeper level is not remembered, and shows only where it
leaves no room for another candidate.
-/

import AsapSketchlib.UnivMonCompleteness

namespace AsapSketchlib

namespace LayeredMon

open HashTable

variable {Layout : Type} {xxh : XxHash3} (mon : LayeredMon Layout)
  (tables : ℕ → HashTable HeapItem HeapItem.eqItem)

/-! ### One level -/

def candidateKeysOf (candidates : List (HeapItem × ℤ)) : List HeapItem :=
  candidates.map Prod.fst

variable (xxh) in
/-- What a level has before it is cut to the capacity. -/
def retainedAt (table : HashTable HeapItem HeapItem.eqItem) (below : List (HeapItem × ℤ))
    (layer : MonLayer) : List (HeapItem × ℤ) :=
  (table.iterate (cumulativeAt xxh table below layer)).insertionSort
    fun left right => retainedFirst xxh left right

variable (xxh) in
def headCandidates (i : ℕ) (layers : List MonLayer) : List (HeapItem × ℤ) :=
  ((mon.logicalFrom xxh tables i layers).1.head?.map LogicalLevel.candidates).getD []

theorem headCandidates_cons (i : ℕ) (layer : MonLayer) (rest : List MonLayer) :
    mon.headCandidates xxh tables i (layer :: rest) =
      (retainedAt xxh (tables i) (mon.headCandidates xxh tables (i + 1) rest) layer).take
        mon.heapSize := rfl

theorem retainedAt_perm (table : HashTable HeapItem HeapItem.eqItem)
    (below : List (HeapItem × ℤ)) (layer : MonLayer) :
    (retainedAt xxh table below layer).Perm (cumulativeAt xxh table below layer) :=
  (List.perm_insertionSort _ _).trans (table.iterate_perm _)

theorem keysOf_candidates (layer : MonLayer) :
    candidateKeysOf (layer.candidates xxh) = HHHeap.keys layer.hh := by
  rw [candidateKeysOf, MonLayer.candidates, List.map_map]
  rfl

section

variable (table : HashTable HeapItem HeapItem.eqItem) (below : List (HeapItem × ℤ))
  (layer : MonLayer)

/-- The keys of a level: those retained below are inserted into an empty set, and then those of
the stratum. -/
theorem keysOf_cumulativeAt :
    candidateKeysOf (cumulativeAt xxh table below layer) =
      table.insertKeys (table.insertKeys [] (candidateKeysOf below)) (HHHeap.keys layer.hh) := by
  rw [candidateKeysOf, cumulativeAt, map_fst_upsertAll, collectMap, map_fst_upsertAll]
  exact congrArg _ (keysOf_candidates layer)

theorem length_cumulativeAt_le :
    (cumulativeAt xxh table below layer).length ≤ below.length + layer.hh.heap.length := by
  have sameLength : (cumulativeAt xxh table below layer).length =
      (candidateKeysOf (cumulativeAt xxh table below layer)).length := (List.length_map _).symm
  have outer := length_insertKeys_le table
    (table.insertKeys [] (candidateKeysOf below)) (HHHeap.keys layer.hh)
  have inner := length_insertKeys_le table [] (candidateKeysOf below)
  rw [List.length_nil, Nat.zero_add, candidateKeysOf, List.length_map] at inner
  rw [HHHeap.keys, List.length_map] at outer
  rw [sameLength, keysOf_cumulativeAt, HHHeap.keys]
  exact outer.trans (Nat.add_le_add_right inner _)

end

theorem held_of_uncut {i : ℕ} {layer : MonLayer} {rest : List MonLayer}
    (uncut : (retainedAt xxh (tables i) (mon.headCandidates xxh tables (i + 1) rest)
      layer).length ≤ mon.heapSize) :
    ∀ key, key ∈ candidateKeysOf (mon.headCandidates xxh tables (i + 1) rest) ∨
        key ∈ HHHeap.keys layer.hh →
      Held HeapItem.eqItem (candidateKeysOf (mon.headCandidates xxh tables i (layer :: rest)))
        key := by
  intro key member
  rw [headCandidates_cons, List.take_of_length_le uncut]
  have inLevel : ∀ stored ∈ candidateKeysOf (cumulativeAt xxh (tables i)
      (mon.headCandidates xxh tables (i + 1) rest) layer), stored ∈ candidateKeysOf
        (retainedAt xxh (tables i) (mon.headCandidates xxh tables (i + 1) rest) layer) :=
    fun stored isStored => ((retainedAt_perm _ _ _).map Prod.fst).mem_iff.mpr isStored
  refine Held.of_subset ?_ inLevel
  rw [keysOf_cumulativeAt]
  rcases member with below | resident
  · exact (held_insertKeys [] _ key below).of_subset (insertKeys_subset _ _)
  · exact held_insertKeys _ _ key resident

theorem mem_headCandidates (i : ℕ) (layers : List MonLayer) :
    ∀ key ∈ candidateKeysOf (mon.headCandidates xxh tables i layers),
      ∃ layer ∈ layers, key ∈ HHHeap.keys layer.hh := by
  induction layers generalizing i with
  | nil => exact fun _ member => absurd member List.not_mem_nil
  | cons layer rest hypothesis =>
    intro key member
    rw [headCandidates_cons, candidateKeysOf, List.map_take] at member
    have retained := ((retainedAt_perm _ _ _).map Prod.fst).mem_iff.mp (List.mem_of_mem_take member)
    have cumulative : key ∈ candidateKeysOf (cumulativeAt xxh (tables i)
      (mon.headCandidates xxh tables (i + 1) rest) layer) := retained
    rw [keysOf_cumulativeAt] at cumulative
    rcases mem_insertKeys _ _ key cumulative with fromBelow | resident
    · have below := (mem_insertKeys _ _ key fromBelow).resolve_left List.not_mem_nil
      obtain ⟨other, otherMember, isResident⟩ := hypothesis (i + 1) key below
      exact ⟨other, List.mem_cons_of_mem layer otherMember, isResident⟩
    · exact ⟨layer, List.mem_cons_self, resident⟩

/-! ### What is cut -/

def Whole (candidates : List (HeapItem × ℤ)) (layers : List MonLayer) : Prop :=
  ∀ layer ∈ layers, ∀ key ∈ HHHeap.keys layer.hh,
    Held HeapItem.eqItem (candidateKeysOf candidates) key

/-- Residents that are equal are identical: there are not both zeros of a floating-point type. -/
def OneZero (layers : List MonLayer) : Prop :=
  ∀ left ∈ layers, ∀ right ∈ layers, ∀ first ∈ HHHeap.keys left.hh, ∀ second ∈ HHHeap.keys right.hh,
    first.eqItem second = true → first = second

theorem whole_of_uncut {i : ℕ} {layer : MonLayer} {rest : List MonLayer}
    (whole : Whole (mon.headCandidates xxh tables (i + 1) rest) rest)
    (uncut : (retainedAt xxh (tables i) (mon.headCandidates xxh tables (i + 1) rest)
      layer).length ≤ mon.heapSize) :
    Whole (mon.headCandidates xxh tables i (layer :: rest)) (layer :: rest) := by
  intro other otherMember key resident
  rcases List.mem_cons.mp otherMember with rfl | deeper
  · exact mon.held_of_uncut tables uncut key (Or.inr resident)
  · exact (whole other deeper key resident).trans HeapItem.eqItem_trans fun stored isStored =>
      mon.held_of_uncut tables uncut stored (Or.inl isStored)

theorem whole_of_fits (i : ℕ) (layers : List MonLayer)
    (fits : (layers.map fun layer => layer.hh.heap.length).sum ≤ mon.heapSize) :
    Whole (mon.headCandidates xxh tables i layers) layers ∧
      (mon.headCandidates xxh tables i layers).length ≤
        (layers.map fun layer => layer.hh.heap.length).sum := by
  induction layers generalizing i with
  | nil => exact ⟨fun _ member => absurd member List.not_mem_nil, Nat.le_refl _⟩
  | cons layer rest hypothesis =>
    rw [List.map_cons, List.sum_cons] at fits ⊢
    obtain ⟨whole, short⟩ := hypothesis (i + 1) ((Nat.le_add_left _ _).trans fits)
    have bounded : (retainedAt xxh (tables i) (mon.headCandidates xxh tables (i + 1) rest)
        layer).length ≤
          layer.hh.heap.length + (rest.map fun layer => layer.hh.heap.length).sum := by
      rw [(retainedAt_perm _ _ _).length_eq, Nat.add_comm layer.hh.heap.length]
      exact (length_cumulativeAt_le _ _ _).trans (Nat.add_le_add_right short _)
    refine ⟨mon.whole_of_uncut tables whole (bounded.trans fits), ?_⟩
    rw [headCandidates_cons]
    exact (List.length_take_le' _ _).trans bounded

theorem oneZero_of_cons {layer : MonLayer} {rest : List MonLayer} (oneZero : OneZero (layer :: rest)) :
    OneZero rest := fun left leftMember right rightMember =>
  oneZero left (List.mem_cons_of_mem layer leftMember) right (List.mem_cons_of_mem layer rightMember)

/-- The keys of a level none of whose residents are both zeros: those retained below stay. -/
theorem keysOf_cumulativeAt_of_oneZero {i : ℕ} {layer : MonLayer} {rest : List MonLayer}
    (oneZero : OneZero (layer :: rest))
    (apart : (candidateKeysOf (mon.headCandidates xxh tables (i + 1) rest)).Pairwise
      fun left right => left.eqItem right = false) :
    candidateKeysOf (cumulativeAt xxh (tables i) (mon.headCandidates xxh tables (i + 1) rest)
        layer) =
      (tables i).insertKeys (candidateKeysOf (mon.headCandidates xxh tables (i + 1) rest))
        (HHHeap.keys layer.hh) ∧
    (candidateKeysOf (mon.headCandidates xxh tables i (layer :: rest))).Pairwise
      fun left right => left.eqItem right = false := by
  have keysEq : candidateKeysOf (cumulativeAt xxh (tables i)
      (mon.headCandidates xxh tables (i + 1) rest) layer) =
      (tables i).insertKeys (candidateKeysOf (mon.headCandidates xxh tables (i + 1) rest))
        (HHHeap.keys layer.hh) := by
    have unchanged : (tables i).insertKeys []
        (candidateKeysOf (mon.headCandidates xxh tables (i + 1) rest)) =
          candidateKeysOf (mon.headCandidates xxh tables (i + 1) rest) := insertKeys_of_apart apart
    rw [keysOf_cumulativeAt, unchanged]
  have resident : ∀ key ∈ candidateKeysOf (mon.headCandidates xxh tables (i + 1) rest) ++
      HHHeap.keys layer.hh, ∃ other ∈ layer :: rest, key ∈ HHHeap.keys other.hh := by
    intro key member
    rcases List.mem_append.mp member with below | own
    · obtain ⟨other, deeper, isResident⟩ := mon.mem_headCandidates tables (i + 1) rest key below
      exact ⟨other, List.mem_cons_of_mem layer deeper, isResident⟩
    · exact ⟨layer, List.mem_cons_self, own⟩
  have cumulativeApart : (candidateKeysOf (cumulativeAt xxh (tables i)
      (mon.headCandidates xxh tables (i + 1) rest) layer)).Pairwise
        fun left right => left.eqItem right = false := by
    rw [keysEq]
    refine apart_insertKeys (fun left leftMember right rightMember equal => ?_) apart
    obtain ⟨leftLayer, leftInside, leftResident⟩ := resident left leftMember
    obtain ⟨rightLayer, rightInside, rightResident⟩ := resident right rightMember
    exact oneZero leftLayer leftInside rightLayer rightInside left leftResident right rightResident
      equal
  refine ⟨keysEq, ?_⟩
  rw [headCandidates_cons, candidateKeysOf, List.map_take]
  refine List.Pairwise.take ?_
  exact ((retainedAt_perm _ _ _).map Prod.fst).symm.pairwise cumulativeApart
    fun {left right} different => Bool.eq_false_iff.mpr fun equal =>
      Bool.eq_false_iff.mp different (HeapItem.eqItem_symm _ _ equal)

theorem whole_or_full (i : ℕ) (layers : List MonLayer) (oneZero : OneZero layers) :
    (candidateKeysOf (mon.headCandidates xxh tables i layers)).Pairwise
        (fun left right => left.eqItem right = false) ∧
      (Whole (mon.headCandidates xxh tables i layers) layers ∨
        (mon.headCandidates xxh tables i layers).length = mon.heapSize) := by
  induction layers generalizing i with
  | nil => exact ⟨List.Pairwise.nil, Or.inl fun _ member => absurd member List.not_mem_nil⟩
  | cons layer rest hypothesis =>
    obtain ⟨apart, wholeOrFull⟩ := hypothesis (i + 1) (oneZero_of_cons oneZero)
    obtain ⟨keysEq, apart'⟩ := mon.keysOf_cumulativeAt_of_oneZero tables oneZero apart
    refine ⟨apart', ?_⟩
    by_cases uncut : (retainedAt xxh (tables i) (mon.headCandidates xxh tables (i + 1) rest)
        layer).length ≤ mon.heapSize
    · rcases wholeOrFull with whole | full
      · exact Or.inl (mon.whole_of_uncut tables whole uncut)
      · refine Or.inr ?_
        have grown := le_length_insertKeys (tables i)
          (candidateKeysOf (mon.headCandidates xxh tables (i + 1) rest)) (HHHeap.keys layer.hh)
        rw [← keysEq, candidateKeysOf, candidateKeysOf, List.length_map, List.length_map, full,
          ← (retainedAt_perm _ _ _).length_eq] at grown
        rw [headCandidates_cons, List.take_of_length_le uncut]
        exact le_antisymm uncut grown
    · refine Or.inr ?_
      rw [headCandidates_cons, List.length_take]
      exact Nat.min_eq_left (Nat.le_of_not_le uncut)

/-! ### Levels of a pyramid -/

theorem getElem?_logicalFrom (i j : ℕ) (layers : List MonLayer) :
    (mon.logicalFrom xxh tables i layers).1[j]? =
      (mon.logicalFrom xxh tables (i + j) (layers.drop j)).1.head? := by
  induction layers generalizing i j with
  | nil =>
    rw [List.drop_nil]
    rfl
  | cons layer rest hypothesis =>
    cases j with
    | zero => rfl
    | succ j =>
      have shifted : i + (j + 1) = i + 1 + j := (Nat.succ_add_eq_add_succ i j).symm
      rw [List.drop_succ_cons, shifted, ← hypothesis]
      rfl

theorem complete_of_logicalFrom (i : ℕ) (layers : List MonLayer)
    (up : (mon.logicalFrom xxh tables i layers).2 = true) :
    ∀ layer ∈ layers, layer.complete = true := by
  induction layers generalizing i with
  | nil => exact fun _ member => absurd member List.not_mem_nil
  | cons layer rest hypothesis =>
    obtain ⟨deeper, own⟩ := (Bool.and_eq_true _ _).mp up
    intro other member
    rcases List.mem_cons.mp member with rfl | later
    · exact own
    · exact hypothesis (i + 1) deeper other later

/-- No truncation below a level goes unnoticed at it: a stratum from there on is incomplete, or
the deeper residents together fit, or the level has a resident of its own beside them and no
table takes two residents for one. -/
def NoticesTruncation (level : ℕ) : Prop :=
  (∃ layer ∈ mon.layers.drop level, layer.complete = false) ∨
  ((mon.layers.drop (level + 1)).map fun layer => layer.hh.heap.length).sum ≤ mon.heapSize ∨
  (∃ layer, mon.layers[level]? = some layer ∧ layer.hh.heap ≠ []) ∧
    OneZero (mon.layers.drop level)

/-- A level with a resident that equals none retained below is longer than what is retained
below. -/
theorem lt_length_retainedAt {i : ℕ} {layer : MonLayer} {rest : List MonLayer}
    (oneZero : OneZero (layer :: rest))
    (apart : (candidateKeysOf (mon.headCandidates xxh tables (i + 1) rest)).Pairwise
      fun left right => left.eqItem right = false)
    {first : HeapItem} {others : List HeapItem} (residents : HHHeap.keys layer.hh = first :: others)
    (fresh : ∀ stored ∈ candidateKeysOf (mon.headCandidates xxh tables (i + 1) rest),
      stored.eqItem first = false) :
    (mon.headCandidates xxh tables (i + 1) rest).length <
      (retainedAt xxh (tables i) (mon.headCandidates xxh tables (i + 1) rest) layer).length := by
  have keysEq := (mon.keysOf_cumulativeAt_of_oneZero tables oneZero apart).1
  have grown := le_length_insertKeys (tables i)
    (candidateKeysOf (mon.headCandidates xxh tables (i + 1) rest) ++ [first]) others
  have appended : (tables i).insertKey
      (candidateKeysOf (mon.headCandidates xxh tables (i + 1) rest)) first =
        candidateKeysOf (mon.headCandidates xxh tables (i + 1) rest) ++ [first] :=
    insertKey_of_fresh fresh
  rw [← appended, ← insertKeys_cons, ← residents, ← keysEq, appended, List.length_append, List.length_singleton, candidateKeysOf,
    candidateKeysOf, List.length_map, List.length_map] at grown
  rw [(retainedAt_perm _ _ _).length_eq]
  exact grown

theorem Built.ne_of_strata [MonLayout Layout] [DecidableEq Layout] {keys : List HeapItem}
    (built : Built xxh .terminal mon keys) {i j : ℕ} {left right : MonLayer}
    (leftEq : mon.layers[i]? = some left) (rightEq : mon.layers[j]? = some right)
    (different : i ≠ j) {first second : HeapItem} (leftResident : first ∈ HHHeap.keys left.hh)
    (rightResident : second ∈ HHHeap.keys right.hh) : first ≠ second := by
  intro same
  have leftBottom := ((built.allHold i left leftEq).offered first leftResident).2
  have rightBottom := ((built.allHold j right rightEq).offered second rightResident).2
  rw [UpdateMode.Reaches, if_pos rfl] at leftBottom rightBottom
  exact different (leftBottom.trans (same ▸ rightBottom.symm))

/-- In every pyramid that terminal inserts and merges build, a level at which no truncation goes
unnoticed holds every key ever inserted whose bottom layer is at least that level, if its flag is
up. -/
theorem logical_complete_of_notices [MonLayout Layout] [DecidableEq Layout] {keys : List HeapItem}
    (built : Built xxh .terminal mon keys) {level : ℕ} {logical : LogicalLevel}
    (levelEq : (mon.logicalTerminalCandidates xxh tables)[level]? = some logical)
    (notices : mon.NoticesTruncation level) (up : logical.complete = true) :
    ∀ key ∈ keys, level ≤ bottomOf xxh mon.layerSize key →
      Held HeapItem.eqItem (candidateKeysOf logical.candidates) key := by
  rw [logicalTerminalCandidates, getElem?_logicalFrom, Nat.zero_add] at levelEq
  cases dropped : mon.layers.drop level with
  | nil =>
    rw [dropped] at levelEq
    exact absurd levelEq (Option.some_ne_none logical).symm
  | cons layer rest =>
    rw [dropped] at levelEq
    have inside : level < mon.layers.length := by
      have nonempty : 0 < (mon.layers.drop level).length := by
        rw [dropped]
        exact Nat.succ_pos _
      rw [List.length_drop] at nonempty
      exact Nat.lt_of_sub_pos nonempty
    have layerEq : mon.layers[level]? = some layer := by
      rw [← List.head?_drop, dropped]
      rfl
    have restEq : mon.layers.drop (level + 1) = rest := by
      rw [← List.tail_drop, dropped]
      rfl
    cases Option.some.inj levelEq
    obtain ⟨allComplete, fits⟩ := (Bool.and_eq_true _ _).mp up
    have uncut := of_decide_eq_true fits
    have complete := mon.complete_of_logicalFrom tables level (layer :: rest) allComplete
    have whole : Whole (mon.headCandidates xxh tables (level + 1) rest) rest := by
      rcases notices with ⟨other, member, down⟩ | small | ⟨⟨own, ownEq, nonempty⟩, oneZero⟩
      · rw [dropped] at member
        exact absurd (complete other member) (by rw [down]; exact Bool.false_ne_true)
      · rw [restEq] at small
        exact (mon.whole_of_fits tables (level + 1) rest small).1
      · cases Option.some.inj (layerEq.symm.trans ownEq)
        rw [dropped] at oneZero
        obtain ⟨apart, wholeOrFull⟩ :=
          mon.whole_or_full tables (level + 1) rest (oneZero_of_cons oneZero)
        refine wholeOrFull.resolve_right fun full => ?_
        obtain ⟨item, items, split⟩ := List.exists_cons_of_ne_nil nonempty
        have residents : HHHeap.keys layer.hh = item.key :: items.map HHItem.key := by
          rw [HHHeap.keys, split, List.map_cons]
        have isResident : item.key ∈ HHHeap.keys layer.hh := by
          rw [residents]
          exact List.mem_cons_self
        refine absurd uncut (Nat.not_le.mpr (full ▸ mon.lt_length_retainedAt tables oneZero apart
          residents fun stored isStored => Bool.eq_false_iff.mpr fun equal => ?_))
        obtain ⟨other, otherMember, otherResident⟩ :=
          mon.mem_headCandidates tables (level + 1) rest stored isStored
        obtain ⟨place, placeEq⟩ := List.getElem?_of_mem (restEq ▸ otherMember)
        rw [List.getElem?_drop] at placeEq
        exact built.ne_of_strata mon placeEq layerEq (by omega) otherResident isResident
          (oneZero other (List.mem_cons_of_mem layer otherMember) layer List.mem_cons_self stored
            otherResident item.key isResident equal)
    have wholeHere := mon.whole_of_uncut tables whole uncut
    intro key member reached
    have bottomInside : bottomOf xxh mon.layerSize key < mon.layers.length :=
      bottomLayerForHash_lt _ (Nat.zero_lt_of_lt inside)
    obtain ⟨stratum, stratumEq⟩ : ∃ stratum,
        mon.layers[bottomOf xxh mon.layerSize key]? = some stratum :=
      ⟨_, List.getElem?_eq_getElem bottomInside⟩
    have stratumMember : stratum ∈ layer :: rest := by
      rw [← dropped]
      refine List.mem_of_getElem? (i := bottomOf xxh mon.layerSize key - level) ?_
      rw [List.getElem?_drop, Nat.add_sub_cancel' reached]
      exact stratumEq
    have held := (built.allHold _ stratum stratumEq).holds (complete stratum stratumMember) key
      ⟨member, by rw [UpdateMode.Reaches, if_pos rfl]⟩
    exact held.trans HeapItem.eqItem_trans (wholeHere stratum stratumMember)

/-- One insert: level `0` of two has no resident, and nothing to forget. -/
theorem logical_complete_of_notices_single :
    ∃ (mon : UnivMon) (logical : LogicalLevel), Built plainXxHash .terminal mon [.u64 2] ∧
      (mon.logicalTerminalCandidates plainXxHash fun _ => .searching HeapItem.eqItem)[0]? =
        some logical ∧ Held HeapItem.eqItem (candidateKeysOf logical.candidates) (.u64 2) := by
  have created : create (⟨1, 1⟩ : UnivMonLayout) 1 2 = some _ := rfl
  have built : Built plainXxHash .terminal _ [.u64 2] := .fastInsert (.u64 2) 1 rfl (.create created) rfl
  refine ⟨_, ⟨[(.u64 2, 1)], true⟩, built, by decide +kernel, ?_⟩
  exact logical_complete_of_notices _ (fun _ => .searching HeapItem.eqItem) built
    (show _ = some ⟨[(.u64 2, 1)], true⟩ by decide +kernel) (Or.inr (Or.inl (by decide +kernel))) rfl
    _ List.mem_cons_self (Nat.zero_le _)

/-- The flags alone do not say that a level is complete: two keys share the deeper strata of
three, with a capacity of one, and level `0` has no resident to show that one of them was cut. -/
theorem logical_truncation_forgotten :
    ¬ ∀ (mon : UnivMon) (keys : List HeapItem) (level : ℕ) (logical : LogicalLevel),
      Built plainXxHash .terminal mon keys →
      (mon.logicalTerminalCandidates plainXxHash fun _ => .searching HeapItem.eqItem)[level]? =
        some logical → logical.complete = true →
      ∀ key ∈ keys, level ≤ bottomOf plainXxHash mon.layerSize key →
        Held HeapItem.eqItem (candidateKeysOf logical.candidates) key := by
  intro claimed
  have created : create (⟨1, 1⟩ : UnivMonLayout) 1 3 = some _ := rfl
  have built : Built plainXxHash .terminal _ [.u64 6, .u64 2] :=
    .fastInsert (.u64 6) 1 rfl (.fastInsert (.u64 2) 1 rfl (.create created) rfl) rfl
  have held := claimed _ _ 0 ⟨[(.u64 2, 1)], true⟩ built (by decide +kernel) rfl _ List.mem_cons_self
    (Nat.zero_le _)
  exact absurd held (by decide)

end LayeredMon

end AsapSketchlib
