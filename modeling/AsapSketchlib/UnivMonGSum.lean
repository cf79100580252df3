/-
This file proves that the recurrence of UnivMon sums exactly. Every key that reaches a level is
counted there once if its path ends at the level, and otherwise cancels the second copy that
doubling the deeper sum makes of it. So with complete candidate sets and exact estimates the sum
of a function over all keys comes out, whether the levels are kept by standard updates or put
together from terminal strata.

Keys are told apart by their bits. A NaN equals not even itself and is seated anew each time, so
a stream may hold a NaN key once; and a hash map may take the two zeros of a floating-point type
for one key.
-/

import AsapSketchlib.UnivMonTerminal
import Mathlib.Algebra.Order.BigOperators.Group.List

namespace AsapSketchlib

/-! ### The layer selector -/

theorem hashBit_lt (hash : BitVec 64) (l : ℕ) : hashBit hash l < 2 := by
  rw [hashBit, BitVec.toNat_and]
  exact Nat.lt_succ_of_le Nat.and_le_right

theorem le_bottomLayerForHash_iff (hash : BitVec 64) {layerSize i : ℕ} (inside : i < layerSize) :
    i ≤ bottomLayerForHash hash layerSize ↔ ∀ l, 1 ≤ l → l ≤ i → hashBit hash l ≠ 0 := by
  unfold bottomLayerForHash
  cases found : (List.range' 1 (layerSize - 1)).find? fun l => hashBit hash l = 0 with
  | none =>
    have allSet := List.find?_range'_eq_none.mp found
    refine ⟨fun _ l positive reached zero => ?_, fun _ => Nat.le_pred_of_lt inside⟩
    have isSet := allSet l positive (by omega)
    rw [zero] at isSet
    exact absurd isSet (by decide)
  | some first =>
    obtain ⟨zero, member, before⟩ := List.find?_range'_eq_some.mp found
    have positive := (List.mem_range'_1.mp member).1
    show i ≤ first - 1 ↔ _
    refine ⟨fun reached l lPositive lReached lZero => ?_, fun allSet => ?_⟩
    · have isSet := before l lPositive (by omega)
      rw [lZero] at isSet
      exact absurd isSet (by decide)
    · by_contra beyond
      exact allSet first positive (by omega) (of_decide_eq_true zero)

theorem succ_le_bottomLayerForHash_iff (hash : BitVec 64) {layerSize i : ℕ}
    (inside : i + 1 < layerSize) : i + 1 ≤ bottomLayerForHash hash layerSize ↔
      i ≤ bottomLayerForHash hash layerSize ∧ hashBit hash (i + 1) = 1 := by
  have bit := hashBit_lt hash (i + 1)
  rw [le_bottomLayerForHash_iff hash inside, le_bottomLayerForHash_iff hash (Nat.lt_of_succ_lt inside)]
  constructor
  · intro allSet
    have last := allSet (i + 1) (Nat.le_add_left 1 i) (Nat.le_refl _)
    exact ⟨fun l positive reached => allSet l positive (Nat.le_succ_of_le reached), by omega⟩
  · rintro ⟨allSet, last⟩ l positive reached
    rcases Nat.le_succ_iff.mp reached with earlier | rfl
    · exact allSet l positive earlier
    · rw [last]
      exact Nat.one_ne_zero

/-! ### The recurrence -/

namespace LayeredMon

variable {Layout : Type} {xxh : XxHash3} {R : Type} [Ring R]

/-- The sum of a function over the entries that reach a level. -/
def sumFrom (xxh : XxHash3) (layerSize : ℕ) (g : ℤ → R) (entries : List (HeapItem × ℤ)) (i : ℕ) : R :=
  ((entries.filter fun entry => i ≤ bottomOf xxh layerSize entry.1).map fun entry => g entry.2).sum

/-- Doubling the sum of a level and adding the corrections gives the sum of the level above. -/
theorem sumFrom_succ {layerSize i : ℕ} (inside : i + 1 < layerSize) (g : ℤ → R)
    (entries : List (HeapItem × ℤ)) :
    2 * sumFrom xxh layerSize g entries (i + 1) +
        ((entries.filter fun entry => i ≤ bottomOf xxh layerSize entry.1).map fun entry =>
          (1 - 2 * (hashBit (hashItem64Seeded xxh bottomLayerFinder entry.1) (i + 1) : R)) *
            g entry.2).sum =
      sumFrom xxh layerSize g entries i := by
  unfold sumFrom
  induction entries with
  | nil => simp only [List.filter_nil, List.map_nil, List.sum_nil, mul_zero, add_zero]
  | cons entry rest hypothesis =>
    have next : i + 1 ≤ bottomOf xxh layerSize entry.1 ↔ i ≤ bottomOf xxh layerSize entry.1 ∧
        hashBit (hashItem64Seeded xxh bottomLayerFinder entry.1) (i + 1) = 1 :=
      succ_le_bottomLayerForHash_iff _ inside
    by_cases reached : i ≤ bottomOf xxh layerSize entry.1
    · by_cases bit : hashBit (hashItem64Seeded xxh bottomLayerFinder entry.1) (i + 1) = 1
      · have deeper : i + 1 ≤ bottomOf xxh layerSize entry.1 := next.mpr ⟨reached, bit⟩
        simp only [List.filter_cons, decide_eq_true reached, decide_eq_true deeper, if_true,
          List.map_cons, List.sum_cons, bit, Nat.cast_one]
        rw [← hypothesis]
        simp only [mul_one, two_mul, sub_mul, one_mul, add_mul]
        abel
      · have zero : hashBit (hashItem64Seeded xxh bottomLayerFinder entry.1) (i + 1) = 0 := by
          have small := hashBit_lt (hashItem64Seeded xxh bottomLayerFinder entry.1) (i + 1)
          omega
        have shallow : ¬ i + 1 ≤ bottomOf xxh layerSize entry.1 := fun deeper =>
          bit (next.mp deeper).2
        simp only [List.filter_cons, decide_eq_true reached, decide_eq_false shallow, if_true,
          if_false, Bool.false_eq_true, List.map_cons, List.sum_cons, zero, Nat.cast_zero, mul_zero,
          sub_zero, one_mul]
        rw [← hypothesis]
        abel
    · have shallow : ¬ i + 1 ≤ bottomOf xxh layerSize entry.1 := fun deeper =>
        reached (next.mp deeper).1
      simp only [List.filter_cons, decide_eq_false reached, decide_eq_false shallow, if_false,
        Bool.false_eq_true]
      exact hypothesis

theorem recurrence_eq_sumFrom {layerSize : ℕ} (g : ℤ → R) (entries : List (HeapItem × ℤ))
    (levels : List (List (HeapItem × ℤ))) {i : ℕ} (total : i + levels.length = layerSize)
    (nonempty : levels ≠ [])
    (exactLevels : ∀ (j : ℕ) (level : List (HeapItem × ℤ)), levels[j]? = some level → level.Perm
      (entries.filter fun entry => i + j ≤ bottomOf xxh layerSize entry.1)) :
    recurrence xxh g i levels = sumFrom xxh layerSize g entries i := by
  induction levels generalizing i with
  | nil => exact absurd rfl nonempty
  | cons level rest hypothesis =>
    have here := exactLevels 0 level rfl
    rw [Nat.add_zero] at here
    cases rest with
    | nil => exact (here.map fun entry => g entry.2).sum_eq
    | cons next rest =>
      rw [List.length_cons, List.length_cons] at total
      have deeper : recurrence xxh g (i + 1) (next :: rest) =
          sumFrom xxh layerSize g entries (i + 1) := by
        refine hypothesis ?_ (List.cons_ne_nil next rest) fun j level levelEq => ?_
        · rw [List.length_cons]
          omega
        · have shifted : i + 1 + j = i + (j + 1) := Nat.succ_add_eq_add_succ i j
          rw [shifted]
          exact exactLevels (j + 1) level levelEq
      rw [recurrence, deeper, (here.map _).sum_eq]
      exact sumFrom_succ (by omega) g entries

/-! ### Streams -/

/-- The keys of a stream of weighted updates, as the heaps store them. -/
def ownedKeys (stream : List (DataInput × ℤ)) : List HeapItem :=
  stream.map fun update => inputToOwned update.1

def weightOf (stream : List (DataInput × ℤ)) (key : HeapItem) : ℤ :=
  ((stream.filter fun update => inputToOwned update.1 = key).map Prod.snd).sum

def distinctKeys (stream : List (DataInput × ℤ)) : List (HeapItem × ℤ) :=
  (ownedKeys stream).dedup.map fun key => (key, weightOf stream key)

def weightedKeys (stream : List (DataInput × ℤ)) : List (HeapItem × ℤ) :=
  (distinctKeys stream).filter fun entry => 0 < entry.2

/-- The sum of a function over the weights of all distinct keys of positive weight. -/
def exactGSum (g : ℤ → R) (stream : List (DataInput × ℤ)) : R :=
  ((weightedKeys stream).map fun entry => g entry.2).sum

def NanOnce (stream : List (DataInput × ℤ)) : Prop :=
  ((ownedKeys stream).filter HeapItem.isNan).Nodup

/-- Keys that are equal are identical: there are not both zeros of a floating-point type. -/
def IdenticalIfEqual (stream : List (DataInput × ℤ)) : Prop :=
  ∀ left ∈ ownedKeys stream, ∀ right ∈ ownedKeys stream, left.eqItem right = true → left = right

/-- The state after a stream of updates. -/
def feed (operation : LayeredMon Layout → DataInput → ℤ → Option (LayeredMon Layout))
    (start : LayeredMon Layout) (stream : List (DataInput × ℤ)) : Option (LayeredMon Layout) :=
  stream.foldlM (fun mon update => operation mon update.1 update.2) start

/-- Every layer has kept all its keys, and its sketch estimates them exactly. -/
def ExactLayers (xxh : XxHash3) (stream : List (DataInput × ℤ)) (mon : LayeredMon Layout) : Prop :=
  ∀ layer ∈ mon.layers, layer.complete = true ∧
    ∀ key ∈ HHHeap.keys layer.hh, layer.l2Sketch.countOf xxh key = weightOf stream key

/-! ### What the layers retain -/

/-- Each layer retains the keys it was offered as a bounded set does. -/
def AllRetain (xxh : XxHash3) (mode : UpdateMode) (mon : LayeredMon Layout)
    (offered : List HeapItem) : Prop :=
  ∀ (i : ℕ) (layer : MonLayer), mon.layers[i]? = some layer →
    HHHeap.Indexed xxh layer.hh ∧ layer.hh.k = mon.heapSize ∧
      Retention mon.heapSize
        (offered.filter fun key => mode.Reaches i (bottomOf xxh mon.layerSize key))
        (HHHeap.keys layer.hh) layer.complete

theorem Updated.allRetain {mode : UpdateMode} {before after : LayeredMon Layout}
    {key : DataInput} {value : ℤ} (updated : Updated xxh mode before after key value)
    {offered : List HeapItem} (allRetain : AllRetain xxh mode before offered)
    (known : (inputToOwned key).isNan = false ∨ inputToOwned key ∉ offered) :
    AllRetain xxh mode after (inputToOwned key :: offered) := by
  intro i layer layerEq
  rw [updated.layers i] at layerEq
  obtain ⟨earlier, earlierEq, rfl⟩ := Option.map_eq_some_iff.mp layerEq
  obtain ⟨indexed, capacity, retention⟩ := allRetain i earlier earlierEq
  rw [updated.heapSize, updated.layerSize_eq, List.filter_cons]
  by_cases reached : mode.Reaches i (bottomOf xxh before.layerSize (inputToOwned key))
  · rw [if_pos reached, if_pos (decide_eq_true reached)]
    obtain ⟨offer, indexed', capacity'⟩ := HHHeap.updateHeapItem_spec indexed (inputToOwned key)
      (f64AsI64 (earlier.l2Sketch.updateAndEst xxh key value).2)
    rw [← HHHeap.update_eq_updateHeapItem] at offer indexed' capacity'
    rw [← capacity] at retention ⊢
    refine ⟨indexed', capacity', offer.retention (known.imp_right fun new member => ?_) retention⟩
    exact new (List.mem_of_mem_filter member)
  · rw [if_neg reached, if_neg (by simpa using reached)]
    exact ⟨indexed, capacity, retention⟩

theorem allRetain_feed {mode : UpdateMode}
    {operation : LayeredMon Layout → DataInput → ℤ → Option (LayeredMon Layout)}
    (updates : ∀ before key value after, operation before key value = some after →
      Updated xxh mode before after key value)
    (stream : List (DataInput × ℤ)) {start mon : LayeredMon Layout} {offered : List HeapItem}
    (allRetain : AllRetain xxh mode start offered)
    (nanOnce : ((offered ++ ownedKeys stream).filter HeapItem.isNan).Nodup)
    (fed : feed operation start stream = some mon) :
    AllRetain xxh mode mon ((ownedKeys stream).reverse ++ offered) ∧
      mon.heapSize = start.heapSize ∧ mon.layerSize = start.layerSize := by
  induction stream generalizing start offered with
  | nil =>
    cases Option.some.inj fed
    exact ⟨allRetain, rfl, rfl⟩
  | cons update rest hypothesis =>
    obtain ⟨next, stepped, fedRest⟩ := Option.bind_eq_some_iff.mp fed
    have updated := updates start update.1 update.2 next stepped
    have known : (inputToOwned update.1).isNan = false ∨ inputToOwned update.1 ∉ offered := by
      cases nan : (inputToOwned update.1).isNan with
      | false => exact Or.inl rfl
      | true =>
        refine Or.inr fun member => ?_
        rw [List.filter_append] at nanOnce
        refine (List.nodup_append'.mp nanOnce).2.2 (List.mem_filter.mpr ⟨member, nan⟩) ?_
        exact List.mem_filter.mpr ⟨List.mem_cons_self, nan⟩
    have moved : (inputToOwned update.1 :: offered ++ ownedKeys rest).Perm
        (offered ++ ownedKeys (update :: rest)) := List.perm_middle.symm
    obtain ⟨retained, sameSize, sameLength⟩ := hypothesis
      (updated.allRetain allRetain known) ((moved.filter _).nodup_iff.mpr nanOnce) fedRest
    rw [ownedKeys, List.map_cons, List.reverse_cons, List.append_assoc]
    exact ⟨retained, sameSize.trans updated.heapSize, sameLength.trans updated.layerSize_eq⟩

theorem allRetain_create [MonLayout Layout] {layout : Layout} {heapSize layerSize : ℕ}
    {start : LayeredMon Layout} (created : create layout heapSize layerSize = some start)
    (mode : UpdateMode) : AllRetain xxh mode start [] := by
  obtain ⟨-, -, rfl⟩ := create_spec created
  intro i layer layerEq
  obtain ⟨index, -, rfl⟩ := List.mem_map.mp (List.mem_of_getElem? layerEq)
  exact ⟨HHHeap.indexed_new heapSize, rfl, Retention.empty heapSize⟩

/-! ### The total weight -/

/-- What the guard of an update says of the state after it. -/
structure Began (mode : UpdateMode) (before after : LayeredMon Layout) (value : ℤ) : Prop where
  positive : 0 ≤ value
  total : after.bucketSize = before.bucketSize + value.toNat
  mode : after.updateMode = mode

theorem beginUpdate_began {before begun : LayeredMon Layout} {value : ℤ} {mode : UpdateMode}
    (began : before.beginUpdate value mode = some begun) : Began mode before begun value := by
  unfold beginUpdate at began
  split at began
  · exact absurd began (Option.some_ne_none begun).symm
  · rename_i positive
    split at began
    · exact absurd began (Option.some_ne_none begun).symm
    · split at began
      · exact absurd began (Option.some_ne_none begun).symm
      · cases Option.some.inj began
        exact ⟨not_lt.mp positive, rfl, rfl⟩

theorem insert_began {before after : LayeredMon Layout} {key : DataInput} {value : ℤ}
    (inserted : before.insert xxh key value = some after) :
    Began .standard before after value := by
  obtain ⟨begun, began, rfl⟩ := Option.map_eq_some_iff.mp inserted
  obtain ⟨positive, total, mode⟩ := beginUpdate_began began
  exact ⟨positive, total, mode⟩

theorem total_feed (stream : List (DataInput × ℤ)) {start mon : LayeredMon Layout}
    (fed : feed (fun mon => mon.insert xxh) start stream = some mon) :
    (∀ update ∈ stream, 0 ≤ update.2) ∧
      (mon.bucketSize : ℤ) = start.bucketSize + (stream.map Prod.snd).sum ∧
      (start.updateMode ≠ .terminal → mon.updateMode ≠ .terminal) := by
  induction stream generalizing start with
  | nil =>
    cases Option.some.inj fed
    exact ⟨fun _ member => absurd member List.not_mem_nil, (add_zero _).symm, id⟩
  | cons update rest hypothesis =>
    obtain ⟨next, stepped, fedRest⟩ := Option.bind_eq_some_iff.mp fed
    have began := insert_began stepped
    obtain ⟨positive, total, mode⟩ := hypothesis fedRest
    refine ⟨fun other member => ?_, ?_, fun _ => mode ?_⟩
    · rcases List.mem_cons.mp member with rfl | later
      · exact began.positive
      · exact positive other later
    · rw [total, began.total, Nat.cast_add, Int.toNat_of_nonneg began.positive, List.map_cons,
        List.sum_cons, add_assoc]
    · rw [began.mode]
      exact UpdateMode.noConfusion

theorem weightedKeys_of_total_zero {stream : List (DataInput × ℤ)}
    (positive : ∀ update ∈ stream, 0 ≤ update.2) (zero : (stream.map Prod.snd).sum = 0) :
    weightedKeys stream = [] := by
  refine List.filter_eq_nil_iff.mpr fun entry member => ?_
  obtain ⟨key, -, rfl⟩ := List.mem_map.mp member
  have part : weightOf stream key ≤ (stream.map Prod.snd).sum := by
    refine (List.filter_sublist.map Prod.snd).sum_le_sum fun value isValue => ?_
    obtain ⟨update, isUpdate, rfl⟩ := List.mem_map.mp isValue
    exact positive update isUpdate
  rw [zero] at part
  exact fun isPositive => absurd part (not_le.mpr (of_decide_eq_true isPositive))

/-! ### The candidates of a layer -/

/-- A layer that kept everything, with exact estimates, has exactly the keys that reach it as
candidates. -/
theorem candidates_perm {mode : UpdateMode} {mon : LayeredMon Layout}
    {stream : List (DataInput × ℤ)}
    (allRetain : AllRetain xxh mode mon ((ownedKeys stream).reverse ++ []))
    (exactLayers : ExactLayers xxh stream mon) {i : ℕ} {layer : MonLayer}
    (layerEq : mon.layers[i]? = some layer) :
    (layer.candidates xxh).Perm ((distinctKeys stream).filter fun entry =>
      mode.Reaches i (bottomOf xxh mon.layerSize entry.1)) := by
  obtain ⟨-, -, retention⟩ := allRetain i layer layerEq
  obtain ⟨complete, exactCounts⟩ := exactLayers layer (List.mem_of_getElem? layerEq)
  have keysPerm : (HHHeap.keys layer.hh).Perm ((ownedKeys stream).dedup.filter fun key =>
      mode.Reaches i (bottomOf xxh mon.layerSize key)) := by
    refine (List.perm_ext_iff_of_nodup retention.distinct
      ((List.nodup_dedup _).filter _)).mpr fun key => ?_
    rw [List.mem_filter, List.mem_dedup]
    have inOffered : key ∈ ((ownedKeys stream).reverse ++ []).filter (fun key =>
        mode.Reaches i (bottomOf xxh mon.layerSize key)) ↔ key ∈ ownedKeys stream ∧
          decide (mode.Reaches i (bottomOf xxh mon.layerSize key)) = true := by
      rw [List.append_nil, List.mem_filter, List.mem_reverse]
    rw [← inOffered]
    exact ⟨retention.subset key, retention.whole complete key⟩
  have candidatesEq : layer.candidates xxh =
      (HHHeap.keys layer.hh).map fun key => (key, weightOf stream key) := by
    rw [MonLayer.candidates, HHHeap.keys, List.map_map]
    refine List.map_congr_left fun item member => ?_
    exact congrArg (Prod.mk item.key) (exactCounts item.key (List.mem_map.mpr ⟨item, member, rfl⟩))
  rw [candidatesEq, distinctKeys, List.filter_map]
  exact keysPerm.map _

theorem sumFrom_zero (xxh : XxHash3) (layerSize : ℕ) (g : ℤ → R) (stream : List (DataInput × ℤ)) :
    sumFrom xxh layerSize g (weightedKeys stream) 0 = exactGSum g stream := by
  unfold sumFrom exactGSum
  rw [List.filter_eq_self.mpr fun _ _ => decide_eq_true (Nat.zero_le _)]

theorem heavyThreshold_of_complete (mon : LayeredMon Layout) (l2 : ℚ) :
    mon.heavyThreshold l2 true = 0 := rfl

theorem calcGSumHeuristic_eq {mon : LayeredMon Layout} {stream : List (DataInput × ℤ)}
    {start : LayeredMon Layout} (fresh : start.bucketSize = 0) (unset : start.updateMode ≠ .terminal)
    (fed : feed (fun mon => mon.insert xxh) start stream = some mon) (nonempty : 0 < mon.layerSize)
    (allRetain : AllRetain xxh .standard mon ((ownedKeys stream).reverse ++ []))
    (exactLayers : ExactLayers xxh stream mon)
    (tables : ℕ → HashTable HeapItem HeapItem.eqItem) (g : ℤ → R) (isCard : Bool) :
    mon.calcGSumHeuristic xxh tables g isCard = exactGSum g stream := by
  obtain ⟨positive, total, mode⟩ := total_feed stream fed
  unfold calcGSumHeuristic
  by_cases empty : mon.bucketSize = 0
  · rw [if_pos empty]
    have zero : (stream.map Prod.snd).sum = 0 := by
      rw [empty, fresh] at total
      omega
    rw [exactGSum, weightedKeys_of_total_zero positive zero]
    rfl
  · rw [if_neg empty, if_neg (mode unset), ← sumFrom_zero xxh mon.layerSize]
    refine recurrence_eq_sumFrom g _ _ ?_ ?_ fun j level levelEq => ?_
    · rw [Nat.zero_add, List.length_map]
      rfl
    · intro none
      rw [layerSize, List.map_eq_nil_iff.mp none] at nonempty
      exact absurd nonempty (Nat.lt_irrefl 0)
    · rw [List.getElem?_map] at levelEq
      obtain ⟨layer, layerEq, rfl⟩ := Option.map_eq_some_iff.mp levelEq
      have complete := (exactLayers layer (List.mem_of_getElem? layerEq)).1
      have threshold : (if isCard = true then
          mon.heavyThreshold layer.l2Sketch.getL2 layer.complete else 0) = 0 := by
        rw [complete, heavyThreshold_of_complete, ite_self]
      simp only [heavyCandidates, threshold, Nat.zero_add]
      refine ((candidates_perm allRetain exactLayers layerEq).filter _).trans ?_
      rw [weightedKeys, List.filter_filter, List.filter_filter]
      refine List.Perm.of_eq (List.filter_congr fun entry _ => ?_)
      rw [Bool.and_comm]
      rfl

/-! ### Levels put together from strata -/

theorem apart_distinctKeys {stream : List (DataInput × ℤ)} (identical : IdenticalIfEqual stream) :
    ((distinctKeys stream).map Prod.fst).Pairwise fun left right => left.eqItem right = false := by
  have keysEq : (distinctKeys stream).map Prod.fst = (ownedKeys stream).dedup := by
    rw [distinctKeys, List.map_map]
    exact List.map_id _
  rw [keysEq]
  refine (List.nodup_dedup (ownedKeys stream)).imp_of_mem ?_
  intro left right leftMember rightMember different
  refine Bool.eq_false_iff.mpr fun equal => different ?_
  exact identical left (List.mem_dedup.mp leftMember) right (List.mem_dedup.mp rightMember) equal

section

variable (mon : LayeredMon Layout) (tables : ℕ → HashTable HeapItem HeapItem.eqItem)

/-- The first level put together from strata that each have exactly the keys that end there. -/
theorem logicalFrom_head {entries : List (HeapItem × ℤ)}
    (apart : (entries.map Prod.fst).Pairwise fun left right => left.eqItem right = false)
    (fits : entries.length ≤ mon.heapSize) {size : ℕ} (someLayer : 0 < size)
    (layers : List MonLayer) {i : ℕ} (total : i + layers.length = size)
    (strata : ∀ (j : ℕ) (layer : MonLayer), layers[j]? = some layer → layer.complete = true ∧
      (layer.candidates xxh).Perm (entries.filter fun entry => i + j = bottomOf xxh size entry.1)) :
    (mon.headCandidates xxh tables i layers).Perm
        (entries.filter fun entry => i ≤ bottomOf xxh size entry.1) ∧
      (mon.logicalFrom xxh tables i layers).2 = true ∧
      ∀ level, (mon.logicalFrom xxh tables i layers).1.head? = some level →
        level.complete = true := by
  induction layers generalizing i with
  | nil =>
    have none : entries.filter (fun entry => i ≤ bottomOf xxh size entry.1) = [] := by
      refine List.filter_eq_nil_iff.mpr fun entry _ => ?_
      have below : bottomOf xxh size entry.1 < size := bottomLayerForHash_lt _ someLayer
      rw [List.length_nil, Nat.add_zero] at total
      rw [decide_eq_true_eq]
      omega
    rw [none]
    exact ⟨List.Perm.refl _, rfl, fun level impossible => absurd impossible.symm (Option.some_ne_none level)⟩
  | cons layer rest hypothesis =>
    rw [List.length_cons] at total
    obtain ⟨below, allComplete, -⟩ := hypothesis (i := i + 1) (by omega)
      fun j deeper deeperEq => by
        have shifted : i + 1 + j = i + (j + 1) := Nat.succ_add_eq_add_succ i j
        rw [shifted]
        exact strata (j + 1) deeper deeperEq
    obtain ⟨complete, own⟩ := strata 0 layer rfl
    rw [Nat.add_zero] at own
    have joined : (mon.headCandidates xxh tables (i + 1) rest ++ layer.candidates xxh).Perm
        (entries.filter fun entry => i ≤ bottomOf xxh size entry.1) := by
      refine (below.append own).trans ?_
      have split := List.filter_append_perm (fun entry => decide (i + 1 ≤ bottomOf xxh size entry.1))
        (entries.filter fun entry => i ≤ bottomOf xxh size entry.1)
      rw [List.filter_filter, List.filter_filter] at split
      refine (List.Perm.of_eq ?_).trans split
      refine congrArg₂ (· ++ ·) (List.filter_congr fun entry _ => ?_)
        (List.filter_congr fun entry _ => ?_)
      · rw [Bool.eq_iff_iff]
        simp only [Bool.and_eq_true, decide_eq_true_eq]
        omega
      · rw [Bool.eq_iff_iff]
        simp only [Bool.and_eq_true, Bool.not_eq_true', decide_eq_true_eq, decide_eq_false_iff_not]
        omega
    have symmetric : ∀ {left right : HeapItem}, left.eqItem right = false →
        right.eqItem left = false := by
      intro left right different
      exact Bool.eq_false_iff.mpr fun equal =>
        Bool.eq_false_iff.mp different (HeapItem.eqItem_symm _ _ equal)
    have joinedApart : ((mon.headCandidates xxh tables (i + 1) rest ++
        layer.candidates xxh).map Prod.fst).Pairwise
          fun left right : HeapItem => left.eqItem right = false :=
      (joined.map Prod.fst).symm.pairwise (apart.sublist (List.filter_sublist.map Prod.fst))
        symmetric
    have cumulative : cumulativeAt xxh (tables i) (mon.headCandidates xxh tables (i + 1) rest) layer =
        mon.headCandidates xxh tables (i + 1) rest ++ layer.candidates xxh := by
      have belowApart : (([] ++ mon.headCandidates xxh tables (i + 1) rest).map Prod.fst).Pairwise
          fun left right : HeapItem => left.eqItem right = false := by
        rw [List.map_append] at joinedApart
        exact (List.pairwise_append.mp joinedApart).1
      rw [cumulativeAt, HashTable.collectMap, HashTable.upsertAll_of_apart _ belowApart,
        List.nil_append, HashTable.upsertAll_of_apart _ joinedApart]
    have retained : (retainedAt xxh (tables i) (mon.headCandidates xxh tables (i + 1) rest)
        layer).Perm (entries.filter fun entry => i ≤ bottomOf xxh size entry.1) :=
      (retainedAt_perm _ _ _).trans (cumulative ▸ joined)
    have uncut : (retainedAt xxh (tables i) (mon.headCandidates xxh tables (i + 1) rest)
        layer).length ≤ mon.heapSize := by
      rw [retained.length_eq]
      exact (List.length_filter_le _ _).trans fits
    have allHere : ((mon.logicalFrom xxh tables (i + 1) rest).2 && layer.complete) = true :=
      (Bool.and_eq_true _ _).mpr ⟨allComplete, complete⟩
    refine ⟨?_, allHere, fun level levelEq => ?_⟩
    · rw [headCandidates_cons, List.take_of_length_le uncut]
      exact retained
    · cases Option.some.inj levelEq
      exact (Bool.and_eq_true _ _).mpr ⟨allHere, decide_eq_true uncut⟩

theorem length_logicalFrom (i : ℕ) (layers : List MonLayer) :
    (mon.logicalFrom xxh tables i layers).1.length = layers.length := by
  induction layers generalizing i with
  | nil => rfl
  | cons layer rest hypothesis => exact congrArg Nat.succ (hypothesis (i + 1))

end

theorem length_logicalL2Squared (layers : List MonLayer) :
    (logicalL2Squared layers).length = layers.length := by
  induction layers with
  | nil => rfl
  | cons layer rest hypothesis => exact congrArg Nat.succ hypothesis

theorem calcTerminalGSum_eq {mon : LayeredMon Layout} {stream : List (DataInput × ℤ)}
    (nonempty : 0 < mon.layerSize)
    (allRetain : AllRetain xxh .terminal mon ((ownedKeys stream).reverse ++ []))
    (exactLayers : ExactLayers xxh stream mon) (identical : IdenticalIfEqual stream)
    (fits : (distinctKeys stream).length ≤ mon.heapSize)
    (tables : ℕ → HashTable HeapItem HeapItem.eqItem) (g : ℤ → R) :
    mon.calcTerminalGSum xxh tables g = exactGSum g stream := by
  have lengths : (mon.logicalTerminalCandidates xxh tables).length =
      (logicalL2Squared mon.layers).length :=
    (length_logicalFrom mon tables 0 mon.layers).trans (length_logicalL2Squared mon.layers).symm
  have zipped : ((mon.logicalTerminalCandidates xxh tables).zip
      (logicalL2Squared mon.layers)).length = mon.layerSize := by
    rw [List.length_zip, lengths, Nat.min_self, length_logicalL2Squared]
    rfl
  unfold calcTerminalGSum
  rw [← sumFrom_zero xxh mon.layerSize]
  refine recurrence_eq_sumFrom g _ _ ?_ ?_ fun j level levelEq => ?_
  · rw [Nat.zero_add, List.length_map, zipped]
  · intro none
    rw [List.map_eq_nil_iff.mp none, List.length_nil] at zipped
    exact absurd zipped (Nat.ne_of_lt nonempty)
  · rw [List.getElem?_map] at levelEq
    obtain ⟨⟨logical, l2⟩, pairEq, rfl⟩ := Option.map_eq_some_iff.mp levelEq
    have logicalEq := (List.getElem?_zip_eq_some.mp pairEq).1
    have inside : j < mon.layers.length := by
      rw [← length_logicalFrom mon tables 0 mon.layers]
      exact (List.getElem?_eq_some_iff.mp logicalEq).1
    rw [logicalTerminalCandidates, getElem?_logicalFrom, Nat.zero_add] at logicalEq
    obtain ⟨perm, -, complete⟩ := mon.logicalFrom_head tables (apart_distinctKeys identical) fits
      nonempty (mon.layers.drop j) (i := j) (by rw [List.length_drop, layerSize]; omega)
      fun place layer layerEq => by
        rw [List.getElem?_drop] at layerEq
        have perm := candidates_perm allRetain exactLayers layerEq
        simp only [UpdateMode.Reaches, if_true] at perm
        exact ⟨(exactLayers layer (List.mem_of_getElem? layerEq)).1, perm⟩
    have candidatesEq : mon.headCandidates xxh tables j (mon.layers.drop j) = logical.candidates := by
      rw [headCandidates, logicalEq]
      rfl
    rw [candidatesEq] at perm
    simp only [complete logical logicalEq, heavyThreshold_of_complete, Nat.zero_add]
    refine (perm.filter _).trans ?_
    rw [weightedKeys, List.filter_filter, List.filter_filter]
    exact List.Perm.of_eq (List.filter_congr fun entry _ => Bool.and_comm _ _)

theorem layerSize_create [MonLayout Layout] {layout : Layout} {heapSize size : ℕ}
    {start : LayeredMon Layout} (created : create layout heapSize size = some start) :
    0 < size ∧ start.layerSize = size ∧ start.bucketSize = 0 ∧ start.updateMode = .unset ∧
      start.heapSize = heapSize := by
  obtain ⟨someLayer, -, rfl⟩ := create_spec created
  refine ⟨someLayer, ?_, rfl, rfl, rfl⟩
  rw [layerSize, List.length_map, List.length_range]

/-- With complete candidate sets and exact estimates, the recurrence of a pyramid fed by inserts
returns the sum over all distinct keys of positive weight, if no NaN is inserted twice; and so does
the terminal sum of a pyramid fed the same stream by fast inserts, if besides no two keys are
equal without being identical and all distinct keys fit into one heap. -/
theorem g_sum_exact {stream : List (DataInput × ℤ)} (nanOnce : NanOnce stream)
    (tables : ℕ → HashTable HeapItem HeapItem.eqItem) (g : ℤ → R) :
    (∀ (heapSize sketchRow sketchCol layerSize : ℕ) (start mon : UnivMon) (isCard : Bool),
      UnivMon.initUnivmon heapSize sketchRow sketchCol layerSize = some start →
      feed (fun mon => mon.insert xxh) start stream = some mon → ExactLayers xxh stream mon →
      mon.calcGSumHeuristic xxh tables g isCard = exactGSum g stream) ∧
    (IdenticalIfEqual stream →
      ∀ (heapSize sketchRow sketchCol layerSize : ℕ) (start mon : UnivMon),
        UnivMon.initUnivmon heapSize sketchRow sketchCol layerSize = some start →
        feed (fun mon => mon.fastInsert xxh) start stream = some mon → ExactLayers xxh stream mon →
        (ownedKeys stream).dedup.length ≤ heapSize →
        mon.calcTerminalGSum xxh tables g = exactGSum g stream) := by
  have once : (([] ++ ownedKeys stream).filter HeapItem.isNan).Nodup := nanOnce
  refine ⟨?_, ?_⟩
  · intro heapSize sketchRow sketchCol layerSize start mon isCard created fed exactLayers
    obtain ⟨retained, -, sameLength⟩ := allRetain_feed (fun _ _ _ _ => insert_spec) stream
      (allRetain_create created .standard) once fed
    obtain ⟨someLayer, startLength, fresh, unset, -⟩ := layerSize_create created
    have nonempty : 0 < mon.layerSize := sameLength ▸ startLength ▸ someLayer
    refine calcGSumHeuristic_eq fresh ?_ fed nonempty retained exactLayers tables g isCard
    rw [unset]
    exact UpdateMode.noConfusion
  · intro identical heapSize sketchRow sketchCol layerSize start mon created fed exactLayers fits
    obtain ⟨retained, sameSize, sameLength⟩ := allRetain_feed (fun _ _ _ _ => fastInsert_spec) stream
      (allRetain_create created .terminal) once fed
    obtain ⟨someLayer, startLength, -, -, startSize⟩ := layerSize_create created
    have nonempty : 0 < mon.layerSize := sameLength ▸ startLength ▸ someLayer
    refine calcTerminalGSum_eq nonempty retained exactLayers identical ?_ tables g
    rw [sameSize, startSize, distinctKeys, List.length_map]
    exact fits

/-- One key of weight three, of which a standard and a terminal pyramid return the square. -/
theorem g_sum_exact_single :
    (∃ mon : UnivMon, (UnivMon.initUnivmon 1 1 1 2).bind (fun start =>
        feed (fun mon => mon.insert plainXxHash) start [(.u64 2, 3)]) = some mon ∧
      mon.calcGSumHeuristic plainXxHash (fun _ => .searching _) (fun weight => weight * weight)
        true = 9) ∧
    ∃ mon : UnivMon, (UnivMon.initUnivmon 1 1 1 2).bind (fun start =>
        feed (fun mon => mon.fastInsert plainXxHash) start [(.u64 2, 3)]) = some mon ∧
      mon.calcTerminalGSum plainXxHash (fun _ => .searching _) (fun weight => weight * weight) =
        9 := by
  have once : NanOnce [(.u64 2, 3)] := List.nodup_nil
  have inserted : (UnivMon.initUnivmon 1 1 1 2).bind (fun start =>
      feed (fun mon => mon.insert plainXxHash) start [(.u64 2, 3)]) = some _ := rfl
  have fastInserted : (UnivMon.initUnivmon 1 1 1 2).bind (fun start =>
      feed (fun mon => mon.fastInsert plainXxHash) start [(.u64 2, 3)]) = some _ := rfl
  refine ⟨⟨_, inserted, ?_⟩, _, fastInserted, ?_⟩
  · obtain ⟨start, created, fed⟩ := Option.bind_eq_some_iff.mp inserted
    refine ((g_sum_exact once _ _).1 1 1 1 2 start _ true created fed ?_).trans (by decide)
    unfold ExactLayers
    decide +kernel
  · obtain ⟨start, created, fed⟩ := Option.bind_eq_some_iff.mp fastInserted
    refine ((g_sum_exact once _ _).2 ?_ 1 1 1 2 start _ created fed ?_ (by decide)).trans (by decide)
    · unfold IdenticalIfEqual
      decide
    · unfold ExactLayers
      decide +kernel

/-- A hash under which the two zeros of a double have different bottom layers. -/
def zerosApartXxHash : XxHash3 where
  oneshot64 := fun _ bytes =>
    Equiv.swap 0x8000000000000000#64 2#64 (plainXxHash.oneshot64 0 bytes)
  oneshot128 := plainXxHash.oneshot128
  oneshot64_inj := fun _ left right sameLength short same =>
    plainXxHash.oneshot64_inj 0 left right sameLength short (Equiv.injective _ same)

/-- Without these conditions the sums are not exact: a NaN inserted twice is seated and summed
twice, and a hash map that takes the two zeros for one key gives both weights to one of them. -/
theorem g_sum_inexact :
    (¬ ∀ (stream : List (DataInput × ℤ)) (mon : UnivMon),
      (UnivMon.initUnivmon 2 1 1 1).bind (fun start =>
        feed (fun mon => mon.insert plainXxHash) start stream) = some mon →
      ExactLayers plainXxHash stream mon →
      mon.calcGSumHeuristic plainXxHash (fun _ => .searching _) (fun weight => weight) false =
        exactGSum (fun weight => weight) stream) ∧
    ¬ ∀ (stream : List (DataInput × ℤ)) (mon : UnivMon),
      (UnivMon.initUnivmon 2 1 1 2).bind (fun start =>
        feed (fun mon => mon.fastInsert zerosApartXxHash) start stream) = some mon →
      ExactLayers zerosApartXxHash stream mon → (ownedKeys stream).dedup.length ≤ 2 →
      mon.calcTerminalGSum zerosApartXxHash (fun _ => .searching _) (fun weight => weight) =
        exactGSum (fun weight => weight) stream := by
  refine ⟨fun claimed => ?_, fun claimed => ?_⟩
  · have twice := claimed [(.f64 0x7ff8000000000000, 1), (.f64 0x7ff8000000000000, 1)] _ rfl (by
      unfold ExactLayers
      decide +kernel)
    exact absurd twice (by decide +kernel)
  · have zeros := claimed [(.f64 0, 2), (.f64 0x8000000000000000, 1)] _ rfl (by
      unfold ExactLayers
      decide +kernel) (by decide)
    exact absurd zeros (by decide +kernel)

end LayeredMon

end AsapSketchlib
