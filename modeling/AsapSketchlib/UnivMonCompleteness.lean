/-
This file proves what the completeness flags of a UnivMon mean. Whatever was inserted, merged
and reset, a layer whose flag is up holds every key that reached it since the last reset.

A key counts as held if the heap has it or a key that equals it: a merge passes the keys through
a hash set, which may take the two zeros of a floating-point type for one key.
-/

import AsapSketchlib.HeapRetention
import AsapSketchlib.UnivMon

namespace AsapSketchlib

/-! ### One offer -/

namespace HHHeap

variable {xxh : XxHash3}

variable {before after : HHHeap} {key : HeapItem} {count : ℤ} {kept : Bool}
  (offer : Offered before key count after kept)

include offer

theorem Offered.keeps (up : kept = true) :
    key ∈ keys after ∧ ∀ other ∈ keys before, other ∈ keys after := by
  cases offer with
  | rescored idx item resident same perm =>
    subst same
    have sameKeys : (keys after).Perm (keys before) :=
      keys_set resident count ▸ perm.map HHItem.key
    refine ⟨sameKeys.mem_iff.mpr ?_, fun other member => sameKeys.mem_iff.mpr member⟩
    exact List.mem_map.mpr ⟨item, List.mem_of_getElem? resident, rfl⟩
  | seated absent room perm =>
    have sameKeys : (keys after).Perm (key :: keys before) := perm.map HHItem.key
    exact ⟨sameKeys.mem_iff.mpr List.mem_cons_self,
      fun other member => sameKeys.mem_iff.mpr (List.mem_cons_of_mem key member)⟩
  | displaced absent full root rest split beaten perm => exact absurd up Bool.false_ne_true
  | refused absent full unchanged low => exact absurd up Bool.false_ne_true

theorem Offered.subset : ∀ other ∈ keys after, other = key ∨ other ∈ keys before := by
  intro other member
  cases offer with
  | rescored idx item resident same perm =>
    subst same
    have sameKeys : (keys after).Perm (keys before) :=
      keys_set resident count ▸ perm.map HHItem.key
    exact Or.inr (sameKeys.mem_iff.mp member)
  | seated absent room perm =>
    have sameKeys : (keys after).Perm (key :: keys before) := perm.map HHItem.key
    exact List.mem_cons.mp (sameKeys.mem_iff.mp member)
  | displaced absent full root rest split beaten perm =>
    have sameKeys : (keys after).Perm (key :: rest.map HHItem.key) := perm.map HHItem.key
    refine (List.mem_cons.mp (sameKeys.mem_iff.mp member)).imp_right fun earlier => ?_
    rw [keys, split]
    exact List.mem_cons_of_mem _ earlier
  | refused absent full unchanged low => exact Or.inr (unchanged ▸ member)

theorem Offered.of_room (room : before.heap.length < before.k) :
    kept = true ∧ after.heap.length ≤ before.heap.length + 1 := by
  cases offer with
  | rescored idx item resident same perm =>
    refine ⟨rfl, ?_⟩
    rw [perm.length_eq, List.length_set]
    exact Nat.le_succ _
  | seated absent _ perm => exact ⟨rfl, perm.length_eq.le⟩
  | displaced absent full root rest split beaten perm => exact absurd full (Nat.ne_of_lt room)
  | refused absent full unchanged low => exact absurd full (Nat.ne_of_lt room)

end HHHeap

/-! ### One layer -/

/-- What holds of a layer that was offered the keys `routed` since its last reset. -/
structure LayerHolds (xxh : XxHash3) (heapSize : ℕ) (routed : HeapItem → Prop)
    (layer : MonLayer) : Prop where
  indexed : HHHeap.Indexed xxh layer.hh
  capacity : layer.hh.k = heapSize
  offered : ∀ key ∈ HHHeap.keys layer.hh, routed key
  holds : layer.complete = true → ∀ key, routed key →
    HashTable.Held HeapItem.eqItem (HHHeap.keys layer.hh) key

namespace LayerHolds

open HashTable

variable {xxh : XxHash3} {heapSize : ℕ} {routed routed' : HeapItem → Prop}
  {layer other : MonLayer}

theorem congr (layerHolds : LayerHolds xxh heapSize routed layer)
    (same : ∀ key, routed' key ↔ routed key) : LayerHolds xxh heapSize routed' layer where
  indexed := layerHolds.indexed
  capacity := layerHolds.capacity
  offered := fun key member => (same key).mpr (layerHolds.offered key member)
  holds := fun up key isRouted => layerHolds.holds up key ((same key).mp isRouted)

theorem new (rows cols heapSize index : ℕ) :
    LayerHolds xxh heapSize (fun _ => False) (MonLayer.new rows cols heapSize index) where
  indexed := HHHeap.indexed_new heapSize
  capacity := rfl
  offered := fun _ member => absurd member List.not_mem_nil
  holds := fun _ _ impossible => impossible.elim

theorem free (layerHolds : LayerHolds xxh heapSize routed layer) :
    LayerHolds xxh heapSize (fun _ => False) layer.free where
  indexed := HHHeap.indexed_new layer.hh.k
  capacity := layerHolds.capacity
  offered := fun _ member => absurd member List.not_mem_nil
  holds := fun _ _ impossible => impossible.elim

theorem update (layerHolds : LayerHolds xxh heapSize routed layer) (key : DataInput) (value : ℤ) :
    LayerHolds xxh heapSize (fun other => other = inputToOwned key ∨ routed other)
      (layer.update xxh key value) := by
  obtain ⟨offer, indexed, capacity⟩ := HHHeap.updateHeapItem_spec layerHolds.indexed
    (inputToOwned key) (f64AsI64 (layer.l2Sketch.updateAndEst xxh key value).2)
  rw [← HHHeap.update_eq_updateHeapItem] at offer indexed capacity
  refine ⟨indexed, capacity.trans layerHolds.capacity, fun other member => ?_, fun up => ?_⟩
  · exact (offer.subset other member).imp_right (layerHolds.offered other)
  · obtain ⟨before, kept⟩ := (Bool.and_eq_true _ _).mp up
    obtain ⟨seated, stayed⟩ := offer.keeps kept
    rintro other (rfl | isRouted)
    · exact Held.of_mem seated
    · exact (layerHolds.holds before other isRouted).of_subset stayed

section

variable (sketch : CountL2HH) (keys : List HeapItem) {heap : HHHeap}
  (indexed : HHHeap.Indexed xxh heap)

include indexed

theorem offerAll_indexed :
    HHHeap.Indexed xxh (MonLayer.offerAll xxh sketch heap keys) ∧
      (MonLayer.offerAll xxh sketch heap keys).k = heap.k ∧
      ∀ key ∈ HHHeap.keys (MonLayer.offerAll xxh sketch heap keys),
        key ∈ keys ∨ key ∈ HHHeap.keys heap := by
  induction keys generalizing heap with
  | nil => exact ⟨indexed, rfl, fun _ member => Or.inr member⟩
  | cons first rest hypothesis =>
    obtain ⟨offer, indexed', capacity⟩ := HHHeap.updateHeapItem_spec indexed
      (inputToOwned (heapItemToSketchInput first)) (sketch.countOf xxh first)
    rw [← HHHeap.update_eq_updateHeapItem] at offer indexed' capacity
    rw [inputToOwned_heapItemToSketchInput] at offer
    obtain ⟨last, lastCapacity, subset⟩ := hypothesis indexed'
    refine ⟨last, lastCapacity.trans capacity, fun key member => ?_⟩
    rcases subset key member with later | seated
    · exact Or.inl (List.mem_cons_of_mem first later)
    · rcases offer.subset key seated with rfl | earlier
      · exact Or.inl List.mem_cons_self
      · exact Or.inr earlier

theorem mem_offerAll (room : heap.heap.length + keys.length ≤ heap.k) :
    (∀ key ∈ keys, key ∈ HHHeap.keys (MonLayer.offerAll xxh sketch heap keys)) ∧
      ∀ key ∈ HHHeap.keys heap, key ∈ HHHeap.keys (MonLayer.offerAll xxh sketch heap keys) := by
  induction keys generalizing heap with
  | nil => exact ⟨fun _ member => absurd member List.not_mem_nil, fun _ member => member⟩
  | cons first rest hypothesis =>
    obtain ⟨offer, indexed', capacity⟩ := HHHeap.updateHeapItem_spec indexed
      (inputToOwned (heapItemToSketchInput first)) (sketch.countOf xxh first)
    rw [← HHHeap.update_eq_updateHeapItem] at offer indexed' capacity
    rw [inputToOwned_heapItemToSketchInput] at offer
    rw [List.length_cons] at room
    have roomForOne : heap.heap.length < heap.k := by omega
    obtain ⟨kept, grown⟩ := offer.of_room roomForOne
    obtain ⟨seated, stayed⟩ := offer.keeps kept
    obtain ⟨later, lasting⟩ := hypothesis indexed' (by omega)
    refine ⟨fun key member => ?_, fun key member => lasting key (stayed key member)⟩
    rcases List.mem_cons.mp member with rfl | inRest
    · exact lasting key seated
    · exact later key inRest

end

theorem merge (layerHolds : LayerHolds xxh heapSize routed layer)
    (otherHolds : LayerHolds xxh heapSize routed' other)
    (table : HashTable HeapItem HeapItem.eqItem) :
    LayerHolds xxh heapSize (fun key => routed key ∨ routed' key)
      (layer.merge xxh table heapSize other) := by
  have cleared : HHHeap.Indexed xxh layer.hh.clear := HHHeap.indexed_new layer.hh.k
  have collected : ∀ key ∈ MonLayer.candidateKeys table layer other,
      key ∈ HHHeap.keys layer.hh ∨ key ∈ HHHeap.keys other.hh := by
    intro key member
    have source := mem_of_mem_collectSet key member
    rwa [List.map_append, List.mem_append] at source
  obtain ⟨indexed, capacity, subset⟩ := offerAll_indexed
    (layer.l2Sketch.merge other.l2Sketch) (MonLayer.candidateKeys table layer other) cleared
  refine ⟨indexed, capacity.trans layerHolds.capacity, fun key member => ?_, fun up => ?_⟩
  · rcases subset key member with offered | impossible
    · exact (collected key offered).imp (layerHolds.offered key) (otherHolds.offered key)
    · exact absurd impossible List.not_mem_nil
  · obtain ⟨bothUp, fits⟩ := (Bool.and_eq_true _ _).mp up
    obtain ⟨leftUp, rightUp⟩ := (Bool.and_eq_true _ _).mp bothUp
    have room : layer.hh.clear.heap.length +
        (MonLayer.candidateKeys table layer other).length ≤ layer.hh.clear.k := by
      rw [show layer.hh.clear.heap.length = 0 from rfl, Nat.zero_add]
      exact (of_decide_eq_true fits).trans_eq layerHolds.capacity.symm
    have seated := (mem_offerAll (layer.l2Sketch.merge other.l2Sketch)
      (MonLayer.candidateKeys table layer other) cleared room).1
    have heldBySet : ∀ key ∈ (layer.hh.heap ++ other.hh.heap).map HHItem.key,
        Held HeapItem.eqItem (MonLayer.candidateKeys table layer other) key := held_collectSet _
    have lasting : ∀ key, Held HeapItem.eqItem
        ((layer.hh.heap ++ other.hh.heap).map HHItem.key) key →
        Held HeapItem.eqItem (HHHeap.keys (layer.merge xxh table heapSize other).hh) key :=
      fun key held => (held.trans HeapItem.eqItem_trans heldBySet).of_subset seated
    rintro key (isRouted | isRouted)
    · refine lasting key ((layerHolds.holds leftUp key isRouted).of_subset ?_)
      intro stored member
      rw [List.map_append]
      exact List.mem_append_left _ member
    · refine lasting key ((otherHolds.holds rightUp key isRouted).of_subset ?_)
      intro stored member
      rw [List.map_append]
      exact List.mem_append_right _ member

end LayerHolds

/-! ### Whole pyramids -/

/-- Whether updates of a mode offer a key to layer `i`, given its bottom layer. -/
def UpdateMode.Reaches (mode : UpdateMode) (i bottom : ℕ) : Prop :=
  if mode = .terminal then i = bottom else i ≤ bottom

instance (mode : UpdateMode) (i bottom : ℕ) : Decidable (mode.Reaches i bottom) :=
  inferInstanceAs (Decidable (if mode = .terminal then i = bottom else i ≤ bottom))

def bottomOf (xxh : XxHash3) (layerSize : ℕ) (key : HeapItem) : ℕ :=
  bottomLayerForHash (hashItem64Seeded xxh bottomLayerFinder key) layerSize

theorem bottomLayerForHash_lt (hash : BitVec 64) {layerSize : ℕ} (positive : 0 < layerSize) :
    bottomLayerForHash hash layerSize < layerSize := by
  unfold bottomLayerForHash
  cases found : (List.range' 1 (layerSize - 1)).find? fun l => hashBit hash l = 0 with
  | none => exact Nat.sub_one_lt (Nat.ne_of_gt positive)
  | some l =>
    have inside := List.mem_range'_1.mp (List.mem_of_find?_eq_some found)
    show l - 1 < layerSize
    omega

namespace LayeredMon

variable {Layout : Type} {xxh : XxHash3}

/-- The pyramids that inserts of one mode, merges and resets build, with the keys inserted since
the last reset. -/
inductive Built [MonLayout Layout] [DecidableEq Layout] (xxh : XxHash3) (mode : UpdateMode) :
    LayeredMon Layout → List HeapItem → Prop
  | create {layout : Layout} {heapSize layerSize : ℕ} {mon : LayeredMon Layout}
      (created : LayeredMon.create layout heapSize layerSize = some mon) : Built xxh mode mon []
  | insert {before after : LayeredMon Layout} {keys : List HeapItem} (key : DataInput) (value : ℤ)
      (standard : mode = .standard) (built : Built xxh mode before keys)
      (inserted : before.insert xxh key value = some after) :
      Built xxh mode after (inputToOwned key :: keys)
  | fastInsert {before after : LayeredMon Layout} {keys : List HeapItem} (key : DataInput)
      (value : ℤ) (terminal : mode = .terminal) (built : Built xxh mode before keys)
      (inserted : before.fastInsert xxh key value = some after) :
      Built xxh mode after (inputToOwned key :: keys)
  | merge {before other after : LayeredMon Layout} {keys otherKeys : List HeapItem}
      (tables : ℕ → HashTable HeapItem HeapItem.eqItem) (built : Built xxh mode before keys)
      (otherBuilt : Built xxh mode other otherKeys)
      (merged : before.merge xxh tables other = some after) :
      Built xxh mode after (keys ++ otherKeys)
  | free {before : LayeredMon Layout} {keys : List HeapItem} (built : Built xxh mode before keys) :
      Built xxh mode before.free []

/-- Every layer holds the keys that updates of the mode route to it. -/
def AllHold (xxh : XxHash3) (mode : UpdateMode) (mon : LayeredMon Layout) (keys : List HeapItem) :
    Prop :=
  ∀ i layer, mon.layers[i]? = some layer → LayerHolds xxh mon.heapSize
    (fun key => key ∈ keys ∧ mode.Reaches i (bottomOf xxh mon.layerSize key)) layer

theorem beginUpdate_layers {before begun : LayeredMon Layout} {value : ℤ} {mode : UpdateMode}
    (began : before.beginUpdate value mode = some begun) :
    begun.layers = before.layers ∧ begun.heapSize = before.heapSize := by
  unfold beginUpdate at began
  split at began
  · exact absurd began (Option.some_ne_none begun).symm
  · split at began
    · exact absurd began (Option.some_ne_none begun).symm
    · split at began
      · exact absurd began (Option.some_ne_none begun).symm
      · cases Option.some.inj began
        exact ⟨rfl, rfl⟩

/-- The layers that updates of a mode offer a key to are updated with it. -/
structure Updated (xxh : XxHash3) (mode : UpdateMode) (before after : LayeredMon Layout)
    (key : DataInput) (value : ℤ) : Prop where
  heapSize : after.heapSize = before.heapSize
  layers : ∀ i : ℕ, after.layers[i]? = (before.layers[i]?).map fun layer =>
    if mode.Reaches i (bottomOf xxh before.layerSize (inputToOwned key)) then
      layer.update xxh key value else layer

theorem Updated.layerSize_eq {mode : UpdateMode} {before after : LayeredMon Layout}
    {key : DataInput} {value : ℤ} (updated : Updated xxh mode before after key value) :
    after.layerSize = before.layerSize := by
  refine eq_of_forall_ge_iff fun i => ?_
  rw [layerSize, layerSize, ← List.getElem?_eq_none_iff, ← List.getElem?_eq_none_iff,
    updated.layers i, Option.map_eq_none_iff]

section

variable {before after : LayeredMon Layout} {key : DataInput} {value : ℤ}

theorem insert_spec (inserted : before.insert xxh key value = some after) :
    Updated xxh .standard before after key value := by
  obtain ⟨begun, began, rfl⟩ := Option.map_eq_some_iff.mp inserted
  obtain ⟨sameLayers, sameSize⟩ := beginUpdate_layers began
  have sameLength : begun.layerSize = before.layerSize := congrArg List.length sameLayers
  refine ⟨sameSize, fun i => ?_⟩
  show (begun.layers.mapIdx fun i layer =>
    if i ≤ bottomOf xxh begun.layerSize (inputToOwned key) then layer.update xxh key value
    else layer)[i]? = _
  rw [sameLayers, sameLength, List.getElem?_mapIdx]
  rfl

theorem fastInsert_spec (inserted : before.fastInsert xxh key value = some after) :
    Updated xxh .terminal before after key value := by
  obtain ⟨begun, began, rfl⟩ := Option.map_eq_some_iff.mp inserted
  obtain ⟨sameLayers, sameSize⟩ := beginUpdate_layers began
  have sameLength : begun.layerSize = before.layerSize := congrArg List.length sameLayers
  refine ⟨sameSize, fun i => ?_⟩
  show (begun.layers.modify (bottomOf xxh begun.layerSize (inputToOwned key)) fun layer =>
    layer.update xxh key value)[i]? = (before.layers[i]?).map fun layer =>
      if i = bottomOf xxh before.layerSize (inputToOwned key) then layer.update xxh key value
      else layer
  rw [sameLayers, sameLength]
  by_cases here : bottomOf xxh before.layerSize (inputToOwned key) = i
  · rw [here, List.getElem?_modify_eq]
    simp only [if_true]
    rfl
  · rw [List.getElem?_modify_ne _ _ here]
    simp only [if_neg (Ne.symm here)]
    exact Option.map_id'.symm

end

theorem merge_spec [DecidableEq Layout] {before other after : LayeredMon Layout}
    {tables : ℕ → HashTable HeapItem HeapItem.eqItem}
    (merged : before.merge xxh tables other = some after) :
    before.layerSize = other.layerSize ∧ before.heapSize = other.heapSize ∧
      after.heapSize = before.heapSize ∧ after.layers =
        (before.layers.zip other.layers).mapIdx fun i pair =>
          pair.1.merge xxh (tables i) before.heapSize pair.2 := by
  unfold merge at merged
  split at merged
  · rename_i compatible
    obtain ⟨mode, -, guarded⟩ := Option.bind_eq_some_iff.mp merged
    split at guarded
    · exact absurd guarded (Option.some_ne_none after).symm
    · cases Option.some.inj guarded
      exact ⟨compatible.1, compatible.2.2, rfl, rfl⟩
  · exact absurd merged (Option.some_ne_none after).symm

theorem create_spec [MonLayout Layout] {layout : Layout} {heapSize layerSize : ℕ}
    {mon : LayeredMon Layout} (created : create layout heapSize layerSize = some mon) :
    0 < layerSize ∧ layerSize ≤ maxLayerSize ∧ mon =
      { layers := (List.range layerSize).map fun i =>
          MonLayer.new (MonLayout.rows layout i) (MonLayout.cols layout i) heapSize i
        layout := layout
        heapSize := heapSize
        bucketSize := 0
        updateMode := .unset } := by
  unfold create at created
  split at created
  · rename_i valid
    exact ⟨valid.2.2.1, valid.2.2.2, (Option.some.inj created).symm⟩
  · exact absurd created (Option.some_ne_none mon).symm

theorem Updated.allHold {mode : UpdateMode} {before after : LayeredMon Layout}
    {key : DataInput} {value : ℤ} (updated : Updated xxh mode before after key value)
    {keys : List HeapItem} (allHold : AllHold xxh mode before keys) :
    AllHold xxh mode after (inputToOwned key :: keys) := by
  intro i layer layerEq
  rw [updated.layers i] at layerEq
  obtain ⟨layerBefore, beforeEq, rfl⟩ := Option.map_eq_some_iff.mp layerEq
  have held := allHold i layerBefore beforeEq
  rw [updated.heapSize, updated.layerSize_eq]
  by_cases reached : mode.Reaches i (bottomOf xxh before.layerSize (inputToOwned key))
  · rw [if_pos reached]
    refine (held.update key value).congr fun other => ?_
    constructor
    · rintro ⟨member, routed⟩
      exact (List.mem_cons.mp member).imp_right fun earlier => ⟨earlier, routed⟩
    · rintro (rfl | ⟨earlier, routed⟩)
      · exact ⟨List.mem_cons_self, reached⟩
      · exact ⟨List.mem_cons_of_mem _ earlier, routed⟩
  · rw [if_neg reached]
    refine held.congr fun other => ?_
    constructor
    · rintro ⟨member, routed⟩
      rcases List.mem_cons.mp member with rfl | earlier
      · exact absurd routed reached
      · exact ⟨earlier, routed⟩
    · exact fun ⟨earlier, routed⟩ => ⟨List.mem_cons_of_mem _ earlier, routed⟩

theorem Built.allHold [MonLayout Layout] [DecidableEq Layout] {mode : UpdateMode}
    {mon : LayeredMon Layout} {keys : List HeapItem} (built : Built xxh mode mon keys) :
    AllHold xxh mode mon keys := by
  induction built with
  | create created =>
    obtain ⟨-, -, rfl⟩ := create_spec created
    intro i layer layerEq
    obtain ⟨index, -, rfl⟩ := List.mem_map.mp (List.mem_of_getElem? layerEq)
    refine (LayerHolds.new _ _ _ index).congr fun key => ?_
    exact ⟨fun routed => absurd routed.1 List.not_mem_nil, False.elim⟩
  | insert key value standard _ inserted hypothesis =>
    subst standard
    exact (insert_spec inserted).allHold hypothesis
  | fastInsert key value terminal _ inserted hypothesis =>
    subst terminal
    exact (fastInsert_spec inserted).allHold hypothesis
  | merge tables _ _ merged leftHypothesis rightHypothesis =>
    rename_i before other after keys otherKeys _ _
    obtain ⟨sameLength, sameHeapSize, sameSize, layers⟩ := merge_spec merged
    have afterLength : after.layerSize = before.layerSize := by
      unfold layerSize at sameLength ⊢
      rw [layers, List.length_mapIdx, List.length_zip, ← sameLength, Nat.min_self]
    intro i layer layerEq
    rw [layers, List.getElem?_mapIdx] at layerEq
    obtain ⟨⟨left, right⟩, pairEq, rfl⟩ := Option.map_eq_some_iff.mp layerEq
    obtain ⟨leftEq, rightEq⟩ := List.getElem?_zip_eq_some.mp pairEq
    have leftHolds := leftHypothesis i left leftEq
    have rightHolds := rightHypothesis i right rightEq
    rw [← sameHeapSize, ← sameLength] at rightHolds
    rw [sameSize, afterLength]
    refine (leftHolds.merge rightHolds (tables i)).congr fun key => ?_
    rw [List.mem_append]
    exact or_and_right
  | free _ hypothesis =>
    intro i layer layerEq
    rw [LayeredMon.free, List.getElem?_map] at layerEq
    obtain ⟨layerBefore, beforeEq, rfl⟩ := Option.map_eq_some_iff.mp layerEq
    refine (hypothesis i layerBefore beforeEq).free.congr fun key => ?_
    exact ⟨fun routed => absurd routed.1 List.not_mem_nil, False.elim⟩

/-- A layer of a standard pyramid whose flag is up holds every key inserted since the last reset
whose bottom layer is at least that layer. And the conjunction of the flags a heap returned since
its last clear is up exactly when every key offered since then is found in it. -/
theorem candidates_complete_sound :
    (∀ (mon : UnivMon) (keys : List HeapItem), Built xxh .standard mon keys →
      ∀ i layer, mon.layers[i]? = some layer → layer.complete = true →
        ∀ key ∈ keys, key.isNan = false → i ≤ bottomOf xxh mon.layerSize key →
          ∃ item ∈ layer.hh.heap, item.key.eqItem key = true) ∧
    ∀ (k : ℕ) (ops : List HHHeap.HeapOp),
      (∀ key ∈ (ops.foldl (HHHeap.observe xxh) (HHHeap.observedNew k)).offered,
        key.isNan = false) →
      ((ops.foldl (HHHeap.observe xxh) (HHHeap.observedNew k)).complete = true ↔
        ∀ key ∈ (ops.foldl (HHHeap.observe xxh) (HHHeap.observedNew k)).offered,
          (HHHeap.findHeapItem xxh (ops.foldl (HHHeap.observe xxh) (HHHeap.observedNew k)).heap
            key).isSome = true) := by
  refine ⟨fun mon keys built i layer layerEq up key member number reached => ?_,
    HHHeap.complete_iff_found⟩
  obtain ⟨stored, isStored, same⟩ :=
    (built.allHold i layer layerEq).holds up key ⟨member, reached⟩
  obtain ⟨item, isItem, rfl⟩ := List.mem_map.mp isStored
  refine ⟨item, isItem, same.elim (fun identical => ?_) id⟩
  rw [identical, HeapItem.eqItem_self, number]
  rfl

/-- A run of one insert. -/
theorem candidates_complete_sound_single :
    (∃ (mon : UnivMon) (layer : MonLayer), Built plainXxHash .standard mon [.u64 5] ∧
      mon.layers[0]? = some layer ∧ ∃ item ∈ layer.hh.heap, item.key.eqItem (.u64 5) = true) ∧
    ((HHHeap.observe plainXxHash (HHHeap.observedNew 1) (.update (.u64 5) 3)).complete = true ↔
      ∀ key ∈ [HeapItem.u64 5], (HHHeap.findHeapItem plainXxHash
        (HHHeap.observe plainXxHash (HHHeap.observedNew 1) (.update (.u64 5) 3)).heap
          key).isSome = true) := by
  have created : create (⟨1, 4⟩ : UnivMonLayout) 2 2 = some _ := rfl
  have built : Built plainXxHash .standard _ [.u64 5] :=
    .insert (.u64 5) 1 rfl (.create created) rfl
  refine ⟨⟨_, _, built, rfl, ?_⟩, ?_⟩
  · exact candidates_complete_sound.1 _ _ built 0 _ rfl rfl _ List.mem_cons_self rfl
      (Nat.zero_le _)
  · exact candidates_complete_sound.2 1 [.update (.u64 5) 3]
      fun key member => List.mem_singleton.mp member ▸ rfl

end LayeredMon

end AsapSketchlib
