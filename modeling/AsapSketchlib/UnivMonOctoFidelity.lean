/-
This file proves that a UnivMon aggregator that calls a layer complete has every key its workers
processed at that layer, in every run in which no worker processes a key at a layer that
promotes above a threshold of one while the layer's flag is still up. The invariant is that a
layer whose flag is up has held nothing back: its worker counters are zero, and each key it
processed is in the heap or on its way there.
-/

import AsapSketchlib.UnivMonOcto

namespace AsapSketchlib

/-! ### A layer that promotes everything -/

namespace WorkerSketch

def Clean (sketch : WorkerSketch) : Prop := ∀ counter ∈ sketch.counters.data, counter = 0

theorem clean_new (rows cols : ℕ) : (new rows cols).Clean := fun _ member =>
  (List.mem_replicate.mp member).2

theorem queryOneCounter_of_clean {sketch : WorkerSketch} (clean : sketch.Clean) (row col : ℕ) :
    sketch.counters.queryOneCounter row col = 0 := by
  unfold Vector2D.queryOneCounter
  cases found : sketch.counters.data[row * sketch.counters.cols + col]? with
  | none => rfl
  | some counter => exact clean counter (List.mem_of_getElem? found)

theorem l2hhCellForRow_sign (hashed : BitVec 128) (row cols maskBits : ℕ) :
    (l2hhCellForRow hashed row cols maskBits).2 = 1 ∨
      (l2hhCellForRow hashed row cols maskBits).2 = -1 := by
  have bit : (shiftRight128 hashed (127 + 127 * row) &&& 1#128).toNat < 2 := by
    rw [BitVec.toNat_and]
    exact Nat.lt_succ_of_le Nat.and_le_right
  unfold l2hhCellForRow
  simp only
  omega

theorem change_l2hhVisit (cols : ℕ) (hashed : BitVec 128) (row : ℕ) :
    (l2hhVisit cols 1 hashed row).change 0 =
      (0, some (l2hhCellForRow hashed row cols (colsMaskBits cols)).2) := by
  have changed : (l2hhVisit cols 1 hashed row).change 0 =
      release (fun bumped => 1 ≤ bumped.natAbs)
        ((0 + (l2hhCellForRow hashed row cols (colsMaskBits cols)).2).bmod 256) := rfl
  rw [changed]
  rcases l2hhCellForRow_sign hashed row cols (colsMaskBits cols) with one | minusOne
  · rw [one]
    rfl
  · rw [minusOne]
    rfl

variable {sketch : WorkerSketch} (clean : sketch.Clean)

include clean

theorem clean_visit_of_zero {place : Visit} (cleared : (place.change 0).1 = 0) :
    (sketch.visit place).1.Clean := by
  intro counter member
  obtain ⟨index, indexEq⟩ := List.getElem?_of_mem member
  simp only [visit, queryOneCounter_of_clean clean, cleared, Vector2D.updateOneCounter,
    List.getElem?_modify] at indexEq
  obtain ⟨found, foundEq, rfl⟩ := Option.map_eq_some_iff.mp indexEq
  split
  · rfl
  · exact clean found (List.mem_of_getElem? foundEq)

theorem sent_visit_of_clean (place : Visit) :
    (sketch.visit place).2 =
      (place.change 0).2.toList.map fun value => ⟨asU32 place.row, asU32 place.col, value⟩ := by
  rw [visit, queryOneCounter_of_clean clean]

theorem clean_visit (cols : ℕ) (hashed : BitVec 128) (row : ℕ) :
    (sketch.visit (l2hhVisit cols 1 hashed row)).1.Clean ∧
      (sketch.visit (l2hhVisit cols 1 hashed row)).2 ≠ [] := by
  have changed := change_l2hhVisit cols hashed row
  refine ⟨clean_visit_of_zero clean (congrArg Prod.fst changed), fun none => ?_⟩
  rw [sent_visit_of_clean clean, changed] at none
  exact absurd (List.map_eq_nil_iff.mp none) (List.cons_ne_nil _ _)

theorem clean_visitAll (cols : ℕ) (hashed : BitVec 128) (rows : List ℕ) :
    (sketch.visitAll (rows.map (l2hhVisit cols 1 hashed))).1.Clean ∧
      (rows ≠ [] → (sketch.visitAll (rows.map (l2hhVisit cols 1 hashed))).2 ≠ []) := by
  induction rows generalizing sketch with
  | nil => exact ⟨clean, fun impossible => absurd rfl impossible⟩
  | cons row rest hypothesis =>
    obtain ⟨cleanVisited, sent⟩ := clean_visit clean cols hashed row
    refine ⟨(hypothesis cleanVisited).1, fun _ nothing => sent ?_⟩
    exact (List.append_eq_nil_iff.mp nothing).1

theorem clean_insertHashEmitDelta (someRow : 0 < sketch.counters.rows) (hashed : BitVec 128)
    {threshold : ℕ} (lowest : threshold ≤ 1) :
    (sketch.insertHashEmitDelta hashed threshold).1.Clean ∧
      (sketch.insertHashEmitDelta hashed threshold).2 ≠ [] := by
  have one : clampPromask threshold = 1 := by
    unfold clampPromask maxPromask
    omega
  obtain ⟨cleanAfter, sent⟩ := clean_visitAll clean sketch.counters.cols hashed
    (List.range sketch.counters.rows)
  rw [insertHashEmitDelta, one]
  refine ⟨cleanAfter, sent fun empty => ?_⟩
  exact absurd (List.range_eq_nil.mp empty) (Nat.ne_of_gt someRow)

end WorkerSketch

/-! ### What a worker sends -/

namespace UnivMonOctoWorker

variable {threshold : ℕ} {key : HeapItem} {workerId weightTotal : ℕ}

section

variable (layer : ℕ) (hashes : List (BitVec 128)) (sketches : List WorkerSketch)

theorem processLayers_unreached {place : ℕ} (unreached : hashes.length ≤ place) :
    (processLayers threshold key workerId weightTotal layer hashes sketches).1[place]? =
      sketches[place]? := by
  induction hashes generalizing layer sketches place with
  | nil => rfl
  | cons hashed rest hypothesis =>
    cases sketches with
    | nil => rfl
    | cons sketch sketches =>
      cases place with
      | zero => exact absurd unreached (Nat.not_succ_le_zero _)
      | succ place => exact hypothesis (layer + 1) sketches (Nat.le_of_succ_le_succ unreached)

theorem processLayers_rows :
    (processLayers threshold key workerId weightTotal layer hashes sketches).1.map
      (fun sketch => sketch.counters.rows) = sketches.map fun sketch => sketch.counters.rows := by
  induction hashes generalizing layer sketches with
  | nil => rfl
  | cons hashed rest hypothesis =>
    cases sketches with
    | nil => rfl
    | cons sketch sketches =>
      rw [processLayers, List.map_cons, List.map_cons, hypothesis]
      exact congrArg (· :: _) (WorkerSketch.visitAll_rows sketch _)

end

/-- A clean sketch that a key reaches at a threshold of one stays clean, and a delta names the
key at its layer. -/
theorem processLayers_clean (key : HeapItem) (workerId weightTotal layer : ℕ) (hashes : List (BitVec 128)) (sketches : List WorkerSketch)
    {place : ℕ} (reached : place < hashes.length)
    (lowest : univmonLayerThreshold threshold (layer + place) ≤ 1) {sketch : WorkerSketch}
    (sketchEq : sketches[place]? = some sketch) (clean : sketch.Clean)
    (someRow : 0 < sketch.counters.rows) :
    (∀ after, (processLayers threshold key workerId weightTotal layer hashes sketches).1[place]? =
        some after → after.Clean) ∧
      ∃ delta ∈ (processLayers threshold key workerId weightTotal layer hashes sketches).2,
        delta.layer = asU32 (layer + place) ∧ delta.key = key := by
  induction hashes generalizing layer sketches place with
  | nil => exact absurd reached (Nat.not_lt_zero _)
  | cons hashed rest hypothesis =>
    cases sketches with
    | nil => exact absurd sketchEq.symm (Option.some_ne_none sketch)
    | cons first sketches =>
      cases place with
      | zero =>
        cases Option.some.inj sketchEq
        obtain ⟨cleanAfter, sent⟩ :=
          WorkerSketch.clean_insertHashEmitDelta clean someRow hashed lowest
        obtain ⟨delta, isSent⟩ := List.exists_mem_of_ne_nil _ sent
        refine ⟨fun after afterEq => Option.some.inj afterEq ▸ cleanAfter, _,
          List.mem_append_left _ (List.mem_map.mpr ⟨delta, isSent, rfl⟩), rfl, rfl⟩
      | succ place =>
        have shifted : layer + (place + 1) = layer + 1 + place :=
          (Nat.succ_add_eq_add_succ layer place).symm
        rw [shifted] at lowest ⊢
        obtain ⟨cleanAfter, delta, isSent, named⟩ :=
          hypothesis (layer + 1) sketches (Nat.lt_of_succ_lt_succ reached) lowest sketchEq
        exact ⟨cleanAfter, delta, List.mem_append_right _ isSent, named⟩

end UnivMonOctoWorker

/-! ### What the aggregator keeps -/

namespace UnivMonOctoAggregator

/-- A refresh changes nothing of the layers but flags, which it only lowers. -/
structure Lowered (before after : UnivMonOctoAggregator) : Prop where
  size : after.sketch.layers.length = before.sketch.layers.length
  fidelity : after.fidelity.length = before.fidelity.length
  layers : ∀ (i : ℕ) (layer : MonLayer), after.sketch.layers[i]? = some layer → ∃ earlier : MonLayer,
    before.sketch.layers[i]? = some earlier ∧ layer.hh = earlier.hh ∧
      (layer.complete = true → earlier.complete = true)

theorem Lowered.refl (aggregator : UnivMonOctoAggregator) : Lowered aggregator aggregator where
  size := rfl
  fidelity := rfl
  layers := fun _ layer layerEq => ⟨layer, layerEq, rfl, id⟩

theorem Lowered.trans {first second third : UnivMonOctoAggregator} (early : Lowered first second)
    (late : Lowered second third) : Lowered first third where
  size := late.size.trans early.size
  fidelity := late.fidelity.trans early.fidelity
  layers := by
    intro i layer layerEq
    obtain ⟨between, betweenEq, sameHeap, lowered⟩ := late.layers i layer layerEq
    obtain ⟨earliest, earliestEq, sameHeap', lowered'⟩ := early.layers i between betweenEq
    exact ⟨earliest, earliestEq, sameHeap.trans sameHeap', lowered' ∘ lowered⟩

theorem lowered_refreshLayer (threshold : ℕ) (aggregator : UnivMonOctoAggregator) (layer : ℕ) :
    Lowered aggregator (refreshLayer threshold aggregator layer) := by
  unfold refreshLayer
  by_cases raised : 1 < univmonLayerThreshold threshold layer
  · rw [if_pos raised]
    refine ⟨List.length_modify _ _ _, List.length_set, fun i changed changedEq => ?_⟩
    simp only [LayeredMon.markLayerCandidatesIncomplete, List.getElem?_modify] at changedEq
    obtain ⟨earlier, earlierEq, rfl⟩ := Option.map_eq_some_iff.mp changedEq
    refine ⟨earlier, earlierEq, ?_⟩
    split
    · exact ⟨rfl, fun impossible => absurd impossible Bool.false_ne_true⟩
    · exact ⟨rfl, id⟩
  · rw [if_neg raised]
    exact Lowered.refl aggregator

theorem lowered_foldl (threshold : ℕ) (layers : List ℕ) (aggregator : UnivMonOctoAggregator) :
    Lowered aggregator (layers.foldl (refreshLayer threshold) aggregator) := by
  induction layers generalizing aggregator with
  | nil => exact Lowered.refl aggregator
  | cons layer rest hypothesis =>
    exact (lowered_refreshLayer threshold aggregator layer).trans (hypothesis _)

theorem lowered_refreshFidelity (threshold : ℕ) (aggregator : UnivMonOctoAggregator) :
    Lowered aggregator (refreshFidelity threshold aggregator) := by
  unfold refreshFidelity
  by_cases same : threshold = aggregator.fidelityThreshold
  · rw [if_pos same]
    exact Lowered.refl aggregator
  · rw [if_neg same]
    have renewed : Lowered aggregator { aggregator with fidelityThreshold := threshold } :=
      ⟨rfl, rfl, fun _ layer layerEq => ⟨layer, layerEq, rfl, id⟩⟩
    exact renewed.trans (lowered_foldl threshold _ _)

/-- What an applied delta does to the layers: one of them is offered the key, and flags are only
lowered. -/
theorem apply_spec {xxh : XxHash3} {threshold : ℕ} {before after : UnivMonOctoAggregator}
    {delta : LayeredCountDelta} (applied : before.apply xxh threshold delta = some after)
    {i : ℕ} {layer : MonLayer} (layerEq : after.sketch.layers[i]? = some layer) :
    ∃ earlier, before.sketch.layers[i]? = some earlier ∧
      (layer.complete = true → earlier.complete = true) ∧
      ((i ≠ delta.layer ∧ layer.hh = earlier.hh) ∨ (i = delta.layer ∧ ∃ count,
        layer.hh = (earlier.hh.updateHeapItem xxh delta.key count).1 ∧
        (layer.complete = true → (earlier.hh.updateHeapItem xxh delta.key count).2 = true))) := by
  simp only [apply] at applied
  split at applied
  · obtain ⟨fidelity, -, updated⟩ := Option.bind_eq_some_iff.mp applied
    obtain ⟨mon, monEq, rfl⟩ := Option.map_eq_some_iff.mp updated
    unfold LayeredMon.applyLayeredDelta at monEq
    split at monEq
    · cases Option.some.inj monEq
      simp only [LayeredMon.setTotalWeight, List.getElem?_modify] at layerEq
      obtain ⟨lowered, loweredEq, rfl⟩ := Option.map_eq_some_iff.mp layerEq
      obtain ⟨earlier, earlierEq, sameHeap, wasUp⟩ :=
        (lowered_refreshFidelity threshold before).layers i lowered loweredEq
      refine ⟨earlier, earlierEq, ?_⟩
      by_cases here : delta.layer = i
      · have owned : ∀ heap count, HHHeap.update xxh heap (heapItemToSketchInput delta.key) count =
            heap.updateHeapItem xxh delta.key count := by
          intro heap count
          rw [HHHeap.update_eq_updateHeapItem, inputToOwned_heapItemToSketchInput]
        rw [if_pos here, ← sameHeap]
        simp only [owned]
        refine ⟨fun up => wasUp ((Bool.and_eq_true _ _).mp up).1, Or.inr ⟨here.symm, ?_⟩⟩
        exact ⟨_, rfl, fun up => ((Bool.and_eq_true _ _).mp ((Bool.and_eq_true _ _).mp up).2).1⟩
      · rw [if_neg here]
        exact ⟨wasUp, Or.inl ⟨Ne.symm here, sameHeap⟩⟩
    · exact absurd monEq (Option.some_ne_none mon).symm
  · exact absurd applied (Option.some_ne_none after).symm

end UnivMonOctoAggregator

/-! ### The invariant -/

namespace UnivMonOctoPlan

open OctoState

variable {xxh : XxHash3} {plan : UnivMonOctoPlan} {workers : ℕ}

/-- The layers that the workers process an input at are those down to this one. -/
def bottomFor (xxh : XxHash3) (plan : UnivMonOctoPlan) (input : DataInput) : ℕ :=
  bottomLayerForHash (hash64Seeded xxh bottomLayerFinder input) (max plan.layers 1)

/-- What holds of a layer of the aggregator after some events. -/
structure Delivered (xxh : XxHash3) (plan : UnivMonOctoPlan)
    (events : List (OctoEvent DataInput workers)) (state : State workers) (i : ℕ)
    (layer : MonLayer) : Prop where
  indexed : HHHeap.Indexed xxh layer.hh
  clean : layer.complete = true → ∀ worker sketch,
    (state.worker worker).layers[i]? = some sketch → sketch.Clean
  held : layer.complete = true → ∀ input ∈ OctoEvent.inputs events, i ≤ plan.bottomFor xxh input →
    inputToOwned input ∈ HHHeap.keys layer.hh ∨
      ∃ worker, ∃ delta ∈ state.queue worker, delta.layer = i ∧ delta.key = inputToOwned input

/-- What holds of the pipeline after some events. -/
structure Sound (xxh : XxHash3) (plan : UnivMonOctoPlan)
    (events : List (OctoEvent DataInput workers)) (state : State workers) : Prop where
  rows : ∀ worker, (state.worker worker).layers.map (fun sketch => sketch.counters.rows) =
    List.replicate (max plan.layers 1) (max plan.rows 1)
  delivered : ∀ aggregator, state.parent = some aggregator →
    aggregator.sketch.layers.length ≤ maxLayerSize ∧
    ∀ (i : ℕ) layer, aggregator.sketch.layers[i]? = some layer →
      Delivered xxh plan events state i layer

/-- A worker may process an input if each layer that it reaches promotes at a threshold of one or
has lost its flag. -/
def Heeds (xxh : XxHash3) (plan : UnivMonOctoPlan) (state : State workers) :
    OctoEvent DataInput workers → Prop
  | .data _ input => ∀ aggregator, state.parent = some aggregator →
    ∀ i ≤ plan.bottomFor xxh input, univmonLayerThreshold state.threshold i ≤ 1 ∨
      aggregator.sketch.candidatesComplete[i]? = some false
  | _ => True

theorem sound_start (heapSize workers tau : ℕ) :
    Sound xxh plan [] (plan.start heapSize workers tau) where
  rows := by
    intro worker
    show (List.replicate (max plan.layers 1) (WorkerSketch.new plan.rows plan.cols)).map _ = _
    rw [List.map_replicate]
    rfl
  delivered := by
    intro aggregator parent
    obtain ⟨sketch, created, rfl⟩ := Option.map_eq_some_iff.mp parent
    obtain ⟨-, bounded, sketchEq⟩ := LayeredMon.create_spec created
    have lowered := UnivMonOctoAggregator.lowered_refreshFidelity (clampPromask tau)
      { sketch := sketch
        fidelityThreshold := 2 ^ 32 - 1
        fidelity := List.replicate plan.layers .everyInsert
        workerWeights := []
        totalWeight := 0 }
    refine ⟨?_, fun i layer layerEq => ?_⟩
    · rw [lowered.size]
      simp only [sketchEq, List.length_map, List.length_range]
      exact bounded
    · obtain ⟨earlier, earlierEq, sameHeap, -⟩ := lowered.layers i layer layerEq
      simp only [sketchEq] at earlierEq
      obtain ⟨index, -, rfl⟩ := List.mem_map.mp (List.mem_of_getElem? earlierEq)
      refine ⟨?_, fun _ worker sketch sketchEq => ?_, fun _ input member => ?_⟩
      · rw [sameHeap]
        exact HHHeap.indexed_new heapSize
      · rw [(List.mem_replicate.mp (List.mem_of_getElem? sketchEq)).2]
        exact WorkerSketch.clean_new _ _
      · exact absurd member List.not_mem_nil

section

variable {events later : List (OctoEvent DataInput workers)} {before after : State workers}

theorem Delivered.mono {i : ℕ} {layer : MonLayer}
    (delivered : Delivered xxh plan events before i layer)
    (sameInputs : OctoEvent.inputs later = OctoEvent.inputs events)
    (sameLayers : ∀ worker, (after.worker worker).layers = (before.worker worker).layers)
    (queued : ∀ worker, ∀ delta ∈ before.queue worker, delta ∈ after.queue worker) :
    Delivered xxh plan later after i layer where
  indexed := delivered.indexed
  clean := fun up worker sketch sketchEq =>
    delivered.clean up worker sketch (sameLayers worker ▸ sketchEq)
  held := by
    intro up input member reached
    rw [sameInputs] at member
    refine (delivered.held up input member reached).imp_right ?_
    rintro ⟨worker, delta, isQueued, named⟩
    exact ⟨worker, delta, queued worker delta isQueued, named⟩

theorem Sound.mono (sound : Sound xxh plan events before)
    (sameInputs : OctoEvent.inputs later = OctoEvent.inputs events)
    (sameLayers : ∀ worker, (after.worker worker).layers = (before.worker worker).layers)
    (queued : ∀ worker, ∀ delta ∈ before.queue worker, delta ∈ after.queue worker)
    (sameParent : after.parent = before.parent) : Sound xxh plan later after where
  rows := fun worker => sameLayers worker ▸ sound.rows worker
  delivered := by
    intro aggregator parent
    obtain ⟨bounded, delivered⟩ := sound.delivered aggregator (sameParent ▸ parent)
    exact ⟨bounded, fun i layer layerEq =>
      (delivered i layer layerEq).mono sameInputs sameLayers queued⟩

end

theorem inputs_append (events : List (OctoEvent DataInput workers))
    (event : OctoEvent DataInput workers) : OctoEvent.inputs (events ++ [event]) =
      OctoEvent.inputs events ++ OctoEvent.inputs [event] := List.filterMap_append

theorem bottomFor_lt (input : DataInput) : plan.bottomFor xxh input < max plan.layers 1 :=
  bottomLayerForHash_lt _ (Nat.lt_of_lt_of_le Nat.one_pos (le_max_right _ _))

theorem process_prepare {worker : UnivMonOctoWorker} (threshold : ℕ) (input : DataInput)
    (shape : worker.layers.length = max plan.layers 1) :
    ∃ weightTotal, worker.process threshold (plan.prepare xxh input) =
      (⟨(UnivMonOctoWorker.processLayers threshold (inputToOwned input) worker.workerId weightTotal 0
          (plan.prepare xxh input).layerHashes worker.layers).1, worker.workerId, weightTotal⟩,
        (UnivMonOctoWorker.processLayers threshold (inputToOwned input) worker.workerId weightTotal 0
          (plan.prepare xxh input).layerHashes worker.layers).2) := by
  have bottom : min (plan.prepare xxh input).bottom (worker.layers.length - 1) =
      plan.bottomFor xxh input := by
    rw [shape]
    exact Nat.min_eq_left (Nat.le_pred_of_lt (bottomFor_lt input))
  have whole : (plan.prepare xxh input).layerHashes.take (plan.bottomFor xxh input + 1) =
      (plan.prepare xxh input).layerHashes := by
    refine List.take_of_length_le (le_of_eq ?_)
    exact (List.length_map _).trans List.length_range
  refine ⟨worker.weightTotal + 1, ?_⟩
  simp only [UnivMonOctoWorker.process, bottom, whole]
  rfl

section

variable {events : List (OctoEvent DataInput workers)} {before : State workers}
  (sound : Sound xxh plan events before) (worker : Fin workers)

include sound

/-- Processing an input at layers that promote everything, or have lost their flags. -/
theorem sound_data (input : DataInput) (heeds : Heeds xxh plan before (.data worker input)) :
    Sound xxh plan (events ++ [.data worker input]) (before.handle worker
      ((before.worker worker).process before.threshold (plan.prepare xxh input))) := by
  have shape : (before.worker worker).layers.length = max plan.layers 1 := by
    rw [← List.length_map fun sketch : WorkerSketch => sketch.counters.rows, sound.rows,
      List.length_replicate]
  obtain ⟨weightTotal, processed⟩ := process_prepare before.threshold input shape
  rw [processed]
  have hashCount : (plan.prepare xxh input).layerHashes.length = plan.bottomFor xxh input + 1 :=
    (List.length_map _).trans List.length_range
  refine ⟨fun other => ?_, fun aggregator parent => ?_⟩
  · by_cases same : other = worker
    · subst same
      simp only [handle, Function.update_self]
      rw [UnivMonOctoWorker.processLayers_rows]
      exact sound.rows other
    · simp only [handle, Function.update_of_ne same]
      exact sound.rows other
  · obtain ⟨bounded, delivered⟩ := sound.delivered aggregator parent
    refine ⟨bounded, fun i layer layerEq => ?_⟩
    have earlier := delivered i layer layerEq
    have inside : i < aggregator.sketch.layers.length := (List.getElem?_eq_some_iff.mp layerEq).1
    have sent : layer.complete = true → i ≤ plan.bottomFor xxh input →
        ∃ sketch, (before.worker worker).layers[i]? = some sketch ∧
          (∀ after, (UnivMonOctoWorker.processLayers before.threshold (inputToOwned input)
            (before.worker worker).workerId weightTotal 0 (plan.prepare xxh input).layerHashes
              (before.worker worker).layers).1[i]? = some after → after.Clean) ∧
          ∃ delta ∈ (UnivMonOctoWorker.processLayers before.threshold (inputToOwned input)
            (before.worker worker).workerId weightTotal 0 (plan.prepare xxh input).layerHashes
              (before.worker worker).layers).2, delta.layer = i ∧ delta.key = inputToOwned input := by
      intro up reached
      have place : i < (before.worker worker).layers.length :=
        shape ▸ Nat.lt_of_le_of_lt reached (bottomFor_lt input)
      obtain ⟨sketch, sketchEq⟩ : ∃ sketch, (before.worker worker).layers[i]? = some sketch :=
        ⟨_, List.getElem?_eq_getElem place⟩
      have someRow : 0 < sketch.counters.rows := by
        have isRow : sketch.counters.rows ∈ (before.worker worker).layers.map
            (fun sketch => sketch.counters.rows) :=
          List.mem_map.mpr ⟨sketch, List.mem_of_getElem? sketchEq, rfl⟩
        rw [sound.rows worker] at isRow
        rw [(List.mem_replicate.mp isRow).2]
        exact Nat.lt_of_lt_of_le Nat.one_pos (le_max_right _ _)
      have lowest : univmonLayerThreshold before.threshold (0 + i) ≤ 1 := by
        rw [Nat.zero_add]
        refine (heeds aggregator parent i reached).resolve_right fun down => ?_
        rw [LayeredMon.candidatesComplete, List.getElem?_map, layerEq, Option.map_some, up] at down
        exact Bool.noConfusion (Option.some.inj down)
      obtain ⟨cleanAfter, delta, isSent, atLayer, named⟩ := UnivMonOctoWorker.processLayers_clean
        (inputToOwned input) (before.worker worker).workerId weightTotal 0
        (plan.prepare xxh input).layerHashes (before.worker worker).layers (hashCount ▸ Nat.lt_succ_of_le reached) lowest sketchEq
        (earlier.clean up worker sketch sketchEq) someRow
      have small : i < 2 ^ 32 := (inside.trans_le bounded).trans (by decide)
      rw [Nat.zero_add, asU32_of_lt small] at atLayer
      exact ⟨sketch, sketchEq, cleanAfter, delta, isSent, atLayer, named⟩
    refine ⟨earlier.indexed, fun up other sketch sketchEq => ?_, fun up other member reached => ?_⟩
    · by_cases same : other = worker
      · subst same
        simp only [handle, Function.update_self] at sketchEq
        by_cases reached : i ≤ plan.bottomFor xxh input
        · obtain ⟨-, -, cleanAfter, -⟩ := sent up reached
          exact cleanAfter sketch sketchEq
        · rw [UnivMonOctoWorker.processLayers_unreached _ _ _
            (hashCount ▸ Nat.lt_of_not_le reached)] at sketchEq
          exact earlier.clean up other sketch sketchEq
      · simp only [handle, Function.update_of_ne same] at sketchEq
        exact earlier.clean up other sketch sketchEq
    · rw [inputs_append] at member
      rcases List.mem_append.mp member with before' | new
      · refine (earlier.held up other before' reached).imp_right ?_
        rintro ⟨sender, delta, isQueued, named⟩
        refine ⟨sender, delta, ?_, named⟩
        by_cases same : sender = worker
        · subst same
          simp only [handle, Function.update_self]
          exact List.mem_append_left _ isQueued
        · simp only [handle, Function.update_of_ne same]
          exact isQueued
      · have isInput : other = input := List.mem_singleton.mp new
        subst isInput
        obtain ⟨-, -, -, delta, isSent, named⟩ := sent up reached
        refine Or.inr ⟨worker, delta, ?_, named⟩
        simp only [handle, Function.update_self]
        exact List.mem_append_right _ isSent

theorem sound_apply (delta : LayeredCountDelta) (rest : List LayeredCountDelta)
    (head : before.queue worker = delta :: rest) :
    Sound xxh plan (events ++ [.apply worker])
      (before.receive (plan.traits xxh) worker delta rest) := by
  refine ⟨sound.rows, fun aggregator parent => ?_⟩
  obtain ⟨earlier, earlierParent, applied⟩ := Option.bind_eq_some_iff.mp parent
  obtain ⟨bounded, delivered⟩ := sound.delivered earlier earlierParent
  refine ⟨le_trans (le_of_forall_lt fun i inside => ?_) bounded, fun i layer layerEq => ?_⟩
  · obtain ⟨layer, layerEq, -⟩ :=
      UnivMonOctoAggregator.apply_spec applied (List.getElem?_eq_getElem inside)
    exact (List.getElem?_eq_some_iff.mp layerEq).1
  · obtain ⟨earlierLayer, earlierEq, wasUp, offered⟩ :=
      UnivMonOctoAggregator.apply_spec applied layerEq
    have was := delivered i earlierLayer earlierEq
    -- A key that waited in a queue waits there still, or was in the delta just applied.
    have waiting : ∀ key, (∃ sender, ∃ queued ∈ before.queue sender,
        queued.layer = i ∧ queued.key = key) → (delta.layer = i ∧ delta.key = key) ∨
          ∃ sender, ∃ queued ∈ (before.receive (plan.traits xxh) worker delta rest).queue sender,
            queued.layer = i ∧ queued.key = key := by
      rintro key ⟨sender, queued, isQueued, named⟩
      by_cases same : sender = worker
      · subst same
        rw [head] at isQueued
        rcases List.mem_cons.mp isQueued with rfl | later
        · exact Or.inl named
        · refine Or.inr ⟨sender, queued, ?_, named⟩
          simp only [receive, Function.update_self]
          exact later
      · refine Or.inr ⟨sender, queued, ?_, named⟩
        simp only [receive, Function.update_of_ne same]
        exact isQueued
    have sameInputs : OctoEvent.inputs (events ++ [.apply worker]) = OctoEvent.inputs events := by
      rw [inputs_append]
      exact List.append_nil _
    rcases offered with ⟨elsewhere, sameHeap⟩ | ⟨here, count, heapEq, keptIfUp⟩
    · refine ⟨sameHeap ▸ was.indexed, fun up => was.clean (wasUp up), fun up input member reached => ?_⟩
      rw [sameInputs] at member
      rcases was.held (wasUp up) input member reached with resident | queued
      · exact Or.inl (sameHeap ▸ resident)
      · refine Or.inr ((waiting _ queued).resolve_left fun named => elsewhere named.1.symm)
    · obtain ⟨offer, indexed, -⟩ := HHHeap.updateHeapItem_spec was.indexed delta.key count
      refine ⟨heapEq ▸ indexed, fun up => was.clean (wasUp up), fun up input member reached => ?_⟩
      rw [sameInputs] at member
      obtain ⟨seated, stayed⟩ := offer.keeps (keptIfUp up)
      rw [heapEq]
      rcases was.held (wasUp up) input member reached with resident | queued
      · exact Or.inl (stayed _ resident)
      · rcases waiting _ queued with ⟨-, same⟩ | later
        · exact Or.inl (same ▸ seated)
        · exact Or.inr later

end

theorem sound_step {events : List (OctoEvent DataInput workers)} {before after : State workers}
    {event : OctoEvent DataInput workers} (sound : Sound xxh plan events before)
    (heeds : Heeds xxh plan before event) (stepped : Stepped (plan.traits xxh) event before after) :
    Sound xxh plan (events ++ [event]) after := by
  have quiet : ∀ silent : OctoEvent DataInput workers, OctoEvent.inputs [silent] = [] →
      OctoEvent.inputs (events ++ [silent]) = OctoEvent.inputs events := by
    intro silent none
    rw [inputs_append, none, List.append_nil]
  have flushed : ∀ worker : Fin workers,
      (before.handle worker ((plan.traits xxh).flush (before.worker worker))).worker =
        before.worker ∧
      (before.handle worker ((plan.traits xxh).flush (before.worker worker))).queue =
        before.queue := by
    intro worker
    refine ⟨Function.update_eq_self worker before.worker, ?_⟩
    show Function.update before.queue worker (before.queue worker ++ []) = before.queue
    rw [List.append_nil, Function.update_eq_self]
  cases stepped with
  | data worker input result running processed =>
    cases Option.some.inj processed
    exact sound_data sound worker input heeds
  | flush worker running =>
    obtain ⟨sameWorkers, sameQueues⟩ := flushed worker
    refine sound.mono (quiet _ rfl) (fun other => by rw [sameWorkers]) (fun other delta member => ?_)
      rfl
    rw [sameQueues]
    exact member
  | finish worker running =>
    obtain ⟨sameWorkers, sameQueues⟩ := flushed worker
    refine sound.mono (quiet _ rfl) (fun other => ?_) (fun other delta member => ?_) rfl
    · rw [stop, sameWorkers]
    · rw [stop, sameQueues]
      exact member
  | setThreshold tau =>
    exact sound.mono (quiet _ rfl) (fun _ => rfl) (fun _ _ member => member) rfl
  | apply worker delta rest head => exact sound_apply sound worker delta rest head

/-- In every run in which no worker processes an input at a layer that promotes above a threshold
of one and still has its flag, whenever all queues are empty, each layer that the aggregator calls
complete has every key that any worker processed at it. -/
theorem octo_candidates_complete {heapSize tau : ℕ} {events : List (OctoEvent DataInput workers)}
    {reached : State workers}
    (ran : OctoState.run (plan.traits xxh) events (plan.start heapSize workers tau) = some reached)
    (heeded : EveryStep (plan.traits xxh) (Heeds xxh plan) events (plan.start heapSize workers tau))
    (drained : ∀ worker, reached.queue worker = []) {aggregator : UnivMonOctoAggregator}
    (parent : reached.parent = some aggregator) {i : ℕ} {layer : MonLayer}
    (layerEq : aggregator.sketch.layers[i]? = some layer)
    (complete : aggregator.sketch.candidatesComplete[i]? = some true) :
    ∀ input ∈ OctoEvent.inputs events, i ≤ plan.bottomFor xxh input →
      inputToOwned input ∈ HHHeap.keys layer.hh := by
  have sound : Sound xxh plan events reached :=
    run_induction_of_everyStep (sound_start heapSize workers tau)
      (fun _ _ _ _ sound heeds stepped => sound_step sound heeds stepped) heeded ran
  intro input member atLayer
  have delivered := (sound.delivered aggregator parent).2 i layer layerEq
  rw [LayeredMon.candidatesComplete, List.getElem?_map, layerEq] at complete
  refine (delivered.held (Option.some.inj complete) input member atLayer).resolve_right ?_
  rintro ⟨worker, delta, isQueued, -⟩
  rw [drained worker] at isQueued
  exact List.not_mem_nil isQueued

/-- One input at a threshold of one. -/
theorem octo_candidates_complete_single :
    ∃ (reached : (State 1)) (aggregator : UnivMonOctoAggregator) (layer : MonLayer),
      OctoState.run ((⟨1, 1, 1⟩ : UnivMonOctoPlan).traits plainXxHash)
        [.data 0 (.u64 2), .apply 0] ((⟨1, 1, 1⟩ : UnivMonOctoPlan).start 1 1 1) = some reached ∧
      reached.parent = some aggregator ∧ aggregator.sketch.layers[0]? = some layer ∧
      HeapItem.u64 2 ∈ HHHeap.keys layer.hh := by
  have ran : OctoState.run ((⟨1, 1, 1⟩ : UnivMonOctoPlan).traits plainXxHash)
      [.data 0 (.u64 2), .apply 0] ((⟨1, 1, 1⟩ : UnivMonOctoPlan).start 1 1 1) = some _ := rfl
  refine ⟨_, _, _, ran, rfl, rfl, ?_⟩
  refine octo_candidates_complete ran ⟨fun aggregator parent i reached => Or.inl ?_, fun _ _ =>
    ⟨trivial, fun _ _ => trivial⟩⟩ ?_ rfl rfl rfl (.u64 2) List.mem_cons_self (Nat.zero_le _)
  · rw [Nat.le_zero.mp reached]
    decide
  · intro worker
    rw [Subsingleton.elim worker 0]
    rfl

/-- A threshold raised before an input is processed leaves the flag of its layer up: nothing is
promoted, so that nothing tells the aggregator. -/
theorem raised_threshold_unnoticed :
    ¬ ∀ (events : List (OctoEvent DataInput 1)) (reached : State 1)
      (aggregator : UnivMonOctoAggregator) (i : ℕ) (layer : MonLayer),
      OctoState.run ((⟨1, 1, 1⟩ : UnivMonOctoPlan).traits plainXxHash) events
        ((⟨1, 1, 1⟩ : UnivMonOctoPlan).start 1 1 1) = some reached →
      (∀ worker, reached.queue worker = []) → reached.parent = some aggregator →
      aggregator.sketch.layers[i]? = some layer →
      aggregator.sketch.candidatesComplete[i]? = some true →
      ∀ input ∈ OctoEvent.inputs events,
        i ≤ (⟨1, 1, 1⟩ : UnivMonOctoPlan).bottomFor plainXxHash input →
          inputToOwned input ∈ HHHeap.keys layer.hh := by
  intro claimed
  have member := claimed [.setThreshold 64, .data 0 (.u64 2)] _ _ 0 _ rfl
    (fun worker => by rw [Subsingleton.elim worker 0]; rfl) rfl rfl rfl (.u64 2)
    List.mem_cons_self (Nat.zero_le _)
  exact List.not_mem_nil member

end UnivMonOctoPlan

end AsapSketchlib
