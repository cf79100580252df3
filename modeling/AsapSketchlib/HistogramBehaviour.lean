/-
This file proves that a histogram only tells sketches apart by their behaviour. Where merges, masses
and updates are seen through a map of the sketches, so is everything the histogram does, and two
histograms with the same image stay so under the same updates.
-/

import AsapSketchlib.HistogramPartition

namespace AsapSketchlib

variable {Sketch Behaviour : Type}

def EHBucket.map (behaviour : Sketch → Behaviour) (bucket : EHBucket Sketch) :
    EHBucket Behaviour where
  bucket := behaviour bucket.bucket
  size := bucket.size
  l2Mass := bucket.l2Mass
  minTime := bucket.minTime
  maxTime := bucket.maxTime

def ExponentialHistogram.map (behaviour : Sketch → Behaviour) (eh : ExponentialHistogram Sketch) :
    ExponentialHistogram Behaviour where
  payload := eh.payload.map (EHBucket.map behaviour)
  window := eh.window
  k := eh.k
  mergeNorm := eh.mergeNorm
  typeToClone := behaviour eh.typeToClone

namespace EHSketchKind

variable {Input : Type} {kind : EHSketchKind Sketch Input}
  {abstract : EHSketchKind Behaviour Input} {behaviour : Sketch → Behaviour} {arith : MassArith}

/-- Updates, merges and masses are seen through the behaviour of the sketches. -/
structure Carries (kind : EHSketchKind Sketch Input) (abstract : EHSketchKind Behaviour Input)
    (behaviour : Sketch → Behaviour) : Prop where
  insert : ∀ sketch input,
    abstract.insert (behaviour sketch) input = behaviour (kind.insert sketch input)
  merge : ∀ sketch other, abstract.merge (behaviour sketch) (behaviour other) =
    (kind.merge sketch other).map behaviour
  mass : ∀ sketch, abstract.ehL2Mass (behaviour sketch) = kind.ehL2Mass sketch

def seen {Result : Type} (behaviour : Sketch → Behaviour)
    (step : List (EHBucket Sketch) × Result) : List (EHBucket Behaviour) × Result :=
  (step.1.map (EHBucket.map behaviour), step.2)

/-! ### Merging -/

section

variable (carries : Carries kind abstract behaviour)

include carries

theorem Carries.computeL2Mass (sketch : Sketch) :
    abstract.computeL2Mass (behaviour sketch) = kind.computeL2Mass sketch := by
  rw [EHSketchKind.computeL2Mass, carries.mass, EHSketchKind.computeL2Mass]

theorem Carries.toMerge (kept next : EHBucket Sketch) :
    abstract.toMerge (kept.map behaviour) (next.map behaviour) =
      (kind.toMerge kept next).map (EHBucket.map behaviour) := by
  rw [EHSketchKind.toMerge, EHSketchKind.toMerge]
  simp only [EHBucket.map]
  rw [carries.merge]
  cases kind.merge kept.bucket next.bucket with
  | error refusal => rfl
  | ok merged =>
    simp only [Except.map]
    rw [carries.computeL2Mass]
    rfl

theorem Carries.mergeAtIndex (payload : List (EHBucket Sketch)) (index : ℕ) :
    abstract.mergeAtIndex (payload.map (EHBucket.map behaviour)) index =
      seen behaviour (kind.mergeAtIndex payload index) := by
  rw [EHSketchKind.mergeAtIndex, EHSketchKind.mergeAtIndex, List.getElem?_map, List.getElem?_map]
  cases payload[index]? with
  | none => rfl
  | some kept =>
    cases payload[index + 1]? with
    | none => rfl
    | some next =>
      simp only [Option.map_some]
      rw [carries.toMerge]
      cases kind.toMerge kept next with
      | error refusal => rfl
      | ok merged =>
        simp only [Except.map, seen]
        rw [← List.map_set, List.eraseIdx_map]

theorem Carries.mergeCrowded (k sameSizeVol : ℕ) (payload : List (EHBucket Sketch)) (index : ℕ) :
    abstract.mergeCrowded k sameSizeVol (payload.map (EHBucket.map behaviour)) index =
      seen behaviour (kind.mergeCrowded k sameSizeVol payload index) := by
  rw [EHSketchKind.mergeCrowded, EHSketchKind.mergeCrowded]
  split
  · exact carries.mergeAtIndex payload index
  · rfl

end

theorem sizeAt_map (payload : List (EHBucket Sketch)) (index : ℕ) :
    sizeAt (payload.map (EHBucket.map behaviour)) index = sizeAt payload index := by
  rw [sizeAt, sizeAt, List.getElem?_map, Option.map_map]
  rfl

section

variable (carries : Carries kind abstract behaviour)

include carries

theorem Carries.visitL1 (k i sameSizeVol : ℕ) (payload : List (EHBucket Sketch)) :
    abstract.visitL1 k i sameSizeVol (payload.map (EHBucket.map behaviour)) =
      seen behaviour (kind.visitL1 k i sameSizeVol payload) := by
  rw [EHSketchKind.visitL1, EHSketchKind.visitL1, sizeAt_map, sizeAt_map]
  split
  · rfl
  · simp only [carries.mergeCrowded, seen, sizeAt_map, List.length_map]

theorem Carries.finishL1 (k sameSizeVol : ℕ) (payload : List (EHBucket Sketch)) :
    abstract.finishL1 k sameSizeVol (payload.map (EHBucket.map behaviour)) =
      seen behaviour (kind.finishL1 k sameSizeVol payload) := by
  rw [EHSketchKind.finishL1, EHSketchKind.finishL1, List.length_map]
  split
  · exact carries.mergeCrowded k sameSizeVol payload 0
  · rfl

theorem Carries.scanL1 (k i sameSizeVol : ℕ) (payload : List (EHBucket Sketch)) :
    abstract.scanL1 k i sameSizeVol (payload.map (EHBucket.map behaviour)) =
      seen behaviour (kind.scanL1 k i sameSizeVol payload) := by
  induction i generalizing sameSizeVol payload with
  | zero =>
    rw [EHSketchKind.scanL1, EHSketchKind.scanL1, carries.visitL1]
    obtain ⟨visited, outcome⟩ := kind.visitL1 k 0 sameSizeVol payload
    cases outcome with
    | ok counted => exact carries.finishL1 k counted visited
    | error refusal => rfl
  | succ i hypothesis =>
    rw [EHSketchKind.scanL1, EHSketchKind.scanL1, carries.visitL1]
    obtain ⟨visited, outcome⟩ := kind.visitL1 k (i + 1) sameSizeVol payload
    cases outcome with
    | ok counted => exact hypothesis counted visited
    | error refusal => rfl

end

theorem candidateBelow_map (k : ℕ) (payload : List (EHBucket Sketch)) (count : ℕ) (newer : ℚ) :
    candidateBelow arith k (payload.map (EHBucket.map behaviour)) count newer =
      candidateBelow arith k payload count newer := by
  induction count generalizing newer with
  | zero => rfl
  | succ i hypothesis =>
    have masses : ∀ index, (payload.map (EHBucket.map behaviour))[index]?.map EHBucket.l2Mass =
        payload[index]?.map EHBucket.l2Mass := fun index => by
      rw [List.getElem?_map, Option.map_map]
      rfl
    simp only [candidateBelow, masses, hypothesis]

theorem Carries.mergeRounds (carries : Carries kind abstract behaviour) (k rounds : ℕ)
    (payload : List (EHBucket Sketch)) :
    abstract.mergeRounds arith k rounds (payload.map (EHBucket.map behaviour)) =
      seen behaviour (kind.mergeRounds arith k rounds payload) := by
  induction rounds generalizing payload with
  | zero => rfl
  | succ rounds hypothesis =>
    rw [EHSketchKind.mergeRounds, EHSketchKind.mergeRounds, findL2MergeCandidate,
      candidateBelow_map, List.length_map, ← findL2MergeCandidate]
    cases findL2MergeCandidate arith k payload with
    | none => rfl
    | some index =>
      simp only [carries.mergeAtIndex]
      obtain ⟨merged, outcome⟩ := kind.mergeAtIndex payload index
      cases outcome with
      | ok done => exact hypothesis merged
      | error refusal => rfl

variable (arith) in
theorem Carries.mergeVolumes (carries : Carries kind abstract behaviour)
    (eh : ExponentialHistogram Sketch) (payload : List (EHBucket Sketch)) :
    abstract.mergeVolumes arith (eh.map behaviour) (payload.map (EHBucket.map behaviour)) =
      seen behaviour (kind.mergeVolumes arith eh payload) := by
  rw [EHSketchKind.mergeVolumes, EHSketchKind.mergeVolumes]
  simp only [ExponentialHistogram.map]
  cases eh.mergeNorm with
  | l1 =>
    simp only [mergeVolumesL1, List.length_map]
    split
    · rfl
    · exact carries.scanL1 eh.k _ 1 payload
  | l2 =>
    simp only [mergeVolumesL2, List.length_map]
    exact carries.mergeRounds eh.k payload.length payload

/-! ### Updates -/

theorem Carries.update (carries : Carries kind abstract behaviour)
    (eh : ExponentialHistogram Sketch) (time : ℕ) (input : Input) :
    (kind.update arith eh time input).map behaviour =
      abstract.update arith (eh.map behaviour) time input := by
  have kept : retained (eh.map behaviour) time =
      (retained eh time).map (EHBucket.map behaviour) := by
    rw [retained, retained, ExponentialHistogram.map, List.dropWhile_map]
    rfl
  have fresh : abstract.newBucket (eh.map behaviour) time input =
      (kind.newBucket eh time input).map behaviour := by
    simp only [newBucket, ExponentialHistogram.map, EHBucket.map, carries.insert,
      carries.computeL2Mass]
  have merged := carries.mergeVolumes arith eh
    (retained eh time ++ [kind.newBucket eh time input])
  rw [List.map_append, List.map_singleton, ← kept, ← fresh] at merged
  rw [EHSketchKind.update, EHSketchKind.update, merged]
  rfl

theorem Carries.updateAll (carries : Carries kind abstract behaviour)
    {eh eh' : ExponentialHistogram Sketch} (alike : eh.map behaviour = eh'.map behaviour)
    (updates : List (ℕ × Input)) : (kind.updateAll arith eh updates).map behaviour =
      (kind.updateAll arith eh' updates).map behaviour := by
  induction updates generalizing eh eh' with
  | nil => exact alike
  | cons entry rest hypothesis =>
    refine hypothesis ?_
    rw [carries.update, carries.update, alike]

end EHSketchKind

end AsapSketchlib
