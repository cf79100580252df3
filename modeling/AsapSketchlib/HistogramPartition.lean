/-
This file proves that the buckets of an exponential histogram cut what is left of the stream
into consecutive blocks. Both merge rules only ever merge neighbours, wherever their scans
stop, so each bucket is what one sketch fed its block would be, and time-ordered updates give
time-ordered buckets.
-/

import AsapSketchlib.Blocks
import AsapSketchlib.ExponentialHistogram
import AsapSketchlib.FastPath

namespace AsapSketchlib

/-! ### Neighbours in a list -/

theorem exists_split_pair {Entry : Type} {entries : List Entry} {index : ℕ} {kept next : Entry}
    (keptEq : entries[index]? = some kept) (nextEq : entries[index + 1]? = some next) :
    ∃ front back, entries = front ++ kept :: next :: back ∧ front.length = index := by
  obtain ⟨keptInside, rfl⟩ := List.getElem?_eq_some_iff.mp keptEq
  obtain ⟨nextInside, rfl⟩ := List.getElem?_eq_some_iff.mp nextEq
  refine ⟨entries.take index, entries.drop (index + 2), ?_, ?_⟩
  · rw [← List.drop_eq_getElem_cons nextInside, ← List.drop_eq_getElem_cons keptInside,
      List.take_append_drop]
  · rw [List.length_take, Nat.min_eq_left (Nat.le_of_lt keptInside)]

theorem set_eraseIdx_pair {Entry : Type} (front back : List Entry) (kept next merged : Entry) :
    ((front ++ kept :: next :: back).set front.length merged).eraseIdx (front.length + 1) =
      front ++ merged :: back := by
  rw [List.set_append_right _ _ (Nat.le_refl _), Nat.sub_self, List.set_cons_zero,
    List.eraseIdx_append_of_length_le (Nat.le_succ _), Nat.succ_sub (Nat.le_refl _),
    Nat.sub_self]
  rfl

namespace EHSketchKind

variable {Sketch Input : Type} {kind : EHSketchKind Sketch Input} {arith : MassArith}

/-! ### Merges merge neighbours -/

def Merges (kind : EHSketchKind Sketch Input) (older newer merged : EHBucket Sketch) : Prop :=
  kind.toMerge older newer = .ok merged

theorem mergeAtIndex_append (front back : List (EHBucket Sketch)) (kept next : EHBucket Sketch) :
    kind.mergeAtIndex (front ++ kept :: next :: back) front.length =
      match kind.toMerge kept next with
      | .ok merged => (front ++ merged :: back, .ok ())
      | .error refusal => (front ++ kept :: next :: back, .error refusal) := by
  have keptEq : (front ++ kept :: next :: back)[front.length]? = some kept := by
    rw [List.getElem?_append_right (Nat.le_refl _), Nat.sub_self]
    rfl
  have nextEq : (front ++ kept :: next :: back)[front.length + 1]? = some next := by
    rw [List.getElem?_append_right (Nat.le_succ _), Nat.succ_sub (Nat.le_refl _), Nat.sub_self]
    rfl
  unfold mergeAtIndex
  rw [keptEq, nextEq]
  cases merged : kind.toMerge kept next with
  | ok merged => simp only [merged, set_eraseIdx_pair]
  | error refusal => simp only [merged]

variable (kind) in
theorem mergeAtIndex_coarsens (payload : List (EHBucket Sketch)) (index : ℕ) :
    Coarsens kind.Merges payload (kind.mergeAtIndex payload index).1 := by
  cases keptEq : payload[index]? with
  | none =>
    unfold mergeAtIndex
    rw [keptEq]
    exact .refl payload
  | some kept =>
    cases nextEq : payload[index + 1]? with
    | none =>
      unfold mergeAtIndex
      rw [keptEq, nextEq]
      exact .refl payload
    | some next =>
      obtain ⟨front, back, rfl, rfl⟩ := exists_split_pair keptEq nextEq
      rw [mergeAtIndex_append]
      cases merged : kind.toMerge kept next with
      | ok merged => exact .one front back merged
      | error refusal => exact .refl _

theorem mergeCrowded_coarsens (k sameSizeVol : ℕ) (payload : List (EHBucket Sketch)) (index : ℕ) :
    Coarsens kind.Merges payload (kind.mergeCrowded k sameSizeVol payload index).1 := by
  unfold mergeCrowded
  split
  · exact mergeAtIndex_coarsens kind payload index
  · exact .refl payload

variable (kind) in
theorem visitL1_coarsens (k i sameSizeVol : ℕ) (payload : List (EHBucket Sketch)) :
    Coarsens kind.Merges payload (kind.visitL1 k i sameSizeVol payload).1 := by
  unfold visitL1
  split
  · exact .refl payload
  · exact mergeCrowded_coarsens k sameSizeVol payload (i + 1)

theorem finishL1_coarsens (k sameSizeVol : ℕ) (payload : List (EHBucket Sketch)) :
    Coarsens kind.Merges payload (kind.finishL1 k sameSizeVol payload).1 := by
  unfold finishL1
  split
  · exact mergeCrowded_coarsens k sameSizeVol payload 0
  · exact .refl payload

theorem scanL1_coarsens (k i sameSizeVol : ℕ) (payload : List (EHBucket Sketch)) :
    Coarsens kind.Merges payload (kind.scanL1 k i sameSizeVol payload).1 := by
  induction i generalizing sameSizeVol payload with
  | zero =>
    have visited := visitL1_coarsens kind k 0 sameSizeVol payload
    unfold scanL1
    split
    · next front counted visitEq =>
      rw [visitEq] at visited
      exact visited.trans (finishL1_coarsens k counted front)
    · next front refusal visitEq =>
      rw [visitEq] at visited
      exact visited
  | succ i hypothesis =>
    have visited := visitL1_coarsens kind k (i + 1) sameSizeVol payload
    unfold scanL1
    split
    · next front counted visitEq =>
      rw [visitEq] at visited
      exact visited.trans (hypothesis counted front)
    · next front refusal visitEq =>
      rw [visitEq] at visited
      exact visited

theorem mergeRounds_coarsens (k rounds : ℕ) (payload : List (EHBucket Sketch)) :
    Coarsens kind.Merges payload (kind.mergeRounds arith k rounds payload).1 := by
  induction rounds generalizing payload with
  | zero => exact .refl payload
  | succ rounds hypothesis =>
    unfold mergeRounds
    split
    · exact .refl payload
    · next index found =>
      have merged := mergeAtIndex_coarsens kind payload index
      split
      · next front mergeEq =>
        rw [mergeEq] at merged
        exact merged.trans (hypothesis front)
      · next front refusal mergeEq =>
        rw [mergeEq] at merged
        exact merged

theorem mergeVolumes_coarsens (eh : ExponentialHistogram Sketch)
    (payload : List (EHBucket Sketch)) :
    Coarsens kind.Merges payload (kind.mergeVolumes arith eh payload).1 := by
  unfold mergeVolumes
  cases eh.mergeNorm with
  | l1 =>
    show Coarsens kind.Merges payload (kind.mergeVolumesL1 eh.k payload).1
    unfold mergeVolumesL1
    split
    · exact .refl payload
    · exact scanL1_coarsens eh.k _ 1 payload
  | l2 => exact mergeRounds_coarsens eh.k payload.length payload

/-! ### What a bucket holds -/

/-- Merging two sketches that were fed from the prototype gives the one fed both. -/
def Homomorphic (kind : EHSketchKind Sketch Input) (prototype : Sketch) : Prop :=
  ∀ older newer merged,
    kind.merge (kind.feed prototype older) (kind.feed prototype newer) = .ok merged →
      merged = kind.feed prototype (older ++ newer)

/-- A bucket stands for a block of updates. -/
structure HeldBy (kind : EHSketchKind Sketch Input) (prototype : Sketch)
    (block : List (ℕ × Input)) (bucket : EHBucket Sketch) : Prop where
  spans : Spans Prod.fst block bucket.minTime bucket.maxTime
  size : bucket.size = block.length
  l2Mass : bucket.l2Mass = kind.computeL2Mass bucket.bucket
  contents : kind.Homomorphic prototype → bucket.bucket = kind.feed prototype (block.map Prod.snd)

def countMin (hasher : SketchHasher) : EHSketchKind CountMin DataInput where
  insert := CountMin.fastInsert hasher
  merge := fun sketch other =>
    match sketch.merge other with
    | some merged => .ok merged
    | none => .error "dimension mismatch while merging CountMin sketches"
  ehL2Mass := fun _ => none
  supportsNorm := fun _ norm => norm = .l1

theorem heldBy_newBucket (eh : ExponentialHistogram Sketch) (time : ℕ) (input : Input) :
    HeldBy kind eh.typeToClone [(time, input)] (kind.newBucket eh time input) where
  spans := Spans.singleton (time, input)
  size := rfl
  l2Mass := rfl
  contents := fun _ => rfl

theorem HeldBy.join {prototype : Sketch} {first second : List (ℕ × Input)}
    {older newer merged : EHBucket Sketch} (left : HeldBy kind prototype first older)
    (right : HeldBy kind prototype second newer) (joined : kind.Merges older newer merged) :
    HeldBy kind prototype (first ++ second) merged := by
  unfold Merges toMerge at joined
  cases union : kind.merge older.bucket newer.bucket with
  | error refusal =>
    rw [union] at joined
    exact absurd joined (by simp only [Except.map, reduceCtorEq, not_false_eq_true])
  | ok sketch =>
    rw [union] at joined
    obtain rfl := Except.ok.inj joined
    refine ⟨left.spans.append right.spans, ?_, rfl, fun homomorphic => ?_⟩
    · rw [List.length_append, ← left.size, ← right.size]
    · rw [List.map_append]
      refine homomorphic _ _ _ ?_
      rw [← left.contents homomorphic, ← right.contents homomorphic]
      exact union

/-! ### Runs -/

variable (kind) in
theorem partitions_update (arith : MassArith) (eh : ExponentialHistogram Sketch)
    {stream : List (ℕ × Input)} {time : ℕ} {input : Input}
    (sorted : (stream ++ [(time, input)]).Pairwise fun earlier later => earlier.1 ≤ later.1)
    (partitions : Partitions Prod.fst (HeldBy kind eh.typeToClone)
      (lastTime Prod.fst stream - eh.window) stream eh.payload) :
    Partitions Prod.fst (HeldBy kind eh.typeToClone)
      (lastTime Prod.fst (stream ++ [(time, input)]) - eh.window) (stream ++ [(time, input)])
      (kind.update arith eh time input).payload := by
  have later : lastTime Prod.fst stream ≤ time := lastTime_le sorted
  rw [lastTime_append_singleton]
  have fresh := partitions.expireWhile (Nat.sub_le_sub_right later eh.window)
    fun block bucket held => held.spans
  refine (fresh.push (heldBy_newBucket eh time input)).coarsens ?_
    (mergeVolumes_coarsens eh _)
  exact fun first second older newer merged left right joined => left.join right joined

section

variable (eh : ExponentialHistogram Sketch) (stream : List (ℕ × Input))

@[simp] theorem updateAll_append_singleton (time : ℕ) (input : Input) :
    kind.updateAll arith eh (stream ++ [(time, input)]) =
      kind.update arith (kind.updateAll arith eh stream) time input := by
  unfold updateAll
  rw [List.foldl_append]
  rfl

@[simp] theorem updateAll_window : (kind.updateAll arith eh stream).window = eh.window := by
  induction stream generalizing eh with
  | nil => rfl
  | cons first rest hypothesis => exact hypothesis _

@[simp] theorem updateAll_typeToClone :
    (kind.updateAll arith eh stream).typeToClone = eh.typeToClone := by
  induction stream generalizing eh with
  | nil => rfl
  | cons first rest hypothesis => exact hypothesis _

end

variable (kind arith) in
theorem partitions_updateAll (k window : ℕ) (prototype : Sketch) {stream : List (ℕ × Input)}
    (sorted : stream.Pairwise fun earlier later => earlier.1 ≤ later.1) :
    Partitions Prod.fst (HeldBy kind prototype) (lastTime Prod.fst stream - window) stream
      (kind.updateAll arith (kind.new k window prototype) stream).payload := by
  induction stream using List.reverseRecOn with
  | nil => exact .empty
  | append_singleton front last hypothesis =>
    have step := partitions_update kind arith
      (kind.updateAll arith (kind.new k window prototype) front) sorted
    rw [updateAll_append_singleton]
    rw [updateAll_window, updateAll_typeToClone] at step
    exact step (hypothesis (List.pairwise_append.mp sorted).1)

end EHSketchKind

end AsapSketchlib
