/-
This file develops lists of buckets that cut a stream into consecutive blocks, each held by
the bucket at its place. Buckets may be appended, dropped from the front and merged with a
neighbour; what a bucket holds then changes as the stream it stands for does. Where each
bucket knows the span of its block, buckets of an ordered stream are ordered too.
-/

import Mathlib.Data.List.Forall2
import Mathlib.Data.List.Infix
import Mathlib.Data.List.TakeWhile
import Mathlib.Order.MinMax

namespace AsapSketchlib

variable {Update Bucket Other Time : Type}

/-! ### Merging neighbours -/

/-- One list of buckets comes from another by merging neighbours, any number of times. -/
inductive Coarsens (merges : Bucket → Bucket → Bucket → Prop) : List Bucket → List Bucket → Prop
  | refl (buckets : List Bucket) : Coarsens merges buckets buckets
  | step {older newer merged : Bucket} {coarser : List Bucket} (front back : List Bucket)
      (joined : merges older newer merged)
      (rest : Coarsens merges (front ++ merged :: back) coarser) :
      Coarsens merges (front ++ older :: newer :: back) coarser

variable {merges : Bucket → Bucket → Bucket → Prop}

theorem Coarsens.one {older newer merged : Bucket} (front back : List Bucket)
    (joined : merges older newer merged) :
    Coarsens merges (front ++ older :: newer :: back) (front ++ merged :: back) :=
  .step front back joined (.refl _)

theorem Coarsens.trans {buckets coarser coarsest : List Bucket}
    (first : Coarsens merges buckets coarser) (second : Coarsens merges coarser coarsest) :
    Coarsens merges buckets coarsest := by
  induction first with
  | refl buckets => exact second
  | step front back joined rest hypothesis =>
    exact .step front back joined (hypothesis second)

theorem Coarsens.preserves {motive : List Bucket → Prop} {buckets coarser : List Bucket}
    (coarsens : Coarsens merges buckets coarser)
    (keeps : ∀ front back older newer merged, merges older newer merged →
      motive (front ++ older :: newer :: back) → motive (front ++ merged :: back))
    (holds : motive buckets) : motive coarser := by
  induction coarsens with
  | refl buckets => exact holds
  | step front back joined rest hypothesis =>
    exact hypothesis (keeps front back _ _ _ joined holds)

theorem Coarsens.append_left {buckets coarser : List Bucket} (front : List Bucket)
    (coarsens : Coarsens merges buckets coarser) :
    Coarsens merges (front ++ buckets) (front ++ coarser) := by
  induction coarsens with
  | refl buckets => exact .refl _
  | step inner back joined rest hypothesis =>
    rw [← List.append_assoc] at hypothesis ⊢
    exact .step (front ++ inner) back joined hypothesis

theorem Coarsens.append_right {buckets coarser : List Bucket}
    (coarsens : Coarsens merges buckets coarser) (back : List Bucket) :
    Coarsens merges (buckets ++ back) (coarser ++ back) := by
  induction coarsens with
  | refl buckets => exact .refl _
  | step front inner joined rest hypothesis =>
    rw [List.append_assoc] at hypothesis ⊢
    exact .step front (inner ++ back) joined hypothesis

theorem Coarsens.map {mergesOther : Other → Other → Other → Prop} {label : Bucket → Other}
    {buckets coarser : List Bucket} (coarsens : Coarsens merges buckets coarser)
    (imp : ∀ older newer merged, merges older newer merged →
      mergesOther (label older) (label newer) (label merged)) :
    Coarsens mergesOther (buckets.map label) (coarser.map label) := by
  induction coarsens with
  | refl buckets => exact .refl _
  | step front back joined rest hypothesis =>
    rw [List.map_append] at hypothesis ⊢
    exact .step (front.map label) (back.map label) (imp _ _ _ joined) hypothesis

/-! ### Cutting a stream -/

/-- The buckets cut the stream into consecutive blocks, one held by each. -/
def CutBy (holds : List Update → Bucket → Prop) (stream : List Update) (buckets : List Bucket) :
    Prop :=
  ∃ blocks : List (List Update), blocks.flatten = stream ∧ List.Forall₂ holds blocks buckets

namespace CutBy

variable {holds : List Update → Bucket → Prop} {stream early late : List Update}
  {buckets front back : List Bucket}

theorem nil : CutBy holds [] [] := ⟨[], rfl, .nil⟩

theorem singleton {block : List Update} {bucket : Bucket} (held : holds block bucket) :
    CutBy holds block [bucket] :=
  ⟨[block], List.append_nil block, .cons held .nil⟩

theorem append (first : CutBy holds early front) (second : CutBy holds late back) :
    CutBy holds (early ++ late) (front ++ back) := by
  obtain ⟨firstBlocks, firstEq, firstHeld⟩ := first
  obtain ⟨secondBlocks, secondEq, secondHeld⟩ := second
  refine ⟨firstBlocks ++ secondBlocks, ?_, List.rel_append firstHeld secondHeld⟩
  rw [List.flatten_append, firstEq, secondEq]

theorem split (cut : CutBy holds stream (front ++ back)) :
    ∃ early late, stream = early ++ late ∧ CutBy holds early front ∧ CutBy holds late back := by
  obtain ⟨blocks, flat, held⟩ := cut
  refine ⟨(blocks.take front.length).flatten, (blocks.drop front.length).flatten, ?_, ?_, ?_⟩
  · rw [← List.flatten_append, List.take_append_drop, flat]
  · exact ⟨_, rfl, List.forall₂_take_append blocks front back held⟩
  · exact ⟨_, rfl, List.forall₂_drop_append blocks front back held⟩

theorem cons_split {bucket : Bucket} (cut : CutBy holds stream (bucket :: back)) :
    ∃ block late, stream = block ++ late ∧ holds block bucket ∧ CutBy holds late back := by
  obtain ⟨blocks, flat, held⟩ := cut
  cases held with
  | cons head tail => exact ⟨_, _, flat.symm, head, _, rfl, tail⟩

theorem cons {bucket : Bucket} {block : List Update} (held : holds block bucket)
    (cut : CutBy holds late back) : CutBy holds (block ++ late) (bucket :: back) :=
  (singleton held).append cut

theorem block_of_mem (cut : CutBy holds stream buckets) {bucket : Bucket}
    (member : bucket ∈ buckets) : ∃ block, block <:+: stream ∧ holds block bucket := by
  obtain ⟨front, back, rfl⟩ := List.append_of_mem member
  obtain ⟨early, rest, rfl, -, restCut⟩ := cut.split
  obtain ⟨block, late, rfl, held, -⟩ := restCut.cons_split
  exact ⟨block, ⟨early, late, List.append_assoc _ _ _⟩, held⟩

theorem bucket_of_mem (cut : CutBy holds stream buckets) {update : Update}
    (member : update ∈ stream) :
    ∃ bucket ∈ buckets, ∃ block, update ∈ block ∧ holds block bucket := by
  obtain ⟨blocks, rfl, held⟩ := cut
  induction held with
  | nil => exact absurd member List.not_mem_nil
  | @cons block bucket blocks buckets head tail hypothesis =>
    rcases List.mem_append.mp member with inside | later
    · exact ⟨bucket, List.mem_cons_self, block, inside, head⟩
    · obtain ⟨other, otherMember, found⟩ := hypothesis later
      exact ⟨other, List.mem_cons_of_mem bucket otherMember, found⟩

theorem coarsens {coarser : List Bucket} (cut : CutBy holds stream buckets)
    (joins : ∀ first second older newer merged, holds first older → holds second newer →
      merges older newer merged → holds (first ++ second) merged)
    (coarsens : Coarsens merges buckets coarser) : CutBy holds stream coarser := by
  refine coarsens.preserves ?_ cut
  intro front back older newer merged joined cut
  obtain ⟨early, rest, rfl, earlyCut, restCut⟩ := cut.split
  obtain ⟨first, rest, rfl, firstHeld, restCut⟩ := restCut.cons_split
  obtain ⟨second, late, rfl, secondHeld, lateCut⟩ := restCut.cons_split
  refine earlyCut.append ?_
  rw [← List.append_assoc]
  exact lateCut.cons (joins first second older newer merged firstHeld secondHeld joined)

theorem replace {old new : Bucket} (cut : CutBy holds stream (front ++ old :: back))
    (imp : ∀ block, holds block old → holds block new) :
    CutBy holds stream (front ++ new :: back) := by
  obtain ⟨early, rest, rfl, earlyCut, restCut⟩ := cut.split
  obtain ⟨block, late, rfl, held, lateCut⟩ := restCut.cons_split
  exact earlyCut.append (lateCut.cons (imp block held))

theorem map (label : Bucket → Other) {holdsOther : List Update → Other → Prop}
    (cut : CutBy holds stream buckets)
    (imp : ∀ block bucket, holds block bucket → holdsOther block (label bucket)) :
    CutBy holdsOther stream (buckets.map label) := by
  obtain ⟨blocks, flat, held⟩ := cut
  refine ⟨blocks, flat, List.forall₂_map_right_iff.mpr (held.imp ?_)⟩
  exact fun block bucket => imp block bucket

theorem mono {weaker : List Update → Bucket → Prop} (cut : CutBy holds stream buckets)
    (imp : ∀ block bucket, holds block bucket → weaker block bucket) :
    CutBy weaker stream buckets := by
  have mapped := cut.map id imp
  rwa [List.map_id] at mapped

end CutBy

/-! ### The span of a block -/

section Spans

variable [LinearOrder Time] (time : Update → Time)

/-- The earliest and the latest time of a block. -/
structure Spans (block : List Update) (minTime maxTime : Time) : Prop where
  bounds : ∀ update ∈ block, minTime ≤ time update ∧ time update ≤ maxTime
  first : ∃ update ∈ block, time update = minTime
  last : ∃ update ∈ block, time update = maxTime

variable {time}

theorem Spans.singleton (update : Update) : Spans time [update] (time update) (time update) where
  bounds := by
    intro other member
    rw [List.mem_singleton.mp member]
    exact ⟨le_refl _, le_refl _⟩
  first := ⟨update, List.mem_singleton_self update, rfl⟩
  last := ⟨update, List.mem_singleton_self update, rfl⟩

theorem Spans.le {block : List Update} {minTime maxTime : Time}
    (spans : Spans time block minTime maxTime) : minTime ≤ maxTime := by
  obtain ⟨update, member, rfl⟩ := spans.first
  exact (spans.bounds update member).2

theorem Spans.append {first second : List Update} {min₁ max₁ min₂ max₂ : Time}
    (left : Spans time first min₁ max₁) (right : Spans time second min₂ max₂) :
    Spans time (first ++ second) (min min₁ min₂) (max max₁ max₂) where
  bounds := by
    intro update member
    rcases List.mem_append.mp member with inFirst | inSecond
    · have bounds := left.bounds update inFirst
      exact ⟨(min_le_left _ _).trans bounds.1, bounds.2.trans (le_max_left _ _)⟩
    · have bounds := right.bounds update inSecond
      exact ⟨(min_le_right _ _).trans bounds.1, bounds.2.trans (le_max_right _ _)⟩
  first := by
    rcases min_choice min₁ min₂ with isLeft | isRight
    · obtain ⟨update, member, equal⟩ := left.first
      exact ⟨update, List.mem_append_left _ member, equal.trans isLeft.symm⟩
    · obtain ⟨update, member, equal⟩ := right.first
      exact ⟨update, List.mem_append_right _ member, equal.trans isRight.symm⟩
  last := by
    rcases max_choice max₁ max₂ with isLeft | isRight
    · obtain ⟨update, member, equal⟩ := left.last
      exact ⟨update, List.mem_append_left _ member, equal.trans isLeft.symm⟩
    · obtain ⟨update, member, equal⟩ := right.last
      exact ⟨update, List.mem_append_right _ member, equal.trans isRight.symm⟩

theorem CutBy.ordered {holds : List Update → Bucket → Prop} {minTime maxTime : Bucket → Time}
    {stream : List Update} {buckets : List Bucket} (cut : CutBy holds stream buckets)
    (spans : ∀ block bucket, holds block bucket →
      Spans time block (minTime bucket) (maxTime bucket))
    (sorted : stream.Pairwise fun earlier later => time earlier ≤ time later) :
    (∀ bucket ∈ buckets, minTime bucket ≤ maxTime bucket) ∧
      buckets.Pairwise fun older newer => maxTime older ≤ minTime newer := by
  obtain ⟨blocks, rfl, held⟩ := cut
  induction held with
  | nil => exact ⟨fun bucket member => absurd member List.not_mem_nil, List.Pairwise.nil⟩
  | @cons block bucket blocks buckets head tail hypothesis =>
    rw [List.flatten_cons, List.pairwise_append] at sorted
    obtain ⟨-, sortedRest, across⟩ := sorted
    obtain ⟨within, ordered⟩ := hypothesis sortedRest
    refine ⟨List.forall_mem_cons.mpr ⟨(spans block bucket head).le, within⟩,
      List.pairwise_cons.mpr ⟨?_, ordered⟩⟩
    intro newer member
    obtain ⟨newerBlock, inside, newerHeld⟩ := block_of_mem ⟨blocks, rfl, tail⟩ member
    obtain ⟨last, lastMember, lastEq⟩ := (spans block bucket head).last
    obtain ⟨first, firstMember, firstEq⟩ := (spans newerBlock newer newerHeld).first
    rw [← lastEq, ← firstEq]
    exact across last lastMember first (inside.subset firstMember)

/-! ### Expiry -/

/-- Where nothing newer expires before what is older, dropping from the front can be done part
by part. -/
theorem dropWhile_append_of_stays {expires : Bucket → Bool} {older newer : List Bucket}
    (stays : ∀ bucket ∈ older, expires bucket = false → ∀ later ∈ newer, expires later = false) :
    (older ++ newer).dropWhile expires = older.dropWhile expires ++ newer.dropWhile expires := by
  induction older with
  | nil => rfl
  | cons first rest hypothesis =>
    rw [List.cons_append]
    cases firstExpires : expires first with
    | true =>
      rw [List.dropWhile_cons_of_pos firstExpires, List.dropWhile_cons_of_pos firstExpires]
      exact hypothesis fun bucket member =>
        stays bucket (List.mem_cons_of_mem first member)
    | false =>
      have kept : newer.dropWhile expires = newer := by
        cases newer with
        | nil => rfl
        | cons next later =>
          exact List.dropWhile_cons_of_neg (ne_true_of_eq_false
            (stays first List.mem_cons_self firstExpires next List.mem_cons_self))
      rw [List.dropWhile_cons_of_neg (ne_true_of_eq_false firstExpires),
        List.dropWhile_cons_of_neg (ne_true_of_eq_false firstExpires), kept, List.cons_append]

/-- The buckets cut what is left of the stream, and all that is gone is earlier than a bound. -/
def Partitions (time : Update → Time) (holds : List Update → Bucket → Prop) (bound : Time)
    (stream : List Update) (buckets : List Bucket) : Prop :=
  ∃ expired held, stream = expired ++ held ∧ CutBy holds held buckets ∧
    ∀ update ∈ expired, time update < bound

namespace Partitions

variable {holds : List Update → Bucket → Prop} {bound : Time} {stream : List Update}
  {buckets : List Bucket}

theorem empty : Partitions time holds bound [] [] :=
  ⟨[], [], rfl, .nil, fun _ member => absurd member List.not_mem_nil⟩

theorem expire {front back : List Bucket} {later : Time} {minTime maxTime : Bucket → Time}
    (partitions : Partitions time holds bound stream (front ++ back)) (le : bound ≤ later)
    (spans : ∀ block bucket, holds block bucket →
      Spans time block (minTime bucket) (maxTime bucket))
    (old : ∀ bucket ∈ front, maxTime bucket < later) :
    Partitions time holds later stream back := by
  obtain ⟨expired, held, rfl, cut, gone⟩ := partitions
  obtain ⟨early, late, rfl, earlyCut, lateCut⟩ := cut.split
  refine ⟨expired ++ early, late, (List.append_assoc _ _ _).symm, lateCut, ?_⟩
  intro update member
  rcases List.mem_append.mp member with before | dropped
  · exact lt_of_lt_of_le (gone update before) le
  · obtain ⟨bucket, bucketMember, block, inside, bucketHeld⟩ := earlyCut.bucket_of_mem dropped
    exact lt_of_le_of_lt ((spans block bucket bucketHeld).bounds update inside).2
      (old bucket bucketMember)

theorem replace {old new : Bucket} {front back : List Bucket}
    (partitions : Partitions time holds bound stream (front ++ old :: back))
    (imp : ∀ block, holds block old → holds block new) :
    Partitions time holds bound stream (front ++ new :: back) := by
  obtain ⟨expired, held, rfl, cut, gone⟩ := partitions
  exact ⟨expired, held, rfl, cut.replace imp, gone⟩

theorem expireWhile {later : Time} {minTime maxTime : Bucket → Time}
    (partitions : Partitions time holds bound stream buckets) (le : bound ≤ later)
    (spans : ∀ block bucket, holds block bucket →
      Spans time block (minTime bucket) (maxTime bucket)) :
    Partitions time holds later stream
      (buckets.dropWhile fun bucket => maxTime bucket < later) := by
  rw [← List.takeWhile_append_dropWhile (p := fun bucket => maxTime bucket < later)
    (l := buckets)] at partitions
  refine partitions.expire le spans fun bucket member => ?_
  have expired := List.mem_takeWhile_imp member
  exact of_decide_eq_true expired

theorem ordered {minTime maxTime : Bucket → Time}
    (partitions : Partitions time holds bound stream buckets)
    (spans : ∀ block bucket, holds block bucket →
      Spans time block (minTime bucket) (maxTime bucket))
    (sorted : stream.Pairwise fun earlier later => time earlier ≤ time later) :
    (∀ bucket ∈ buckets, minTime bucket ≤ maxTime bucket) ∧
      buckets.Pairwise fun older newer => maxTime older ≤ minTime newer := by
  obtain ⟨expired, held, rfl, cut, -⟩ := partitions
  exact cut.ordered spans (List.pairwise_append.mp sorted).2.1

theorem push {update : Update} {bucket : Bucket}
    (partitions : Partitions time holds bound stream buckets) (held : holds [update] bucket) :
    Partitions time holds bound (stream ++ [update]) (buckets ++ [bucket]) := by
  obtain ⟨expired, rest, rfl, cut, gone⟩ := partitions
  exact ⟨expired, rest ++ [update], List.append_assoc _ _ _, cut.append (.singleton held), gone⟩

theorem coarsens {coarser : List Bucket}
    (partitions : Partitions time holds bound stream buckets)
    (joins : ∀ first second older newer merged, holds first older → holds second newer →
      merges older newer merged → holds (first ++ second) merged)
    (coarsens : Coarsens merges buckets coarser) :
    Partitions time holds bound stream coarser := by
  obtain ⟨expired, held, rfl, cut, gone⟩ := partitions
  exact ⟨expired, held, rfl, cut.coarsens joins coarsens, gone⟩

end Partitions

def lastTime (time : Update → ℕ) (stream : List Update) : ℕ := (stream.getLast?.map time).getD 0

theorem lastTime_append_singleton (time : Update → ℕ) (stream : List Update) (update : Update) :
    lastTime time (stream ++ [update]) = time update := by
  unfold lastTime
  rw [List.getLast?_append, List.getLast?_singleton]
  rfl

theorem lastTime_le {time : Update → ℕ} {stream : List Update} {update : Update}
    (sorted : (stream ++ [update]).Pairwise fun earlier later => time earlier ≤ time later) :
    lastTime time stream ≤ time update := by
  unfold lastTime
  cases last : stream.getLast? with
  | none => exact Nat.zero_le _
  | some earlier =>
    exact (List.pairwise_append.mp sorted).2.2 earlier (List.mem_of_getLast? last) update
      (List.mem_singleton_self update)

end Spans

end AsapSketchlib
