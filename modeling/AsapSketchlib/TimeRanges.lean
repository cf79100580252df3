/-
This file develops the selection of a run of time ranges for an interval. The ranges are in
order and do not overlap. The end points are each located in a range that contains them, with
the first range as the default, and the start may move to the next range where its end is the
nearer one. The run covers the interval exactly under a condition on where the end points lie.
-/

import Mathlib.Order.MinMax

namespace AsapSketchlib

structure TimeRanges where
  count : ℕ
  minTime : ℕ → ℕ
  maxTime : ℕ → ℕ

/-- `u64::abs_diff`. -/
def absDiff (left right : ℕ) : ℕ := (left - right) + (right - left)

namespace TimeRanges

def ofBuckets {Bucket : Type} (minTime maxTime : Bucket → ℕ) (buckets : List Bucket) :
    TimeRanges where
  count := buckets.length
  minTime index := (buckets[index]?.map minTime).getD 0
  maxTime index := (buckets[index]?.map maxTime).getD 0

variable (ranges : TimeRanges)

/-- The ranges are in order and do not overlap. -/
structure Ordered : Prop where
  within : ∀ i < ranges.count, ranges.minTime i ≤ ranges.maxTime i
  ordered : ∀ i j, i < j → j < ranges.count → ranges.maxTime i ≤ ranges.minTime j

def Contains (i time : ℕ) : Prop := ranges.minTime i ≤ time ∧ time ≤ ranges.maxTime i

def Inside (t1 t2 i : ℕ) : Prop := t1 ≤ ranges.minTime i ∧ ranges.maxTime i ≤ t2

def Overlaps (t1 t2 i : ℕ) : Prop := ranges.minTime i ≤ t2 ∧ t1 ≤ ranges.maxTime i

def NearerEnd (i time : ℕ) : Prop :=
  absDiff time (ranges.maxTime i) < absDiff time (ranges.minTime i)

instance (i time : ℕ) : Decidable (ranges.NearerEnd i time) :=
  inferInstanceAs (Decidable (_ < _))

/-- Ranges `first..=last` cover an interval: they contain every range inside it and, where any
range overlaps the interval, none that does not. Closeness then only decides about ranges that
contain an end point. -/
structure Covers (t1 t2 first last : ℕ) : Prop where
  inside : ∀ i < ranges.count, ranges.Inside t1 t2 i → first ≤ i ∧ i ≤ last
  overlaps : (∃ i < ranges.count, ranges.Overlaps t1 t2 i) →
    ∀ i, first ≤ i → i ≤ last → i < ranges.count ∧ ranges.Overlaps t1 t2 i
  closeness : (∃ i < ranges.count, ranges.Overlaps t1 t2 i) → ∀ i < ranges.count,
    ¬ranges.Contains i t1 → ¬ranges.Contains i t2 →
      ((first ≤ i ∧ i ≤ last) ↔ ranges.Inside t1 t2 i)

/-! ### Selection -/

/-- Moves a start to the next range where the end of the range is the nearer one. -/
def snap (t1 first : ℕ) : ℕ :=
  if ranges.NearerEnd first t1 ∧ first + 1 < ranges.count then first + 1 else first

def selectFrom (located : Option ℕ) (t1 : ℕ) : ℕ :=
  ranges.snap t1 (if t1 < ranges.minTime 0 then 0 else located.getD 0)

def selectTo (located : Option ℕ) (reachesEnd : Prop) [Decidable reachesEnd] (t2 : ℕ) : ℕ :=
  if reachesEnd ∧ ranges.maxTime (ranges.count - 1) < t2 then ranges.count - 1
  else located.getD 0

/-- A rule by which one range is located for each time that some range contains. -/
structure Locating (Locates : ℕ → ℕ → Prop) : Prop where
  sound : ∀ i time, Locates i time → i < ranges.count ∧ ranges.Contains i time
  complete : ∀ i < ranges.count, ∀ time, ranges.Contains i time → ∃ j, Locates j time

def Locating.Finds (Locates : ℕ → ℕ → Prop) (located : Option ℕ) (time : ℕ) : Prop :=
  ∀ i, located = some i ↔ Locates i time

/-! ### The condition -/

variable (Locates : ℕ → ℕ → Prop)

/-- Where a start lies so that the selection begins with `first`: in front of all ranges, in a
located range that no range at the very instant stands before, or in the gap behind a first
range of positive length. -/
inductive StartsAt (t1 : ℕ) : ℕ → Prop
  | front (before : t1 < ranges.minTime 0) : StartsAt t1 0
  | stays (i : ℕ) (located : Locates i t1) (none : ∀ j < i, ranges.minTime j < t1)
      (nearer : ¬(ranges.NearerEnd i t1 ∧ i + 1 < ranges.count)) : StartsAt t1 i
  | moves (i : ℕ) (located : Locates i t1) (none : ∀ j < i, ranges.minTime j < t1)
      (nearer : ranges.NearerEnd i t1) (more : i + 1 < ranges.count) : StartsAt t1 (i + 1)
  | gap (more : 1 < ranges.count) (long : ranges.minTime 0 < ranges.maxTime 0)
      (after : ranges.maxTime 0 < t1) (before : t1 < ranges.minTime 1) : StartsAt t1 1

/-- Where an end lies so that the selection misses nothing behind `first`: behind all ranges,
if those are looked at, or located at or behind every range that ends by then. -/
def EndsAt (reachesEnd : Prop) (t2 first : ℕ) : Prop :=
  (reachesEnd ∧ ranges.maxTime (ranges.count - 1) < t2) ∨
    ∀ j, first < j → j < ranges.count → ranges.maxTime j ≤ t2 → ∃ last, Locates last t2 ∧ j ≤ last

/-- No range overlaps the interval, or the selection begins with a range that has begun by the
end of the interval, and the end is located. -/
def WellCovered (reachesEnd : Prop) (t1 t2 : ℕ) : Prop :=
  (∀ i < ranges.count, ¬ranges.Overlaps t1 t2 i) ∨
    ∃ first < ranges.count, ranges.StartsAt Locates t1 first ∧ ranges.minTime first ≤ t2 ∧
      ranges.EndsAt Locates reachesEnd t2 first

variable {ranges Locates} {t1 t2 first last : ℕ}

theorem Locating.of_locate {locate : ℕ → Option ℕ}
    (finds : ∀ time, Locating.Finds Locates (locate time) time)
    (sound : ∀ i time, Locates i time → i < ranges.count ∧ ranges.Contains i time)
    (found : ∀ i < ranges.count, ∀ time, ranges.Contains i time → locate time ≠ none) :
    ranges.Locating Locates where
  sound := sound
  complete := by
    intro i bound time contains
    obtain ⟨j, located⟩ := Option.ne_none_iff_exists'.mp (found i bound time contains)
    exact ⟨j, (finds time j).mp located⟩

/-! ### Ranges of buckets -/

section Buckets

variable {Bucket : Type} {minTime maxTime : Bucket → ℕ} {buckets : List Bucket}

theorem contains_ofBuckets_iff {i time : ℕ} {bucket : Bucket} (found : buckets[i]? = some bucket) :
    (ofBuckets minTime maxTime buckets).Contains i time ↔
      minTime bucket ≤ time ∧ time ≤ maxTime bucket := by
  simp only [Contains, ofBuckets, found, Option.map_some, Option.getD_some]

theorem contains_ofBuckets_append {back : List Bucket} {i time : ℕ} (bound : i < buckets.length) :
    (ofBuckets minTime maxTime (buckets ++ back)).Contains i time ↔
      (ofBuckets minTime maxTime buckets).Contains i time := by
  simp only [Contains, ofBuckets, List.getElem?_append_left bound]

theorem ordered_ofBuckets (within : ∀ bucket ∈ buckets, minTime bucket ≤ maxTime bucket)
    (ordered : buckets.Pairwise fun older newer => maxTime older ≤ minTime newer) :
    (ofBuckets minTime maxTime buckets).Ordered where
  within := by
    intro i bound
    have bucketEq := List.getElem?_eq_getElem (l := buckets) bound
    simp only [ofBuckets, bucketEq, Option.map_some, Option.getD_some]
    exact within _ (List.getElem_mem _)
  ordered := by
    intro i j less bound
    have older := List.getElem?_eq_getElem (l := buckets) (less.trans bound)
    have newer := List.getElem?_eq_getElem (l := buckets) bound
    simp only [ofBuckets, older, newer, Option.map_some, Option.getD_some]
    exact List.pairwise_iff_getElem.mp ordered i j _ _ less

end Buckets

/-! ### Ranges and intervals -/

theorem Inside.overlaps {i : ℕ} (ordered : ranges.Ordered) (bound : i < ranges.count)
    (inside : ranges.Inside t1 t2 i) : ranges.Overlaps t1 t2 i := by
  have within := ordered.within i bound
  exact ⟨within.trans inside.2, inside.1.trans within⟩

theorem Overlaps.contains {i : ℕ} (overlaps : ranges.Overlaps t1 t2 i)
    (outside : ¬ranges.Inside t1 t2 i) : ranges.Contains i t1 ∨ ranges.Contains i t2 := by
  by_cases begins : t1 ≤ ranges.minTime i
  · have ends : ¬ranges.maxTime i ≤ t2 := fun ends => outside ⟨begins, ends⟩
    exact Or.inr ⟨overlaps.1, le_of_lt (not_le.mp ends)⟩
  · exact Or.inl ⟨le_of_lt (not_le.mp begins), overlaps.2⟩

theorem Covers.of_inside_overlaps
    (inside : ∀ i < ranges.count, ranges.Inside t1 t2 i → first ≤ i ∧ i ≤ last)
    (overlaps : (∃ i < ranges.count, ranges.Overlaps t1 t2 i) →
      ∀ i, first ≤ i → i ≤ last → i < ranges.count ∧ ranges.Overlaps t1 t2 i) :
    ranges.Covers t1 t2 first last where
  inside := inside
  overlaps := overlaps
  closeness := by
    intro some i bound notFirst notLast
    refine ⟨fun selected => ?_, fun within => inside i bound within⟩
    by_contra outside
    exact (Overlaps.contains (overlaps some i selected.1 selected.2).2 outside).elim notFirst
      notLast

theorem Covers.of_disjoint (ordered : ranges.Ordered)
    (disjoint : ∀ i < ranges.count, ¬ranges.Overlaps t1 t2 i) :
    ranges.Covers t1 t2 first last := by
  refine Covers.of_inside_overlaps ?_ ?_
  · exact fun i bound inside => absurd (inside.overlaps ordered bound) (disjoint i bound)
  · rintro ⟨i, bound, overlaps⟩
    exact absurd overlaps (disjoint i bound)

/-! ### The start -/

theorem snap_lt (bound : first < ranges.count) : ranges.snap t1 first < ranges.count := by
  unfold snap
  split
  · next nearer => exact nearer.2
  · exact bound

section

variable (locating : ranges.Locating Locates) {located : Option ℕ}
  (found : Locating.Finds Locates located t1) (nonempty : 0 < ranges.count)

include locating found nonempty

theorem start_lt : (if t1 < ranges.minTime 0 then 0 else located.getD 0) < ranges.count := by
  split
  · exact nonempty
  · cases located with
    | none => exact nonempty
    | some i => exact (locating.sound i t1 ((found i).mp rfl)).1

theorem selectFrom_lt :
    ranges.selectFrom located t1 < ranges.count := snap_lt (start_lt locating found nonempty)

end

theorem not_nearerEnd {i : ℕ} (ordered : ranges.Ordered) (bound : i < ranges.count)
    (before : t1 ≤ ranges.minTime i) : ¬ranges.NearerEnd i t1 := by
  have within := ordered.within i bound
  unfold NearerEnd absDiff
  omega

theorem nearerEnd_iff_of_after {i : ℕ} (ordered : ranges.Ordered) (bound : i < ranges.count)
    (after : ranges.maxTime i < t1) :
    ranges.NearerEnd i t1 ↔ ranges.minTime i < ranges.maxTime i := by
  have within := ordered.within i bound
  unfold NearerEnd absDiff
  omega

/-- The selection begins well: its first range does not end before the interval, and every
range before it begins earlier than the interval. -/
structure Begins (ranges : TimeRanges) (t1 first : ℕ) : Prop where
  reaches : t1 ≤ ranges.maxTime first
  earlier : ∀ j < first, ranges.minTime j < t1

section

variable (ordered : ranges.Ordered) (locating : ranges.Locating Locates) {located : Option ℕ}
  (found : Locating.Finds Locates located t1)

include ordered locating found

/-- The first range selected is the one where the start lies, if that begins well. -/
theorem startsAt_of_begins (nonempty : 0 < ranges.count)
    (begins : ranges.Begins t1 (ranges.selectFrom located t1)) :
    ranges.StartsAt Locates t1 (ranges.selectFrom located t1) := by
  unfold selectFrom at begins ⊢
  by_cases before : t1 < ranges.minTime 0
  · have far : ¬(ranges.NearerEnd 0 t1 ∧ 0 + 1 < ranges.count) := fun nearer =>
      not_nearerEnd ordered nonempty (le_of_lt before) nearer.1
    unfold snap
    rw [if_pos before, if_neg far]
    exact .front before
  rw [if_neg before] at begins ⊢
  cases located with
  | some i =>
    have locates := (found i).mp rfl
    obtain ⟨bound, contains⟩ := locating.sound i t1 locates
    have none : ∀ j < i, ranges.minTime j < t1 := by
      intro j less
      refine begins.earlier j ?_
      unfold snap
      split
      · exact Nat.lt_succ_of_lt less
      · exact less
    unfold snap
    by_cases nearer : ranges.NearerEnd i t1 ∧ i + 1 < ranges.count
    · rw [Option.getD_some, if_pos nearer]
      exact .moves i locates none nearer.1 nearer.2
    · rw [Option.getD_some, if_neg nearer]
      exact .stays i locates none nearer
  | none =>
    have nowhere : ∀ i < ranges.count, ¬ranges.Contains i t1 := by
      intro i bound contains
      obtain ⟨j, locates⟩ := locating.complete i bound t1 contains
      exact absurd ((found j).mpr locates) (Option.some_ne_none j).symm
    have after : ranges.maxTime 0 < t1 := by
      by_contra reaches
      exact nowhere 0 nonempty ⟨not_lt.mp before, not_lt.mp reaches⟩
    rw [Option.getD_none] at begins ⊢
    by_cases nearer : ranges.NearerEnd 0 t1 ∧ 0 + 1 < ranges.count
    · have moved : ranges.snap t1 0 = 1 := if_pos nearer
      rw [moved] at begins ⊢
      have long := (nearerEnd_iff_of_after ordered nonempty after).mp nearer.1
      refine .gap nearer.2 long after ?_
      by_contra begun
      exact nowhere 1 nearer.2 ⟨not_lt.mp begun, begins.reaches⟩
    · have stays : ranges.snap t1 0 = 0 := if_neg nearer
      rw [stays] at begins
      exact absurd begins.reaches (not_le.mpr after)

/-- Where a start lies well, the first range selected is that range, and begins well. -/
theorem StartsAt.begins (bound : first < ranges.count) (starts : ranges.StartsAt Locates t1 first) :
    ranges.selectFrom located t1 = first ∧ ranges.Begins t1 first := by
  unfold selectFrom
  cases starts with
  | front before =>
    have far : ¬(ranges.NearerEnd 0 t1 ∧ 0 + 1 < ranges.count) := fun nearer =>
      not_nearerEnd ordered bound (le_of_lt before) nearer.1
    rw [if_pos before]
    exact ⟨if_neg far, (le_of_lt before).trans (ordered.within 0 bound),
      fun j less => absurd less (Nat.not_lt_zero j)⟩
  | stays _ locates none nearer =>
    have contains := (locating.sound first t1 locates).2
    have notBefore : ¬t1 < ranges.minTime 0 := by
      rcases Nat.eq_zero_or_pos first with rfl | positive
      · exact not_lt.mpr contains.1
      · exact not_lt.mpr (le_of_lt (none 0 positive))
    rw [if_neg notBefore, (found first).mpr locates, Option.getD_some]
    exact ⟨if_neg nearer, contains.2, none⟩
  | moves i locates none nearer more =>
    obtain ⟨inside, contains⟩ := locating.sound i t1 locates
    have notBefore : ¬t1 < ranges.minTime 0 := by
      rcases Nat.eq_zero_or_pos i with rfl | positive
      · exact not_lt.mpr contains.1
      · exact not_lt.mpr (le_of_lt (none 0 positive))
    rw [if_neg notBefore, (found i).mpr locates, Option.getD_some]
    refine ⟨if_pos ⟨nearer, more⟩, ?_, fun j less => ?_⟩
    · exact contains.2.trans ((ordered.ordered i (i + 1) (Nat.lt_succ_self i) more).trans
        (ordered.within (i + 1) more))
    · rcases Nat.lt_or_eq_of_le (Nat.lt_succ_iff.mp less) with earlier | rfl
      · exact none j earlier
      · refine lt_of_le_of_ne contains.1 fun equal => ?_
        exact not_nearerEnd ordered inside (le_of_eq equal.symm) nearer
  | gap more long after before =>
    have nonempty : 0 < ranges.count := Nat.zero_lt_of_lt more
    have beginsLater : ranges.minTime 0 < t1 := long.trans after
    have unlocated : located = none := by
      cases located with
      | none => rfl
      | some i =>
        obtain ⟨inside, contains⟩ := locating.sound i t1 ((found i).mp rfl)
        rcases Nat.eq_zero_or_pos i with rfl | positive
        · exact absurd contains.2 (not_le.mpr after)
        · rcases Nat.lt_or_eq_of_le (Nat.succ_le_of_lt positive) with later | rfl
          · have ends := ordered.within 1 more
            have next := ordered.ordered 1 i later inside
            exact absurd contains.1 (not_le.mpr (before.trans_le (ends.trans next)))
          · exact absurd contains.1 (not_le.mpr before)
    rw [if_neg (not_lt.mpr (le_of_lt beginsLater)), unlocated, Option.getD_none]
    refine ⟨if_pos ⟨(nearerEnd_iff_of_after ordered nonempty after).mpr long, more⟩,
      (le_of_lt before).trans (ordered.within 1 more), fun j less => ?_⟩
    rw [Nat.lt_one_iff.mp less]
    exact beginsLater

end

/-! ### The end -/

section Ends

variable {reachesEnd : Prop} [Decidable reachesEnd] {located : Option ℕ}

theorem minTime_le_of_le_selectTo (ordered : ranges.Ordered) (locating : ranges.Locating Locates)
    (found : Locating.Finds Locates located t2) {i : ℕ} (behind : first < i)
    (selected : i ≤ ranges.selectTo located reachesEnd t2) :
    i < ranges.count ∧ ranges.minTime i ≤ t2 := by
  unfold selectTo at selected
  split at selected
  · next ends =>
    have bound : i < ranges.count := by omega
    refine ⟨bound, (ordered.within i bound).trans (le_trans ?_ (le_of_lt ends.2))⟩
    rcases Nat.lt_or_eq_of_le selected with earlier | rfl
    · have last : ranges.count - 1 < ranges.count := by omega
      exact (ordered.ordered i _ earlier last).trans (ordered.within _ last)
    · exact le_refl _
  · cases located with
    | none =>
      rw [Option.getD_none] at selected
      exact absurd (Nat.lt_of_lt_of_le behind selected) (Nat.not_lt_zero first)
    | some last =>
      rw [Option.getD_some] at selected
      obtain ⟨inside, contains⟩ := locating.sound last t2 ((found last).mp rfl)
      refine ⟨Nat.lt_of_le_of_lt selected inside, ?_⟩
      rcases Nat.lt_or_eq_of_le selected with earlier | rfl
      · exact (ordered.within i (earlier.trans inside)).trans
          ((ordered.ordered i last earlier inside).trans contains.1)
      · exact contains.1

theorem endsAt_iff (found : Locating.Finds Locates located t2) :
    ranges.EndsAt Locates reachesEnd t2 first ↔ ∀ j, first < j → j < ranges.count →
      ranges.maxTime j ≤ t2 → j ≤ ranges.selectTo located reachesEnd t2 := by
  unfold EndsAt selectTo
  by_cases ends : reachesEnd ∧ ranges.maxTime (ranges.count - 1) < t2
  · rw [if_pos ends]
    exact ⟨fun _ j _ bound _ => Nat.le_sub_one_of_lt bound, fun _ => Or.inl ends⟩
  rw [if_neg ends, or_iff_right ends]
  refine forall_congr' fun j => forall_congr' fun behind => forall_congr' fun bound =>
    forall_congr' fun ended => ⟨?_, fun le => ?_⟩
  · rintro ⟨last, locates, le⟩
    rwa [(found last).mpr locates, Option.getD_some]
  · cases located with
    | none => exact absurd (Nat.lt_of_lt_of_le behind le) (Nat.not_lt_zero first)
    | some last => exact ⟨last, (found last).mp rfl, le⟩

/-- The selection covers an interval exactly where the end points lie well. -/
theorem covers_iff (ordered : ranges.Ordered) (locating : ranges.Locating Locates)
    {locatedFrom : Option ℕ} (foundFrom : Locating.Finds Locates locatedFrom t1)
    (foundTo : Locating.Finds Locates located t2) (nonempty : 0 < ranges.count) :
    ranges.Covers t1 t2 (ranges.selectFrom locatedFrom t1)
        (max (ranges.selectFrom locatedFrom t1) (ranges.selectTo located reachesEnd t2)) ↔
      ranges.WellCovered Locates reachesEnd t1 t2 := by
  have bound := selectFrom_lt locating foundFrom nonempty
  constructor
  · intro covers
    by_cases some : ∃ i < ranges.count, ranges.Overlaps t1 t2 i
    · have overlaps := (covers.overlaps some _ (le_refl _) (le_max_left _ _)).2
      have begins : ranges.Begins t1 (ranges.selectFrom locatedFrom t1) := by
        refine ⟨overlaps.2, fun j less => ?_⟩
        by_contra begins
        have inside : ranges.Inside t1 t2 j :=
          ⟨not_lt.mp begins, (ordered.ordered j _ less bound).trans overlaps.1⟩
        exact absurd (covers.inside j (less.trans bound) inside).1 (not_le.mpr less)
      refine Or.inr ⟨_, bound, startsAt_of_begins ordered locating foundFrom nonempty begins,
        overlaps.1, (endsAt_iff foundTo).mpr ?_⟩
      intro j behind inside ends
      have begun : t1 ≤ ranges.minTime j :=
        overlaps.2.trans (ordered.ordered _ j behind inside)
      rcases le_max_iff.mp (covers.inside j inside ⟨begun, ends⟩).2 with before | selected
      · exact absurd before (not_le.mpr behind)
      · exact selected
    · exact Or.inl fun i inside overlaps => some ⟨i, inside, overlaps⟩
  · rintro (disjoint | ⟨first, inside, starts, begun, ends⟩)
    · exact Covers.of_disjoint ordered disjoint
    obtain ⟨rfl, begins⟩ := starts.begins ordered locating foundFrom inside
    rw [endsAt_iff foundTo] at ends
    refine Covers.of_inside_overlaps ?_ ?_
    · intro i boundI insideI
      refine ⟨not_lt.mp fun less => ?_, ?_⟩
      · exact absurd insideI.1 (not_le.mpr (begins.earlier i less))
      · rcases Nat.lt_or_ge (ranges.selectFrom locatedFrom t1) i with behind | before
        · exact le_max_of_le_right (ends i behind boundI insideI.2)
        · exact le_max_of_le_left before
    · intro _ i after selected
      rcases Nat.lt_or_eq_of_le after with behind | rfl
      · have upTo : i ≤ ranges.selectTo located reachesEnd t2 :=
          (le_max_iff.mp selected).resolve_left (not_le.mpr behind)
        obtain ⟨boundI, begunI⟩ := minTime_le_of_le_selectTo ordered locating foundTo behind upTo
        exact ⟨boundI, begunI, begins.reaches.trans ((ordered.ordered _ i behind boundI).trans
          (ordered.within i boundI))⟩
      · exact ⟨bound, begun, begins.reaches⟩

end Ends

end TimeRanges

end AsapSketchlib
