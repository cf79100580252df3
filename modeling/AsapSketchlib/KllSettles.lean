/-
This file says when a merge of two reachable KLL sketches leaves every level within its capacity.
The comment at the write-back takes this for granted. It fails when the load of a lower level is
within the capacity it has while the cascade passes it and over the one it has when the cascade has
made the sketch higher.
-/

import AsapSketchlib.KllMerge

namespace AsapSketchlib

namespace KLL

open Kll

variable {Value Coin : Type} {flips : CoinFlips Coin}

/-! ### What is known of a merge that went through -/

/-- No item is held, as `merge` asks of the other sketch. -/
def NoItems (sketch : KLL Value Coin) : Prop := sketch.start 0 = sketch.start sketch.numLevels

instance (sketch : KLL Value Coin) : Decidable sketch.NoItems :=
  inferInstanceAs (Decidable (_ = _))

section Merge

variable [LinearOrder Value] {sketch other : KLL Value Coin}

theorem merge_of_noItems (otherFormed : Formed other) (none : other.NoItems) :
    merge flips sketch other = some sketch := by
  unfold merge
  rw [otherFormed.getElem?_levels (Nat.zero_le _), otherFormed.getElem?_levels otherFormed.height]
  exact if_pos none.symm

theorem merge_eq_some {result : KLL Value Coin} (formed : Formed sketch)
    (otherFormed : Formed other) (ran : merge flips sketch other = some result) :
    (other.NoItems ∧ result = sketch) ∨
      (¬other.NoItems ∧ Room flips sketch other ∧ Merged flips sketch other result) := by
  by_cases none : other.NoItems
  · rw [merge_of_noItems otherFormed none] at ran
    exact .inl ⟨none, (Option.some.inj ran).symm⟩
  · obtain ⟨settled, last, same, sizes⟩ := merge_eq flips formed otherFormed none
    obtain ⟨fits, entry⟩ := writeBack_eq_some (same.symm.trans ran)
    have room : Room flips sketch other := by
      refine ⟨Nat.le_of_lt_succ (entry.trans_eq formed.length), ?_⟩
      rw [← total_congr fun h _ => sizes h]
      exact fits
    obtain ⟨merged, went, what⟩ := merge_of_room flips formed otherFormed none room
    obtain rfl : merged = result := Option.some.inj (went.symm.trans ran)
    exact .inr ⟨none, room, what⟩

theorem merge_runs_iff (formed : Formed sketch) (otherFormed : Formed other) :
    (∃ result, merge flips sketch other = some result) ↔
      other.NoItems ∨ Room flips sketch other := by
  constructor
  · rintro ⟨result, ran⟩
    exact (merge_eq_some formed otherFormed ran).imp And.left fun went => went.2.1
  · intro allowed
    by_cases none : other.NoItems
    · exact ⟨sketch, merge_of_noItems otherFormed none⟩
    · obtain ⟨result, ran, _⟩ := merge_of_room flips formed otherFormed none
        (allowed.resolve_left none)
      exact ⟨result, ran⟩

end Merge

/-! ### Reachable sketches -/

/-- The sketches that a program can have made, whatever the coins show. -/
inductive Reachable [LinearOrder Value] [Inhabited Value] (flips : CoinFlips Coin) : KLL Value Coin → Prop
  | init (k m : ℕ) (coin : Coin) (seed : Option (BitVec 64)) :
      Reachable flips (initInternal k m coin seed)
  | update {sketch pushed : KLL Value Coin} (before : Reachable flips sketch) (value : Value)
      (ran : pushValue flips sketch value = some pushed) : Reachable flips pushed
  | merge {sketch other result : KLL Value Coin} (left : Reachable flips sketch)
      (right : Reachable flips other) (ran : merge flips sketch other = some result) :
      Reachable flips result
  | clear {sketch : KLL Value Coin} (before : Reachable flips sketch) (clock : Coin) :
      Reachable flips (clear flips clock sketch)

theorem formed_merge [LinearOrder Value] {sketch other result : KLL Value Coin} (formed : Formed sketch)
    (otherFormed : Formed other) (ran : merge flips sketch other = some result) :
    Formed result := by
  rcases merge_eq_some formed otherFormed ran with ⟨_, rfl⟩ | ⟨_, _, merged⟩
  · exact formed
  · exact merged.formed

theorem Reachable.formed [LinearOrder Value] [Inhabited Value] {sketch : KLL Value Coin}
    (reached : Reachable flips sketch) : Formed sketch := by
  induction reached with
  | init k m coin seed => exact formed_initInternal k m coin seed
  | update _ value ran hypothesis => exact formed_pushValue hypothesis ran
  | merge _ _ ran leftHypothesis rightHypothesis =>
    exact formed_merge leftHypothesis rightHypothesis ran
  | clear _ clock hypothesis => exact formed_clear flips clock hypothesis

/-! ### Settled levels -/

/-- Every level is within the capacity it has at the height of the sketch. -/
def Settled (sketch : KLL Value Coin) : Prop :=
  ∀ h < sketch.numLevels, ∃ size, sketch.levelSize h = some size ∧
    size ≤ sketch.capacityForLevel h

/-- What the write-back says of a merge: every level is within its capacity, and what is stored
behind the levels is the end of the buffer. -/
structure MergeSettles (other result : KLL Value Coin) : Prop where
  settled : result.Settled
  sentinel : result.levels[result.numLevels]? = some result.maxCapacity
  beyond : ¬other.NoItems → ∀ h ≤ maxLevels, result.numLevels ≤ h →
    result.levels[h]? = some result.maxCapacity

/-- No load below the top level is within the capacity of its level when the cascade passes it and
over the capacity of its level at the height of the merged sketch. A sketch that is left as it is
has to be settled before. -/
def SettlesWhen (flips : CoinFlips Coin) (sketch other : KLL Value Coin) : Prop :=
  if other.NoItems then sketch.Settled
  else ∀ h < mergedTop sketch other,
    (mergedLoad flips sketch other h).1 ≤ mergedCapacity sketch other h →
      (mergedLoad flips sketch other h).1 ≤
        capacityAt sketch.k sketch.m (mergedHeight flips sketch other) h

theorem settled_iff {sketch : KLL Value Coin} (formed : Formed sketch) :
    sketch.Settled ↔ ∀ h < sketch.numLevels,
      sketch.sizeAt h ≤ capacityAt sketch.k sketch.m sketch.numLevels h := by
  refine forall₂_congr fun h inside => ?_
  rw [formed.levelSize_eq inside, capacityForLevel_eq formed.positive formed.cache formed.top]
  constructor
  · rintro ⟨size, same, fits⟩
    exact (Option.some.inj same).trans_le fits
  · exact fun fits => ⟨_, rfl, fits⟩

section Remaining

variable {sketch other : KLL Value Coin}

theorem remaining_top_le (formed : Formed sketch) {h : ℕ} (upper : mergedTop sketch other ≤ h) :
    remaining flips sketch other h ≤
      capacityAt sketch.k sketch.m (mergedHeight flips sketch other) h := by
  unfold remaining
  rw [if_neg (not_lt.mpr upper)]
  split
  · rename_i last
    unfold mergedHeight
    rw [last, capacityAt_top]
    exact grow_le_full flips (two_le_capacityAt formed 1 0) _ le_rfl _
  · exact Nat.zero_le _

/-- What is left in the levels is within their capacities when no load is between the two
capacities of its level. -/
theorem remaining_le_iff (formed : Formed sketch) :
    (∀ h < mergedHeight flips sketch other, remaining flips sketch other h ≤
        capacityAt sketch.k sketch.m (mergedHeight flips sketch other) h) ↔
      ∀ h < mergedTop sketch other,
        (mergedLoad flips sketch other h).1 ≤ mergedCapacity sketch other h →
          (mergedLoad flips sketch other h).1 ≤
            capacityAt sketch.k sketch.m (mergedHeight flips sketch other) h := by
  have lower : ∀ h < mergedTop sketch other, remaining flips sketch other h =
      kept (mergedCapacity sketch other h) (mergedLoad flips sketch other h).1 :=
    fun h below => if_pos below
  constructor
  · intro fits h below passed
    have left := fits h (below.trans_le ((Nat.le_add_right _ _).trans (Nat.le_succ _)))
    rwa [lower h below, kept, if_neg (not_lt.mpr passed)] at left
  · intro fits h _
    by_cases below : h < mergedTop sketch other
    · rw [lower h below]
      by_cases exceeds : mergedCapacity sketch other h < (mergedLoad flips sketch other h).1
      · rw [kept, if_pos exceeds]
        exact Nat.zero_le _
      · rw [kept, if_neg exceeds]
        exact fits h below (not_lt.mp exceeds)
    · exact remaining_top_le formed (not_lt.mp below)

end Remaining

/-! ### When a merge settles every level -/

/-- A merge of reachable sketches goes through when there is nothing to merge or room for all
levels. It then settles every level exactly when no lower load is between the two capacities of its
level. -/
theorem merge_settles_iff [LinearOrder Value] [Inhabited Value] {sketch other : KLL Value Coin}
    (reached : Reachable flips sketch) (otherReached : Reachable flips other) :
    ((∃ result, merge flips sketch other = some result) ↔
        other.NoItems ∨ Room flips sketch other) ∧
      ∀ result, merge flips sketch other = some result →
        (MergeSettles other result ↔ SettlesWhen flips sketch other) := by
  have formed := reached.formed
  have otherFormed := otherReached.formed
  refine ⟨merge_runs_iff formed otherFormed, fun result ran => ?_⟩
  have resultFormed := formed_merge formed otherFormed ran
  have sentinel : result.levels[result.numLevels]? = some result.maxCapacity := by
    rw [resultFormed.getElem?_levels resultFormed.height, resultFormed.sentinel]
  rcases merge_eq_some formed otherFormed ran with ⟨none, same⟩ | ⟨items, _, merged⟩
  · unfold SettlesWhen
    rw [if_pos none, ← same]
    exact ⟨MergeSettles.settled, fun settled => ⟨settled, sentinel, fun some => (some none).elim⟩⟩
  · have sizes : result.Settled ↔ ∀ h < mergedHeight flips sketch other,
        remaining flips sketch other h ≤
          capacityAt sketch.k sketch.m (mergedHeight flips sketch other) h := by
      rw [settled_iff merged.formed, merged.k, merged.m, ← merged.height]
      refine forall₂_congr fun h inside => ?_
      rw [merged.sizes h inside]
    unfold SettlesWhen
    rw [if_neg items, ← remaining_le_iff formed, ← sizes]
    exact ⟨MergeSettles.settled, fun settled => ⟨settled, sentinel, fun _ => merged.beyond⟩⟩

/-! ### Two merges -/

def steadyCoin : CoinFlips Unit := ⟨fun coin => (false, coin), fun _ => ()⟩

/-- The sketch of capacity 4 of the first numbers. -/
def ofRange (count : ℕ) : Option (KLL ℕ Unit) :=
  (List.range count).foldlM (pushValue steadyCoin) (initInternal 4 2 () none)

theorem Reachable.foldlM [LinearOrder Value] [Inhabited Value] {sketch final : KLL Value Coin}
    (reached : Reachable flips sketch) (values : List Value)
    (ran : values.foldlM (pushValue flips) sketch = some final) : Reachable flips final := by
  induction values generalizing sketch with
  | nil =>
    rw [← Option.some.inj ran]
    exact reached
  | cons value rest hypothesis =>
    rw [List.foldlM_cons, Option.bind_eq_bind, Option.bind_eq_some_iff] at ran
    obtain ⟨pushed, push, later⟩ := ran
    exact hypothesis (reached.update value push) later

theorem reachable_ofRange {count : ℕ} {sketch : KLL ℕ Unit} (made : ofRange count = some sketch) :
    Reachable steadyCoin sketch :=
  (Reachable.init 4 2 () none).foldlM _ made

/-- Eight numbers merged with two make a sketch of settled levels. -/
theorem merge_settles_ten : ∃ sketch other result, ofRange 8 = some sketch ∧
    ofRange 2 = some other ∧ merge steadyCoin sketch other = some result ∧
      MergeSettles other result := by
  have evaluated : ((do
      let sketch ← ofRange 8
      let other ← ofRange 2
      let result ← merge steadyCoin sketch other
      some (sketch, other, result) : Option _).any fun run =>
        decide (¬run.2.1.NoItems ∧ ∀ h < mergedTop run.1 run.2.1,
          (mergedLoad steadyCoin run.1 run.2.1 h).1 ≤ mergedCapacity run.1 run.2.1 h →
            (mergedLoad steadyCoin run.1 run.2.1 h).1 ≤ capacityAt run.1.k run.1.m
              (mergedHeight steadyCoin run.1 run.2.1) h)) = true := by decide +kernel
  obtain ⟨run, ran, checked⟩ := (Option.any_eq_true _ _).mp evaluated
  obtain ⟨items, loads⟩ := of_decide_eq_true checked
  simp only [Option.bind_eq_bind, Option.bind_eq_some_iff, Option.some.injEq] at ran
  obtain ⟨sketch, made, other, otherMade, result, merged, rfl⟩ := ran
  exact ⟨sketch, other, result, made, otherMade, merged,
    ((merge_settles_iff (reachable_ofRange made) (reachable_ofRange otherMade)).2 result merged).mpr
      ((if_neg items).mpr loads)⟩

/-- Eight numbers merged with five make a sketch of three levels whose bottom level holds three
items. Its capacity is two, and was three before the sketch was made higher. -/
theorem merge_overfull : ∃ sketch other result : KLL ℕ Unit, Reachable steadyCoin sketch ∧
    Reachable steadyCoin other ∧ merge steadyCoin sketch other = some result ∧
      ¬MergeSettles other result := by
  have evaluated : ((do
      let sketch ← ofRange 8
      let other ← ofRange 5
      let result ← merge steadyCoin sketch other
      some (sketch, other, result) : Option _).any fun run =>
        decide (run.2.2.numLevels = 3 ∧ run.2.2.levelSize 0 = some 3 ∧
          run.2.2.capacityForLevel 0 = 2)) = true := by decide +kernel
  obtain ⟨run, ran, checked⟩ := (Option.any_eq_true _ _).mp evaluated
  obtain ⟨height, size, capacity⟩ := of_decide_eq_true checked
  simp only [Option.bind_eq_bind, Option.bind_eq_some_iff, Option.some.injEq] at ran
  obtain ⟨sketch, made, other, otherMade, result, merged, rfl⟩ := ran
  refine ⟨sketch, other, result, reachable_ofRange made, reachable_ofRange otherMade, merged,
    fun settles => ?_⟩
  obtain ⟨held, read, fits⟩ := settles.settled 0 (height.symm ▸ Nat.succ_pos 2)
  rw [capacity, ← Option.some.inj (size.symm.trans read)] at fits
  exact absurd fits (by decide)

end KLL

end AsapSketchlib
