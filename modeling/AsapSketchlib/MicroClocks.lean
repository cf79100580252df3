/-
This file compares the two clocks of a `MicroCM`. A count-based sketch that has taken a number of
items is a time-based one that took each of them a unit of time after the last and has then been
moved to the present: the boundaries are crossed by different calls, but at the same place in the
order of the draws.
-/

import AsapSketchlib.MicroGrid

namespace AsapSketchlib

namespace MicroGrid

variable {Cell Source : Type} {hasher : SketchHasher} {ops : CellOps Cell Source}

/-! ### The clock of a grid -/

def onClock (grid : MicroGrid Cell Source) (clock : SubWindowClock) : MicroGrid Cell Source :=
  { grid with clock := clock }

theorem record_onClock (grid : MicroGrid Cell Source) {clock : SubWindowClock}
    (sameWindow : clock.n = grid.clock.n) (key : DataInput) :
    (grid.onClock clock).record hasher ops key = (grid.record hasher ops key).onClock clock := by
  unfold record onClock
  simp only [sameWindow]

theorem enterSubWindow_onClock (grid : MicroGrid Cell Source) {clock : SubWindowClock}
    (clock' : SubWindowClock) (sameWindow : clock.n = clock'.n) (crossed : ℕ) :
    (grid.onClock clock).enterSubWindow ops crossed =
      ((grid.onClock clock').enterSubWindow ops crossed).onClock clock := by
  unfold enterSubWindow onClock
  simp only [sameWindow]

theorem insert_countBased {grid : MicroGrid Cell Source} {length seen : ℕ}
    (counts : grid.clock = .countBased length seen) (fits : seen + 1 ≤ u64Max) (key : DataInput) :
    grid.insert hasher ops key = some
      (if (seen + 1) / length ≠ seen / length then
        ((grid.record hasher ops key).onClock (.countBased length (seen + 1))).enterSubWindow ops 1
      else (grid.record hasher ops key).onClock (.countBased length (seen + 1))) := by
  have ticked : (grid.record hasher ops key).clock.tick =
      some (.countBased length (seen + 1), decide ((seen + 1) / length ≠ seen / length)) := by
    have unsaturated : saturatingAdd seen 1 = seen + 1 := min_eq_left fits
    show grid.clock.tick = _
    rw [counts]
    simp only [SubWindowClock.tick, unsaturated]
  simp only [insert, ticked, Option.map_some]
  by_cases crossed : (seen + 1) / length ≠ seen / length
  · simp only [decide_eq_true crossed, if_pos crossed]
    rfl
  · simp only [decide_eq_false crossed, if_neg crossed]
    rfl

theorem advanceTo_timeBased (ops : CellOps Cell Source) (grid : MicroGrid Cell Source)
    {length epoch past now : ℕ}
    (times : grid.clock = .timeBased length epoch (epoch + past)) (later : past ≤ now) :
    grid.advanceTo ops (epoch + now) = some
      (if 0 < now / length - past / length then
        (grid.onClock (.timeBased length epoch (epoch + now))).enterSubWindow ops
          (now / length - past / length)
      else grid.onClock (.timeBased length epoch (epoch + now))) := by
  unfold advanceTo SubWindowClock.advanceTo
  rw [times]
  simp only [max_eq_right (Nat.add_le_add_left later epoch), Nat.add_sub_cancel_left,
    Option.map_some]
  rfl

/-! ### Two grids in step -/

/-- A count-based grid after some items, and the time-based one that becomes it once it is moved to
the present. -/
structure Aligned (ops : CellOps Cell Source) (length epoch seen : ℕ)
    (counted timed : MicroGrid Cell Source) : Prop where
  clock : counted.clock = .countBased length seen
  moved : timed.advanceTo ops (epoch + seen) =
    some (counted.onClock (.timeBased length epoch (epoch + seen)))

theorem aligned_filled (ops : CellOps Cell Source) (cell : Cell) (rows cols : ℕ)
    (params : MicroParams) (source : Source) (length epoch : ℕ) :
    Aligned ops length epoch 0 (filled cell rows cols params (.countBased length 0) source)
      (filled cell rows cols params (.timeBased length epoch epoch) source) where
  clock := rfl
  moved := by
    refine (@advanceTo_timeBased _ _ ops _ length epoch 0 0 rfl le_rfl).trans ?_
    rw [Nat.sub_self, if_neg (lt_irrefl 0)]
    rfl

/-- An item crosses a boundary of the count exactly where the next moment crosses one of the
time. -/
theorem Aligned.step (hasher : SketchHasher) {length epoch seen : ℕ}
    {counted timed : MicroGrid Cell Source}
    (aligned : Aligned ops length epoch seen counted timed) (positive : 0 < length)
    (fits : seen + 1 ≤ u64Max) (key : DataInput) :
    ∃ counted' timed', counted.insert hasher ops key = some counted' ∧
      timed.insertAt hasher ops key (epoch + seen) = some timed' ∧
      Aligned ops length epoch (seen + 1) counted' timed' := by
  have windowAt : ∀ now, (SubWindowClock.timeBased length epoch (epoch + now)).n = now / length :=
    fun now => by
      show (epoch + now - epoch) / length = now / length
      rw [Nat.add_sub_cancel_left]
  have sameWindow : (SubWindowClock.timeBased length epoch (epoch + seen)).n = counted.clock.n :=
    (windowAt seen).trans (congrArg SubWindowClock.n aligned.clock).symm
  refine ⟨_, (counted.record hasher ops key).onClock (.timeBased length epoch (epoch + seen)),
    insert_countBased aligned.clock fits key, ?_, ?_⟩
  · unfold insertAt
    rw [aligned.moved, Option.map_some, record_onClock counted sameWindow]
  · have next : (seen + 1) / length ≤ seen / length + 1 := by
      rw [← Nat.add_div_right seen positive]
      exact Nat.div_le_div_right (Nat.add_le_add_left positive seen)
    have before : seen / length ≤ (seen + 1) / length := Nat.div_le_div_right (Nat.le_succ seen)
    have moved := advanceTo_timeBased ops
      ((counted.record hasher ops key).onClock (.timeBased length epoch (epoch + seen)))
      rfl (Nat.le_succ seen)
    by_cases crossed : (seen + 1) / length ≠ seen / length
    · have one : (seen + 1) / length - seen / length = 1 := by omega
      rw [if_pos crossed]
      refine ⟨rfl, moved.trans ?_⟩
      rw [one, if_pos Nat.one_pos]
      exact congrArg some (enterSubWindow_onClock (counted.record hasher ops key)
        (.countBased length (seen + 1)) (windowAt (seen + 1)) 1)
    · have none : (seen + 1) / length - seen / length = 0 := by omega
      rw [if_neg crossed]
      refine ⟨rfl, moved.trans ?_⟩
      rw [none, if_neg (lt_irrefl 0)]
      rfl

theorem Aligned.run (hasher : SketchHasher) {length epoch : ℕ} (positive : 0 < length)
    (keys : List DataInput) {seen : ℕ} {counted timed : MicroGrid Cell Source} (aligned : Aligned ops length epoch seen counted timed)
    (fits : seen + keys.length ≤ u64Max) :
    ∃ counted', counted.run hasher ops (keys.map .insert) = some counted' ∧
      counted'.clock = .countBased length (seen + keys.length) ∧
      timed.run hasher ops ((keys.mapIdx fun i key => .insertAt key (epoch + (seen + i))) ++
          [.advanceTo (epoch + (seen + keys.length))]) =
        some (counted'.onClock (.timeBased length epoch (epoch + (seen + keys.length)))) := by
  induction keys generalizing seen counted timed with
  | nil =>
    refine ⟨counted, rfl, aligned.clock, ?_⟩
    show (timed.advanceTo ops (epoch + seen)).bind _ = _
    rw [aligned.moved]
    rfl
  | cons key rest hypothesis =>
    have shift : ∀ i, seen + (i + 1) = seen + 1 + i := fun i => by omega
    rw [List.length_cons, shift] at fits ⊢
    obtain ⟨counted', timed', inserted, insertedAt, aligned'⟩ :=
      aligned.step hasher positive (by omega) key
    obtain ⟨final, counts, clock, times⟩ := hypothesis aligned' fits
    refine ⟨final, ?_, clock, ?_⟩
    · show (counted.insert hasher ops key).bind _ = _
      rw [inserted]
      exact counts
    · rw [List.mapIdx_cons]
      show (timed.insertAt hasher ops key (epoch + seen)).bind _ = _
      have shifted : (fun i key => MicroCall.insertAt key (epoch + (seen + (i + 1)))) =
          fun i key => .insertAt key (epoch + (seen + 1 + i)) := by
        funext i key
        rw [shift]
      rw [insertedAt, shifted]
      exact times

end MicroGrid

/-! ### Estimates -/

namespace MicroCM

variable {Source : Type} {hasher : SketchHasher}

theorem addPast_onClock (sketch : MicroCM Source) (clock : SubWindowClock)
    (hashed : MatrixHashType) (n : ℕ) (backs : List ℕ) (total : F64) :
    addPast (sketch.onClock clock) hashed n backs total = sketch.addPast hashed n backs total := by
  induction backs generalizing total with
  | nil => rfl
  | cons back rest hypothesis =>
    unfold addPast
    rw [hypothesis]
    rfl

theorem estimate_onClock (sketch : MicroCM Source) {clock : SubWindowClock}
    (sameWindow : clock.n = sketch.clock.n) (sameProgress : clock.progress = sketch.clock.progress)
    (key : DataInput) :
    estimate hasher (sketch.onClock clock) key = estimate hasher sketch key := by
  have sameFraction : clock.residualFraction = sketch.clock.residualFraction :=
    congrArg (F64.finite 1).sub sameProgress
  have reading : (sketch.onClock clock).clock = clock := rfl
  unfold estimate estimateWith
  simp only [reading, sameWindow, sameFraction, addPast_onClock]
  rfl

end MicroCM

/-- The two clocks agree. For every shape, parameters, source of draws, sub-window length, epoch
and stream, the sketch on a count-based clock that took the stream has the cells and the source of
the sketch on a time-based clock that took each item a unit of time after the last and was then
moved to the present, and both answer alike for every key. -/
theorem clocks_agree {Source : Type} (next : Source → ℕ × Source) (hasher : SketchHasher)
    (rows cols : ℕ) (params : MicroParams) (source : Source) (length epoch : ℕ)
    (keys : List DataInput) (fits : epoch + keys.length ≤ u64Max) (counted : MicroCM Source)
    (built : MicroGrid.withDimensions (MicroCell.zeroed params) rows cols params
      (.countBased length 0) source = some counted) :
    ∃ timed counted' timed' : MicroCM Source,
      MicroGrid.withDimensions (MicroCell.zeroed params) rows cols params
        (.timeBased length epoch epoch) source = some timed ∧
      counted.run hasher (MicroCell.ops next) (keys.map .insert) = some counted' ∧
      timed.run hasher (MicroCell.ops next)
        ((keys.mapIdx fun i key => .insertAt key (epoch + i)) ++
          [.advanceTo (epoch + keys.length)]) = some timed' ∧
      counted'.cells = timed'.cells ∧ counted'.source = timed'.source ∧
      ∀ key, MicroCM.estimate hasher counted' key = MicroCM.estimate hasher timed' key := by
  obtain ⟨admitted, accepted, rfl⟩ := MicroGrid.withDimensions_eq_some.mp built
  have positive : 0 < length := by
    refine Nat.pos_of_ne_zero fun empty => ?_
    rw [empty] at accepted
    cases accepted
  have timedAccepted : (SubWindowClock.timeBased length epoch epoch).checked = .ok () :=
    if_neg positive.ne'
  obtain ⟨counted', counts, clock, times⟩ :=
    (MicroGrid.aligned_filled (MicroCell.ops next) (MicroCell.zeroed params) rows cols params source
      length epoch).run hasher positive keys (by omega)
  simp only [Nat.zero_add] at clock times
  refine ⟨_, counted', _, MicroGrid.withDimensions_eq_some.mpr ⟨admitted, timedAccepted, rfl⟩,
    counts, times, rfl, rfl, fun key => (MicroCM.estimate_onClock counted' ?_ ?_ key).symm⟩
  · rw [clock]
    show (epoch + keys.length - epoch) / length = keys.length / length
    rw [Nat.add_sub_cancel_left]
  · rw [clock]
    unfold SubWindowClock.progress
    simp only [Nat.add_sub_cancel_left]

/-- Six items of two keys in sub-windows of two items. -/
theorem clocks_agree_twos :
    ∃ timed counted' timed' : MicroCM Rounding,
      MicroGrid.withDimensions (MicroCell.zeroed ⟨2, 3⟩) 2 4 ⟨2, 3⟩ (.timeBased 2 100 100)
        (Rounding.new 9) = some timed ∧
      (MicroGrid.filled (MicroCell.zeroed ⟨2, 3⟩) 2 4 ⟨2, 3⟩ (.countBased 2 0) (Rounding.new 9)).run
        (defaultXxHasher plainXxHash) (MicroCell.ops Rounding.nextU64)
        ([.u64 1, .u64 2, .u64 1, .u64 1, .u64 2, .u64 1].map .insert) = some counted' ∧
      timed.run (defaultXxHasher plainXxHash) (MicroCell.ops Rounding.nextU64)
        [.insertAt (.u64 1) 100, .insertAt (.u64 2) 101, .insertAt (.u64 1) 102,
          .insertAt (.u64 1) 103, .insertAt (.u64 2) 104, .insertAt (.u64 1) 105,
          .advanceTo 106] = some timed' ∧
      counted'.cells = timed'.cells := by
  obtain ⟨timed, counted', timed', built, counts, times, cells, -⟩ :=
    clocks_agree Rounding.nextU64 (defaultXxHasher plainXxHash) 2 4 ⟨2, 3⟩ (Rounding.new 9) 2 100
      [.u64 1, .u64 2, .u64 1, .u64 1, .u64 2, .u64 1] (by decide) _
      (MicroGrid.withDimensions_eq_some.mpr
        ⟨⟨by decide, by decide, by decide, rfl, by decide⟩, rfl, rfl⟩)
  exact ⟨timed, counted', timed', built, counts, times, cells⟩

end AsapSketchlib
