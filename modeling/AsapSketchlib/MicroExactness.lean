/-
This file says when a MicroscopeSketch cell counts a sub-window exactly. A cell that remembers
its items and its roundings runs beside the cell of the sketch: as long as no division left a
remainder in the pixel of a sub-window, no partial shutter was closed into it and no unit of it
was lost at the zoom cap, the pixel is what was recorded, whatever the zoom was in between.

A zoom of zero does not say so. A cell may have zoomed out, closed a partial shutter and zoomed
in again.
-/

import AsapSketchlib.MicroGrid
import AsapSketchlib.MicroscopeError

namespace AsapSketchlib

open ZoomCounter

namespace MicroCell

variable {Source : Type} {next : Source → ℕ × Source} {params : MicroParams}

/-! ### What a pixel stands for -/

/-- The items the pixel at a place stands for. -/
def held (params : MicroParams) (cell : MicroCell) (place : ℕ) : ℕ :=
  params.c ^ cell.zoom * cell.pixels.getD place 0

/-- Whether crediting a pixel rounds the one at another place: the pixel is full, and the
zoom-out leaves a remainder there, or the cell is at the zoom cap and loses the unit. -/
def creditRounds (params : MicroParams) (cell : MicroCell) (place other : ℕ) : Bool :=
  decide (255 ≤ cell.pixels.getD place 0) &&
    if params.maxZoom ≤ cell.zoom then decide (other = place)
    else decide ((if other = place then 256 else cell.pixels.getD other 0) % params.c ≠ 0)

section

variable (next : Source → ℕ × Source) (valid : params.Valid) {cell : MicroCell}
  (bytes : Bytes params cell)

include valid bytes

/-- A credit adds its unit to the pixel and nothing to those it does not round. -/
theorem held_creditPixel {place other : ℕ} (inside : place < params.pixels)
    (otherInside : other < params.pixels) (source : Source)
    (exact : creditRounds params cell place other = false) :
    held params (creditPixel next params cell place source).1 other =
      held params cell other + if other = place then params.c ^ cell.zoom else 0 := by
  have placeInside : place < cell.pixels.length := bytes.sized ▸ inside
  by_cases room : cell.pixels.getD place 0 < 255
  · unfold creditPixel held
    rw [if_pos room]
    show params.c ^ cell.zoom * (cell.pixels.modify place _).getD other 0 = _
    rw [getD_modify _ _ _ placeInside]
    by_cases here : other = place
    · rw [if_pos here, if_pos here, here, Nat.mul_succ]
    · rw [if_neg here, if_neg here, Nat.add_zero]
  · have full : 255 ≤ cell.pixels.getD place 0 := not_lt.mp room
    simp only [creditRounds, decide_eq_true full, Bool.true_and] at exact
    by_cases atCap : params.maxZoom ≤ cell.zoom
    · rw [if_pos atCap, decide_eq_false_iff_not] at exact
      rw [creditPixel_full cell place source (not_or.mpr ⟨room, not_lt.mpr atCap⟩), if_neg exact]
      rfl
    · rw [if_neg atCap, decide_eq_false_iff_not, not_not] at exact
      obtain ⟨credited, after⟩ :=
        creditPixel_credited next valid bytes inside source (Or.inr (not_le.mp atCap))
      have low := after.bytes place inside
      cases credited with
      | ticked zoom own others => omega
      | zoomed zoom rounded =>
        have isFull : cell.pixels.getD place 0 + 1 = 256 :=
          congrArg (· + 1) (le_antisymm (bytes.bytes place inside) full)
        have divided := rounded other otherInside
        rw [isFull] at divided
        have whole := divided.exact (Nat.dvd_of_mod_eq_zero exact)
        unfold held
        rw [zoom, pow_succ, mul_assoc, whole]
        by_cases here : other = place
        · rw [if_pos here, if_pos here, here, ← isFull, Nat.mul_succ]
        · rw [if_neg here, if_neg here, Nat.add_zero]

theorem bytes_creditPixel {place : ℕ} (inside : place < params.pixels) (source : Source) :
    Bytes params (creditPixel next params cell place source).1 := by
  by_cases free : cell.pixels.getD place 0 < 255 ∨ cell.zoom < params.maxZoom
  · exact (creditPixel_credited next valid bytes inside source free).2
  · rw [creditPixel_full cell place source free]
    exact ⟨bytes.sized, bytes.bytes, bytes.capped⟩

end

theorem held_reclaim (fuel : ℕ) {cell : MicroCell} (bytes : Bytes params cell) (m : ℕ) :
    held params (reclaim params fuel cell) (params.pixelAt m) =
      held params cell (params.pixelAt m) := by
  induction fuel generalizing cell with
  | zero => rfl
  | succ fuel hypothesis =>
    unfold reclaim
    cases done : tryZoomIn params cell with
    | none => rfl
    | some zoomed =>
      obtain ⟨zoom, -, zoomedBytes, multiplied⟩ := tryZoomIn_spec bytes done
      refine (hypothesis zoomedBytes).trans ?_
      have pixels : zoomed.pixels.getD (params.pixelAt m) 0 =
          cell.pixels.getD (params.pixelAt m) 0 * params.c := multiplied m
      unfold held
      rw [zoom, pixels, pow_succ, mul_assoc, mul_comm params.c]

/-! ### What a boundary rounds -/

/-- Whether closing the shutter into a sub-window rounds another one: its own pixel always,
unless the shutter is empty, and the others where the carried unit rounds them. -/
def closeRounds (next : Source → ℕ × Source) (params : MicroParams) (cell : MicroCell)
    (ended : ℕ) (source : Source) (m : ℕ) : Bool :=
  decide (0 < cell.shutter) && (decide (m = ended) ||
    decide (0 < (unbiasedDivU64 next cell.shutter (params.c ^ cell.zoom) source).1) &&
      creditRounds params cell (params.pixelAt ended) (params.pixelAt m))

theorem held_closeOut (valid : params.Valid) {cell : MicroCell} (bytes : Bytes params cell)
    {ended m : ℕ} (near : m ≤ ended) (live : ended < m + params.pixels) (source : Source)
    (exact : closeRounds next params cell ended source m = false) :
    held params (closeOut next params cell ended source).1 (params.pixelAt m) =
      held params cell (params.pixelAt m) + if m = ended then cell.shutter else 0 := by
  unfold closeOut
  by_cases some : 0 < cell.shutter
  · simp only [closeRounds, decide_eq_true some, Bool.true_and, Bool.or_eq_false_iff,
      decide_eq_false_iff_not] at exact
    obtain ⟨other, unrounded⟩ := exact
    simp only [if_pos some, if_neg other, Nat.add_zero]
    by_cases carried : 0 < (unbiasedDivU64 next cell.shutter (params.c ^ cell.zoom) source).1
    · simp only [decide_eq_true carried, Bool.true_and] at unrounded
      simp only [if_pos carried]
      have emptied : Bytes params { cell with shutter := 0 } :=
        ⟨bytes.sized, bytes.bytes, bytes.capped⟩
      have apart : params.pixelAt m ≠ params.pixelAt ended :=
        params.pixelAt_ne other (by omega) live
      refine (held_creditPixel next valid emptied (params.pixelAt_lt ended) (params.pixelAt_lt m) _
        unrounded).trans ?_
      rw [if_neg apart]
      rfl
    · simp only [if_neg carried]
      rfl
  · simp only [if_neg some]
    rw [Nat.eq_zero_of_not_pos some, ite_self]
    rfl

variable (next : Source → ℕ × Source) (valid : params.Valid) {cell : MicroCell}
  (bytes : Bytes params cell)

include valid bytes

theorem bytes_closeOut (ended : ℕ) (source : Source) :
    Bytes params (closeOut next params cell ended source).1 := by
  have emptied : Bytes params { cell with shutter := 0 } :=
    ⟨bytes.sized, bytes.bytes, bytes.capped⟩
  unfold closeOut
  by_cases some : 0 < cell.shutter
  · simp only [if_pos some]
    by_cases carried : 0 < (unbiasedDivU64 next cell.shutter (params.c ^ cell.zoom) source).1
    · simp only [if_pos carried]
      exact bytes_creditPixel next valid emptied (params.pixelAt_lt ended) _
    · simp only [if_neg carried]
      exact emptied
  · simp only [if_neg some]
    exact emptied

/-- Entering sub-windows changes no count that the closing shutter does not round, and starts the
new ones at zero. -/
theorem held_enterSubWindow {n crossed : ℕ} (some : crossed ≠ 0) (source : Source) :
    Bytes params (enterSubWindow next params cell (n + crossed) crossed source).1 ∧
      (enterSubWindow next params cell (n + crossed) crossed source).1.shutter = 0 ∧
      (∀ m ≤ n, n + crossed < m + params.pixels →
        closeRounds next params cell n source m = false →
        held params (enterSubWindow next params cell (n + crossed) crossed source).1
            (params.pixelAt m) =
          held params cell (params.pixelAt m) + if m = n then cell.shutter else 0) ∧
      ∀ m, n < m → m ≤ n + crossed → n + crossed < m + params.pixels →
        held params (enterSubWindow next params cell (n + crossed) crossed source).1
          (params.pixelAt m) = 0 := by
  by_cases all : params.pixels ≤ crossed
  · have zeros : ∀ place, (cell.pixels.map fun _ => 0).getD place 0 = 0 := by
      rw [List.map_const']
      exact WatchedCell.getD_zeros _
    have resetBytes : Bytes params
        { cell with pixels := cell.pixels.map fun _ => 0, shutter := 0 } :=
      ⟨(List.length_map _).trans bytes.sized,
        fun place _ => (zeros place).trans_le (Nat.zero_le _), bytes.capped⟩
    unfold enterSubWindow
    rw [if_neg some, if_pos all]
    obtain ⟨bytes', shutter, -, -⟩ := reclaim_spec cell.zoom resetBytes
    refine ⟨bytes', shutter, fun m before near => absurd near (by omega), fun m _ _ _ => ?_⟩
    refine (held_reclaim cell.zoom resetBytes m).trans ?_
    unfold held
    rw [zeros, Nat.mul_zero]
  · unfold enterSubWindow
    simp only [if_neg some, if_neg all, Nat.add_sub_cancel]
    have closedBytes := bytes_closeOut next valid bytes n source
    have closedHeld : ∀ m ≤ n, n < m + params.pixels →
        closeRounds next params cell n source m = false →
        held params (closeOut next params cell n source).1 (params.pixelAt m) =
          held params cell (params.pixelAt m) + if m = n then cell.shutter else 0 :=
      fun m near live exact => held_closeOut valid bytes near live source exact
    have closedShutter : (closeOut next params cell n source).1.shutter = 0 :=
      closeOut_shutter cell n source
    generalize closeOut next params cell n source = closed at *
    have cleared : ∀ place,
        (clearEntered params (n + crossed) crossed closed.1.pixels).getD place 0 =
        if ∃ step < crossed, params.pixelAt (n + crossed - step) = place then 0
        else closed.1.pixels.getD place 0 := getD_clearEntered (n + crossed) crossed closed.1.pixels
    have clearedBytes : Bytes params
        { closed.1 with
          pixels := clearEntered params (n + crossed) crossed closed.1.pixels } := by
      refine ⟨(length_clearEntered _ _ _).trans closedBytes.sized, fun place inside => ?_,
        closedBytes.capped⟩
      refine (cleared place).trans_le ?_
      split
      · exact Nat.zero_le _
      · exact closedBytes.bytes place inside
    obtain ⟨bytes', shutter, -, -⟩ := reclaim_spec closed.1.zoom clearedBytes
    refine ⟨bytes', shutter.trans closedShutter, fun m before near exact => ?_,
      fun m begun inside near => ?_⟩
    · -- A sub-window still in the ring shares no slot with one entered on the way.
      have untouched : ¬∃ step < crossed,
          params.pixelAt (n + crossed - step) = params.pixelAt m := by
        rintro ⟨step, below, same⟩
        exact params.pixelAt_ne (by omega) (by omega) (by omega) same
      rw [held_reclaim _ clearedBytes, ← closedHeld m before (by omega) exact]
      unfold held
      rw [cleared, if_neg untouched]
    · rw [held_reclaim _ clearedBytes]
      unfold held
      rw [cleared, if_pos ⟨n + crossed - m, by omega, by congr 1; omega⟩, Nat.mul_zero]

end MicroCell

/-! ### Cells that remember -/

/-- A cell with the number of items of each sub-window, and whether the pixel of a sub-window was
rounded since that began. -/
structure RecordedCell where
  cell : MicroCell
  recorded : ℕ → ℕ
  rounded : ℕ → Bool

namespace RecordedCell

variable {Source : Type} (next : Source → ℕ × Source) (params : MicroParams)

def zeroed : RecordedCell := ⟨MicroCell.zeroed params, fun _ => 0, fun _ => false⟩

/-- An insert credits the pixel of the current sub-window if it completes a unit. -/
def insert (n : ℕ) (watched : RecordedCell) (source : Source) : RecordedCell × Source :=
  ({ cell := (MicroCell.insert next params watched.cell n source).1
     recorded := fun m => watched.recorded m + if m = n then 1 else 0
     rounded := fun m => watched.rounded m ||
      (decide (params.c ^ watched.cell.zoom ≤ watched.cell.shutter + 1) &&
        MicroCell.creditRounds params watched.cell (params.pixelAt n) (params.pixelAt m)) },
    (MicroCell.insert next params watched.cell n source).2)

/-- A boundary closes the shutter out into the sub-window that ended; those it enters begin. -/
def enterSubWindow (newN crossed : ℕ) (watched : RecordedCell) (source : Source) :
    RecordedCell × Source :=
  ({ cell := (MicroCell.enterSubWindow next params watched.cell newN crossed source).1
     recorded := watched.recorded
     rounded := fun m =>
      if crossed = 0 then watched.rounded m
      else if m ≤ newN - crossed then watched.rounded m ||
        MicroCell.closeRounds next params watched.cell (newN - crossed) source m
      else false },
    (MicroCell.enterSubWindow next params watched.cell newN crossed source).2)

def ops : CellOps RecordedCell Source := ⟨insert next, enterSubWindow next⟩

theorem forgets : MicroGrid.Forgets RecordedCell.cell (ops next) (MicroCell.ops next) where
  insert := fun _ _ _ _ => rfl
  enter := fun _ _ _ _ _ => rfl

variable {next params}

/-- The pixel of every live sub-window that was not rounded counts its items exactly, with the
shutter for the current one. -/
structure Exact (params : MicroParams) (n : ℕ) (watched : RecordedCell) : Prop where
  bytes : MicroCell.Bytes params watched.cell
  partialUnit : watched.cell.shutter < params.c ^ watched.cell.zoom
  exact : ∀ m ≤ n, n < m + params.pixels → watched.rounded m = false →
    MicroCell.held params watched.cell (params.pixelAt m) +
      (if m = n then watched.cell.shutter else 0) = watched.recorded m
  unborn : ∀ m, n < m → watched.recorded m = 0

theorem exact_zeroed (valid : params.Valid) (n : ℕ) : Exact params n (zeroed params) := by
  have zeros : ∀ place, (MicroCell.zeroed params).pixels.getD place 0 = 0 :=
    WatchedCell.getD_zeros params.pixels
  refine ⟨⟨List.length_replicate, fun place _ => (zeros place).trans_le (Nat.zero_le _),
    Nat.zero_le _⟩, Nat.pow_pos (Nat.zero_lt_of_lt valid.cLow), fun m _ _ _ => ?_, fun _ _ => rfl⟩
  show MicroCell.held params (MicroCell.zeroed params) (params.pixelAt m) +
    (if m = n then 0 else 0) = 0
  unfold MicroCell.held
  rw [zeros, Nat.mul_zero, ite_self]

theorem exact_insert (valid : params.Valid) {n : ℕ} {watched : RecordedCell}
    (sound : Exact params n watched) (source : Source) :
    Exact params n (insert next params n watched source).1 := by
  have unborn : ∀ m, n < m → (insert next params n watched source).1.recorded m = 0 :=
    fun m late => by
      show watched.recorded m + (if m = n then 1 else 0) = 0
      rw [sound.unborn m late, if_neg late.ne']
  rcases Nat.lt_or_ge (watched.cell.shutter + 1) (params.c ^ watched.cell.zoom) with below | atLeast
  · have inserted := MicroCell.insert_of_room next valid sound.bytes.capped n source below
    refine ⟨?_, ?_, fun m begun live kept => ?_, unborn⟩
    · show MicroCell.Bytes params (MicroCell.insert next params watched.cell n source).1
      rw [inserted]
      exact ⟨sound.bytes.sized, sound.bytes.bytes, sound.bytes.capped⟩
    · show (MicroCell.insert next params watched.cell n source).1.shutter <
        params.c ^ (MicroCell.insert next params watched.cell n source).1.zoom
      rw [inserted]
      exact below
    · have before := sound.exact m begun live (Bool.or_eq_false_iff.mp kept).1
      show MicroCell.held params (MicroCell.insert next params watched.cell n source).1 _ +
        (if m = n then (MicroCell.insert next params watched.cell n source).1.shutter else 0) =
        watched.recorded m + if m = n then 1 else 0
      rw [inserted, ← before, Nat.add_assoc]
      refine congrArg (MicroCell.held params watched.cell (params.pixelAt m) + ·) ?_
      split <;> rfl
  · have complete : watched.cell.shutter + 1 = params.c ^ watched.cell.zoom :=
      le_antisymm sound.partialUnit atLeast
    have inserted := MicroCell.insert_of_unit next valid n source complete
    have credited := MicroCell.bytes_creditPixel next valid sound.bytes
      (params.pixelAt_lt n) source
    refine ⟨?_, ?_, fun m begun live kept => ?_, unborn⟩
    · show MicroCell.Bytes params (MicroCell.insert next params watched.cell n source).1
      rw [inserted]
      exact ⟨credited.sized, credited.bytes, credited.capped⟩
    · show (MicroCell.insert next params watched.cell n source).1.shutter <
        params.c ^ (MicroCell.insert next params watched.cell n source).1.zoom
      rw [inserted]
      exact Nat.pow_pos (Nat.zero_lt_of_lt valid.cLow)
    · obtain ⟨earlier, unrounded⟩ := Bool.or_eq_false_iff.mp kept
      rw [decide_eq_true atLeast, Bool.true_and] at unrounded
      have before := sound.exact m begun live earlier
      have added := MicroCell.held_creditPixel next valid sound.bytes
        (params.pixelAt_lt n) (params.pixelAt_lt m) source unrounded
      show MicroCell.held params (MicroCell.insert next params watched.cell n source).1 _ +
        (if m = n then (MicroCell.insert next params watched.cell n source).1.shutter else 0) =
        watched.recorded m + if m = n then 1 else 0
      rw [inserted, ite_self, Nat.add_zero, ← before, Nat.add_assoc]
      refine added.trans (congrArg (MicroCell.held params watched.cell (params.pixelAt m) + ·) ?_)
      by_cases now : m = n
      · rw [if_pos now, if_pos now, if_pos (congrArg params.pixelAt now), complete]
      · rw [if_neg now, if_neg now, if_neg (params.pixelAt_ne now (by omega) live)]

theorem exact_enterSubWindow (valid : params.Valid) {n crossed : ℕ} (some : crossed ≠ 0)
    {watched : RecordedCell} (sound : Exact params n watched) (source : Source) :
    Exact params (n + crossed)
      (enterSubWindow next params (n + crossed) crossed watched source).1 := by
  obtain ⟨bytes, shutter, old, new⟩ :=
    MicroCell.held_enterSubWindow next (n := n) valid sound.bytes some source
  refine ⟨bytes, ?_, fun m begun live kept => ?_, fun m late => sound.unborn m (by omega)⟩
  · exact shutter.trans_lt (Nat.pow_pos (Nat.zero_lt_of_lt valid.cLow))
  · have unrounded : (if m ≤ n then watched.rounded m ||
        MicroCell.closeRounds next params watched.cell n source m else false) = false := by
      have kept' : (if crossed = 0 then watched.rounded m else if m ≤ n + crossed - crossed then
        watched.rounded m || MicroCell.closeRounds next params watched.cell (n + crossed - crossed)
          source m else false) = false := kept
      rwa [if_neg some, Nat.add_sub_cancel] at kept'
    show MicroCell.held params (MicroCell.enterSubWindow next params watched.cell (n + crossed)
      crossed source).1 (params.pixelAt m) + (if m = n + crossed then (MicroCell.enterSubWindow next
        params watched.cell (n + crossed) crossed source).1.shutter else 0) = watched.recorded m
    rw [shutter, ite_self, Nat.add_zero]
    rcases Nat.lt_or_ge n m with begunLater | before
    · rw [new m begunLater begun live, sound.unborn m begunLater]
    · rw [if_pos before, Bool.or_eq_false_iff] at unrounded
      rw [old m before live unrounded.2]
      exact sound.exact m before (by omega) unrounded.1

end RecordedCell

/-! ### Runs of the grid -/

namespace MicroGrid

variable {Source : Type} {next : Source → ℕ × Source} (hasher : SketchHasher)
  {params : MicroParams}

/-- Every cell of the grid counts exactly what it did not round. -/
structure Sound (params : MicroParams) (grid : MicroGrid RecordedCell Source) : Prop where
  valid : params.Valid
  same : grid.params = params
  clock : grid.clock.Valid
  each : ∀ watched ∈ grid.cells, RecordedCell.Exact params grid.clock.n watched

section

variable (next : Source → ℕ × Source) {grid : MicroGrid RecordedCell Source}
  (sound : Sound params grid)

include sound

theorem sound_record (key : DataInput) :
    Sound params (grid.record hasher (RecordedCell.ops next) key) := by
  refine ⟨sound.valid, sound.same, sound.clock, fastInsert_each (fun watched source exact => ?_)
    _ _ _ sound.each _⟩
  rw [sound.same]
  exact RecordedCell.exact_insert sound.valid exact source

theorem sound_moved {clock : SubWindowClock} {crossed : ℕ} (valid : clock.Valid)
    (moved : clock.n = grid.clock.n + crossed) :
    Sound params (if 0 < crossed then
      { grid with clock := clock }.enterSubWindow (RecordedCell.ops next) crossed
      else { grid with clock := clock }) := by
  by_cases some : 0 < crossed
  · rw [if_pos some]
    refine ⟨sound.valid, sound.same, valid, sweep_each (fun watched source exact => ?_)
      sound.each _⟩
    show RecordedCell.Exact params clock.n
      (RecordedCell.enterSubWindow next grid.params clock.n crossed watched source).1
    rw [sound.same, moved]
    exact RecordedCell.exact_enterSubWindow sound.valid some.ne' exact source
  · rw [if_neg some]
    refine ⟨sound.valid, sound.same, valid, fun watched member => ?_⟩
    show RecordedCell.Exact params clock.n watched
    rw [moved, Nat.eq_zero_of_not_pos some]
    exact sound.each watched member

end

theorem sound_advanceTo {grid after : MicroGrid RecordedCell Source} (sound : Sound params grid)
    {timestamp : ℕ} (done : grid.advanceTo (RecordedCell.ops next) timestamp = some after) :
    Sound params after := by
  obtain ⟨⟨clock, crossed⟩, advanced, rfl⟩ := Option.map_eq_some_iff.mp done
  obtain ⟨valid, moved⟩ := SubWindowClock.n_advanceTo sound.clock advanced
  exact sound_moved next sound valid moved

theorem sound_call {grid after : MicroGrid RecordedCell Source} (sound : Sound params grid)
    {called : MicroCall} (done : grid.call hasher (RecordedCell.ops next) called = some after) :
    Sound params after := by
  cases called with
  | insert key =>
    have recorded := sound_record hasher next sound key
    obtain ⟨⟨clock, crossed⟩, ticked, rfl⟩ := Option.map_eq_some_iff.mp done
    obtain ⟨valid, moved⟩ := SubWindowClock.n_tick recorded.clock ticked
    have entered := sound_moved next recorded valid moved
    cases crossed with
    | true => exact entered
    | false => exact entered
  | insertAt key timestamp =>
    obtain ⟨advanced, moved, rfl⟩ := Option.map_eq_some_iff.mp done
    exact sound_record hasher next (sound_advanceTo sound moved) key
  | advanceTo timestamp => exact sound_advanceTo sound done

theorem sound_run (calls : List MicroCall) {grid final : MicroGrid RecordedCell Source}
    (sound : Sound params grid) (ran : grid.run hasher (RecordedCell.ops next) calls = some final) :
    Sound params final := by
  induction calls generalizing grid with
  | nil =>
    cases ran
    exact sound
  | cons called rest hypothesis =>
    obtain ⟨after, done, ran⟩ := Option.bind_eq_some_iff.mp ran
    exact hypothesis (sound_call hasher sound done) ran

theorem sound_withDimensions {rows cols : ℕ} {clock : SubWindowClock} {source : Source}
    {fresh : MicroGrid RecordedCell Source} (numbers : clock.Valid)
    (built : withDimensions (RecordedCell.zeroed params) rows cols params clock source =
      some fresh) : Sound params fresh := by
  obtain ⟨admitted, -, rfl⟩ := withDimensions_eq_some.mp built
  obtain ⟨valid, -, -⟩ := MicroParams.valid_of_checked admitted.parameters
  refine ⟨valid, rfl, numbers, fun watched member => ?_⟩
  rw [List.eq_of_mem_replicate member]
  exact RecordedCell.exact_zeroed valid clock.n

end MicroGrid

/-- Where a zoom of zero does mean exact counts. In any run of a grid, the cells remembering what
happened to them beside the cells of the sketch: if no division ever left a remainder in the pixel
of a live sub-window since it began, no partial shutter was closed into it and no unit of it was
lost at the zoom cap, then at a highest zoom of zero the pixel is the number of items that were
recorded in the cell during that sub-window, with the shutter for the current one. -/
theorem unzoomed_pixels_exact {Source : Type} (next : Source → ℕ × Source) (hasher : SketchHasher)
    (rows cols : ℕ) (params : MicroParams) (clock : SubWindowClock) (numbers : clock.Valid)
    (source : Source) (fresh final : MicroGrid RecordedCell Source)
    (built : MicroGrid.withDimensions (RecordedCell.zeroed params) rows cols params clock source =
      some fresh) (calls : List MicroCall)
    (ran : fresh.run hasher (RecordedCell.ops next) calls = some final) :
    (MicroGrid.withDimensions (MicroCell.zeroed params) rows cols params clock source).bind
        (fun sketch => sketch.run hasher (MicroCell.ops next) calls) =
        some (final.map RecordedCell.cell) ∧
      (MicroCM.maxZoom (final.map RecordedCell.cell) = 0 → ∀ watched ∈ final.cells,
        ∀ m ≤ final.clock.n, final.clock.n ≤ m + params.t → watched.rounded m = false →
          watched.cell.pixel params m +
            (if m = final.clock.n then watched.cell.shutter else 0) = watched.recorded m) := by
  have sound := MicroGrid.sound_run hasher calls (MicroGrid.sound_withDimensions numbers built) ran
  refine ⟨?_, fun unzoomed watched member m begun live kept => ?_⟩
  · obtain ⟨admitted, accepted, rfl⟩ := MicroGrid.withDimensions_eq_some.mp built
    have forgotten : MicroGrid.filled (MicroCell.zeroed params) rows cols params clock source =
        (MicroGrid.filled (RecordedCell.zeroed params) rows cols params clock source).map
          RecordedCell.cell := by
      unfold MicroGrid.filled MicroGrid.map
      simp only [List.map_replicate]
      rfl
    rw [MicroGrid.withDimensions_eq_some.mpr ⟨admitted, accepted, rfl⟩, Option.bind_some, forgotten,
      MicroGrid.run_map hasher (RecordedCell.forgets next), ran]
    rfl
  · have exactly := sound.each watched member
    have zoomed : watched.cell.zoom = 0 := Nat.eq_zero_of_le_zero (unzoomed ▸
      MicroCM.zoom_le_maxZoom _ (List.mem_map_of_mem member))
    have inRing : final.clock.n < m + params.pixels := by
      unfold MicroParams.pixels
      omega
    have counted := exactly.exact m begun inRing kept
    rw [MicroCell.held, zoomed, pow_zero, Nat.one_mul] at counted
    exact counted

/-- The calls of a key that takes some items at the start of time, then as many as are given in
the third sub-window, whose end is then reached. -/
def burstThen (items : ℕ) : List MicroCall :=
  List.replicate 256 (.insertAt (.u64 5) 0) ++ List.replicate items (.insertAt (.u64 5) 2) ++
    [.advanceTo 3]

/-- 256 items in a first sub-window zoom the cell of their key out, and two more in the third fill
one of its units: past the next boundary the cell has zoomed in again and counts them. -/
theorem unzoomed_pixels_exact_whole :
    ∃ final : MicroGrid RecordedCell Rounding,
      ((MicroGrid.filled (RecordedCell.zeroed ⟨1, 2⟩) 1 2 ⟨1, 2⟩ (.timeBased 1 0 0)
        (Rounding.new 0)).run (defaultXxHasher plainXxHash) (RecordedCell.ops Rounding.nextU64)
          (burstThen 2)) = some final ∧
      ∃ watched ∈ final.cells, watched.recorded 2 = 2 ∧ watched.cell.pixel ⟨1, 2⟩ 2 = 2 := by
  have checks : (((MicroGrid.filled (RecordedCell.zeroed ⟨1, 2⟩) 1 2 ⟨1, 2⟩ (.timeBased 1 0 0)
      (Rounding.new 0)).run (defaultXxHasher plainXxHash) (RecordedCell.ops Rounding.nextU64)
        (burstThen 2)).any fun final => decide (MicroCM.maxZoom (final.map RecordedCell.cell) = 0 ∧
          final.clock.n = 3 ∧ ∃ watched ∈ final.cells,
            watched.rounded 2 = false ∧ watched.recorded 2 = 2)) = true := by decide +kernel
  obtain ⟨final, ran, checked⟩ := (Option.any_eq_true _ _).mp checks
  obtain ⟨unzoomed, now, watched, member, kept, recorded⟩ := of_decide_eq_true checked
  obtain ⟨-, exactly⟩ := unzoomed_pixels_exact Rounding.nextU64 (defaultXxHasher plainXxHash) 1 2
    ⟨1, 2⟩ (.timeBased 1 0 0) Nat.one_pos (Rounding.new 0) _ final
    (MicroGrid.withDimensions_eq_some.mpr
      ⟨⟨by decide, by decide, by decide, rfl, by decide⟩, rfl, rfl⟩)
    (burstThen 2) ran
  refine ⟨final, ran, watched, member, recorded, ?_⟩
  have counted := exactly unzoomed watched member 2 (by rw [now]; decide) (by rw [now]; decide) kept
  rw [now] at counted
  exact counted.trans recorded

/-- A zoom of zero does not mean exact counts. The key of a cell that has zoomed out takes one item
in the third sub-window, half a unit, which the boundary rounds; the cell has zoomed in again, and
the pixel of the live sub-window is not one. -/
theorem unzoomed_pixels_rounded :
    ∃ final : MicroGrid RecordedCell Rounding,
      ((MicroGrid.filled (RecordedCell.zeroed ⟨1, 2⟩) 1 2 ⟨1, 2⟩ (.timeBased 1 0 0)
        (Rounding.new 0)).run (defaultXxHasher plainXxHash) (RecordedCell.ops Rounding.nextU64)
          (burstThen 1)) = some final ∧
      MicroCM.maxZoom (final.map RecordedCell.cell) = 0 ∧
      ∃ watched ∈ final.cells, ∃ m ≤ final.clock.n, final.clock.n ≤ m + 1 ∧ m ≠ final.clock.n ∧
        watched.recorded m = 1 ∧ watched.cell.pixel ⟨1, 2⟩ m ≠ watched.recorded m := by
  have checks : (((MicroGrid.filled (RecordedCell.zeroed ⟨1, 2⟩) 1 2 ⟨1, 2⟩ (.timeBased 1 0 0)
      (Rounding.new 0)).run (defaultXxHasher plainXxHash) (RecordedCell.ops Rounding.nextU64)
        (burstThen 1)).any fun final => decide (MicroCM.maxZoom (final.map RecordedCell.cell) = 0 ∧
          final.clock.n = 3 ∧ ∃ watched ∈ final.cells,
            watched.recorded 2 = 1 ∧ watched.cell.pixel ⟨1, 2⟩ 2 ≠ 1)) = true := by decide +kernel
  obtain ⟨final, ran, checked⟩ := (Option.any_eq_true _ _).mp checks
  obtain ⟨unzoomed, now, watched, member, recorded, rounded⟩ := of_decide_eq_true checked
  refine ⟨final, ran, unzoomed, watched, member, 2, ?_, ?_, ?_, recorded, recorded ▸ rounded⟩
  · rw [now]
    decide
  · rw [now]
  · rw [now]
    decide

end AsapSketchlib
