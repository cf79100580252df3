/-
This file bounds the error of a MicroscopeSketch cell, over every run of inserts and
boundaries and every outcome of its roundings. The pixel of the current sub-window is a
running one and the others are settled; each operation of the cell is one of the moves of
these counters.
-/

import AsapSketchlib.Microscope
import AsapSketchlib.ZoomCounter
import Mathlib.Data.List.GetD
import Mathlib.Data.Nat.ModEq

namespace AsapSketchlib

open ZoomCounter

/-! ### Parameters -/

namespace MicroParams

/-- The parameters the constructor accepts. -/
structure Valid (params : MicroParams) : Prop where
  tPositive : 0 < params.t
  cLow : 2 ≤ params.c
  cHigh : params.c ≤ 256

theorem valid_of_checked {t c : ℕ} {params : MicroParams} (accepted : checked t c = .ok params) :
    Valid params ∧ params.t = t ∧ params.c = c := by
  unfold checked at accepted
  split at accepted
  · exact absurd accepted (by simp)
  · rename_i inRange
    split at accepted
    · rename_i baseInRange
      rw [← Except.ok.inj accepted]
      exact ⟨⟨Nat.pos_of_ne_zero fun zero => inRange (Or.inl zero), baseInRange.1, baseInRange.2⟩,
        rfl, rfl⟩
    · exact absurd accepted (by simp)

variable {params : MicroParams}

theorem maxZoomFrom_spec (fuel z : ℕ) (fits : params.c ^ z ≤ u32Max) :
    params.c ^ maxZoomFrom params fuel z (params.c ^ z) ≤ u32Max := by
  induction fuel generalizing z with
  | zero => exact fits
  | succ fuel hypothesis =>
    unfold maxZoomFrom
    split
    · rename_i small
      rw [← pow_succ] at small ⊢
      refine hypothesis (z + 1) ?_
      rcases min_le_iff.mp small with below | impossible
      · exact below
      · exact absurd impossible (by decide)
    · exact fits

theorem unit_le (params : MicroParams) (positive : 0 < params.c) {zoom : ℕ}
    (capped : zoom ≤ params.maxZoom) : params.c ^ zoom ≤ u32Max := by
  refine (Nat.pow_le_pow_right positive capped).trans ?_
  have start : params.c ^ 0 ≤ u32Max := by
    rw [pow_zero]
    decide
  exact maxZoomFrom_spec 32 0 start

theorem pixelAt_lt (params : MicroParams) (n : ℕ) : params.pixelAt n < params.pixels :=
  Nat.mod_lt n (Nat.succ_pos _)

theorem pixelAt_ne {m n : ℕ} (apart : m ≠ n) (near : m < n + params.pixels)
    (near' : n < m + params.pixels) : params.pixelAt m ≠ params.pixelAt n := by
  intro same
  exact apart (Nat.ModEq.eq_of_abs_lt same (by rw [abs_lt]; omega))

end MicroParams

namespace MicroCell

variable {Source : Type} {next : Source → ℕ × Source} {params : MicroParams}

/-! ### What one credit does -/

theorem unbiasedDivU64_rounded (value divisor : ℕ) (source : Source) :
    Rounded divisor value (unbiasedDivU64 next value divisor source).1 := by
  unfold unbiasedDivU64
  by_cases exact : value % divisor = 0
  · simp only [if_pos exact]
    exact Or.inl rfl
  · simp only [if_neg exact]
    split
    · exact Or.inr ⟨exact, rfl⟩
    · exact Or.inl rfl

theorem length_dividePixels (c place index : ℕ) (pixels : List ℕ) (source : Source) :
    (dividePixels next c place index pixels source).1.length = pixels.length := by
  induction pixels generalizing index source with
  | nil => rfl
  | cons slot rest hypothesis =>
    simp only [dividePixels, List.length_cons, hypothesis]

theorem divided_spec {c value : ℕ} (base : 2 ≤ c) (byte : value ≤ 256) (source : Source) :
    Rounded c value ((unbiasedDivU64 next value c source).1 % 256) ∧
      (unbiasedDivU64 next value c source).1 % 256 ≤ 255 := by
  have rounded : Rounded c value (unbiasedDivU64 next value c source).1 :=
    unbiasedDivU64_rounded value c source
  have half : value / c ≤ 128 := (Nat.div_le_div byte base (by decide)).trans (by decide)
  have small : (unbiasedDivU64 next value c source).1 < 256 := by
    rcases rounded with same | ⟨-, same⟩ <;> omega
  rw [Nat.mod_eq_of_lt small]
  exact ⟨rounded, Nat.le_of_lt_succ small⟩

theorem dividePixels_spec {c : ℕ} (base : 2 ≤ c) (place index : ℕ) (pixels : List ℕ)
    (bytes : ∀ pixel ∈ pixels, pixel ≤ 255) (source : Source) {offset : ℕ}
    (inside : offset < pixels.length) :
    Rounded c (if index + offset = place then 256 else pixels.getD offset 0)
        ((dividePixels next c place index pixels source).1.getD offset 0) ∧
      (dividePixels next c place index pixels source).1.getD offset 0 ≤ 255 := by
  induction pixels generalizing index source offset with
  | nil => exact absurd inside (Nat.not_lt_zero _)
  | cons slot rest hypothesis =>
    cases offset with
    | zero =>
      have byte : (if index = place then 256 else slot) ≤ 256 := by
        have slotByte := bytes slot List.mem_cons_self
        split <;> omega
      exact divided_spec base byte source
    | succ offset =>
      have shifted : index + (offset + 1) = index + 1 + offset := by omega
      rw [shifted]
      exact hypothesis (index + 1)
        (fun pixel member => bytes pixel (List.mem_cons_of_mem slot member)) _
        (Nat.lt_of_succ_lt_succ inside)

/-- The pixels of a record: one for each slot of the ring, a byte each. -/
structure Bytes (params : MicroParams) (cell : MicroCell) : Prop where
  sized : cell.pixels.length = params.pixels
  bytes : ∀ place < params.pixels, cell.pixels.getD place 0 ≤ 255
  capped : cell.zoom ≤ params.maxZoom

/-- What a credit that does not saturate does to a cell: the pixel ticks, or the cell zooms out
with the pixel counted as 256. -/
inductive Credited (params : MicroParams) (before : MicroCell) (place : ℕ) (after : MicroCell) : Prop
  | ticked (zoom : after.zoom = before.zoom)
      (own : after.pixels.getD place 0 = before.pixels.getD place 0 + 1)
      (others : ∀ other ≠ place, after.pixels.getD other 0 = before.pixels.getD other 0)
  | zoomed (zoom : after.zoom = before.zoom + 1)
      (rounded : ∀ other < params.pixels,
        Rounded params.c
          (if other = place then before.pixels.getD place 0 + 1 else before.pixels.getD other 0)
          (after.pixels.getD other 0))

theorem getD_modify (pixels : List ℕ) (place other : ℕ) (inside : place < pixels.length)
    (change : ℕ → ℕ) :
    (pixels.modify place change).getD other 0 =
      if other = place then change (pixels.getD place 0) else pixels.getD other 0 := by
  rw [List.getD_eq_getElem?_getD, List.getD_eq_getElem?_getD, List.getD_eq_getElem?_getD]
  by_cases here : other = place
  · rw [if_pos here, here, List.getElem?_modify_eq, List.getElem?_eq_getElem inside]
    rfl
  · rw [if_neg here, List.getElem?_modify_ne _ _ (Ne.symm here)]

/-- A credit that finds room in the pixel or in the zoom does not saturate. -/
theorem creditPixel_credited (next : Source → ℕ × Source) (valid : params.Valid) {cell : MicroCell}
    (bytes : Bytes params cell)
    {place : ℕ} (inside : place < params.pixels) (source : Source)
    (free : cell.pixels.getD place 0 < 255 ∨ cell.zoom < params.maxZoom) :
    Credited params cell place (creditPixel next params cell place source).1 ∧
      Bytes params (creditPixel next params cell place source).1 := by
  have placeInside : place < cell.pixels.length := bytes.sized ▸ inside
  unfold creditPixel
  by_cases room : cell.pixels.getD place 0 < 255
  · rw [if_pos room]
    have read := fun other => getD_modify cell.pixels place other placeInside fun pixel => pixel + 1
    refine ⟨Credited.ticked rfl ?_ ?_, ⟨?_, ?_, bytes.capped⟩⟩
    · exact (read place).trans (if_pos rfl)
    · exact fun other different => (read other).trans (if_neg different)
    · exact (List.length_modify _ _ _).trans bytes.sized
    · intro other otherInside
      refine (read other).trans_le ?_
      have low := bytes.bytes other otherInside
      split <;> omega
  · have below : cell.zoom < params.maxZoom := free.resolve_left room
    rw [if_neg room, if_neg (not_le.mpr below)]
    have full : cell.pixels.getD place 0 = 255 :=
      le_antisymm (bytes.bytes place inside) (not_lt.mp room)
    have slotBytes : ∀ pixel ∈ cell.pixels, pixel ≤ 255 := by
      intro pixel member
      obtain ⟨other, otherInside, rfl⟩ := List.getElem_of_mem member
      have low := bytes.bytes other (bytes.sized ▸ otherInside)
      rwa [List.getD_eq_getElem _ _ otherInside] at low
    have divided : ∀ other < params.pixels,
        Rounded params.c (if 0 + other = place then 256 else cell.pixels.getD other 0)
            ((dividePixels next params.c place 0 cell.pixels source).1.getD other 0) ∧
          (dividePixels next params.c place 0 cell.pixels source).1.getD other 0 ≤ 255 :=
      fun other otherInside => dividePixels_spec valid.cLow place 0 cell.pixels slotBytes source
        (bytes.sized.symm ▸ otherInside)
    refine ⟨Credited.zoomed rfl fun other otherInside => ?_, ⟨?_, ?_, ?_⟩⟩
    · rw [full]
      have rounded := (divided other otherInside).1
      rw [Nat.zero_add] at rounded
      exact rounded
    · exact (length_dividePixels _ _ _ _ _).trans bytes.sized
    · exact fun other otherInside => (divided other otherInside).2
    · exact below

theorem creditPixel_full (cell : MicroCell) (place : ℕ) (source : Source)
    (full : ¬(cell.pixels.getD place 0 < 255 ∨ cell.zoom < params.maxZoom)) :
    creditPixel next params cell place source = ({ cell with saturated := true }, source) := by
  unfold creditPixel
  rw [if_neg fun room => full (Or.inl room), if_pos (not_lt.mp fun below => full (Or.inr below))]

theorem creditPixel_spec (valid : params.Valid) {cell : MicroCell} (bytes : Bytes params cell)
    {place : ℕ} (inside : place < params.pixels) (source : Source)
    (kept : (creditPixel next params cell place source).1.saturated = false) :
    Credited params cell place (creditPixel next params cell place source).1 ∧
      Bytes params (creditPixel next params cell place source).1 := by
  refine creditPixel_credited next valid bytes inside source ?_
  by_contra full
  rw [creditPixel_full cell place source full] at kept
  exact Bool.noConfusion kept

theorem Credited.settled {before after : MicroCell} {place : ℕ}
    (credited : Credited params before place after) (valid : params.Valid) {m peak count : ℕ}
    (apart : params.pixelAt m ≠ place)
    (settled : Settled params.c before.zoom peak (pixel params before m) count) :
    Settled params.c after.zoom (max peak after.zoom) (pixel params after m) count := by
  cases credited with
  | ticked zoom own others =>
    rw [zoom, max_eq_left settled.zoomLe, pixel, others _ apart]
    exact settled
  | zoomed zoom rounded =>
    have divided := rounded _ (params.pixelAt_lt m)
    rw [if_neg apart] at divided
    rw [zoom]
    exact settled.zoomOut (Nat.zero_lt_of_lt valid.cLow) divided

section

variable {before after : MicroCell} {m : ℕ}
  (credited : Credited params before (params.pixelAt m) after) (valid : params.Valid)

include credited valid

theorem Credited.settledOwn {peak count : ℕ}
    (settled : Settled params.c before.zoom peak (pixel params before m + 1) count) :
    Settled params.c after.zoom (max peak after.zoom) (pixel params after m) count := by
  cases credited with
  | ticked zoom own others =>
    rw [zoom, max_eq_left settled.zoomLe, pixel, own]
    exact settled
  | zoomed zoom rounded =>
    have divided := rounded _ (params.pixelAt_lt m)
    rw [if_pos rfl] at divided
    rw [zoom]
    exact settled.zoomOut (Nat.zero_lt_of_lt valid.cLow) divided

theorem Credited.running {count : ℕ}
    (running : Running params.c before.zoom (pixel params before m + 1) 0 count) :
    Running params.c after.zoom (pixel params after m) 0 count := by
  cases credited with
  | ticked zoom own others =>
    rw [zoom, pixel, own]
    exact running
  | zoomed zoom rounded =>
    have divided := rounded _ (params.pixelAt_lt m)
    rw [if_pos rfl] at divided
    rw [zoom]
    exact running.zoomOut (Nat.zero_lt_of_lt valid.cLow) divided

end

/-! ### What an insert does -/

theorem rollUnits_of_lt (place fuel : ℕ) {cell : MicroCell} {pending : ℕ} (source : Source)
    (below : pending < params.c ^ cell.zoom) :
    rollUnits next params place fuel cell pending source = (cell, pending, source) := by
  cases fuel with
  | zero => rfl
  | succ fuel =>
    unfold rollUnits
    rw [if_pos below]

/-- The cases of an insert: the shutter has room, or the completed unit is credited. -/
inductive Inserted (params : MicroParams) (before : MicroCell) (n : ℕ) (after : MicroCell) : Prop
  | room (below : before.shutter + 1 < params.c ^ before.zoom) (zoom : after.zoom = before.zoom)
      (pixels : after.pixels = before.pixels) (shutter : after.shutter = before.shutter + 1)
  | unit (complete : before.shutter + 1 = params.c ^ before.zoom)
      (credited : Credited params before (params.pixelAt n) after) (shutter : after.shutter = 0)

theorem insert_of_room (next : Source → ℕ × Source) (valid : params.Valid) {cell : MicroCell}
    (capped : cell.zoom ≤ params.maxZoom) (n : ℕ) (source : Source)
    (below : cell.shutter + 1 < params.c ^ cell.zoom) :
    insert next params cell n source = ({ cell with shutter := cell.shutter + 1 }, source) := by
  have unitSmall := params.unit_le (Nat.zero_lt_of_lt valid.cLow) capped
  have small : cell.shutter + 1 < 4294967296 := below.trans_le (unitSmall.trans (by decide))
  unfold insert
  rw [rollUnits_of_lt _ _ source below]
  simp only [Nat.mod_eq_of_lt small]

theorem insert_of_unit (next : Source → ℕ × Source) (valid : params.Valid) {cell : MicroCell}
    (n : ℕ) (source : Source)
    (complete : cell.shutter + 1 = params.c ^ cell.zoom) :
    insert next params cell n source =
      ({ (creditPixel next params cell (params.pixelAt n) source).1 with shutter := 0 },
        (creditPixel next params cell (params.pixelAt n) source).2) := by
  have positive : 0 < params.c := Nat.zero_lt_of_lt valid.cLow
  have rolled : rollUnits next params (params.pixelAt n) (cell.shutter + 2) cell
      (cell.shutter + 1) source =
      ((creditPixel next params cell (params.pixelAt n) source).1, 0,
        (creditPixel next params cell (params.pixelAt n) source).2) := by
    rw [rollUnits]
    simp only [complete, lt_irrefl, if_false, Nat.sub_self]
    exact rollUnits_of_lt _ _ _ (Nat.pow_pos positive)
  unfold insert
  rw [rolled]

theorem insert_spec (valid : params.Valid) {cell : MicroCell} (bytes : Bytes params cell)
    (partialUnit : cell.shutter < params.c ^ cell.zoom) (n : ℕ) (source : Source)
    (kept : (insert next params cell n source).1.saturated = false) :
    Inserted params cell n (insert next params cell n source).1 ∧
      Bytes params (insert next params cell n source).1 := by
  rcases Nat.lt_or_ge (cell.shutter + 1) (params.c ^ cell.zoom) with below | atLeast
  · rw [insert_of_room next valid bytes.capped n source below]
    exact ⟨Inserted.room below rfl rfl rfl, ⟨bytes.sized, bytes.bytes, bytes.capped⟩⟩
  · have complete : cell.shutter + 1 = params.c ^ cell.zoom := le_antisymm partialUnit atLeast
    rw [insert_of_unit next valid n source complete] at kept ⊢
    obtain ⟨credited, bytes'⟩ := creditPixel_spec valid bytes (params.pixelAt_lt n) source kept
    refine ⟨Inserted.unit complete ?_ rfl, ⟨bytes'.sized, bytes'.bytes, bytes'.capped⟩⟩
    cases credited with
    | ticked zoom own others => exact Credited.ticked zoom own others
    | zoomed zoom rounded => exact Credited.zoomed zoom rounded

section

variable {before after : MicroCell} {n : ℕ} (inserted : Inserted params before n after)

include inserted

theorem Inserted.running (valid : params.Valid) {count : ℕ}
    (running : Running params.c before.zoom (pixel params before n) before.shutter count) :
    Running params.c after.zoom (pixel params after n) after.shutter (count + 1) := by
  cases inserted with
  | room below zoom pixels shutter =>
    rw [zoom, shutter, pixel, pixels]
    exact running.item below
  | unit complete credited shutter =>
    rw [shutter]
    exact credited.running valid (running.unit (Nat.zero_lt_of_lt valid.cLow) complete)

theorem Inserted.settled (valid : params.Valid) {m peak count : ℕ}
    (apart : params.pixelAt m ≠ params.pixelAt n)
    (settled : Settled params.c before.zoom peak (pixel params before m) count) :
    Settled params.c after.zoom (max peak after.zoom) (pixel params after m) count := by
  cases inserted with
  | room below zoom pixels shutter =>
    rw [zoom, max_eq_left settled.zoomLe, pixel, pixels]
    exact settled
  | unit complete credited shutter => exact credited.settled valid apart settled

theorem Inserted.zoom_le : before.zoom ≤ after.zoom := by
  cases inserted with
  | room below zoom pixels shutter => exact zoom.ge
  | unit complete credited shutter =>
    cases credited with
    | ticked zoom own others => exact zoom.ge
    | zoomed zoom rounded => exact (Nat.le_succ _).trans zoom.ge

end

/-! ### What a boundary does -/

theorem creditPixel_shutter (cell : MicroCell) (place : ℕ) (source : Source) :
    (creditPixel next params cell place source).1.shutter = cell.shutter := by
  unfold creditPixel
  split
  · rfl
  · split <;> rfl

theorem closeOut_shutter (cell : MicroCell) (ended : ℕ) (source : Source) :
    (closeOut next params cell ended source).1.shutter = 0 := by
  unfold closeOut
  by_cases some : 0 < cell.shutter
  · simp only [if_pos some]
    by_cases carried : 0 < (unbiasedDivU64 next cell.shutter (params.c ^ cell.zoom) source).1
    · simp only [if_pos carried]
      exact creditPixel_shutter _ _ _
    · simp only [if_neg carried]
  · simp only [if_neg some]

/-- Closing out the shutter settles the pixel of the ended sub-window. -/
theorem closeOut_spec (valid : params.Valid) {cell : MicroCell} (bytes : Bytes params cell)
    {ended count : ℕ}
    (running : Running params.c cell.zoom (pixel params cell ended) cell.shutter count)
    (source : Source) (kept : (closeOut next params cell ended source).1.saturated = false) :
    Bytes params (closeOut next params cell ended source).1 ∧
      Settled params.c (closeOut next params cell ended source).1.zoom
        (max cell.zoom (closeOut next params cell ended source).1.zoom)
        (pixel params (closeOut next params cell ended source).1 ended) count ∧
      ∀ m peak count, params.pixelAt m ≠ params.pixelAt ended →
        Settled params.c cell.zoom peak (pixel params cell m) count →
        Settled params.c (closeOut next params cell ended source).1.zoom
          (max peak (closeOut next params cell ended source).1.zoom)
          (pixel params (closeOut next params cell ended source).1 m) count := by
  have dropped : Bytes params { cell with shutter := 0 } ∧
      Settled params.c cell.zoom (max cell.zoom cell.zoom) (pixel params cell ended) count ∧
      ∀ m peak count, params.pixelAt m ≠ params.pixelAt ended →
        Settled params.c cell.zoom peak (pixel params cell m) count →
        Settled params.c cell.zoom (max peak cell.zoom) (pixel params cell m) count := by
    refine ⟨⟨bytes.sized, bytes.bytes, bytes.capped⟩, ?_, fun m peak count _ settled => ?_⟩
    · rw [max_self]
      exact running.closeDown
    · rw [max_eq_left settled.zoomLe]
      exact settled
  unfold closeOut at kept ⊢
  by_cases some : 0 < cell.shutter
  · simp only [if_pos some] at kept ⊢
    by_cases carried : 0 < (unbiasedDivU64 next cell.shutter (params.c ^ cell.zoom) source).1
    · simp only [if_pos carried] at kept ⊢
      have bytes' : Bytes params { cell with shutter := 0 } :=
        ⟨bytes.sized, bytes.bytes, bytes.capped⟩
      obtain ⟨credited, creditedBytes⟩ :=
        creditPixel_spec valid bytes' (params.pixelAt_lt ended) _ kept
      exact ⟨creditedBytes, credited.settledOwn valid (running.closeUp some),
        fun m peak count apart settled => credited.settled valid apart settled⟩
    · simp only [if_neg carried]
      exact dropped
  · simp only [if_neg some]
    exact dropped

theorem getD_set (pixels : List ℕ) (place other : ℕ) :
    (pixels.set place 0).getD other 0 = if other = place then 0 else pixels.getD other 0 := by
  rw [List.getD_eq_getElem?_getD, List.getD_eq_getElem?_getD]
  by_cases here : other = place
  · rw [if_pos here, here, List.getElem?_set_self']
    cases pixels[place]? <;> rfl
  · rw [if_neg here, List.getElem?_set_ne (Ne.symm here)]

theorem length_clearEntered (newN crossed : ℕ) (pixels : List ℕ) :
    (clearEntered params newN crossed pixels).length = pixels.length := by
  induction crossed generalizing pixels with
  | zero => rfl
  | succ step hypothesis => rw [clearEntered, hypothesis, List.length_set]

theorem getD_clearEntered (newN crossed : ℕ) (pixels : List ℕ) (place : ℕ) :
    (clearEntered params newN crossed pixels).getD place 0 =
      if ∃ step < crossed, params.pixelAt (newN - step) = place then 0
      else pixels.getD place 0 := by
  induction crossed generalizing pixels with
  | zero =>
    rw [if_neg (fun entered => by obtain ⟨step, impossible, -⟩ := entered; omega)]
    rfl
  | succ last hypothesis =>
    rw [clearEntered, hypothesis, getD_set]
    by_cases earlier : ∃ step < last, params.pixelAt (newN - step) = place
    · obtain ⟨step, below, same⟩ := earlier
      rw [if_pos ⟨step, below, same⟩, if_pos ⟨step, Nat.lt_succ_of_lt below, same⟩]
    · rw [if_neg earlier]
      by_cases here : place = params.pixelAt (newN - last)
      · rw [if_pos here, if_pos ⟨last, Nat.lt_succ_self last, here.symm⟩]
      · rw [if_neg here, if_neg]
        rintro ⟨step, below, same⟩
        rcases Nat.lt_succ_iff_lt_or_eq.mp below with strictly | rfl
        · exact earlier ⟨step, strictly, same⟩
        · exact here same.symm

theorem tryZoomIn_spec {cell zoomed : MicroCell} (bytes : Bytes params cell)
    (done : tryZoomIn params cell = some zoomed) :
    cell.zoom = zoomed.zoom + 1 ∧ zoomed.shutter = cell.shutter ∧ Bytes params zoomed ∧
      ∀ m, pixel params zoomed m = pixel params cell m * params.c := by
  unfold tryZoomIn at done
  split at done
  · exact absurd done (by simp)
  rename_i notZero
  split at done
  · exact absurd done (by simp)
  rename_i allLow
  have read : ∀ place < params.pixels,
      (cell.pixels.map fun pixel => pixel * params.c % 256).getD place 0 =
        cell.pixels.getD place 0 * params.c ∧ cell.pixels.getD place 0 * params.c ≤ 255 := by
    intro place inside
    have inside' : place < cell.pixels.length := bytes.sized.symm ▸ inside
    have low : cell.pixels[place] ≤ params.zoomInCeiling := by
      by_contra high
      exact allLow (List.any_eq_true.mpr ⟨_, List.getElem_mem inside', decide_eq_true (not_le.mp high)⟩)
    have product : cell.pixels[place] * params.c ≤ 255 :=
      (Nat.mul_le_mul_right params.c low).trans (Nat.div_mul_le_self 255 params.c)
    rw [List.getD_eq_getElem _ _ inside', List.getD_eq_getElem _ _ (by rwa [List.length_map]),
      List.getElem_map]
    exact ⟨Nat.mod_eq_of_lt (Nat.lt_succ_of_le product), product⟩
  rw [← Option.some.inj done]
  refine ⟨(Nat.succ_pred_eq_of_ne_zero notZero).symm, rfl, ⟨?_, ?_, ?_⟩, ?_⟩
  · exact (List.length_map _).trans bytes.sized
  · exact fun place inside => (read place inside).1.trans_le (read place inside).2
  · exact (Nat.sub_le _ _).trans bytes.capped
  · exact fun m => (read _ (params.pixelAt_lt m)).1

theorem reclaim_spec (fuel : ℕ) {cell : MicroCell}
    (bytes : Bytes params cell) :
    Bytes params (reclaim params fuel cell) ∧
      (reclaim params fuel cell).shutter = cell.shutter ∧
      (∀ m peak count, Settled params.c cell.zoom peak (pixel params cell m) count →
        Settled params.c (reclaim params fuel cell).zoom peak
          (pixel params (reclaim params fuel cell) m) count) ∧
      ∀ m, pixel params cell m = 0 → pixel params (reclaim params fuel cell) m = 0 := by
  induction fuel generalizing cell with
  | zero => exact ⟨bytes, rfl, fun _ _ _ settled => settled, fun _ empty => empty⟩
  | succ fuel hypothesis =>
    unfold reclaim
    cases done : tryZoomIn params cell with
    | none => exact ⟨bytes, rfl, fun _ _ _ settled => settled, fun _ empty => empty⟩
    | some zoomed =>
      obtain ⟨zoom, shutter, zoomedBytes, multiplied⟩ := tryZoomIn_spec bytes done
      obtain ⟨bytes', shutter', settled', empty'⟩ := hypothesis zoomedBytes
      refine ⟨bytes', shutter'.trans shutter, fun m peak count settled => ?_, fun m empty => ?_⟩
      · refine settled' m peak count ?_
        rw [zoom] at settled
        exact multiplied m ▸ settled.zoomIn
      · exact empty' m (by rw [multiplied, empty, Nat.zero_mul])

/-! ### Saturation is remembered -/

theorem creditPixel_sticky (cell : MicroCell) (place : ℕ) (source : Source)
    (kept : (creditPixel next params cell place source).1.saturated = false) :
    cell.saturated = false := by
  unfold creditPixel at kept
  split at kept
  · exact kept
  · split at kept
    · exact Bool.noConfusion kept
    · exact kept

theorem rollUnits_sticky (place fuel : ℕ) (cell : MicroCell) (pending : ℕ) (source : Source)
    (kept : (rollUnits next params place fuel cell pending source).1.saturated = false) :
    cell.saturated = false := by
  induction fuel generalizing cell pending source with
  | zero => exact kept
  | succ fuel hypothesis =>
    unfold rollUnits at kept
    by_cases below : pending < params.c ^ cell.zoom
    · rw [if_pos below] at kept
      exact kept
    · rw [if_neg below] at kept
      exact creditPixel_sticky cell place source (hypothesis _ _ _ kept)

theorem insert_sticky (cell : MicroCell) (n : ℕ) (source : Source)
    (kept : (insert next params cell n source).1.saturated = false) : cell.saturated = false := by
  have rolled : (rollUnits next params (params.pixelAt n) (cell.shutter + 2) cell
      (cell.shutter + 1) source).1.saturated = false := kept
  exact rollUnits_sticky _ _ _ _ _ rolled

theorem closeOut_sticky (cell : MicroCell) (ended : ℕ) (source : Source)
    (kept : (closeOut next params cell ended source).1.saturated = false) :
    cell.saturated = false := by
  unfold closeOut at kept
  by_cases some : 0 < cell.shutter
  · simp only [if_pos some] at kept
    by_cases carried : 0 < (unbiasedDivU64 next cell.shutter (params.c ^ cell.zoom) source).1
    · simp only [if_pos carried] at kept
      exact creditPixel_sticky { cell with shutter := 0 } _ _ kept
    · simp only [if_neg carried] at kept
      exact kept
  · simp only [if_neg some] at kept
    exact kept

theorem reclaim_saturated (fuel : ℕ) (cell : MicroCell) :
    (reclaim params fuel cell).saturated = cell.saturated := by
  induction fuel generalizing cell with
  | zero => rfl
  | succ fuel hypothesis =>
    unfold reclaim
    cases done : tryZoomIn params cell with
    | none => rfl
    | some zoomed =>
      refine (hypothesis zoomed).trans ?_
      unfold tryZoomIn at done
      split at done
      · exact absurd done (by simp)
      · split at done
        · exact absurd done (by simp)
        · rw [← Option.some.inj done]

theorem enterSubWindow_sticky (cell : MicroCell) (newN crossed : ℕ) (source : Source)
    (kept : (enterSubWindow next params cell newN crossed source).1.saturated = false) :
    cell.saturated = false := by
  unfold enterSubWindow at kept
  split at kept
  · exact kept
  · split at kept
    · rw [reclaim_saturated] at kept
      exact kept
    · simp only [reclaim_saturated] at kept
      exact closeOut_sticky cell _ source kept

end MicroCell

/-! ### The invariant of a run -/

namespace WatchedCell

open MicroCell

variable {Source : Type} {next : Source → ℕ × Source} {params : MicroParams}

/-- The pixel of the current sub-window is a running one, and those of the others in the ring are
settled at their peaks. -/
structure Sound (params : MicroParams) (state : WatchedCell Source) : Prop where
  bytes : Bytes params state.cell
  running : Running params.c state.cell.zoom (pixel params state.cell state.current)
    state.cell.shutter (state.inserted state.current)
  atPeak : state.peak state.current = state.cell.zoom
  settled : ∀ m < state.current, state.current < m + params.pixels →
    Settled params.c state.cell.zoom (state.peak m) (pixel params state.cell m) (state.inserted m)
  unborn : ∀ m, state.current < m → state.inserted m = 0

theorem pixel_of_zeros {cell : MicroCell} (zeros : ∀ place, cell.pixels.getD place 0 = 0) (m : ℕ) :
    pixel params cell m = 0 := zeros _

theorem getD_zeros (count place : ℕ) : (List.replicate count 0).getD place 0 = 0 := by
  rw [List.getD_eq_getElem?_getD, List.getElem?_replicate]
  split <;> rfl

theorem sound_fresh (valid : params.Valid) (source : Source) (start : ℕ) :
    Sound params (fresh params source start) := by
  have positive : 0 < params.c := Nat.zero_lt_of_lt valid.cLow
  have zeros : ∀ place, (zeroed params).pixels.getD place 0 = 0 := getD_zeros params.pixels
  refine ⟨⟨List.length_replicate, fun place _ => (zeros place).trans_le (Nat.zero_le _),
    Nat.zero_le _⟩, ?_, rfl, fun m _ _ => ?_, fun _ _ => rfl⟩
  · show Running params.c 0 (pixel params (zeroed params) start) 0 0
    rw [pixel_of_zeros zeros]
    exact Running.fresh positive 0
  · show Settled params.c 0 0 (pixel params (zeroed params) m) 0
    rw [pixel_of_zeros zeros]
    exact Settled.fresh positive 0

section

variable (valid : params.Valid) {state : WatchedCell Source} (sound : Sound params state)

include valid sound

theorem sound_insert (kept : (step next params state .insert).cell.saturated = false) :
    Sound params (step next params state .insert) := by
  obtain ⟨inserted, bytes⟩ :=
    insert_spec valid sound.bytes sound.running.partialUnit state.current state.source kept
  have ownCount : (step next params state .insert).inserted state.current =
      state.inserted state.current + 1 := if_pos rfl
  have otherCount : ∀ m, m ≠ state.current →
      (step next params state .insert).inserted m = state.inserted m := fun m apart => if_neg apart
  have peaks : ∀ m ≤ state.current, (step next params state .insert).peak m =
      max (state.peak m) (step next params state .insert).cell.zoom := fun m low => if_pos low
  refine ⟨bytes, ?_, ?_, fun m born near => ?_, fun m born => ?_⟩
  · show Running params.c _ _ _ ((step next params state .insert).inserted state.current)
    rw [ownCount]
    exact inserted.running valid sound.running
  · show (step next params state .insert).peak state.current = _
    rw [peaks _ le_rfl, sound.atPeak]
    exact max_eq_right inserted.zoom_le
  · have past : m < state.current := born
    have apart : params.pixelAt m ≠ params.pixelAt state.current :=
      params.pixelAt_ne past.ne (by omega) near
    rw [peaks m past.le, otherCount m past.ne]
    exact inserted.settled valid apart (sound.settled m past near)
  · have unborn : state.current < m := born
    rw [otherCount m unborn.ne']
    exact sound.unborn m unborn

theorem sound_entered {crossed : ℕ} (some : crossed ≠ 0) {cell : MicroCell}
    (bytes : Bytes params cell) (shutter : cell.shutter = 0) (source : Source) {peak : ℕ → ℕ}
    (old : ∀ m ≤ state.current, state.current + crossed < m + params.pixels →
      Settled params.c cell.zoom (peak m) (pixel params cell m) (state.inserted m))
    (new : ∀ m, state.current < m → m ≤ state.current + crossed →
      state.current + crossed < m + params.pixels → pixel params cell m = 0 ∧ peak m = cell.zoom) :
    Sound params ⟨cell, source, state.current + crossed, state.inserted, peak⟩ := by
  have positive : 0 < params.c := Nat.zero_lt_of_lt valid.cLow
  have ahead : state.current < state.current + crossed :=
    Nat.lt_add_of_pos_right (Nat.pos_of_ne_zero some)
  have inRing : state.current + crossed < state.current + crossed + params.pixels :=
    Nat.lt_add_of_pos_right (Nat.succ_pos _)
  obtain ⟨emptyNow, peakNow⟩ := new _ ahead le_rfl inRing
  refine ⟨bytes, ?_, peakNow, fun m past near => ?_, fun m born => ?_⟩
  · show Running params.c cell.zoom (pixel params cell (state.current + crossed)) cell.shutter
      (state.inserted (state.current + crossed))
    rw [emptyNow, shutter, sound.unborn _ ahead]
    exact Running.fresh positive cell.zoom
  · rcases Nat.lt_or_ge state.current m with begun | before
    · obtain ⟨empty, peakEq⟩ := new m begun (le_of_lt past) near
      show Settled params.c cell.zoom (peak m) (pixel params cell m) (state.inserted m)
      rw [empty, peakEq, sound.unborn m begun]
      exact Settled.fresh positive cell.zoom
    · exact old m before near
  · have late : state.current + crossed < m := born
    exact sound.unborn m (ahead.trans late)

theorem sound_enter_all {crossed : ℕ} (some : crossed ≠ 0) (all : params.pixels ≤ crossed) :
    Sound params (step next params state (.enter crossed)) := by
  have zeros : ∀ place, (state.cell.pixels.map fun _ => 0).getD place 0 = 0 := by
    rw [List.map_const']
    exact getD_zeros _
  have resetBytes : Bytes params
      { state.cell with pixels := state.cell.pixels.map fun _ => 0, shutter := 0 } :=
    ⟨(List.length_map _).trans sound.bytes.sized,
      fun place _ => (zeros place).trans_le (Nat.zero_le _), sound.bytes.capped⟩
  obtain ⟨bytes, shutter, -, empty⟩ := reclaim_spec state.cell.zoom resetBytes
  have entered : enterSubWindow next params state.cell (state.current + crossed) crossed
      state.source = (reclaim params state.cell.zoom
        { state.cell with pixels := state.cell.pixels.map fun _ => 0, shutter := 0 },
        state.source) := by
    unfold enterSubWindow
    rw [if_neg some, if_pos all]
  unfold step
  simp only [entered, if_pos (Or.inr all : crossed = 0 ∨ params.pixels ≤ crossed)]
  refine sound_entered valid sound some bytes shutter _ (fun m before near => ?_)
    fun m begun inside near => ⟨empty m (zeros _), ?_⟩
  · exact absurd near (by omega)
  · rw [if_neg (not_le.mpr begun), if_pos inside]

/-- A boundary settles the pixel of the ended sub-window and starts those of the entered ones. -/
theorem sound_enter_some {crossed : ℕ} (some : crossed ≠ 0) (within : ¬params.pixels ≤ crossed)
    (kept : (step next params state (.enter crossed)).cell.saturated = false) :
    Sound params (step next params state (.enter crossed)) := by
  have entered : enterSubWindow next params state.cell (state.current + crossed) crossed
      state.source = (reclaim params
        (closeOut next params state.cell state.current state.source).1.zoom
        { (closeOut next params state.cell state.current state.source).1 with
          pixels := clearEntered params (state.current + crossed) crossed
            (closeOut next params state.cell state.current state.source).1.pixels },
        (closeOut next params state.cell state.current state.source).2) := by
    unfold enterSubWindow
    rw [if_neg some, if_neg within, Nat.add_sub_cancel]
  have neither : ¬(crossed = 0 ∨ params.pixels ≤ crossed) := fun either =>
    either.elim some within
  unfold step at kept ⊢
  simp only [entered, if_neg neither, Nat.add_sub_cancel, reclaim_saturated] at kept ⊢
  obtain ⟨closedBytes, ownSettled, othersSettled⟩ :=
    closeOut_spec valid sound.bytes sound.running state.source kept
  have closedShutter : (closeOut next params state.cell state.current state.source).1.shutter = 0 :=
    closeOut_shutter state.cell state.current state.source
  generalize closeOut next params state.cell state.current state.source = closed at *
  have cleared : ∀ m, pixel params
      { closed.1 with
        pixels := clearEntered params (state.current + crossed) crossed closed.1.pixels } m =
      if ∃ step < crossed, params.pixelAt (state.current + crossed - step) = params.pixelAt m then 0
      else pixel params closed.1 m := fun m => getD_clearEntered _ _ _ _
  have clearedBytes : Bytes params
      { closed.1 with
        pixels := clearEntered params (state.current + crossed) crossed closed.1.pixels } := by
    refine ⟨(length_clearEntered _ _ _).trans closedBytes.sized, fun place inside => ?_,
      closedBytes.capped⟩
    refine (getD_clearEntered _ _ _ _).trans_le ?_
    split
    · exact Nat.zero_le _
    · exact closedBytes.bytes place inside
  obtain ⟨bytes, shutter, settled, empty⟩ := reclaim_spec closed.1.zoom clearedBytes
  refine sound_entered valid sound some bytes (shutter.trans closedShutter) _
    (fun m before near => ?_) fun m begun inside near => ⟨empty m ?_, ?_⟩
  · -- A sub-window still in the ring shares no slot with one entered on the way.
    have untouched : ¬∃ step < crossed,
        params.pixelAt (state.current + crossed - step) = params.pixelAt m := by
      rintro ⟨step, below, same⟩
      exact params.pixelAt_ne (by omega) (by omega) (by omega) same
    rw [if_pos before]
    refine settled m _ _ ?_
    rw [cleared, if_neg untouched]
    rcases before.eq_or_lt with rfl | past
    · rw [sound.atPeak]
      exact ownSettled
    · have apart : params.pixelAt m ≠ params.pixelAt state.current :=
        params.pixelAt_ne past.ne (by omega) (by omega)
      exact othersSettled m _ _ apart (sound.settled m past (by omega))
  · rw [cleared, if_pos]
    exact ⟨state.current + crossed - m, by omega, by congr 1; omega⟩
  · rw [if_neg (not_le.mpr begun), if_pos inside]

theorem sound_step (op : MicroOp) (kept : (step next params state op).cell.saturated = false) :
    Sound params (step next params state op) := by
  cases op with
  | insert => exact sound_insert valid sound kept
  | enter crossed =>
    by_cases none : crossed = 0
    · subst none
      have still : enterSubWindow next params state.cell (state.current + 0) 0 state.source =
          (state.cell, state.source) := by
        unfold enterSubWindow
        rw [if_pos rfl]
      unfold step
      simp only [still, true_or, if_true]
      refine ⟨sound.bytes, sound.running, ?_, fun m past near => ?_, sound.unborn⟩
      · show (if state.current ≤ state.current then max (state.peak state.current) state.cell.zoom
          else _) = state.cell.zoom
        rw [if_pos le_rfl, sound.atPeak, max_self]
      · have settled := sound.settled m past near
        show Settled params.c state.cell.zoom
          (if m ≤ state.current then max (state.peak m) state.cell.zoom else _) _ _
        have before : m ≤ state.current := le_of_lt past
        rw [if_pos before, max_eq_left settled.zoomLe]
        exact settled
    · by_cases all : params.pixels ≤ crossed
      · exact sound_enter_all valid sound none all
      · exact sound_enter_some valid sound none all kept

end

theorem step_sticky (state : WatchedCell Source) (op : MicroOp)
    (kept : (step next params state op).cell.saturated = false) : state.cell.saturated = false := by
  cases op with
  | insert => exact insert_sticky _ _ _ kept
  | enter crossed => exact enterSubWindow_sticky _ _ _ _ kept

theorem run_sticky (ops : List MicroOp) (state : WatchedCell Source)
    (kept : (run next params state ops).cell.saturated = false) : state.cell.saturated = false := by
  induction ops generalizing state with
  | nil => exact kept
  | cons op rest hypothesis => exact step_sticky state op (hypothesis _ kept)

theorem sound_run (valid : params.Valid) (ops : List MicroOp) {state : WatchedCell Source}
    (sound : Sound params state) (kept : (run next params state ops).cell.saturated = false) :
    Sound params (run next params state ops) := by
  induction ops generalizing state with
  | nil => exact sound
  | cons op rest hypothesis =>
    exact hypothesis (sound_step valid sound op (run_sticky rest _ kept)) kept

end WatchedCell

/-- The error bound of a cell. After any run from a fresh cell that never had to credit a full
pixel at the maximum zoom, each live sub-window is counted up to twice the largest unit the cell
has had since it began: exactly where the zoom stayed 0, and as nothing where it took no item,
whatever the sub-windows that left the ring had held. -/
theorem micro_cell_error {Source : Type} (next : Source → ℕ × Source) (t c : ℕ)
    (params : MicroParams) (accepted : MicroParams.checked t c = .ok params) (source : Source)
    (start : ℕ) (ops : List MicroOp) (final : WatchedCell Source)
    (ran : final = WatchedCell.run next params (WatchedCell.fresh params source start) ops)
    (unsaturated : final.cell.saturated = false) (m : ℕ) (begun : m ≤ final.current)
    (live : final.current ≤ m + t) :
    |(c : ℤ) ^ final.cell.zoom * MicroCell.pixel params final.cell m +
        (if m = final.current then (final.cell.shutter : ℤ) else 0) - final.inserted m| ≤
        2 * ((c : ℤ) ^ final.peak m - 1) ∧
      (final.peak m = 0 → (c : ℤ) ^ final.cell.zoom * MicroCell.pixel params final.cell m +
        (if m = final.current then (final.cell.shutter : ℤ) else 0) = final.inserted m) ∧
      (final.inserted m = 0 → MicroCell.pixel params final.cell m = 0 ∧
        (m = final.current → final.cell.shutter = 0)) := by
  obtain ⟨valid, rfl, rfl⟩ := MicroParams.valid_of_checked accepted
  have sound : WatchedCell.Sound params final := by
    rw [ran] at unsaturated ⊢
    exact WatchedCell.sound_run valid ops (WatchedCell.sound_fresh valid source start) unsaturated
  have bounded : |(params.c : ℤ) ^ final.cell.zoom * MicroCell.pixel params final.cell m +
      (if m = final.current then (final.cell.shutter : ℤ) else 0) - final.inserted m| ≤
      2 * ((params.c : ℤ) ^ final.peak m - 1) ∧
      (final.inserted m = 0 → MicroCell.pixel params final.cell m = 0 ∧
        (m = final.current → final.cell.shutter = 0)) := by
    rcases begun.eq_or_lt with now | past
    · have running := sound.running
      rw [← now] at running
      have unit : (1 : ℤ) ≤ (params.c : ℤ) ^ final.cell.zoom := by
        exact_mod_cast Nat.one_le_pow _ _ (Nat.zero_lt_of_lt valid.cLow)
      refine ⟨?_, fun none => ⟨(running.idle none).1, fun _ => (running.idle none).2⟩⟩
      rw [if_pos now, now, sound.atPeak, ← now]
      refine running.near.trans ?_
      linarith
    · have near : final.current < m + params.pixels := by
        unfold MicroParams.pixels
        omega
      have settled := sound.settled m past near
      refine ⟨?_, fun none => ⟨settled.idle none, fun now => absurd now past.ne⟩⟩
      rw [if_neg past.ne, add_zero]
      exact settled.near
  refine ⟨bounded.1, fun still => ?_, bounded.2⟩
  have exactly := bounded.1
  rw [still, pow_zero, sub_self, mul_zero] at exactly
  exact sub_eq_zero.mp (abs_nonpos_iff.mp exactly)

/-- 301 items, which zoom the cell out once, then a boundary that zooms it in as far as it can: the
ended sub-window is off by at most two. -/
theorem micro_cell_error_zoomed :
    ∃ params, MicroParams.checked 3 2 = .ok params ∧
      ∃ final, final = WatchedCell.run (fun draw : ℕ => (draw, draw + 1)) params
          (WatchedCell.fresh params 0 7) (List.replicate 301 .insert ++ [.enter 1]) ∧
        |(2 : ℤ) ^ final.cell.zoom * MicroCell.pixel params final.cell 7 +
          (if 7 = final.current then (final.cell.shutter : ℤ) else 0) - final.inserted 7| ≤
          2 * ((2 : ℤ) ^ final.peak 7 - 1) := by
  refine ⟨⟨3, 2⟩, rfl, _, rfl, ?_⟩
  exact (micro_cell_error (fun draw : ℕ => (draw, draw + 1)) 3 2 ⟨3, 2⟩ rfl 0 7 _ _ rfl
    (by decide +kernel) 7 (by decide +kernel) (by decide +kernel)).1

end AsapSketchlib
