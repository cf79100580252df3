/-
This file models the merge of two MicroscopeSketch cells and bounds its error. Both cells are
brought to the coarser of their zooms, their pixels are added and the sums are divided until they
fit a byte: the errors of the divisions stay below one unit of the zoom the merge ends at, however
many there were.
-/

import AsapSketchlib.MicroGrid
import AsapSketchlib.MicroscopeError

namespace AsapSketchlib

open ZoomCounter

namespace MicroCell

/-! ### Merging two cells -/

/-- Checks that the zoom of a record is within the cap and its shutter below one unit. -/
def validate (params : MicroParams) (cell : MicroCell) : Except String Unit :=
  if params.maxZoom < cell.zoom then
    .error ("zoom exponent " ++ toString cell.zoom ++ " exceeds the maximum " ++
      toString params.maxZoom)
  else if params.c ^ cell.zoom ≤ cell.shutter then
    .error ("shutter " ++ toString cell.shutter ++ " is not below one unit (c^Z = " ++
      toString (params.c ^ cell.zoom) ++ ") at zoom " ++ toString cell.zoom)
  else .ok ()

section Merge

variable {Source : Type} (next : Source → ℕ × Source)

/-- Divides a value by `c` a number of times. -/
def scaleDown (c : ℕ) : ℕ → ℕ → Source → ℕ × Source
  | 0, value, source => (value, source)
  | steps + 1, value, source =>
    let (value, source) := unbiasedDivU64 next value c source
    scaleDown c steps value source

/-- The sums of the pixels of two cells, each divided a number of times. -/
def sumPixels (c dstSteps srcSteps : ℕ) : List ℕ → List ℕ → Source → List ℕ × Source
  | dst :: dstRest, src :: srcRest, source =>
    let (dst, source) := scaleDown next c dstSteps dst source
    let (src, source) := scaleDown next c srcSteps src source
    let (rest, source) := sumPixels c dstSteps srcSteps dstRest srcRest source
    ((dst + src) :: rest, source)
  | _, _, source => ([], source)

/-- Divides all values by `c`. -/
def divideAll (c : ℕ) : List ℕ → Source → List ℕ × Source
  | [], source => ([], source)
  | value :: rest, source =>
    let (value, source) := unbiasedDivU64 next value c source
    let (rest, source) := divideAll c rest source
    (value :: rest, source)

/-- What the loop that makes the sums fit a byte ends with: `forced` says that it had to cut them
off at the zoom cap. -/
structure Fitted (Source : Type) where
  sums : List ℕ
  target : ℕ
  forced : Bool
  source : Source

/-- The loop that zooms out until every sum fits a byte. Each turn raises the zoom up to the cap. -/
def fitBytes (params : MicroParams) : ℕ → ℕ → List ℕ → Source → Fitted Source
  | 0, target, sums, source => ⟨sums, target, false, source⟩
  | fuel + 1, target, sums, source =>
    if sums.any (fun value => 255 < value) = true then
      if params.maxZoom ≤ target then ⟨sums.map fun value => min value 255, target, true, source⟩
      else
        let (sums, source) := divideAll next params.c sums source
        fitBytes params fuel (target + 1) sums source
    else ⟨sums, target, false, source⟩

/-- The sums of two cells at sub-window `n`, with the units of both shutters, made to fit. -/
def mergeFitted (params : MicroParams) (dst src : MicroCell) (n : ℕ) (source : Source) :
    Fitted Source :=
  let target := max dst.zoom src.zoom
  let (sums, source) := sumPixels next params.c (target - dst.zoom) (target - src.zoom) dst.pixels
    src.pixels source
  let combined := dst.shutter + src.shutter
  let unit := params.c ^ target
  fitBytes next params (params.maxZoom - target + 1) target
    (sums.modify (params.pixelAt n) fun sum => sum + combined / unit) source

/-- Merges `src` into `dst`, both positioned at sub-window `n`. -/
def mergeCells (params : MicroParams) (dst src : MicroCell) (n : ℕ) (source : Source) :
    MicroCell × Source :=
  let fitted := mergeFitted next params dst src n source
  let remainder := (dst.shutter + src.shutter) % params.c ^ max dst.zoom src.zoom
  ({ pixels := fitted.sums.map fun value => value % 256
     zoom := fitted.target
     shutter := remainder % 4294967296
     saturated := dst.saturated || src.saturated || fitted.forced }, fitted.source)

end Merge

/-! ### What the divisions do -/

variable {Source : Type} {next : Source → ℕ × Source} {params : MicroParams}

theorem scaleDown_rescaled (c steps value : ℕ) (source : Source) :
    Rescaled c steps value (scaleDown next c steps value source).1 := by
  induction steps generalizing value source with
  | zero => exact Rescaled.still value
  | succ steps hypothesis =>
    exact Rescaled.down (unbiasedDivU64_rounded value c source) (hypothesis _ _)

theorem sumPixels_spec (next : Source → ℕ × Source) (c dstSteps srcSteps : ℕ) {dst src : List ℕ}
    (sized : dst.length = src.length) (source : Source) :
    (sumPixels next c dstSteps srcSteps dst src source).1.length = dst.length ∧
      ∀ place < dst.length, ∃ dstScaled srcScaled,
        Rescaled c dstSteps (dst.getD place 0) dstScaled ∧
          Rescaled c srcSteps (src.getD place 0) srcScaled ∧
          (sumPixels next c dstSteps srcSteps dst src source).1.getD place 0 =
            dstScaled + srcScaled := by
  induction dst generalizing src source with
  | nil => exact ⟨by cases src <;> rfl, fun place inside => absurd inside (Nat.not_lt_zero place)⟩
  | cons dst dstRest hypothesis =>
    cases src with
    | nil => exact absurd sized (Nat.succ_ne_zero _)
    | cons src srcRest =>
      obtain ⟨length, each⟩ := hypothesis (Nat.succ.inj sized)
        (scaleDown next c srcSteps src (scaleDown next c dstSteps dst source).2).2
      refine ⟨congrArg (· + 1) length, fun place inside => ?_⟩
      cases place with
      | zero => exact ⟨_, _, scaleDown_rescaled c _ dst _, scaleDown_rescaled c _ src _, rfl⟩
      | succ place => exact each place (Nat.lt_of_succ_lt_succ inside)

theorem divideAll_spec (next : Source → ℕ × Source) (c : ℕ) (values : List ℕ) (source : Source) :
    (divideAll next c values source).1.length = values.length ∧
      ∀ place < values.length,
        Rounded c (values.getD place 0) ((divideAll next c values source).1.getD place 0) := by
  induction values generalizing source with
  | nil => exact ⟨rfl, fun place inside => absurd inside (Nat.not_lt_zero place)⟩
  | cons value rest hypothesis =>
    obtain ⟨length, each⟩ := hypothesis (unbiasedDivU64 next value c source).2
    refine ⟨congrArg (· + 1) length, fun place inside => ?_⟩
    cases place with
    | zero => exact unbiasedDivU64_rounded value c source
    | succ place => exact each place (Nat.lt_of_succ_lt_succ inside)

/-- The loop ends with bytes at a zoom within the cap. Unless it cut them off there, each is the
sum it started with, divided once for each zoom it went out. -/
theorem fitBytes_spec (next : Source → ℕ × Source) (fuel : ℕ) {target : ℕ}
    (capped : target ≤ params.maxZoom)
    (enough : params.maxZoom - target < fuel) (sums : List ℕ) (source : Source) :
    (fitBytes next params fuel target sums source).sums.length = sums.length ∧
      (∀ value ∈ (fitBytes next params fuel target sums source).sums, value ≤ 255) ∧
      (fitBytes next params fuel target sums source).target ≤ params.maxZoom ∧
      ∃ steps, (fitBytes next params fuel target sums source).target = target + steps ∧
        ((fitBytes next params fuel target sums source).forced = false →
          ∀ place < sums.length, Rescaled params.c steps (sums.getD place 0)
            ((fitBytes next params fuel target sums source).sums.getD place 0)) := by
  induction fuel generalizing target sums source with
  | zero => exact absurd enough (Nat.not_lt_zero _)
  | succ fuel hypothesis =>
    unfold fitBytes
    by_cases large : sums.any (fun value => 255 < value) = true
    · rw [if_pos large]
      by_cases atCap : params.maxZoom ≤ target
      · rw [if_pos atCap]
        refine ⟨List.length_map _, fun value member => ?_, capped, 0, rfl, fun kept => ?_⟩
        · obtain ⟨sum, -, rfl⟩ := List.mem_map.mp member
          exact min_le_right _ _
        · exact Bool.noConfusion kept
      · rw [if_neg atCap]
        have below : target < params.maxZoom := not_le.mp atCap
        obtain ⟨length, divided⟩ := divideAll_spec next params.c sums source
        obtain ⟨length', bytes, capped', steps, moved, each⟩ :=
          @hypothesis (target + 1) below (by omega)
            (divideAll next params.c sums source).1 (divideAll next params.c sums source).2
        refine ⟨length'.trans length, bytes, capped', steps + 1, ?_, fun kept place inside => ?_⟩
        · rw [Nat.add_comm steps 1, ← Nat.add_assoc]
          exact moved
        · exact Rescaled.down (divided place inside) (each kept place (length.symm ▸ inside))
    · rw [if_neg large]
      refine ⟨rfl, fun value member => ?_, capped, 0, rfl, fun _ place _ => Rescaled.still _⟩
      by_contra above
      exact large (List.any_eq_true.mpr ⟨value, member, decide_eq_true (not_le.mp above)⟩)

/-! ### The error of a merge -/

/-- A record the validation accepts: bytes within the zoom cap, and a shutter below one unit. -/
structure Valid (params : MicroParams) (cell : MicroCell) : Prop where
  bytes : Bytes params cell
  partialUnit : cell.shutter < params.c ^ cell.zoom

theorem validate_of_valid {cell : MicroCell} (valid : Valid params cell) :
    validate params cell = .ok () := by
  unfold validate
  rw [if_neg (not_lt.mpr valid.bytes.capped), if_neg (not_le.mpr valid.partialUnit)]

/-- Each fitted sum is made of the two pixels of its slot, each brought to the common zoom, with
the whole units of the shutters in the slot of the current sub-window. -/
theorem mergeFitted_spec (next : Source → ℕ × Source) {dst src : MicroCell}
    (dstBytes : Bytes params dst)
    (srcBytes : Bytes params src) (n : ℕ) (source : Source) :
    (mergeFitted next params dst src n source).sums.length = params.pixels ∧
      (∀ value ∈ (mergeFitted next params dst src n source).sums, value ≤ 255) ∧
      (mergeFitted next params dst src n source).target ≤ params.maxZoom ∧
      ∃ steps, (mergeFitted next params dst src n source).target = max dst.zoom src.zoom + steps ∧
        ((mergeFitted next params dst src n source).forced = false →
          ∀ place < params.pixels, ∃ dstScaled srcScaled,
            Rescaled params.c (max dst.zoom src.zoom - dst.zoom) (dst.pixels.getD place 0)
                dstScaled ∧
              Rescaled params.c (max dst.zoom src.zoom - src.zoom) (src.pixels.getD place 0)
                srcScaled ∧
              Rescaled params.c steps
                (dstScaled + srcScaled + if place = params.pixelAt n then
                  (dst.shutter + src.shutter) / params.c ^ max dst.zoom src.zoom else 0)
                ((mergeFitted next params dst src n source).sums.getD place 0)) := by
  have capped : max dst.zoom src.zoom ≤ params.maxZoom := max_le dstBytes.capped srcBytes.capped
  obtain ⟨summed, scaled⟩ := sumPixels_spec next params.c
    (max dst.zoom src.zoom - dst.zoom) (max dst.zoom src.zoom - src.zoom)
    (dstBytes.sized.trans srcBytes.sized.symm) source
  have ran : mergeFitted next params dst src n source =
      fitBytes next params (params.maxZoom - max dst.zoom src.zoom + 1) (max dst.zoom src.zoom)
        ((sumPixels next params.c (max dst.zoom src.zoom - dst.zoom)
          (max dst.zoom src.zoom - src.zoom) dst.pixels src.pixels source).1.modify
            (params.pixelAt n) fun sum =>
              sum + (dst.shutter + src.shutter) / params.c ^ max dst.zoom src.zoom)
        (sumPixels next params.c (max dst.zoom src.zoom - dst.zoom)
          (max dst.zoom src.zoom - src.zoom) dst.pixels src.pixels source).2 := rfl
  rw [ran]
  generalize sumPixels next params.c (max dst.zoom src.zoom - dst.zoom)
    (max dst.zoom src.zoom - src.zoom) dst.pixels src.pixels source = sums at summed scaled ⊢
  have sumsSized : sums.1.length = params.pixels := summed.trans dstBytes.sized
  have modified : (sums.1.modify (params.pixelAt n) fun sum =>
      sum + (dst.shutter + src.shutter) / params.c ^ max dst.zoom src.zoom).length =
      params.pixels := (List.length_modify _ _ _).trans sumsSized
  obtain ⟨length, bytes, capped', steps, moved, divided⟩ :=
    fitBytes_spec next (params.maxZoom - max dst.zoom src.zoom + 1) capped
      (Nat.lt_succ_self _) (sums.1.modify (params.pixelAt n) fun sum =>
        sum + (dst.shutter + src.shutter) / params.c ^ max dst.zoom src.zoom) sums.2
  refine ⟨length.trans modified, bytes, capped', steps, moved, fun kept place inside => ?_⟩
  obtain ⟨dstScaled, srcScaled, dstRescaled, srcRescaled, sum⟩ :=
    scaled place (dstBytes.sized.symm ▸ inside)
  refine ⟨dstScaled, srcScaled, dstRescaled, srcRescaled, ?_⟩
  have rescaled := divided kept place (modified.symm ▸ inside)
  rw [getD_modify _ _ _ (sumsSized.symm ▸ params.pixelAt_lt n)] at rescaled
  by_cases here : place = params.pixelAt n
  · rw [if_pos here, show sums.1.getD (params.pixelAt n) 0 = dstScaled + srcScaled from
      here ▸ sum] at rescaled
    rw [if_pos here]
    exact rescaled
  · rw [if_neg here, sum] at rescaled
    rw [if_neg here, Nat.add_zero]
    exact rescaled

theorem mergeCells_spec (next : Source → ℕ × Source) (valid : params.Valid) {dst src : MicroCell}
    (dstBytes : Bytes params dst)
    (srcBytes : Bytes params src) (n : ℕ) (source : Source) :
    (mergeCells next params dst src n source).1.pixels =
        (mergeFitted next params dst src n source).sums ∧
      (mergeCells next params dst src n source).1.shutter =
        (dst.shutter + src.shutter) % params.c ^ max dst.zoom src.zoom ∧
      Valid params (mergeCells next params dst src n source).1 := by
  have positive : 0 < params.c := Nat.zero_lt_of_lt valid.cLow
  obtain ⟨length, bytes, capped, steps, moved, -⟩ :=
    mergeFitted_spec next dstBytes srcBytes n source
  have remainderLow : (dst.shutter + src.shutter) % params.c ^ max dst.zoom src.zoom <
      params.c ^ max dst.zoom src.zoom := Nat.mod_lt _ (Nat.pow_pos positive)
  have small : (dst.shutter + src.shutter) % params.c ^ max dst.zoom src.zoom < 4294967296 :=
    remainderLow.trans_le ((params.unit_le positive
      (max_le dstBytes.capped srcBytes.capped)).trans (by decide))
  unfold mergeCells
  generalize mergeFitted next params dst src n source = fitted at *
  have pixels : fitted.sums.map (fun value => value % 256) = fitted.sums :=
    (List.map_congr_left fun value member =>
      Nat.mod_eq_of_lt (Nat.lt_succ_of_le (bytes value member))).trans (List.map_id _)
  simp only [pixels, Nat.mod_eq_of_lt small, true_and]
  refine ⟨⟨length, fun place inside => ?_, capped⟩, ?_⟩
  · have placeInside : place < fitted.sums.length := length.symm ▸ inside
    show fitted.sums.getD place 0 ≤ 255
    rw [List.getD_eq_getElem _ _ placeInside]
    exact bytes _ (List.getElem_mem placeInside)
  · show _ < params.c ^ fitted.target
    rw [moved]
    exact remainderLow.trans_le (Nat.pow_le_pow_right positive (Nat.le_add_right _ _))

/-- One of the two cells is at the common zoom already, so bringing both there is off by less than
one of its units in total. -/
theorem near_common {c dstZoom srcZoom dst src dstScaled srcScaled : ℕ} (positive : 0 < c)
    (dstRescaled : Rescaled c (max dstZoom srcZoom - dstZoom) dst dstScaled)
    (srcRescaled : Rescaled c (max dstZoom srcZoom - srcZoom) src srcScaled) :
    |(c : ℤ) ^ max dstZoom srcZoom * (dstScaled + srcScaled) -
        ((c : ℤ) ^ dstZoom * dst + (c : ℤ) ^ srcZoom * src)| ≤
      (c : ℤ) ^ max dstZoom srcZoom - 1 := by
  have dstNear := dstRescaled.near_unit positive dstZoom
  have srcNear := srcRescaled.near_unit positive srcZoom
  rw [Nat.add_sub_cancel' (le_max_left dstZoom srcZoom)] at dstNear
  rw [Nat.add_sub_cancel' (le_max_right dstZoom srcZoom)] at srcNear
  have oneCommon : (c : ℤ) ^ max dstZoom srcZoom + 1 ≤ (c : ℤ) ^ dstZoom + (c : ℤ) ^ srcZoom := by
    have dstUnit : (1 : ℤ) ≤ (c : ℤ) ^ dstZoom := by exact_mod_cast Nat.one_le_pow _ _ positive
    have srcUnit : (1 : ℤ) ≤ (c : ℤ) ^ srcZoom := by exact_mod_cast Nat.one_le_pow _ _ positive
    rcases max_choice dstZoom srcZoom with same | same
    · rw [same]
      linarith
    · rw [same]
      linarith
  calc
    |(c : ℤ) ^ max dstZoom srcZoom * (dstScaled + srcScaled) -
        ((c : ℤ) ^ dstZoom * dst + (c : ℤ) ^ srcZoom * src)|
      = |((c : ℤ) ^ max dstZoom srcZoom * dstScaled - (c : ℤ) ^ dstZoom * dst) +
          ((c : ℤ) ^ max dstZoom srcZoom * srcScaled - (c : ℤ) ^ srcZoom * src)| := by ring_nf
    _ ≤ ((c : ℤ) ^ max dstZoom srcZoom - (c : ℤ) ^ dstZoom) +
          ((c : ℤ) ^ max dstZoom srcZoom - (c : ℤ) ^ srcZoom) :=
      (abs_add_le _ _).trans (add_le_add dstNear srcNear)
    _ ≤ (c : ℤ) ^ max dstZoom srcZoom - 1 := by linarith

end MicroCell

open MicroCell in
/-- The error bound of a merge. Merging two valid cells leaves a valid one, and unless the loop
had to cut sums off at the zoom cap, each slot of it holds what both had there, and the slot of
the current sub-window with both shutters, up to less than one unit of the zoom it ends at. -/
theorem merge_cells_error {Source : Type} (next : Source → ℕ × Source) (t c : ℕ)
    (params : MicroParams) (accepted : MicroParams.checked t c = .ok params)
    (dst src merged : MicroCell) (dstValid : MicroCell.Valid params dst)
    (srcValid : MicroCell.Valid params src) (n : ℕ) (source after : Source)
    (ran : mergeCells next params dst src n source = (merged, after)) :
    (MicroCell.Valid params merged ∧ validate params merged = .ok ()) ∧
      ((mergeFitted next params dst src n source).forced = false → ∀ place < params.pixels,
        |((c : ℤ) ^ merged.zoom * merged.pixels.getD place 0 +
            if place = params.pixelAt n then (merged.shutter : ℤ) else 0) -
          ((c : ℤ) ^ dst.zoom * dst.pixels.getD place 0 +
            (c : ℤ) ^ src.zoom * src.pixels.getD place 0 +
            if place = params.pixelAt n then (dst.shutter + src.shutter : ℤ) else 0)| ≤
          (c : ℤ) ^ merged.zoom - 1) := by
  obtain ⟨valid, rfl, rfl⟩ := MicroParams.valid_of_checked accepted
  have positive : 0 < params.c := Nat.zero_lt_of_lt valid.cLow
  obtain ⟨pixels, shutter, mergedValid⟩ :=
    mergeCells_spec next valid dstValid.bytes srcValid.bytes n source
  obtain ⟨-, -, -, steps, zoom, slots⟩ :=
    mergeFitted_spec next dstValid.bytes srcValid.bytes n source
  have mergedZoom : merged.zoom = max dst.zoom src.zoom + steps := by
    rw [← zoom, ← congrArg (fun result => result.1.zoom) ran]
    rfl
  rw [ran] at pixels shutter mergedValid
  refine ⟨⟨mergedValid, validate_of_valid mergedValid⟩, fun kept place inside => ?_⟩
  obtain ⟨dstScaled, srcScaled, dstRescaled, srcRescaled, rescaled⟩ := slots kept place inside
  rw [← pixels] at rescaled
  have common := near_common positive dstRescaled srcRescaled
  have divided := rescaled.near_unit positive (max dst.zoom src.zoom)
  have whole : ((params.c : ℤ) ^ max dst.zoom src.zoom) *
      ((dst.shutter + src.shutter) / params.c ^ max dst.zoom src.zoom : ℕ) +
      ((dst.shutter + src.shutter) % params.c ^ max dst.zoom src.zoom : ℕ) =
      dst.shutter + src.shutter := by
    exact_mod_cast Nat.div_add_mod _ _
  rw [← mergedZoom] at divided
  have bound : |((params.c : ℤ) ^ merged.zoom * merged.pixels.getD place 0 -
      (params.c : ℤ) ^ max dst.zoom src.zoom * (dstScaled + srcScaled +
        if place = params.pixelAt n then
          (dst.shutter + src.shutter) / params.c ^ max dst.zoom src.zoom else 0 : ℕ)) +
      ((params.c : ℤ) ^ max dst.zoom src.zoom * (dstScaled + srcScaled) -
        ((params.c : ℤ) ^ dst.zoom * dst.pixels.getD place 0 +
          (params.c : ℤ) ^ src.zoom * src.pixels.getD place 0))| ≤
      (params.c : ℤ) ^ merged.zoom - 1 := by
    refine (abs_add_le _ _).trans ((add_le_add divided common).trans_eq ?_)
    ring
  refine (le_of_eq (congrArg abs ?_)).trans bound
  by_cases here : place = params.pixelAt n
  · rw [if_pos here, if_pos here, if_pos here, shutter, ← whole]
    push_cast
    ring
  · rw [if_neg here, if_neg here, if_neg here]
    push_cast
    ring

/-- A cell at zoom 1 takes one that has not zoomed: two sums do not fit a byte, so the merge ends
at zoom 2, and the slot of the current sub-window keeps its count up to three items. -/
theorem merge_cells_error_zoomed :
    ∃ dst src merged : MicroCell, ∃ after : Rounding,
      MicroCell.mergeCells Rounding.nextU64 ⟨3, 2⟩ dst src 6 (Rounding.new 0) = (merged, after) ∧
        merged.zoom = 2 ∧
        |((2 : ℤ) ^ merged.zoom * merged.pixels.getD 1 0 + (merged.shutter : ℤ)) -
          ((2 : ℤ) ^ dst.zoom * dst.pixels.getD 1 0 + (2 : ℤ) ^ src.zoom * src.pixels.getD 1 0 +
            (dst.shutter + src.shutter : ℤ))| ≤ (2 : ℤ) ^ merged.zoom - 1 := by
  have dstValid : MicroCell.Valid ⟨3, 2⟩ ⟨[255, 200, 0, 3, 7], 1, 1, false⟩ :=
    ⟨⟨rfl, by decide, by decide⟩, by decide⟩
  have srcValid : MicroCell.Valid ⟨3, 2⟩ ⟨[255, 131, 9, 0, 1], 0, 0, false⟩ :=
    ⟨⟨rfl, by decide, by decide⟩, by decide⟩
  have bound := (merge_cells_error Rounding.nextU64 3 2 ⟨3, 2⟩ rfl _ _ _ dstValid srcValid 6
    (Rounding.new 0) _ rfl).2 (by decide +kernel) 1 (by decide)
  exact ⟨_, _, _, _, rfl, by decide +kernel, bound⟩

/-! ### Merging two sketches -/

namespace SubWindowClock

end SubWindowClock

namespace MicroCM

variable {Source : Type} (next : Source → ℕ × Source)

variable {next}

end MicroCM

end AsapSketchlib
