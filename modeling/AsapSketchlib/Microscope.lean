/-
This file models one MicroscopeSketch cell: a ring of pixels, one for each sub-window of a
sliding window, under one shared zoom exponent, and the shutter for the items below one unit.

The record is a structure here and not a byte string, so the byte offsets of the layout are
left out. Where the draws of the probabilistic rounding come from is a parameter.
-/

import AsapSketchlib.Saturating
import Mathlib.Algebra.Ring.Nat

namespace AsapSketchlib

/-- `u32::MAX`, the bound on `c^Z`. -/
def u32Max : ℕ := 4294967295

/-- Configuration of a cell: the sub-windows of a window and the zoom base. -/
structure MicroParams where
  t : ℕ
  c : ℕ
  deriving DecidableEq

namespace MicroParams

def maxSubWindows : ℕ := 4096

def maxZoomBase : ℕ := 256

/-- Builds parameters, rejecting the values the layout cannot represent. -/
def checked (t c : ℕ) : Except String MicroParams :=
  if t = 0 ∨ maxSubWindows < t then
    .error ("t (sub-windows per window) must be in 1..=" ++ toString maxSubWindows ++ ", got " ++
      toString t)
  else if 2 ≤ c ∧ c ≤ maxZoomBase then .ok ⟨t, c⟩
  else .error ("zoom base c must be in 2..=" ++ toString maxZoomBase ++ ", got " ++ toString c)

def pixels (params : MicroParams) : ℕ := params.t + 2

/-- The place of the pixel holding sub-window `n`. -/
def pixelAt (params : MicroParams) (n : ℕ) : ℕ := n % params.pixels

def zoomInCeiling (params : MicroParams) : ℕ := 255 / params.c

/-- The loop of `max_zoom`. Each turn at least doubles the value, so 32 turns are enough. -/
def maxZoomFrom (params : MicroParams) : ℕ → ℕ → ℕ → ℕ
  | 0, z, _ => z
  | fuel + 1, z, value =>
    if min (value * params.c) u64Max ≤ u32Max then
      maxZoomFrom params fuel (z + 1) (value * params.c)
    else z

/-- The largest zoom exponent for which `c^Z` still fits a `u32`. -/
def maxZoom (params : MicroParams) : ℕ := maxZoomFrom params 32 0 1

end MicroParams

/-- The record of a cell. `saturated` is no part of it: it remembers whether a full pixel ever
had to be credited at the maximum zoom. -/
structure MicroCell where
  pixels : List ℕ
  zoom : ℕ
  shutter : ℕ
  saturated : Bool

namespace MicroCell

def zeroed (params : MicroParams) : MicroCell where
  pixels := List.replicate params.pixels 0
  zoom := 0
  shutter := 0
  saturated := false

/-- The pixel holding sub-window `n`. -/
def pixel (params : MicroParams) (cell : MicroCell) (n : ℕ) : ℕ :=
  cell.pixels.getD (params.pixelAt n) 0

section Rounding

variable {Source : Type} (next : Source → ℕ × Source)

/-- Divides, rounding the remainder up with the odds of the remainder. -/
def unbiasedDivU64 (value divisor : ℕ) (source : Source) : ℕ × Source :=
  let quotient := value / divisor
  let remainder := value % divisor
  if remainder = 0 then (quotient, source)
  else
    let (draw, source) := next source
    if draw % divisor < remainder then (quotient + 1, source) else (quotient, source)

/-- The loop of a zoom-out over the pixels from an index on: the credited pixel counts as 256. -/
def dividePixels (c place : ℕ) : ℕ → List ℕ → Source → List ℕ × Source
  | _, [], source => ([], source)
  | index, slot :: rest, source =>
    let (divided, source) := unbiasedDivU64 next (if index = place then 256 else slot) c source
    let (rest, source) := dividePixels c place (index + 1) rest source
    (divided % 256 :: rest, source)

/-- Adds one unit to a pixel, zooming the cell out if it has no room left. At the zoom cap the
pixel saturates. -/
def creditPixel (params : MicroParams) (cell : MicroCell) (place : ℕ) (source : Source) :
    MicroCell × Source :=
  if cell.pixels.getD place 0 < 255 then
    ({ cell with pixels := cell.pixels.modify place fun pixel => pixel + 1 }, source)
  else if params.maxZoom ≤ cell.zoom then ({ cell with saturated := true }, source)
  else
    let (pixels, source) := dividePixels next params.c place 0 cell.pixels source
    ({ cell with pixels := pixels, zoom := cell.zoom + 1 }, source)

/-- The loop of `insert` that rolls whole units into the current pixel. Each turn takes at least
one item off `pending`. -/
def rollUnits (params : MicroParams) (place : ℕ) :
    ℕ → MicroCell → ℕ → Source → MicroCell × ℕ × Source
  | 0, cell, pending, source => (cell, pending, source)
  | fuel + 1, cell, pending, source =>
    let unit := params.c ^ cell.zoom
    if pending < unit then (cell, pending, source)
    else
      let (cell, source) := creditPixel next params cell place source
      rollUnits params place fuel cell (pending - unit) source

/-- Records one item in sub-window `n`. -/
def insert (params : MicroParams) (cell : MicroCell) (n : ℕ) (source : Source) :
    MicroCell × Source :=
  let (cell, pending, source) := rollUnits next params (params.pixelAt n) (cell.shutter + 2) cell
    (cell.shutter + 1) source
  ({ cell with shutter := pending % 4294967296 }, source)

/-- Closes the shutter out into the sub-window that just ended. -/
def closeOut (params : MicroParams) (cell : MicroCell) (ended : ℕ) (source : Source) :
    MicroCell × Source :=
  let unit := params.c ^ cell.zoom
  let pending := cell.shutter
  let cell := { cell with shutter := 0 }
  if 0 < pending then
    let (carry, source) := unbiasedDivU64 next pending unit source
    if 0 < carry then creditPixel next params cell (params.pixelAt ended) source
    else (cell, source)
  else (cell, source)

end Rounding

/-- Clears the slot of each sub-window entered on the way, oldest of them first. -/
def clearEntered (params : MicroParams) (newN : ℕ) : ℕ → List ℕ → List ℕ
  | 0, pixels => pixels
  | step + 1, pixels => clearEntered params newN step (pixels.set (params.pixelAt (newN - step)) 0)

/-- Multiplies every pixel by `c` and drops the zoom by one, where all of them have room. -/
def tryZoomIn (params : MicroParams) (cell : MicroCell) : Option MicroCell :=
  if cell.zoom = 0 then none
  else if cell.pixels.any (fun pixel => params.zoomInCeiling < pixel) = true then none
  else
    some { cell with
      pixels := cell.pixels.map fun pixel => (pixel * params.c) % 256
      zoom := cell.zoom - 1 }

/-- `while try_zoom_in(cell, layout) {}`. Each turn drops the zoom. -/
def reclaim (params : MicroParams) : ℕ → MicroCell → MicroCell
  | 0, cell => cell
  | fuel + 1, cell =>
    match tryZoomIn params cell with
    | some zoomed => reclaim params fuel zoomed
    | none => cell

/-- Moves the cell into sub-window `newN`, having crossed `crossed` boundaries to get there. -/
def enterSubWindow {Source : Type} (next : Source → ℕ × Source) (params : MicroParams)
    (cell : MicroCell) (newN crossed : ℕ) (source : Source) : MicroCell × Source :=
  if crossed = 0 then (cell, source)
  else if params.pixels ≤ crossed then
    (reclaim params cell.zoom
      { cell with pixels := cell.pixels.map fun _ => 0, shutter := 0 }, source)
  else
    let (cell, source) := closeOut next params cell (newN - crossed) source
    (reclaim params cell.zoom
      { cell with pixels := clearEntered params newN crossed cell.pixels }, source)

end MicroCell

/-! ### A cell under observation -/

/-- An operation on a cell: an item in the current sub-window, or any number of boundaries. -/
inductive MicroOp where
  | insert
  | enter (crossed : ℕ)

/-- A cell with the source of its draws and its current sub-window. `inserted` counts the items
of each sub-window, and `peak` is the largest zoom the cell has had since a sub-window began. -/
structure WatchedCell (Source : Type) where
  cell : MicroCell
  source : Source
  current : ℕ
  inserted : ℕ → ℕ
  peak : ℕ → ℕ

namespace WatchedCell

variable {Source : Type} (next : Source → ℕ × Source)

def fresh (params : MicroParams) (source : Source) (start : ℕ) : WatchedCell Source where
  cell := MicroCell.zeroed params
  source := source
  current := start
  inserted := fun _ => 0
  peak := fun _ => 0

/-- One operation. A boundary may raise the zoom while it closes the shutter out and lower it
again; sub-windows that began before it see that zoom, those it enters begin at the last one. -/
def step (params : MicroParams) (state : WatchedCell Source) : MicroOp → WatchedCell Source
  | .insert =>
    let (cell, source) := MicroCell.insert next params state.cell state.current state.source
    { cell := cell
      source := source
      current := state.current
      inserted := fun m => if m = state.current then state.inserted m + 1 else state.inserted m
      peak := fun m => if m ≤ state.current then max (state.peak m) cell.zoom else state.peak m }
  | .enter crossed =>
    let newN := state.current + crossed
    let (cell, source) := MicroCell.enterSubWindow next params state.cell newN crossed state.source
    let closedZoom :=
      if crossed = 0 ∨ params.pixels ≤ crossed then state.cell.zoom
      else (MicroCell.closeOut next params state.cell (newN - crossed) state.source).1.zoom
    { cell := cell
      source := source
      current := newN
      inserted := state.inserted
      peak := fun m =>
        if m ≤ state.current then max (state.peak m) closedZoom
        else if m ≤ newN then cell.zoom else state.peak m }

def run (params : MicroParams) (state : WatchedCell Source) (ops : List MicroOp) :
    WatchedCell Source :=
  ops.foldl (step next params) state

end WatchedCell

end AsapSketchlib
