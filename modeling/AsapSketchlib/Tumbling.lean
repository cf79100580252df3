/-
This file models tumbling windows: an active sketch, the closed windows still retained, and a
pool through which the sketches of evicted windows are recycled.

Times are natural numbers, so the model is of runs whose time arithmetic does not overflow.
-/

import AsapSketchlib.FoldMerge

namespace AsapSketchlib

/-! ### Sketches a window can hold -/

/-- The operations the pool and the windows use. Building and merging may stop at an assertion. -/
structure TumblingWindowSketch (Sketch Config : Type) where
  fromConfig : Config → Option Sketch
  tumblingInsert : Sketch → DataInput → ℤ → Sketch
  tumblingMerge : Sketch → Sketch → Option Sketch
  tumblingClear : Sketch → Sketch

/-- The fields `FoldCMSConfig` and `FoldCSConfig` share. -/
structure FoldConfig where
  rows : ℕ
  fullCols : ℕ
  foldLevel : ℕ
  topK : ℕ

/-- `impl TumblingWindowSketch for FoldCMS`. -/
def FoldCMS.tumbling (hasher : SketchHasher) (xxh : XxHash3) :
    TumblingWindowSketch FoldCMS FoldConfig where
  fromConfig config := new config.rows config.fullCols config.foldLevel config.topK
  tumblingInsert := insert hasher xxh
  tumblingMerge := mergeSameLevel hasher xxh
  tumblingClear := FoldSketch.clear

/-- `impl TumblingWindowSketch for FoldCS`. -/
def FoldCS.tumbling (hasher : SketchHasher) (xxh : XxHash3) :
    TumblingWindowSketch FoldCS FoldConfig where
  fromConfig config := new config.rows config.fullCols config.foldLevel config.topK
  tumblingInsert := insert hasher xxh
  tumblingMerge := mergeSameLevel hasher xxh
  tumblingClear := FoldSketch.clear

/-! ### The pool -/

/-- A pool of recycled sketches. The head of `freeList` is the top of the stack. -/
structure SketchPool (Sketch Config : Type) where
  freeList : List Sketch
  totalAllocated : ℕ
  config : Config

namespace SketchPool

variable {Sketch Config : Type} (ops : TumblingWindowSketch Sketch Config)

/-- Creates a pool and pre-allocates `cap` sketches. -/
def new (cap : ℕ) (config : Config) : Option (SketchPool Sketch Config) := do
  let freeList ← (List.replicate cap config).mapM ops.fromConfig
  some { freeList := freeList, totalAllocated := cap, config := config }

/-- Takes a sketch from the free list, or allocates a fresh one. -/
def take (pool : SketchPool Sketch Config) : Option (Sketch × SketchPool Sketch Config) :=
  match pool.freeList with
  | sketch :: rest => some (sketch, { pool with freeList := rest })
  | [] => do
    let sketch ← ops.fromConfig pool.config
    some (sketch, { pool with totalAllocated := pool.totalAllocated + 1 })

def put (pool : SketchPool Sketch Config) (sketch : Sketch) : SketchPool Sketch Config :=
  { pool with freeList := ops.tumblingClear sketch :: pool.freeList }

end SketchPool

/-! ### The windows -/

structure ClosedWindow (Sketch : Type) where
  sketch : Sketch
  windowId : ℕ

/-- The window manager; `closed` runs from the oldest window to the newest. -/
structure TumblingWindow (Sketch Config : Type) where
  active : Sketch
  activeWindowId : ℕ
  activeStart : ℕ
  windowSize : ℕ
  maxWindows : ℕ
  closed : List (ClosedWindow Sketch)
  pool : SketchPool Sketch Config

namespace TumblingWindow

variable {Sketch Config : Type} (ops : TumblingWindowSketch Sketch Config)

def new (windowSize maxWindows : ℕ) (config : Config) (poolCap : ℕ) :
    Option (TumblingWindow Sketch Config) :=
  if 0 < windowSize then do
    let pool ← SketchPool.new ops poolCap config
    let (active, pool) ← SketchPool.take ops pool
    some {
      active := active
      activeWindowId := 0
      activeStart := 0
      windowSize := windowSize
      maxWindows := maxWindows
      closed := []
      pool := pool }
  else none

def evict (maxWindows : ℕ) :
    List (ClosedWindow Sketch) → SketchPool Sketch Config →
      List (ClosedWindow Sketch) × SketchPool Sketch Config
  | [], pool => ([], pool)
  | oldest :: rest, pool =>
    if maxWindows < (oldest :: rest).length then
      evict maxWindows rest (SketchPool.put ops pool oldest.sketch)
    else (oldest :: rest, pool)

def closeActive (window : TumblingWindow Sketch Config) :
    Option (TumblingWindow Sketch Config) := do
  let (fresh, pool) ← SketchPool.take ops window.pool
  let closed := window.closed ++ [⟨window.active, window.activeWindowId⟩]
  let (closed, pool) := evict ops window.maxWindows closed pool
  some { window with
    active := fresh
    activeWindowId := window.activeWindowId + 1
    activeStart := window.activeStart + window.windowSize
    closed := closed
    pool := pool }

/-- The loop `while time >= active_start + window_size`, for at most `fuel` rounds. -/
def closeUntil (time : ℕ) :
    ℕ → TumblingWindow Sketch Config → Option (TumblingWindow Sketch Config)
  | 0, window => if window.activeStart + window.windowSize ≤ time then none else some window
  | fuel + 1, window =>
    if window.activeStart + window.windowSize ≤ time then
      (closeActive ops window).bind (closeUntil time fuel)
    else some window

/-- Advances to the window of a time. Each round moves the start by the window size, which is
positive, so `time` rounds are enough. -/
def advance (time : ℕ) (window : TumblingWindow Sketch Config) :
    Option (TumblingWindow Sketch Config) :=
  closeUntil ops time time window

def insert (time : ℕ) (key : DataInput) (value : ℤ) (window : TumblingWindow Sketch Config) :
    Option (TumblingWindow Sketch Config) := do
  let window ← advance ops time window
  some { window with active := ops.tumblingInsert window.active key value }

/-- Force-closes the active window at `currentTime`. -/
def flush (currentTime : ℕ) (window : TumblingWindow Sketch Config) :
    Option (TumblingWindow Sketch Config) := do
  closeActive ops (← advance ops currentTime window)

/-- Merges the `n` most recent closed windows and the active window. -/
def queryRecent (window : TumblingWindow Sketch Config) (n : ℕ) : Option Sketch :=
  (window.closed.drop (window.closed.length - n)).foldlM
    (fun merged closed => ops.tumblingMerge merged closed.sketch) window.active

def queryAll (window : TumblingWindow Sketch Config) : Option Sketch :=
  window.closed.foldlM (fun merged closed => ops.tumblingMerge merged closed.sketch) window.active

/-- The sketches `query_all_hierarchical` hands to the N-way merge. -/
def allSketches (window : TumblingWindow Sketch Config) : List Sketch :=
  window.closed.map ClosedWindow.sketch ++ [window.active]

end TumblingWindow

/-- `query_all_hierarchical` over FoldCMS. -/
def FoldCMS.queryAllHierarchical (hasher : SketchHasher) (xxh : XxHash3)
    (window : TumblingWindow FoldCMS FoldConfig) : Option FoldCMS :=
  hierarchicalMerge hasher xxh window.allSketches

/-- `query_all_hierarchical` over FoldCS. -/
def FoldCS.queryAllHierarchical (hasher : SketchHasher) (xxh : XxHash3)
    (window : TumblingWindow FoldCS FoldConfig) : Option FoldCS :=
  hierarchicalMerge hasher xxh window.allSketches

end AsapSketchlib
