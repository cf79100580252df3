/-
This file models `MicroCM`: a grid of MicroscopeSketch cells behind one clock, which numbers
the sub-windows by the items seen or by the time that passed.

The calls of the grid are written over any type of cell with an insert and a boundary, so that
a proof can run them on cells that also remember what happened to them. The byte offsets of
the storage are left out, as they are for a cell.
-/

import AsapSketchlib.FastPath
import AsapSketchlib.Floating
import AsapSketchlib.Microscope

namespace AsapSketchlib

/-! ### The clock -/

/-- What advances the sub-window number: the items of a stream, or its timestamps. -/
inductive SubWindowClock where
  | countBased (itemsPerSubWindow seen : ℕ)
  | timeBased (subWindowLen epoch now : ℕ)
  deriving DecidableEq

namespace SubWindowClock

/-- The validation of the constructors, for a clock that was built without them. -/
def checked : SubWindowClock → Except String Unit
  | countBased itemsPerSubWindow _ =>
    if itemsPerSubWindow = 0 then .error "items_per_sub_window must be non-zero" else .ok ()
  | timeBased subWindowLen _ _ =>
    if subWindowLen = 0 then .error "sub_window_len must be non-zero" else .ok ()

def n : SubWindowClock → ℕ
  | countBased itemsPerSubWindow seen => seen / itemsPerSubWindow
  | timeBased subWindowLen epoch now => (now - epoch) / subWindowLen

/-- How far into the current sub-window the stream sits. -/
def progress : SubWindowClock → F64
  | countBased itemsPerSubWindow seen =>
    (F64.ofInt (seen % itemsPerSubWindow : ℕ)).div (F64.ofInt itemsPerSubWindow)
  | timeBased subWindowLen epoch now =>
    (F64.ofInt ((now - epoch) % subWindowLen : ℕ)).div (F64.ofInt subWindowLen)

def residualFraction (clock : SubWindowClock) : F64 := (F64.finite 1).sub clock.progress

/-- Records one item and says whether it crossed into a new sub-window. A time-based clock
panics. -/
def tick : SubWindowClock → Option (SubWindowClock × Bool)
  | countBased itemsPerSubWindow seen =>
    some (countBased itemsPerSubWindow (saturatingAdd seen 1),
      decide (saturatingAdd seen 1 / itemsPerSubWindow ≠ seen / itemsPerSubWindow))
  | timeBased _ _ _ => none

/-- Moves to a timestamp and counts the boundaries that crossed. Time does not run backwards.
A count-based clock panics. -/
def advanceTo (timestamp : ℕ) : SubWindowClock → Option (SubWindowClock × ℕ)
  | timeBased subWindowLen epoch now =>
    some (timeBased subWindowLen epoch (max now timestamp),
      (max now timestamp - epoch) / subWindowLen - (now - epoch) / subWindowLen)
  | countBased _ _ => none

/-- A clock the validation accepts, whose numbers are those of a `u64`. -/
def Valid : SubWindowClock → Prop
  | countBased itemsPerSubWindow seen => 0 < itemsPerSubWindow ∧ seen ≤ u64Max
  | timeBased subWindowLen _ _ => 0 < subWindowLen

theorem n_tick {clock ticked : SubWindowClock} {crossed : Bool} (valid : clock.Valid)
    (done : clock.tick = some (ticked, crossed)) :
    ticked.Valid ∧ ticked.n = clock.n + if crossed then 1 else 0 := by
  cases clock with
  | timeBased subWindowLen epoch now => exact absurd done (by simp [tick])
  | countBased itemsPerSubWindow seen =>
    obtain ⟨rfl, rfl⟩ := Prod.mk.inj (Option.some.inj done)
    obtain ⟨positive, inRange⟩ := valid
    have low : seen ≤ saturatingAdd seen 1 := le_min (Nat.le_succ seen) inRange
    have high : saturatingAdd seen 1 ≤ seen + 1 := min_le_left _ _
    have below : seen / itemsPerSubWindow ≤ saturatingAdd seen 1 / itemsPerSubWindow :=
      Nat.div_le_div_right low
    have above : saturatingAdd seen 1 / itemsPerSubWindow ≤ seen / itemsPerSubWindow + 1 := by
      refine (Nat.div_le_div_right high).trans ?_
      rw [← Nat.add_div_right seen positive]
      exact Nat.div_le_div_right (Nat.add_le_add_left positive seen)
    refine ⟨⟨positive, min_le_right _ _⟩, ?_⟩
    show saturatingAdd seen 1 / itemsPerSubWindow = seen / itemsPerSubWindow + _
    by_cases same : saturatingAdd seen 1 / itemsPerSubWindow = seen / itemsPerSubWindow
    · simp [same]
    · rw [decide_eq_true same, if_pos rfl]
      omega

theorem n_advanceTo {clock advanced : SubWindowClock} {timestamp crossed : ℕ} (valid : clock.Valid)
    (done : clock.advanceTo timestamp = some (advanced, crossed)) :
    advanced.Valid ∧ advanced.n = clock.n + crossed := by
  cases clock with
  | countBased itemsPerSubWindow seen => exact absurd done (by simp [advanceTo])
  | timeBased subWindowLen epoch now =>
    obtain ⟨rfl, rfl⟩ := Prod.mk.inj (Option.some.inj done)
    have forward : (now - epoch) / subWindowLen ≤ (max now timestamp - epoch) / subWindowLen :=
      Nat.div_le_div_right (Nat.sub_le_sub_right (le_max_left now timestamp) epoch)
    exact ⟨valid, (Nat.add_sub_cancel' forward).symm⟩

end SubWindowClock

/-! ### The grid -/

/-- What a grid does to one cell: an item in a sub-window, or the boundaries up to one. -/
structure CellOps (Cell Source : Type) where
  insert : MicroParams → ℕ → Cell → Source → Cell × Source
  enterSubWindow : MicroParams → ℕ → ℕ → Cell → Source → Cell × Source

/-- The cells of a grid in row-major order, with the source of the draws of all of them. -/
structure MicroGrid (Cell Source : Type) where
  rows : ℕ
  cols : ℕ
  cells : List Cell
  sized : cells.length = rows * cols
  params : MicroParams
  clock : SubWindowClock
  source : Source

namespace MicroGrid

variable {Cell Source : Type}

def changeAt (op : Cell → Source → Cell × Source) (place : ℕ) (cells : List Cell)
    (source : Source) : List Cell × Source :=
  match cells[place]? with
  | some cell => (cells.set place (op cell source).1, (op cell source).2)
  | none => (cells, source)

/-- `Vector3D::fast_insert`: one cell of each row changes, in the order of the rows. -/
def fastInsert (op : Cell → Source → Cell × Source) (hashed : MatrixHashType) (cols : ℕ) :
    ℕ → List Cell → Source → List Cell × Source
  | 0, cells, source => (cells, source)
  | row + 1, cells, source =>
    let (cells, source) := fastInsert op hashed cols row cells source
    changeAt op (row * cols + hashed.colForRow row cols) cells source

/-- A pass over all cells in storage order. -/
def sweep (op : Cell → Source → Cell × Source) : List Cell → Source → List Cell × Source
  | [], source => ([], source)
  | cell :: rest, source =>
    let (cell, source) := op cell source
    let (rest, source) := sweep op rest source
    (cell :: rest, source)

section

variable (op : Cell → Source → Cell × Source)

theorem length_changeAt (place : ℕ) (cells : List Cell) (source : Source) :
    (changeAt op place cells source).1.length = cells.length := by
  unfold changeAt
  split
  · exact List.length_set
  · rfl

theorem length_fastInsert (hashed : MatrixHashType) (cols rows : ℕ) (cells : List Cell)
    (source : Source) : (fastInsert op hashed cols rows cells source).1.length = cells.length := by
  induction rows with
  | zero => rfl
  | succ row hypothesis => exact (length_changeAt _ _ _ _).trans hypothesis

theorem length_sweep (cells : List Cell) (source : Source) :
    (sweep op cells source).1.length = cells.length := by
  induction cells generalizing source with
  | nil => rfl
  | cons cell rest hypothesis => exact congrArg (· + 1) (hypothesis _)

end

/-- `with_dimensions`, with some cell in every place. `none` is a panic. -/
def withDimensions (empty : Cell) (rows cols : ℕ) (params : MicroParams) (clock : SubWindowClock)
    (source : Source) : Option (MicroGrid Cell Source) :=
  if 0 < rows ∧ 2 ≤ cols ∧ 2 ^ Nat.log2 cols = cols then
    match MicroParams.checked params.t params.c, clock.checked with
    | .ok params, .ok () =>
      if rows * colsMaskBits cols ≤ 128 then
        some ⟨rows, cols, List.replicate (rows * cols) empty, List.length_replicate, params, clock,
          source⟩
      else none
    | _, _ => none
  else none

/-- The shapes and parameters the constructor accepts. -/
structure Admitted (rows cols : ℕ) (params : MicroParams) : Prop where
  rowsPositive : 0 < rows
  colsLow : 2 ≤ cols
  powerOfTwo : 2 ^ Nat.log2 cols = cols
  parameters : MicroParams.checked params.t params.c = .ok params
  packs : rows * colsMaskBits cols ≤ 128

def filled (cell : Cell) (rows cols : ℕ) (params : MicroParams) (clock : SubWindowClock)
    (source : Source) : MicroGrid Cell Source :=
  ⟨rows, cols, List.replicate (rows * cols) cell, List.length_replicate, params, clock, source⟩

theorem withDimensions_eq_some {empty : Cell} {rows cols : ℕ} {params : MicroParams}
    {clock : SubWindowClock} {source : Source} {grid : MicroGrid Cell Source} :
    withDimensions empty rows cols params clock source = some grid ↔
      Admitted rows cols params ∧ clock.checked = .ok () ∧
        filled empty rows cols params clock source = grid := by
  have kept : ∀ accepted, MicroParams.checked params.t params.c = .ok accepted →
      accepted = params := by
    intro accepted parameters
    unfold MicroParams.checked at parameters
    split at parameters
    · cases parameters
    · split at parameters
      · exact (Except.ok.inj parameters).symm
      · cases parameters
  unfold withDimensions
  constructor
  · intro built
    split at built
    · rename_i shape
      split at built
      · rename_i accepted parameters clockAccepted
        obtain rfl := kept accepted parameters
        split at built
        · rename_i packs
          exact ⟨⟨shape.1, shape.2.1, shape.2.2, parameters, packs⟩, clockAccepted,
            Option.some.inj built⟩
        · cases built
      · cases built
    · cases built
  · rintro ⟨admitted, clockAccepted, rfl⟩
    rw [if_pos ⟨admitted.rowsPositive, admitted.colsLow, admitted.powerOfTwo⟩]
    simp only [admitted.parameters, clockAccepted, if_pos admitted.packs]
    rfl

variable (hasher : SketchHasher) (ops : CellOps Cell Source)

/-- The hash the columns of a key are taken from. -/
def packed (key : DataInput) : MatrixHashType := .packed128 (hasher.hash128Seeded 0 key)

/-- Writes one item into the cell each row selects for a key. -/
def record (grid : MicroGrid Cell Source) (key : DataInput) : MicroGrid Cell Source where
  rows := grid.rows
  cols := grid.cols
  cells := (fastInsert (ops.insert grid.params grid.clock.n) (packed hasher key) grid.cols
    grid.rows grid.cells grid.source).1
  sized := (length_fastInsert _ _ _ _ _ _).trans grid.sized
  params := grid.params
  clock := grid.clock
  source := (fastInsert (ops.insert grid.params grid.clock.n) (packed hasher key) grid.cols
    grid.rows grid.cells grid.source).2

def enterSubWindow (grid : MicroGrid Cell Source) (crossed : ℕ) : MicroGrid Cell Source where
  rows := grid.rows
  cols := grid.cols
  cells := (sweep (ops.enterSubWindow grid.params grid.clock.n crossed) grid.cells grid.source).1
  sized := (length_sweep _ _ _).trans grid.sized
  params := grid.params
  clock := grid.clock
  source := (sweep (ops.enterSubWindow grid.params grid.clock.n crossed) grid.cells grid.source).2

/-- Records one occurrence of a key against a count-based clock, which then advances. -/
def insert (grid : MicroGrid Cell Source) (key : DataInput) : Option (MicroGrid Cell Source) :=
  let recorded := grid.record hasher ops key
  recorded.clock.tick.map fun (clock, crossed) =>
    if crossed then { recorded with clock := clock }.enterSubWindow ops 1
    else { recorded with clock := clock }

/-- Moves a time-based clock to a timestamp without recording anything. -/
def advanceTo (grid : MicroGrid Cell Source) (timestamp : ℕ) : Option (MicroGrid Cell Source) :=
  (grid.clock.advanceTo timestamp).map fun (clock, crossed) =>
    if 0 < crossed then { grid with clock := clock }.enterSubWindow ops crossed
    else { grid with clock := clock }

/-- Records one occurrence of a key at a timestamp, against a time-based clock. -/
def insertAt (grid : MicroGrid Cell Source) (key : DataInput) (timestamp : ℕ) :
    Option (MicroGrid Cell Source) :=
  (grid.advanceTo ops timestamp).map fun advanced => advanced.record hasher ops key

end MicroGrid

inductive MicroCall where
  | insert (key : DataInput)
  | insertAt (key : DataInput) (timestamp : ℕ)
  | advanceTo (timestamp : ℕ)

namespace MicroGrid

variable {Cell Source : Type} (hasher : SketchHasher) (ops : CellOps Cell Source)

/-- One call, or `none` where it panics. -/
def call (grid : MicroGrid Cell Source) : MicroCall → Option (MicroGrid Cell Source)
  | .insert key => grid.insert hasher ops key
  | .insertAt key timestamp => grid.insertAt hasher ops key timestamp
  | .advanceTo timestamp => grid.advanceTo ops timestamp

def run (grid : MicroGrid Cell Source) : List MicroCall → Option (MicroGrid Cell Source)
  | [] => some grid
  | next :: rest => (grid.call hasher ops next).bind fun grid => run grid rest

/-! ### What holds of every cell -/

section EachCell

variable {op : Cell → Source → Cell × Source} {Before After : Cell → Prop}

theorem changeAt_each (kept : ∀ cell source, Before cell → Before (op cell source).1) (place : ℕ)
    {cells : List Cell} (each : ∀ cell ∈ cells, Before cell) (source : Source) :
    ∀ cell ∈ (changeAt op place cells source).1, Before cell := by
  unfold changeAt
  cases found : cells[place]? with
  | none => exact each
  | some changed =>
    intro cell member
    rcases List.mem_or_eq_of_mem_set member with old | rfl
    · exact each cell old
    · exact kept changed source (each changed (List.mem_of_getElem? found))

theorem fastInsert_each (kept : ∀ cell source, Before cell → Before (op cell source).1)
    (hashed : MatrixHashType) (cols rows : ℕ) {cells : List Cell}
    (each : ∀ cell ∈ cells, Before cell) (source : Source) :
    ∀ cell ∈ (fastInsert op hashed cols rows cells source).1, Before cell := by
  induction rows with
  | zero => exact each
  | succ row hypothesis => exact changeAt_each kept _ hypothesis _

theorem sweep_each (moved : ∀ cell source, Before cell → After (op cell source).1)
    {cells : List Cell} (each : ∀ cell ∈ cells, Before cell) (source : Source) :
    ∀ cell ∈ (sweep op cells source).1, After cell := by
  induction cells generalizing source with
  | nil => exact fun _ member => absurd member List.not_mem_nil
  | cons first rest hypothesis =>
    refine List.forall_mem_cons.mpr ⟨moved first source (each first List.mem_cons_self), ?_⟩
    exact hypothesis (fun cell member => each cell (List.mem_cons_of_mem first member)) _

end EachCell

/-! ### Grids with richer cells -/

section Forget

variable {Cell' : Type} (forget : Cell → Cell')

def map (grid : MicroGrid Cell Source) : MicroGrid Cell' Source where
  rows := grid.rows
  cols := grid.cols
  cells := grid.cells.map forget
  sized := (List.length_map _).trans grid.sized
  params := grid.params
  clock := grid.clock
  source := grid.source

variable {op : Cell → Source → Cell × Source} {op' : Cell' → Source → Cell' × Source}
  (same : ∀ cell source, op' (forget cell) source = (forget (op cell source).1, (op cell source).2))

include same

theorem changeAt_map (place : ℕ) (cells : List Cell) (source : Source) :
    changeAt op' place (cells.map forget) source =
      ((changeAt op place cells source).1.map forget, (changeAt op place cells source).2) := by
  unfold changeAt
  rw [List.getElem?_map]
  cases cells[place]? with
  | none => rfl
  | some cell => simp only [Option.map_some, same, List.map_set]

theorem fastInsert_map (hashed : MatrixHashType) (cols rows : ℕ) (cells : List Cell)
    (source : Source) :
    fastInsert op' hashed cols rows (cells.map forget) source =
      ((fastInsert op hashed cols rows cells source).1.map forget,
        (fastInsert op hashed cols rows cells source).2) := by
  induction rows with
  | zero => rfl
  | succ row hypothesis =>
    simp only [fastInsert, hypothesis]
    exact changeAt_map forget same _ _ _

theorem sweep_map (cells : List Cell) (source : Source) :
    sweep op' (cells.map forget) source =
      ((sweep op cells source).1.map forget, (sweep op cells source).2) := by
  induction cells generalizing source with
  | nil => rfl
  | cons cell rest hypothesis =>
    simp only [List.map_cons, sweep, same, hypothesis]

omit same

/-- The operations of the richer cells act on the forgotten ones as theirs do. -/
structure Forgets (ops : CellOps Cell Source) (ops' : CellOps Cell' Source) : Prop where
  insert : ∀ params n cell source, ops'.insert params n (forget cell) source =
    (forget (ops.insert params n cell source).1, (ops.insert params n cell source).2)
  enter : ∀ params newN crossed cell source,
    ops'.enterSubWindow params newN crossed (forget cell) source =
      (forget (ops.enterSubWindow params newN crossed cell source).1,
        (ops.enterSubWindow params newN crossed cell source).2)

variable {forget} {ops} {ops' : CellOps Cell' Source} (forgets : Forgets forget ops ops')

include forgets

section

variable (grid : MicroGrid Cell Source)

theorem record_map (key : DataInput) :
    (grid.map forget).record hasher ops' key = (grid.record hasher ops key).map forget := by
  have inserted := fastInsert_map forget (forgets.insert grid.params grid.clock.n)
    (packed hasher key) grid.cols grid.rows grid.cells grid.source
  unfold record map
  simp only [inserted]

theorem enterSubWindow_map (crossed : ℕ) :
    (grid.map forget).enterSubWindow ops' crossed =
      (grid.enterSubWindow ops crossed).map forget := by
  have entered := sweep_map forget (forgets.enter grid.params grid.clock.n crossed) grid.cells
    grid.source
  unfold enterSubWindow map
  simp only [entered]

theorem insert_map (key : DataInput) :
    (grid.map forget).insert hasher ops' key =
      (grid.insert hasher ops key).map (MicroGrid.map forget) := by
  unfold insert
  rw [record_map hasher forgets, Option.map_map]
  show Option.map _ (grid.record hasher ops key).clock.tick = _
  congr 1
  funext ticked
  by_cases crossed : ticked.2 = true
  · simp only [crossed, if_true, Function.comp_apply]
    exact enterSubWindow_map forgets { grid.record hasher ops key with clock := ticked.1 } 1
  · simp only [crossed, Function.comp_apply]
    rfl

theorem advanceTo_map (timestamp : ℕ) :
    (grid.map forget).advanceTo ops' timestamp =
      (grid.advanceTo ops timestamp).map (MicroGrid.map forget) := by
  unfold advanceTo
  rw [Option.map_map]
  show Option.map _ (grid.clock.advanceTo timestamp) = _
  congr 1
  funext advanced
  by_cases crossed : 0 < advanced.2
  · simp only [crossed, if_true, Function.comp_apply]
    exact enterSubWindow_map forgets { grid with clock := advanced.1 } advanced.2
  · simp only [crossed, if_false, Function.comp_apply]
    rfl

end

theorem run_map (calls : List MicroCall) (grid : MicroGrid Cell Source) :
    (grid.map forget).run hasher ops' calls =
      (grid.run hasher ops calls).map (MicroGrid.map forget) := by
  induction calls generalizing grid with
  | nil => rfl
  | cons next rest hypothesis =>
    have called : (grid.map forget).call hasher ops' next =
        (grid.call hasher ops next).map (MicroGrid.map forget) := by
      cases next with
      | insert key => exact insert_map hasher forgets grid key
      | advanceTo timestamp => exact advanceTo_map forgets grid timestamp
      | insertAt key timestamp =>
        show Option.map _ ((grid.map forget).advanceTo ops' timestamp) = _
        rw [advanceTo_map forgets, Option.map_map]
        show _ = Option.map _ (Option.map _ (grid.advanceTo ops timestamp))
        rw [Option.map_map]
        congr 1
        funext advanced
        exact record_map hasher forgets advanced key
    unfold run
    rw [called]
    cases grid.call hasher ops next with
    | none => rfl
    | some grid => exact hypothesis grid

end Forget

end MicroGrid

/-! ### The sketch -/

/-- How the partially expired oldest sub-window is counted. -/
inductive DeltaStrategy where
  | over
  | under
  | linear (fraction : F64)

namespace MicroCell

def ops {Source : Type} (next : Source → ℕ × Source) : CellOps MicroCell Source where
  insert := fun params n cell source => insert next params cell n source
  enterSubWindow := fun params newN crossed cell source =>
    enterSubWindow next params cell newN crossed source

/-- The count of sub-window `n` in items. The unit is a power that `f64` holds exactly. -/
def scaledPixel (params : MicroParams) (cell : MicroCell) (n : ℕ) : F64 :=
  (F64.ofInt (cell.pixel params n)).mul (F64.ofInt (params.c ^ cell.zoom : ℕ))

end MicroCell

abbrev MicroCM (Source : Type) : Type := MicroGrid MicroCell Source

namespace MicroCM

variable {Source : Type}

def maxZoom (sketch : MicroCM Source) : ℕ :=
  sketch.cells.foldl (fun highest cell => max highest cell.zoom) 0

theorem zoom_le_maxZoom (sketch : MicroCM Source) {cell : MicroCell}
    (member : cell ∈ sketch.cells) : cell.zoom ≤ sketch.maxZoom := by
  have highest : ∀ (cells : List MicroCell) (low : ℕ),
      low ≤ cells.foldl (fun highest cell => max highest cell.zoom) low ∧
        ∀ cell ∈ cells,
          cell.zoom ≤ cells.foldl (fun highest cell => max highest cell.zoom) low := by
    intro cells
    induction cells with
    | nil => exact fun low => ⟨le_rfl, fun _ member => absurd member List.not_mem_nil⟩
    | cons first rest hypothesis =>
      intro low
      obtain ⟨above, each⟩ := hypothesis (max low first.zoom)
      exact ⟨(le_max_left _ _).trans above,
        List.forall_mem_cons.mpr ⟨(le_max_right _ _).trans above, each⟩⟩
  exact (highest sketch.cells 0).2 cell member

variable (hasher : SketchHasher) (sketch : MicroCM Source)

def cellOf (hashed : MatrixHashType) (row : ℕ) : Option MicroCell :=
  sketch.cells[row * sketch.cols + hashed.colForRow row sketch.cols]?

/-- The minimum over the rows of what a row says, `f64::INFINITY` for no row. -/
def acrossRows (hashed : MatrixHashType) (read : MicroCell → F64) : F64 :=
  ((List.range sketch.rows).filterMap (sketch.cellOf hashed)).foldl
    (fun least cell => least.min (read cell)) (.infinite false)

/-- The loop over the sub-windows wholly inside the window, which stops at the first one. -/
def addPast (hashed : MatrixHashType) (n : ℕ) : List ℕ → F64 → F64
  | [], total => total
  | back :: rest, total =>
    if n < back then total
    else
      addPast hashed n rest (total.add (sketch.acrossRows hashed fun cell =>
        cell.scaledPixel sketch.params (n - back)))

/-- What the policy charges for the oldest sub-window. A fraction outside of `0.0..=1.0` panics. -/
def charge (oldest : F64) : DeltaStrategy → Option F64
  | .over => some oldest
  | .under => some F64.zero
  | .linear fraction =>
    if F64.zero.AtMost fraction ∧ fraction.AtMost (.finite 1) then some (fraction.mul oldest)
    else none

/-- Estimates with an explicit policy for the oldest sub-window: the minimum across the rows is
taken for each sub-window, and the minima are summed. -/
def estimateWith (key : DataInput) (strategy : DeltaStrategy) : Option F64 :=
  let hashed := MicroGrid.packed hasher key
  let n := sketch.clock.n
  let t := sketch.params.t
  let current := sketch.acrossRows hashed fun cell =>
    (F64.ofInt cell.shutter).add (cell.scaledPixel sketch.params n)
  let total := sketch.addPast hashed n (List.range' 1 (t - 1)) current
  if n < t then some total
  else
    (charge (sketch.acrossRows hashed fun cell => cell.scaledPixel sketch.params (n - t))
      strategy).map total.add

/-- Estimates how often a key occurred inside the sliding window. -/
def estimate (key : DataInput) : Option F64 :=
  sketch.estimateWith hasher key (.linear sketch.clock.residualFraction)

end MicroCM

/-! ### The draws of the sketch -/

/-- The xorshift64* state of `Rounding`. -/
abbrev Rounding : Type := BitVec 64

namespace Rounding

/-- Seeds the generator, which a zero state would stop. -/
def new (seed : BitVec 64) : Rounding := if seed = 0 then 0x9E3779B97F4A7C15#64 else seed

def nextU64 (state : Rounding) : ℕ × Rounding :=
  let x := state ^^^ (state >>> 12)
  let x := x ^^^ (x <<< 25)
  let x := x ^^^ (x >>> 27)
  ((x * 0x2545F4914F6CDD1D#64).toNat, x)

end Rounding

end AsapSketchlib
