/-
This file models what can be done with a portable Count Sketch, HyperLogLog or HydraKLL once it
was made or decoded: updates, queries, merges and deltas, with every index, remainder and shift
that may panic. The nested KLL of a HydraKLL is a parameter, as are the hashes.
-/

import AsapSketchlib.MatrixDecode
import AsapSketchlib.PortableMatrix

namespace AsapSketchlib

namespace Portable

/-! ### Runs of calls -/

section Runs

variable {State Call : Type} (step : State → Call → State × Returned)

/-- No call of a run panics, and a merge that fails leaves its receiver as it was. -/
def FailsClosed (isMerge : Call → Prop) : State → List Call → Prop
  | _, [] => True
  | state, call :: rest =>
    (step state call).2 ≠ .panicked ∧
      (isMerge call → ∀ message, (step state call).2 = .err message → (step state call).1 = state) ∧
        FailsClosed isMerge (step state call).1 rest

/-- Every call of a run meets a condition on the state before it. -/
def Meets (allowed : State → Call → Prop) : State → List Call → Prop
  | _, [] => True
  | state, call :: rest => allowed state call ∧ Meets allowed (step state call).1 rest

theorem failsClosed_of_meets {isMerge : Call → Prop} {allowed : State → Call → Prop}
    {invariant : State → Prop}
    (each : ∀ state call, invariant state → allowed state call →
      (step state call).2 ≠ .panicked ∧
        (isMerge call → ∀ message, (step state call).2 = .err message →
          (step state call).1 = state) ∧ invariant (step state call).1)
    {state : State} (initial : invariant state) {calls : List Call}
    (meets : Meets step allowed state calls) : FailsClosed step isMerge state calls := by
  induction calls generalizing state with
  | nil => exact trivial
  | cons call rest hypothesis =>
    obtain ⟨runs, unchanged, next⟩ := each state call initial meets.1
    exact ⟨runs, unchanged, hypothesis next meets.2⟩

end Runs

def answered {Answer : Type} (answer : Option Answer) : Returned :=
  if answer.isSome then .ok else .panicked

/-- A call without an error of its own: its new state, or a panic. -/
def finish {State : Type} (state : State) (next : Option State) : State × Returned :=
  match next with
  | some next => (next, .ok)
  | none => (state, .panicked)

/-! ### Count Sketch -/

namespace CountSketch

def new (rows cols : ℕ) : CountSketch where
  rows := rows
  cols := cols
  matrix := List.replicate rows (List.replicate cols F64.zero)
  topk := []

variable (hash64 : String → BitVec 64)

def updateRow (hashed : MatrixHashType) (cols : ℕ) (value : F64) (matrix : List (List F64))
    (r : ℕ) : Option (List (List F64)) := do
  let col ← hashed.decodeCol r cols
  let sign ← hashed.decodeSign r
  addAt matrix r col ((F64.ofInt sign).mul value)

/-- Inserts a single weighted observation. -/
def update (sketch : CountSketch) (key : String) (value : F64) : CountSketch × Returned :=
  if sketch.rows = 0 ∨ sketch.cols = 0 then (sketch, .ok)
  else
    let hashed := MatrixHashType.packed64 (hash64 key)
    finish sketch (((List.range sketch.rows).foldlM (updateRow hashed sketch.cols value)
      sketch.matrix).map fun matrix => { sketch with matrix := matrix })

def estimateRow (sketch : CountSketch) (hashed : MatrixHashType) (r : ℕ) : Option F64 := do
  let col ← hashed.decodeCol r sketch.cols
  let sign ← hashed.decodeSign r
  let cell ← cellAt sketch.matrix r col
  some ((F64.ofInt sign).mul cell)

/-- `estimate`, with the shifts that may panic. -/
def estimateOrPanic (sketch : CountSketch) (key : String) : Option F64 :=
  if sketch.rows = 0 ∨ sketch.cols = 0 then some F64.zero
  else do
    let hashed := MatrixHashType.packed64 (hash64 key)
    let estimates ← (List.range sketch.rows).mapM (sketch.estimateRow hashed)
    let sorted := estimates.mergeSort fun left right => left.partialCmp right != some .gt
    let mid := sorted.length / 2
    if sorted.length % 2 = 1 then sorted[mid]?
    else
      let low ← sorted[mid - 1]?
      let high ← sorted[mid]?
      return (low.add high).half

def rebuildTopkOrPanic (sketch : CountSketch) : List String → CountSketch × Returned
  | [] => (sketch, .ok)
  | key :: rest =>
    match estimateOrPanic hash64 sketch key with
    | some est => rebuildTopkOrPanic (sketch.topkUpdate key est) rest
    | none => (sketch, .panicked)

/-- `apply_delta`, with the shifts of its estimates. -/
def applyDeltaOrPanic (sketch : CountSketch) (delta : CountSketchDelta) : CountSketch × Returned :=
  match sketch.addCells delta.cells with
  | (sketch, .ok) => rebuildTopkOrPanic hash64 sketch delta.hhKeys
  | stopped => stopped

inductive Call where
  | update (key : String) (value : F64)
  | estimate (key : String)
  | merge (other : CountSketch)
  | applyDelta (delta : CountSketchDelta)

def Call.IsMerge : Call → Prop
  | merge _ => True
  | _ => False

def step (sketch : CountSketch) : Call → CountSketch × Returned
  | .update key value => update hash64 sketch key value
  | .estimate key => (sketch, answered (estimateOrPanic hash64 sketch key))
  | .merge other => sketch.merge other
  | .applyDelta delta => applyDeltaOrPanic hash64 sketch delta

end CountSketch

/-! ### HyperLogLog -/

namespace HllSketch

def new (variant : HllVariant) (precision : ℕ) : Option HllSketch :=
  if precision < 64 then
    some ⟨variant, precision, List.replicate (2 ^ precision) 0, F64.zero, F64.zero, F64.zero⟩
  else none

/-- The checks of `from_msgpack` on what the envelope holds. -/
def ofEnvelope (variant : HllVariant) (precision : ℕ) (registers : List UInt8)
    (hipKxq0 hipKxq1 hipEst : F64) : Except String HllSketch :=
  let length := registers.length
  if 64 ≤ precision then .error s!"ASAPv1 HLL envelope: precision {precision} out of range"
  else
    let expected := 2 ^ precision
    if length ≠ expected then
      .error s!"ASAPv1 HLL envelope: {length} registers, expected 2^{precision} = {expected}"
    else .ok ⟨variant, precision, registers, hipKxq0, hipKxq1, hipEst⟩

/-- What `new` returns and `from_msgpack` accepts. -/
inductive Made : HllSketch → Prop
  | new {variant : HllVariant} {precision : ℕ} {sketch : HllSketch}
      (returned : new variant precision = some sketch) : Made sketch
  | decoded {variant : HllVariant} {precision : ℕ} {registers : List UInt8}
      {hipKxq0 hipKxq1 hipEst : F64} {sketch : HllSketch}
      (accepted : ofEnvelope variant precision registers hipKxq0 hipKxq1 hipEst = .ok sketch) :
      Made sketch

variable (hash64 : List UInt8 → BitVec 64)

/-- `x << amount`, which panics at the width of the word. -/
def shiftLeft (value : BitVec 64) (amount : ℕ) : Option (BitVec 64) :=
  if amount < 64 then some (value <<< amount) else none

def update (sketch : HllSketch) (value : List UInt8) : Option HllSketch := do
  let hashedVal := hash64 value
  let p := sketch.precision
  let registerBits ← minus 64 p
  let power ← shiftLeft 1#64 p
  let pMask := power - 1#64
  let top ← MatrixHashType.shiftRight hashedVal registerBits
  let bucketNum := (top &&& pMask).toNat
  let low ← shiftLeft hashedVal p
  let leadingZero := UInt8.ofNat (low + pMask).clz.toNat + 1
  some { sketch with
    registers := sketch.registers.modify bucketNum fun old =>
      if old < leadingZero then leadingZero else old }

def estimate (ln : F64 → F64) (sketch : HllSketch) : F64 :=
  let m := F64.ofInt sketch.registers.length
  if sketch.registers.length = 0 then F64.zero
  else
    let z := sketch.registers.foldl
      (fun z regVal => z.add (.finite ((2 : ℚ) ^ (-(regVal.toNat : ℤ))))) F64.zero
    let zeroCount := (sketch.registers.filter (· = 0)).length
    let indicator := (F64.ofInt 1).div z
    let alphaM := (F64.round (7213 / 10000)).div
      ((F64.ofInt 1).add ((F64.round (1079 / 1000)).div m))
    let est := ((alphaM.mul m).mul m).mul indicator
    if est.AtMost ((m.mul (F64.ofInt 5)).div (F64.ofInt 2)) ∧ zeroCount ≠ 0 then
      m.mul (ln (m.div (F64.ofInt zeroCount)))
    else est

inductive Call where
  | update (value : List UInt8)
  | estimate
  | merge (other : HllSketch)
  | applyDelta (delta : HllSketchDelta)

def Call.IsMerge : Call → Prop
  | merge _ => True
  | _ => False

def step (ln : F64 → F64) (sketch : HllSketch) : Call → HllSketch × Returned
  | .update value => finish sketch (update hash64 sketch value)
  | .estimate => (sketch, answered (some (estimate ln sketch)))
  | .merge other => sketch.merge other
  | .applyDelta delta => sketch.applyDelta delta

end HllSketch

/-! ### KLL cells -/

/-- What the portable sketch uses of a KLL. A call that panics gives nothing. -/
structure KllBackend (Backend : Type) where
  initKll : ℕ → Backend
  deserializeFromBytes : List UInt8 → Except String Backend
  update : Backend → F64 → Option Backend
  quantile : Backend → F64 → Option F64
  merge : Backend → Backend → Option Backend
  count : Backend → Option ℕ

/-- A KLL that is made or decoded is safe to use, and stays so. -/
structure KllBackend.Safe {Backend : Type} (kll : KllBackend Backend) (safe : Backend → Prop) :
    Prop where
  initKll : ∀ k, safe (kll.initKll k)
  decoded : ∀ bytes backend, kll.deserializeFromBytes bytes = .ok backend → safe backend
  update : ∀ backend value, safe backend →
    ∃ updated, kll.update backend value = some updated ∧ safe updated
  quantile : ∀ backend q, safe backend → (kll.quantile backend q).isSome
  count : ∀ backend, safe backend → (kll.count backend).isSome
  merge : ∀ backend other, safe backend → safe other →
    ∃ merged, kll.merge backend other = some merged ∧ safe merged
  mergeEmpty : ∀ backend other, safe backend → safe other → kll.count other = some 0 →
    kll.merge backend other = some backend

/-- A KLL with the parameter it was configured with. -/
structure KllSketch (Backend : Type) where
  k : ℕ
  backend : Backend

namespace KllSketch

variable {Backend : Type} (kll : KllBackend Backend)

def new (k : ℕ) : KllSketch Backend := ⟨k, kll.initKll k⟩

def update (sketch : KllSketch Backend) (value : F64) : Option (KllSketch Backend) :=
  (kll.update sketch.backend value).map fun backend => { sketch with backend := backend }

def quantile (sketch : KllSketch Backend) (q : F64) : Option F64 := do
  let count ← kll.count sketch.backend
  if count = 0 then some F64.zero else kll.quantile sketch.backend q

def merge (sketch other : KllSketch Backend) : KllSketch Backend × Returned :=
  if sketch.k ≠ other.k then
    let own := sketch.k
    let theirs := other.k
    (sketch, .err s!"KllSketch k mismatch: self={own}, other={theirs}")
  else finish sketch ((kll.merge sketch.backend other.backend).map fun backend =>
    { sketch with backend := backend })

end KllSketch

/-! ### HydraKLL -/

structure HydraKllSketch (Backend : Type) where
  sketch : List (List (KllSketch Backend))
  rows : ℕ
  cols : ℕ

/-- A cell on the wire. -/
structure KllSketchData where
  k : ℕ
  sketchBytes : List UInt8

structure HydraKllSketchWire where
  rows : ℕ
  cols : ℕ
  sketches : List (List KllSketchData)

/-- `left % right`, which panics for a divisor of zero. -/
def remainder (left right : ℕ) : Option ℕ := if right = 0 then none else some (left % right)

/-- The cell of a matrix of any kind. -/
def entryAt {Entry : Type} (matrix : List (List Entry)) (row col : ℕ) : Option Entry :=
  matrix[row]?.bind fun entries => entries[col]?

def setEntry {Entry : Type} (matrix : List (List Entry)) (row col : ℕ) (entry : Entry) :
    List (List Entry) := matrix.modify row fun entries => entries.set col entry

namespace HydraKllSketch

variable {Backend : Type} (kll : KllBackend Backend)

def new (rows cols k : ℕ) : HydraKllSketch Backend :=
  ⟨List.replicate rows (List.replicate cols (KllSketch.new kll k)), rows, cols⟩

def decodeRow (cols : ℕ) (row : List KllSketchData × ℕ) :
    Except String (List (KllSketch Backend)) :=
  let rowIdx := row.2
  let length := row.1.length
  if row.1.length ≠ cols then
    .error s!"HydraKLL column count mismatch in row {rowIdx}: expected {cols}, got {length}"
  else row.1.mapM fun cell => (kll.deserializeFromBytes cell.sketchBytes).map fun backend =>
    ⟨cell.k, backend⟩

/-- `from_msgpack`, of the wire value. -/
def fromWire (wire : HydraKllSketchWire) : Except String (HydraKllSketch Backend) :=
  let rows := wire.rows
  let length := wire.sketches.length
  if length ≠ rows then .error s!"HydraKLL row count mismatch: expected {rows}, got {length}"
  else (wire.sketches.zipIdx.mapM (decodeRow kll wire.cols)).map fun sketch =>
    ⟨sketch, wire.rows, wire.cols⟩

/-- What `new` returns and `from_msgpack` accepts. -/
inductive Made : HydraKllSketch Backend → Prop
  | new (rows cols k : ℕ) : Made (new kll rows cols k)
  | decoded {wire : HydraKllSketchWire} {sketch : HydraKllSketch Backend}
      (accepted : fromWire kll wire = .ok sketch) : Made sketch

variable (xxh32 : String → ℕ → ℕ)

def updateRow (key : String) (value : F64) (cols : ℕ) (sketch : List (List (KllSketch Backend)))
    (i : ℕ) : Option (List (List (KllSketch Backend))) := do
  let colIndex ← remainder (xxh32 key (i % 2 ^ 32)) cols
  let cell ← entryAt sketch i colIndex
  let updated ← cell.update kll value
  some (setEntry sketch i colIndex updated)

def update (hydra : HydraKllSketch Backend) (key : String) (value : F64) :
    Option (HydraKllSketch Backend) :=
  ((List.range hydra.rows).foldlM (updateRow kll xxh32 key value hydra.cols) hydra.sketch).map
    fun sketch => { hydra with sketch := sketch }

def quantileRow (hydra : HydraKllSketch Backend) (key : String) (q : F64) (i : ℕ) : Option F64 := do
  let colIndex ← remainder (xxh32 key (i % 2 ^ 32)) hydra.cols
  let cell ← entryAt hydra.sketch i colIndex
  cell.quantile kll q

def quantile (hydra : HydraKllSketch Backend) (key : String) (q : F64) : Option F64 := do
  let quantiles ← (List.range hydra.rows).mapM (hydra.quantileRow kll xxh32 key q)
  if quantiles = [] then some F64.zero
  else
    let sorted := quantiles.mergeSort fun left right => left.partialCmp right != some .gt
    let mid := sorted.length / 2
    if sorted.length % 2 = 0 then
      let low ← sorted[mid - 1]?
      let high ← sorted[mid]?
      return (low.add high).half
    else sorted[mid]?

def mergeCells (hydra other : HydraKllSketch Backend) :
    List (ℕ × ℕ) → HydraKllSketch Backend × Returned
  | [] => (hydra, .ok)
  | place :: rest =>
    match entryAt hydra.sketch place.1 place.2, entryAt other.sketch place.1 place.2 with
    | some mine, some theirs =>
      match mine.merge kll theirs with
      | (merged, .ok) =>
        mergeCells { hydra with sketch := setEntry hydra.sketch place.1 place.2 merged } other rest
      | (_, stopped) => (hydra, stopped)
    | _, _ => (hydra, .panicked)

def merge (hydra other : HydraKllSketch Backend) : HydraKllSketch Backend × Returned :=
  let rows := hydra.rows
  let cols := hydra.cols
  let otherRows := other.rows
  let otherCols := other.cols
  if rows ≠ otherRows ∨ cols ≠ otherCols then
    (hydra, .err ("HydraKllSketch dimension mismatch: " ++
      s!"self={rows}x{cols}, other={otherRows}x{otherCols}"))
  else mergeCells kll hydra other (places rows cols)

inductive Call (Backend : Type) where
  | update (key : String) (value : F64)
  | quantile (key : String) (q : F64)
  | merge (other : HydraKllSketch Backend)

def Call.IsMerge : Call Backend → Prop
  | merge _ => True
  | _ => False

def step (hydra : HydraKllSketch Backend) : Call Backend → HydraKllSketch Backend × Returned
  | .update key value => finish hydra (update kll xxh32 hydra key value)
  | .quantile key q => (hydra, answered (quantile kll xxh32 hydra key q))
  | .merge other => merge kll hydra other

end HydraKllSketch

end Portable

end AsapSketchlib
