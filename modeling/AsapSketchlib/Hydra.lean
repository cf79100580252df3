/-
This file models Hydra over Count-Min counters: a grid of counters for all subpopulations of a
stream of rows. Every row of the stream names a value for each key column, and is inserted
under the subkey of each of its non-empty sets of columns.

Counters are integers, so the model is of streams that overflow no counter. Building a matrix
without columns panics, and so does reading a counter of a matrix without cells.
-/

import AsapSketchlib.EscapedText
import AsapSketchlib.FallibleMaps
import AsapSketchlib.FastPath
import AsapSketchlib.Floating
import Mathlib.Data.String.Basic

namespace AsapSketchlib

/-! ### Schemas -/

def maxKeyColumns : ℕ := 16

def hydraSeed : ℕ := 6

def keyEscaping : Escaping Char where
  escape := '\\'
  reserved ch := ch = '\\' || ch = ':' || ch = ';'
  escapeReserved := rfl

/-- What `push_escaped` appends. -/
def pushEscaped (text : String) : List Char := keyEscaping.write text.toList

/-- A label that stands twice: the first pair of equal neighbours of the sorted labels. -/
def duplicateLabel (labels : List String) : Option String :=
  let sorted := labels.mergeSort
  ((sorted.zip sorted.tail).find? fun pair => pair.1 = pair.2).map Prod.fst

theorem nodup_of_neighbours {Value : Type} [LinearOrder Value] {values : List Value}
    (ordered : values.Pairwise (· ≤ ·))
    (neighbours : ∀ pair ∈ values.zip values.tail, pair.1 ≠ pair.2) : values.Nodup := by
  induction values with
  | nil => exact List.nodup_nil
  | cons value rest hypothesis =>
    obtain ⟨least, orderedRest⟩ := List.pairwise_cons.mp ordered
    cases rest with
    | nil => exact List.nodup_singleton value
    | cons next later =>
      obtain ⟨apart, others⟩ := List.forall_mem_cons.mp neighbours
      have below : value < next := lt_of_le_of_ne (least next List.mem_cons_self) apart
      refine List.nodup_cons.mpr ⟨fun member => ?_, hypothesis orderedRest others⟩
      rcases List.mem_cons.mp member with same | inLater
      · exact apart same
      · exact absurd ((List.pairwise_cons.mp orderedRest).1 value inLater) (not_le.mpr below)

theorem nodup_of_duplicateLabel {labels : List String} (none : duplicateLabel labels = none) :
    labels.Nodup := by
  have apart := List.find?_eq_none.mp (Option.map_eq_none_iff.mp none)
  refine (List.mergeSort_perm labels _).nodup_iff.mp (nodup_of_neighbours
    (List.pairwise_mergeSort' (· ≤ ·) labels) fun pair member same => ?_)
  exact apart pair member (decide_eq_true same)

theorem ne_of_mem_zip_tail {Value : Type} {values : List Value} (distinct : values.Nodup)
    {pair : Value × Value} (member : pair ∈ values.zip values.tail) : pair.1 ≠ pair.2 := by
  induction values with
  | nil => exact absurd member List.not_mem_nil
  | cons value rest hypothesis =>
    obtain ⟨apart, others⟩ := List.nodup_cons.mp distinct
    cases rest with
    | nil => exact absurd member List.not_mem_nil
    | cons next later =>
      rcases List.mem_cons.mp member with rfl | inLater
      · exact fun same : value = next => apart (same ▸ List.mem_cons_self)
      · exact hypothesis others inLater

theorem duplicateLabel_of_nodup {labels : List String} (distinct : labels.Nodup) :
    duplicateLabel labels = none := by
  refine Option.map_eq_none_iff.mpr (List.find?_eq_none.mpr fun pair member same => ?_)
  exact ne_of_mem_zip_tail ((List.mergeSort_perm labels _).nodup_iff.mpr distinct) member
    (of_decide_eq_true same)

structure KeySchema where
  labels : List String
  nonempty : labels ≠ []
  few : labels.length ≤ maxKeyColumns
  distinct : labels.Nodup

namespace KeySchema

def tryFrom (labels : List String) : Except String KeySchema :=
  let got := labels.length
  if empty : labels = [] then .error "Hydra schema must declare at least one key column"
  else if many : maxKeyColumns < labels.length then
    .error s!"Hydra schema supports at most {maxKeyColumns} key columns, got {got}"
  else
    match duplicate : duplicateLabel labels with
    | some label => .error s!"Hydra schema contains duplicate column label '{label}'"
    | none => .ok ⟨labels, empty, not_lt.mp many, nodup_of_duplicateLabel duplicate⟩

def arity (schema : KeySchema) : ℕ := schema.labels.length

def escapedLabels (schema : KeySchema) : List (List Char) := schema.labels.map pushEscaped

/-- Rejects a key whose width does not match the schema. -/
def checkArity (schema : KeySchema) (got : ℕ) : Except String Unit :=
  let declared := schema.arity
  if got ≠ declared then
    .error s!"Hydra key arity mismatch: schema declares {declared} columns, got {got}"
  else .ok ()

def queryMask (key : List (Option String)) : ℕ :=
  key.zipIdx.foldl (fun mask slot => if slot.1.isSome then mask ||| 1 <<< slot.2 else mask) 0

/-- Validates a positional query key and folds it into a mask and values. -/
def resolveQuery (schema : KeySchema) (key : List (Option String)) :
    Except String (ℕ × List String) := do
  schema.checkArity key.length
  if queryMask key = 0 then .error "Hydra query must constrain at least one column"
  else return (queryMask key, key.map fun slot => slot.getD "")

def encodeColumns (mask : ℕ) (values : List String) : ℕ → Bool → List (List Char) → List Char
  | _, _, [] => []
  | col, first, label :: rest =>
    if mask.testBit col then
      (if first then [] else [';']) ++ label ++ ':' :: pushEscaped (values.getD col "") ++
        encodeColumns mask values (col + 1) false rest
    else encodeColumns mask values (col + 1) first rest

/-- `encode_subkey_into`: the canonical encoding of the subpopulation of a mask. -/
def encodeSubkey (schema : KeySchema) (values : List String) (mask : ℕ) : String :=
  String.ofList (encodeColumns mask values 0 true schema.escapedLabels)

end KeySchema

/-! ### Counters -/

/-- Query type for Hydra sketches. -/
inductive HydraQuery where
  | frequency (value : DataInput)
  | quantile (rank : F64)
  | cdf (value : F64)
  | cardinality
  | l1Norm
  | l2Norm
  | entropy

def HydraQuery.display : HydraQuery → String
  | frequency _ => "Frequency Query"
  | quantile _ => "Quantile Query"
  | cdf _ => "CDF Query"
  | cardinality => "Cardinality Query"
  | l1Norm => "L1Norm Query"
  | l2Norm => "L2Norm Query"
  | entropy => "Entropy Query"

/-- How a call fails: with an error, or not at all. -/
inductive HydraStop where
  | err (message : String)
  | panicked
  deriving DecidableEq

variable (hasher : SketchHasher)

namespace HydraCounter

def insert (counter : CountMin) (value : DataInput) (count : Option ℤ) : CountMin :=
  match count with
  | none => CountMin.fastInsert hasher counter value
  | some many => CountMin.fastInsertMany hasher counter value many

def query (counter : CountMin) (query : HydraQuery) : Except HydraStop ℚ :=
  match query with
  | .frequency value =>
    if counter.counts.data.isEmpty then .error .panicked
    else .ok (intAsF64 (CountMin.fastEstimate hasher counter value))
  | other =>
    let q := other.display
    .error (.err s!"Count-Min Sketch Counter does not support {q}")

end HydraCounter

/-! ### The grid -/

/-- Sketch grid for subpopulation queries. -/
structure Hydra where
  rowNum : ℕ
  colNum : ℕ
  sketches : Vector2D CountMin
  typeToClone : CountMin
  schema : KeySchema

namespace Hydra

/-- A grid over a schema, every cell a clone of the counter. -/
def filled (rows cols : ℕ) (schema : KeySchema) (sketchType : CountMin) : Hydra where
  rowNum := rows
  colNum := cols
  sketches := Vector2D.filled rows cols sketchType
  typeToClone := sketchType
  schema := schema

/-- Creates a grid over the named key columns. -/
def withSchema (rows cols : ℕ) (labels : List String) (sketchType : CountMin) :
    Except HydraStop Hydra :=
  match KeySchema.tryFrom labels with
  | .error message => .error (.err message)
  | .ok schema =>
    if cols = 0 then .error .panicked else .ok (filled rows cols schema sketchType)

def subkeyHash (hydra : Hydra) (values : List String) (mask : ℕ) : MatrixHashType :=
  hashForMatrixSeeded hasher hydraSeed hydra.rowNum hydra.colNum
    (.str (hydra.schema.encodeSubkey values mask))

/-- `fast_insert` of the grid: every row inserts into the counter of the hash. -/
def fastInsert (hydra : Hydra) (hashed : MatrixHashType) (value : DataInput) (count : Option ℤ) :
    Hydra :=
  { hydra with
    sketches := hydra.sketches.updateRows (fun row => hashed.colForRow row hydra.sketches.cols)
      fun _ counter => HydraCounter.insert hasher counter value count }

def masks (width : ℕ) : List ℕ := List.range' 1 (2 ^ width - 1)

def update (hydra : Hydra) (key : List String) (value : DataInput) (count : Option ℤ) :
    Except String Hydra :=
  (hydra.schema.checkArity key.length).map fun _ =>
    (masks key.length).foldl (fun grid mask =>
      fastInsert hasher grid (subkeyHash hasher grid key mask) value count) hydra

/-- The cells of two grids merged. Counters of different dimensions panic. -/
def mergeCells (cells others : List CountMin) : Option (List CountMin) :=
  (cells.zip others).mapM fun pair => pair.1.merge pair.2

theorem length_mergeCells {cells others merged : List CountMin}
    (run : mergeCells cells others = some merged) (same : cells.length = others.length) :
    merged.length = cells.length := by
  rw [length_of_mapM run, List.length_zip, same, min_self]

/-- Merges another grid. The texts of the errors of a schema go on with the labels. -/
def merge (hydra other : Hydra) : Except HydraStop Hydra :=
  if hydra.rowNum ≠ other.rowNum ∨ hydra.colNum ≠ other.colNum then
    .error (.err "Hydra dimension mismatch while merging")
  else if hydra.schema.labels ≠ other.schema.labels then
    .error (.err "Hydra schema mismatch while merging")
  else if same : hydra.sketches.data.length = other.sketches.data.length then
    match run : mergeCells hydra.sketches.data other.sketches.data with
    | some merged =>
      .ok { hydra with
        sketches :=
          { data := merged
            rows := hydra.sketches.rows
            cols := hydra.sketches.cols
            sized := (length_mergeCells run same).trans hydra.sketches.sized } }
    | none => .error .panicked
  else .error (.err "Hydra storage length mismatch while merging")

/-- The estimate of one row, `unwrap_or(0.0)`. -/
def rowEstimate (hydra : Hydra) (hashed : MatrixHashType) (query : HydraQuery) (row : ℕ) :
    Except HydraStop ℚ :=
  match hydra.sketches.data[row * hydra.sketches.cols +
      hashed.colForRow row hydra.sketches.cols]? with
  | none => .error .panicked
  | some counter =>
    match HydraCounter.query hasher counter query with
    | .error (.err _) => .ok 0
    | answer => answer

/-- Queries a subpopulation: the median of the row estimates. The template is asked first, so
that an incompatible query is an error. -/
def queryKey (hydra : Hydra) (key : List (Option String)) (query : HydraQuery) :
    Except HydraStop ℚ := do
  let (mask, values) ← (hydra.schema.resolveQuery key).mapError .err
  let _ ← HydraCounter.query hasher hydra.typeToClone query
  let estimates ← (List.range hydra.sketches.rows).mapM
    (rowEstimate hasher hydra (subkeyHash hasher hydra values mask) query)
  return Median.computeMedianInline meanF64 0 estimates

def queryFrequency (hydra : Hydra) (key : List (Option String)) (value : DataInput) :
    Except HydraStop ℚ := queryKey hasher hydra key (.frequency value)

end Hydra

end AsapSketchlib
