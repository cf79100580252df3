/-
This file models the exponential histogram: a list of buckets, oldest first, each a sketch
with its size, its mass and its time range. An update drops expired buckets, appends one for
itself and merges neighbours by one of two rules: by size (L1) or by mass (L2). Sketches may
refuse to merge; both buckets then stay, and the scan stops.

Masses are floating point in the code. Which arithmetic computes them is a parameter, with an
exact and an `f64` instance; bucket counts are exact in either.
-/

import AsapSketchlib.Float64
import AsapSketchlib.TimeRanges

namespace AsapSketchlib

/-! ### Arithmetic of masses -/

/-- The arithmetic of masses, and the `MASS_EPSILON` of the code. -/
structure MassArith where
  add : ℚ → ℚ → ℚ
  div : ℚ → ℕ → ℚ
  square : ℤ → ℚ
  massEpsilon : ℚ

def MassArith.exact : MassArith where
  add := fun left right => left + right
  div := fun sum k => sum / k
  square := fun value => value * value
  massEpsilon := 1 / 10 ^ 9

/-- The arithmetic of `f64`. -/
def MassArith.f64 : MassArith where
  add := fun left right => roundF64 (left + right)
  div := fun sum k => roundF64 (sum / intAsF64 k)
  square := fun value => roundF64 (intAsF64 value * intAsF64 value)
  massEpsilon := roundF64 (1 / 10 ^ 9)

/-! ### Sketches -/

/-- Norm choices used by merge policies. -/
inductive SketchNorm where
  | l1
  | l2
  deriving DecidableEq

/-- What a histogram asks of its sketches. A merge that is refused is an error. -/
structure EHSketchKind (Sketch Input : Type) where
  insert : Sketch → Input → Sketch
  merge : Sketch → Sketch → Except String Sketch
  ehL2Mass : Sketch → Option ℚ
  supportsNorm : Sketch → SketchNorm → Bool

/-- One bucket with its sketch and time range. -/
structure EHBucket (Sketch : Type) where
  bucket : Sketch
  size : ℕ
  l2Mass : ℚ
  minTime : ℕ
  maxTime : ℕ

/-- A sliding-window histogram over sketch buckets, oldest first. -/
structure ExponentialHistogram (Sketch : Type) where
  payload : List (EHBucket Sketch)
  window : ℕ
  k : ℕ
  mergeNorm : SketchNorm
  typeToClone : Sketch

namespace EHSketchKind

variable {Sketch Input : Type} (kind : EHSketchKind Sketch Input) (arith : MassArith)

def inferMergeNorm (sketch : Sketch) : SketchNorm :=
  if kind.supportsNorm sketch .l2 && !kind.supportsNorm sketch .l1 then .l2 else .l1

def computeL2Mass (sketch : Sketch) : ℚ := (kind.ehL2Mass sketch).getD 0

def feed (sketch : Sketch) (inputs : List Input) : Sketch := inputs.foldl kind.insert sketch

def toMerge (bucket other : EHBucket Sketch) : Except String (EHBucket Sketch) :=
  (kind.merge bucket.bucket other.bucket).map fun merged =>
    { bucket := merged
      size := bucket.size + other.size
      l2Mass := kind.computeL2Mass merged
      minTime := min bucket.minTime other.minTime
      maxTime := max bucket.maxTime other.maxTime }

def new (k window : ℕ) (ehType : Sketch) : ExponentialHistogram Sketch where
  payload := []
  window := window
  k := max k 1
  mergeNorm := kind.inferMergeNorm ehType
  typeToClone := ehType

/-! ### Merging -/

/-- Merges bucket `index + 1` into bucket `index`. A bucket that refuses to merge is kept. -/
def mergeAtIndex (payload : List (EHBucket Sketch)) (index : ℕ) :
    List (EHBucket Sketch) × Except String Unit :=
  match payload[index]?, payload[index + 1]? with
  | some kept, some next =>
    match kind.toMerge kept next with
    | .ok merged => ((payload.set index merged).eraseIdx (index + 1), .ok ())
    | .error refusal => (payload, .error refusal)
  | _, _ => (payload, .ok ())

def sizeAt (payload : List (EHBucket Sketch)) (index : ℕ) : Option ℕ :=
  payload[index]?.map EHBucket.size

/-- `(same_size_vol as f64) >= (k as f64) / 2.0 + 2.0`. -/
def Crowded (k sameSizeVol : ℕ) : Prop := (k : ℚ) / 2 + 2 ≤ sameSizeVol

instance (k sameSizeVol : ℕ) : Decidable (Crowded k sameSizeVol) :=
  inferInstanceAs (Decidable ((k : ℚ) / 2 + 2 ≤ sameSizeVol))

def mergeCrowded (k sameSizeVol : ℕ) (payload : List (EHBucket Sketch)) (index : ℕ) :
    List (EHBucket Sketch) × Except String Unit :=
  if Crowded k sameSizeVol then kind.mergeAtIndex payload index else (payload, .ok ())

/-- The body of the loop of `merge_volumes_l1` at index `i`: the length of the run that the
bucket at `i` is in. -/
def visitL1 (k i sameSizeVol : ℕ) (payload : List (EHBucket Sketch)) :
    List (EHBucket Sketch) × Except String ℕ :=
  if sizeAt payload i = sizeAt payload (i + 1) then (payload, .ok (sameSizeVol + 1))
  else
    let merged := kind.mergeCrowded k sameSizeVol payload (i + 1)
    (merged.1, merged.2.map fun _ =>
      if i + 1 < merged.1.length ∧ 0 < i ∧ sizeAt merged.1 (i + 1) = sizeAt merged.1 i then 2
      else 1)

/-- The merge at the front that follows the loop. -/
def finishL1 (k sameSizeVol : ℕ) (payload : List (EHBucket Sketch)) :
    List (EHBucket Sketch) × Except String Unit :=
  if 2 ≤ payload.length then kind.mergeCrowded k sameSizeVol payload 0 else (payload, .ok ())

/-- The loop of `merge_volumes_l1` from an index down. -/
def scanL1 (k : ℕ) : ℕ → ℕ → List (EHBucket Sketch) → List (EHBucket Sketch) × Except String Unit
  | 0, sameSizeVol, payload =>
    match kind.visitL1 k 0 sameSizeVol payload with
    | (payload, .ok sameSizeVol) => kind.finishL1 k sameSizeVol payload
    | (payload, .error refusal) => (payload, .error refusal)
  | i + 1, sameSizeVol, payload =>
    match kind.visitL1 k (i + 1) sameSizeVol payload with
    | (payload, .ok sameSizeVol) => scanL1 k i sameSizeVol payload
    | (payload, .error refusal) => (payload, .error refusal)

def mergeVolumesL1 (k : ℕ) (payload : List (EHBucket Sketch)) :
    List (EHBucket Sketch) × Except String Unit :=
  if payload.length < 2 then (payload, .ok ())
  else kind.scanL1 k (payload.length - 2) 1 payload

/-- The search of `find_l2_merge_candidate` through the indexes below `count`, newest first. -/
def candidateBelow (k : ℕ) (payload : List (EHBucket Sketch)) : ℕ → ℚ → Option ℕ
  | 0, _ => none
  | i + 1, sumL22Newer =>
    let massAt := fun index => (payload[index]?.map EHBucket.l2Mass).getD 0
    let pairL22 := arith.add (massAt i) (massAt (i + 1))
    let threshold := arith.div sumL22Newer k
    if pairL22 ≤ arith.add threshold arith.massEpsilon then some i
    else candidateBelow k payload i (arith.add sumL22Newer (massAt (i + 1)))

def findL2MergeCandidate (k : ℕ) (payload : List (EHBucket Sketch)) : Option ℕ :=
  candidateBelow arith k payload (payload.length - 1) 0

/-- The loop of `merge_volumes_l2`, for a number of rounds. -/
def mergeRounds (k : ℕ) : ℕ → List (EHBucket Sketch) → List (EHBucket Sketch) × Except String Unit
  | 0, payload => (payload, .ok ())
  | rounds + 1, payload =>
    match findL2MergeCandidate arith k payload with
    | none => (payload, .ok ())
    | some index =>
      match kind.mergeAtIndex payload index with
      | (payload, .ok ()) => mergeRounds k rounds payload
      | (payload, .error refusal) => (payload, .error refusal)

/-- Every round merges two buckets, so there are fewer rounds than buckets. -/
def mergeVolumesL2 (k : ℕ) (payload : List (EHBucket Sketch)) :
    List (EHBucket Sketch) × Except String Unit :=
  kind.mergeRounds arith k payload.length payload

/-! ### Updates -/

variable (eh : ExponentialHistogram Sketch)

def mergeVolumes (payload : List (EHBucket Sketch)) : List (EHBucket Sketch) × Except String Unit :=
  match eh.mergeNorm with
  | .l1 => kind.mergeVolumesL1 eh.k payload
  | .l2 => kind.mergeVolumesL2 arith eh.k payload

def retained (time : ℕ) : List (EHBucket Sketch) :=
  eh.payload.dropWhile fun bucket => bucket.maxTime < time - eh.window

def newBucket (time : ℕ) (input : Input) : EHBucket Sketch :=
  let sketch := kind.insert eh.typeToClone input
  { bucket := sketch
    size := 1
    l2Mass := kind.computeL2Mass sketch
    minTime := time
    maxTime := time }

/-- Inserts one timestamped input. A refused merge is not reported. -/
def update (time : ℕ) (input : Input) : ExponentialHistogram Sketch :=
  { eh with
    payload := (kind.mergeVolumes arith eh (retained eh time ++ [kind.newBucket eh time input])).1 }

/-- Inserts timestamped inputs one after another. -/
def updateAll (updates : List (ℕ × Input)) : ExponentialHistogram Sketch :=
  updates.foldl (fun eh entry => kind.update arith eh entry.1 entry.2) eh

/-! ### Interval queries -/

/-- The loop of `query_interval_merge` that locates the end points. -/
def locateVolumes (t1 t2 : ℕ) (payload : List (EHBucket Sketch)) : ℕ × ℕ :=
  payload.zipIdx.foldl (fun volumes entry =>
    (if entry.1.minTime ≤ t1 ∧ t1 ≤ entry.1.maxTime then entry.2 else volumes.1,
      if entry.1.minTime ≤ t2 ∧ t2 ≤ entry.1.maxTime then entry.2 else volumes.2)) (0, 0)

def timeAt (bound : EHBucket Sketch → ℕ) (payload : List (EHBucket Sketch)) (index : ℕ) : ℕ :=
  (payload[index]?.map bound).getD 0

/-- The first bucket that a query merges. -/
def fromVolume (payload : List (EHBucket Sketch)) (t1 t2 : ℕ) : ℕ :=
  let fromVolume :=
    if t1 < timeAt EHBucket.minTime payload 0 then 0 else (locateVolumes t1 t2 payload).1
  let fromMinDiff := absDiff t1 (timeAt EHBucket.minTime payload fromVolume)
  let fromMaxDiff := absDiff t1 (timeAt EHBucket.maxTime payload fromVolume)
  if fromMaxDiff < fromMinDiff ∧ fromVolume + 1 < payload.length then fromVolume + 1
  else fromVolume

/-- The last bucket that a query merges, unless the first is behind it. -/
def toVolume (payload : List (EHBucket Sketch)) (t1 t2 : ℕ) : ℕ :=
  let toVolume :=
    if timeAt EHBucket.maxTime payload (payload.length - 1) < t2 then payload.length - 1
    else (locateVolumes t1 t2 payload).2
  if payload.length ≤ toVolume then payload.length - 1 else toVolume

/-- The merge of buckets `first..=last`, or nothing where one refuses. -/
def mergeRange (payload : List (EHBucket Sketch)) (first last : ℕ) : Option Sketch :=
  payload[first]?.bind fun oldest =>
    ((payload.take (last + 1)).drop (first + 1)).foldlM
      (fun merged vol => (kind.merge merged vol.bucket).toOption) oldest.bucket

def queryIntervalMerge (t1 t2 : ℕ) : Option Sketch :=
  if eh.payload.isEmpty then none
  else
    let fromVolume := fromVolume eh.payload t1 t2
    let toVolume := toVolume eh.payload t1 t2
    if fromVolume < toVolume then kind.mergeRange eh.payload fromVolume toVolume
    else eh.payload[fromVolume]?.map EHBucket.bucket

end EHSketchKind

end AsapSketchlib
