/-
This file models the ensemble of sketches that share one hash for each insertion, and says what
state its members reach. A matrix member hashes to the layout that all matrix members share, so it
is the sketch it would be on its own. A HyperLogLog member takes the low bits of whatever hash the
ensemble computes.
-/

import AsapSketchlib.EmittedDeltas
import AsapSketchlib.HyperLogLog

namespace AsapSketchlib

/-! ### The layout of a hash -/

/-- How the hashes of the rows are packed. -/
inductive MatrixHashMode where
  | packed64
  | packed128
  | rows
  deriving DecidableEq, Repr

def hashModeForMatrix (rows cols : ℕ) : MatrixHashMode :=
  let bitsRequired := (colsMaskBits cols + 1) * rows
  if bitsRequired ≤ 64 then .packed64 else if bitsRequired ≤ 128 then .packed128 else .rows

/-- `hash_for_matrix_seeded_with_mode_generic`. -/
def hashForMatrixSeededWithMode (hasher : SketchHasher) (seedIdx : ℕ) (mode : MatrixHashMode)
    (rows : ℕ) (key : DataInput) : MatrixHashType :=
  match mode with
  | .packed64 => .packed64 (hasher.hash64Seeded (seedIdx % seedList.length) key)
  | .packed128 => .packed128 (hasher.hash128Seeded (seedIdx % seedList.length) key)
  | .rows => .rows ((List.range rows).map fun row =>
      hasher.hash64Seeded ((seedIdx + row) % seedList.length) key)

theorem hashForMatrixSeeded_eq (hasher : SketchHasher) (seedIdx rows cols : ℕ) (key : DataInput) :
    hashForMatrixSeeded hasher seedIdx rows cols key =
      hashForMatrixSeededWithMode hasher seedIdx (hashModeForMatrix rows cols) rows key := by
  simp only [hashForMatrixSeeded, hashModeForMatrix]
  split
  · rfl
  · split <;> rfl

def MatrixHashType.lower64 : MatrixHashType → BitVec 64
  | packed64 value => value
  | packed128 value => value.setWidth 64
  | rows values => values.head?.getD 0

/-- The hash configuration that the dimensions of a matrix decide. -/
structure HashConfig where
  mode : MatrixHashMode
  rows : ℕ
  deriving DecidableEq, Repr

namespace HashConfig

def fromDimensions (rows cols : ℕ) : HashConfig := ⟨hashModeForMatrix rows cols, rows⟩

def hashForInput (hasher : SketchHasher) (config : HashConfig) (input : DataInput) :
    MatrixHashType := hashForMatrixSeededWithMode hasher 0 config.mode config.rows input

end HashConfig

/-! ### Matrix sketches of an erased type -/

/-- What the matrix sketches use of a counter type: `1`, `+=` and `-`. -/
structure CounterType where
  Carrier : Type
  one : Carrier
  add : Carrier → Carrier → Carrier
  neg : Carrier → Carrier

/-- A matrix sketch on the fast path, with the types that its adapter erases. -/
structure FastSketch where
  hasher : SketchHasher
  storage : Storage
  counter : CounterType
  counts : Vector2D counter.Carrier

namespace FastSketch

/-- `with_dimensions` of a sketch over `Vector2D<i32>`. -/
def vector2DI32 (hasher : SketchHasher) (rows cols : ℕ) : FastSketch where
  hasher := hasher
  storage := .vector2D
  counter := ⟨BitVec 32, 1, fun left right => left + right, fun counter => -counter⟩
  counts := Vector2D.filled rows cols 0#32

/-- `MatrixStorage::fast_insert`. -/
def fastInsert (sketch : FastSketch)
    (change : ℕ → sketch.counter.Carrier → sketch.counter.Carrier) (hashed : MatrixHashType) :
    FastSketch where
  hasher := sketch.hasher
  storage := sketch.storage
  counter := sketch.counter
  counts := sketch.counts.updateRows
    (fun row => MatrixHashType.fastHash.insertCol sketch.storage hashed row sketch.counts.cols)
    change

/-- `CountMin::fast_insert_with_hash_value`. -/
def countMinInsertWithHash (sketch : FastSketch) (hashed : MatrixHashType) : FastSketch :=
  sketch.fastInsert (fun _ counter => sketch.counter.add counter sketch.counter.one) hashed

/-- `Count::fast_insert_with_hash_value`. -/
def countInsertWithHash (sketch : FastSketch) (hashed : MatrixHashType) : FastSketch :=
  sketch.fastInsert (fun row counter => sketch.counter.add counter
    (if 0 < hashed.signForRow row then sketch.counter.one
      else sketch.counter.neg sketch.counter.one)) hashed

/-- `FastPathHasher::hash_for_matrix`. -/
def hashForMatrix (sketch : FastSketch) (value : DataInput) : MatrixHashType :=
  hashForMatrixSeeded sketch.hasher 0 sketch.counts.rows sketch.counts.cols value

/-- `CountMin::insert`. -/
def countMinInsert (sketch : FastSketch) (value : DataInput) : FastSketch :=
  sketch.countMinInsertWithHash (sketch.hashForMatrix value)

/-- `Count::insert`. -/
def countInsert (sketch : FastSketch) (value : DataInput) : FastSketch :=
  sketch.countInsertWithHash (sketch.hashForMatrix value)

def hashConfig (sketch : FastSketch) : HashConfig :=
  HashConfig.fromDimensions sketch.counts.rows sketch.counts.cols

theorem hashForMatrix_eq (sketch : FastSketch) (value : DataInput) :
    sketch.hashForMatrix value = sketch.hashConfig.hashForInput sketch.hasher value :=
  hashForMatrixSeeded_eq _ _ _ _ _

end FastSketch

/-! ### Members -/

/-- The sketches that can share one hash computation. -/
inductive EnsembleSketch where
  | countMinFast (sketch : FastSketch)
  | countFast (sketch : FastSketch)
  | hllErtl (hll : HyperLogLog 14)
  | hllClassic (hll : HyperLogLog 14)
  | hllHip (hll : HyperLogLogHIP 14)

namespace EnsembleSketch

def hashConfig : EnsembleSketch → Option HashConfig
  | countMinFast sketch => some sketch.hashConfig
  | countFast sketch => some sketch.hashConfig
  | hllErtl _ => none
  | hllClassic _ => none
  | hllHip _ => none

def insertWithHash (member : EnsembleSketch) (hash : MatrixHashType) : EnsembleSketch :=
  match member with
  | countMinFast sketch => countMinFast (sketch.countMinInsertWithHash hash)
  | countFast sketch => countFast (sketch.countInsertWithHash hash)
  | hllErtl hll => hllErtl (hll.insertWithHash hash.lower64)
  | hllClassic hll => hllClassic (hll.insertWithHash hash.lower64)
  | hllHip hll => hllHip (hll.insertWithHash hash.lower64)

/-- The own insert of the sketch. The HyperLogLog members use the default hasher. -/
def insert (xxh : XxHash3) (member : EnsembleSketch) (value : DataInput) : EnsembleSketch :=
  match member with
  | countMinFast sketch => countMinFast (sketch.countMinInsert value)
  | countFast sketch => countFast (sketch.countInsert value)
  | hllErtl hll => hllErtl (hll.insert (defaultXxHasher xxh) value)
  | hllClassic hll => hllClassic (hll.insert (defaultXxHasher xxh) value)
  | hllHip hll => hllHip (hll.insert xxh value)

def insertMany (xxh : XxHash3) (member : EnsembleSketch) (values : List DataInput) :
    EnsembleSketch := values.foldl (insert xxh) member

def insertHashes (member : EnsembleSketch) (hashes : List MatrixHashType) : EnsembleSketch :=
  hashes.foldl insertWithHash member

/-- A Count-Min or a Count sketch made with a hasher. -/
def MatrixOver (hasher : SketchHasher) : EnsembleSketch → Prop
  | countMinFast sketch => sketch.hasher = hasher
  | countFast sketch => sketch.hasher = hasher
  | hllErtl _ => False
  | hllClassic _ => False
  | hllHip _ => False

def registers : EnsembleSketch → Option (List ℕ)
  | countMinFast _ => none
  | countFast _ => none
  | hllErtl hll => some hll.registers
  | hllClassic hll => some hll.registers
  | hllHip hll => some hll.registers

end EnsembleSketch

/-! ### What insertions make of a member -/

namespace EnsembleSketch

variable {hasher : SketchHasher} (xxh : XxHash3)

theorem hashConfig_insertWithHash (member : EnsembleSketch) (hash : MatrixHashType) :
    (member.insertWithHash hash).hashConfig = member.hashConfig := by
  cases member <;> rfl

section

variable {member : EnsembleSketch}

theorem hashConfig_of_matrix (made : member.MatrixOver hasher) :
    ∃ cfg, member.hashConfig = some cfg := by
  cases member with
  | countMinFast sketch => exact ⟨_, rfl⟩
  | countFast sketch => exact ⟨_, rfl⟩
  | hllErtl hll => exact made.elim
  | hllClassic hll => exact made.elim
  | hllHip hll => exact made.elim

theorem insertWithHash_of_matrix {cfg : HashConfig} (made : member.MatrixOver hasher)
    (laid : member.hashConfig = some cfg) (value : DataInput) :
    member.insertWithHash (cfg.hashForInput hasher value) = member.insert xxh value := by
  cases member with
  | countMinFast sketch =>
    obtain rfl : sketch.hashConfig = cfg := Option.some.inj laid
    rw [insert, FastSketch.countMinInsert, sketch.hashForMatrix_eq, made, insertWithHash]
  | countFast sketch =>
    obtain rfl : sketch.hashConfig = cfg := Option.some.inj laid
    rw [insert, FastSketch.countInsert, sketch.hashForMatrix_eq, made, insertWithHash]
  | hllErtl hll => exact made.elim
  | hllClassic hll => exact made.elim
  | hllHip hll => exact made.elim

theorem matrixOver_insertWithHash (made : member.MatrixOver hasher) (hash : MatrixHashType) :
    (member.insertWithHash hash).MatrixOver hasher := by
  cases member <;> exact made

theorem insertHashes_of_matrix {cfg : HashConfig} (made : member.MatrixOver hasher)
    (laid : member.hashConfig = some cfg) (values : List DataInput) :
    member.insertHashes (values.map (cfg.hashForInput hasher)) = member.insertMany xxh values := by
  induction values generalizing member with
  | nil => rfl
  | cons value rest hypothesis =>
    have later := hypothesis
      (matrixOver_insertWithHash made (cfg.hashForInput hasher value))
      ((hashConfig_insertWithHash _ _).trans laid)
    rw [insertWithHash_of_matrix xxh made laid] at later
    rw [List.map_cons, insertHashes, List.foldl_cons, insertWithHash_of_matrix xxh made laid]
    exact later

theorem insertWithHash_of_hll (hll : member.hashConfig = none) (value : DataInput) :
    member.insertWithHash
      (.packed64 ((defaultXxHasher xxh).hash64Seeded canonicalHashSeed value)) =
        member.insert xxh value := by
  cases member with
  | countMinFast sketch => exact absurd hll (Option.some_ne_none _)
  | countFast sketch => exact absurd hll (Option.some_ne_none _)
  | hllErtl hll => rfl
  | hllClassic hll => rfl
  | hllHip hll => rfl

theorem insertHashes_of_hll (hll : member.hashConfig = none) (values : List DataInput) :
    member.insertHashes (values.map fun value =>
      .packed64 ((defaultXxHasher xxh).hash64Seeded canonicalHashSeed value)) =
        member.insertMany xxh values := by
  induction values generalizing member with
  | nil => rfl
  | cons value rest hypothesis =>
    have later := hypothesis ((hashConfig_insertWithHash _ (.packed64
      ((defaultXxHasher xxh).hash64Seeded canonicalHashSeed value))).trans hll)
    rw [insertWithHash_of_hll xxh hll] at later
    rw [List.map_cons, insertHashes, List.foldl_cons, insertWithHash_of_hll xxh hll]
    exact later

end

variable (member : EnsembleSketch)

theorem registers_insertWithHash (hash : MatrixHashType) :
    (member.insertWithHash hash).registers = member.registers.map fun registers =>
      Registers.raise registers (Hll.update 14 hash.lower64) := by
  cases member with
  | countMinFast sketch => rfl
  | countFast sketch => rfl
  | hllErtl hll => rfl
  | hllClassic hll => rfl
  | hllHip hll => exact congrArg some (hll.registers_insertWithHash hash.lower64)

theorem registers_insertHashes (hashes : List MatrixHashType) :
    (member.insertHashes hashes).registers = member.registers.map fun registers =>
      Registers.raiseAll registers (hashes.map fun hash => Hll.update 14 hash.lower64) := by
  induction hashes generalizing member with
  | nil => exact Option.map_id'.symm
  | cons hash rest hypothesis =>
    refine (hypothesis (member.insertWithHash hash)).trans ?_
    rw [registers_insertWithHash, Option.map_map]
    rfl

theorem registers_insertHashes_congr {hashes others : List MatrixHashType}
    (same : ∀ hash, hash ∈ hashes ↔ hash ∈ others) :
    (member.insertHashes hashes).registers = (member.insertHashes others).registers := by
  rw [registers_insertHashes, registers_insertHashes]
  refine congrArg (Option.map · member.registers) (funext fun registers => ?_)
  refine Registers.raiseAll_congr registers fun update => ?_
  simp only [List.mem_map, same]

end EnsembleSketch

/-! ### The ensemble -/

/-- A group of sketches that reuse one shared hash per insert. -/
structure HashSketchEnsemble where
  sketches : List EnsembleSketch
  hashConfig : Option HashConfig

namespace HashSketchEnsemble

def dimensionsDiffer : String :=
  "all matrix sketches in a HashSketchEnsemble must share the same dimensions"

/-- The loop of `validate_sketches`, with the configuration found so far. -/
def validateFrom (layerCfg : Option HashConfig) :
    List EnsembleSketch → Except String (Option HashConfig)
  | [] => .ok layerCfg
  | sketch :: rest =>
    match sketch.hashConfig, layerCfg with
    | some cfg, some existing =>
      if existing ≠ cfg then .error dimensionsDiffer else validateFrom layerCfg rest
    | some cfg, none => validateFrom (some cfg) rest
    | none, _ => validateFrom layerCfg rest

def new (sketches : List EnsembleSketch) : Except String HashSketchEnsemble :=
  (validateFrom none sketches).map fun hashConfig => ⟨sketches, hashConfig⟩

def push (ensemble : HashSketchEnsemble) (sketch : EnsembleSketch) :
    HashSketchEnsemble × Except String Unit :=
  match ensemble.hashConfig, sketch.hashConfig with
  | some layerCfg, some sketchCfg =>
    if layerCfg ≠ sketchCfg then (ensemble, .error dimensionsDiffer)
    else ({ ensemble with sketches := ensemble.sketches ++ [sketch] }, .ok ())
  | none, some sketchCfg => (⟨ensemble.sketches ++ [sketch], some sketchCfg⟩, .ok ())
  | _, none => ({ ensemble with sketches := ensemble.sketches ++ [sketch] }, .ok ())

def insertWithHash (ensemble : HashSketchEnsemble) (hash : MatrixHashType) : HashSketchEnsemble :=
  { ensemble with sketches := ensemble.sketches.map fun sketch => sketch.insertWithHash hash }

/-- Inserts a hash into the sketches at the indices. An index behind the last sketch is left
out. -/
def insertAtWithHash (ensemble : HashSketchEnsemble) (indices : List ℕ) (hash : MatrixHashType) :
    HashSketchEnsemble :=
  { ensemble with sketches := indices.foldl (fun sketches idx =>
      if idx < sketches.length then sketches.modify idx fun sketch => sketch.insertWithHash hash
      else sketches) ensemble.sketches }

section Hashed

variable (hasher : SketchHasher)

def hashInput (ensemble : HashSketchEnsemble) (input : DataInput) : MatrixHashType :=
  match ensemble.hashConfig with
  | some cfg => cfg.hashForInput hasher input
  | none => .packed64 (hasher.hash64Seeded canonicalHashSeed input)

def insert (ensemble : HashSketchEnsemble) (val : DataInput) : HashSketchEnsemble :=
  ensemble.insertWithHash (hashInput hasher ensemble val)

def insertAt (ensemble : HashSketchEnsemble) (indices : List ℕ) (val : DataInput) :
    HashSketchEnsemble := ensemble.insertAtWithHash indices (hashInput hasher ensemble val)

def bulkInsert (ensemble : HashSketchEnsemble) (values : List DataInput) : HashSketchEnsemble :=
  values.foldl (insert hasher) ensemble

def bulkInsertAt (ensemble : HashSketchEnsemble) (indices : List ℕ) (values : List DataInput) :
    HashSketchEnsemble :=
  values.foldl (fun ensemble val => insertAt hasher ensemble indices val) ensemble

end Hashed

end HashSketchEnsemble

/-! ### Runs -/

inductive EnsembleOperation where
  | push (sketch : EnsembleSketch)
  | insert (val : DataInput)
  | insertAt (indices : List ℕ) (val : DataInput)
  | bulkInsert (values : List DataInput)
  | bulkInsertAt (indices : List ℕ) (values : List DataInput)

namespace EnsembleOperation

/-- The values an operation routes to the member at an index, as often as it names the index. -/
def routes (index : ℕ) : EnsembleOperation → List DataInput
  | push _ => []
  | insert val => [val]
  | insertAt indices val => List.replicate (indices.count index) val
  | bulkInsert values => values
  | bulkInsertAt indices values => values.flatMap (List.replicate (indices.count index))

def routed (operations : List EnsembleOperation) (index : ℕ) : List DataInput :=
  operations.flatMap (routes index)

end EnsembleOperation

namespace HashSketchEnsemble

section Hashed

variable (hasher : SketchHasher)

def apply (ensemble : HashSketchEnsemble) : EnsembleOperation → HashSketchEnsemble
  | .push sketch => (ensemble.push sketch).1
  | .insert val => insert hasher ensemble val
  | .insertAt indices val => insertAt hasher ensemble indices val
  | .bulkInsert values => bulkInsert hasher ensemble values
  | .bulkInsertAt indices values => bulkInsertAt hasher ensemble indices values

def run (ensemble : HashSketchEnsemble) (operations : List EnsembleOperation) :
    HashSketchEnsemble := operations.foldl (apply hasher) ensemble

/-- The layout stayed, and the member at an index took the shared hashes of values. -/
structure Fed (index : ℕ) (values : List DataInput) (before after : HashSketchEnsemble) :
    Prop where
  config : after.hashConfig = before.hashConfig
  member : ∀ member, before.sketches[index]? = some member → after.sketches[index]? =
    some (member.insertHashes (values.map (hashInput hasher before)))

end Hashed

def Agrees (ensemble : HashSketchEnsemble) : Prop :=
  ∀ cfg, some cfg ∈ ensemble.sketches.map EnsembleSketch.hashConfig →
    ensemble.hashConfig = some cfg

variable {hasher : SketchHasher}

/-! ### What an insertion does to a member -/

theorem hashInput_congr {left right : HashSketchEnsemble}
    (same : left.hashConfig = right.hashConfig) : hashInput hasher left = hashInput hasher right := by
  funext input
  unfold hashInput
  rw [same]

namespace Fed

variable {index : ℕ}

theorem refl (ensemble : HashSketchEnsemble) : Fed hasher index [] ensemble ensemble where
  config := rfl
  member := fun _ present => present

theorem trans {values further : List DataInput} {first second third : HashSketchEnsemble}
    (left : Fed hasher index values first second)
    (right : Fed hasher index further second third) :
    Fed hasher index (values ++ further) first third where
  config := right.config.trans left.config
  member := by
    intro member present
    rw [right.member _ (left.member member present), hashInput_congr left.config, List.map_append]
    unfold EnsembleSketch.insertHashes
    rw [List.foldl_append]

theorem foldl {step : HashSketchEnsemble → DataInput → HashSketchEnsemble}
    {values : DataInput → List DataInput}
    (each : ∀ ensemble val, Fed hasher index (values val) ensemble (step ensemble val))
    (batch : List DataInput) (ensemble : HashSketchEnsemble) :
    Fed hasher index (batch.flatMap values) ensemble (batch.foldl step ensemble) := by
  induction batch generalizing ensemble with
  | nil => exact refl ensemble
  | cons val rest hypothesis =>
    rw [List.flatMap_cons, List.foldl_cons]
    exact (each ensemble val).trans (hypothesis (step ensemble val))

end Fed

theorem fed_insert (index : ℕ) (ensemble : HashSketchEnsemble) (val : DataInput) :
    Fed hasher index [val] ensemble (insert hasher ensemble val) where
  config := rfl
  member := by
    intro member present
    unfold insert insertWithHash
    rw [List.getElem?_map, present]
    rfl

theorem sketches_insertAtWithHash (index : ℕ) (hash : MatrixHashType) (indices : List ℕ)
    (sketches : List EnsembleSketch) {member : EnsembleSketch}
    (present : sketches[index]? = some member) :
    (indices.foldl (fun sketches idx =>
      if idx < sketches.length then sketches.modify idx fun sketch => sketch.insertWithHash hash
      else sketches) sketches)[index]? =
      some (member.insertHashes (List.replicate (indices.count index) hash)) := by
  induction indices generalizing sketches member with
  | nil => exact present
  | cons idx rest hypothesis =>
    obtain ⟨inside, _⟩ := List.getElem?_eq_some_iff.mp present
    rw [List.foldl_cons]
    by_cases here : idx = index
    · subst here
      rw [if_pos inside, List.count_cons_self, List.replicate_succ]
      refine hypothesis _ ?_
      rw [List.getElem?_modify_eq, present]
      rfl
    · rw [List.count_cons_of_ne here]
      refine hypothesis _ ?_
      split
      · rw [List.getElem?_modify_ne _ _ here, present]
      · exact present

theorem fed_insertAt (index : ℕ) (indices : List ℕ) (ensemble : HashSketchEnsemble)
    (val : DataInput) :
    Fed hasher index (List.replicate (indices.count index) val) ensemble
      (insertAt hasher ensemble indices val) where
  config := rfl
  member := by
    intro member present
    rw [List.map_replicate]
    exact sketches_insertAtWithHash index _ indices _ present

/-! ### What a run does to a member -/

theorem hashConfig_push {ensemble : HashSketchEnsemble} {cfg : HashConfig}
    (laid : ensemble.hashConfig = some cfg) (sketch : EnsembleSketch) :
    (ensemble.push sketch).1.hashConfig = some cfg := by
  unfold push
  rw [laid]
  cases sketch.hashConfig with
  | none => rfl
  | some sketchCfg =>
    show (if cfg ≠ sketchCfg then _ else _ : HashSketchEnsemble × Except String Unit).1.hashConfig
      = some cfg
    split
    · exact laid
    · rfl

theorem sketches_push {ensemble : HashSketchEnsemble} (sketch : EnsembleSketch) :
    (ensemble.push sketch).1.sketches = ensemble.sketches ∨
      (ensemble.push sketch).1.sketches = ensemble.sketches ++ [sketch] := by
  unfold push
  split
  · split
    · exact Or.inl rfl
    · exact Or.inr rfl
  · exact Or.inr rfl
  · exact Or.inr rfl

theorem fed_apply (index : ℕ) (ensemble : HashSketchEnsemble) (operation : EnsembleOperation)
    (kept : (apply hasher ensemble operation).hashConfig = ensemble.hashConfig) :
    Fed hasher index (operation.routes index) ensemble (apply hasher ensemble operation) := by
  cases operation with
  | push sketch =>
    refine ⟨kept, fun member present => ?_⟩
    show (ensemble.push sketch).1.sketches[index]? = some member
    obtain ⟨inside, _⟩ := List.getElem?_eq_some_iff.mp present
    rcases ensemble.sketches_push sketch with same | joined
    · rw [same, present]
    · rw [joined, List.getElem?_append_left inside, present]
  | insert val => exact fed_insert index ensemble val
  | insertAt indices val => exact fed_insertAt index indices ensemble val
  | bulkInsert values =>
    have fed : Fed hasher index (values.flatMap fun val => [val]) ensemble
        (bulkInsert hasher ensemble values) := Fed.foldl (fed_insert index) values ensemble
    rwa [List.flatMap_singleton'] at fed
  | bulkInsertAt indices values => exact Fed.foldl (fed_insertAt index indices) values ensemble

section

variable {ensemble : HashSketchEnsemble} {cfg : HashConfig} (laid : ensemble.hashConfig = some cfg)

include laid

theorem hashConfig_apply (operation : EnsembleOperation) :
    (apply hasher ensemble operation).hashConfig = some cfg := by
  cases operation with
  | push sketch => exact hashConfig_push laid sketch
  | insert val => exact laid
  | insertAt indices val => exact laid
  | bulkInsert values => exact (Fed.foldl (fed_insert 0) values ensemble).config.trans laid
  | bulkInsertAt indices values =>
    exact (Fed.foldl (fed_insertAt 0 indices) values ensemble).config.trans laid

theorem hashConfig_run (operations : List EnsembleOperation) :
    (run hasher ensemble operations).hashConfig = some cfg := by
  induction operations generalizing ensemble with
  | nil => exact laid
  | cons operation rest hypothesis =>
    exact hypothesis (hashConfig_apply laid operation)

end

theorem fed_run (index : ℕ) (operations : List EnsembleOperation)
    (ensemble : HashSketchEnsemble)
    (kept : (run hasher ensemble operations).hashConfig = ensemble.hashConfig) :
    Fed hasher index (EnsembleOperation.routed operations index) ensemble
      (run hasher ensemble operations) := by
  induction operations generalizing ensemble with
  | nil => exact Fed.refl ensemble
  | cons operation rest hypothesis =>
    have first : (apply hasher ensemble operation).hashConfig = ensemble.hashConfig := by
      cases laid : ensemble.hashConfig with
      | some cfg => exact hashConfig_apply laid operation
      | none =>
        cases after : (apply hasher ensemble operation).hashConfig with
        | none => rfl
        | some cfg =>
          rw [laid] at kept
          exact absurd (kept.symm.trans (hashConfig_run after rest)) (Option.some_ne_none cfg).symm
    exact (fed_apply index ensemble operation first).trans
      (hypothesis _ (kept.trans first.symm))

/-! ### The layout of the members -/

theorem agrees_of_configs {before after : HashSketchEnsemble} (agrees : Agrees before)
    (config : after.hashConfig = before.hashConfig)
    (configs : after.sketches.map EnsembleSketch.hashConfig =
      before.sketches.map EnsembleSketch.hashConfig) : Agrees after := by
  intro cfg present
  rw [configs] at present
  exact config.trans (agrees cfg present)

/-- What the validation finds is the layout of every matrix sketch. -/
theorem validateFrom_spec {sketches : List EnsembleSketch} {layerCfg found : Option HashConfig}
    (valid : validateFrom layerCfg sketches = .ok found) :
    (∀ cfg, layerCfg = some cfg → found = some cfg) ∧
      ∀ cfg, some cfg ∈ sketches.map EnsembleSketch.hashConfig → found = some cfg := by
  induction sketches generalizing layerCfg with
  | nil =>
    obtain rfl : layerCfg = found := Except.ok.inj valid
    exact ⟨fun _ same => same, fun _ absent => absurd absent List.not_mem_nil⟩
  | cons sketch rest hypothesis =>
    unfold validateFrom at valid
    rw [List.map_cons]
    simp only [List.mem_cons]
    split at valid
    · rename_i own existing laid
      split at valid
      · exact absurd valid (by simp only [reduceCtorEq, not_false_eq_true])
      · rename_i agreed
        obtain ⟨before, behind⟩ := hypothesis valid
        refine ⟨before, fun cfg present => present.elim (fun same => ?_) (behind cfg)⟩
        refine before cfg ?_
        rw [not_not.mp agreed]
        exact (same.trans laid).symm
    · rename_i own laid
      obtain ⟨before, behind⟩ := hypothesis valid
      refine ⟨fun cfg impossible => absurd impossible.symm (Option.some_ne_none cfg),
        fun cfg present => present.elim (fun same => ?_) (behind cfg)⟩
      exact before cfg (laid.symm.trans same.symm)
    · rename_i laid
      obtain ⟨before, behind⟩ := hypothesis valid
      refine ⟨before, fun cfg present => present.elim (fun same => ?_) (behind cfg)⟩
      exact absurd (same.trans laid) (Option.some_ne_none cfg)

theorem agrees_new {sketches : List EnsembleSketch} {made : HashSketchEnsemble}
    (created : new sketches = .ok made) : Agrees made := by
  unfold new at created
  cases valid : validateFrom none sketches with
  | error message =>
    rw [valid] at created
    exact absurd created (by simp only [Except.map, reduceCtorEq, not_false_eq_true])
  | ok found =>
    rw [valid] at created
    obtain rfl := Except.ok.inj created
    exact (validateFrom_spec valid).2

section

variable {ensemble : HashSketchEnsemble} (agrees : Agrees ensemble)

include agrees

theorem agrees_push (sketch : EnsembleSketch) : Agrees (ensemble.push sketch).1 := by
  have joined : ∀ {after : HashSketchEnsemble},
      after.sketches = ensemble.sketches ++ [sketch] →
      (∀ cfg, ensemble.hashConfig = some cfg → after.hashConfig = some cfg) →
      (∀ cfg, sketch.hashConfig = some cfg → after.hashConfig = some cfg) → Agrees after := by
    intro after sketches old own cfg present
    rw [sketches, List.map_append, List.mem_append, List.map_singleton, List.mem_singleton]
      at present
    exact present.elim (fun among => old cfg (agrees cfg among)) fun same => own cfg same.symm
  unfold push
  split
  · rename_i layerCfg sketchCfg layer own
    split
    · exact agrees
    · rename_i same
      refine joined rfl (fun cfg laid => laid) fun cfg ownCfg => ?_
      rw [own, ← not_not.mp same] at ownCfg
      exact layer.trans ownCfg
  · rename_i sketchCfg layer own
    refine joined rfl (fun cfg laid => ?_) fun cfg ownCfg => own.symm.trans ownCfg
    exact absurd (layer.symm.trans laid) (Option.some_ne_none cfg).symm
  · rename_i own
    refine joined rfl (fun cfg laid => laid) fun cfg ownCfg => ?_
    exact absurd (own.symm.trans ownCfg) (Option.some_ne_none cfg).symm

theorem agrees_insert (val : DataInput) : Agrees (insert hasher ensemble val) := by
  refine agrees_of_configs agrees rfl ?_
  show (ensemble.sketches.map _).map _ = _
  rw [List.map_map]
  refine List.map_congr_left fun member _ => ?_
  exact member.hashConfig_insertWithHash _

theorem agrees_insertAt (indices : List ℕ) (val : DataInput) :
    Agrees (insertAt hasher ensemble indices val) := by
  refine agrees_of_configs agrees rfl ?_
  unfold insertAt insertAtWithHash
  generalize ensemble.sketches = sketches
  induction indices generalizing sketches with
  | nil => rfl
  | cons idx rest hypothesis =>
    rw [List.foldl_cons]
    refine (hypothesis _).trans ?_
    split
    · refine List.ext_getElem? fun place => ?_
      rw [List.getElem?_map, List.getElem?_map, List.getElem?_modify, Option.map_eq_map,
        Option.map_map]
      refine congrArg (Option.map · sketches[place]?) (funext fun member => ?_)
      show EnsembleSketch.hashConfig (if _ then _ else _) = _
      split
      · exact member.hashConfig_insertWithHash _
      · rfl
    · rfl

end

theorem agrees_foldl {step : HashSketchEnsemble → DataInput → HashSketchEnsemble}
    (each : ∀ ensemble val, Agrees ensemble → Agrees (step ensemble val)) (batch : List DataInput)
    {ensemble : HashSketchEnsemble} (agrees : Agrees ensemble) : Agrees (batch.foldl step ensemble) := by
  induction batch generalizing ensemble with
  | nil => exact agrees
  | cons val rest hypothesis => exact hypothesis (each ensemble val agrees)

theorem agrees_apply {ensemble : HashSketchEnsemble} (agrees : Agrees ensemble)
    (operation : EnsembleOperation) : Agrees (apply hasher ensemble operation) := by
  cases operation with
  | push sketch => exact agrees_push agrees sketch
  | insert val => exact agrees_insert agrees val
  | insertAt indices val => exact agrees_insertAt agrees indices val
  | bulkInsert values => exact agrees_foldl (fun _ val held => agrees_insert held val) values agrees
  | bulkInsertAt indices values =>
    exact agrees_foldl (fun _ val held => agrees_insertAt held indices val) values agrees

theorem agrees_run {ensemble : HashSketchEnsemble} (agrees : Agrees ensemble)
    (operations : List EnsembleOperation) : Agrees (run hasher ensemble operations) := by
  induction operations generalizing ensemble with
  | nil => exact agrees
  | cons operation rest hypothesis =>
    exact hypothesis (agrees_apply agrees operation)

/-! ### Members and sketches on their own -/

/-- What becomes of a member to which values are routed while an ensemble turns into another. A
matrix member of the ensemble's hasher becomes what it would become on its own. A HyperLogLog
member, while the layout stays, takes the shared hashes, of which its registers keep only the set;
while there is no matrix member, these are its own hashes. -/
structure Follows (xxh : XxHash3) (hasher : SketchHasher) (before after : HashSketchEnsemble)
    (index : ℕ) (member : EnsembleSketch) (values : List DataInput) : Prop where
  matrix : member.MatrixOver hasher →
    after.sketches[index]? = some (member.insertMany xxh values)
  shared : member.hashConfig = none → after.hashConfig = before.hashConfig →
    after.sketches[index]? = some (member.insertHashes (values.map (hashInput hasher before)))
  own : member.hashConfig = none → after.hashConfig = none → hasher = defaultXxHasher xxh →
    after.sketches[index]? = some (member.insertMany xxh values)
  registers : member.hashConfig = none → after.hashConfig = before.hashConfig →
    ∀ others : List DataInput, (∀ value, value ∈ values ↔ value ∈ others) →
      (after.sketches[index]?).bind EnsembleSketch.registers =
        (member.insertHashes (others.map (hashInput hasher before))).registers

/-- In every ensemble that is reached, every member follows the values routed to it. -/
theorem members_follow (xxh : XxHash3) (hasher : SketchHasher) {sketches : List EnsembleSketch}
    {made : HashSketchEnsemble} (created : new sketches = .ok made)
    (earlier later : List EnsembleOperation) {index : ℕ} {member : EnsembleSketch}
    (present : (run hasher made earlier).sketches[index]? = some member) :
    Follows xxh hasher (run hasher made earlier) (run hasher (run hasher made earlier) later)
      index member (EnsembleOperation.routed later index) := by
  have agrees : Agrees (run hasher made earlier) := agrees_run (agrees_new created) earlier
  generalize run hasher made earlier = before at agrees present ⊢
  have shared : (run hasher before later).hashConfig = before.hashConfig →
      (run hasher before later).sketches[index]? = some (member.insertHashes
        ((EnsembleOperation.routed later index).map (hashInput hasher before))) :=
    fun kept => (fed_run index later before kept).member member present
  refine ⟨fun matrix => ?_, fun _ kept => shared kept, fun hll none same => ?_,
    fun hll kept others sameSet => ?_⟩
  · obtain ⟨cfg, own⟩ := EnsembleSketch.hashConfig_of_matrix matrix
    have laid : before.hashConfig = some cfg := agrees cfg
      (List.mem_map.mpr ⟨member, List.mem_of_getElem? present, own⟩)
    have hashes : hashInput hasher before = cfg.hashForInput hasher := by
      funext value
      unfold hashInput
      rw [laid]
    rw [shared ((hashConfig_run laid later).trans laid.symm), hashes,
      EnsembleSketch.insertHashes_of_matrix xxh matrix own]
  · have bare : before.hashConfig = Option.none := by
      cases laid : before.hashConfig with
      | none => rfl
      | some cfg => exact (hashConfig_run laid later).symm.trans none
    have hashes : hashInput hasher before = fun value =>
        .packed64 (hasher.hash64Seeded canonicalHashSeed value) := by
      funext value
      unfold hashInput
      rw [bare]
    rw [shared (none.trans bare.symm), hashes, same, EnsembleSketch.insertHashes_of_hll xxh hll]
  · rw [shared kept]
    refine EnsembleSketch.registers_insertHashes_congr member fun hash => ?_
    simp only [List.mem_map, sameSet]

/-- The default ensemble of a Count-Min sketch joined by a HyperLogLog after an insertion. -/
theorem members_follow_joined :
    Follows plainXxHash (defaultXxHasher plainXxHash)
      (run (defaultXxHasher plainXxHash)
        ⟨[.countMinFast (FastSketch.vector2DI32 (defaultXxHasher plainXxHash) 3 4096)],
          some (HashConfig.fromDimensions 3 4096)⟩
        [.insert (.u64 5), .push (.hllErtl (HyperLogLog.newBase 14))])
      (run (defaultXxHasher plainXxHash) (run (defaultXxHasher plainXxHash)
        ⟨[.countMinFast (FastSketch.vector2DI32 (defaultXxHasher plainXxHash) 3 4096)],
          some (HashConfig.fromDimensions 3 4096)⟩
        [.insert (.u64 5), .push (.hllErtl (HyperLogLog.newBase 14))])
        [.insertAt [1, 1] (.u64 7), .bulkInsert [.u64 5, .u64 7]])
      1 (.hllErtl (HyperLogLog.newBase 14)) [.u64 7, .u64 7, .u64 5, .u64 7] :=
  have created : new
      [.countMinFast (FastSketch.vector2DI32 (defaultXxHasher plainXxHash) 3 4096)] = .ok _ := rfl
  members_follow plainXxHash (defaultXxHasher plainXxHash) created _ _ rfl

/-- The digests of a key that the regression test of the crate's hashes pins, and the number of
its bytes for any other key. -/
def pinnedXxHash : XxHash3 where
  oneshot64 := fun seed bytes =>
    if bytes = "projectasap".toByteArray.data.toList then
      if seed = seedAt 0 then 887548862923853302 else 8535098769003547387
    else BitVec.ofNat 64 (bytesValue bytes)
  oneshot128 := fun _ _ => 199634325175509853918794253804029959851
  oneshot64_inj := by
    intro seed left right sameLength short same
    have other : ∀ bytes : List UInt8, bytes.length = 4 ∨ bytes.length = 8 →
        bytes ≠ "projectasap".toByteArray.data.toList := by
      rintro bytes short rfl
      exact absurd short (by decide)
    rw [if_neg (other left short), if_neg (other right (sameLength ▸ short))] at same
    exact plainXxHash.oneshot64_inj seed left right sameLength short same

/-- Next to a Count-Min sketch a HyperLogLog is not the sketch it would be on its own. -/
theorem hll_beside_matrix :
    ∃ made, new [.countMinFast (FastSketch.vector2DI32 (defaultXxHasher pinnedXxHash) 3 4096),
        .hllErtl (HyperLogLog.newBase 14)] = .ok made ∧
      (run (defaultXxHasher pinnedXxHash) made [.insert (.str "projectasap")]).sketches[1]? ≠
        some ((EnsembleSketch.hllErtl (HyperLogLog.newBase 14)).insertMany pinnedXxHash
          (EnsembleOperation.routed [.insert (.str "projectasap")] 1)) := by
  refine ⟨_, rfl, fun same => ?_⟩
  have registers := congrArg (fun member => member.bind EnsembleSketch.registers) same
  have sameRegisters : Registers.raise (List.replicate (2 ^ 14) 0)
      (Hll.update 14 887548862923853302) =
        Registers.raise (List.replicate (2 ^ 14) 0) (Hll.update 14 8535098769003547387) :=
    Option.some.inj registers
  have own := (Registers.reaches_raise (List.replicate (2 ^ 14) 0)
    (Hll.update 14 8535098769003547387) (Hll.bucketNum 14 8535098769003547387) 1).mpr
      (Or.inr ⟨by rw [List.length_replicate]; exact Hll.bucketNum_lt 14 _, rfl, Nat.le_add_left 1 _⟩)
  rw [← sameRegisters, Registers.reaches_raise] at own
  rcases own with ⟨before, zero, positive⟩ | ⟨_, sameBucket, _⟩
  · rw [List.getElem?_replicate_of_lt (Hll.bucketNum_lt 14 _)] at zero
    exact absurd (Option.some.inj zero ▸ positive) (by decide)
  · exact absurd sameBucket (by decide)

end HashSketchEnsemble

end AsapSketchlib
