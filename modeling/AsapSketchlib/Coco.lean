/-
This file models the Coco sketch: a table of buckets that name the key they stand for, the
insert that looks for the key, else takes the smallest of the buckets it maps to and holds a
lottery over its name, the merge that inserts the buckets of another table one by one, and the
queries over the recorded flows.

The weight of what is inserted stays in the table whatever the draws are: a lottery decides under
which key it is counted, never whether.
-/

import Mathlib.Algebra.Order.BigOperators.Group.List
import Mathlib.Data.List.GetD
import AsapSketchlib.Float64
import AsapSketchlib.GroupedSums
import AsapSketchlib.Hash
import AsapSketchlib.Vector2D

namespace AsapSketchlib

/-! ### Buckets and lotteries -/

structure CocoBucket where
  fullKey : Option String
  val : ℕ
  deriving DecidableEq

/-- The random numbers of one insert: what is drawn in each row to break a tie, before it is cut
to its range, and what is drawn for the election. -/
structure Lottery where
  ties : ℕ → ℕ
  draw : ℚ

/-- Where the scan of a key ends: at a bucket of the key, or at the bucket to take. -/
inductive CocoScan where
  | found (cell : ℕ)
  | victim (cell : ℕ)

/-- The smallest bucket so far: its place, its value, and how many share the value. -/
structure CocoVictim where
  cell : ℕ
  val : ℕ
  tied : ℕ

namespace CocoBucket

/-- `CocoBucket::new`. -/
def new : CocoBucket := ⟨none, 0⟩

def bucketAt (buckets : List CocoBucket) (cell : ℕ) : CocoBucket := buckets.getD cell new

/-- The election: whether a key of some weight takes the name of a bucket that has just taken in
the weight. An unnamed bucket goes without a draw. -/
def elects (bucket : CocoBucket) (weight : ℕ) (draw : ℚ) : Bool :=
  match bucket.fullKey with
  | none => true
  | some _ => roundF64 (draw * intAsF64 bucket.val) < intAsF64 weight

/-- A bucket takes in the weight of a key and holds the election. -/
def absorb (bucket : CocoBucket) (key : String) (weight : ℕ) (draw : ℚ) : CocoBucket :=
  let grown : CocoBucket := ⟨bucket.fullKey, bucket.val + weight⟩
  if grown.elects weight draw then ⟨some key, grown.val⟩ else grown

/-- The scan from a row on over the rows that are left. A tie draws from as many numbers as
buckets share the value. -/
def scan (buckets : List CocoBucket) (cellOf : ℕ → ℕ) (key : String) (ties : ℕ → ℕ) :
    ℕ → ℕ → CocoVictim → CocoScan
  | 0, _, victim => .victim victim.cell
  | left + 1, row, victim =>
    let bucket := bucketAt buckets (cellOf row)
    if bucket.fullKey = some key then .found (cellOf row)
    else if bucket.val < victim.val then
      scan buckets cellOf key ties left (row + 1) ⟨cellOf row, bucket.val, 1⟩
    else if bucket.val = victim.val then
      let tied := victim.tied + 1
      scan buckets cellOf key ties left (row + 1)
        ⟨if ties row % tied = 0 then cellOf row else victim.cell, victim.val, tied⟩
    else scan buckets cellOf key ties left (row + 1) victim

/-- The update of a table of counters up to a limit: the place that takes in the weight, and what
it holds then. A counter that would pass the limit overflows. -/
def settle (limit : ℕ) (buckets : List CocoBucket) (rows : ℕ) (cellOf : ℕ → ℕ) (key : String)
    (weight : ℕ) (lottery : Lottery) : Option (ℕ × CocoBucket) :=
  match scan buckets cellOf key lottery.ties rows 0 ⟨0, limit, 0⟩ with
  | .found cell =>
    let bucket := bucketAt buckets cell
    if limit < bucket.val + weight then none
    else some (cell, { bucket with val := bucket.val + weight })
  | .victim cell =>
    let bucket := bucketAt buckets cell
    if limit < bucket.val + weight then none
    else some (cell, bucket.absorb key weight lottery.draw)

def weight (buckets : List CocoBucket) : ℕ := (buckets.map val).sum

/-! ### Tables in which every key is at home -/

/-- Every key stands in a place it maps to, no key stands in two, and only named buckets have a
value, which is within the limit. -/
structure Housed (limit rows : ℕ) (cellOf : String → ℕ → ℕ) (buckets : List CocoBucket) : Prop where
  placed : ∀ cell key, (bucketAt buckets cell).fullKey = some key → ∃ row < rows, cellOf key row = cell
  single : ∀ first second key, (bucketAt buckets first).fullKey = some key →
    (bucketAt buckets second).fullKey = some key → first = second
  keyed : ∀ cell, (bucketAt buckets cell).fullKey = none → (bucketAt buckets cell).val = 0
  bounded : ∀ cell, (bucketAt buckets cell).val ≤ limit

theorem bucketAt_replicate (count cell : ℕ) : bucketAt (List.replicate count new) cell = new := by
  rw [bucketAt, List.getD_eq_getElem?_getD, List.getElem?_replicate]
  split
  · rfl
  · rfl

theorem housed_replicate (limit rows : ℕ) (cellOf : String → ℕ → ℕ) (count : ℕ) :
    Housed limit rows cellOf (List.replicate count new) where
  placed := fun cell key named => by
    rw [bucketAt_replicate] at named
    exact absurd named (Option.some_ne_none key).symm
  single := fun first second key named _ => by
    rw [bucketAt_replicate] at named
    exact absurd named (Option.some_ne_none key).symm
  keyed := fun cell _ => congrArg val (bucketAt_replicate count cell)
  bounded := fun cell => by
    rw [bucketAt_replicate]
    exact Nat.zero_le limit

section

variable {buckets : List CocoBucket} {cell : ℕ} (inside : cell < buckets.length)
  (bucket : CocoBucket)

include inside

theorem bucketAt_set (other : ℕ) :
    bucketAt (buckets.set cell bucket) other = if cell = other then bucket else bucketAt buckets other := by
  rw [bucketAt, bucketAt, List.getD_eq_getElem?_getD, List.getD_eq_getElem?_getD, List.getElem?_set]
  by_cases same : cell = other
  · subst same
    rw [if_pos rfl, if_pos inside, if_pos rfl]
    rfl
  · rw [if_neg same, if_neg same]

theorem weight_set : weight (buckets.set cell bucket) + (bucketAt buckets cell).val =
      weight buckets + bucket.val := by
  induction buckets generalizing cell with
  | nil => exact absurd inside (Nat.not_lt_zero cell)
  | cons first rest hypothesis =>
    cases cell with
    | zero =>
      show bucket.val + weight rest + first.val = first.val + weight rest + bucket.val
      rw [Nat.add_comm bucket.val, Nat.add_right_comm, Nat.add_comm (weight rest)]
    | succ cell =>
      show first.val + weight (rest.set cell bucket) + (bucketAt rest cell).val =
        first.val + weight rest + bucket.val
      rw [Nat.add_assoc, hypothesis (Nat.lt_of_succ_lt_succ inside), Nat.add_assoc]

end

theorem val_le_weight (buckets : List CocoBucket) (cell : ℕ) :
    (bucketAt buckets cell).val ≤ weight buckets := by
  by_cases inside : cell < buckets.length
  · rw [bucketAt, List.getD_eq_getElem _ _ inside]
    exact List.single_le_sum (fun _ _ => Nat.zero_le _) _
      (List.mem_map_of_mem (List.getElem_mem inside))
  · rw [bucketAt, List.getD_eq_default _ _ (Nat.le_of_not_lt inside)]
    exact Nat.zero_le _

variable {limit rows : ℕ} {cellOf : String → ℕ → ℕ} {buckets : List CocoBucket}

section

variable (housed : Housed limit rows cellOf buckets) {cell : ℕ} (inside : cell < buckets.length)

include housed inside

theorem Housed.revalue {bucket : CocoBucket}
    (sameKey : bucket.fullKey = (bucketAt buckets cell).fullKey)
    (keyed : bucket.fullKey = none → bucket.val = 0) (bounded : bucket.val ≤ limit) :
    Housed limit rows cellOf (buckets.set cell bucket) := by
  have keys : ∀ other, (bucketAt (buckets.set cell bucket) other).fullKey =
      (bucketAt buckets other).fullKey := by
    intro other
    rw [bucketAt_set inside]
    split
    · rename_i same
      rw [sameKey, same]
    · rfl
  refine ⟨fun other key named => ?_, fun first second key firstNamed secondNamed => ?_,
    fun other unnamed => ?_, fun other => ?_⟩
  · exact housed.placed other key (keys other ▸ named)
  · exact housed.single first second key (keys first ▸ firstNamed) (keys second ▸ secondNamed)
  · have known := keys other ▸ unnamed
    rw [bucketAt_set inside] at unnamed ⊢
    split at unnamed
    · rename_i same
      rw [if_pos same]
      exact keyed unnamed
    · rename_i apart
      rw [if_neg apart]
      exact housed.keyed other known
  · rw [bucketAt_set inside]
    split
    · exact bounded
    · exact housed.bounded other

/-- A key that stands in none of the places it maps to may take one of them. -/
theorem Housed.rename {key : String} (home : ∃ row < rows, cellOf key row = cell)
    (absent : ∀ row < rows, (bucketAt buckets (cellOf key row)).fullKey ≠ some key) {value : ℕ}
    (bounded : value ≤ limit) : Housed limit rows cellOf (buckets.set cell ⟨some key, value⟩) := by
  have nowhere : ∀ other, (bucketAt buckets other).fullKey ≠ some key := by
    intro other named
    obtain ⟨row, rowIn, rfl⟩ := housed.placed other key named
    exact absent row rowIn named
  refine ⟨fun other named taken => ?_, fun first second named firstNamed secondNamed => ?_,
    fun other unnamed => ?_, fun other => ?_⟩
  · rw [bucketAt_set inside] at taken
    split at taken
    · rename_i same
      cases Option.some.inj taken
      exact same ▸ home
    · exact housed.placed other named taken
  · rw [bucketAt_set inside] at firstNamed secondNamed
    split at firstNamed <;> split at secondNamed
    · rename_i sameFirst sameSecond
      exact sameFirst.symm.trans sameSecond
    · cases Option.some.inj firstNamed
      exact absurd secondNamed (nowhere second)
    · cases Option.some.inj secondNamed
      exact absurd firstNamed (nowhere first)
    · exact housed.single first second named firstNamed secondNamed
  · rw [bucketAt_set inside] at unnamed ⊢
    split at unnamed
    · exact absurd unnamed (Option.some_ne_none key)
    · rename_i apart
      rw [if_neg apart]
      exact housed.keyed other unnamed
  · rw [bucketAt_set inside]
    split
    · exact bounded
    · exact housed.bounded other

end

/-! ### What a scan finds -/

/-- A scan over the rows from one up to another tells the truth: it ends at a bucket of the key,
or no bucket it has seen is of the key. A bucket to take is one it was given or has seen. -/
def Truthful (buckets : List CocoBucket) (cellOf : ℕ → ℕ) (key : String) (first last given : ℕ) :
    CocoScan → Prop
  | .found cell => (bucketAt buckets cell).fullKey = some key ∧
    ∃ row, first ≤ row ∧ row < last ∧ cellOf row = cell
  | .victim cell => (∀ row, first ≤ row → row < last →
      (bucketAt buckets (cellOf row)).fullKey ≠ some key) ∧
    (cell = given ∨ ∃ row, first ≤ row ∧ row < last ∧ cellOf row = cell)

theorem Truthful.after {cellOf : ℕ → ℕ} {key : String} {row last given later : ℕ}
    {scanned : CocoScan} (absent : (bucketAt buckets (cellOf row)).fullKey ≠ some key)
    (inside : row < last) (taken : later = given ∨ later = cellOf row)
    (truthful : Truthful buckets cellOf key (row + 1) last later scanned) :
    Truthful buckets cellOf key row last given scanned := by
  cases scanned with
  | found cell =>
    obtain ⟨named, seen, fromRow, toLast, same⟩ := truthful
    exact ⟨named, seen, Nat.le_of_succ_le fromRow, toLast, same⟩
  | victim cell =>
    obtain ⟨others, origin⟩ := truthful
    refine ⟨fun other fromRow toLast => ?_, ?_⟩
    · rcases Nat.eq_or_lt_of_le fromRow with rfl | beyond
      · exact absent
      · exact others other beyond toLast
    · rcases origin with rfl | ⟨seen, fromRow, toLast, same⟩
      · exact taken.imp id fun here => ⟨row, Nat.le_refl row, inside, here.symm⟩
      · exact Or.inr ⟨seen, Nat.le_of_succ_le fromRow, toLast, same⟩

theorem truthful_scan (buckets : List CocoBucket) (cellOf : ℕ → ℕ) (key : String) (ties : ℕ → ℕ)
    (left row : ℕ) (victim : CocoVictim) : Truthful buckets cellOf key row (row + left) victim.cell
      (scan buckets cellOf key ties left row victim) := by
  induction left generalizing row victim with
  | zero =>
    exact ⟨fun other fromRow toLast => absurd toLast (Nat.not_lt_of_le fromRow), Or.inl rfl⟩
  | succ left hypothesis =>
    have inside : row < row + (left + 1) := Nat.lt_add_of_pos_right (Nat.succ_pos left)
    have next := hypothesis (row + 1)
    rw [Nat.add_assoc, Nat.add_comm 1 left] at next
    rw [scan]
    by_cases named : (bucketAt buckets (cellOf row)).fullKey = some key
    · rw [if_pos named]
      exact ⟨named, row, Nat.le_refl row, inside, rfl⟩
    · rw [if_neg named]
      split
      · exact Truthful.after named inside (Or.inr rfl) (next _)
      · split
        · refine Truthful.after named inside ?_ (next _)
          show (if _ then _ else _) = _ ∨ (if _ then _ else _) = _
          split
          · exact Or.inr rfl
          · exact Or.inl rfl
        · exact Truthful.after named inside (Or.inl rfl) (next _)

/-- The scan of all rows: a value within the limit is taken in the first row, at the latest by
the one number its draw has to choose from. -/
theorem truthful_scan_all {buckets : List CocoBucket} (cellOf : ℕ → ℕ) {limit rows : ℕ}
    (bounded : ∀ cell, (bucketAt buckets cell).val ≤ limit) (positive : 0 < rows) (key : String)
    (ties : ℕ → ℕ) : Truthful buckets cellOf key 0 rows (cellOf 0)
      (scan buckets cellOf key ties rows 0 ⟨0, limit, 0⟩) := by
  obtain ⟨left, rfl⟩ := Nat.exists_eq_succ_of_ne_zero (Nat.ne_of_gt positive)
  have next := truthful_scan buckets cellOf key ties left 1
  rw [Nat.add_comm 1 left] at next
  rw [scan]
  by_cases named : (bucketAt buckets (cellOf 0)).fullKey = some key
  · rw [if_pos named]
    exact ⟨named, 0, Nat.le_refl 0, positive, rfl⟩
  · rw [if_neg named]
    split
    · exact Truthful.after named positive (Or.inl rfl) (next _)
    · rename_i notBelow
      rw [if_pos (Nat.le_antisymm (bounded _) (Nat.le_of_not_lt notBelow))]
      exact Truthful.after named positive (Or.inl (if_pos (Nat.mod_one _))) (next _)

/-- What an update does to a table: the weight goes into a bucket the key maps to, within the
limit. The bucket keeps its name, or takes the key where no bucket of the key was. -/
structure Settled (limit rows : ℕ) (buckets : List CocoBucket) (cellOf : ℕ → ℕ) (key : String)
    (weight cell : ℕ) (bucket : CocoBucket) : Prop where
  home : ∃ row < rows, cellOf row = cell
  val : bucket.val = (bucketAt buckets cell).val + weight
  bounded : bucket.val ≤ limit
  keyed : bucket.fullKey ≠ none
  named : bucket.fullKey = (bucketAt buckets cell).fullKey ∨ bucket.fullKey = some key ∧
    ∀ row < rows, (bucketAt buckets (cellOf row)).fullKey ≠ some key

theorem absorb_cases (bucket : CocoBucket) (key : String) (weight : ℕ) (draw : ℚ) :
    bucket.absorb key weight draw = ⟨some key, bucket.val + weight⟩ ∨
      bucket.fullKey ≠ none ∧
        bucket.absorb key weight draw = ⟨bucket.fullKey, bucket.val + weight⟩ := by
  unfold absorb
  by_cases elected : (⟨bucket.fullKey, bucket.val + weight⟩ : CocoBucket).elects weight draw = true
  · exact Or.inl (if_pos elected)
  · refine Or.inr ⟨fun unnamed => elected ?_, if_neg elected⟩
    unfold elects
    rw [unnamed]

theorem settle_spec {buckets : List CocoBucket} {cellOf : ℕ → ℕ} {limit rows : ℕ}
    (bounded : ∀ cell, (bucketAt buckets cell).val ≤ limit) (positive : 0 < rows) {key : String}
    {weight : ℕ} {lottery : Lottery} {update : ℕ × CocoBucket}
    (settled : settle limit buckets rows cellOf key weight lottery = some update) :
    Settled limit rows buckets cellOf key weight update.1 update.2 := by
  have truthful := truthful_scan_all cellOf bounded positive key lottery.ties
  unfold settle at settled
  cases scanned : scan buckets cellOf key lottery.ties rows 0 ⟨0, limit, 0⟩ with
  | found cell =>
    rw [scanned] at settled truthful
    obtain ⟨named, row, -, inside, home⟩ := truthful
    by_cases overflow : limit < (bucketAt buckets cell).val + weight
    · exact absurd ((if_pos overflow).symm.trans settled) (Option.some_ne_none update).symm
    · cases Option.some.inj ((if_neg overflow).symm.trans settled)
      exact ⟨⟨row, inside, home⟩, rfl, Nat.le_of_not_lt overflow,
        fun unnamed => Option.some_ne_none key (named.symm.trans unnamed), Or.inl rfl⟩
  | victim cell =>
    rw [scanned] at settled truthful
    obtain ⟨absent, origin⟩ := truthful
    have home : ∃ row < rows, cellOf row = cell := by
      rcases origin with rfl | ⟨row, -, inside, same⟩
      · exact ⟨0, positive, rfl⟩
      · exact ⟨row, inside, same⟩
    have nowhere : ∀ row < rows, (bucketAt buckets (cellOf row)).fullKey ≠ some key :=
      fun row inside => absent row (Nat.zero_le row) inside
    by_cases overflow : limit < (bucketAt buckets cell).val + weight
    · exact absurd ((if_pos overflow).symm.trans settled) (Option.some_ne_none update).symm
    · cases Option.some.inj ((if_neg overflow).symm.trans settled)
      have fits := Nat.le_of_not_lt overflow
      rcases absorb_cases (bucketAt buckets cell) key weight lottery.draw with taken | ⟨named, kept⟩
      · show Settled _ _ _ _ _ _ cell ((bucketAt buckets cell).absorb key weight lottery.draw)
        rw [taken]
        exact ⟨home, rfl, fits, Option.some_ne_none key, Or.inr ⟨rfl, nowhere⟩⟩
      · show Settled _ _ _ _ _ _ cell ((bucketAt buckets cell).absorb key weight lottery.draw)
        rw [kept]
        exact ⟨home, rfl, fits, named, Or.inl rfl⟩

theorem Housed.settled (housed : Housed limit rows cellOf buckets) {key : String} {weight cell : ℕ}
    {bucket : CocoBucket} (settled : Settled limit rows buckets (cellOf key) key weight cell bucket)
    (inside : cell < buckets.length) : Housed limit rows cellOf (buckets.set cell bucket) := by
  rcases settled.named with same | ⟨taken, absent⟩
  · exact housed.revalue inside same (fun unnamed => absurd unnamed settled.keyed) settled.bounded
  · have renamed := housed.rename inside settled.home absent settled.bounded
    rw [← taken] at renamed
    exact renamed

theorem Settled.weight {cellOf : ℕ → ℕ} {key : String} {amount cell : ℕ} {bucket : CocoBucket}
    (settled : Settled limit rows buckets cellOf key amount cell bucket)
    (inside : cell < buckets.length) :
    CocoBucket.weight (buckets.set cell bucket) = CocoBucket.weight buckets + amount := by
  have replaced := weight_set inside bucket
  rw [settled.val, ← Nat.add_assoc, Nat.add_right_comm] at replaced
  exact Nat.add_right_cancel replaced

theorem settle_isSome {weight : ℕ} (fits : ∀ cell, (bucketAt buckets cell).val + weight ≤ limit)
    (rows : ℕ) (cellOf : ℕ → ℕ) (key : String) (lottery : Lottery) :
    (settle limit buckets rows cellOf key weight lottery).isSome = true := by
  unfold settle
  split
  · rw [if_neg (Nat.not_lt_of_le (fits _))]
    rfl
  · rw [if_neg (Nat.not_lt_of_le (fits _))]
    rfl

end CocoBucket

/-! ### The sketch -/

/-- `Coco`. Its width and its depth are those of its table. -/
structure Coco where
  table : Vector2D CocoBucket

namespace Coco

def w (coco : Coco) : ℕ := coco.table.cols

def d (coco : Coco) : ℕ := coco.table.rows

def initWithSize (w d : ℕ) : Coco where
  table := Vector2D.filled d w CocoBucket.new

def bucketAt (coco : Coco) (row col : ℕ) : CocoBucket :=
  CocoBucket.bucketAt coco.table.data (row * coco.w + col)

def setCell (coco : Coco) (cell : ℕ) (bucket : CocoBucket) : Coco where
  table :=
    { data := coco.table.data.set cell bucket
      rows := coco.table.rows
      cols := coco.table.cols
      sized := (List.length_set).trans coco.table.sized }

section Hashed

variable (hasher : SketchHasher)

def colOf (w : ℕ) (key : String) (row : ℕ) : ℕ :=
  (hasher.hash64Seeded row (.str key)).toNat % w

def cellOf (w : ℕ) (key : String) (row : ℕ) : ℕ := row * w + colOf hasher w key row

/-- Adds a weight to a key. Nothing is returned where a counter overflows. -/
def insert (coco : Coco) (key : String) (v : ℕ) (lottery : Lottery) : Option Coco :=
  if coco.d = 0 ∨ coco.w = 0 then some coco
  else
    (CocoBucket.settle u64Max coco.table.data coco.d (cellOf hasher coco.w key) key v lottery).map
      fun update => coco.setCell update.1 update.2

/-- The loop of `merge` over the buckets of the other table from a place on: the named ones are
inserted whole, each with draws of its own. -/
def mergeFrom (lotteries : ℕ → Lottery) : ℕ → List CocoBucket → Coco → Option Coco
  | _, [], coco => some coco
  | place, bucket :: rest, coco =>
    match bucket.fullKey with
    | none => mergeFrom lotteries (place + 1) rest coco
    | some key => (insert hasher coco key bucket.val (lotteries place)).bind
      (mergeFrom lotteries (place + 1) rest)

def merge (coco other : Coco) (lotteries : ℕ → Lottery) : Option Coco :=
  if coco.d = other.d ∧ coco.w = other.w then
    mergeFrom hasher lotteries 0 other.table.data coco
  else none

end Hashed

def recordedFlows (coco : Coco) : List (String × ℕ) :=
  coco.table.data.filterMap fun bucket => bucket.fullKey.map fun key => (key, bucket.val)

def projectedFlows (coco : Coco) (project : String → String) : List (String × ℕ) :=
  coco.recordedFlows.map fun flow => (project flow.1, flow.2)

/-- Every recorded flow folded onto its partial key; the order of the groups is immaterial. -/
def groupBy (coco : Coco) (project : String → String) : List (String × ℕ) :=
  Grouped.collect (coco.projectedFlows project)

/-- The partial-key query: what the flows that project to a partial key add up to. -/
def estimateProjected (coco : Coco) (partialKey : String) (project : String → String) : ℕ :=
  ((coco.recordedFlows.filter fun flow => project flow.1 = partialKey).map Prod.snd).sum

/-! ### Conservation -/

def weight (coco : Coco) : ℕ := CocoBucket.weight coco.table.data

/-- A sketch of some size whose keys are at home. -/
structure Sound (hasher : SketchHasher) (w d : ℕ) (coco : Coco) : Prop where
  width : coco.w = w
  depth : coco.d = d
  housed : CocoBucket.Housed u64Max d (cellOf hasher w) coco.table.data

/-- What is promised of a table that has taken in some weight. -/
structure Conserved (hasher : SketchHasher) (coco : Coco) (total : ℕ) : Prop where
  weight : coco.weight = total
  placed : ∀ row < coco.d, ∀ col < coco.w, ∀ key, (coco.bucketAt row col).fullKey = some key →
    colOf hasher coco.w key row = col
  single : ∀ row < coco.d, ∀ col < coco.w, ∀ otherRow < coco.d, ∀ otherCol < coco.w, ∀ key,
    (coco.bucketAt row col).fullKey = some key →
      (coco.bucketAt otherRow otherCol).fullKey = some key → row = otherRow ∧ col = otherCol
  keyed : ∀ row < coco.d, ∀ col < coco.w, 0 < (coco.bucketAt row col).val →
    (coco.bucketAt row col).fullKey ≠ none
  grouped : ∀ project, ((coco.groupBy project).map Prod.snd).sum = total ∧
    ((coco.groupBy project).map Prod.fst).Nodup ∧
    ∀ group ∈ coco.groupBy project, group.2 = coco.estimateProjected group.1 project

variable {hasher : SketchHasher} {w d : ℕ} {coco : Coco}

theorem colOf_lt (hasher : SketchHasher) {w : ℕ} (positive : 0 < w) (key : String) (row : ℕ) :
    colOf hasher w key row < w :=
  Nat.mod_lt _ positive

theorem sound_initWithSize (hasher : SketchHasher) (w d : ℕ) : (initWithSize w d).Sound hasher w d :=
  ⟨rfl, rfl, CocoBucket.housed_replicate _ _ _ _⟩

theorem weight_initWithSize (w d : ℕ) : (initWithSize w d).weight = 0 := by
  refine List.sum_eq_zero fun value member => ?_
  obtain ⟨bucket, inTable, rfl⟩ := List.mem_map.mp member
  rw [List.eq_of_mem_replicate inTable]
  rfl

theorem Sound.insert (sound : coco.Sound hasher w d) (widePositive : 0 < w) (deepPositive : 0 < d)
    {key : String} {v : ℕ} {lottery : Lottery} {after : Coco}
    (inserted : coco.insert hasher key v lottery = some after) :
    after.Sound hasher w d ∧ after.weight = coco.weight + v := by
  unfold Coco.insert at inserted
  rw [sound.width, sound.depth, if_neg fun empty => empty.elim (Nat.ne_of_gt deepPositive)
    (Nat.ne_of_gt widePositive)] at inserted
  obtain ⟨update, settled, rfl⟩ := Option.map_eq_some_iff.mp inserted
  have spec := CocoBucket.settle_spec sound.housed.bounded deepPositive settled
  have inside : update.1 < coco.table.data.length := by
    obtain ⟨row, rowIn, home⟩ := spec.home
    rw [← home, coco.table.sized]
    show row * w + colOf hasher w key row < coco.d * coco.w
    rw [sound.width, sound.depth]
    exact Grid.position_lt rowIn (colOf_lt hasher widePositive key row)
  exact ⟨⟨sound.width, sound.depth, sound.housed.settled spec inside⟩, spec.weight inside⟩

theorem insert_isSome (hasher : SketchHasher) (coco : Coco) (key : String) {v : ℕ}
    (fits : coco.weight + v ≤ u64Max) (lottery : Lottery) :
    (coco.insert hasher key v lottery).isSome = true := by
  have within : ∀ cell, (CocoBucket.bucketAt coco.table.data cell).val + v ≤ u64Max := fun cell =>
    (Nat.add_le_add_right (CocoBucket.val_le_weight _ cell) v).trans fits
  unfold Coco.insert
  split
  · rfl
  · rw [Option.isSome_map]
    exact CocoBucket.settle_isSome within _ _ key lottery

theorem Sound.mergeFrom (widePositive : 0 < w) (deepPositive : 0 < d)
    {lotteries : ℕ → Lottery} {buckets : List CocoBucket}
    (keyed : ∀ bucket ∈ buckets, bucket.fullKey = none → bucket.val = 0) {place : ℕ} {coco : Coco}
    (sound : coco.Sound hasher w d) {after : Coco}
    (merged : Coco.mergeFrom hasher lotteries place buckets coco = some after) :
    after.Sound hasher w d ∧ after.weight = coco.weight + CocoBucket.weight buckets := by
  induction buckets generalizing place coco with
  | nil =>
    cases Option.some.inj merged
    exact ⟨sound, rfl⟩
  | cons bucket rest hypothesis =>
    have restKeyed := fun other inRest => keyed other (List.mem_cons_of_mem bucket inRest)
    have joined : CocoBucket.weight (bucket :: rest) = bucket.val + CocoBucket.weight rest := rfl
    rw [Coco.mergeFrom] at merged
    cases named : bucket.fullKey with
    | none =>
      rw [named] at merged
      obtain ⟨kept, weighs⟩ := hypothesis restKeyed sound merged
      rw [joined, keyed bucket List.mem_cons_self named, Nat.zero_add]
      exact ⟨kept, weighs⟩
    | some key =>
      rw [named] at merged
      obtain ⟨between, inserted, later⟩ := Option.bind_eq_some_iff.mp merged
      obtain ⟨betweenSound, betweenWeighs⟩ := sound.insert widePositive deepPositive inserted
      obtain ⟨kept, weighs⟩ := hypothesis restKeyed betweenSound later
      refine ⟨kept, ?_⟩
      rw [weighs, betweenWeighs, joined, Nat.add_assoc]

theorem Sound.keyed (sound : coco.Sound hasher w d) :
    ∀ bucket ∈ coco.table.data, bucket.fullKey = none → bucket.val = 0 := by
  intro bucket member unnamed
  obtain ⟨cell, inside, rfl⟩ := List.mem_iff_getElem.mp member
  have here : CocoBucket.bucketAt coco.table.data cell = coco.table.data[cell] :=
    List.getD_eq_getElem _ _ inside
  rw [← here] at unnamed ⊢
  exact sound.housed.keyed cell unnamed

theorem Sound.merge (sound : coco.Sound hasher w d) (widePositive : 0 < w) (deepPositive : 0 < d)
    {other : Coco} {otherW otherD : ℕ} (otherSound : other.Sound hasher otherW otherD)
    {lotteries : ℕ → Lottery} {after : Coco}
    (merged : coco.merge hasher other lotteries = some after) :
    after.Sound hasher w d ∧ after.weight = coco.weight + other.weight := by
  unfold Coco.merge at merged
  split at merged
  · exact Sound.mergeFrom widePositive deepPositive otherSound.keyed sound merged
  · exact absurd merged (Option.some_ne_none after).symm

theorem sum_recordedFlows (sound : coco.Sound hasher w d) :
    (coco.recordedFlows.map Prod.snd).sum = coco.weight := by
  have keyed := sound.keyed
  unfold recordedFlows weight CocoBucket.weight
  generalize coco.table.data = buckets at keyed
  induction buckets with
  | nil => rfl
  | cons bucket rest hypothesis =>
    have others := hypothesis fun other inRest =>
      keyed other (List.mem_cons_of_mem bucket inRest)
    rw [List.filterMap_cons, List.map_cons, List.sum_cons]
    cases named : bucket.fullKey with
    | none =>
      rw [keyed bucket List.mem_cons_self named, Nat.zero_add]
      exact others
    | some key =>
      rw [Option.map_some, List.map_cons, List.sum_cons, others]

theorem estimateProjected_eq (coco : Coco) (partialKey : String) (project : String → String) :
    coco.estimateProjected partialKey project =
      Grouped.totalOf partialKey (coco.projectedFlows project) := by
  rw [Grouped.totalOf, projectedFlows, List.filter_map, List.map_map]
  rfl

theorem Sound.conserved (sound : coco.Sound hasher w d) : coco.Conserved hasher coco.weight where
  weight := rfl
  placed := by
    intro row rowIn col colIn key named
    obtain ⟨home, -, same⟩ := sound.housed.placed _ key named
    rw [sound.width] at colIn same ⊢
    have colHome := colOf_lt hasher (Nat.zero_lt_of_lt colIn) key home
    obtain ⟨rfl, sameCol⟩ := Grid.position_inj colHome colIn same
    exact sameCol
  single := by
    intro row _ col colIn otherRow _ otherCol otherColIn key named otherNamed
    exact Grid.position_inj colIn otherColIn (sound.housed.single _ _ key named otherNamed)
  keyed := fun row _ col _ positive unnamed =>
    Nat.ne_of_gt positive (sound.housed.keyed _ unnamed)
  grouped := by
    intro project
    refine ⟨?_, Grouped.nodup_collect _, fun group member => ?_⟩
    · rw [groupBy, Grouped.sum_collect, projectedFlows, List.map_map]
      exact sum_recordedFlows sound
    · rw [estimateProjected_eq]
      exact Grouped.snd_of_mem_collect member

/-! ### Histories -/

/-- How a table came about: from an empty one by inserts and merges, with the draws of each. -/
inductive History where
  | initWithSize (w d : ℕ)
  | insert (before : History) (key : String) (v : ℕ) (lottery : Lottery)
  | merge (before other : History) (lotteries : ℕ → Lottery)

namespace History

/-- The table a history ends in, unless a counter overflows or sizes differ. -/
def outcome (hasher : SketchHasher) : History → Option Coco
  | .initWithSize w d => some (Coco.initWithSize w d)
  | .insert before key v lottery =>
    (outcome hasher before).bind fun coco => coco.insert hasher key v lottery
  | .merge before other lotteries =>
    (outcome hasher before).bind fun coco =>
      (outcome hasher other).bind fun otherCoco => coco.merge hasher otherCoco lotteries

def inserted : History → ℕ
  | .initWithSize _ _ => 0
  | .insert before _ v _ => inserted before + v
  | .merge before other _ => inserted before + inserted other

def Positive : History → Prop
  | .initWithSize w d => 0 < w ∧ 0 < d
  | .insert before _ _ _ => Positive before
  | .merge before other _ => Positive before ∧ Positive other

theorem sound (hasher : SketchHasher) (history : History) (positive : history.Positive) {coco : Coco}
    (reached : history.outcome hasher = some coco) :
    ∃ w d, (0 < w ∧ 0 < d) ∧ coco.Sound hasher w d ∧ coco.weight = history.inserted := by
  induction history generalizing coco with
  | initWithSize w d =>
    cases Option.some.inj reached
    exact ⟨w, d, positive, sound_initWithSize hasher w d, weight_initWithSize w d⟩
  | insert before key v lottery hypothesis =>
    obtain ⟨earlier, earlierReached, inserted⟩ := Option.bind_eq_some_iff.mp reached
    obtain ⟨w, d, sizes, earlierSound, weighs⟩ := hypothesis positive earlierReached
    obtain ⟨kept, added⟩ := earlierSound.insert sizes.1 sizes.2 inserted
    exact ⟨w, d, sizes, kept, added.trans (congrArg (· + v) weighs)⟩
  | merge before other lotteries hypothesis otherHypothesis =>
    obtain ⟨earlier, earlierReached, later⟩ := Option.bind_eq_some_iff.mp reached
    obtain ⟨operand, operandReached, merged⟩ := Option.bind_eq_some_iff.mp later
    obtain ⟨w, d, sizes, earlierSound, weighs⟩ := hypothesis positive.1 earlierReached
    obtain ⟨_, _, _, operandSound, operandWeighs⟩ := otherHypothesis positive.2 operandReached
    obtain ⟨kept, added⟩ := earlierSound.merge sizes.1 sizes.2 operandSound merged
    exact ⟨w, d, sizes, kept, added.trans (congrArg₂ (· + ·) weighs operandWeighs)⟩

end History

end Coco

end AsapSketchlib
