/-
This file follows the numbers from which UnivMon-Q lays out a key hash. The layout is worked out in
32 bits before it is checked, so a depth that would be refused can overflow first. A layout that is
accepted has its fields apart inside the hash, and every cell that is read from it exists.
-/

import AsapSketchlib.BitRanges
import AsapSketchlib.UnivMonQSketch

namespace AsapSketchlib

namespace UnivMonQ

/-! ### The layout in machine arithmetic -/

/-- A value of type `u32`, as long as it is in range. -/
def u32 (value : ℕ) : Option ℕ := if value < 2 ^ 32 then some value else none

/-- `HashLayout::new`, where a product or a sum that leaves its type is a panic. The depth and the
number of levels are cast down to 32 bits. -/
def HashLayout.newInU32 (config : Config) : Option (Except String HashLayout) := do
  let bucketBits := bitLength (config.width - 1)
  let rowBits ← u32 (bucketBits + 1)
  let terminalOffset ← u32 (rowBits * (config.depth % 2 ^ 32))
  let terminalBits := config.levels % 2 ^ 32 - 1
  let usedBits ← u32 (terminalOffset + terminalBits)
  if 64 < config.depth ∨ 128 < usedBits then
    some (.error "hash layout needs more than the available 128 hash bits")
  else some (.ok ⟨bucketBits, terminalOffset, terminalBits⟩)

/-- `validate_config` followed by `HashLayout::new`. -/
def layoutOf (config : Config) : Option (Except String HashLayout) :=
  match validateConfig config with
  | .error message => some (.error message)
  | .ok _ => HashLayout.newInU32 config

/-- The fields of a configuration are values of their types. -/
structure Config.Typed (config : Config) : Prop where
  levels : config.levels < 2 ^ 64
  width : config.width < 2 ^ 64
  widthHalvingPeriod : config.widthHalvingPeriod < 2 ^ 8
  depth : config.depth < 2 ^ 64
  counterBits : config.counterBits < 2 ^ 8
  candidates : config.candidates < 2 ^ 64
  orderedSamples : config.orderedSamples < 2 ^ 64
  hashSeed : config.hashSeed < 2 ^ 64

/-- The bits that all rows and the terminal level need are counted in 32 bits. -/
def Config.BitsInRange (config : Config) : Prop :=
  (bitLength (config.width - 1) + 1) * (config.depth % 2 ^ 32) + (config.levels - 1) < 2 ^ 32

instance (config : Config) : Decidable config.BitsInRange := inferInstanceAs (Decidable (_ < _))

/-! ### The fields of a hash -/

namespace HashLayout

def bucketField (layout : HashLayout) (row : ℕ) : BitRange :=
  ⟨row * (layout.bucketBits + 1), layout.bucketBits⟩

def signField (layout : HashLayout) (row : ℕ) : BitRange :=
  ⟨row * (layout.bucketBits + 1) + layout.bucketBits, 1⟩

def terminalField (layout : HashLayout) : BitRange :=
  ⟨layout.terminalOffset, layout.terminalBits⟩

def fields (layout : HashLayout) (depth : ℕ) : List BitRange :=
  ((List.range depth).flatMap fun row => [layout.bucketField row, layout.signField row]) ++
    [layout.terminalField]

/-- What an accepted layout guarantees. -/
structure Sound (config : Config) (layout : HashLayout) : Prop where
  laid : BitRange.Laid 128 (layout.fields config.depth)
  rowShift : ∀ row < config.depth, row * (layout.bucketBits + 1) < 128
  bucketShift : layout.bucketBits < 128
  terminalShift : layout.terminalOffset < 128 ∧ layout.terminalBits < 128
  buffer : config.depth ≤ 64
  bucket : ∀ level < config.levels, ∀ (hash : BitVec 128), ∀ row < config.depth,
    bucketOf (levelWidth config level) hash layout.bucketBits row < levelWidth config level
  cell : ∀ level < config.levels, ∀ (hash : BitVec 128), ∀ row < config.depth,
    row * levelWidth config level +
        bucketOf (levelWidth config level) hash layout.bucketBits row <
      (PackedCountSketch.new (levelWidth config level) config.depth
        config.counterBits).counters.values.length
  terminal : ∀ hash : BitVec 128, layout.terminalLevel hash < config.levels
  bucketReads : ∀ row < config.depth, ∀ left right : BitVec 128,
    (layout.bucketField row).Agree left right → ∀ width,
      bucketOf width left layout.bucketBits row = bucketOf width right layout.bucketBits row
  signReads : ∀ row < config.depth, ∀ left right : BitVec 128,
    (layout.signField row).Agree left right →
      isNegative left layout.bucketBits row = isNegative right layout.bucketBits row
  terminalReads : ∀ left right : BitVec 128, layout.terminalField.Agree left right →
    layout.terminalLevel left = layout.terminalLevel right

end HashLayout

/-- The layout of a configuration is worked out without an overflow, and it is sound if it is
accepted. -/
def LaidOut (config : Config) : Prop :=
  layoutOf config ≠ none ∧
    ∀ layout, layoutOf config = some (.ok layout) → HashLayout.Sound config layout

/-! ### When the numbers overflow -/

theorem u32_eq {value : ℕ} (inside : value < 2 ^ 32) : u32 value = some value := if_pos inside

theorem u32_eq_none {value : ℕ} (outside : 2 ^ 32 ≤ value) : u32 value = none :=
  if_neg (not_lt.mpr outside)

theorem bitLength_le {value bits : ℕ} (below : value < 2 ^ bits) : bitLength value ≤ bits := by
  unfold bitLength
  split
  · exact Nat.zero_le bits
  next positive => exact (Nat.log2_lt positive).mpr below

theorem validateConfig_ok {config : Config} (valid : validateConfig config = .ok ()) :
    2 ≤ config.levels ∧ config.levels ≤ 63 ∧ 0 < config.width ∧ 0 < config.depth ∧
      0 < config.candidates := by
  unfold validateConfig at valid
  split at valid
  · cases valid
  next levels =>
    split at valid
    · cases valid
    next width =>
      split at valid
      · cases valid
      next depth =>
        split at valid
        · cases valid
        next =>
          split at valid
          · cases valid
          next candidates =>
            obtain ⟨atLeast, atMost⟩ := not_not.mp levels
            exact ⟨atLeast, atMost, Nat.pos_of_ne_zero width,
              Nat.pos_of_ne_zero (not_or.mp depth).1, Nat.pos_of_ne_zero candidates⟩

theorem newInU32_eq_none_iff {config : Config} (typed : config.Typed)
    (valid : validateConfig config = .ok ()) :
    HashLayout.newInU32 config = none ↔ ¬config.BitsInRange := by
  obtain ⟨-, levels, -, -, -⟩ := validateConfig_ok valid
  have bucketBits : bitLength (config.width - 1) ≤ 64 :=
    bitLength_le ((Nat.sub_le _ _).trans_lt typed.width)
  have fewLevels : config.levels % 2 ^ 32 = config.levels := Nat.mod_eq_of_lt (by omega)
  unfold HashLayout.newInU32 Config.BitsInRange
  simp only
  rw [u32_eq (by omega), fewLevels]
  simp only [Option.bind_eq_bind, Option.bind_some]
  generalize (bitLength (config.width - 1) + 1) * (config.depth % 2 ^ 32) = offset
  by_cases product : offset < 2 ^ 32
  · rw [u32_eq product, Option.bind_some]
    by_cases sum : offset + (config.levels - 1) < 2 ^ 32
    · rw [u32_eq sum, Option.bind_some]
      refine iff_of_false ?_ (not_not.mpr sum)
      split
      · exact Option.some_ne_none _
      · exact Option.some_ne_none _
    · rw [u32_eq_none (not_lt.mp sum)]
      exact iff_of_true rfl sum
  · rw [u32_eq_none (not_lt.mp product)]
    exact iff_of_true rfl fun sum => product ((Nat.le_add_right _ _).trans_lt sum)

theorem u32_eq_some {value narrow : ℕ} (ran : u32 value = some narrow) : narrow = value := by
  unfold u32 at ran
  split at ran
  · exact (Option.some.inj ran).symm
  · cases ran

theorem newInU32_ok {config : Config} {layout : HashLayout}
    (valid : validateConfig config = .ok ())
    (ran : HashLayout.newInU32 config = some (.ok layout)) :
    layout = ⟨bitLength (config.width - 1), (bitLength (config.width - 1) + 1) * config.depth,
        config.levels - 1⟩ ∧
      config.depth ≤ 64 ∧
      (bitLength (config.width - 1) + 1) * config.depth + (config.levels - 1) ≤ 128 := by
  obtain ⟨-, levels, -, -, -⟩ := validateConfig_ok valid
  have fewLevels : config.levels % 2 ^ 32 = config.levels := Nat.mod_eq_of_lt (by omega)
  simp only [HashLayout.newInU32, Option.bind_eq_bind, Option.bind_eq_some_iff] at ran
  obtain ⟨rowBits, rowRan, terminalOffset, offsetRan, usedBits, usedRan, made⟩ := ran
  obtain rfl := u32_eq_some rowRan
  obtain rfl := u32_eq_some offsetRan
  obtain rfl := u32_eq_some usedRan
  split at made
  · cases made
  next accepted =>
    obtain ⟨shallow, fits⟩ := not_or.mp accepted
    have fewRows : config.depth % 2 ^ 32 = config.depth := Nat.mod_eq_of_lt (by omega)
    rw [fewRows, fewLevels] at made fits
    exact ⟨(Except.ok.inj (Option.some.inj made)).symm, not_lt.mp shallow, not_lt.mp fits⟩

/-! ### What an accepted layout guarantees -/

namespace HashLayout

theorem bucketOf_eq (layout : HashLayout) (width : ℕ) (hash : BitVec 128) (row : ℕ) :
    bucketOf width hash layout.bucketBits row =
      let code := ((layout.bucketField row).read hash).toNat % (u64Max + 1)
      if isPowerOfTwo width then code &&& (width - 1) else code % width := rfl

theorem isNegative_eq (layout : HashLayout) (hash : BitVec 128) (row : ℕ) :
    isNegative hash layout.bucketBits row = decide ((layout.signField row).read hash ≠ 0#128) := by
  unfold isNegative fieldOf
  have bit : BitRange.lowMask 128 (layout.signField row).length = 1#128 := by
    show BitRange.lowMask 128 1 = 1#128
    decide
  rw [← BitVec.shiftRight_add, BitRange.read, bit]
  rfl

theorem terminalLevel_eq (layout : HashLayout) (hash : BitVec 128) :
    layout.terminalLevel hash =
      Nat.min (layout.terminalField.read hash).ctz.toNat layout.terminalBits := rfl

theorem laid_fields {layout : HashLayout} {depth : ℕ}
    (offset : (layout.bucketBits + 1) * depth = layout.terminalOffset)
    (fits : layout.terminalOffset + layout.terminalBits ≤ 128) :
    BitRange.Laid 128 (layout.fields depth) := by
  have next : ∀ row other, row < other →
      row * (layout.bucketBits + 1) + layout.bucketBits + 1 ≤ other * (layout.bucketBits + 1) := by
    intro row other before
    rw [Nat.add_assoc, ← Nat.succ_mul]
    exact Nat.mul_le_mul_right _ before
  have last : ∀ row, row < depth →
      row * (layout.bucketBits + 1) + layout.bucketBits + 1 ≤ layout.terminalOffset := by
    intro row inside
    rw [← offset, Nat.mul_comm (layout.bucketBits + 1)]
    exact next row depth inside
  refine ⟨fun field member => ?_, List.pairwise_append.mpr ⟨?_, List.pairwise_singleton _ _,
    fun field member terminal isTerminal => ?_⟩⟩
  · rcases List.mem_append.mp member with ofRow | isTerminal
    · obtain ⟨row, inside, held⟩ := List.mem_flatMap.mp ofRow
      have ends := last row (List.mem_range.mp inside)
      rcases List.mem_pair.mp held with rfl | rfl
      · show row * (layout.bucketBits + 1) + layout.bucketBits ≤ 128
        omega
      · show row * (layout.bucketBits + 1) + layout.bucketBits + 1 ≤ 128
        omega
    · obtain rfl := List.mem_singleton.mp isTerminal
      exact fits
  · refine List.pairwise_flatMap.mpr ⟨fun row _ => List.pairwise_pair.mpr (.inl le_rfl), ?_⟩
    refine List.pairwise_lt_range.imp fun {row other} before => ?_
    have ends := next row other before
    intro left ofRow right ofOther
    refine .inl ?_
    rcases List.mem_pair.mp ofRow with rfl | rfl
    · rcases List.mem_pair.mp ofOther with rfl | rfl
      · exact (Nat.le_succ _).trans ends
      · exact ((Nat.le_succ _).trans ends).trans (Nat.le_add_right _ _)
    · rcases List.mem_pair.mp ofOther with rfl | rfl
      · exact ends
      · exact ends.trans (Nat.le_add_right _ _)
  · obtain rfl := List.mem_singleton.mp isTerminal
    obtain ⟨row, inside, held⟩ := List.mem_flatMap.mp member
    have ends := last row (List.mem_range.mp inside)
    refine .inl ?_
    rcases List.mem_pair.mp held with rfl | rfl
    · exact (Nat.le_succ _).trans ends
    · exact ends

end HashLayout

theorem levelWidth_pos {config : Config} (level : ℕ) (width : 0 < config.width)
    (candidates : 0 < config.candidates) : 0 < levelWidth config level :=
  (Nat.lt_min.mpr ⟨candidates, width⟩).trans_le (Nat.le_max_right _ _)

theorem length_new (width depth counterBits : ℕ) :
    (PackedCountSketch.new width depth counterBits).counters.values.length = width * depth := by
  unfold PackedCountSketch.new
  by_cases narrow : counterBits = 32
  · rw [if_pos narrow]
    exact List.length_replicate
  · rw [if_neg narrow]
    exact List.length_replicate

theorem sound_of_accepted {config : Config} {layout : HashLayout}
    (valid : validateConfig config = .ok ())
    (ran : HashLayout.newInU32 config = some (.ok layout)) : HashLayout.Sound config layout := by
  obtain ⟨levels, fewLevels, width, depth, candidates⟩ := validateConfig_ok valid
  obtain ⟨made, buffer, fits⟩ := newInU32_ok valid ran
  have offset : (layout.bucketBits + 1) * config.depth = layout.terminalOffset := by rw [made]
  have terminalBits : layout.terminalBits = config.levels - 1 := by rw [made]
  have ends : layout.terminalOffset + layout.terminalBits ≤ 128 := by
    rw [made]
    exact fits
  have rowBits : layout.bucketBits + 1 ≤ layout.terminalOffset := by
    rw [← offset]
    exact Nat.le_mul_of_pos_right _ depth
  have rowShift : ∀ row < config.depth, row * (layout.bucketBits + 1) < 128 := by
    intro row inside
    have before : row * (layout.bucketBits + 1) ≤ layout.terminalOffset := by
      rw [← offset, Nat.mul_comm]
      exact Nat.mul_le_mul_left _ inside.le
    omega
  have positive := fun level => levelWidth_pos level width candidates
  exact {
    laid := HashLayout.laid_fields offset ends
    rowShift
    bucketShift := by omega
    terminalShift := ⟨by omega, by omega⟩
    buffer
    bucket := fun level _ hash row _ => bucketOf_lt (positive level) hash _ row
    cell := fun level _ hash row inside => by
      rw [length_new]
      exact cell_lt (positive level) inside hash _
    terminal := fun hash => by
      have atMost := layout.terminalLevel_le hash
      omega
    bucketReads := fun row inside left right agree width => by
      rw [layout.bucketOf_eq, layout.bucketOf_eq, BitRange.read_congr (by
        show layout.bucketBits < 128
        omega) agree]
    signReads := fun row inside left right agree => by
      rw [layout.isNegative_eq, layout.isNegative_eq, BitRange.read_congr (by
        show 1 < 128
        omega) agree]
    terminalReads := fun left right agree => by
      rw [layout.terminalLevel_eq, layout.terminalLevel_eq, BitRange.read_congr (by
        show layout.terminalBits < 128
        omega) agree] }

/-! ### The result -/

/-- A configuration is laid out soundly exactly when it is refused before its layout, or its bits
are in range. -/
theorem laid_out_iff {config : Config} (typed : config.Typed) :
    LaidOut config ↔ validateConfig config ≠ .ok () ∨ config.BitsInRange := by
  unfold LaidOut layoutOf
  cases valid : validateConfig config with
  | error message =>
    refine iff_of_true ⟨Option.some_ne_none _, fun layout accepted => ?_⟩ (.inl (by simp))
    cases Option.some.inj accepted
  | ok accepted =>
    have overflows := newInU32_eq_none_iff typed valid
    have sound := fun layout => @sound_of_accepted config layout valid
    constructor
    · exact fun laid => .inr (not_not.mp (mt overflows.mpr laid.1))
    · intro inRange
      rcases inRange with refused | inRange
      · exact absurd rfl refused
      · exact ⟨mt overflows.mp (not_not.mpr inRange), sound⟩

def eightLevels : Config := ⟨8, 128, 0, 5, 64, 32, 32, 9⟩

theorem laid_out_eightLevels : LaidOut eightLevels := by
  refine (laid_out_iff ?_).mpr (.inr (by decide +kernel))
  unfold eightLevels
  exact ⟨by decide, by decide, by decide, by decide, by decide, by decide, by decide, by decide⟩

/-- The widest rows that metadata can ask for, in a depth that is refused only after it was
multiplied. -/
def deepRows : Config := ⟨2, 4294967295, 0, 134217729, 64, 1, 0, 0⟩

/-- The layout of valid fields overflows before the depth is refused. -/
theorem deepRows_overflows : validateConfig deepRows = .ok () ∧ layoutOf deepRows = none ∧
    ¬LaidOut deepRows := by
  have overflows : layoutOf deepRows = none := by decide +kernel
  exact ⟨by decide, overflows, fun laid => laid.1 overflows⟩

end UnivMonQ

end AsapSketchlib
