/-
This file models the sparse registers of the portable HyperLogLog: the encoder, and the two
loops that unpack pairs of gap and value, the decoder's and that of the applied deltas. Here
the additions of the indexes are checked, at the width that the loop casts its gaps to. What
either loop does with any input is read off the pairs that the input starts with.
-/

import AsapSketchlib.GapPairs
import AsapSketchlib.PortableHllDeltas

namespace AsapSketchlib

namespace Portable

open GapPairs

/-! ### The encoder -/

/-- `HllSparseRegisters` of the protobuf schema. -/
structure HllSparseRegisters where
  numRegisters : UInt32
  packed : List UInt8
  deriving DecidableEq

/-- The loop of `encode_sparse_registers` over the registers with their indexes. -/
def encodeFrom (prev : ℕ) : List (UInt8 × ℕ) → List UInt8
  | [] => []
  | (v, i) :: rest =>
    if v = 0 then encodeFrom prev rest
    else Uvarint.write (i - prev) ++ Uvarint.write v.toNat ++ encodeFrom i rest

def encodeSparseRegisters (regs : List UInt8) : HllSparseRegisters :=
  ⟨UInt32.ofNat regs.length, encodeFrom 0 regs.zipIdx⟩

/-! ### The unpackers -/

/-- An addition of machine words of a width. There is no sum where it overflows. -/
def checkedAdd (width a b : ℕ) : Option ℕ := if a + b < 2 ^ width then some (a + b) else none

/-- The gap-decoding loop, for a number of rounds. The decoder and the applied deltas differ in
the width of an index, in the check of an index against the registers, and in what a pair does.
There is no outcome where the addition overflows. -/
def unpackLoop {State : Type} (noun : String) (width : ℕ) (range : ℕ → Option String)
    (visit : State → ℕ × UInt8 → State) :
    ℕ → List UInt8 → ℕ → Bool → State → Option (Except String State)
  | 0, _, _, _, state => some (.ok state)
  | rounds + 1, packed, prev, first, state =>
    if packed.isEmpty then some (.ok state)
    else
      match Uvarint.read packed with
      | none => some (.error s!"hll: {noun} index-delta varint corrupt")
      | some (delta, used) =>
        match Uvarint.read (packed.drop used) with
        | none => some (.error s!"hll: {noun} value varint corrupt")
        | some (val, usedVal) =>
          match checkedAdd width prev (delta % 2 ^ width) with
          | none => none
          | some idx =>
            if !first ∧ delta = 0 then
              some (.error s!"hll: {noun} non-increasing index at idx {idx}")
            else
              match range idx with
              | some message => some (.error message)
              | none =>
                if 0xff < val then
                  some (.error s!"hll: {noun} value {val} exceeds u8 at idx {idx}")
                else
                  unpackLoop noun width range visit rounds ((packed.drop used).drop usedVal) idx
                    false (visit state (idx, UInt8.ofNat val))

def sparseRange (n idx : ℕ) : Option String :=
  if n ≤ idx then some s!"hll: sparse index {idx} out of range [0,{n})" else none

def setRegister (regs : List UInt8) (update : ℕ × UInt8) : List UInt8 :=
  regs.set update.1 update.2

/-- Reconstructs the registers from a sparse message. The index is a `usize`. -/
def decodeSparseRegisters (sp : HllSparseRegisters) : Option (Except String (List UInt8)) :=
  let n := sp.numRegisters.toNat
  unpackLoop "sparse" 64 (sparseRange n) setRegister sp.packed.length sp.packed 0 true
    (List.replicate n 0)

namespace HllSketch

/-- The updates of a packed delta, as `apply_delta_bytes` unpacks them. The index is a `u32`. -/
def unpackChecked (packed : List UInt8) : Option (Except String (List (ℕ × UInt8))) :=
  unpackLoop "delta" 32 (fun _ => none) (fun updates update => updates ++ [update]) packed.length
    packed 0 true []

/-- `apply_delta_bytes` after the message was decoded. -/
def applyPacked (sketch : HllSketch) (packed : List UInt8) : Option (HllSketch × Returned) :=
  (unpackChecked packed).map fun unpacked =>
    applyDecoded applyDelta sketch (unpacked.map HllSketchDelta.mk)

end HllSketch

/-! ### Pairs that go through -/

def castGaps (width : ℕ) (pairs : List (ℕ × ℕ)) : List (ℕ × ℕ) :=
  pairs.map fun pair => (pair.1 % 2 ^ width, pair.2)

/-- The pairs pass the checks of the loop, from an index on: every gap but the first is not zero,
no sum of the cast gaps overflows, the indexes are in range, and the values fit a byte. -/
def Passes (width : ℕ) (range : ℕ → Option String) : ℕ → Bool → List (ℕ × ℕ) → Prop
  | _, _, [] => True
  | prev, first, (gap, val) :: rest =>
    prev + gap % 2 ^ width < 2 ^ width ∧ ¬(!first ∧ gap = 0) ∧
      range (prev + gap % 2 ^ width) = none ∧ val ≤ 0xff ∧
      Passes width range (prev + gap % 2 ^ width) false rest

/-- The input starts with pairs that pass, and behind them stands one whose gap overflows. -/
def Overflows (width : ℕ) (range : ℕ → Option String) (prev : ℕ) (first : Bool)
    (packed : List UInt8) : Prop :=
  ∃ pairs gap val rest, Reads packed (pairs ++ [(gap, val)]) rest ∧
    Passes width range prev first pairs ∧
    2 ^ width ≤ prev + total (castGaps width (pairs ++ [(gap, val)]))

section Loop

variable {State : Type} {noun : String} {width : ℕ} {range : ℕ → Option String}
  {visit : State → ℕ × UInt8 → State}

theorem castGaps_cons (width gap val : ℕ) (rest : List (ℕ × ℕ)) :
    castGaps width ((gap, val) :: rest) = (gap % 2 ^ width, val) :: castGaps width rest := rfl

theorem reads_eq_nil {packed rest : List UInt8} {pairs : List (ℕ × ℕ)}
    (unreadable : ∀ gap used, Uvarint.read packed = some (gap, used) →
      Uvarint.read (packed.drop used) = none)
    (reads : Reads packed pairs rest) : pairs = [] ∧ rest = packed := by
  cases reads with
  | nil => exact ⟨rfl, rfl⟩
  | cons gapRead valRead =>
    rw [unreadable _ _ gapRead] at valRead
    cases valRead

section

variable {packed : List UInt8} {prev gap used val usedVal : ℕ} {first : Bool}

theorem overflows_iff (gapRead : Uvarint.read packed = some (gap, used))
    (valRead : Uvarint.read (packed.drop used) = some (val, usedVal)) :
    Overflows width range prev first packed ↔
      2 ^ width ≤ prev + gap % 2 ^ width ∨
        Passes width range prev first [(gap, val)] ∧
          Overflows width range (prev + gap % 2 ^ width) false
            ((packed.drop used).drop usedVal) := by
  constructor
  · rintro ⟨_ | ⟨pair, pairs⟩, lastGap, lastVal, rest, reads, passes, exceeds⟩
    · obtain ⟨same, -⟩ := (reads_cons_iff gapRead valRead).mp reads
      obtain ⟨rfl, rfl⟩ := Prod.mk.inj same
      exact Or.inl exceeds
    · obtain ⟨rfl, later⟩ := (reads_cons_iff gapRead valRead).mp reads
      obtain ⟨fits, increases, inRange, small, passesLater⟩ := passes
      refine Or.inr ⟨⟨fits, increases, inRange, small, trivial⟩, pairs, lastGap, lastVal, rest,
        later, passesLater, ?_⟩
      rw [List.cons_append, castGaps_cons] at exceeds
      exact exceeds.trans_eq (Nat.add_assoc prev _ _).symm
  · rintro (exceeds | ⟨⟨fits, increases, inRange, small, -⟩,
      pairs, lastGap, lastVal, rest, later, passes, exceeds⟩)
    · exact ⟨[], gap, val, _, .cons gapRead valRead (.nil _), trivial, exceeds⟩
    · refine ⟨(gap, val) :: pairs, lastGap, lastVal, rest, .cons gapRead valRead later,
        ⟨fits, increases, inRange, small, passes⟩, ?_⟩
      rw [List.cons_append, castGaps_cons]
      exact exceeds.trans_eq (Nat.add_assoc prev _ _)

/-- One round over input that starts with a pair. -/
theorem unpackLoop_cons (rounds : ℕ) (state : State)
    (gapRead : Uvarint.read packed = some (gap, used))
    (valRead : Uvarint.read (packed.drop used) = some (val, usedVal)) :
    (2 ^ width ≤ prev + gap % 2 ^ width ∧
      unpackLoop noun width range visit (rounds + 1) packed prev first state = none) ∨
    (prev + gap % 2 ^ width < 2 ^ width ∧ ¬Passes width range prev first [(gap, val)] ∧
      ∃ message, unpackLoop noun width range visit (rounds + 1) packed prev first state =
        some (.error message)) ∨
    (Passes width range prev first [(gap, val)] ∧
      unpackLoop noun width range visit (rounds + 1) packed prev first state =
        unpackLoop noun width range visit rounds ((packed.drop used).drop usedVal)
          (prev + gap % 2 ^ width) false
          (visit state (prev + gap % 2 ^ width, UInt8.ofNat val))) := by
  have occupied : ¬packed.isEmpty = true := by
    intro empty
    rw [List.isEmpty_iff.mp empty] at gapRead
    cases gapRead
  rw [unpackLoop]
  simp only [if_neg occupied, gapRead, valRead, checkedAdd]
  by_cases fits : prev + gap % 2 ^ width < 2 ^ width
  · refine Or.inr ?_
    rw [if_pos fits]
    by_cases stays : (!first) = true ∧ gap = 0
    · exact Or.inl ⟨fits, fun passes => passes.2.1 stays, _, if_pos stays⟩
    simp only [if_neg stays]
    cases inRange : range (prev + gap % 2 ^ width) with
    | some message =>
      refine Or.inl ⟨fits, fun passes => ?_, message, rfl⟩
      rw [passes.2.2.1] at inRange
      cases inRange
    | none =>
      by_cases large : 0xff < val
      · exact Or.inl ⟨fits, fun passes => not_le.mpr large passes.2.2.2.1, _, if_pos large⟩
      · exact Or.inr ⟨⟨fits, stays, inRange, not_lt.mp large, trivial⟩, if_neg large⟩
  · rw [if_neg fits]
    exact Or.inl ⟨not_lt.mp fits, rfl⟩

end

theorem unpackLoop_corrupt {packed : List UInt8} {prev : ℕ} {first : Bool} (rounds : ℕ)
    (state : State) (occupied : packed ≠ [])
    (unreadable : ∀ gap used, Uvarint.read packed = some (gap, used) →
      Uvarint.read (packed.drop used) = none) :
    ∃ message, unpackLoop noun width range visit (rounds + 1) packed prev first state =
      some (.error message) := by
  have notEmpty : ¬packed.isEmpty = true := fun empty => occupied (List.isEmpty_iff.mp empty)
  unfold unpackLoop
  rw [if_neg notEmpty]
  cases gapRead : Uvarint.read packed with
  | none => exact ⟨_, rfl⟩
  | some pair =>
    simp only [unreadable pair.1 pair.2 gapRead]
    exact ⟨_, rfl⟩

theorem reads_cases (packed : List UInt8) :
    packed = [] ∨
    (packed ≠ [] ∧ ∀ gap used, Uvarint.read packed = some (gap, used) →
      Uvarint.read (packed.drop used) = none) ∨
    ∃ gap used val usedVal, Uvarint.read packed = some (gap, used) ∧
      Uvarint.read (packed.drop used) = some (val, usedVal) := by
  by_cases empty : packed = []
  · exact Or.inl empty
  refine Or.inr ?_
  by_cases readable : ∃ gap used val usedVal, Uvarint.read packed = some (gap, used) ∧
      Uvarint.read (packed.drop used) = some (val, usedVal)
  · exact Or.inr readable
  · refine Or.inl ⟨empty, fun gap used gapRead => ?_⟩
    cases valRead : Uvarint.read (packed.drop used) with
    | none => rfl
    | some pair => exact absurd ⟨gap, used, pair.1, pair.2, gapRead, valRead⟩ readable

theorem not_overflows {packed : List UInt8} {prev : ℕ} {first : Bool}
    (unreadable : ∀ gap used, Uvarint.read packed = some (gap, used) →
      Uvarint.read (packed.drop used) = none) :
    ¬Overflows width range prev first packed := by
  rintro ⟨pairs, gap, val, rest, reads, -, -⟩
  exact absurd (reads_eq_nil unreadable reads).1 (List.append_ne_nil_of_right_ne_nil _
    (List.cons_ne_nil _ _))

/-- The loop has no outcome just where the input overflows. -/
theorem unpackLoop_eq_none {rounds : ℕ} {packed : List UInt8} {prev : ℕ} {first : Bool}
    {state : State} (enough : packed.length ≤ rounds) :
    unpackLoop noun width range visit rounds packed prev first state = none ↔
      Overflows width range prev first packed := by
  induction rounds generalizing packed prev first state with
  | zero =>
    obtain rfl := List.length_eq_zero_iff.mp (Nat.le_zero.mp enough)
    refine ⟨(fun ends => nomatch ends), fun overflows => ?_⟩
    exact absurd overflows (not_overflows fun gap used gapRead => nomatch gapRead)
  | succ rounds hypothesis =>
    rcases reads_cases packed with rfl | ⟨occupied, unreadable⟩ |
      ⟨gap, used, val, usedVal, gapRead, valRead⟩
    · refine ⟨(fun ends => nomatch ends), fun overflows => ?_⟩
      exact absurd overflows (not_overflows fun gap used gapRead => nomatch gapRead)
    · obtain ⟨message, corrupt⟩ := unpackLoop_corrupt rounds state occupied unreadable
      rw [corrupt]
      exact ⟨(fun ends => nomatch ends), fun overflows => absurd overflows
        (not_overflows unreadable)⟩
    · have shorter := Nat.le_of_lt_succ ((length_drop_lt gapRead valRead).trans_le enough)
      rw [overflows_iff gapRead valRead]
      rcases unpackLoop_cons rounds state gapRead valRead with
        ⟨exceeds, round⟩ | ⟨fits, rejected, message, round⟩ | ⟨passes, round⟩
      · rw [round]
        exact ⟨fun _ => Or.inl exceeds, fun _ => rfl⟩
      · rw [round]
        refine ⟨(fun ends => nomatch ends), ?_⟩
        rintro (exceeds | ⟨passes, -⟩)
        · exact absurd fits (not_lt.mpr exceeds)
        · exact absurd passes rejected
      · rw [round, hypothesis shorter]
        refine ⟨fun overflows => Or.inr ⟨passes, overflows⟩, ?_⟩
        rintro (exceeds | ⟨-, overflows⟩)
        · exact absurd passes.1 (not_lt.mpr exceeds)
        · exact overflows

theorem passes_cons_iff {prev gap val : ℕ} {first : Bool} {pairs : List (ℕ × ℕ)} :
    Passes width range prev first ((gap, val) :: pairs) ↔
      Passes width range prev first [(gap, val)] ∧
        Passes width range (prev + gap % 2 ^ width) false pairs := by
  constructor
  · rintro ⟨fits, increases, inRange, small, later⟩
    exact ⟨⟨fits, increases, inRange, small, trivial⟩, later⟩
  · rintro ⟨⟨fits, increases, inRange, small, -⟩, later⟩
    exact ⟨fits, increases, inRange, small, later⟩

/-- The loop accepts just the input that is made up of pairs that pass, and visits their
updates. -/
theorem unpackLoop_eq_ok {rounds : ℕ} {packed : List UInt8} {prev : ℕ} {first : Bool}
    {state final : State} (enough : packed.length ≤ rounds) :
    unpackLoop noun width range visit rounds packed prev first state = some (.ok final) ↔
      ∃ pairs, Reads packed pairs [] ∧ Passes width range prev first pairs ∧
        (updates prev (castGaps width pairs)).foldl visit state = final := by
  induction rounds generalizing packed prev first state with
  | zero =>
    obtain rfl := List.length_eq_zero_iff.mp (Nat.le_zero.mp enough)
    constructor
    · intro ends
      exact ⟨[], .nil [], trivial, Except.ok.inj (Option.some.inj ends)⟩
    · rintro ⟨pairs, reads, -, final⟩
      obtain rfl := reads_unique reads (.nil [])
      exact congrArg (fun state => some (Except.ok state)) final
  | succ rounds hypothesis =>
    rcases reads_cases packed with rfl | ⟨occupied, unreadable⟩ |
      ⟨gap, used, val, usedVal, gapRead, valRead⟩
    · constructor
      · intro ends
        exact ⟨[], .nil [], trivial, Except.ok.inj (Option.some.inj ends)⟩
      · rintro ⟨pairs, reads, -, final⟩
        obtain rfl := reads_unique reads (.nil [])
        exact congrArg (fun state => some (Except.ok state)) final
    · obtain ⟨message, corrupt⟩ := unpackLoop_corrupt rounds state occupied unreadable
      rw [corrupt]
      refine ⟨(fun ends => nomatch ends), ?_⟩
      rintro ⟨pairs, reads, -, -⟩
      exact absurd (reads_eq_nil unreadable reads).2.symm occupied
    · have shorter := Nat.le_of_lt_succ ((length_drop_lt gapRead valRead).trans_le enough)
      have starts : ∀ pairs, Reads packed pairs [] →
          ∃ rest, pairs = (gap, val) :: rest ∧ Reads ((packed.drop used).drop usedVal) rest [] := by
        rintro (_ | ⟨pair, pairs⟩) reads
        · cases reads
          cases gapRead
        · obtain ⟨rfl, later⟩ := (reads_cons_iff gapRead valRead).mp reads
          exact ⟨pairs, rfl, later⟩
      rcases unpackLoop_cons rounds state gapRead valRead with
        ⟨exceeds, round⟩ | ⟨fits, rejected, message, round⟩ | ⟨passes, round⟩
      · rw [round]
        refine ⟨(fun ends => nomatch ends), ?_⟩
        rintro ⟨pairs, reads, passes, -⟩
        obtain ⟨rest, rfl, -⟩ := starts pairs reads
        exact absurd passes.1 (not_lt.mpr exceeds)
      · rw [round]
        refine ⟨(fun ends => nomatch ends), ?_⟩
        rintro ⟨pairs, reads, passes, -⟩
        obtain ⟨rest, rfl, -⟩ := starts pairs reads
        exact absurd (passes_cons_iff.mp passes).1 rejected
      · rw [round, hypothesis shorter]
        constructor
        · rintro ⟨rest, reads, passesLater, final⟩
          exact ⟨(gap, val) :: rest, .cons gapRead valRead reads,
            passes_cons_iff.mpr ⟨passes, passesLater⟩, final⟩
        · rintro ⟨pairs, reads, passesAll, final⟩
          obtain ⟨rest, rfl, later⟩ := starts pairs reads
          exact ⟨rest, later, (passes_cons_iff.mp passesAll).2, final⟩

end Loop

end Portable

end AsapSketchlib
