/-
This file proves what the sparse register codec of the portable HyperLogLog does. The decoder
has back what the encoder was given. On any other input the decoder and the applied deltas set,
or raise, just the registers of a well-formed sequence of pairs, unless a gap overflows the index,
or is cut off by its cast to a narrower one.
-/

import AsapSketchlib.SparseRegisters

namespace AsapSketchlib

namespace Portable

open GapPairs

/-! ### Visited registers -/

section Visits

variable {change : UInt8 → UInt8 → UInt8} {visit : List UInt8 → ℕ × UInt8 → List UInt8}

variable
  (visits : ∀ registers update i,
    (visit registers update)[i]? =
      (registers[i]?).map fun old => if update.1 = i then change old update.2 else old)
  {updates : List (ℕ × UInt8)} {registers : List UInt8}

include visits

theorem foldl_visit_other {i : ℕ} (other : ∀ update ∈ updates, update.1 ≠ i) :
    (updates.foldl visit registers)[i]? = registers[i]? := by
  induction updates generalizing registers with
  | nil => rfl
  | cons update rest hypothesis =>
    obtain ⟨here, later⟩ := List.forall_mem_cons.mp other
    rw [List.foldl_cons, hypothesis later, visits]
    simp only [if_neg here, Option.map_id']

theorem foldl_visit_same (increasing : (updates.map Prod.fst).Pairwise (· < ·)) :
    ∀ update ∈ updates, (updates.foldl visit registers)[update.1]? =
      (registers[update.1]?).map fun old => change old update.2 := by
  induction updates generalizing registers with
  | nil => exact fun update member => absurd member List.not_mem_nil
  | cons first rest hypothesis =>
    obtain ⟨earlier, later⟩ := List.pairwise_cons.mp increasing
    intro update member
    rw [List.foldl_cons]
    rcases List.mem_cons.mp member with rfl | inRest
    · have others : ∀ other ∈ rest, other.1 ≠ update.1 := fun other inRest =>
        (earlier other.1 (List.mem_map_of_mem inRest)).ne'
      rw [foldl_visit_other visits others, visits]
      simp only [if_true]
    · have differs : first.1 ≠ update.1 := (earlier update.1 (List.mem_map_of_mem inRest)).ne
      rw [hypothesis later update inRest, visits]
      simp only [if_neg differs, Option.map_id']

end Visits

/-- The new value, whatever the old one. -/
def replaced (_ new : UInt8) : UInt8 := new

theorem getElem?_setRegister (registers : List UInt8) (update : ℕ × UInt8) (i : ℕ) :
    (setRegister registers update)[i]? =
      (registers[i]?).map fun old => if update.1 = i then replaced old update.2 else old := by
  unfold setRegister
  rw [List.set_eq_modify, getElem?_modify_eq_map]
  rfl

/-- The larger of an old value and a new one. -/
def raised (old new : UInt8) : UInt8 := if old < new then new else old

theorem HllSketch.getElem?_raise_eq (registers : List UInt8) (update : ℕ × UInt8) (i : ℕ) :
    (HllSketch.raise registers update)[i]? =
      (registers[i]?).map fun old => if update.1 = i then raised old update.2 else old :=
  getElem?_modify_eq_map _ _ _ _

/-! ### What the loops should do -/

/-- The registers are zero but for the updates. -/
structure SetsExactly (n : ℕ) (updates : List (ℕ × UInt8)) (regs : List UInt8) : Prop where
  length : regs.length = n
  visited : ∀ update ∈ updates, regs[update.1]? = some update.2
  others : ∀ i < n, (∀ update ∈ updates, update.1 ≠ i) → regs[i]? = some 0

/-- The registers are those before, raised by the updates. -/
structure RaisesExactly (updates : List (ℕ × UInt8)) (before after : List UInt8) : Prop where
  visited : ∀ update ∈ updates, after[update.1]? =
    (before[update.1]?).map fun old => raised old update.2
  others : ∀ i, (∀ update ∈ updates, update.1 ≠ i) → after[i]? = before[i]?

/-- The decoder ends, and accepts just the well-formed sequences of pairs, whose registers it
sets. -/
def DecodesExactly (sp : HllSparseRegisters) : Prop :=
  decodeSparseRegisters sp ≠ none ∧
    ∀ regs, decodeSparseRegisters sp = some (.ok regs) ↔
      ∃ pairs, Reads sp.packed pairs [] ∧ WellFormed sp.numRegisters.toNat pairs ∧
        SetsExactly sp.numRegisters.toNat (updates 0 pairs) regs

/-- A packed delta ends, is accepted just where it is a well-formed sequence of pairs, and then
visits their updates, which raises the registers. -/
def AppliesExactly (sketch : HllSketch) (packed : List UInt8) : Prop :=
  sketch.applyPacked packed ≠ none ∧
    ((∃ after, sketch.applyPacked packed = some (after, .ok)) ↔
      ∃ pairs, Reads packed pairs [] ∧ WellFormed sketch.registers.length pairs) ∧
    ∀ after, sketch.applyPacked packed = some (after, .ok) →
      ∃ pairs, Reads packed pairs [] ∧
        HllSketch.unpackChecked packed = some (.ok (updates 0 pairs)) ∧
        RaisesExactly (updates 0 pairs) sketch.registers after.registers ∧
        after = { sketch with registers := after.registers }

/-! ### Pairs whose gaps are not cut off -/

theorem castGaps_eq {width : ℕ} {pairs : List (ℕ × ℕ)} (fits : ∀ pair ∈ pairs, pair.1 < 2 ^ width) :
    castGaps width pairs = pairs := by
  refine (List.map_congr_left fun pair member => ?_).trans (List.map_id _)
  exact Prod.ext (Nat.mod_eq_of_lt (fits pair member)) rfl

/-- Such pairs pass just if their indexes strictly increase and are in range, and their values
fit a byte. -/
theorem passes_iff {width : ℕ} {range : ℕ → Option String} {prev : ℕ} {first : Bool}
    {pairs : List (ℕ × ℕ)} (fits : ∀ pair ∈ pairs, pair.1 < 2 ^ width) :
    Passes width range prev first pairs ↔
      ((updates prev pairs).map Prod.fst).Pairwise (· < ·) ∧
      (first = false → ∀ update ∈ updates prev pairs, prev < update.1) ∧
      (∀ update ∈ updates prev pairs, update.1 < 2 ^ width ∧ range update.1 = none) ∧
      ∀ pair ∈ pairs, pair.2 ≤ 0xff := by
  induction pairs generalizing prev first with
  | nil => simp [Passes]
  | cons pair rest hypothesis =>
    obtain ⟨gap, val⟩ := pair
    obtain ⟨here, later⟩ := List.forall_mem_cons.mp fits
    have whole : gap % 2 ^ width = gap := Nat.mod_eq_of_lt here
    unfold Passes
    rw [whole, hypothesis later, updates_cons, List.map_cons, List.pairwise_cons,
      List.forall_mem_cons, List.forall_mem_cons, List.forall_mem_cons]
    constructor
    · rintro ⟨inside, increases, inRange, small, ascending, after, allInside, allSmall⟩
      have above := after rfl
      refine ⟨⟨?_, ascending⟩, fun notFirst => ⟨?_, fun update member => ?_⟩,
        ⟨⟨inside, inRange⟩, allInside⟩, small, allSmall⟩
      · intro index member
        obtain ⟨update, inUpdates, rfl⟩ := List.mem_map.mp member
        exact above update inUpdates
      · refine Nat.lt_add_of_pos_right (Nat.pos_of_ne_zero fun zero => increases ⟨?_, zero⟩)
        rw [notFirst]
        rfl
      · exact (Nat.le_add_right prev gap).trans_lt (above update member)
    · rintro ⟨⟨above, ascending⟩, after, ⟨⟨inside, inRange⟩, allInside⟩, small, allSmall⟩
      refine ⟨inside, ?_, inRange, small, ascending, fun _ update member => ?_, allInside, allSmall⟩
      · rintro ⟨notFirst, zero⟩
        have grows : prev < prev + gap := (after (by simpa using notFirst)).1
        rw [zero] at grows
        exact lt_irrefl prev grows
      · exact above update.1 (List.mem_map_of_mem member)

theorem sparseRange_eq_none {n idx : ℕ} : sparseRange n idx = none ↔ idx < n := by
  unfold sparseRange
  split
  · next outside => exact ⟨(fun impossible => nomatch impossible), fun inside =>
      absurd inside (not_lt.mpr outside)⟩
  · next inside => exact ⟨fun _ => not_le.mp inside, fun _ => rfl⟩

theorem passes_sparse_iff {n : ℕ} {pairs : List (ℕ × ℕ)} (few : n ≤ 2 ^ 64)
    (fits : ∀ pair ∈ pairs, pair.1 < 2 ^ 64) :
    Passes 64 (sparseRange n) 0 true pairs ↔ WellFormed n pairs := by
  rw [passes_iff fits]
  constructor
  · rintro ⟨increasing, -, inside, values⟩
    exact ⟨increasing, fun update member => sparseRange_eq_none.mp (inside update member).2, values⟩
  · rintro ⟨increasing, below, values⟩
    refine ⟨increasing, (fun notFirst => nomatch notFirst), fun update member => ?_, values⟩
    have inside := below update member
    exact ⟨inside.trans_le few, sparseRange_eq_none.mpr inside⟩

/-! ### The decoder -/

theorem setsExactly_foldl {n : ℕ} {pairs : List (ℕ × ℕ)} (wellFormed : WellFormed n pairs) :
    SetsExactly n (updates 0 pairs) ((updates 0 pairs).foldl setRegister (List.replicate n 0)) := by
  have zero : ∀ {i}, i < n → (List.replicate n (0 : UInt8))[i]? = some 0 := fun inside => by
    rw [List.getElem?_replicate, if_pos inside]
  refine ⟨?_, fun update member => ?_, fun i inside others => ?_⟩
  · have length : ∀ (entries : List (ℕ × UInt8)) (regs : List UInt8),
        (entries.foldl setRegister regs).length = regs.length := by
      intro entries
      induction entries with
      | nil => exact fun regs => rfl
      | cons entry rest hypothesis =>
        intro regs
        rw [List.foldl_cons, hypothesis]
        exact List.length_set
    rw [length, List.length_replicate]
  · rw [foldl_visit_same getElem?_setRegister wellFormed.increasing update member,
      zero (wellFormed.below update member)]
    rfl
  · rw [foldl_visit_other getElem?_setRegister others, zero inside]

theorem SetsExactly.unique {n : ℕ} {entries : List (ℕ × UInt8)} {first second : List UInt8}
    (one : SetsExactly n entries first) (other : SetsExactly n entries second) :
    first = second := by
  refine List.ext_getElem? fun i => ?_
  by_cases inside : i < n
  · by_cases visited : ∃ update ∈ entries, update.1 = i
    · obtain ⟨update, member, rfl⟩ := visited
      rw [one.visited update member, other.visited update member]
    · have others : ∀ update ∈ entries, update.1 ≠ i := fun update member same =>
        visited ⟨update, member, same⟩
      rw [one.others i inside others, other.others i inside others]
  · have outside := not_lt.mp inside
    rw [List.getElem?_eq_none (one.length.trans_le outside),
      List.getElem?_eq_none (other.length.trans_le outside)]

theorem decodeSparseRegisters_eq_ok {sp : HllSparseRegisters} {regs : List UInt8} :
    decodeSparseRegisters sp = some (.ok regs) ↔
      ∃ pairs, Reads sp.packed pairs [] ∧ WellFormed sp.numRegisters.toNat pairs ∧
        SetsExactly sp.numRegisters.toNat (updates 0 pairs) regs := by
  have few : sp.numRegisters.toNat ≤ 2 ^ 64 :=
    (UInt32.toNat_lt sp.numRegisters).le.trans (by decide)
  unfold decodeSparseRegisters
  rw [unpackLoop_eq_ok (le_refl _)]
  refine exists_congr fun pairs => and_congr_right fun reads => ?_
  have fits := gap_lt reads
  rw [passes_sparse_iff few fits, castGaps_eq fits]
  refine and_congr_right fun wellFormed => ⟨?_, (setsExactly_foldl wellFormed).unique⟩
  rintro rfl
  exact setsExactly_foldl wellFormed

theorem decodesExactly_iff (sp : HllSparseRegisters) :
    DecodesExactly sp ↔
      ¬Overflows 64 (sparseRange sp.numRegisters.toNat) 0 true sp.packed := by
  unfold DecodesExactly
  have ends : decodeSparseRegisters sp = none ↔
      Overflows 64 (sparseRange sp.numRegisters.toNat) 0 true sp.packed :=
    unpackLoop_eq_none (le_refl _)
  rw [Ne, ends]
  exact and_iff_left fun regs => decodeSparseRegisters_eq_ok

/-! ### Decoding what was encoded -/

def nonZero (entries : List (UInt8 × ℕ)) : List (ℕ × UInt8) :=
  (entries.filter fun entry => entry.1 ≠ 0).map Prod.swap

theorem reads_encodeFrom {prev : ℕ} {entries : List (UInt8 × ℕ)}
    (fits : ∀ entry ∈ entries, entry.2 < 2 ^ 64) :
    Reads (encodeFrom prev entries) (gaps prev (nonZero entries)) [] := by
  induction entries generalizing prev with
  | nil => exact .nil []
  | cons entry rest hypothesis =>
    obtain ⟨v, i⟩ := entry
    obtain ⟨here, later⟩ := List.forall_mem_cons.mp fits
    unfold encodeFrom nonZero
    by_cases zero : v = 0
    · rw [if_pos zero, List.filter_cons_of_neg (by simpa using zero)]
      exact hypothesis later
    · rw [if_neg zero, List.filter_cons_of_pos (by simpa using zero), List.append_assoc]
      have gapFits : i - prev < 2 ^ 64 := (Nat.sub_le i prev).trans_lt here
      have valFits : v.toNat < 2 ^ 64 := (UInt8.toNat_lt v).trans (by decide)
      have valRead : Uvarint.read ((Uvarint.write (i - prev) ++ (Uvarint.write v.toNat ++
          encodeFrom i rest)).drop (Uvarint.write (i - prev)).length) =
          some (v.toNat, (Uvarint.write v.toNat).length) := by
        rw [List.drop_left]
        exact Uvarint.read_write valFits _
      have later : Reads (encodeFrom i rest) (gaps i (nonZero rest)) [] :=
        hypothesis later
      refine .cons (Uvarint.read_write gapFits _) valRead ?_
      rw [List.drop_left, List.drop_left]
      exact later

theorem mem_nonZero {regs : List UInt8} {update : ℕ × UInt8} :
    update ∈ nonZero regs.zipIdx ↔ regs[update.1]? = some update.2 ∧ update.2 ≠ 0 := by
  unfold nonZero
  rw [List.mem_map]
  constructor
  · rintro ⟨entry, member, rfl⟩
    obtain ⟨inRegs, notZero⟩ := List.mem_filter.mp member
    exact ⟨List.mem_zipIdx_iff_getElem?.mp inRegs, by simpa using notZero⟩
  · rintro ⟨found, notZero⟩
    refine ⟨(update.2, update.1), List.mem_filter.mpr ⟨?_, by simpa using notZero⟩, rfl⟩
    exact List.mem_zipIdx_iff_getElem?.mpr found

theorem pairwise_nonZero (regs : List UInt8) :
    ((nonZero regs.zipIdx).map Prod.fst).Pairwise (· < ·) := by
  unfold nonZero
  rw [List.map_map]
  exact List.pairwise_map.mpr ((pairwise_zipIdx regs).filter _)

theorem wellFormed_gaps (regs : List UInt8) :
    updates 0 (gaps 0 (nonZero regs.zipIdx)) = nonZero regs.zipIdx ∧
      WellFormed regs.length (gaps 0 (nonZero regs.zipIdx)) := by
  have ascending := pairwise_nonZero regs
  have back : updates 0 (gaps 0 (nonZero regs.zipIdx)) = nonZero regs.zipIdx :=
    updates_gaps (ascending.imp le_of_lt) fun _ _ => Nat.zero_le _
  refine ⟨back, ?_, fun update member => ?_, fun pair member => ?_⟩
  · rw [back]
    exact ascending
  · rw [back] at member
    exact (List.getElem?_eq_some_iff.mp (mem_nonZero.mp member).1).1
  · have small : ∀ (prev : ℕ) (entries : List (ℕ × UInt8)),
        ∀ pair ∈ gaps prev entries, pair.2 ≤ 0xff := by
      intro prev entries
      induction entries generalizing prev with
      | nil => exact fun pair member => absurd member List.not_mem_nil
      | cons entry rest hypothesis =>
        exact List.forall_mem_cons.mpr
          ⟨Nat.le_of_lt_succ (UInt8.toNat_lt entry.2), hypothesis entry.1⟩
    exact small 0 _ pair member

theorem decode_encode {regs : List UInt8} (few : regs.length < 2 ^ 32) :
    decodeSparseRegisters (encodeSparseRegisters regs) = some (.ok regs) := by
  obtain ⟨back, wellFormed⟩ := wellFormed_gaps regs
  have count : (encodeSparseRegisters regs).numRegisters.toNat = regs.length :=
    UInt32.toNat_ofNat'.trans (Nat.mod_eq_of_lt few)
  rw [decodeSparseRegisters_eq_ok, count]
  refine ⟨gaps 0 (nonZero regs.zipIdx), reads_encodeFrom ?_, wellFormed, rfl, ?_, ?_⟩
  · intro entry member
    have inside := (List.getElem?_eq_some_iff.mp (List.mem_zipIdx_iff_getElem?.mp member)).1
    exact inside.trans (few.trans (by decide))
  · rw [back]
    exact fun update member => (mem_nonZero.mp member).1
  · rw [back]
    intro i inside others
    rw [List.getElem?_eq_getElem inside]
    by_contra notZero
    refine others (i, regs[i]) (mem_nonZero.mpr ⟨List.getElem?_eq_getElem inside, ?_⟩) rfl
    exact fun zero => notZero (congrArg some zero)

/-! ### The applied deltas -/

namespace HllSketch

variable {sketch : HllSketch}

/-- No accepted gap is cut off by its cast to a `u32`. -/
def GapsFit (sketch : HllSketch) (packed : List UInt8) : Prop :=
  ∀ pairs, Reads packed pairs [] → Passes 32 (fun _ => none) 0 true pairs →
    (∀ update ∈ updates 0 (castGaps 32 pairs), update.1 < sketch.registers.length) →
    ∀ pair ∈ pairs, pair.1 < 2 ^ 32

theorem unpackChecked_eq_ok {packed : List UInt8} {entries : List (ℕ × UInt8)} :
    unpackChecked packed = some (.ok entries) ↔
      ∃ pairs, Reads packed pairs [] ∧ Passes 32 (fun _ => none) 0 true pairs ∧
        updates 0 (castGaps 32 pairs) = entries := by
  have collected : ∀ before behind : List (ℕ × UInt8),
      behind.foldl (fun entries entry => entries ++ [entry]) before = before ++ behind := by
    intro before behind
    induction behind generalizing before with
    | nil => exact (List.append_nil before).symm
    | cons entry rest hypothesis =>
      rw [List.foldl_cons, hypothesis, List.append_assoc]
      rfl
  unfold unpackChecked
  rw [unpackLoop_eq_ok (le_refl _)]
  simp only [collected, List.nil_append]

theorem applyUpdates_inside {after : HllSketch} {entries : List (ℕ × UInt8)}
    (applied : sketch.applyUpdates entries = (after, .ok)) :
    ∀ update ∈ entries, update.1 < sketch.registers.length := by
  induction entries generalizing sketch with
  | nil => exact fun update member => absurd member List.not_mem_nil
  | cons update rest hypothesis =>
    unfold applyUpdates at applied
    by_cases outside : sketch.registers.length ≤ update.1
    · simp only [if_pos outside] at applied
      cases applied
    · simp only [if_neg outside] at applied
      have later := hypothesis applied
      have length : (raise sketch.registers update).length = sketch.registers.length :=
        List.length_modify _ _ _
      rw [length] at later
      exact List.forall_mem_cons.mpr ⟨not_le.mp outside, later⟩

theorem applyPacked_eq_ok {packed : List UInt8} {after : HllSketch} :
    sketch.applyPacked packed = some (after, .ok) ↔
      ∃ entries, unpackChecked packed = some (.ok entries) ∧
        (∀ update ∈ entries, update.1 < sketch.registers.length) ∧
        after = { sketch with registers := entries.foldl raise sketch.registers } := by
  unfold applyPacked
  constructor
  · intro applied
    obtain ⟨unpacked, found, result⟩ := Option.map_eq_some_iff.mp applied
    cases unpacked with
    | error message => cases result
    | ok entries =>
      have inside := applyUpdates_inside result
      refine ⟨entries, found, inside, ?_⟩
      have whole : sketch.applyUpdates entries = (after, .ok) := result
      rw [applyUpdates_ok inside] at whole
      exact (Prod.mk.inj whole).1.symm
  · rintro ⟨entries, found, inside, rfl⟩
    rw [found]
    exact congrArg some (applyUpdates_ok inside)

theorem applyPacked_eq_none {packed : List UInt8} :
    sketch.applyPacked packed = none ↔ Overflows 32 (fun _ => none) 0 true packed := by
  unfold applyPacked
  rw [Option.map_eq_none_iff]
  exact unpackLoop_eq_none (le_refl _)

theorem passes_of_increasing {packed rest : List UInt8} {pairs : List (ℕ × ℕ)} {prev index : ℕ}
    {first : Bool} (reads : Reads packed pairs rest)
    (increasing : ((updates index pairs).map Prod.fst).Pairwise (· < ·))
    (after : first = false → ∀ update ∈ updates index pairs, index < update.1)
    (values : ∀ pair ∈ pairs, pair.2 ≤ 0xff)
    (stays : ¬Overflows 32 (fun _ => none) prev first packed) :
    Passes 32 (fun _ => none) prev first pairs := by
  induction reads generalizing prev index first with
  | nil => trivial
  | @cons packed _ gap used val usedVal pairs gapRead valRead later hypothesis =>
    obtain ⟨above, ascending⟩ := List.pairwise_cons.mp increasing
    obtain ⟨small, allSmall⟩ := List.forall_mem_cons.mp values
    rw [overflows_iff gapRead valRead, not_or] at stays
    obtain ⟨fits, staysLater⟩ := stays
    have increases : ¬((!first) = true ∧ gap = 0) := by
      rintro ⟨notFirst, rfl⟩
      have grows := after (by simpa using notFirst) _ List.mem_cons_self
      exact lt_irrefl index grows
    have passes : Passes 32 (fun _ => none) prev first [(gap, val)] :=
      ⟨not_le.mp fits, increases, rfl, small, trivial⟩
    refine passes_cons_iff.mpr ⟨passes, hypothesis ascending ?_ allSmall ?_⟩
    · exact fun _ update member => above update.1 (List.mem_map_of_mem member)
    · exact fun overflows => staysLater ⟨passes, overflows⟩

theorem castGaps_le {pairs : List (ℕ × ℕ)} {prev index bound : ℕ} (le : prev ≤ index)
    (below : ∀ update ∈ updates index pairs, update.1 < bound) :
    ∀ update ∈ updates prev (castGaps 32 pairs), update.1 < bound := by
  induction pairs generalizing prev index with
  | nil => exact fun update member => absurd member List.not_mem_nil
  | cons pair rest hypothesis =>
    obtain ⟨here, later⟩ := List.forall_mem_cons.mp below
    have leNext : prev + pair.1 % 2 ^ 32 ≤ index + pair.1 := Nat.add_le_add le (Nat.mod_le _ _)
    exact List.forall_mem_cons.mpr ⟨leNext.trans_lt here, hypothesis leNext later⟩

theorem updates_lt_of_passes {range : ℕ → Option String} {width prev : ℕ} {first : Bool}
    {pairs : List (ℕ × ℕ)} (passes : Passes width range prev first pairs) :
    ∀ update ∈ updates prev (castGaps width pairs), update.1 < 2 ^ width := by
  induction pairs generalizing prev first with
  | nil => exact fun update member => absurd member List.not_mem_nil
  | cons pair rest hypothesis =>
    exact List.forall_mem_cons.mpr ⟨passes.1, hypothesis passes.2.2.2.2⟩

theorem gap_lt_of_updates {prev bound : ℕ} {pairs : List (ℕ × ℕ)}
    (below : ∀ update ∈ updates prev pairs, update.1 < bound) :
    ∀ pair ∈ pairs, pair.1 < bound := by
  induction pairs generalizing prev with
  | nil => exact fun pair member => absurd member List.not_mem_nil
  | cons pair rest hypothesis =>
    obtain ⟨here, later⟩ := List.forall_mem_cons.mp below
    have fits : pair.1 < bound := (Nat.le_add_left pair.1 prev).trans_lt here
    exact List.forall_mem_cons.mpr ⟨fits, hypothesis later⟩

/-- A packed delta does what it should unless it reaches a gap that overflows the index, or an
accepted gap is cut off. -/
theorem appliesExactly_iff (sketch : HllSketch) (packed : List UInt8) :
    AppliesExactly sketch packed ↔
      ¬Overflows 32 (fun _ => none) 0 true packed ∧ sketch.GapsFit packed := by
  unfold AppliesExactly
  rw [Ne, applyPacked_eq_none]
  refine and_congr_right fun stays => ⟨?_, fun gapsFit => ?_⟩
  · rintro ⟨-, exactly⟩ pairs reads passes inside
    have unpacked := unpackChecked_eq_ok.mpr ⟨pairs, reads, passes, rfl⟩
    obtain ⟨others, readsOthers, visited, -, -⟩ :=
      exactly _ (applyPacked_eq_ok.mpr ⟨_, unpacked, inside, rfl⟩)
    obtain rfl := reads_unique readsOthers reads
    have same := Except.ok.inj (Option.some.inj (unpacked.symm.trans visited))
    exact gap_lt_of_updates (same ▸ updates_lt_of_passes passes)
  · have accepted : ∀ pairs, Reads packed pairs [] →
        WellFormed sketch.registers.length pairs →
        sketch.applyPacked packed = some ({ sketch with
          registers := (updates 0 (castGaps 32 pairs)).foldl raise sketch.registers }, .ok) := by
      rintro pairs reads ⟨increasing, below, values⟩
      have start : true = false → ∀ update ∈ updates 0 pairs, 0 < update.1 :=
        fun notFirst => absurd notFirst (by decide)
      have passes := passes_of_increasing reads increasing start values stays
      exact applyPacked_eq_ok.mpr ⟨_, unpackChecked_eq_ok.mpr ⟨pairs, reads, passes, rfl⟩,
        castGaps_le (le_refl 0) below, rfl⟩
    have wellFormed : ∀ after, sketch.applyPacked packed = some (after, .ok) →
        ∃ pairs, Reads packed pairs [] ∧ WellFormed sketch.registers.length pairs ∧
          unpackChecked packed = some (.ok (updates 0 pairs)) ∧
          after = { sketch with
            registers := (updates 0 pairs).foldl raise sketch.registers } := by
      intro after applied
      obtain ⟨entries, unpacked, inside, rfl⟩ := applyPacked_eq_ok.mp applied
      obtain ⟨pairs, reads, passes, rfl⟩ := unpackChecked_eq_ok.mp unpacked
      have fits := gapsFit pairs reads passes inside
      obtain ⟨increasing, -, -, values⟩ := (passes_iff fits).mp passes
      rw [castGaps_eq fits] at unpacked inside ⊢
      exact ⟨pairs, reads, ⟨increasing, inside, values⟩, unpacked, rfl⟩
    refine ⟨⟨?_, ?_⟩, fun after applied => ?_⟩
    · rintro ⟨after, applied⟩
      obtain ⟨pairs, reads, sequence, -, -⟩ := wellFormed after applied
      exact ⟨pairs, reads, sequence⟩
    · rintro ⟨pairs, reads, sequence⟩
      exact ⟨_, accepted pairs reads sequence⟩
    · obtain ⟨pairs, reads, sequence, visited, rfl⟩ := wellFormed after applied
      refine ⟨pairs, reads, visited, ⟨?_, fun i others => ?_⟩, rfl⟩
      · exact foldl_visit_same getElem?_raise_eq sequence.increasing
      · exact foldl_visit_other getElem?_raise_eq others

end HllSketch

/-! ### The codec -/

/-- Every register array of fewer than 2^32 entries is decoded from its encoding. A sparse
message is decoded as it should be just where no reached gap overflows the `usize`, and a packed
delta applied as it should be just where no reached gap overflows the `u32` and none that is
accepted is cut off by the cast to it. -/
theorem sparse_codec (regs : List UInt8) (few : regs.length < 2 ^ 32) (sp : HllSparseRegisters)
    (sketch : HllSketch) (packed : List UInt8) :
    decodeSparseRegisters (encodeSparseRegisters regs) = some (.ok regs) ∧
    (DecodesExactly sp ↔
      ¬Overflows 64 (sparseRange sp.numRegisters.toNat) 0 true sp.packed) ∧
    (AppliesExactly sketch packed ↔
      ¬Overflows 32 (fun _ => none) 0 true packed ∧ sketch.GapsFit packed) :=
  ⟨decode_encode few, decodesExactly_iff sp, sketch.appliesExactly_iff packed⟩

def twoRegisters : HllSketch := ⟨.regular, 1, [0, 0], .zero, .zero, .zero⟩

/-- Registers 1 and 3 of four, and a delta to the second of two. -/
theorem sparse_codec_of_four :
    decodeSparseRegisters (encodeSparseRegisters [0, 5, 0, 7]) = some (.ok [0, 5, 0, 7]) ∧
    (DecodesExactly ⟨4, [1, 5, 2, 7]⟩ ↔ ¬Overflows 64 (sparseRange 4) 0 true [1, 5, 2, 7]) ∧
    (AppliesExactly twoRegisters [1, 5] ↔
      ¬Overflows 32 (fun _ => none) 0 true [1, 5] ∧ twoRegisters.GapsFit [1, 5]) :=
  sparse_codec [0, 5, 0, 7] (by decide) ⟨4, [1, 5, 2, 7]⟩ twoRegisters [1, 5]

/-- Behind index 1 a gap of 2^64 - 1 overflows the `usize`. A gap of 2^32 stays at index 1, which is
accepted and visited twice. -/
theorem index_visited_twice :
    decodeSparseRegisters ⟨4, [1, 5, 0xff, 0xff, 0xff, 0xff, 0xff, 0xff, 0xff, 0xff, 0xff, 1, 7]⟩ =
      none ∧
    HllSketch.unpackChecked [1, 5, 0x80, 0x80, 0x80, 0x80, 0x10, 7] =
      some (.ok [(1, 5), (1, 7)]) ∧
    (twoRegisters.applyPacked [1, 5, 0x80, 0x80, 0x80, 0x80, 0x10, 7]).map Prod.snd = some .ok ∧
    ¬AppliesExactly twoRegisters [1, 5, 0x80, 0x80, 0x80, 0x80, 0x10, 7] := by
  refine ⟨by decide +kernel, by decide +kernel, by decide +kernel, fun exactly => ?_⟩
  obtain ⟨-, gapsFit⟩ := (twoRegisters.appliesExactly_iff _).mp exactly
  have reads : Reads [1, 5, 0x80, 0x80, 0x80, 0x80, 0x10, 7] [(1, 5), (2 ^ 32, 7)] [] :=
    .cons rfl rfl (.cons rfl rfl (.nil []))
  have fits := gapsFit _ reads ⟨by decide, by decide, rfl, by decide, by decide, by decide, rfl,
    by decide, trivial⟩ (by decide) (2 ^ 32, 7) (List.mem_cons_of_mem _ List.mem_cons_self)
  exact lt_irrefl _ fits

end Portable

end AsapSketchlib
