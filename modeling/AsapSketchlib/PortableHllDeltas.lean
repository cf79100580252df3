/-
This file proves what a delta of the portable HyperLogLog does: it carries the registers that
increased, the varint form and the MessagePack form both decode to it, and applied to the
snapshot it gives the pointwise maximum of the two register arrays.
-/

import AsapSketchlib.PortableRejections

namespace AsapSketchlib

namespace Portable

theorem pairwise_zipIdx {Elem : Type} (elems : List Elem) :
    elems.zipIdx.Pairwise fun earlier later => earlier.2 < later.2 := by
  have indexes : (elems.zipIdx.map Prod.snd).Pairwise (· < ·) := by
    rw [List.zipIdx_map_snd]
    exact List.pairwise_lt_range'
  exact List.pairwise_map.mp indexes

namespace HllSketch

variable {sketch snapshot : HllSketch}

/-! ### The registers that increased -/

theorem mem_increased_iff (lengths : snapshot.registers.length = sketch.registers.length)
    (update : ℕ × UInt8) : update ∈ sketch.increased snapshot ↔
      ∃ old, snapshot.registers[update.1]? = some old ∧
        sketch.registers[update.1]? = some update.2 ∧ old < update.2 := by
  unfold increased
  rw [List.mem_filterMap]
  constructor
  · rintro ⟨⟨new, i⟩, member, carried⟩
    have newEq := List.mem_zipIdx_iff_getElem?.mp member
    have bound : i < snapshot.registers.length :=
      lengths ▸ (List.getElem?_eq_some_iff.mp newEq).1
    have oldEq := List.getElem?_eq_getElem bound
    simp only [oldEq] at carried
    split at carried
    · next less =>
      obtain rfl := Option.some.inj carried
      exact ⟨_, oldEq, newEq, less⟩
    · exact absurd carried.symm (Option.some_ne_none update)
  · rintro ⟨old, oldEq, newEq, less⟩
    refine ⟨(update.2, update.1), List.mem_zipIdx_iff_getElem?.mpr newEq, ?_⟩
    simp only [oldEq, if_pos less]

theorem pairwise_increased (sketch snapshot : HllSketch) :
    (sketch.increased snapshot).Pairwise fun earlier later => earlier.1 < later.1 := by
  unfold increased
  refine List.pairwise_filterMap.mpr ((pairwise_zipIdx sketch.registers).imp ?_)
  intro earlier later less first firstEq second secondEq
  have firstIndex : first.1 = earlier.2 := by
    split at firstEq <;> split at firstEq
    all_goals first
      | rw [← Option.some.inj firstEq]
      | exact absurd firstEq.symm (Option.some_ne_none first)
  have secondIndex : second.1 = later.2 := by
    split at secondEq <;> split at secondEq
    all_goals first
      | rw [← Option.some.inj secondEq]
      | exact absurd secondEq.symm (Option.some_ne_none second)
  rw [firstIndex, secondIndex]
  exact less

/-! ### Unpacking what was packed -/

theorem length_le_packFrom (prev : ℕ) (updates : List (ℕ × UInt8)) :
    updates.length ≤ (packFrom prev updates).length := by
  induction updates generalizing prev with
  | nil => exact Nat.zero_le _
  | cons update rest hypothesis =>
    have some := List.length_pos_iff.mpr (Uvarint.write_ne_nil (update.1 - prev))
    have later := hypothesis update.1
    unfold packFrom
    rw [List.length_cons, List.length_append, List.length_append]
    omega

theorem unpackFrom_packFrom {updates : List (ℕ × UInt8)} {rounds prev : ℕ} {first : Bool}
    (enough : updates.length ≤ rounds)
    (ascending : updates.Pairwise fun earlier later => earlier.1 < later.1)
    (after : ∀ update ∈ updates, prev ≤ update.1 ∧ (first = false → prev < update.1))
    (fits : ∀ update ∈ updates, update.1 < 2 ^ 32) :
    unpackFrom rounds (packFrom prev updates) prev first = .ok updates := by
  induction updates generalizing rounds prev first with
  | nil => cases rounds <;> rfl
  | cons update rest hypothesis =>
    obtain ⟨i, val⟩ := update
    obtain ⟨earlier, ascendingRest⟩ := List.pairwise_cons.mp ascending
    obtain ⟨firstAfter, restAfter⟩ := List.forall_mem_cons.mp after
    obtain ⟨firstFits, restFits⟩ := List.forall_mem_cons.mp fits
    obtain ⟨rounds, rfl⟩ : ∃ more, rounds = more + 1 :=
      ⟨rounds - 1, by rw [List.length_cons] at enough; omega⟩
    have gapFits : i - prev < 2 ^ 64 := by
      have bound : i < 2 ^ 32 := firstFits
      omega
    have valFits : val.toNat < 2 ^ 64 := by
      have bound := UInt8.toNat_lt val
      omega
    have occupied : (packFrom prev ((i, val) :: rest)).isEmpty = false := by
      unfold packFrom
      rw [List.append_assoc]
      exact List.isEmpty_eq_false_iff.mpr
        (List.append_ne_nil_of_left_ne_nil (Uvarint.write_ne_nil _) _)
    have index : (prev + (i - prev) % 2 ^ 32) % 2 ^ 32 = i := by
      have le : prev ≤ i := firstAfter.1
      have bound : i < 2 ^ 32 := firstFits
      omega
    have increasing : ¬(!first ∧ i - prev = 0) := by
      rintro ⟨notFirst, same⟩
      have less := firstAfter.2 (by simpa using notFirst)
      omega
    have small : ¬0xff < val.toNat := by
      have bound := UInt8.toNat_lt val
      omega
    unfold unpackFrom
    rw [occupied]
    unfold packFrom
    rw [List.append_assoc, Uvarint.read_write gapFits]
    simp only [List.drop_left, Uvarint.read_write valFits, Bool.false_eq_true, if_false, index,
      if_neg increasing, if_neg small]
    have later : unpackFrom rounds (packFrom i rest) i false = .ok rest := by
      refine hypothesis ?_ ascendingRest (fun other member => ?_) restFits
      · rw [List.length_cons] at enough
        exact Nat.le_of_succ_le_succ enough
      · exact ⟨le_of_lt (earlier other member), fun _ => earlier other member⟩
    rw [later, UInt8.ofNat_toNat]
    rfl

theorem unpack_packFrom (fits : sketch.registers.length ≤ 2 ^ 32)
    (lengths : snapshot.registers.length = sketch.registers.length) :
    unpack (packFrom 0 (sketch.increased snapshot)) = .ok (sketch.increased snapshot) := by
  refine unpackFrom_packFrom (length_le_packFrom 0 _) (pairwise_increased sketch snapshot)
    (fun update _ => ⟨Nat.zero_le _, fun notFirst => absurd notFirst (by decide)⟩) ?_
  intro update member
  obtain ⟨_, -, newEq, -⟩ := (mem_increased_iff lengths update).mp member
  exact (List.getElem?_eq_some_iff.mp newEq).1.trans_le fits

/-! ### Applying a delta -/

theorem applyUpdates_ok {updates : List (ℕ × UInt8)}
    (inside : ∀ update ∈ updates, update.1 < sketch.registers.length) :
    sketch.applyUpdates updates =
      ({ sketch with registers := updates.foldl raise sketch.registers }, .ok) := by
  induction updates generalizing sketch with
  | nil => rfl
  | cons update rest hypothesis =>
    obtain ⟨first, others⟩ := List.forall_mem_cons.mp inside
    unfold applyUpdates
    simp only [if_neg (not_le.mpr first)]
    have length : (raise sketch.registers update).length = sketch.registers.length :=
      List.length_modify _ _ _
    exact hypothesis fun other member => (others other member).trans_eq length.symm

theorem foldl_raise_cases {updates : List (ℕ × UInt8)} {registers : List UInt8} {i : ℕ}
    {old new : UInt8} (before : registers[i]? = some old)
    (after : (updates.foldl raise registers)[i]? = some new) :
    new = old ∨ (i, new) ∈ updates := by
  induction updates generalizing registers old with
  | nil =>
    rw [List.foldl_nil, before] at after
    exact Or.inl (Option.some.inj after).symm
  | cons update rest hypothesis =>
    have step : (raise registers update)[i]? =
        some (if update.1 = i ∧ old < update.2 then update.2 else old) := by
      rw [getElem?_raise, before]
      rfl
    rcases hypothesis step after with same | later
    · split at same
      · next raised =>
        rw [same, ← raised.1]
        exact Or.inr List.mem_cons_self
      · exact Or.inl same
    · exact Or.inr (List.mem_cons_of_mem update later)

@[simp] theorem length_foldl_raise (updates : List (ℕ × UInt8)) (registers : List UInt8) :
    (updates.foldl raise registers).length = registers.length := by
  induction updates generalizing registers with
  | nil => rfl
  | cons update rest hypothesis =>
    rw [List.foldl_cons, hypothesis]
    exact List.length_modify _ _ _

/-- The registers that increased, applied to the snapshot, give the maximum. -/
theorem foldl_raise_increased (lengths : snapshot.registers.length = sketch.registers.length) :
    (sketch.increased snapshot).foldl raise snapshot.registers =
      List.zipWith max snapshot.registers sketch.registers := by
  refine List.ext_getElem (by simp [lengths]) fun i left right => ?_
  rw [length_foldl_raise] at left
  have oldEq := List.getElem?_eq_getElem left
  have newEq := List.getElem?_eq_getElem (left.trans_eq lengths)
  obtain ⟨result, after, le, larger⟩ := le_foldl_raise (sketch.increased snapshot) oldEq
  have resultEq := (List.getElem?_eq_some_iff.mp after).2
  rw [resultEq, List.getElem_zipWith]
  by_cases less : snapshot.registers[i] < sketch.registers[i]
  · have carried : (i, sketch.registers[i]) ∈ sketch.increased snapshot :=
      (mem_increased_iff lengths _).mpr ⟨_, oldEq, newEq, less⟩
    have atLeast := larger _ carried rfl
    have maximum : max snapshot.registers[i] sketch.registers[i] = sketch.registers[i] :=
      if_pos (UInt8.le_of_lt less)
    rw [maximum]
    rcases foldl_raise_cases oldEq after with rfl | member
    · exact absurd less (UInt8.not_lt.mpr atLeast)
    · obtain ⟨_, -, setEq, -⟩ := (mem_increased_iff lengths _).mp member
      exact Option.some.inj (setEq.symm.trans newEq)
  · have maximum : max snapshot.registers[i] sketch.registers[i] = snapshot.registers[i] := by
      by_cases equal : snapshot.registers[i] ≤ sketch.registers[i]
      · exact (if_pos equal).trans (UInt8.le_antisymm (UInt8.not_lt.mp less) equal)
      · exact if_neg equal
    rw [maximum]
    rcases foldl_raise_cases oldEq after with rfl | member
    · rfl
    · obtain ⟨_, foundEq, setEq, raised⟩ := (mem_increased_iff lengths _).mp member
      obtain rfl := Option.some.inj (foundEq.symm.trans oldEq)
      obtain rfl := Option.some.inj (setEq.symm.trans newEq)
      exact absurd raised less

/-- The snapshot with the pointwise maximum of the two register arrays. -/
def maximum (snapshot sketch : HllSketch) : HllSketch :=
  { snapshot with registers := List.zipWith max snapshot.registers sketch.registers }

theorem applyDelta_increased (lengths : snapshot.registers.length = sketch.registers.length) :
    snapshot.applyDelta ⟨sketch.increased snapshot⟩ = (snapshot.maximum sketch, .ok) := by
  unfold applyDelta maximum
  rw [applyUpdates_ok, foldl_raise_increased lengths]
  intro update member
  obtain ⟨_, oldEq, -, -⟩ := (mem_increased_iff lengths update).mp member
  exact (List.getElem?_eq_some_iff.mp oldEq).1

/-! ### Round trips -/

theorem applyDeltaBytes_computeDelta {prost : Prost ProtoDelta} (threshold : ℕ)
    (fits : sketch.registers.length ≤ 2 ^ 32)
    (lengths : snapshot.registers.length = sketch.registers.length)
    (roundTrips : prost.RoundTrips (sketch.protoDelta snapshot)) :
    snapshot.applyDeltaBytes prost (sketch.computeDelta prost snapshot threshold) =
      (snapshot.maximum sketch, .ok) := by
  have decoded : decodeDelta prost (sketch.computeDelta prost snapshot threshold) =
      .ok ⟨sketch.increased snapshot⟩ := by
    unfold decodeDelta computeDelta
    rw [roundTrips]
    show (unpack (packFrom 0 (sketch.increased snapshot)) >>= _) = _
    rw [unpack_packFrom fits lengths]
    rfl
  unfold applyDeltaBytes
  rw [decoded]
  exact applyDelta_increased lengths

theorem applyDeltaMsgpackBytes_computeDelta {rmp : RmpSerde (List ℕ × List UInt8)}
    (threshold : ℕ) (fits : sketch.registers.length ≤ 2 ^ 32)
    (lengths : snapshot.registers.length = sketch.registers.length)
    (roundTrips : RoundTrips rmp (sketch.msgpackDelta snapshot)) :
    ∃ bytes, sketch.computeDeltaMsgpack rmp snapshot threshold = .ok bytes ∧
      snapshot.applyDeltaMsgpackBytes rmp bytes = (snapshot.maximum sketch, .ok) := by
  obtain ⟨bytes, written, read⟩ := fromMsgpack_of_roundTrips roundTrips
  refine ⟨bytes, ?_, ?_⟩
  · unfold computeDeltaMsgpack
    rw [written]
    rfl
  · have indexes : (sketch.increased snapshot).map (fun update => (update.1 % 2 ^ 32, update.2)) =
        sketch.increased snapshot := by
      refine (List.map_congr_left fun update member => ?_).trans (List.map_id _)
      obtain ⟨_, -, newEq, -⟩ := (mem_increased_iff lengths update).mp member
      have bound := (List.getElem?_eq_some_iff.mp newEq).1.trans_le fits
      exact Prod.ext (Nat.mod_eq_of_lt bound) rfl
    have decoded : decodeDeltaMsgpack rmp bytes = .ok ⟨sketch.increased snapshot⟩ := by
      unfold decodeDeltaMsgpack
      rw [read]
      unfold msgpackDelta deltaWire
      rw [indexes]
      have zipped : ((sketch.increased snapshot).map Prod.fst).zip
          ((sketch.increased snapshot).map Prod.snd) = sketch.increased snapshot :=
        (List.zip_of_prod rfl rfl).symm
      show Except.ok (HllSketchDelta.mk _) = _
      rw [zipped]
    unfold applyDeltaMsgpackBytes
    rw [decoded]
    exact applyDelta_increased lengths

end HllSketch

end Portable

end AsapSketchlib
