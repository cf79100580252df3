/-
This file puts the round trips of the deltas of the four portable sketches together. Both forms
of a delta are inverted by their appliers at every threshold: a cell of the result is the current
one, or that of the snapshot where the two differ by less than the threshold. HyperLogLog takes
the maximum instead.
-/

import AsapSketchlib.EnvelopeBlocks
import AsapSketchlib.PortableDdSketchDeltas
import AsapSketchlib.PortableMatrixRoundTrips

namespace AsapSketchlib

namespace Portable

/-! ### Round trips -/

/-- A delta of two sketches of one shape, written and applied to the older one in either form,
succeeds and leaves one and the same result. HyperLogLog gets the pointwise maximum of the
registers. The other sketches get the current cells, up to those that differ by less than the
threshold: none if it is at most one. -/
theorem delta_round_trips :
    (∀ (sketch snapshot : HllSketch) threshold prost rmp,
      sketch.registers.length ≤ 2 ^ 32 → snapshot.registers.length = sketch.registers.length →
      prost.RoundTrips (sketch.protoDelta snapshot) →
      RoundTrips rmp (sketch.msgpackDelta snapshot) →
      snapshot.applyDeltaBytes prost (sketch.computeDelta prost snapshot threshold) =
          (snapshot.maximum sketch, .ok) ∧
        ∃ bytes, sketch.computeDeltaMsgpack rmp snapshot threshold = .ok bytes ∧
          snapshot.applyDeltaMsgpackBytes rmp bytes = (snapshot.maximum sketch, .ok)) ∧
    (∀ (sketch snapshot : DdSketch) threshold prost rmp, DdSketch.Pair sketch snapshot →
      prost.RoundTrips (sketch.delta snapshot threshold) →
      RoundTrips rmp (DdSketch.deltaWire (sketch.delta snapshot threshold)) →
      ∃ result, DdSketch.WithinThreshold threshold result sketch snapshot ∧
        (threshold ≤ 1 → (∀ index,
          result.positive.countAt index = sketch.positive.countAt index ∧
            result.negative.countAt index = sketch.negative.countAt index) ∧
          result.zeroCount = sketch.zeroCount) ∧
        snapshot.applyDeltaBytes prost (sketch.computeDelta prost snapshot threshold) =
          (result, .ok) ∧
        ∃ bytes, sketch.computeDeltaMsgpack rmp snapshot threshold = .ok bytes ∧
          snapshot.applyDeltaMsgpackBytes rmp bytes = (result, .ok)) ∧
    (∀ hash64 (sketch snapshot : CountSketch) threshold prost rmp,
      CountSketch.Pair sketch snapshot →
      (∀ message, sketch.protoDelta snapshot threshold = some message →
        prost.RoundTrips message) →
      (∀ message, sketch.msgpackDelta snapshot threshold = some message →
        RoundTrips rmp message) →
      ∃ result, Restores sketch.rows sketch.cols threshold result sketch.matrix snapshot.matrix ∧
        (∃ bytes, sketch.computeDelta prost snapshot threshold = some (.ok bytes) ∧
          snapshot.applyDeltaBytes hash64 prost bytes =
            ({ snapshot with matrix := result }, .ok)) ∧
        ∃ bytes, sketch.computeDeltaMsgpack rmp snapshot threshold = some (.ok bytes) ∧
          snapshot.applyDeltaMsgpackBytes hash64 rmp bytes =
            ({ snapshot with matrix := result }, .ok)) ∧
    ∀ (cms snapshot : CountMinSketch) threshold prost rmp, CountMinSketch.Pair cms snapshot →
      (∀ message, cms.protoDelta snapshot threshold = some message →
        prost.RoundTrips message) →
      (∀ message, cms.msgpackDelta snapshot threshold = some message →
        RoundTrips rmp message) →
      ∃ result, Restores cms.rows cms.cols threshold result.sketch cms.sketch snapshot.sketch ∧
        (∃ bytes, cms.computeDelta prost snapshot threshold = some (.ok bytes) ∧
          snapshot.applyDeltaBytes prost bytes = (result, .ok)) ∧
        ∃ bytes, cms.computeDeltaMsgpack rmp snapshot threshold = some (.ok bytes) ∧
          snapshot.applyDeltaMsgpackBytes rmp bytes = (result, .ok) := by
  refine ⟨?_, ?_, ?_, ?_⟩
  · intro sketch snapshot threshold prost rmp fits lengths prostTrips rmpTrips
    exact ⟨HllSketch.applyDeltaBytes_computeDelta threshold fits lengths prostTrips,
      HllSketch.applyDeltaMsgpackBytes_computeDelta threshold fits lengths rmpTrips⟩
  · intro sketch snapshot threshold prost rmp pair prostTrips rmpTrips
    obtain ⟨result, within, applied⟩ := DdSketch.delta_round_trip pair prostTrips rmpTrips
    exact ⟨result, within, within.equal, applied⟩
  · intro hash64 sketch snapshot threshold prost rmp pair prostTrips rmpTrips
    exact CountSketch.delta_round_trip hash64 pair prostTrips rmpTrips
  · intro cms snapshot threshold prost rmp pair prostTrips rmpTrips
    obtain ⟨backend, restores, applied⟩ :=
      CountMinSketch.delta_round_trip pair prostTrips rmpTrips
    exact ⟨{ snapshot with backend := backend }, restores, applied⟩

/-! ### Sketches of one cell -/

/-- A codec at one message, whose bytes are known. -/
def Prost.single {Message : Type} (message : Message) (bytes : List UInt8) : Prost Message where
  encodeToVec _ := bytes
  decode read := if read = bytes then .ok message else .error "failed to decode Protobuf message"

theorem Prost.roundTrips_single {Message : Type} (message : Message) (bytes : List UInt8) :
    (Prost.single message bytes).RoundTrips message := if_pos rfl

def hllOf (first second : UInt8) : HllSketch :=
  .mk .regular 1 [first, second] F64.zero F64.zero F64.zero

def ddOf (counts : List UInt64) (offset : ℤ) (zeroCount : UInt64) : DdSketch :=
  ⟨F64.finite (1 / 100), ⟨counts, offset⟩, ⟨[], 0⟩, zeroCount⟩

def countSketchOf (cell : ℤ) : CountSketch := ⟨1, 1, [[F64.ofInt cell]], []⟩

def countMinOf (cell : ℤ) : CountMinSketch := ⟨1, 1, ⟨[F64.ofInt cell], 1, 1, rfl⟩⟩

theorem pair_ddOf : DdSketch.Pair (ddOf [2] 4 1) (ddOf [1] 4 0) where
  positive := {
    inI32 := ⟨by decide, by decide⟩
    grown := by
      intro index
      unfold DdStore.countAt ddOf
      dsimp only
      split
      · cases (index - 4).toNat with
        | zero => decide
        | succ more => exact UInt64.le_refl _
      · exact UInt64.le_refl _
    span := by decide }
  negative := {
    inI32 := ⟨by decide, by decide⟩
    grown := fun index => UInt64.le_refl _
    span := by decide }
  zeroCount := by decide

theorem matrixPair_single {cur snap : ℤ} (curExact : F64.Exact cur) (snapExact : F64.Exact snap)
    (exactly : F64.Exact (cur - snap)) :
    MatrixPair 1 1 [[F64.ofInt cur]] [[F64.ofInt snap]] where
  rowsFit := by decide
  colsFit := by decide
  currentShaped := ⟨rfl, by simp⟩
  snapshotShaped := ⟨rfl, by simp⟩
  integers := by
    intro row rowInside col colInside
    obtain rfl := Nat.lt_one_iff.mp rowInside
    obtain rfl := Nat.lt_one_iff.mp colInside
    exact ⟨cur, snap, rfl, rfl, curExact, snapExact, exactly⟩

/-- The sixty-four bits of `1.0`, from the lowest byte up. -/
def oneBytes : List UInt8 := [0, 0, 0, 0, 0, 0, 0xf0, 0x3f]

def countSketchMessage : CountSketchProtoDelta where
  rows := 1
  cols := 1
  cellsLegacy := []
  l2Legacy := []
  topk := none
  hhKeys := []
  cellRows := [0]
  cellCols := [0]
  dCounts := [1]
  l2 := [F64.ofInt 1]

def countMinMessage : CountMinProtoDelta where
  rows := 1
  cols := 1
  cellsLegacy := []
  l1 := [F64.ofInt 1]
  l2 := [F64.ofInt 1]
  hhKeys := []
  cellRows := [0]
  cellCols := [0]
  dCounts := [1]

def hllProst : Prost HllSketch.ProtoDelta := Prost.single ⟨[0, 3]⟩ [0x0a, 0x02, 0x00, 0x03]

def ddProst : Prost DdSketchDelta :=
  Prost.single ⟨[(4, 1)], [], 1⟩ [0x0a, 0x04, 0x08, 0x08, 0x10, 0x01, 0x88, 0x01, 0x01]

def countSketchProst : Prost CountSketchProtoDelta :=
  Prost.single countSketchMessage ([0x08, 0x01, 0x10, 0x01, 0x4a, 0x01, 0x00, 0x52, 0x01, 0x00,
    0x5a, 0x01, 0x02, 0x62, 0x08] ++ oneBytes)

def countMinProst : Prost CountMinProtoDelta :=
  Prost.single countMinMessage ([0x08, 0x01, 0x10, 0x01, 0x22, 0x08] ++ oneBytes ++
    [0x2a, 0x08] ++ oneBytes ++ [0x4a, 0x01, 0x00, 0x52, 0x01, 0x00, 0x5a, 0x01, 0x02])

def matrixRmp : RmpSerde MatrixWire :=
  singleRmp ⟨1, 1, [0], [0], [1]⟩ [0x95, 0x01, 0x01, 0x91, 0x00, 0x91, 0x00, 0x91, 0x01]

/-- The round trips at sketches of one or two cells, in the bytes of the crates. -/
theorem delta_round_trips_small :
    (hllOf 1 2).applyDeltaBytes hllProst ((hllOf 3 0).computeDelta hllProst (hllOf 1 2) 1) =
      (hllOf 3 2, .ok) ∧
    (∃ result, DdSketch.WithinThreshold 1 result (ddOf [2] 4 1) (ddOf [1] 4 0) ∧
      (ddOf [1] 4 0).applyDeltaBytes ddProst
        ((ddOf [2] 4 1).computeDelta ddProst (ddOf [1] 4 0) 1) = (result, .ok)) ∧
    (∃ bytes, (countSketchOf 1).computeDelta countSketchProst (countSketchOf 0) (F64.ofInt 1) =
        some (.ok bytes) ∧
      (countSketchOf 0).applyDeltaBytes (fun _ => 0) countSketchProst bytes =
        (countSketchOf 1, .ok)) ∧
    ∃ result, Restores 1 1 (F64.ofInt 1) result.sketch (countMinOf 1).sketch
        (countMinOf 0).sketch ∧
      ∃ bytes, (countMinOf 1).computeDelta countMinProst (countMinOf 0) (F64.ofInt 1) =
          some (.ok bytes) ∧
        (countMinOf 0).applyDeltaBytes countMinProst bytes = (result, .ok) := by
  obtain ⟨hll, dd, countSketch, countMin⟩ := delta_round_trips
  refine ⟨?_, ?_, ?_, ?_⟩
  · exact (hll (hllOf 3 0) (hllOf 1 2) 1 hllProst
      (singleRmp ([0], [3]) [0x92, 0x91, 0x00, 0x91, 0x03]) (by decide) rfl
      (Prost.roundTrips_single _ _) (roundTrips_singleRmp _ _)).1
  · obtain ⟨result, within, -, applied, -⟩ := dd (ddOf [2] 4 1) (ddOf [1] 4 0) 1 ddProst
      (singleRmp ⟨[4], [1], some ([], [], 1)⟩ [0x95, 0x91, 0x04, 0x91, 0x01, 0x90, 0x90, 0x01])
      pair_ddOf (Prost.roundTrips_single _ _) (roundTrips_singleRmp _ _)
    exact ⟨result, within, applied⟩
  · have written : (countSketchOf 1).protoDelta (countSketchOf 0) (F64.ofInt 1) =
        some countSketchMessage := by decide +kernel
    have packed : (countSketchOf 1).msgpackDelta (countSketchOf 0) (F64.ofInt 1) =
        some ⟨1, 1, [0], [0], [1]⟩ := by decide +kernel
    obtain ⟨result, restores, ⟨bytes, computed, applied⟩, -⟩ := countSketch (fun _ => 0)
      (countSketchOf 1) (countSketchOf 0) (F64.ofInt 1) countSketchProst matrixRmp
      ⟨rfl, rfl, matrixPair_single (by decide) (by decide) (by decide)⟩
      (fun message messageEq => by
        obtain rfl := Option.some.inj (written.symm.trans messageEq)
        exact Prost.roundTrips_single _ _)
      (fun message messageEq => by
        obtain rfl := Option.some.inj (packed.symm.trans messageEq)
        exact roundTrips_singleRmp _ _)
    obtain rfl := restores.equal (by decide +kernel)
    exact ⟨bytes, computed, applied⟩
  · have written : (countMinOf 1).protoDelta (countMinOf 0) (F64.ofInt 1) =
        some countMinMessage := by decide +kernel
    have packed : (countMinOf 1).msgpackDelta (countMinOf 0) (F64.ofInt 1) =
        some ⟨1, 1, [0], [0], [1]⟩ := by decide +kernel
    obtain ⟨result, restores, ⟨bytes, computed, applied⟩, -⟩ := countMin (countMinOf 1)
      (countMinOf 0) (F64.ofInt 1) countMinProst matrixRmp
      ⟨rfl, rfl, matrixPair_single (by decide) (by decide) (by decide)⟩
      (fun message messageEq => by
        obtain rfl := Option.some.inj (written.symm.trans messageEq)
        exact Prost.roundTrips_single _ _)
      (fun message messageEq => by
        obtain rfl := Option.some.inj (packed.symm.trans messageEq)
        exact roundTrips_singleRmp _ _)
    exact ⟨result, restores, bytes, computed, applied⟩

/-! ### Where a delta misses -/

def lateOne {Elem : Type} (zero one : Elem) (zeros : ℕ) : List Elem :=
  List.replicate zeros zero ++ [one]

theorem length_lateOne {Elem : Type} (zero one : Elem) (zeros : ℕ) :
    (lateOne zero one zeros).length = zeros + 1 := by
  unfold lateOne
  rw [List.length_append, List.length_replicate, List.length_singleton]

theorem getElem?_lateOne {Elem : Type} (zero one : Elem) (zeros i : ℕ) :
    (lateOne zero one zeros)[i]? =
      if i < zeros then some zero else if i = zeros then some one else none := by
  unfold lateOne
  rw [List.getElem?_append, List.length_replicate]
  split
  · next inside => exact List.getElem?_replicate_of_lt inside
  · next outside =>
    by_cases last : i = zeros
    · rw [last, Nat.sub_self, if_pos rfl]
      rfl
    · rw [if_neg last]
      exact List.getElem?_eq_none (by rw [List.length_singleton]; omega)

/-- A HyperLogLog of zeros but for the last register. -/
def lateHll (one : UInt8) (zeros : ℕ) : HllSketch :=
  .mk .regular 0 (lateOne 0 one zeros) F64.zero F64.zero F64.zero

theorem increased_lateHll (zeros : ℕ) :
    (lateHll 1 zeros).increased (lateHll 0 zeros) = [(zeros, 1)] := by
  have lengths : (lateHll 0 zeros).registers.length = (lateHll 1 zeros).registers.length :=
    (length_lateOne 0 0 zeros).trans (length_lateOne 0 1 zeros).symm
  have members : ∀ update, update ∈ (lateHll 1 zeros).increased (lateHll 0 zeros) ↔
      update ∈ [(zeros, (1 : UInt8))] := by
    intro update
    obtain ⟨i, new⟩ := update
    rw [HllSketch.mem_increased_iff lengths, List.mem_singleton, Prod.mk.injEq]
    show (∃ old, (lateOne 0 0 zeros)[i]? = some old ∧ (lateOne 0 1 zeros)[i]? = some new ∧
      old < new) ↔ _
    rw [getElem?_lateOne, getElem?_lateOne]
    constructor
    · rintro ⟨old, oldEq, newEq, less⟩
      split at oldEq
      · next inside =>
        rw [if_pos inside] at newEq
        rw [← Option.some.inj oldEq, ← Option.some.inj newEq] at less
        exact absurd less (by decide)
      · next outside =>
        split at oldEq
        · next last =>
          rw [if_neg outside, if_pos last] at newEq
          exact ⟨last, (Option.some.inj newEq).symm⟩
        · exact absurd oldEq.symm (Option.some_ne_none old)
    · rintro ⟨rfl, rfl⟩
      exact ⟨0, by simp, by simp, by decide⟩
  have ascending := HllSketch.pairwise_increased (lateHll 1 zeros) (lateHll 0 zeros)
  have distinct : ((lateHll 1 zeros).increased (lateHll 0 zeros)).Nodup :=
    ascending.imp fun less same => absurd (congrArg Prod.fst same) less.ne
  exact List.perm_singleton.mp
    ((List.perm_ext_iff_of_nodup distinct (List.nodup_singleton _)).mpr members)

def lateHllProst : Prost HllSketch.ProtoDelta :=
  Prost.single ⟨[0x80, 0x80, 0x80, 0x80, 0x10, 0x01]⟩
    [0x0a, 0x06, 0x80, 0x80, 0x80, 0x80, 0x10, 0x01]

theorem roundTrips_lateHllProst :
    lateHllProst.RoundTrips ((lateHll 1 (2 ^ 32)).protoDelta (lateHll 0 (2 ^ 32))) := by
  have packed : HllSketch.packFrom 0 [(2 ^ 32, 1)] = [0x80, 0x80, 0x80, 0x80, 0x10, 0x01] := by
    decide +kernel
  unfold HllSketch.protoDelta
  rw [increased_lateHll, packed]
  exact Prost.roundTrips_single _ _

theorem applyDeltaBytes_lateHllProst (current snapshot sketch : HllSketch) (threshold : ℕ) :
    sketch.applyDeltaBytes lateHllProst (current.computeDelta lateHllProst snapshot threshold) =
      sketch.applyDelta ⟨[(0, 1)]⟩ := rfl

theorem getElem?_applyDelta_lateHll {zeros : ℕ} (positive : 0 < zeros) :
    ((lateHll 0 zeros).applyDelta ⟨[(0, 1)]⟩).1.registers[0]? = some 1 := by
  unfold HllSketch.applyDelta
  rw [HllSketch.applyUpdates_ok]
  · show (HllSketch.raise (lateOne 0 0 zeros) (0, 1))[0]? = some 1
    rw [HllSketch.getElem?_raise, getElem?_lateOne, if_pos positive]
    rfl
  · intro update member
    obtain rfl := List.mem_singleton.mp member
    exact (Nat.succ_pos _).trans_eq (length_lateOne 0 0 zeros).symm

/-- A Count Sketch of one row, with zeros but for the last cell. -/
def lateCountSketch (one : F64) (zeros : ℕ) : CountSketch :=
  ⟨1, zeros + 1, [lateOne F64.zero one zeros], []⟩

theorem cellAt_lateCountSketch (one : F64) {zeros col : ℕ} (inside : col < zeros + 1) :
    cellAt (lateCountSketch one zeros).matrix 0 col =
      some (if col < zeros then F64.zero else one) := by
  show (lateOne F64.zero one zeros)[col]? = _
  rw [getElem?_lateOne]
  split
  · rfl
  · next outside => rw [if_pos (by omega)]

theorem msgpackDelta_lateCountSketch (zeros : ℕ) :
    (lateCountSketch (F64.ofInt 1) zeros).msgpackDelta (lateCountSketch F64.zero zeros)
      (F64.ofInt 1) = some ⟨1, (zeros + 1) % 2 ^ 32, [0], [zeros % 2 ^ 32], [1]⟩ := by
  have same : (F64.zero.sub F64.zero).asI64 = 0 := by decide +kernel
  have differs : ((F64.ofInt 1).sub F64.zero).asI64 = 1 := by decide +kernel
  have carried : CountSketch.Carried (F64.ofInt 1) 1 := by decide +kernel
  have row : places 1 (zeros + 1) =
      (List.range zeros).map (fun col => (0, col)) ++ [(0, zeros)] := by
    show (List.range (zeros + 1)).map (fun col => (0, col)) ++ [] = _
    rw [List.append_nil, List.range_succ, List.map_append]
    rfl
  have deltas : cellDeltas 1 (zeros + 1) (lateCountSketch (F64.ofInt 1) zeros).matrix
      (lateCountSketch F64.zero zeros).matrix = some ((places 1 (zeros + 1)).map fun place =>
        (0, place.2 % 2 ^ 32, if place.2 < zeros then 0 else 1)) := by
    refine mapM_eq_some fun place member => ?_
    obtain ⟨rowInside, colInside⟩ := mem_places_iff.mp member
    obtain rowZero := Nat.lt_one_iff.mp rowInside
    rw [rowZero, cellAt_lateCountSketch _ colInside, cellAt_lateCountSketch _ colInside]
    show some (0 % 2 ^ 32, place.2 % 2 ^ 32, _) = some (0, place.2 % 2 ^ 32, _)
    split
    · rw [same, Nat.zero_mod]
    · rw [differs, Nat.zero_mod]
  have kept : (((places 1 (zeros + 1)).map fun place =>
      (0, place.2 % 2 ^ 32, if place.2 < zeros then (0 : ℤ) else 1)).filter fun cell =>
        CountSketch.Carried (F64.ofInt 1) cell.2.2) = [(0, zeros % 2 ^ 32, 1)] := by
    rw [row, List.map_append, List.filter_append, List.filter_eq_nil_iff.mpr, List.nil_append]
    · show List.filter _ [(0, zeros % 2 ^ 32, if zeros < zeros then (0 : ℤ) else 1)] = _
      rw [if_neg (lt_irrefl zeros), List.filter_cons_of_pos (by simpa using carried)]
      rfl
    · intro cell member
      obtain ⟨place, placeMember, rfl⟩ := List.mem_map.mp member
      obtain ⟨col, colMember, rfl⟩ := List.mem_map.mp placeMember
      dsimp only
      rw [if_pos (List.mem_range.mp colMember)]
      exact fun chosen => (of_decide_eq_true chosen).1 rfl
  unfold CountSketch.msgpackDelta CountSketch.carriedCells
  show Option.map _ (Option.map _ (cellDeltas 1 (zeros + 1) _ _)) = _
  rw [deltas, Option.map_some, Option.map_some, kept]
  rfl

theorem applyDeltaMsgpackBytes_matrixRmp (hash64 : String → BitVec 64) (sketch : CountSketch) :
    sketch.applyDeltaMsgpackBytes hash64 matrixRmp
      [0x95, 0x01, 0x01, 0x91, 0x00, 0x91, 0x00, 0x91, 0x01] =
        sketch.applyDelta hash64 ⟨1, 1, [(0, 0, 1)], [], []⟩ := rfl

theorem applyDelta_lateCountSketch (hash64 : String → BitVec 64) (zeros : ℕ) :
    cellAt ((lateCountSketch F64.zero zeros).applyDelta hash64
      ⟨1, 1, [(0, 0, 1)], [], []⟩).1.matrix 0 0 = some (F64.ofInt 1) := by
  have first := cellAt_lateCountSketch F64.zero (Nat.succ_pos zeros)
  rw [ite_self] at first
  have inside : ∀ cell ∈ [((0 : ℕ), (0 : ℕ), (1 : ℤ))], ∃ value,
      cellAt (lateCountSketch F64.zero zeros).matrix cell.1 cell.2.1 = some value :=
    fun cell member => ⟨F64.zero, List.mem_singleton.mp member ▸ first⟩
  have ranges : ∀ cell ∈ [((0 : ℕ), (0 : ℕ), (1 : ℤ))], cell.1 < 1 ∧ cell.2.1 < zeros + 1 :=
    fun cell member => List.mem_singleton.mp member ▸ ⟨Nat.zero_lt_one, Nat.succ_pos _⟩
  have sum : addTo 0 0 F64.zero [(0, 0, 1)] = F64.ofInt 1 := by decide +kernel
  obtain ⟨added, addition⟩ := addAll_isSome inside
  unfold CountSketch.applyDelta
  rw [CountSketch.addCells_ok ranges addition]
  show cellAt added 0 0 = _
  rw [cellAt_addAll addition, first, Option.map_some, sum]

def emptyProst : Prost HllSketch.ProtoDelta := Prost.single ⟨[]⟩ []

def wrappedProst : Prost DdSketchDelta :=
  Prost.single ⟨[(-2 ^ 31, 5)], [], 0⟩
    [0x0a, 0x08, 0x08, 0xff, 0xff, 0xff, 0xff, 0x0f, 0x10, 0x05]

def nanProst : Prost CountMinProtoDelta :=
  Prost.single ⟨1, 1, [], [F64.ofInt 7], [F64.ofInt 49], [], [], [], []⟩
    [0x08, 0x01, 0x10, 0x01, 0x22, 0x08, 0, 0, 0, 0, 0, 0, 0x1c, 0x40, 0x2a, 0x08, 0, 0, 0, 0, 0,
      0x80, 0x48, 0x40]

/-- Differences that reach the threshold, and cells that are not restored: a register that is
larger in the snapshot, a threshold that is not a number, and indexes that do not fit the
integers of a delta. -/
theorem delta_round_trip_misses :
    (emptyProst.RoundTrips ((hllOf 3 0).protoDelta (hllOf 5 0)) ∧
      (hllOf 5 0).applyDeltaBytes emptyProst
        ((hllOf 3 0).computeDelta emptyProst (hllOf 5 0) 1) = (hllOf 5 0, .ok) ∧
      ¬(5 : ℤ) - 3 < 1) ∧
    (nanProst.RoundTrips ⟨1, 1, [], [F64.ofInt 7], [F64.ofInt 49], [], [], [], []⟩ ∧
      (countMinOf 7).protoDelta (countMinOf 0) .nan =
        some ⟨1, 1, [], [F64.ofInt 7], [F64.ofInt 49], [], [], [], []⟩ ∧
      ((countMinOf 0).applyDeltaBytes nanProst (nanProst.encodeToVec
        ⟨1, 1, [], [F64.ofInt 7], [F64.ofInt 49], [], [], [], []⟩)).1.sketch =
          (countMinOf 0).sketch ∧
      ¬((F64.ofInt 7).sub (F64.ofInt 0)).abs.Less .nan) ∧
    (wrappedProst.RoundTrips ((ddOf [0, 5] (2 ^ 31 - 1) 0).delta (ddOf [] 0 0) 1) ∧
      ((ddOf [] 0 0).applyDeltaBytes wrappedProst ((ddOf [0, 5] (2 ^ 31 - 1) 0).computeDelta
        wrappedProst (ddOf [] 0 0) 1)).1.positive.countAt (-2 ^ 31) = 5 ∧
      (ddOf [0, 5] (2 ^ 31 - 1) 0).positive.countAt (-2 ^ 31) = 0) ∧
    (lateHllProst.RoundTrips ((lateHll 1 (2 ^ 32)).protoDelta (lateHll 0 (2 ^ 32))) ∧
      ((lateHll 0 (2 ^ 32)).applyDeltaBytes lateHllProst ((lateHll 1 (2 ^ 32)).computeDelta
        lateHllProst (lateHll 0 (2 ^ 32)) 1)).1.registers[0]? = some 1 ∧
      (lateHll 1 (2 ^ 32)).registers[0]? = some 0) ∧
    ∃ message, (lateCountSketch (F64.ofInt 1) (2 ^ 32)).msgpackDelta
        (lateCountSketch F64.zero (2 ^ 32)) (F64.ofInt 1) = some message ∧
      RoundTrips matrixRmp message ∧
      ∃ bytes, matrixRmp.toVec message = .ok bytes ∧
        cellAt ((lateCountSketch F64.zero (2 ^ 32)).applyDeltaMsgpackBytes (fun _ => 0) matrixRmp
          bytes).1.matrix 0 0 = some (F64.ofInt 1) ∧
        cellAt (lateCountSketch (F64.ofInt 1) (2 ^ 32)).matrix 0 0 = some F64.zero := by
  refine ⟨⟨Prost.roundTrips_single _ _, rfl, by decide⟩,
    ⟨Prost.roundTrips_single _ _, by decide +kernel, by decide +kernel, by decide +kernel⟩,
    ⟨?_, by decide +kernel, by decide +kernel⟩, ⟨roundTrips_lateHllProst, ?_, ?_⟩, ?_⟩
  · have delta : (ddOf [0, 5] (2 ^ 31 - 1) 0).delta (ddOf [] 0 0) 1 = ⟨[(-2 ^ 31, 5)], [], 0⟩ := by
      decide +kernel
    rw [delta]
    exact Prost.roundTrips_single _ _
  · rw [applyDeltaBytes_lateHllProst]
    exact getElem?_applyDelta_lateHll (by decide)
  · exact (getElem?_lateOne 0 1 (2 ^ 32) 0).trans rfl
  · have wrapped : (2 ^ 32 + 1) % 2 ^ 32 = 1 ∧ 2 ^ 32 % 2 ^ 32 = 0 := by decide
    refine ⟨⟨1, 1, [0], [0], [1]⟩, ?_, roundTrips_singleRmp _ _, _, rfl, ?_, ?_⟩
    · rw [msgpackDelta_lateCountSketch, wrapped.1, wrapped.2]
    · rw [applyDeltaMsgpackBytes_matrixRmp]
      exact applyDelta_lateCountSketch _ _
    · rw [cellAt_lateCountSketch _ (Nat.succ_pos _), if_pos (by decide)]

end Portable

end AsapSketchlib
