/-
This file proves what a rejected delta leaves behind. The appliers of Count-Min and DDSketch
reject a delta before they publish anything, and so does every merge. Those of HyperLogLog and
of the Count Sketch stop in the middle of a list: the state is as before the call exactly where
the updates in front of the rejected one change nothing.
-/

import AsapSketchlib.PortableDdSketch
import AsapSketchlib.PortableMatrix

namespace AsapSketchlib

namespace Portable

theorem getElem?_modify_eq_map {Elem : Type} (change : Elem → Elem) (index : ℕ) (elems : List Elem)
    (i : ℕ) : (elems.modify index change)[i]? =
      (elems[i]?).map fun elem => if index = i then change elem else elem := by
  rw [List.getElem?_modify]
  by_cases here : index = i
  · simp only [here, if_true, Option.map_eq_map]
  · simp only [here, if_false, Option.map_eq_map]

/-! ### HyperLogLog -/

namespace HllSketch

/-- The updates in front of the first that is out of range. -/
def accepted (sketch : HllSketch) (updates : List (ℕ × UInt8)) : List (ℕ × UInt8) :=
  updates.takeWhile fun update => update.1 < sketch.registers.length

/-- No update in front of the first that is out of range exceeds its register. -/
def Keeps (sketch : HllSketch) (delta : HllSketchDelta) : Prop :=
  ∀ update ∈ sketch.accepted delta.updates, ∀ old, sketch.registers[update.1]? = some old →
    update.2 ≤ old

theorem getElem?_raise (registers : List UInt8) (update : ℕ × UInt8) (i : ℕ) :
    (raise registers update)[i]? = (registers[i]?).map fun old =>
      if update.1 = i ∧ old < update.2 then update.2 else old := by
  unfold raise
  rw [getElem?_modify_eq_map]
  refine congrArg (fun change => Option.map change registers[i]?) (funext fun old => ?_)
  by_cases here : update.1 = i
  · simp only [here, if_true, true_and]
  · rw [if_neg here, if_neg fun raised => here raised.1]

theorem le_foldl_raise (updates : List (ℕ × UInt8)) {registers : List UInt8} {i : ℕ} {old : UInt8}
    (before : registers[i]? = some old) :
    ∃ new, (updates.foldl raise registers)[i]? = some new ∧ old ≤ new ∧
      ∀ update ∈ updates, update.1 = i → update.2 ≤ new := by
  induction updates generalizing registers old with
  | nil => exact ⟨old, before, UInt8.le_refl old, fun _ member => absurd member List.not_mem_nil⟩
  | cons update rest hypothesis =>
    have step : (raise registers update)[i]? =
        some (if update.1 = i ∧ old < update.2 then update.2 else old) := by
      rw [getElem?_raise, before]
      rfl
    obtain ⟨new, after, le, larger⟩ := hypothesis step
    have grown : old ≤ (if update.1 = i ∧ old < update.2 then update.2 else old) ∧
        (update.1 = i → update.2 ≤ if update.1 = i ∧ old < update.2 then update.2 else old) := by
      split
      · next raised => exact ⟨UInt8.le_of_lt raised.2, fun _ => UInt8.le_refl _⟩
      · next stays =>
        exact ⟨UInt8.le_refl _, fun here => UInt8.not_lt.mp fun less => stays ⟨here, less⟩⟩
    refine ⟨new, after, UInt8.le_trans grown.1 le, ?_⟩
    intro other member here
    rcases List.mem_cons.mp member with rfl | later
    · exact UInt8.le_trans (grown.2 here) le
    · exact larger other later here

theorem foldl_raise_eq_self_iff {updates : List (ℕ × UInt8)} {registers : List UInt8} :
    updates.foldl raise registers = registers ↔
      ∀ update ∈ updates, ∀ old, registers[update.1]? = some old → update.2 ≤ old := by
  constructor
  · intro unchanged update member old before
    obtain ⟨new, after, -, larger⟩ := le_foldl_raise updates before
    rw [unchanged, before] at after
    obtain rfl := Option.some.inj after
    exact larger update member rfl
  · intro small
    induction updates with
    | nil => rfl
    | cons update rest hypothesis =>
      have same : raise registers update = registers := by
        refine List.ext_getElem? fun i => ?_
        rw [getElem?_raise]
        cases before : registers[i]? with
        | none => rfl
        | some old =>
          rw [Option.map_some, if_neg]
          rintro ⟨rfl, less⟩
          exact UInt8.not_lt.mpr (small update List.mem_cons_self old before) less
      rw [List.foldl_cons, same]
      exact hypothesis fun other member => small other (List.mem_cons_of_mem _ member)

theorem applyUpdates_err {sketch sketch' : HllSketch} {updates : List (ℕ × UInt8)}
    {message : String} (rejected : sketch.applyUpdates updates = (sketch', .err message)) :
    sketch' = { sketch with
      registers := (sketch.accepted updates).foldl raise sketch.registers } := by
  induction updates generalizing sketch with
  | nil => exact absurd (Prod.mk.inj rejected).2 (by simp)
  | cons update rest hypothesis =>
    unfold applyUpdates at rejected
    unfold accepted
    by_cases outside : sketch.registers.length ≤ update.1
    · rw [List.takeWhile_cons_of_neg (by simpa using outside)]
      simp only [if_pos outside, Prod.mk.injEq] at rejected
      exact rejected.1.symm
    · rw [List.takeWhile_cons_of_pos (by simpa using outside)]
      simp only [if_neg outside] at rejected
      have later := hypothesis rejected
      have length : (raise sketch.registers update).length = sketch.registers.length :=
        List.length_modify _ _ _
      unfold accepted at later
      rw [length] at later
      exact later

theorem applyDelta_err_iff {sketch sketch' : HllSketch} {delta : HllSketchDelta}
    {message : String} (rejected : sketch.applyDelta delta = (sketch', .err message)) :
    sketch' = sketch ↔ sketch.Keeps delta := by
  rw [applyUpdates_err rejected]
  unfold Keeps
  rw [← foldl_raise_eq_self_iff]
  constructor
  · intro same
    exact congrArg HllSketch.registers same
  · intro same
    rw [same]

theorem merge_err {sketch other sketch' : HllSketch} {message : String}
    (rejected : sketch.merge other = (sketch', .err message)) : sketch' = sketch := by
  unfold merge at rejected
  split at rejected
  · exact (Prod.mk.inj rejected).1.symm
  · split at rejected
    · exact (Prod.mk.inj rejected).1.symm
    · split at rejected
      · exact (Prod.mk.inj rejected).1.symm
      · dsimp only at rejected
        split at rejected
        · exact absurd (Prod.mk.inj rejected).2 (by simp)
        · exact absurd (Prod.mk.inj rejected).2 (by simp)

end HllSketch

/-! ### Matrices -/

section

variable {matrix added : List (List F64)} {row col : ℕ} {value : F64}
  (addition : addAt matrix row col value = some added)

include addition

theorem cellAt_addAt (r c : ℕ) :
    cellAt added r c = (cellAt matrix r c).map fun cell =>
      if row = r ∧ col = c then cell.add value else cell := by
  obtain ⟨_, -, rfl⟩ := Option.map_eq_some_iff.mp addition
  unfold cellAt
  rw [getElem?_modify_eq_map]
  cases matrix[r]? with
  | none => rfl
  | some cells =>
    rw [Option.map_some, Option.bind_some, Option.bind_some]
    by_cases here : row = r
    · rw [if_pos here, getElem?_modify_eq_map]
      simp only [here, true_and]
    · simp only [here, if_false, false_and, Option.map_id']

theorem map_length_addAt : added.map List.length = matrix.map List.length := by
  obtain ⟨_, -, rfl⟩ := Option.map_eq_some_iff.mp addition
  refine List.ext_getElem? fun r => ?_
  rw [List.getElem?_map, List.getElem?_map, getElem?_modify_eq_map, Option.map_map]
  refine congrArg (fun change => Option.map change matrix[r]?) (funext fun cells => ?_)
  show (if row = r then cells.modify col _ else cells).length = cells.length
  split
  · exact List.length_modify _ _ _
  · rfl

end

theorem matrix_ext {left right : List (List F64)}
    (shape : left.map List.length = right.map List.length)
    (cells : ∀ r c, cellAt left r c = cellAt right r c) : left = right := by
  refine List.ext_getElem? fun r => ?_
  have lengths := congrArg (fun shape => shape[r]?) shape
  simp only [List.getElem?_map] at lengths
  cases leftRow : left[r]? with
  | none =>
    rw [leftRow, Option.map_none] at lengths
    exact (Option.map_eq_none_iff.mp lengths.symm).symm
  | some leftCells =>
    rw [leftRow, Option.map_some] at lengths
    obtain ⟨rightCells, rightRow, -⟩ := Option.map_eq_some_iff.mp lengths.symm
    rw [rightRow]
    refine congrArg some (List.ext_getElem? fun c => ?_)
    have cell := cells r c
    unfold cellAt at cell
    rw [leftRow, rightRow] at cell
    exact cell

def addAll (matrix : List (List F64)) (cells : List (ℕ × ℕ × ℤ)) : Option (List (List F64)) :=
  cells.foldlM (fun matrix cell => addAt matrix cell.1 cell.2.1 (F64.ofInt cell.2.2)) matrix

def addTo (row col : ℕ) (value : F64) (cells : List (ℕ × ℕ × ℤ)) : F64 :=
  (cells.filter fun cell => cell.1 = row ∧ cell.2.1 = col).foldl
    (fun value cell => value.add (F64.ofInt cell.2.2)) value

theorem addTo_cons (row col : ℕ) (value : F64) (cell : ℕ × ℕ × ℤ) (rest : List (ℕ × ℕ × ℤ)) :
    addTo row col value (cell :: rest) = addTo row col
      (if cell.1 = row ∧ cell.2.1 = col then value.add (F64.ofInt cell.2.2) else value) rest := by
  unfold addTo
  by_cases here : cell.1 = row ∧ cell.2.1 = col
  · rw [List.filter_cons_of_pos (by simpa using here), if_pos here, List.foldl_cons]
  · rw [List.filter_cons_of_neg (by simpa using here), if_neg here]

section

variable {matrix added : List (List F64)} {cells : List (ℕ × ℕ × ℤ)}
  (addition : addAll matrix cells = some added)

include addition

theorem cellAt_addAll (r c : ℕ) :
    cellAt added r c = (cellAt matrix r c).map fun value => addTo r c value cells := by
  induction cells generalizing matrix with
  | nil =>
    obtain rfl := Option.some.inj addition
    cases cellAt matrix r c <;> rfl
  | cons cell rest hypothesis =>
    obtain ⟨next, first, later⟩ := Option.bind_eq_some_iff.mp addition
    rw [hypothesis later, cellAt_addAt first, Option.map_map]
    simp only [addTo_cons]
    rfl

theorem map_length_addAll : added.map List.length = matrix.map List.length := by
  induction cells generalizing matrix with
  | nil =>
    obtain rfl := Option.some.inj addition
    rfl
  | cons cell rest hypothesis =>
    obtain ⟨next, first, later⟩ := Option.bind_eq_some_iff.mp addition
    rw [hypothesis later, map_length_addAt first]

theorem addAll_eq_self_iff :
    added = matrix ↔ ∀ r c value, cellAt matrix r c = some value →
      addTo r c value cells = value := by
  constructor
  · rintro rfl r c value found
    have after := cellAt_addAll addition r c
    rw [found, Option.map_some] at after
    exact (Option.some.inj after).symm
  · intro settled
    refine matrix_ext (map_length_addAll addition) fun r c => ?_
    rw [cellAt_addAll addition]
    cases found : cellAt matrix r c with
    | none => rfl
    | some value => rw [Option.map_some, settled r c value found]

end

/-! ### Count Sketch -/

namespace CountSketch

variable {hash64 : String → BitVec 64}

/-- The cells in front of the first that is out of range. -/
def accepted (sketch : CountSketch) (cells : List (ℕ × ℕ × ℤ)) : List (ℕ × ℕ × ℤ) :=
  cells.takeWhile fun cell => cell.1 < sketch.rows ∧ cell.2.1 < sketch.cols

/-- The counts in front of the first cell that is out of range add up to nothing: each cell of
the matrix ends at the value it had. -/
def Keeps (sketch : CountSketch) (delta : CountSketchDelta) : Prop :=
  ∀ r c value, cellAt sketch.matrix r c = some value →
    addTo r c value (sketch.accepted delta.cells) = value

section

variable {sketch sketch' : CountSketch}

theorem addCells_err {cells : List (ℕ × ℕ × ℤ)} {message : String}
    (rejected : sketch.addCells cells = (sketch', .err message)) :
    ∃ matrix, addAll sketch.matrix (sketch.accepted cells) = some matrix ∧
      sketch' = { sketch with matrix := matrix } := by
  induction cells generalizing sketch with
  | nil => exact absurd (Prod.mk.inj rejected).2 (by simp)
  | cons cell rest hypothesis =>
    obtain ⟨r, c, dCount⟩ := cell
    unfold addCells at rejected
    unfold accepted
    by_cases outside : sketch.rows ≤ r ∨ sketch.cols ≤ c
    · have stops : ¬(r < sketch.rows ∧ c < sketch.cols) := by omega
      rw [List.takeWhile_cons_of_neg (by simpa using stops)]
      simp only [if_pos outside, Prod.mk.injEq] at rejected
      exact ⟨sketch.matrix, rfl, rejected.1.symm⟩
    · have inside : r < sketch.rows ∧ c < sketch.cols := by omega
      rw [List.takeWhile_cons_of_pos (by simpa using inside)]
      simp only [if_neg outside] at rejected
      cases added : addAt sketch.matrix r c (F64.ofInt dCount) with
      | none =>
        rw [added] at rejected
        exact absurd (Prod.mk.inj rejected).2 (by simp)
      | some next =>
        rw [added] at rejected
        obtain ⟨matrix, addition, rfl⟩ := hypothesis rejected
        refine ⟨matrix, ?_, rfl⟩
        unfold addAll
        rw [List.foldlM_cons]
        exact Option.bind_eq_some_iff.mpr ⟨next, added, addition⟩

theorem rebuildTopk_not_err {keys : List String} {message : String} :
    rebuildTopk hash64 sketch keys ≠ (sketch', .err message) := by
  induction keys generalizing sketch with
  | nil => exact fun rejected => absurd (Prod.mk.inj rejected).2 (by simp)
  | cons key rest hypothesis =>
    unfold rebuildTopk
    split
    · exact hypothesis
    · exact fun rejected => absurd (Prod.mk.inj rejected).2 (by simp)

theorem applyDelta_err_iff {delta : CountSketchDelta} {message : String}
    (rejected : sketch.applyDelta hash64 delta = (sketch', .err message)) :
    sketch' = sketch ↔ sketch.Keeps delta := by
  have cells : sketch.addCells delta.cells = (sketch', .err message) := by
    unfold applyDelta at rejected
    split at rejected
    · exact absurd rejected rebuildTopk_not_err
    · exact rejected
  obtain ⟨matrix, addition, rfl⟩ := addCells_err cells
  unfold Keeps
  rw [← addAll_eq_self_iff addition]
  constructor
  · intro same
    exact congrArg CountSketch.matrix same
  · intro same
    rw [same]

end

theorem merge_err {sketch other sketch' : CountSketch} {message : String}
    (rejected : sketch.merge other = (sketch', .err message)) : sketch' = sketch := by
  unfold merge at rejected
  split at rejected
  · exact (Prod.mk.inj rejected).1.symm
  · dsimp only at rejected
    split at rejected
    · exact absurd (Prod.mk.inj rejected).2 (by simp)
    · exact (Prod.mk.inj rejected).1.symm

end CountSketch

/-! ### Count-Min -/

namespace CountMinSketch

theorem applyDelta_err {cms cms' : CountMinSketch} {delta : CountMinSketchDelta}
    {message : String} (rejected : cms.applyDelta delta = (cms', .err message)) : cms' = cms := by
  unfold applyDelta at rejected
  split at rejected
  · exact (Prod.mk.inj rejected).1.symm
  · dsimp only at rejected
    split at rejected
    · exact absurd (Prod.mk.inj rejected).2 (by simp)
    · exact (Prod.mk.inj rejected).1.symm

theorem merge_err {cms other cms' : CountMinSketch} {message : String}
    (rejected : cms.merge other = (cms', .err message)) : cms' = cms := by
  unfold merge at rejected
  split at rejected
  · exact (Prod.mk.inj rejected).1.symm
  · split at rejected
    · exact (Prod.mk.inj rejected).1.symm
    · exact absurd (Prod.mk.inj rejected).2 (by simp)

end CountMinSketch

/-! ### DDSketch -/

namespace DdSketch

theorem applyDelta_err {sketch sketch' : DdSketch} {delta : DdSketchDelta} {message : String}
    (rejected : sketch.applyDelta delta = (sketch', .err message)) : sketch' = sketch := by
  unfold applyDelta at rejected
  dsimp only at rejected
  split at rejected
  · exact absurd (Prod.mk.inj rejected).2 (by simp)
  · exact (Prod.mk.inj rejected).1.symm

theorem merge_err {sketch other sketch' : DdSketch} {message : String}
    (rejected : sketch.merge other = (sketch', .err message)) : sketch' = sketch := by
  unfold merge at rejected
  dsimp only at rejected
  split at rejected
  · exact absurd (Prod.mk.inj rejected).2 (by simp)
  · exact (Prod.mk.inj rejected).1.symm

end DdSketch

/-! ### Rejections -/

/-- What rejections leave behind: a rejected delta leaves the state as it was exactly where the
condition holds of what was decoded, and a rejected merge always does. -/
structure Rejections {Sketch Delta : Type} (keeps : Sketch → Delta → Prop)
    (applyDelta : Sketch → Delta → Sketch × Returned)
    (decode decodeMsgpack : List UInt8 → Except String Delta)
    (applyDeltaBytes applyDeltaMsgpackBytes : Sketch → List UInt8 → Sketch × Returned)
    (merge : Sketch → Sketch → Sketch × Returned) : Prop where
  delta : ∀ sketch delta sketch' message, applyDelta sketch delta = (sketch', .err message) →
    (sketch' = sketch ↔ keeps sketch delta)
  bytes : ∀ sketch bytes sketch' message, applyDeltaBytes sketch bytes = (sketch', .err message) →
    (sketch' = sketch ↔ ∀ delta, decode bytes = .ok delta → keeps sketch delta)
  msgpack : ∀ sketch bytes sketch' message,
    applyDeltaMsgpackBytes sketch bytes = (sketch', .err message) →
      (sketch' = sketch ↔ ∀ delta, decodeMsgpack bytes = .ok delta → keeps sketch delta)
  merged : ∀ sketch other sketch' message, merge sketch other = (sketch', .err message) →
    sketch' = sketch

section

variable {Sketch Delta : Type} {keeps : Sketch → Delta → Prop}
  {apply : Sketch → Delta → Sketch × Returned}

theorem applyDecoded_err_iff
    (known : ∀ sketch delta sketch' message, apply sketch delta = (sketch', .err message) →
      (sketch' = sketch ↔ keeps sketch delta))
    {sketch sketch' : Sketch} {decoded : Except String Delta} {message : String}
    (rejected : applyDecoded apply sketch decoded = (sketch', .err message)) :
    sketch' = sketch ↔ ∀ delta, decoded = .ok delta → keeps sketch delta := by
  cases decoded with
  | error reason =>
    refine iff_of_true (Prod.mk.inj rejected).1.symm fun delta equal => ?_
    exact absurd equal (by simp)
  | ok delta =>
    rw [known sketch delta sketch' message rejected]
    constructor
    · intro keeps other equal
      rwa [← Except.ok.inj equal]
    · intro keeps
      exact keeps delta rfl

theorem rejections (decode decodeMsgpack : List UInt8 → Except String Delta)
    {merge : Sketch → Sketch → Sketch × Returned}
    (delta : ∀ sketch delta sketch' message, apply sketch delta = (sketch', .err message) →
      (sketch' = sketch ↔ keeps sketch delta))
    (merged : ∀ sketch other sketch' message, merge sketch other = (sketch', .err message) →
      sketch' = sketch) :
    Rejections keeps apply decode decodeMsgpack
      (fun sketch bytes => applyDecoded apply sketch (decode bytes))
      (fun sketch bytes => applyDecoded apply sketch (decodeMsgpack bytes)) merge where
  delta := delta
  bytes := fun _ _ _ _ rejected => applyDecoded_err_iff delta rejected
  msgpack := fun _ _ _ _ rejected => applyDecoded_err_iff delta rejected
  merged := merged

end

/-- After an error of HyperLogLog the state is as before exactly where no update in front of the
first out of range exceeds its register, after one of the Count Sketch exactly where the counts
in front of the first cell out of range leave each cell at its value, and after one of Count-Min,
of DDSketch or of a merge always. -/
theorem rejected_delta_unchanged_iff (hash64 : String → BitVec 64) :
    (∀ prost rmp, Rejections HllSketch.Keeps HllSketch.applyDelta (HllSketch.decodeDelta prost)
      (HllSketch.decodeDeltaMsgpack rmp) (HllSketch.applyDeltaBytes prost)
      (HllSketch.applyDeltaMsgpackBytes rmp) HllSketch.merge) ∧
    (∀ prost rmp, Rejections CountSketch.Keeps (CountSketch.applyDelta hash64)
      (CountSketch.decodeDelta prost) (CountSketch.decodeDeltaMsgpack rmp)
      (CountSketch.applyDeltaBytes hash64 prost) (CountSketch.applyDeltaMsgpackBytes hash64 rmp)
      CountSketch.merge) ∧
    (∀ prost rmp, Rejections (fun _ _ => True) CountMinSketch.applyDelta
      (CountMinSketch.decodeDelta prost) (CountMinSketch.decodeDeltaMsgpack rmp)
      (CountMinSketch.applyDeltaBytes prost) (CountMinSketch.applyDeltaMsgpackBytes rmp)
      CountMinSketch.merge) ∧
    ∀ (prost : Prost DdSketchDelta) rmp, Rejections (fun _ _ => True) DdSketch.applyDelta
      prost.decode (DdSketch.decodeDeltaMsgpack rmp) (DdSketch.applyDeltaBytes prost)
      (DdSketch.applyDeltaMsgpackBytes rmp) DdSketch.merge := by
  refine ⟨fun prost rmp => ?_, fun prost rmp => ?_, fun prost rmp => ?_, fun prost rmp => ?_⟩
  · exact rejections _ _ (fun _ _ _ _ rejected => HllSketch.applyDelta_err_iff rejected)
      fun _ _ _ _ rejected => HllSketch.merge_err rejected
  · exact rejections _ _ (fun _ _ _ _ rejected => CountSketch.applyDelta_err_iff rejected)
      fun _ _ _ _ rejected => CountSketch.merge_err rejected
  · exact rejections _ _
      (fun _ _ _ _ rejected => iff_of_true (CountMinSketch.applyDelta_err rejected) trivial)
      fun _ _ _ _ rejected => CountMinSketch.merge_err rejected
  · exact rejections _ _
      (fun _ _ _ _ rejected => iff_of_true (DdSketch.applyDelta_err rejected) trivial)
      fun _ _ _ _ rejected => DdSketch.merge_err rejected

/-- A delta whose second update is out of range: both sketches return an error, and keep the
first update. -/
theorem rejected_delta_changes :
    (∃ sketch' message,
      (HllSketch.mk .regular 1 [0, 0] F64.zero F64.zero F64.zero).applyDelta ⟨[(0, 5), (9, 1)]⟩ =
          (sketch', .err message) ∧
        sketch' ≠ .mk .regular 1 [0, 0] F64.zero F64.zero F64.zero) ∧
    ∃ sketch' message,
      (CountSketch.mk 1 1 [[F64.zero]] []).applyDelta (fun _ => 0)
          ⟨1, 1, [(0, 0, 1), (3, 0, 1)], [], []⟩ = (sketch', .err message) ∧
        sketch' ≠ .mk 1 1 [[F64.zero]] [] := by
  refine ⟨⟨_, _, rfl, ?_⟩, ?_⟩
  · intro same
    exact absurd (congrArg HllSketch.registers same) (by decide)
  · have rejected : ((CountSketch.mk 1 1 [[F64.zero]] []).applyDelta (fun _ => 0)
        ⟨1, 1, [(0, 0, 1), (3, 0, 1)], [], []⟩) =
          (.mk 1 1 [[F64.finite 1]] [],
            .err "CountSketchDelta cell (3,0) out of range (matrix=1x1)") := by
      decide +kernel
    refine ⟨_, _, rejected, fun same => ?_⟩
    exact absurd (congrArg CountSketch.matrix same) (by decide +kernel)

end Portable

end AsapSketchlib
