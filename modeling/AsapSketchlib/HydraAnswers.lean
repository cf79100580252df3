/-
This file proves what the queries of a Hydra answer: no frequency of a subpopulation is too low.
The estimates of the rows are integers that `f64` holds, so their mean is exact, and the median
lies above what all of them lie above.
-/

import AsapSketchlib.HydraAccounting

namespace AsapSketchlib

variable (hasher : SketchHasher)

/-! ### Keys and grids -/

theorem KeySchema.resolveQuery_eq {schema : KeySchema} {key : List (Option String)}
    (width : key.length = schema.arity) (constrained : queryMask key ≠ 0) :
    schema.resolveQuery key = .ok (queryMask key, key.map fun slot => slot.getD "") := by
  have accepted : schema.checkArity key.length = .ok () := if_neg (not_not.mpr width)
  unfold resolveQuery
  rw [accepted]
  exact if_neg constrained

namespace Hydra

theorem eq_filled_of_withSchema {rows cols : ℕ} {labels : List String} {sketchType : CountMin}
    {hydra : Hydra} (created : withSchema rows cols labels sketchType = .ok hydra) :
    0 < cols ∧ ∃ schema, schema.labels = labels ∧ hydra = filled rows cols schema sketchType := by
  have kept : ∀ schema, KeySchema.tryFrom labels = .ok schema → schema.labels = labels := by
    intro schema accepted
    unfold KeySchema.tryFrom at accepted
    dsimp only at accepted
    split at accepted
    · exact absurd accepted (by simp)
    · split at accepted
      · exact absurd accepted (by simp)
      · split at accepted
        · exact absurd accepted (by simp)
        · rw [← Except.ok.inj accepted]
  unfold withSchema at created
  cases accepted : KeySchema.tryFrom labels with
  | error message =>
    rw [accepted] at created
    exact absurd created (by simp)
  | ok schema =>
    rw [accepted] at created
    dsimp only at created
    by_cases empty : cols = 0
    · rw [if_pos empty] at created
      exact absurd created (by simp)
    · rw [if_neg empty] at created
      exact ⟨Nat.pos_of_ne_zero empty, schema, kept schema accepted,
        (Except.ok.inj created).symm⟩

theorem withSchema_eq {rows cols : ℕ} {schema : KeySchema} {sketchType : CountMin}
    (colsPositive : 0 < cols) :
    withSchema rows cols schema.labels sketchType = .ok (filled rows cols schema sketchType) := by
  have accepted : KeySchema.tryFrom schema.labels = .ok schema := by
    unfold KeySchema.tryFrom
    dsimp only
    rw [dif_neg schema.nonempty, dif_neg (not_lt.mpr schema.few)]
    split
    · next label duplicate =>
      exact absurd (duplicateLabel_of_nodup schema.distinct) (duplicate ▸ Option.some_ne_none label)
    · rfl
  unfold withSchema
  rw [accepted]
  exact if_neg (Nat.ne_of_gt colsPositive)

/-! ### Medians -/

/-- An estimate of a row: an integer no less than the bound that fits a counter. -/
def RowBound (bound : ℤ) (estimate : ℚ) : Prop :=
  ∃ value : ℤ, estimate = value ∧ bound ≤ value ∧ value < 2 ^ 31

theorem RowBound.le_mean {bound : ℤ} {left right : ℚ} (nonneg : 0 ≤ bound)
    (leftBound : RowBound bound left) (rightBound : RowBound bound right) :
    (bound : ℚ) ≤ meanF64 left right := by
  obtain ⟨first, rfl, firstLow, firstHigh⟩ := leftBound
  obtain ⟨second, rfl, secondLow, secondHigh⟩ := rightBound
  have small : |first + second| < 2 ^ 53 := by
    rw [abs_of_nonneg (add_nonneg (nonneg.trans firstLow) (nonneg.trans secondLow))]
    linarith
  have exact : roundF64 ((first : ℚ) + second) = (first : ℚ) + second := by
    rw [← Int.cast_add]
    exact intAsF64_of_small small
  have firstCast : (bound : ℚ) ≤ first := Int.cast_le.mpr firstLow
  have secondCast : (bound : ℚ) ≤ second := Int.cast_le.mpr secondLow
  unfold meanF64
  rw [exact, le_div_iff₀ two_pos]
  linarith

variable {rows cols counterRows counterCols : ℕ} {schema : KeySchema}

/-- A query of a grid that took a stream answers no less than what matches. -/
theorem queryFrequency_ge {start : Hydra}
    (startEq : start = fresh rows cols counterRows counterCols schema) {key : List (Option String)}
    (value : DataInput) {stream : List HydraEntry} (width : key.length = schema.arity)
    (widths : ∀ entry ∈ stream, entry.key.length = key.length)
    (nonneg : ∀ entry ∈ stream, 0 ≤ entry.weight) (constrained : KeySchema.queryMask key ≠ 0)
    (fits : NoOverflow (insertAll hasher start (spread hasher start stream)))
    (rowsPositive : 0 < rows) (colsPositive : 0 < cols) (counterRowsPositive : 0 < counterRows)
    (counterColsPositive : 0 < counterCols) :
    ∃ estimate, queryFrequency hasher (insertAll hasher start (spread hasher start stream)) key
        value = .ok estimate ∧ (matching key value stream : ℚ) ≤ estimate := by
  obtain ⟨sameRow, sameCol, sameType, sameSchema, sameRows, -⟩ :=
    insertAll_frame hasher start (spread hasher start stream)
  have startRows : start.sketches.rows = rows := by
    rw [startEq]
    rfl
  have startSchema : start.schema = schema := by
    rw [startEq]
    rfl
  have startType : start.typeToClone = CountMin.withDimensions counterRows counterCols := by
    rw [startEq]
    rfl
  have hash : subkeyHash hasher (insertAll hasher start (spread hasher start stream))
      (key.map fun slot => slot.getD "") (KeySchema.queryMask key) =
        queryHash hasher start key := by
    unfold queryHash subkeyHash
    rw [sameRow, sameCol, sameSchema]
  have rowsRun : ∀ row ∈ List.range rows, ∃ estimate, rowEstimate hasher
      (insertAll hasher start (spread hasher start stream)) (queryHash hasher start key)
      (.frequency value) row = .ok estimate ∧ RowBound (matching key value stream) estimate := by
    intro row member
    obtain ⟨estimate, ran, enough, bounded⟩ := rowEstimate_ge hasher startEq value widths nonneg
      constrained fits colsPositive counterRowsPositive counterColsPositive
      (List.mem_range.mp member)
    exact ⟨estimate, ran, estimate, rfl, enough, bounded⟩
  obtain ⟨estimates, ran, length, bounds⟩ := exists_mapM_ok rowsRun
  have some : estimates ≠ [] := by
    rw [← List.length_pos_iff, length, List.length_range]
    exact rowsPositive
  refine ⟨Median.computeMedianInline meanF64 0 estimates, ?_, ?_⟩
  · unfold queryFrequency queryKey
    rw [sameSchema, startSchema, KeySchema.resolveQuery_eq width constrained, sameType, startType,
      sameRows, startRows]
    show (do
      let _ ← HydraCounter.query hasher (CountMin.withDimensions counterRows counterCols)
        (.frequency value)
      let answers ← (List.range rows).mapM (rowEstimate hasher
        (insertAll hasher start (spread hasher start stream))
        (subkeyHash hasher (insertAll hasher start (spread hasher start stream))
          (key.map fun slot : Option String => slot.getD "") (KeySchema.queryMask key)) (.frequency value))
      return Median.computeMedianInline meanF64 0 answers) = _
    rw [hash, ran, query_frequency hasher value (Nat.mul_pos counterRowsPositive counterColsPositive)]
    rfl
  · rw [Median.computeMedianInline_eq meanF64 0 meanF64_comm]
    refine Median.le_sortMedian meanF64 0 some (fun estimate member => ?_)
      fun left leftMember right rightMember => ?_
    · obtain ⟨exact, rfl, enough, -⟩ := bounds estimate member
      exact Int.cast_le.mpr enough
    · exact RowBound.le_mean (matching_nonneg nonneg) (bounds left leftMember)
        (bounds right rightMember)

end Hydra

/-! ### The accounting -/

/-- For a grid with a row, over Count-Min counters with a cell: a tree of updates and merges builds
what one grid fed its stream holds, no frequency of a subpopulation is too low, and subkeys are
equal only for equal columns and values. -/
theorem hydra_accounts {rows cols counterRows counterCols : ℕ} {labels : List String}
    {start : Hydra} (created : Hydra.withSchema rows cols labels
      (CountMin.withDimensions counterRows counterCols) = .ok start)
    (rowsPositive : 0 < rows) (counterRowsPositive : 0 < counterRows)
    (counterColsPositive : 0 < counterCols) :
    (∀ tree : HydraTree, ∃ hydra, tree.build hasher start = .ok hydra ∧
      hydra = start.feed hasher (tree.stream labels.length) ∧
      ((∀ entry ∈ tree.stream labels.length, 0 ≤ entry.weight) → Hydra.NoOverflow hydra →
        ∀ key : List (Option String), key.length = labels.length →
          (∃ slot ∈ key, slot.isSome = true) → ∀ value, ∃ estimate,
            hydra.queryFrequency hasher key value = .ok estimate ∧
              (matching key value (tree.stream labels.length) : ℚ) ≤ estimate)) ∧
    ∀ (mask mask' : ℕ) (values values' : List String), mask < 2 ^ labels.length →
      mask' < 2 ^ labels.length →
      start.schema.encodeSubkey values mask = start.schema.encodeSubkey values' mask' →
        mask = mask' ∧ ∀ col, mask.testBit col = true → values.getD col "" = values'.getD col "" := by
  obtain ⟨colsPositive, schema, rfl, startEq⟩ := Hydra.eq_filled_of_withSchema created
  have startFresh : start = Hydra.fresh rows cols counterRows counterCols schema := startEq
  have startSchema : start.schema = schema := by
    rw [startFresh]
    rfl
  refine ⟨fun tree => ?_, fun mask mask' values values' small small' same => ?_⟩
  · have widths : ∀ entry ∈ tree.stream schema.arity,
        entry.key.length = start.schema.arity := by
      intro entry member
      rw [startSchema]
      exact HydraTree.width_of_mem_stream member
    refine ⟨Hydra.insertAll hasher start (Hydra.spread hasher start (tree.stream schema.arity)),
      ?_, (Hydra.feed_eq hasher start widths).symm, ?_⟩
    · rw [startFresh]
      exact Hydra.build_eq hasher tree
    · intro nonneg fits key width constrains value
      obtain ⟨slot, member, isSome⟩ := constrains
      obtain ⟨text, rfl⟩ := Option.isSome_iff_exists.mp isSome
      obtain ⟨col, found⟩ := List.mem_iff_getElem?.mp member
      refine Hydra.queryFrequency_ge hasher startFresh value width (fun entry entryMember => ?_)
        nonneg (KeySchema.queryMask_ne_zero found) fits rowsPositive colsPositive
        counterRowsPositive counterColsPositive
      exact (HydraTree.width_of_mem_stream entryMember).trans width.symm
  · rw [startSchema] at same
    exact KeySchema.encodeSubkey_inj small small' same

def userSchema : KeySchema where
  labels := ["user"]
  nonempty := List.cons_ne_nil _ _
  few := by decide
  distinct := List.nodup_singleton _

def aliceEntry : HydraEntry := ⟨["alice"], .i32 7, none⟩

/-- The grid of one cell over one column, with counters of one cell. -/
def userGrid : Hydra := Hydra.filled 1 1 userSchema (CountMin.withDimensions 1 1)

theorem withSchema_userGrid :
    Hydra.withSchema 1 1 userSchema.labels (CountMin.withDimensions 1 1) = .ok userGrid :=
  Hydra.withSchema_eq Nat.one_pos

/-- Two grids with one update each, merged. -/
def aliceTree : HydraTree := .merge (.update .fresh aliceEntry) (.update .fresh aliceEntry)

theorem hydra_accounts_small :
    ∃ hydra estimate, aliceTree.build collidingHasher userGrid = .ok hydra ∧
      hydra.queryFrequency collidingHasher [some "alice"] (.i32 7) = .ok estimate ∧
      2 ≤ estimate := by
  obtain ⟨hydra, built, -, answers⟩ := (hydra_accounts collidingHasher withSchema_userGrid
    Nat.one_pos Nat.one_pos Nat.one_pos).1 aliceTree
  have explicit : aliceTree.build collidingHasher userGrid = .ok _ := rfl
  obtain rfl := Except.ok.inj (explicit.symm.trans built)
  obtain ⟨estimate, answered, enough⟩ := answers (by decide) (by decide +kernel) [some "alice"] rfl
    ⟨some "alice", List.mem_singleton_self _, rfl⟩ (.i32 7)
  have two : matching [some "alice"] (.i32 7) (aliceTree.stream 1) = 2 := by decide
  have twice : ((2 : ℤ) : ℚ) ≤ estimate := two ▸ enough
  exact ⟨_, estimate, built, answered, twice⟩

/-- Without a row in the grid an update is not counted; without a row in the counters a query
panics; a counter that is not fresh is counted twice by a merge; and masks without a column of
the schema have one subkey. -/
theorem hydra_accounts_misses :
    (∃ hydra, (HydraTree.update .fresh aliceEntry).build collidingHasher
        (Hydra.filled 0 1 userSchema (CountMin.withDimensions 1 1)) = .ok hydra ∧
      hydra.queryFrequency collidingHasher [some "alice"] (.i32 7) = .ok 0 ∧
      matching [some "alice"] (.i32 7) [aliceEntry] = 1) ∧
    (∃ hydra, (HydraTree.update .fresh aliceEntry).build collidingHasher
        (Hydra.filled 1 1 userSchema (CountMin.withDimensions 0 1)) = .ok hydra ∧
      hydra.queryFrequency collidingHasher [some "alice"] (.i32 7) = .error .panicked) ∧
    (∃ hydra, (HydraTree.merge .fresh .fresh).build collidingHasher
        (Hydra.filled 1 1 userSchema ((CountMin.withDimensions 1 1).fastInsert collidingHasher
          (.i32 7))) = .ok hydra ∧
      hydra.queryFrequency collidingHasher [some "alice"] (.i32 7) = .ok 2 ∧
      (Hydra.filled 1 1 userSchema ((CountMin.withDimensions 1 1).fastInsert collidingHasher
        (.i32 7))).queryFrequency collidingHasher [some "alice"] (.i32 7) = .ok 1) ∧
    userSchema.encodeSubkey ["alice"] 2 = userSchema.encodeSubkey ["alice"] 4 := by
  refine ⟨⟨_, rfl, ?_, ?_⟩, ⟨_, rfl, ?_⟩, ⟨_, rfl, ?_, ?_⟩, ?_⟩
  · rfl
  · decide +kernel
  · rfl
  · decide +kernel
  · decide +kernel
  · rfl

end AsapSketchlib
