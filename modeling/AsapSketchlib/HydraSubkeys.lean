/-
This file proves that the subkeys of Hydra are unambiguous: an encoding determines the columns
of its mask and the values in them, whatever characters the labels and the values have.
-/

import AsapSketchlib.Hydra

namespace AsapSketchlib

namespace KeySchema

/-! ### Subkeys as records -/

theorem separates_colon : keyEscaping.Separates ':' := ⟨rfl, by decide⟩

theorem separates_semicolon : keyEscaping.Separates ';' := ⟨rfl, by decide⟩

/-- The records of a subkey, from a column on: the labels of the columns of the mask with their
values. -/
def subkeyRecords (mask : ℕ) (values : List String) (col : ℕ) (labels : List String) :
    List (List Char × List Char) :=
  (labels.zipIdx col).filterMap fun entry =>
    if mask.testBit entry.2 then some (entry.1.toList, (values.getD entry.2 "").toList) else none

theorem encodeColumns_eq (mask : ℕ) (values labels : List String) (col : ℕ) (first : Bool) :
    encodeColumns mask values col first (labels.map pushEscaped) =
      if first then keyEscaping.records ':' ';' (subkeyRecords mask values col labels)
      else keyEscaping.following ':' ';' (subkeyRecords mask values col labels) := by
  induction labels generalizing col first with
  | nil => cases first <;> rfl
  | cons label rest hypothesis =>
    rw [List.map_cons]
    unfold encodeColumns subkeyRecords
    rw [List.zipIdx_cons]
    by_cases chosen : mask.testBit col = true
    · rw [if_pos chosen, hypothesis, if_neg Bool.false_ne_true,
        List.filterMap_cons_some (by rw [if_pos chosen])]
      cases first with
      | true => rfl
      | false => rfl
    · rw [if_neg chosen, hypothesis, List.filterMap_cons_none (by rw [if_neg chosen])]
      rfl

theorem mem_subkeyRecords {mask : ℕ} {values labels : List String}
    {entry : List Char × List Char} : entry ∈ subkeyRecords mask values 0 labels ↔
      ∃ col label, labels[col]? = some label ∧ mask.testBit col = true ∧
        entry = (label.toList, (values.getD col "").toList) := by
  unfold subkeyRecords
  rw [List.mem_filterMap]
  constructor
  · rintro ⟨⟨label, col⟩, member, chosen⟩
    split at chosen
    · next bit =>
      exact ⟨col, label, List.mem_zipIdx_iff_getElem?.mp member, bit, (Option.some.inj chosen).symm⟩
    · exact absurd chosen.symm (Option.some_ne_none entry)
  · rintro ⟨col, label, found, bit, rfl⟩
    exact ⟨(label, col), List.mem_zipIdx_iff_getElem?.mpr found, by rw [if_pos bit]⟩

/-! ### Injectivity -/

variable {schema : KeySchema} {mask mask' : ℕ} {values values' : List String}

/-- A column of one of two subkeys with the same encoding is a column of the other, with the
same value. -/
theorem column_of_encodeSubkey_eq
    (same : schema.encodeSubkey values mask = schema.encodeSubkey values' mask') {col : ℕ}
    (inside : col < schema.arity) (chosen : mask.testBit col = true) :
    mask'.testBit col = true ∧ values.getD col "" = values'.getD col "" := by
  have written : keyEscaping.records ':' ';' (subkeyRecords mask values 0 schema.labels) =
      keyEscaping.records ':' ';' (subkeyRecords mask' values' 0 schema.labels) := by
    have chars := congrArg String.toList same
    unfold encodeSubkey escapedLabels at chars
    rwa [String.toList_ofList, String.toList_ofList, encodeColumns_eq, encodeColumns_eq, if_pos rfl,
      if_pos rfl] at chars
  have records := Escaping.records_inj separates_colon separates_semicolon written
  have bound : col < schema.labels.length := inside
  have member : ((schema.labels[col]).toList, (values.getD col "").toList) ∈
      subkeyRecords mask values 0 schema.labels :=
    mem_subkeyRecords.mpr ⟨col, _, List.getElem?_eq_getElem bound, chosen, rfl⟩
  rw [records] at member
  obtain ⟨other, label, otherFound, otherChosen, entry⟩ := mem_subkeyRecords.mp member
  obtain ⟨labelSame, valueSame⟩ := Prod.mk.inj entry
  obtain rfl : other = col := by
    obtain ⟨otherInside, otherEq⟩ := List.getElem?_eq_some_iff.mp otherFound
    have sameLabel : schema.labels[other] = schema.labels[col] :=
      otherEq.trans (String.toList_inj.mp labelSame).symm
    exact schema.distinct.getElem_inj_iff.mp sameLabel
  exact ⟨otherChosen, String.toList_inj.mp valueSame⟩

theorem encodeSubkey_inj (fits : mask < 2 ^ schema.arity) (fits' : mask' < 2 ^ schema.arity)
    (same : schema.encodeSubkey values mask = schema.encodeSubkey values' mask') :
    mask = mask' ∧ ∀ col, mask.testBit col = true → values.getD col "" = values'.getD col "" := by
  have inside : ∀ {bits : ℕ}, bits < 2 ^ schema.arity → ∀ {col : ℕ}, bits.testBit col = true →
      col < schema.arity := by
    intro bits small col chosen
    by_contra outside
    have wide : bits < 2 ^ col :=
      small.trans_le (Nat.pow_le_pow_right (by decide) (not_lt.mp outside))
    exact Bool.false_ne_true ((Nat.testBit_lt_two_pow wide).symm.trans chosen)
  refine ⟨Nat.eq_of_testBit_eq fun col => ?_, fun col chosen =>
    (column_of_encodeSubkey_eq same (inside fits chosen) chosen).2⟩
  rw [Bool.eq_iff_iff]
  exact ⟨fun chosen => (column_of_encodeSubkey_eq same (inside fits chosen) chosen).1,
    fun chosen => (column_of_encodeSubkey_eq same.symm (inside fits' chosen) chosen).1⟩

theorem encodeSubkey_congr (agree : ∀ col, mask.testBit col = true →
    values.getD col "" = values'.getD col "") :
    schema.encodeSubkey values mask = schema.encodeSubkey values' mask := by
  unfold encodeSubkey escapedLabels
  rw [encodeColumns_eq, encodeColumns_eq, if_pos rfl, if_pos rfl]
  refine congrArg (fun entries => String.ofList (keyEscaping.records ':' ';' entries)) ?_
  unfold subkeyRecords
  refine congrArg (fun pick => List.filterMap pick _) (funext fun entry => ?_)
  by_cases chosen : mask.testBit entry.2 = true
  · rw [if_pos chosen, if_pos chosen, agree entry.2 chosen]
  · rw [if_neg chosen, if_neg chosen]

end KeySchema

end AsapSketchlib
