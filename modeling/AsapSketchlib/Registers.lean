/-
This file develops register files: lists of values of a linear order, of which an update raises
one to at least a value. What a register file knows is which values each of its registers
reaches, and updating it adds to this. So the order and the repetition of updates have no effect.
-/

import Mathlib.Data.List.Basic
import Mathlib.Order.MinMax

namespace AsapSketchlib

namespace Registers

variable {Value : Type} [LinearOrder Value]

/-- An update: the register takes the value if that is larger than its own. -/
def raise (registers : List Value) (update : ℕ × Value) : List Value :=
  registers.modify update.1 fun old => if old < update.2 then update.2 else old

def raiseAll (registers : List Value) (updates : List (ℕ × Value)) : List Value :=
  updates.foldl raise registers

def merge (registers others : List Value) : List Value :=
  List.zipWith (fun own other => if own < other then other else own) registers others

def Reaches (registers : List Value) (place : ℕ) (value : Value) : Prop :=
  ∃ own, registers[place]? = some own ∧ value ≤ own

@[simp] theorem length_raise (registers : List Value) (update : ℕ × Value) :
    (raise registers update).length = registers.length := List.length_modify _ _ _

@[simp] theorem length_raiseAll (registers : List Value) (updates : List (ℕ × Value)) :
    (raiseAll registers updates).length = registers.length := by
  induction updates generalizing registers with
  | nil => rfl
  | cons update rest hypothesis =>
    exact (hypothesis _).trans (length_raise registers update)

theorem eq_of_reaches {left right : List Value} (sameLength : left.length = right.length)
    (same : ∀ place value, Reaches left place value ↔ Reaches right place value) :
    left = right := by
  refine List.ext_getElem? fun place => ?_
  cases inLeft : left[place]? with
  | none =>
    rw [List.getElem?_eq_none_iff] at inLeft
    exact (List.getElem?_eq_none_iff.mpr (sameLength ▸ inLeft)).symm
  | some own =>
    obtain ⟨theirs, inRight, below⟩ := (same place own).mp ⟨own, inLeft, le_rfl⟩
    obtain ⟨again, inLeftAgain, above⟩ := (same place theirs).mpr ⟨theirs, inRight, le_rfl⟩
    have sameOwn : own = again := Option.some.inj (inLeft.symm.trans inLeftAgain)
    rw [inRight, le_antisymm below (sameOwn ▸ above)]

/-- An update lets its register reach its value, and changes nothing else. -/
theorem reaches_raise (registers : List Value) (update : ℕ × Value) (place : ℕ) (value : Value) :
    Reaches (raise registers update) place value ↔
      Reaches registers place value ∨
        place < registers.length ∧ update.1 = place ∧ value ≤ update.2 := by
  by_cases here : update.1 = place
  · subst here
    unfold Reaches raise
    rw [List.getElem?_modify_eq]
    cases inside : registers[update.1]? with
    | none =>
      have outside : ¬ update.1 < registers.length :=
        not_lt.mpr (List.getElem?_eq_none_iff.mp inside)
      refine ⟨fun ⟨_, impossible, _⟩ => (Option.some_ne_none _ impossible.symm).elim, ?_⟩
      rintro (⟨_, impossible, _⟩ | ⟨within, _⟩)
      · exact (Option.some_ne_none _ impossible.symm).elim
      · exact absurd within outside
    | some own =>
      obtain ⟨within, _⟩ := List.getElem?_eq_some_iff.mp inside
      have larger : value ≤ (if own < update.2 then update.2 else own) ↔
          value ≤ own ∨ value ≤ update.2 := by
        rw [← le_max_iff, ← max_def_lt]
      refine ⟨fun ⟨raised, isRaised, below⟩ => ?_, fun reached => ?_⟩
      · rw [← Option.some.inj isRaised] at below
        exact (larger.mp below).imp (fun low => ⟨own, rfl, low⟩) fun low => ⟨within, rfl, low⟩
      · refine ⟨_, rfl, larger.mpr ?_⟩
        refine reached.imp ?_ fun updated => updated.2.2
        rintro ⟨_, same, low⟩
        exact Option.some.inj same ▸ low
  · have unchanged : (raise registers update)[place]? = registers[place]? :=
      List.getElem?_modify_ne _ _ here
    unfold Reaches
    rw [unchanged]
    exact ⟨Or.inl, fun reached => reached.elim id fun updated => absurd updated.2.1 here⟩

theorem raise_of_reaches {registers : List Value} {update : ℕ × Value}
    (reached : Reaches registers update.1 update.2) : raise registers update = registers := by
  refine eq_of_reaches (length_raise registers update) fun place value => ?_
  rw [reaches_raise]
  refine ⟨fun either => either.elim id ?_, Or.inl⟩
  rintro ⟨_, rfl, below⟩
  obtain ⟨own, held, above⟩ := reached
  exact ⟨own, held, below.trans above⟩

theorem reaches_raiseAll (registers : List Value) (updates : List (ℕ × Value)) (place : ℕ)
    (value : Value) :
    Reaches (raiseAll registers updates) place value ↔
      Reaches registers place value ∨
        place < registers.length ∧ ∃ update ∈ updates, update.1 = place ∧ value ≤ update.2 := by
  induction updates generalizing registers with
  | nil => exact ⟨Or.inl, fun reached => reached.elim id fun ⟨_, _, absent, _⟩ => nomatch absent⟩
  | cons update rest hypothesis =>
    refine (hypothesis (raise registers update)).trans ?_
    rw [reaches_raise, length_raise, List.exists_mem_cons_iff, and_or_left, or_assoc]

theorem reaches_merge {registers others : List Value}
    (sameLength : registers.length = others.length) (place : ℕ) (value : Value) :
    Reaches (merge registers others) place value ↔
      Reaches registers place value ∨ Reaches others place value := by
  unfold Reaches merge
  by_cases inside : place < registers.length
  · have insideOthers := inside.trans_eq sameLength
    have larger : value ≤ (if registers[place] < others[place] then others[place]
        else registers[place]) ↔ value ≤ registers[place] ∨ value ≤ others[place] := by
      rw [← le_max_iff, ← max_def_lt]
    rw [List.getElem?_zipWith, List.getElem?_eq_getElem inside,
      List.getElem?_eq_getElem insideOthers]
    simpa using larger
  · have outside := not_lt.mp inside
    rw [List.getElem?_zipWith, List.getElem?_eq_none outside,
      List.getElem?_eq_none (sameLength ▸ outside)]
    simp

theorem raiseAll_congr (registers : List Value) {updates others : List (ℕ × Value)}
    (same : ∀ update, update ∈ updates ↔ update ∈ others) :
    raiseAll registers updates = raiseAll registers others := by
  refine eq_of_reaches (by rw [length_raiseAll, length_raiseAll]) fun place value => ?_
  rw [reaches_raiseAll, reaches_raiseAll]
  simp only [same]

end Registers

end AsapSketchlib
