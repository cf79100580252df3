/-
This file collects what maps over a list with a step that may fail do: they succeed when every
step does, and then they keep the length.
-/

import Mathlib.Data.List.Basic

namespace AsapSketchlib

/-! ### Steps that may stop -/

section

variable {Error Elem Value : Type} {act : Elem → Except Error Value}

theorem mapM_ok {value : Elem → Value} {elems : List Elem}
    (runs : ∀ elem ∈ elems, act elem = .ok (value elem)) :
    elems.mapM act = .ok (elems.map value) := by
  induction elems with
  | nil => rfl
  | cons elem rest hypothesis =>
    rw [List.mapM_cons, runs elem List.mem_cons_self,
      hypothesis fun other member => runs other (List.mem_cons_of_mem _ member)]
    rfl

theorem exists_mapM_ok {good : Value → Prop} {elems : List Elem}
    (runs : ∀ elem ∈ elems, ∃ value, act elem = .ok value ∧ good value) :
    ∃ values, elems.mapM act = .ok values ∧ values.length = elems.length ∧
      ∀ value ∈ values, good value := by
  induction elems with
  | nil => exact ⟨[], rfl, rfl, fun _ member => absurd member List.not_mem_nil⟩
  | cons elem rest hypothesis =>
    obtain ⟨⟨value, first, firstGood⟩, others⟩ := List.forall_mem_cons.mp runs
    obtain ⟨values, later, length, laterGood⟩ := hypothesis others
    refine ⟨value :: values, ?_, congrArg (· + 1) length,
      List.forall_mem_cons.mpr ⟨firstGood, laterGood⟩⟩
    rw [List.mapM_cons, first, later]
    rfl

theorem getElem?_of_mapM_ok {elems : List Elem} {values : List Value}
    (run : elems.mapM act = .ok values) {index : ℕ} {elem : Elem}
    (found : elems[index]? = some elem) :
    ∃ value, values[index]? = some value ∧ act elem = .ok value := by
  induction elems generalizing values index with
  | nil => cases found
  | cons first rest hypothesis =>
    rw [List.mapM_cons] at run
    cases here : act first with
    | error error =>
      rw [here] at run
      cases run
    | ok value =>
      cases later : rest.mapM act with
      | error error =>
        rw [here, later] at run
        cases run
      | ok others =>
        rw [here, later] at run
        obtain rfl := Except.ok.inj run
        cases index with
        | zero =>
          obtain rfl := Option.some.inj found
          exact ⟨value, rfl, here⟩
        | succ index => exact hypothesis later found

end

/-! ### Steps that may give nothing -/

section

variable {Elem Value : Type}

theorem mapM_eq_some {act : Elem → Option Value} {value : Elem → Value} {elems : List Elem}
    (each : ∀ elem ∈ elems, act elem = some (value elem)) :
    elems.mapM act = some (elems.map value) := by
  induction elems with
  | nil => rfl
  | cons elem rest hypothesis =>
    obtain ⟨first, others⟩ := List.forall_mem_cons.mp each
    rw [List.mapM_cons, first, hypothesis others]
    rfl

theorem exists_mapM {act : Elem → Option Value} {elems : List Elem}
    (each : ∀ elem ∈ elems, ∃ value, act elem = some value) :
    ∃ values, elems.mapM act = some values := by
  induction elems with
  | nil => exact ⟨[], rfl⟩
  | cons elem rest hypothesis =>
    obtain ⟨⟨value, first⟩, others⟩ := List.forall_mem_cons.mp each
    obtain ⟨values, later⟩ := hypothesis others
    refine ⟨value :: values, ?_⟩
    rw [List.mapM_cons, first, later]
    rfl

theorem mapM_guarded {allowed : Elem → Prop} [DecidablePred allowed] (value : Elem → Value)
    (elems : List Elem) :
    (elems.mapM fun elem => if allowed elem then some (value elem) else none) =
      if ∀ elem ∈ elems, allowed elem then some (elems.map value) else none := by
  by_cases each : ∀ elem ∈ elems, allowed elem
  · rw [if_pos each]
    exact mapM_eq_some fun elem member => if_pos (each elem member)
  · rw [if_neg each]
    induction elems with
    | nil => exact absurd (fun elem member => absurd member List.not_mem_nil) each
    | cons elem rest hypothesis =>
      rw [List.mapM_cons]
      by_cases first : allowed elem
      · have later : ¬∀ elem ∈ rest, allowed elem := fun others =>
          each (List.forall_mem_cons.mpr ⟨first, others⟩)
        rw [if_pos first, hypothesis later]
        rfl
      · rw [if_neg first]
        rfl

theorem length_of_mapM {act : Elem → Option Value} {elems : List Elem} {values : List Value}
    (run : elems.mapM act = some values) : values.length = elems.length := by
  induction elems generalizing values with
  | nil =>
    obtain rfl := Option.some.inj run
    rfl
  | cons elem rest hypothesis =>
    simp only [List.mapM_cons, Option.bind_eq_bind, Option.bind_eq_some_iff] at run
    obtain ⟨value, -, later, laterEq, made⟩ := run
    obtain rfl := Option.some.inj made
    exact congrArg (· + 1) (hypothesis laterEq)

end

variable {Acc Elem : Type} {step : Acc → Elem → Option Acc} {invariant : Acc → Prop}

theorem exists_foldlM {elems : List Elem}
    (each : ∀ elem ∈ elems, ∀ acc, invariant acc → ∃ next, step acc elem = some next ∧
      invariant next)
    {start : Acc} (initial : invariant start) :
    ∃ final, elems.foldlM step start = some final ∧ invariant final := by
  induction elems generalizing start with
  | nil => exact ⟨start, rfl, initial⟩
  | cons elem rest hypothesis =>
    obtain ⟨first, others⟩ := List.forall_mem_cons.mp each
    obtain ⟨next, stepped, kept⟩ := first start initial
    obtain ⟨final, folded, last⟩ := hypothesis others kept
    refine ⟨final, ?_, last⟩
    rw [List.foldlM_cons, stepped]
    exact folded

theorem of_foldlM {property : Elem → Prop}
    (each : ∀ elem acc next, invariant acc → step acc elem = some next → property elem ∧
      invariant next)
    {elems : List Elem} {start final : Acc} (initial : invariant start)
    (folded : elems.foldlM step start = some final) :
    (∀ elem ∈ elems, property elem) ∧ invariant final := by
  induction elems generalizing start with
  | nil =>
    obtain rfl := Option.some.inj folded
    exact ⟨fun elem member => absurd member List.not_mem_nil, initial⟩
  | cons elem rest hypothesis =>
    rw [List.foldlM_cons] at folded
    obtain ⟨next, stepped, later⟩ := Option.bind_eq_some_iff.mp folded
    obtain ⟨first, kept⟩ := each elem start next initial stepped
    obtain ⟨others, last⟩ := hypothesis kept later
    exact ⟨List.forall_mem_cons.mpr ⟨first, others⟩, last⟩

end AsapSketchlib
