/-
This file develops sums by group: a table from keys to totals that entries are added to one by
one. The table holds each key once, and the total of a key is what its entries add up to.
-/

import Mathlib.Algebra.BigOperators.Group.List.Basic
import Mathlib.Algebra.Ring.Nat
import Mathlib.Data.List.Induction
import Mathlib.Data.List.Nodup

namespace AsapSketchlib

namespace Grouped

variable {Key : Type} [DecidableEq Key]

def add (key : Key) (amount : ℕ) : List (Key × ℕ) → List (Key × ℕ)
  | [] => [(key, amount)]
  | group :: rest =>
    if group.1 = key then (group.1, group.2 + amount) :: rest else group :: add key amount rest

def collect (entries : List (Key × ℕ)) : List (Key × ℕ) :=
  entries.foldl (fun groups entry => add entry.1 entry.2 groups) []

/-- What the entries of a key add up to. -/
def totalOf (key : Key) (entries : List (Key × ℕ)) : ℕ :=
  ((entries.filter fun entry => entry.1 = key).map Prod.snd).sum

theorem totalOf_cons (key : Key) (entry : Key × ℕ) (rest : List (Key × ℕ)) :
    totalOf key (entry :: rest) = (if entry.1 = key then entry.2 else 0) + totalOf key rest := by
  unfold totalOf
  rw [List.filter_cons]
  by_cases same : entry.1 = key
  · rw [if_pos same, if_pos (decide_eq_true same), List.map_cons, List.sum_cons]
  · rw [if_neg same, if_neg fun matched => same (of_decide_eq_true matched), Nat.zero_add]

theorem totalOf_add (key other : Key) (amount : ℕ) (groups : List (Key × ℕ)) :
    totalOf key (add other amount groups) =
      totalOf key groups + if other = key then amount else 0 := by
  induction groups with
  | nil => rw [add, totalOf_cons, Nat.add_comm]
  | cons group rest hypothesis =>
    rw [add]
    by_cases here : group.1 = other
    · rw [if_pos here, totalOf_cons, totalOf_cons, here]
      by_cases same : other = key
      · rw [if_pos same, if_pos same, if_pos same, Nat.add_right_comm]
      · rw [if_neg same, if_neg same, if_neg same, Nat.add_zero]
    · rw [if_neg here, totalOf_cons, totalOf_cons, hypothesis, Nat.add_assoc]

theorem sum_add (other : Key) (amount : ℕ) (groups : List (Key × ℕ)) :
    ((add other amount groups).map Prod.snd).sum = (groups.map Prod.snd).sum + amount := by
  induction groups with
  | nil => exact Nat.add_comm amount 0
  | cons group rest hypothesis =>
    rw [add]
    by_cases here : group.1 = other
    · rw [if_pos here, List.map_cons, List.map_cons, List.sum_cons, List.sum_cons,
        Nat.add_right_comm]
    · rw [if_neg here, List.map_cons, List.map_cons, List.sum_cons, List.sum_cons,
        hypothesis, Nat.add_assoc]

theorem mem_keys_add {key other : Key} {amount : ℕ} {groups : List (Key × ℕ)} :
    key ∈ (add other amount groups).map Prod.fst ↔ key ∈ groups.map Prod.fst ∨ key = other := by
  induction groups with
  | nil => exact (List.mem_singleton).trans (or_iff_right List.not_mem_nil).symm
  | cons group rest hypothesis =>
    rw [add]
    by_cases here : group.1 = other
    · rw [if_pos here, List.map_cons, List.map_cons]
      refine ⟨Or.inl, fun known => known.elim id fun same => ?_⟩
      exact List.mem_cons.mpr (Or.inl (same.trans here.symm))
    · rw [if_neg here, List.map_cons, List.map_cons, List.mem_cons, List.mem_cons,
        hypothesis, or_assoc]

theorem nodup_add {other : Key} {amount : ℕ} {groups : List (Key × ℕ)}
    (distinct : (groups.map Prod.fst).Nodup) : ((add other amount groups).map Prod.fst).Nodup := by
  induction groups with
  | nil => exact List.nodup_singleton other
  | cons group rest hypothesis =>
    obtain ⟨absent, distinctRest⟩ := List.nodup_cons.mp distinct
    rw [add]
    by_cases here : group.1 = other
    · rw [if_pos here]
      exact distinct
    · rw [if_neg here]
      refine List.nodup_cons.mpr ⟨fun known => ?_, hypothesis distinctRest⟩
      exact (mem_keys_add.mp known).elim absent here

theorem collect_induction {motive : List (Key × ℕ) → List (Key × ℕ) → Prop} (base : motive [] [])
    (step : ∀ entries groups entry, motive entries groups →
      motive (entries ++ [entry]) (add entry.1 entry.2 groups)) (entries : List (Key × ℕ)) :
    motive entries (collect entries) := by
  induction entries using List.reverseRecOn with
  | nil => exact base
  | append_singleton entries entry hypothesis =>
    rw [collect, List.foldl_append]
    exact step entries _ entry hypothesis

theorem nodup_collect (entries : List (Key × ℕ)) : ((collect entries).map Prod.fst).Nodup :=
  collect_induction (motive := fun _ groups => (groups.map Prod.fst).Nodup) List.nodup_nil
    (fun _ _ _ => nodup_add) entries

theorem sum_collect (entries : List (Key × ℕ)) :
    ((collect entries).map Prod.snd).sum = (entries.map Prod.snd).sum := by
  refine collect_induction (motive := fun entries groups =>
    (groups.map Prod.snd).sum = (entries.map Prod.snd).sum) rfl (fun entries groups entry held => ?_)
    entries
  rw [sum_add, held, List.map_append, List.sum_append, List.map_singleton, List.sum_singleton]

theorem totalOf_collect (key : Key) (entries : List (Key × ℕ)) :
    totalOf key (collect entries) = totalOf key entries := by
  refine collect_induction (motive := fun entries groups =>
    totalOf key groups = totalOf key entries) rfl (fun entries groups entry held => ?_) entries
  have appended : totalOf key (entries ++ [entry]) = totalOf key entries + totalOf key [entry] := by
    rw [totalOf, List.filter_append, List.map_append, List.sum_append]
    rfl
  rw [totalOf_add, held, appended, totalOf_cons]
  rfl

theorem totalOf_of_mem {groups : List (Key × ℕ)} (distinct : (groups.map Prod.fst).Nodup)
    {group : Key × ℕ} (member : group ∈ groups) : totalOf group.1 groups = group.2 := by
  induction groups with
  | nil => exact absurd member List.not_mem_nil
  | cons first rest hypothesis =>
    obtain ⟨absent, distinctRest⟩ := List.nodup_cons.mp distinct
    rw [totalOf_cons]
    rcases List.mem_cons.mp member with rfl | later
    · have others : totalOf group.1 rest = 0 := by
        rw [totalOf, List.filter_eq_nil_iff.mpr]
        · rfl
        · intro other inRest same
          exact absent (of_decide_eq_true same ▸ List.mem_map_of_mem inRest)
      rw [if_pos rfl, others, Nat.add_zero]
    · have different : first.1 ≠ group.1 := fun same =>
        absent (same ▸ List.mem_map_of_mem later)
      rw [if_neg different, Nat.zero_add, hypothesis distinctRest later]

theorem snd_of_mem_collect {entries : List (Key × ℕ)} {group : Key × ℕ}
    (member : group ∈ collect entries) : group.2 = totalOf group.1 entries := by
  rw [← totalOf_collect, totalOf_of_mem (nodup_collect entries) member]

end Grouped

end AsapSketchlib
