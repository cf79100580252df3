/-
This file develops maps whose entries are held in ascending order of their keys, each key once. Two
such maps are equal when they have the same value at every key, so a map does not depend on the
order in which its entries were changed.
-/

import Mathlib.Data.List.Nodup
import Mathlib.Data.List.Pairwise
import Mathlib.Order.Lattice

namespace AsapSketchlib

/-- A map with its entries in ascending order of their keys. -/
structure SortedMap (Key Value : Type) [LinearOrder Key] where
  entries : List (Key × Value)
  sorted : (entries.map Prod.fst).Pairwise (· < ·)

namespace SortedMap

variable {Key Value : Type} [LinearOrder Key]

/-! ### Entries -/

/-- The value of the first entry of a key. -/
def lookup (key : Key) : List (Key × Value) → Option Value
  | [] => none
  | entry :: rest => if key = entry.1 then some entry.2 else lookup key rest

/-- The entries after that of a key was changed, or inserted in its place. -/
def alterEntries (key : Key) (change : Option Value → Value) :
    List (Key × Value) → List (Key × Value)
  | [] => [(key, change none)]
  | entry :: rest =>
    if key < entry.1 then (key, change none) :: entry :: rest
    else if key = entry.1 then (key, change (some entry.2)) :: rest
    else entry :: alterEntries key change rest

theorem mem_map_alterEntries {key other : Key} {change : Option Value → Value}
    {entries : List (Key × Value)} (member : other ∈ (alterEntries key change entries).map Prod.fst) :
    other = key ∨ other ∈ entries.map Prod.fst := by
  induction entries with
  | nil => exact .inl (List.mem_singleton.mp member)
  | cons entry rest hypothesis =>
    unfold alterEntries at member
    split at member
    · exact (List.mem_cons.mp member).imp id id
    · split at member
      · exact (List.mem_cons.mp member).imp id (List.mem_cons_of_mem _)
      · rcases List.mem_cons.mp member with here | later
        · exact .inr (here ▸ List.mem_cons_self)
        · exact (hypothesis later).imp id (List.mem_cons_of_mem _)

theorem sorted_alterEntries (key : Key) (change : Option Value → Value)
    {entries : List (Key × Value)} (sorted : (entries.map Prod.fst).Pairwise (· < ·)) :
    ((alterEntries key change entries).map Prod.fst).Pairwise (· < ·) := by
  induction entries with
  | nil => exact List.pairwise_singleton _ _
  | cons entry rest hypothesis =>
    obtain ⟨first, restSorted⟩ := List.pairwise_cons.mp sorted
    unfold alterEntries
    split
    next before =>
      refine List.pairwise_cons.mpr ⟨fun other member => ?_, sorted⟩
      rcases List.mem_cons.mp member with here | later
      · exact here ▸ before
      · exact before.trans (first other later)
    next notBefore =>
      split
      next same => exact List.pairwise_cons.mpr ⟨same ▸ first, restSorted⟩
      next different =>
        refine List.pairwise_cons.mpr ⟨fun other member => ?_, hypothesis restSorted⟩
        rcases mem_map_alterEntries member with rfl | later
        · exact lt_of_le_of_ne (not_lt.mp notBefore) (Ne.symm different)
        · exact first other later

theorem lookup_eq_none {key : Key} {entries : List (Key × Value)}
    (absent : key ∉ entries.map Prod.fst) : lookup key entries = none := by
  induction entries with
  | nil => rfl
  | cons entry rest hypothesis =>
    obtain ⟨different, later⟩ := not_or.mp (mt List.mem_cons.mpr absent)
    rw [lookup, if_neg different, hypothesis later]

theorem mem_iff_lookup {key : Key} {value : Value} {entries : List (Key × Value)}
    (sorted : (entries.map Prod.fst).Pairwise (· < ·)) :
    (key, value) ∈ entries ↔ lookup key entries = some value := by
  induction entries with
  | nil => exact iff_of_false List.not_mem_nil (Option.some_ne_none value).symm
  | cons entry rest hypothesis =>
    obtain ⟨first, restSorted⟩ := List.pairwise_cons.mp sorted
    rw [List.mem_cons, lookup]
    by_cases same : key = entry.1
    · have later : (key, value) ∉ rest := fun member =>
        lt_irrefl _ (same ▸ first key (List.mem_map_of_mem member))
      rw [if_pos same, or_iff_left later]
      constructor
      · exact fun here => congrArg some (congrArg Prod.snd here).symm
      · exact fun found => Prod.ext same (Option.some.inj found).symm
    · rw [if_neg same, ← hypothesis restSorted]
      exact or_iff_right fun here => same (congrArg Prod.fst here)

theorem lookup_alterEntries (key other : Key) (change : Option Value → Value)
    {entries : List (Key × Value)} (sorted : (entries.map Prod.fst).Pairwise (· < ·)) :
    lookup other (alterEntries key change entries) =
      if other = key then some (change (lookup key entries)) else lookup other entries := by
  induction entries with
  | nil => rfl
  | cons entry rest hypothesis =>
    obtain ⟨first, restSorted⟩ := List.pairwise_cons.mp sorted
    unfold alterEntries
    split
    next before =>
      have absent : key ∉ (entry :: rest).map Prod.fst := by
        intro member
        rcases List.mem_cons.mp member with here | later
        · exact before.ne here
        · exact (before.trans (first key later)).false
      rw [lookup_eq_none absent, lookup]
    next =>
      split
      next same =>
        rw [lookup, lookup, lookup, if_pos same, same]
        by_cases here : other = entry.1
        · rw [if_pos here, if_pos here]
        · rw [if_neg here, if_neg here, if_neg here]
      next different =>
        rw [lookup, lookup, lookup, if_neg different, hypothesis restSorted]
        by_cases here : other = entry.1
        · rw [if_pos here, if_pos here, if_neg fun equal => different (equal.symm.trans here)]
        · rw [if_neg here, if_neg here]

/-! ### Maps -/

def empty : SortedMap Key Value := ⟨[], List.Pairwise.nil⟩

def get? (map : SortedMap Key Value) (key : Key) : Option Value := lookup key map.entries

/-- Changes the value of a key, or inserts one. -/
def alter (map : SortedMap Key Value) (key : Key) (change : Option Value → Value) :
    SortedMap Key Value :=
  ⟨alterEntries key change map.entries, sorted_alterEntries key change map.sorted⟩

def insert (map : SortedMap Key Value) (key : Key) (value : Value) : SortedMap Key Value :=
  map.alter key fun _ => value

def ofList (entries : List (Key × Value)) : SortedMap Key Value :=
  entries.foldl (fun map entry => map.insert entry.1 entry.2) empty

def values (map : SortedMap Key Value) : List Value := map.entries.map Prod.snd

def containsKey (map : SortedMap Key Value) (key : Key) : Bool := (map.get? key).isSome

def mapValues (map : SortedMap Key Value) (change : Value → Value) : SortedMap Key Value where
  entries := map.entries.map fun entry => (entry.1, change entry.2)
  sorted := by
    rw [List.map_map]
    exact map.sorted

@[simp] theorem get?_empty (key : Key) : (empty : SortedMap Key Value).get? key = none := rfl

@[simp] theorem get?_alter (map : SortedMap Key Value) (key other : Key)
    (change : Option Value → Value) :
    (map.alter key change).get? other =
      if other = key then some (change (map.get? key)) else map.get? other :=
  lookup_alterEntries key other change map.sorted

theorem ext_get {left right : SortedMap Key Value} (same : ∀ key, left.get? key = right.get? key) :
    left = right := by
  have nodup : ∀ map : SortedMap Key Value, map.entries.Nodup := fun map =>
    List.Nodup.of_map Prod.fst (map.sorted.imp ne_of_lt)
  have perm : left.entries.Perm right.entries := by
    refine (List.perm_ext_iff_of_nodup (nodup left) (nodup right)).mpr fun entry => ?_
    rw [mem_iff_lookup left.sorted, mem_iff_lookup right.sorted]
    exact iff_of_eq (congrArg (· = some entry.2) (same entry.1))
  have entries : left.entries = right.entries :=
    perm.eq_of_pairwise (fun first second _ _ before after => absurd (lt_trans before after)
      (lt_irrefl _)) (List.pairwise_map.mp left.sorted) (List.pairwise_map.mp right.sorted)
  cases left
  cases right
  cases entries
  rfl

theorem alter_comm (map : SortedMap Key Value) (first second : Key)
    (change : Option Value → Value) :
    (map.alter first change).alter second change = (map.alter second change).alter first change := by
  refine ext_get fun key => ?_
  by_cases same : first = second
  · rw [same]
  · rw [get?_alter, get?_alter, get?_alter, get?_alter, get?_alter, get?_alter, if_neg same,
      if_neg (Ne.symm same)]
    by_cases atSecond : key = second
    · rw [if_pos atSecond, if_neg fun atFirst => same (atFirst.symm.trans atSecond), if_pos atSecond]
    · rw [if_neg atSecond, if_neg atSecond]

theorem foldl_alter_perm {keys shuffled : List Key} (perm : keys.Perm shuffled)
    (map : SortedMap Key Value) (change : Option Value → Value) :
    keys.foldl (fun map key => map.alter key change) map =
      shuffled.foldl (fun map key => map.alter key change) map :=
  perm.foldl_eq' (fun first _ second _ map => alter_comm map first second change) map

end SortedMap

end AsapSketchlib
