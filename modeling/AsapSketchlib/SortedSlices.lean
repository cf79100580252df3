/-
This file develops what is read from a sorted slice: the place at which a binary search ends, which
is open when several entries compare equal, and the weight of the entries up to a place.
-/

import Mathlib.Algebra.Order.Ring.Rat
import Mathlib.Data.List.Sort

namespace AsapSketchlib

/-! ### Sorting and searching -/

/-- `sort_unstable_by`: the entries in the order of their keys. The order of entries of one key is
open. -/
structure UnstableSort (Entry Key : Type) [LinearOrder Key] (key : Entry → Key) where
  sort : List Entry → List Entry
  perm : ∀ entries, (sort entries).Perm entries
  sorted : ∀ entries, (sort entries).Pairwise fun left right => key left ≤ key right

def insertionSorting {Entry Key : Type} [LinearOrder Key] (key : Entry → Key) :
    UnstableSort Entry Key key where
  sort entries := entries.insertionSort fun left right => key left ≤ key right
  perm entries := List.perm_insertionSort _ entries
  sorted entries :=
    have : Std.Total fun left right : Entry => key left ≤ key right :=
      ⟨fun left right => le_total (key left) (key right)⟩
    have : IsTrans Entry fun left right => key left ≤ key right :=
      ⟨fun _ _ _ => le_trans⟩
    List.pairwise_insertionSort _ entries

/-- The entries below what is searched for come first, and those above it last. -/
def Partitioned {Entry : Type} (order : Entry → Ordering) (slice : List Entry) : Prop :=
  slice.Pairwise fun left right =>
    (order right = .lt → order left = .lt) ∧ (order left = .gt → order right = .gt)

/-- `binary_search_by`: the place of an entry that compares equal, where any of several may be
found, or the place at which there would be one. -/
structure BinarySearch (Entry : Type) where
  search : List Entry → (Entry → Ordering) → Except ℕ ℕ
  found : ∀ {slice order place}, Partitioned order slice → search slice order = .ok place →
    ∃ entry, slice[place]? = some entry ∧ order entry = .eq
  missing : ∀ {slice order place}, Partitioned order slice → search slice order = .error place →
    place ≤ slice.length ∧ (∀ entry ∈ slice.take place, order entry = .lt) ∧
      ∀ entry ∈ slice.drop place, order entry = .gt

section Search

variable {Entry : Type}

def searchFirst (order : Entry → Ordering) : List Entry → ℕ → Except ℕ ℕ
  | [], place => .error place
  | entry :: rest, place =>
    if order entry = .lt then searchFirst order rest (place + 1)
    else if order entry = .eq then .ok place else .error place

section

variable {order : Entry → Ordering} {slice : List Entry} {offset place : ℕ}

theorem searchFirst_found (ran : searchFirst order slice offset = .ok place) :
    ∃ before entry after, slice = before ++ entry :: after ∧ place = offset + before.length ∧
      order entry = .eq ∧ ∀ earlier ∈ before, order earlier = .lt := by
  induction slice generalizing offset with
  | nil => cases ran
  | cons first rest hypothesis =>
    rw [searchFirst] at ran
    split at ran
    · rename_i below
      obtain ⟨before, entry, after, rfl, rfl, equal, lower⟩ := hypothesis ran
      refine ⟨first :: before, entry, after, rfl, ?_, equal, fun earlier member => ?_⟩
      · rw [List.length_cons, Nat.add_right_comm, Nat.add_assoc]
      · exact (List.mem_cons.mp member).elim (fun same => same ▸ below) (lower earlier)
    · split at ran
      · rename_i equal
        exact ⟨[], first, rest, rfl, (Except.ok.inj ran).symm, equal,
          fun _ member => absurd member List.not_mem_nil⟩
      · cases ran

theorem searchFirst_missing (ordered : Partitioned order slice)
    (ran : searchFirst order slice offset = .error place) :
    ∃ before after, slice = before ++ after ∧ place = offset + before.length ∧
      (∀ entry ∈ before, order entry = .lt) ∧ ∀ entry ∈ after, order entry = .gt := by
  induction slice generalizing offset with
  | nil => exact ⟨[], [], rfl, (Except.error.inj ran).symm, fun _ member => absurd member
      List.not_mem_nil, fun _ member => absurd member List.not_mem_nil⟩
  | cons first rest hypothesis =>
    obtain ⟨firstOrdered, restOrdered⟩ := List.pairwise_cons.mp ordered
    rw [searchFirst] at ran
    split at ran
    · rename_i below
      obtain ⟨before, after, rfl, rfl, lower, higher⟩ := hypothesis restOrdered ran
      refine ⟨first :: before, after, rfl, ?_, fun entry member => ?_, higher⟩
      · rw [List.length_cons, Nat.add_right_comm, Nat.add_assoc]
      · exact (List.mem_cons.mp member).elim (fun same => same ▸ below) (lower entry)
    · split at ran
      · cases ran
      · rename_i notBelow notEqual
        have above : order first = .gt := by
          cases side : order first with
          | lt => exact absurd side notBelow
          | eq => exact absurd side notEqual
          | gt => rfl
        refine ⟨[], first :: rest, rfl, (Except.error.inj ran).symm, fun _ member => absurd member
          List.not_mem_nil, fun entry member => ?_⟩
        exact (List.mem_cons.mp member).elim (fun same => same ▸ above)
          fun later => (firstOrdered entry later).2 above

end

def firstSearch : BinarySearch Entry where
  search slice order := searchFirst order slice 0
  found := by
    intro slice order place _ ran
    obtain ⟨before, entry, after, rfl, rfl, equal, _⟩ := searchFirst_found ran
    refine ⟨entry, ?_, equal⟩
    rw [Nat.zero_add, List.getElem?_append_right le_rfl, Nat.sub_self]
    rfl
  missing := by
    intro slice order place ordered ran
    obtain ⟨before, after, rfl, rfl, lower, higher⟩ := searchFirst_missing ordered ran
    rw [Nat.zero_add, List.take_left, List.drop_left]
    exact ⟨(Nat.le_add_right _ _).trans_eq List.length_append.symm, lower, higher⟩

theorem firstSearch_ok {order : Entry → Ordering} {slice : List Entry} {place : ℕ}
    (ran : firstSearch.search slice order = .ok place) :
    ∀ entry ∈ slice.take place, order entry = .lt := by
  obtain ⟨before, entry, after, rfl, rfl, _, lower⟩ := searchFirst_found ran
  rw [Nat.zero_add, List.take_left]
  exact lower

end Search

theorem partitioned_compare {Entry Key : Type} [LinearOrder Key] {key : Entry → Key}
    {slice : List Entry} (sorted : slice.Pairwise fun left right => key left ≤ key right)
    (value : Key) : Partitioned (fun entry => compare (key entry) value) slice := by
  refine sorted.imp fun {left right} ordered => ⟨fun below => ?_, fun above => ?_⟩
  · exact compare_lt_iff_lt.mpr (ordered.trans_lt (compare_lt_iff_lt.mp below))
  · exact compare_gt_iff_gt.mpr ((compare_gt_iff_gt.mp above).trans_le ordered)

/-! ### Entries around a place -/

section Around

variable {Entry Key : Type} [LinearOrder Key] {key : Entry → Key} {slice : List Entry}
  {place : ℕ} {entry : Entry}

section

variable (read : slice[place]? = some entry)

include read

theorem take_succ_of_getElem? : slice.take (place + 1) = slice.take place ++ [entry] := by
  rw [List.take_add_one, read]
  rfl

theorem drop_of_getElem? : slice.drop place = entry :: slice.drop (place + 1) := by
  obtain ⟨inside, same⟩ := List.getElem?_eq_some_iff.mp read
  rw [List.drop_eq_getElem_cons inside, same]

theorem mem_take_of_getElem? {count : ℕ} (inside : place < count) : entry ∈ slice.take count := by
  refine List.mem_of_getElem? (i := place) ?_
  rw [List.getElem?_take_of_lt inside, read]

theorem mem_drop_of_getElem? {count : ℕ} (behind : count ≤ place) : entry ∈ slice.drop count := by
  refine List.mem_of_getElem? (i := place - count) ?_
  rw [List.getElem?_drop, Nat.add_sub_cancel' behind, read]

end

variable (sorted : slice.Pairwise fun left right => key left ≤ key right)

include sorted

theorem le_of_mem_take_drop {first last : Entry} (before : first ∈ slice.take place)
    (behind : last ∈ slice.drop place) : key first ≤ key last := by
  rw [← List.take_append_drop place slice] at sorted
  exact (List.pairwise_append.mp sorted).2.2 first before last behind

theorem le_of_mem_take (read : slice[place]? = some entry) {first : Entry}
    (before : first ∈ slice.take (place + 1)) : key first ≤ key entry := by
  rw [take_succ_of_getElem? read, List.mem_append, List.mem_singleton] at before
  rcases before with earlier | rfl
  · refine le_of_mem_take_drop sorted earlier ?_
    rw [drop_of_getElem? read]
    exact List.mem_cons_self
  · exact le_rfl

theorem le_of_mem_drop (read : slice[place]? = some entry) {last : Entry}
    (behind : last ∈ slice.drop (place + 1)) : key entry ≤ key last := by
  refine le_of_mem_take_drop sorted ?_ behind
  rw [take_succ_of_getElem? read]
  exact List.mem_append_right _ (List.mem_singleton_self entry)

end Around

/-! ### The weight up to a place -/

section Weights

variable {Item Place : Type} [LinearOrder Place] (place : Item → Place) (weight : Item → ℚ)

def mass : List Item → ℚ
  | [] => 0
  | item :: rest => weight item + mass rest

/-- The weight of the items that are not behind a place. -/
def massUpTo (last : Place) (items : List Item) : ℚ :=
  mass weight (items.filter (place · ≤ last))

theorem mass_append (left right : List Item) :
    mass weight (left ++ right) = mass weight left + mass weight right := by
  induction left with
  | nil => exact (zero_add _).symm
  | cons item rest hypothesis =>
    rw [List.cons_append, mass, mass, hypothesis, add_assoc]

theorem massUpTo_cons (last : Place) (item : Item) (rest : List Item) :
    massUpTo place weight last (item :: rest) =
      (if place item ≤ last then weight item else 0) + massUpTo place weight last rest := by
  unfold massUpTo
  rw [List.filter_cons]
  by_cases before : place item ≤ last
  · rw [if_pos (decide_eq_true before), if_pos before, mass]
  · rw [if_neg fun kept => before (of_decide_eq_true kept), if_neg before, zero_add]

theorem massUpTo_append (last : Place) (left right : List Item) :
    massUpTo place weight last (left ++ right) =
      massUpTo place weight last left + massUpTo place weight last right := by
  unfold massUpTo
  rw [List.filter_append, mass_append]

theorem mass_perm {left right : List Item} (same : left.Perm right) :
    mass weight left = mass weight right := by
  induction same with
  | nil => rfl
  | cons item _ hypothesis => rw [mass, mass, hypothesis]
  | swap first second rest => rw [mass, mass, mass, mass, add_left_comm]
  | trans _ _ leftHypothesis rightHypothesis => exact leftHypothesis.trans rightHypothesis

theorem massUpTo_perm {left right : List Item} (same : left.Perm right) (last : Place) :
    massUpTo place weight last left = massUpTo place weight last right :=
  mass_perm weight (same.filter _)

variable {place weight} {items : List Item} (positive : ∀ item ∈ items, 0 < weight item)

include positive

theorem mass_nonneg : 0 ≤ mass weight items := by
  induction items with
  | nil => exact le_rfl
  | cons item rest hypothesis =>
    exact add_nonneg (positive item List.mem_cons_self).le
      (hypothesis fun later member => positive later (List.mem_cons_of_mem item member))

theorem mass_pos (nonempty : items ≠ []) : 0 < mass weight items := by
  cases items with
  | nil => exact absurd rfl nonempty
  | cons item rest =>
    exact add_pos_of_pos_of_nonneg (positive item List.mem_cons_self)
      (mass_nonneg fun later member => positive later (List.mem_cons_of_mem item member))

theorem mass_take_lt {first last : ℕ} (ordered : first < last) (inside : last ≤ items.length) :
    mass weight (items.take first) < mass weight (items.take last) := by
  have split : items.take last = items.take first ++ (items.take last).drop first := by
    refine (List.take_append_drop first (items.take last)).symm.trans ?_
    rw [List.take_take, Nat.min_eq_left ordered.le]
  have more : (items.take last).drop first ≠ [] := by
    refine List.ne_nil_of_length_pos ?_
    rw [List.length_drop, List.length_take, Nat.min_eq_left inside]
    exact Nat.sub_pos_of_lt ordered
  rw [split, mass_append]
  exact lt_add_of_pos_right _ (mass_pos (fun item member => positive item
    (List.mem_of_mem_take (List.mem_of_mem_drop member))) more)

theorem mass_take_mono {first last : ℕ} (ordered : first ≤ last) (inside : last ≤ items.length) :
    mass weight (items.take first) ≤ mass weight (items.take last) := by
  rcases Nat.lt_or_eq_of_le ordered with less | same
  · exact (mass_take_lt positive less inside).le
  · rw [same]

theorem mass_take_le {last : Place} {count : ℕ}
    (before : ∀ item ∈ items.take count, place item ≤ last) :
    mass weight (items.take count) ≤ massUpTo place weight last items := by
  have split : massUpTo place weight last items = mass weight (items.take count) +
      mass weight ((items.drop count).filter (place · ≤ last)) := by
    unfold massUpTo
    conv_lhs => rw [← List.take_append_drop count items]
    rw [List.filter_append, mass_append,
      List.filter_eq_self.mpr fun item member => decide_eq_true (before item member)]
  rw [split]
  exact le_add_of_nonneg_right (mass_nonneg fun item member =>
    positive item (List.mem_of_mem_drop (List.mem_of_mem_filter member)))

theorem mass_filter_le (keeps : Item → Bool) :
    mass weight (items.filter keeps) ≤ mass weight items := by
  induction items with
  | nil => exact le_rfl
  | cons item rest hypothesis =>
    have later := hypothesis fun later member =>
      positive later (List.mem_cons_of_mem item member)
    by_cases kept : keeps item
    · rw [List.filter_cons_of_pos kept, mass, mass]
      exact add_le_add_right later _
    · rw [List.filter_cons_of_neg kept, mass]
      exact later.trans (le_add_of_nonneg_left (positive item List.mem_cons_self).le)

theorem massUpTo_le {last : Place} {count : ℕ}
    (behind : ∀ item ∈ items.drop count, last < place item) :
    massUpTo place weight last items ≤ mass weight (items.take count) := by
  have none : (items.drop count).filter (place · ≤ last) = [] :=
    List.filter_eq_nil_iff.mpr fun item member notBehind =>
      (of_decide_eq_true notBehind).not_gt (behind item member)
  unfold massUpTo
  conv_lhs => rw [← List.take_append_drop count items]
  rw [List.filter_append, none, List.append_nil]
  exact mass_filter_le (fun item member => positive item (List.mem_of_mem_take member)) _

end Weights

end AsapSketchlib
