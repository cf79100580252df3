/-
This file develops hash tables whose equality need not be reflexive and need not agree with
the hash, as with floating-point keys. What a lookup finds is then only bounded: a stored key
that equals the one looked up, and certainly one that is identical to it and equals itself.
The order of iteration is arbitrary.
-/

import Mathlib.Data.List.Range
import Mathlib.Algebra.BigOperators.Group.List.Basic
import Mathlib.Algebra.Order.Monoid.Defs

namespace AsapSketchlib

/-- The behaviour of a hash table for an equality test: where a lookup among stored keys ends,
and in which order a number of entries is visited. -/
structure HashTable (Key : Type) (equal : Key → Key → Bool) where
  find : List Key → Key → Option ℕ
  order : ℕ → List ℕ
  find_some : ∀ keys key place, find keys key = some place →
    ∃ stored, keys[place]? = some stored ∧ equal stored key = true
  find_none : ∀ keys key, find keys key = none → equal key key = true → key ∉ keys
  order_perm : ∀ count, (order count).Perm (List.range count)

namespace HashTable

variable {Key Value Entry : Type} {equal : Key → Key → Bool} (table : HashTable Key equal)

/-- The table that looks at all stored keys and iterates in the order of insertion. -/
def searching (equal : Key → Key → Bool) : HashTable Key equal where
  find := fun keys key => keys.findIdx? fun stored => equal stored key
  order := List.range
  find_some := by
    intro keys key place found
    obtain ⟨inside, equalKey, -⟩ := List.findIdx?_eq_some_iff_getElem.mp found
    exact ⟨keys[place], List.getElem?_eq_getElem inside, equalKey⟩
  find_none := by
    intro keys key missing reflexive member
    have different := List.findIdx?_eq_none_iff.mp missing key member
    exact Bool.false_ne_true (different.symm.trans reflexive)
  order_perm := fun _ => List.Perm.refl _

/-! ### Operations -/

def iterate (entries : List Entry) : List Entry :=
  (table.order entries.length).filterMap fun place => entries[place]?

/-- `HashMap::entry(key).and_modify(change).or_insert(value)`. -/
def upsert (change : Value → Value) (entries : List (Key × Value)) (key : Key) (value : Value) :
    List (Key × Value) :=
  match table.find (entries.map Prod.fst) key with
  | some place => entries.modify place fun entry => (entry.1, change entry.2)
  | none => entries ++ [(key, value)]

/-- Upserting pairs one after another; a key that is there gets its two values combined. -/
def upsertAll (combine : Value → Value → Value) (entries source : List (Key × Value)) :
    List (Key × Value) :=
  source.foldl (fun entries pair =>
    table.upsert (fun old => combine old pair.2) entries pair.1 pair.2) entries

/-- Collecting pairs into a `HashMap`: the value of a key that is there is replaced. -/
def collectMap (source : List (Key × Value)) : List (Key × Value) :=
  table.upsertAll (fun _ new => new) [] source

/-- `HashSet::insert`: a key that is there stays. -/
def insertKey (keys : List Key) (key : Key) : List Key :=
  match table.find keys key with
  | some _ => keys
  | none => keys ++ [key]

/-- Collecting keys into a `HashSet` and iterating over it. -/
def collectSet (source : List Key) : List Key :=
  table.iterate (source.foldl table.insertKey [])

/-! ### Iteration -/

theorem filterMap_range_getElem? (entries : List Entry) :
    ((List.range entries.length).filterMap fun place => entries[place]?) = entries := by
  induction entries using List.reverseRecOn with
  | nil => rfl
  | append_singleton front last hypothesis =>
    have earlier : ((List.range front.length).filterMap fun place => (front ++ [last])[place]?) =
        (List.range front.length).filterMap fun place => front[place]? := by
      refine List.filterMap_congr fun place member => ?_
      exact List.getElem?_append_left (List.mem_range.mp member)
    rw [List.length_append, List.length_singleton, List.range_succ, List.filterMap_append, earlier,
      hypothesis]
    simp only [List.filterMap_cons, List.getElem?_concat_length, List.filterMap_nil]

theorem iterate_perm (entries : List Entry) : (table.iterate entries).Perm entries := by
  refine ((table.order_perm entries.length).filterMap _).trans ?_
  rw [filterMap_range_getElem?]

/-! ### What is stored -/

/-- A key is held if it, or a key that equals it, is stored. -/
def Held (equal : Key → Key → Bool) (keys : List Key) (key : Key) : Prop :=
  ∃ stored ∈ keys, stored = key ∨ equal stored key = true

instance [DecidableEq Key] (keys : List Key) (key : Key) : Decidable (Held equal keys key) :=
  inferInstanceAs (Decidable (∃ stored ∈ keys, stored = key ∨ equal stored key = true))

variable {table}

theorem Held.of_subset {keys keys' : List Key} {key : Key} (held : Held equal keys key)
    (subset : ∀ stored ∈ keys, stored ∈ keys') : Held equal keys' key := by
  obtain ⟨stored, member, same⟩ := held
  exact ⟨stored, subset stored member, same⟩

theorem Held.of_mem {keys : List Key} {key : Key} (member : key ∈ keys) : Held equal keys key :=
  ⟨key, member, Or.inl rfl⟩

theorem Held.trans (transitive : ∀ first second third, equal first second = true →
      equal second third = true → equal first third = true)
    {keys keys' : List Key} {key : Key} (held : Held equal keys key)
    (all : ∀ stored ∈ keys, Held equal keys' stored) : Held equal keys' key := by
  obtain ⟨stored, member, same⟩ := held
  obtain ⟨other, otherMember, sameOther⟩ := all stored member
  refine ⟨other, otherMember, ?_⟩
  rcases same with rfl | equalKey
  · exact sameOther
  · rcases sameOther with rfl | equalStored
    · exact Or.inr equalKey
    · exact Or.inr (transitive other stored key equalStored equalKey)

theorem insertKey_subset (keys : List Key) (key : Key) :
    ∀ stored ∈ keys, stored ∈ table.insertKey keys key := by
  intro stored member
  unfold insertKey
  cases table.find keys key with
  | some place => exact member
  | none => exact List.mem_append_left _ member

theorem held_insertKey (keys : List Key) (key : Key) : Held equal (table.insertKey keys key) key := by
  unfold insertKey
  cases found : table.find keys key with
  | some place =>
    obtain ⟨stored, storedEq, equalKey⟩ := table.find_some keys key place found
    exact ⟨stored, List.mem_of_getElem? storedEq, Or.inr equalKey⟩
  | none => exact Held.of_mem (List.mem_append_right _ List.mem_cons_self)

theorem mem_insertKey {keys : List Key} {key : Key} :
    ∀ stored ∈ table.insertKey keys key, stored ∈ keys ∨ stored = key := by
  intro stored member
  unfold insertKey at member
  cases found : table.find keys key with
  | some place =>
    rw [found] at member
    exact Or.inl member
  | none =>
    rw [found] at member
    exact (List.mem_append.mp member).imp_right List.mem_singleton.mp

theorem length_insertKey_le (table : HashTable Key equal) (keys : List Key) (key : Key) :
    (table.insertKey keys key).length ≤ keys.length + 1 := by
  unfold insertKey
  cases table.find keys key with
  | some place => exact Nat.le_succ _
  | none => rw [List.length_append, List.length_singleton]

theorem insertKey_of_fresh {keys : List Key} {key : Key}
    (fresh : ∀ stored ∈ keys, equal stored key = false) :
    table.insertKey keys key = keys ++ [key] := by
  unfold insertKey
  cases found : table.find keys key with
  | some place =>
    obtain ⟨stored, storedEq, equalKey⟩ := table.find_some keys key place found
    rw [fresh stored (List.mem_of_getElem? storedEq)] at equalKey
    exact absurd equalKey Bool.false_ne_true
  | none => rfl

/-! ### Inserting many keys -/

variable (table) in
/-- `HashSet::insert` of keys one after another. -/
def insertKeys (keys source : List Key) : List Key := source.foldl table.insertKey keys

theorem insertKeys_cons (keys rest : List Key) (first : Key) :
    table.insertKeys keys (first :: rest) = table.insertKeys (table.insertKey keys first) rest := rfl

theorem insertKeys_subset (keys source : List Key) :
    ∀ stored ∈ keys, stored ∈ table.insertKeys keys source := by
  induction source generalizing keys with
  | nil => exact fun _ member => member
  | cons first rest hypothesis =>
    intro stored member
    exact hypothesis _ stored (insertKey_subset keys first stored member)

theorem held_insertKeys (keys source : List Key) :
    ∀ key ∈ source, Held equal (table.insertKeys keys source) key := by
  induction source generalizing keys with
  | nil => exact fun _ member => absurd member List.not_mem_nil
  | cons first rest hypothesis =>
    intro key member
    rcases List.mem_cons.mp member with rfl | later
    · exact (held_insertKey keys key).of_subset (insertKeys_subset _ rest)
    · exact hypothesis _ key later

theorem mem_insertKeys (keys source : List Key) :
    ∀ stored ∈ table.insertKeys keys source, stored ∈ keys ∨ stored ∈ source := by
  induction source generalizing keys with
  | nil => exact fun _ member => Or.inl member
  | cons first rest hypothesis =>
    intro stored member
    rcases hypothesis _ stored member with inserted | later
    · rcases mem_insertKey stored inserted with earlier | rfl
      · exact Or.inl earlier
      · exact Or.inr List.mem_cons_self
    · exact Or.inr (List.mem_cons_of_mem first later)

theorem length_insertKeys_le (table : HashTable Key equal) (keys source : List Key) :
    (table.insertKeys keys source).length ≤ keys.length + source.length := by
  induction source generalizing keys with
  | nil => exact Nat.le_refl _
  | cons first rest hypothesis =>
    refine (hypothesis _).trans ?_
    have grown := length_insertKey_le table keys first
    rw [List.length_cons]
    omega

theorem le_length_insertKeys (table : HashTable Key equal) (keys source : List Key) :
    keys.length ≤ (table.insertKeys keys source).length := by
  induction source generalizing keys with
  | nil => exact Nat.le_refl _
  | cons first rest hypothesis =>
    refine le_trans ?_ (hypothesis _)
    unfold insertKey
    cases table.find keys first with
    | some place => exact Nat.le_refl _
    | none =>
      rw [List.length_append]
      exact Nat.le_add_right _ _

theorem insertKeys_of_apart {keys source : List Key}
    (apart : (keys ++ source).Pairwise fun left right => equal left right = false) :
    table.insertKeys keys source = keys ++ source := by
  induction source generalizing keys with
  | nil => exact (List.append_nil keys).symm
  | cons first rest hypothesis =>
    have regrouped : keys ++ first :: rest = keys ++ [first] ++ rest := by
      rw [List.append_assoc, List.singleton_append]
    have fresh : ∀ stored ∈ keys, equal stored first = false := fun stored member =>
      (List.pairwise_append.mp apart).2.2 stored member first List.mem_cons_self
    rw [insertKeys_cons, insertKey_of_fresh fresh, regrouped]
    exact hypothesis (regrouped ▸ apart)

theorem apart_insertKeys {keys source : List Key}
    (identical : ∀ left ∈ keys ++ source, ∀ right ∈ keys ++ source, equal left right = true →
      left = right)
    (apart : keys.Pairwise fun left right => equal left right = false) :
    (table.insertKeys keys source).Pairwise fun left right => equal left right = false := by
  induction source generalizing keys with
  | nil => exact apart
  | cons first rest hypothesis =>
    have within : ∀ key ∈ table.insertKey keys first ++ rest, key ∈ keys ++ first :: rest := by
      intro key member
      rcases List.mem_append.mp member with inserted | later
      · rcases mem_insertKey key inserted with earlier | rfl
        · exact List.mem_append_left _ earlier
        · exact List.mem_append_right _ List.mem_cons_self
      · exact List.mem_append_right _ (List.mem_cons_of_mem first later)
    refine hypothesis
      (fun left leftMember right rightMember =>
        identical left (within left leftMember) right (within right rightMember)) ?_
    unfold insertKey
    cases found : table.find keys first with
    | some place => exact apart
    | none =>
      refine List.pairwise_append.mpr ⟨apart, List.pairwise_singleton _ _, ?_⟩
      intro stored member other isFirst
      rw [List.mem_singleton.mp isFirst]
      refine Bool.eq_false_iff.mpr fun equalKey => ?_
      have same := identical stored (List.mem_append_left _ member) first
        (List.mem_append_right _ List.mem_cons_self) equalKey
      rw [same] at member equalKey
      exact table.find_none keys first found equalKey member

theorem held_collectSet (source : List Key) :
    ∀ key ∈ source, Held equal (table.collectSet source) key := fun key member =>
  (held_insertKeys [] source key member).of_subset fun _ inSet =>
    (table.iterate_perm _).mem_iff.mpr inSet

theorem mem_of_mem_collectSet {source : List Key} :
    ∀ key ∈ table.collectSet source, key ∈ source := fun key member =>
  (mem_insertKeys [] source key ((table.iterate_perm _).mem_iff.mp member)).resolve_left
    List.not_mem_nil

/-! ### Maps -/

theorem map_fst_modify (change : Value → Value) (entries : List (Key × Value)) (place : ℕ) :
    (entries.modify place fun entry => (entry.1, change entry.2)).map Prod.fst =
      entries.map Prod.fst := by
  refine List.ext_getElem? fun other => ?_
  rw [List.getElem?_map, List.getElem?_map]
  by_cases here : place = other
  · rw [here, List.getElem?_modify_eq]
    cases entries[other]? with
    | none => rfl
    | some entry => rfl
  · rw [List.getElem?_modify_ne _ _ here]

theorem map_fst_upsert (change : Value → Value) (entries : List (Key × Value)) (key : Key)
    (value : Value) : (table.upsert change entries key value).map Prod.fst =
      table.insertKey (entries.map Prod.fst) key := by
  unfold upsert insertKey
  cases table.find (entries.map Prod.fst) key with
  | some place => exact map_fst_modify change entries place
  | none => rw [List.map_append, List.map_singleton]

theorem map_fst_upsertAll (combine : Value → Value → Value) (entries source : List (Key × Value)) :
    (table.upsertAll combine entries source).map Prod.fst =
      table.insertKeys (entries.map Prod.fst) (source.map Prod.fst) := by
  induction source generalizing entries with
  | nil => rfl
  | cons first rest hypothesis =>
    rw [upsertAll, List.foldl_cons, List.map_cons, insertKeys_cons,
      ← map_fst_upsert (fun old => combine old first.2)]
    exact hypothesis _

theorem upsertAll_of_apart (combine : Value → Value → Value) {entries source : List (Key × Value)}
    (apart : ((entries ++ source).map Prod.fst).Pairwise fun left right => equal left right = false) :
    table.upsertAll combine entries source = entries ++ source := by
  induction source generalizing entries with
  | nil => exact (List.append_nil entries).symm
  | cons first rest hypothesis =>
    have regrouped : entries ++ first :: rest = entries ++ [first] ++ rest := by
      rw [List.append_assoc, List.singleton_append]
    have missing : table.find (entries.map Prod.fst) first.1 = none := by
      cases found : table.find (entries.map Prod.fst) first.1 with
      | none => rfl
      | some place =>
        obtain ⟨stored, storedEq, equalKey⟩ := table.find_some _ first.1 place found
        rw [List.map_append] at apart
        have different := (List.pairwise_append.mp apart).2.2 stored
          (List.mem_of_getElem? storedEq) first.1 List.mem_cons_self
        exact absurd (different.symm.trans equalKey) Bool.false_ne_true
    have appended : table.upsert (fun old => combine old first.2) entries first.1 first.2 =
        entries ++ [first] := by
      simp only [upsert, missing]
    show table.upsertAll combine (table.upsert (fun old => combine old first.2) entries first.1
      first.2) rest = _
    rw [appended, regrouped]
    exact hypothesis (regrouped ▸ apart)

/-! ### Totals of a map -/

section Totals

variable {Total : Type} [AddCommMonoid Total] (weight : Key → Value → Total)

def weigh (entries : List (Key × Value)) : Total :=
  (entries.map fun entry => weight entry.1 entry.2).sum

theorem weigh_append (front back : List (Key × Value)) :
    weigh weight (front ++ back) = weigh weight front + weigh weight back := by
  unfold weigh
  rw [List.map_append, List.sum_append]

theorem weigh_singleton (key : Key) (value : Value) :
    weigh weight [(key, value)] = weight key value := List.sum_singleton

theorem weigh_perm {entries other : List (Key × Value)} (perm : entries.Perm other) :
    weigh weight entries = weigh weight other := (perm.map _).sum_eq

variable {weight}

variable (combine : Value → Value → Value)
  (additive : ∀ key old new, weight key (combine old new) = weight key old + weight key new)

include additive

theorem weigh_upsert {entries : List (Key × Value)} {key : Key} (value : Value)
    (alike : ∀ stored ∈ entries.map Prod.fst, equal stored key = true →
      weight stored = weight key) :
    weigh weight (table.upsert (fun old => combine old value) entries key value) =
      weigh weight entries + weight key value := by
  unfold upsert
  cases found : table.find (entries.map Prod.fst) key with
  | none => exact (weigh_append weight entries _).trans (by rw [weigh_singleton])
  | some place =>
    obtain ⟨stored, storedEq, equalKey⟩ := table.find_some _ key place found
    have same := alike stored (List.mem_of_getElem? storedEq) equalKey
    rw [List.getElem?_map, Option.map_eq_some_iff] at storedEq
    obtain ⟨entry, entryEq, rfl⟩ := storedEq
    obtain ⟨inside, rfl⟩ := List.getElem?_eq_some_iff.mp entryEq
    have cut : entries = entries.take place ++ entries[place] :: entries.drop (place + 1) := by
      rw [← List.drop_eq_getElem_cons inside, List.take_append_drop]
    show weigh weight (entries.modify place _) = _
    rw [List.modify_eq_take_cons_drop inside, weigh_append]
    conv_rhs => rw [cut, weigh_append]
    show weigh weight _ + (weight _ _ + weigh weight _) =
      weigh weight _ + (weight _ _ + weigh weight _) + weight key value
    rw [additive, ← same]
    ac_rfl

theorem weigh_upsertAll {entries source : List (Key × Value)}
    (alike : ∀ stored ∈ (entries ++ source).map Prod.fst, ∀ key ∈ source.map Prod.fst,
      equal stored key = true → weight stored = weight key) :
    weigh weight (table.upsertAll combine entries source) =
      weigh weight entries + weigh weight source := by
  induction source generalizing entries with
  | nil => exact (add_zero _).symm
  | cons first rest hypothesis =>
    have firstAlike : ∀ stored ∈ entries.map Prod.fst, equal stored first.1 = true →
        weight stored = weight first.1 := by
      intro stored member equalKey
      refine alike stored ?_ first.1 List.mem_cons_self equalKey
      rw [List.map_append]
      exact List.mem_append_left _ member
    have step : weigh weight (table.upsert (fun old => combine old first.2) entries first.1 first.2) =
        weigh weight entries + weight first.1 first.2 :=
      weigh_upsert combine additive first.2 firstAlike
    show weigh weight (table.upsertAll combine
      (table.upsert (fun old => combine old first.2) entries first.1 first.2) rest) = _
    rw [hypothesis, step, add_assoc]
    · rfl
    · intro stored member key keyMember equalKey
      refine alike stored ?_ key (List.mem_cons_of_mem _ keyMember) equalKey
      rw [List.map_append, map_fst_upsert] at member
      rw [List.map_append]
      rcases List.mem_append.mp member with inserted | isLater
      · rcases mem_insertKey stored inserted with earlier | rfl
        · exact List.mem_append_left _ earlier
        · exact List.mem_append_right _ List.mem_cons_self
      · exact List.mem_append_right _ (List.mem_cons_of_mem _ isLater)

end Totals

/-! ### Values of a map -/

theorem forall_upsert {good : Value → Prop} (change : Value → Value)
    {entries : List (Key × Value)} {key : Key} {value : Value}
    (all : ∀ entry ∈ entries, good entry.2) (new : good value)
    (changed : ∀ old, good old → good (change old)) :
    ∀ entry ∈ table.upsert change entries key value, good entry.2 := by
  unfold upsert
  cases table.find (entries.map Prod.fst) key with
  | none => exact List.forall_mem_append.mpr ⟨all, List.forall_mem_singleton.mpr new⟩
  | some place =>
    intro entry member
    obtain ⟨index, found⟩ := List.mem_iff_getElem?.mp member
    by_cases here : place = index
    · rw [here, List.getElem?_modify_eq] at found
      obtain ⟨old, oldEq, rfl⟩ := Option.map_eq_some_iff.mp found
      exact changed old.2 (all old (List.mem_of_getElem? oldEq))
    · rw [List.getElem?_modify_ne _ _ here] at found
      exact all entry (List.mem_of_getElem? found)

/-- Where combining weighs at least as much as both values, so does an upsert. -/
theorem add_le_weigh_upsert {Total : Type} [AddCommMonoid Total] [PartialOrder Total]
    [IsOrderedAddMonoid Total] {weight : Value → Total} {good : Value → Prop}
    (combine : Value → Value → Value)
    (superadditive : ∀ old new, good old → good new →
      weight old + weight new ≤ weight (combine old new))
    {entries : List (Key × Value)} {key : Key} {value : Value}
    (all : ∀ entry ∈ entries, good entry.2) (new : good value) :
    weigh (fun _ => weight) entries + weight value ≤
      weigh (fun _ => weight)
        (table.upsert (fun old => combine old value) entries key value) := by
  unfold upsert
  cases found : table.find (entries.map Prod.fst) key with
  | none =>
    show _ ≤ weigh (fun _ => weight) (entries ++ [(key, value)])
    rw [weigh_append, weigh_singleton]
  | some place =>
    obtain ⟨stored, storedEq, -⟩ := table.find_some _ key place found
    rw [List.getElem?_map, Option.map_eq_some_iff] at storedEq
    obtain ⟨entry, entryEq, -⟩ := storedEq
    obtain ⟨inside, rfl⟩ := List.getElem?_eq_some_iff.mp entryEq
    have cut : entries = entries.take place ++ entries[place] :: entries.drop (place + 1) := by
      rw [← List.drop_eq_getElem_cons inside, List.take_append_drop]
    have grown := superadditive entries[place].2 value (all _ (List.getElem_mem inside)) new
    show _ ≤ weigh (fun _ => weight) (entries.modify place _)
    rw [List.modify_eq_take_cons_drop inside, weigh_append]
    conv_lhs => rw [cut, weigh_append]
    show weigh (fun _ => weight) (entries.take place) +
        (weight entries[place].2 + weigh (fun _ => weight) (entries.drop (place + 1))) +
          weight value ≤
      weigh (fun _ => weight) (entries.take place) +
        (weight (combine entries[place].2 value) +
          weigh (fun _ => weight) (entries.drop (place + 1)))
    rw [add_assoc, add_right_comm (weight entries[place].2)]
    exact add_le_add (le_refl _) (add_le_add grown (le_refl _))

end HashTable

end AsapSketchlib
