/-
This file models what a KLL sketch answers: the rank of a value, the table of cumulative weights,
and the two binary searches in the table, over its values and over its weights. Ranks and answers
agree as long as no value is held twice: among equal entries the search over the values may end at
any, and only the last one has the weight of all of them.

The arithmetic is exact and there is no NaN.
-/

import AsapSketchlib.KllSettles
import AsapSketchlib.SortedSlices

namespace AsapSketchlib

structure CdfEntry (F : Type) where
  value : F
  quantile : ℚ

structure Cdf (F : Type) where
  entries : List (CdfEntry F)

namespace Cdf

variable {F : Type} [LinearOrder F] (searching : BinarySearch (CdfEntry F)) (table : Cdf F)

/-- `Cdf::quantile`. -/
def quantile (x : F) : Option ℚ :=
  if table.entries.isEmpty then some 0
  else
    match searching.search table.entries fun entry => compare entry.value x with
    | .ok place => table.entries[place]?.map CdfEntry.quantile
    | .error 0 => some 0
    | .error (place + 1) => table.entries[place]?.map CdfEntry.quantile

/-- `Cdf::query`. -/
def query [Zero F] (p : ℚ) : Option F :=
  if table.entries.isEmpty then some 0
  else
    match searching.search table.entries fun entry => compare entry.quantile p with
    | .ok place => table.entries[place]?.map CdfEntry.value
    | .error place =>
      if place = table.entries.length then
        table.entries[table.entries.length - 1]?.map CdfEntry.value
      else table.entries[place]?.map CdfEntry.value

end Cdf

namespace KLL

open Kll

variable {Value Coin F : Type}

/-! ### Ranks and the table -/

def gatherLevel (toF64 : Value → F) (sketch : KLL Value Coin)
    (gathered : List (CdfEntry F) × ℕ) (h : ℕ) : Option (List (CdfEntry F) × ℕ) := do
  let items ← sketch.levelItems h
  let size ← sketch.levelSize h
  some (gathered.1 ++ items.map fun value => ⟨toF64 value, (2 ^ h : ℕ)⟩,
    gathered.2 + size * 2 ^ h)

/-- The loop that makes the weights cumulative and divides them by the whole weight. -/
def accumulate (totalW : ℕ) : ℚ → List (CdfEntry F) → List (CdfEntry F)
  | _, [] => []
  | curW, entry :: rest =>
    { entry with quantile := (curW + entry.quantile) / totalW } ::
      accumulate totalW (curW + entry.quantile) rest

def cdf [LinearOrder F] (toF64 : Value → F) (sorting : UnstableSort (CdfEntry F) F CdfEntry.value)
    (sketch : KLL Value Coin) : Option (Cdf F) := do
  let stop ← sketch.levels[sketch.numLevels]?
  let first ← sketch.levels[0]?
  let _ ← minus stop first
  let gathered ← (List.range sketch.numLevels).foldlM (gatherLevel toF64 sketch) ([], 0)
  some ⟨if gathered.2 = 0 then gathered.1
    else accumulate gathered.2 0 (sorting.sort gathered.1)⟩

def quantile [LinearOrder F] [Zero F] (toF64 : Value → F)
    (sorting : UnstableSort (CdfEntry F) F CdfEntry.value) (searching : BinarySearch (CdfEntry F))
    (sketch : KLL Value Coin) (q : ℚ) : Option F := do
  let table ← sketch.cdf toF64 sorting
  table.query searching q

def rank [LinearOrder F] (toF64 : Value → F) (sketch : KLL Value Coin) (x : F) : Option ℕ :=
  (List.range sketch.numLevels).foldlM (fun r h => do
    let items ← sketch.levelItems h
    some (items.foldl (fun r value => if toF64 value ≤ x then r + 2 ^ h else r) r)) 0

def count (sketch : KLL Value Coin) : Option ℕ :=
  (List.range sketch.numLevels).foldlM (fun total h => do
    let size ← sketch.levelSize h
    some (total + size * 2 ^ h)) 0

/-! ### The items with their weights -/

def levelOf (sketch : KLL Value Coin) (h : ℕ) : List Value := (sketch.levelItems h).getD []

def retained (sketch : KLL Value Coin) : List Value :=
  (List.range sketch.numLevels).flatMap sketch.levelOf

def weightedLevel (toF64 : Value → F) (sketch : KLL Value Coin) (h : ℕ) : List (CdfEntry F) :=
  (sketch.levelOf h).map fun value => ⟨toF64 value, (2 ^ h : ℕ)⟩

def weighted (toF64 : Value → F) (sketch : KLL Value Coin) : List (CdfEntry F) :=
  (List.range sketch.numLevels).flatMap (sketch.weightedLevel toF64)

theorem values_weighted (toF64 : Value → F) (sketch : KLL Value Coin) :
    (sketch.weighted toF64).map CdfEntry.value = sketch.retained.map toF64 := by
  unfold weighted retained
  rw [List.map_flatMap, List.map_flatMap]
  exact List.flatMap_congr fun h _ => List.map_map

theorem positive_weighted (toF64 : Value → F) (sketch : KLL Value Coin) :
    ∀ entry ∈ sketch.weighted toF64, 0 < entry.quantile := by
  intro entry member
  obtain ⟨h, _, inLevel⟩ := List.mem_flatMap.mp member
  obtain ⟨value, _, rfl⟩ := List.mem_map.mp inLevel
  exact Nat.cast_pos.mpr (Nat.two_pow_pos h)

theorem foldlM_eq_some {Acc Elem : Type} {step : Acc → Elem → Option Acc} {next : Acc → Elem → Acc}
    {elems : List Elem} (each : ∀ acc, ∀ elem ∈ elems, step acc elem = some (next acc elem))
    (first : Acc) : elems.foldlM step first = some (elems.foldl next first) := by
  induction elems generalizing first with
  | nil => rfl
  | cons elem rest hypothesis =>
    rw [List.foldlM_cons, each first elem List.mem_cons_self, Option.bind_eq_bind, Option.bind_some,
      hypothesis fun acc later member => each acc later (List.mem_cons_of_mem elem member)]
    rfl

theorem mass_level (toF64 : Value → F) (items : List Value) (weight : ℕ) :
    mass CdfEntry.quantile (items.map fun value => (⟨toF64 value, weight⟩ : CdfEntry F)) =
      (items.length * weight : ℕ) := by
  induction items with
  | nil => rw [List.length_nil, Nat.zero_mul, Nat.cast_zero, List.map_nil, mass]
  | cons item rest hypothesis =>
    rw [List.map_cons, mass, hypothesis, List.length_cons, Nat.add_one_mul, Nat.add_comm,
      Nat.cast_add]

theorem rank_level [LinearOrder F] (toF64 : Value → F) (items : List Value) (weight : ℕ) (x : F)
    (r : ℕ) :
    ((items.foldl (fun r value => if toF64 value ≤ x then r + weight else r) r : ℕ) : ℚ) =
      r + massUpTo CdfEntry.value CdfEntry.quantile x
        (items.map fun value => (⟨toF64 value, weight⟩ : CdfEntry F)) := by
  induction items generalizing r with
  | nil => exact (add_zero _).symm
  | cons item rest hypothesis =>
    rw [List.foldl_cons, hypothesis, List.map_cons, massUpTo_cons]
    by_cases below : toF64 item ≤ x
    · rw [if_pos below, if_pos below, Nat.cast_add, add_assoc]
    · rw [if_neg below, if_neg below, zero_add]

section Levels

variable (toF64 : Value → F) (sketch : KLL Value Coin) (hs : List ℕ)

theorem foldl_gather (gathered : List (CdfEntry F) × ℕ) :
    hs.foldl (fun gathered h => (gathered.1 ++ sketch.weightedLevel toF64 h,
        gathered.2 + (sketch.levelOf h).length * 2 ^ h)) gathered =
      (gathered.1 ++ hs.flatMap (sketch.weightedLevel toF64),
        hs.foldl (fun total h => total + (sketch.levelOf h).length * 2 ^ h) gathered.2) := by
  induction hs generalizing gathered with
  | nil => rw [List.flatMap_nil, List.append_nil, List.foldl_nil, List.foldl_nil]
  | cons h rest hypothesis =>
    rw [List.foldl_cons, hypothesis, List.flatMap_cons, List.append_assoc, List.foldl_cons]

theorem foldl_count (total : ℕ) :
    ((hs.foldl (fun total h => total + (sketch.levelOf h).length * 2 ^ h) total : ℕ) : ℚ) =
      total + mass CdfEntry.quantile (hs.flatMap (sketch.weightedLevel toF64)) := by
  induction hs generalizing total with
  | nil => exact (add_zero _).symm
  | cons h rest hypothesis =>
    rw [List.foldl_cons, hypothesis, List.flatMap_cons, mass_append, weightedLevel,
      mass_level, Nat.cast_add, add_assoc]

theorem foldl_rank [LinearOrder F] (x : F) (r : ℕ) :
    ((hs.foldl (fun r h => (sketch.levelOf h).foldl
        (fun r value => if toF64 value ≤ x then r + 2 ^ h else r) r) r : ℕ) : ℚ) =
      r + massUpTo CdfEntry.value CdfEntry.quantile x
        (hs.flatMap (sketch.weightedLevel toF64)) := by
  induction hs generalizing r with
  | nil => exact (add_zero _).symm
  | cons h rest hypothesis =>
    rw [List.foldl_cons, hypothesis, rank_level, List.flatMap_cons, massUpTo_append,
      add_assoc]
    rfl

end Levels

namespace Formed

variable {sketch : KLL Value Coin} (formed : Formed sketch)

include formed

theorem levelItems_eq {h : ℕ} (inside : h < sketch.numLevels) :
    sketch.levelItems h = some (sketch.levelOf h) ∧
      sketch.levelSize h = some (sketch.levelOf h).length := by
  obtain ⟨items, read, size⟩ := formed.levelItems_spec inside
  have same : sketch.levelOf h = items := by
    unfold levelOf
    rw [read]
    rfl
  rw [same]
  exact ⟨read, (formed.levelSize_eq inside).trans (congrArg some size.symm)⟩

theorem count_eq (toF64 : Value → F) : ∃ total, sketch.count = some total ∧
    (total : ℚ) = mass CdfEntry.quantile (sketch.weighted toF64) ∧
      (List.range sketch.numLevels).foldlM (gatherLevel toF64 sketch) ([], 0) =
        some (sketch.weighted toF64, total) := by
  have inside : ∀ h ∈ List.range sketch.numLevels, h < sketch.numLevels := fun h member =>
    List.mem_range.mp member
  have whole := foldl_count toF64 sketch (List.range sketch.numLevels) 0
  rw [Nat.cast_zero, zero_add] at whole
  refine ⟨_, foldlM_eq_some (fun total h member => ?_) 0, whole, ?_⟩
  · rw [(formed.levelItems_eq (inside h member)).2]
    rfl
  · refine (foldlM_eq_some (fun gathered h member => ?_) _).trans
      (congrArg some (foldl_gather toF64 sketch _ ([], 0)))
    unfold gatherLevel
    rw [(formed.levelItems_eq (inside h member)).1, (formed.levelItems_eq (inside h member)).2]
    rfl

theorem rank_eq [LinearOrder F] (toF64 : Value → F) (x : F) : ∃ r, sketch.rank toF64 x = some r ∧
    (r : ℚ) = massUpTo CdfEntry.value CdfEntry.quantile x (sketch.weighted toF64) := by
  have ranked := foldl_rank toF64 sketch (List.range sketch.numLevels) x 0
  rw [Nat.cast_zero, zero_add] at ranked
  refine ⟨_, foldlM_eq_some (fun r h member => ?_) 0, ranked⟩
  rw [(formed.levelItems_eq (List.mem_range.mp member)).1]
  rfl

end Formed

/-! ### The table of a sorted list -/

section

variable (totalW : ℕ) (curW : ℚ) (entries : List (CdfEntry F))

theorem getElem?_accumulate (place : ℕ) :
    (accumulate totalW curW entries)[place]? = entries[place]?.map fun entry =>
      ⟨entry.value, (curW + mass CdfEntry.quantile (entries.take (place + 1))) / totalW⟩ := by
  induction entries generalizing curW place with
  | nil => rfl
  | cons entry rest hypothesis =>
    cases place with
    | zero =>
      show some _ = some _
      rw [List.take_succ_cons, List.take_zero, mass, mass, add_zero]
    | succ place =>
      rw [accumulate, List.getElem?_cons_succ, List.getElem?_cons_succ, hypothesis,
        List.take_succ_cons, mass, add_assoc]

theorem values_accumulate :
    (accumulate totalW curW entries).map CdfEntry.value = entries.map CdfEntry.value := by
  induction entries generalizing curW with
  | nil => rfl
  | cons entry rest hypothesis =>
    rw [accumulate, List.map_cons, List.map_cons, hypothesis]

theorem length_accumulate : (accumulate totalW curW entries).length = entries.length := by
  rw [← List.length_map CdfEntry.value, values_accumulate, List.length_map]

end

section

variable (totalW : ℕ) (curW : ℚ) {entries : List (CdfEntry F)}
  (positive : ∀ entry ∈ entries, 0 < entry.quantile)

include positive

theorem le_of_mem_accumulate :
    ∀ entry ∈ accumulate totalW curW entries, curW / totalW ≤ entry.quantile := by
  induction entries generalizing curW with
  | nil => exact fun _ member => absurd member List.not_mem_nil
  | cons first rest hypothesis =>
    obtain ⟨firstPositive, restPositive⟩ := List.forall_mem_cons.mp positive
    have own : curW / totalW ≤ (curW + first.quantile) / totalW :=
      div_le_div_of_nonneg_right (le_add_of_nonneg_right firstPositive.le) (Nat.cast_nonneg totalW)
    intro entry member
    rcases List.mem_cons.mp member with rfl | later
    · exact own
    · exact own.trans (hypothesis _ restPositive entry later)

theorem rising_accumulate : (accumulate totalW curW entries).Pairwise
      fun left right => left.quantile ≤ right.quantile := by
  induction entries generalizing curW with
  | nil => exact List.Pairwise.nil
  | cons first rest hypothesis =>
    obtain ⟨_, restPositive⟩ := List.forall_mem_cons.mp positive
    exact List.pairwise_cons.mpr ⟨le_of_mem_accumulate totalW _ restPositive,
      hypothesis _ restPositive⟩

end

/-- What the table says of a value is the weight of the entries up to a place. These are not above
the value, the entries behind them are not below it, and an equal entry among those has an equal
one before it. -/
structure ReadAt [LinearOrder F] (entries : List (CdfEntry F)) (x : F) (place : ℕ) : Prop where
  inside : place ≤ entries.length
  before : ∀ entry ∈ entries.take place, entry.value ≤ x
  behind : ∀ entry ∈ entries.drop place, x ≤ entry.value
  equal : ∀ entry ∈ entries.drop place, entry.value = x →
    ∃ earlier ∈ entries.take place, earlier.value = x

theorem isEmpty_accumulate (totalW : ℕ) (curW : ℚ) {entries : List (CdfEntry F)}
    (nonempty : entries ≠ []) : (accumulate totalW curW entries).isEmpty = false := by
  cases entries with
  | nil => exact absurd rfl nonempty
  | cons entry rest => rfl

section Table

variable [LinearOrder F] {entries : List (CdfEntry F)} (totalW : ℕ)
  (sorted : entries.Pairwise fun left right => left.value ≤ right.value)
  (nonempty : entries ≠ [])

include sorted in
theorem sorted_accumulate (curW : ℚ) : (accumulate totalW curW entries).Pairwise
    fun left right => left.value ≤ right.value := by
  have values : ((accumulate totalW curW entries).map CdfEntry.value).Pairwise (· ≤ ·) := by
    rw [values_accumulate]
    exact List.pairwise_map.mpr sorted
  exact List.pairwise_map.mp values

include sorted nonempty in
/-- A value is answered by the weight of the entries up to a place. -/
theorem quantile_accumulate (searching : BinarySearch (CdfEntry F)) (x : F) :
    ∃ place, (Cdf.mk (accumulate totalW 0 entries)).quantile searching x =
        some (mass CdfEntry.quantile (entries.take place) / totalW) ∧ ReadAt entries x place := by
  have ordered := partitioned_compare (sorted_accumulate totalW sorted 0) x
  have length := length_accumulate totalW 0 entries
  unfold Cdf.quantile
  simp only [isEmpty_accumulate _ _ nonempty, Bool.false_eq_true, if_false]
  cases outcome : searching.search (accumulate totalW 0 entries)
      fun entry => compare entry.value x with
  | ok place =>
    obtain ⟨found, read, equal⟩ := searching.found ordered outcome
    rw [getElem?_accumulate, Option.map_eq_some_iff] at read
    obtain ⟨entry, own, rfl⟩ := read
    have same : entry.value = x := compare_eq_iff_eq.mp equal
    refine ⟨place + 1, ?_, ⟨?_, fun first before => ?_, fun last behind => ?_, fun _ _ _ => ?_⟩⟩
    · simp only [getElem?_accumulate, own, Option.map_some, zero_add]
    · exact (List.getElem?_eq_some_iff.mp own).1
    · exact (le_of_mem_take sorted own before).trans_eq same
    · exact same.symm.trans_le (le_of_mem_drop sorted own behind)
    · refine ⟨entry, ?_, same⟩
      rw [take_succ_of_getElem? own]
      exact List.mem_append_right _ (List.mem_singleton_self entry)
  | error place =>
    obtain ⟨inside, lower, higher⟩ := searching.missing ordered outcome
    have before : ∀ entry ∈ entries.take place, entry.value < x := by
      intro entry member
      have valued := List.mem_map_of_mem (f := CdfEntry.value) member
      rw [List.map_take, ← values_accumulate totalW 0, ← List.map_take] at valued
      obtain ⟨tabled, tabledMember, same⟩ := List.mem_map.mp valued
      exact same ▸ compare_lt_iff_lt.mp (lower tabled tabledMember)
    have behind : ∀ entry ∈ entries.drop place, x < entry.value := by
      intro entry member
      have valued := List.mem_map_of_mem (f := CdfEntry.value) member
      rw [List.map_drop, ← values_accumulate totalW 0, ← List.map_drop] at valued
      obtain ⟨tabled, tabledMember, same⟩ := List.mem_map.mp valued
      exact same ▸ compare_gt_iff_gt.mp (higher tabled tabledMember)
    refine ⟨place, ?_, ⟨inside.trans_eq length, fun entry member => (before entry member).le,
      fun entry member => (behind entry member).le,
      fun entry member same => absurd same (behind entry member).ne'⟩⟩
    cases place with
    | zero => rw [List.take_zero, mass, zero_div]
    | succ place =>
      have entryInside : place < entries.length := inside.trans_eq length
      simp only [getElem?_accumulate, List.getElem?_eq_getElem entryInside, Option.map_some,
        zero_add]

include sorted in
/-- The search that ends at the first of several equal entries leaves out the weight of the later
ones. -/
theorem quantile_firstSearch {x : F} {place : ℕ} {entry : CdfEntry F}
    (own : entries[place]? = some entry) (same : entry.value = x) :
    ∃ first ≤ place, (Cdf.mk (accumulate totalW 0 entries)).quantile firstSearch x =
      some (mass CdfEntry.quantile (entries.take (first + 1)) / totalW) := by
  have inside := (List.getElem?_eq_some_iff.mp own).1
  have ordered := partitioned_compare (sorted_accumulate totalW sorted 0) x
  have tabled : ∃ held, (accumulate totalW 0 entries)[place]? = some held ∧ held.value = x := by
    rw [getElem?_accumulate, own]
    exact ⟨_, rfl, same⟩
  obtain ⟨held, read, equal⟩ := tabled
  unfold Cdf.quantile
  simp only [isEmpty_accumulate _ _ (List.ne_nil_of_length_pos (Nat.zero_lt_of_lt inside)),
    Bool.false_eq_true, if_false]
  cases outcome : firstSearch.search (accumulate totalW 0 entries)
      fun entry => compare entry.value x with
  | ok first =>
    have before : first ≤ place := by
      refine not_lt.mp fun later => ?_
      have lower := firstSearch_ok outcome held (mem_take_of_getElem? read later)
      exact (compare_lt_iff_lt.mp lower).ne equal
    have ownFirst := List.getElem?_eq_getElem (before.trans_lt inside)
    refine ⟨first, before, ?_⟩
    simp only [getElem?_accumulate, ownFirst, Option.map_some, zero_add]
  | error first =>
    obtain ⟨_, lower, higher⟩ := firstSearch.missing ordered outcome
    rcases Nat.lt_or_ge place first with earlier | later
    · exact absurd equal (compare_lt_iff_lt.mp (lower held (mem_take_of_getElem? read earlier))).ne
    · exact absurd equal (compare_gt_iff_gt.mp (higher held (mem_drop_of_getElem? read later))).ne'

end Table

section Shares

variable {entries : List (CdfEntry F)} {totalW : ℕ}
  (positive : ∀ entry ∈ entries, 0 < entry.quantile) (nonempty : entries ≠ [])
  (whole : (totalW : ℚ) = mass CdfEntry.quantile entries)

/-- The place of the entry that answers a share: the weight does not reach the share before, and
reaches it there, unless the table ends there. -/
structure ReachedAt (entries : List (CdfEntry F)) (totalW : ℕ) (q : ℚ) (place : ℕ) : Prop where
  before : place = 0 ∨ mass CdfEntry.quantile (entries.take place) < q * totalW
  reached : place + 1 = entries.length ∨
    q * totalW ≤ mass CdfEntry.quantile (entries.take (place + 1))

include nonempty positive whole

/-- A share is answered by the value of the entry with which the weight reaches it. -/
theorem query_accumulate [Zero F] (searching : BinarySearch (CdfEntry F)) (q : ℚ) :
    ∃ place entry, entries[place]? = some entry ∧
      (Cdf.mk (accumulate totalW 0 entries)).query searching q = some entry.value ∧
      ReachedAt entries totalW q place := by
  have heavy : (0 : ℚ) < totalW := whole ▸ mass_pos positive nonempty
  have ordered := partitioned_compare (rising_accumulate totalW 0 positive) q
  have length := length_accumulate totalW 0 entries
  have tabled : ∀ {place : ℕ} {entry : CdfEntry F}, entries[place]? = some entry →
      (accumulate totalW 0 entries)[place]? = some
        ⟨entry.value, mass CdfEntry.quantile (entries.take (place + 1)) / totalW⟩ := by
    intro place entry own
    rw [getElem?_accumulate, own, Option.map_some, zero_add]
  unfold Cdf.query
  simp only [isEmpty_accumulate _ _ nonempty, Bool.false_eq_true, if_false]
  cases outcome : searching.search (accumulate totalW 0 entries)
      fun entry => compare entry.quantile q with
  | ok place =>
    obtain ⟨found, read, equal⟩ := searching.found ordered outcome
    have inside : place < entries.length := (List.getElem?_eq_some_iff.mp read).1.trans_eq length
    have own := List.getElem?_eq_getElem inside
    rw [tabled own] at read
    have reached : mass CdfEntry.quantile (entries.take (place + 1)) / totalW = q :=
      (congrArg CdfEntry.quantile (Option.some.inj read)).trans (compare_eq_iff_eq.mp equal)
    have product := (div_eq_iff heavy.ne').mp reached
    refine ⟨place, _, own, ?_, .inr ?_, .inr product.ge⟩
    · simp only [tabled own, Option.map_some]
    · exact (mass_take_lt positive (Nat.lt_succ_self place) inside).trans_eq product
  | error place =>
    obtain ⟨within, lower, higher⟩ := searching.missing ordered outcome
    rw [length] at within
    have below : ∀ count ≤ place, count = 0 ∨
        mass CdfEntry.quantile (entries.take count) < q * totalW := by
      intro count few
      cases count with
      | zero => exact .inl rfl
      | succ count =>
        have read := tabled (List.getElem?_eq_getElem (Nat.lt_of_succ_le (few.trans within)))
        have before := lower _ (mem_take_of_getElem? read few)
        exact .inr ((div_lt_iff₀ heavy).mp (compare_lt_iff_lt.mp before))
    simp only [length]
    by_cases last : place = entries.length
    · have least : 0 < entries.length := List.length_pos_iff.mpr nonempty
      have own := List.getElem?_eq_getElem (Nat.sub_lt least Nat.one_pos)
      refine ⟨entries.length - 1, _, own, ?_, below _ ((Nat.sub_le _ _).trans_eq last.symm),
        .inl (Nat.sub_add_cancel least)⟩
      simp only [if_pos last, tabled own, Option.map_some]
    · have inside : place < entries.length := lt_of_le_of_ne within last
      have own := List.getElem?_eq_getElem inside
      have above := higher _ (mem_drop_of_getElem? (tabled own) le_rfl)
      refine ⟨place, _, own, ?_, below place le_rfl,
        .inr ((lt_div_iff₀ heavy).mp (compare_gt_iff_gt.mp above)).le⟩
      simp only [if_neg last, tabled own, Option.map_some]

omit nonempty whole in
theorem ReachedAt.le {p q : ℚ} (ordered : p ≤ q) {first last : ℕ}
    (firstReached : ReachedAt entries totalW p first) (lastReached : ReachedAt entries totalW q last)
    (inside : first < entries.length) : first ≤ last := by
  refine not_lt.mp fun earlier => ?_
  have before := firstReached.before.resolve_left (Nat.ne_zero_of_lt earlier)
  have reached := lastReached.reached.resolve_left
    ((Nat.succ_le_of_lt earlier).trans_lt inside).ne
  have steps : mass CdfEntry.quantile (entries.take (last + 1)) ≤
      mass CdfEntry.quantile (entries.take first) :=
    mass_take_mono positive (Nat.succ_le_of_lt earlier) inside.le
  have shares : p * totalW ≤ q * totalW := mul_le_mul_of_nonneg_right ordered (Nat.cast_nonneg _)
  exact ((reached.trans steps).trans_lt before).not_ge shares

end Shares

/-! ### When ranks and answers agree -/

section Agreement

variable [LinearOrder F] (toF64 : Value → F)
  (sorting : UnstableSort (CdfEntry F) F CdfEntry.value) {sketch : KLL Value Coin}

/-- The entries of the table in their order, before the weights are made cumulative. -/
def tabled (sketch : KLL Value Coin) : List (CdfEntry F) := sorting.sort (sketch.weighted toF64)

theorem positive_tabled (sketch : KLL Value Coin) : ∀ entry ∈ sketch.tabled toF64 sorting, 0 < entry.quantile :=
  fun entry member => positive_weighted toF64 sketch entry ((sorting.perm _).mem_iff.mp member)

theorem tabled_ne_nil (sketch : KLL Value Coin) (items : sketch.retained ≠ []) : sketch.tabled toF64 sorting ≠ [] := by
  intro none
  have same := sorting.perm (sketch.weighted toF64)
  rw [show sorting.sort (sketch.weighted toF64) = [] from none] at same
  have values := values_weighted toF64 sketch
  rw [same.nil_eq.symm, List.map_nil] at values
  exact items (List.map_eq_nil_iff.mp values.symm)

theorem perm_values_tabled (sketch : KLL Value Coin) :
    ((sketch.tabled toF64 sorting).map CdfEntry.value).Perm
    (sketch.retained.map toF64) := by
  rw [← values_weighted]
  exact (sorting.perm _).map _

theorem Formed.cdf_eq (formed : Formed sketch) (items : sketch.retained ≠ []) :
    ∃ total, sketch.count = some total ∧
      (total : ℚ) = mass CdfEntry.quantile (sketch.tabled toF64 sorting) ∧
      sketch.cdf toF64 sorting = some ⟨accumulate total 0 (sketch.tabled toF64 sorting)⟩ := by
  obtain ⟨total, counted, weight, gathered⟩ := formed.count_eq toF64
  have whole : (total : ℚ) = mass CdfEntry.quantile (sketch.tabled toF64 sorting) :=
    weight.trans (mass_perm _ (sorting.perm _)).symm
  have heavy : total ≠ 0 := by
    intro none
    rw [none, Nat.cast_zero] at whole
    exact (mass_pos (positive_tabled toF64 sorting sketch) (tabled_ne_nil toF64 sorting sketch items)).ne whole
  have ends : minus (sketch.start sketch.numLevels) (sketch.start 0) = _ :=
    minus_of_le (formed.start_mono (Nat.zero_le _) le_rfl)
  refine ⟨total, counted, whole, ?_⟩
  unfold cdf
  rw [formed.getElem?_levels formed.height, formed.getElem?_levels (Nat.zero_le _)]
  simp only [Option.bind_eq_bind, Option.bind_some, ends, gathered, if_neg heavy]
  rfl

theorem Formed.rank_tabled (formed : Formed sketch) (x : F) : ∃ r, sketch.rank toF64 x = some r ∧
    (r : ℚ) = massUpTo CdfEntry.value CdfEntry.quantile x (sketch.tabled toF64 sorting) := by
  obtain ⟨r, ranked, weight⟩ := formed.rank_eq toF64 x
  exact ⟨r, ranked, weight.trans (massUpTo_perm _ _ (sorting.perm _) x).symm⟩

/-- Ranks and answers agree: an answer to a share is the smallest item whose rank reaches it, the
share of a value is its rank, and neither falls when its argument rises. -/
structure Agreement [Zero F] (searching : BinarySearch (CdfEntry F)) (sketch : KLL Value Coin) :
    Prop where
  smallest : ∀ q : ℚ, 0 < q → q ≤ 1 → ∃ value total, sketch.count = some total ∧
    sketch.quantile toF64 sorting searching q = some value ∧
      IsLeast {held | held ∈ sketch.retained.map toF64 ∧
        ∃ r, sketch.rank toF64 held = some r ∧ q * total ≤ r} value
  weight : ∀ x, ∃ table share total r, sketch.cdf toF64 sorting = some table ∧
    table.quantile searching x = some share ∧ sketch.count = some total ∧
      sketch.rank toF64 x = some r ∧ share * total = r
  rising : ∀ p q, p ≤ q → ∃ first last, sketch.quantile toF64 sorting searching p = some first ∧
    sketch.quantile toF64 sorting searching q = some last ∧ first ≤ last
  sharesRising : ∀ x y, x ≤ y → ∃ table first last, sketch.cdf toF64 sorting = some table ∧
    table.quantile searching x = some first ∧ table.quantile searching y = some last ∧ first ≤ last

section Answers

variable (formed : Formed sketch) (items : sketch.retained ≠ []) [Zero F]
  (searching : BinarySearch (CdfEntry F))

include formed items

theorem quantile_eq (q : ℚ) : ∃ total place entry, sketch.count = some total ∧
    (total : ℚ) = mass CdfEntry.quantile (sketch.tabled toF64 sorting) ∧
    (sketch.tabled toF64 sorting)[place]? = some entry ∧
    sketch.quantile toF64 sorting searching q = some entry.value ∧
    ReachedAt (sketch.tabled toF64 sorting) total q place := by
  obtain ⟨total, counted, whole, made⟩ := formed.cdf_eq toF64 sorting items
  obtain ⟨place, entry, own, answer, reached⟩ := query_accumulate
    (positive_tabled toF64 sorting sketch) (tabled_ne_nil toF64 sorting sketch items) whole searching q
  refine ⟨total, place, entry, counted, whole, own, ?_, reached⟩
  unfold quantile
  rw [made]
  exact answer

/-- The answer to a share is the smallest item whose rank reaches it. -/
theorem quantile_smallest {q : ℚ} (positive : 0 < q) (most : q ≤ 1) :
    ∃ value total, sketch.count = some total ∧
      sketch.quantile toF64 sorting searching q = some value ∧
        IsLeast {held | held ∈ sketch.retained.map toF64 ∧
          ∃ r, sketch.rank toF64 held = some r ∧ q * total ≤ r} value := by
  obtain ⟨total, place, entry, counted, whole, own, answer, reached⟩ :=
    quantile_eq toF64 sorting formed items searching q
  have weights := positive_tabled toF64 sorting sketch
  have sorted := sorting.sorted (sketch.weighted toF64)
  have heavy : (0 : ℚ) < total := whole ▸ mass_pos weights (tabled_ne_nil toF64 sorting sketch items)
  have held := perm_values_tabled toF64 sorting sketch
  refine ⟨entry.value, total, counted, answer, ⟨?_, ?_⟩, ?_⟩
  · exact held.mem_iff.mp (List.mem_map_of_mem (List.mem_of_getElem? own))
  · obtain ⟨r, ranked, weight⟩ := formed.rank_tabled toF64 sorting entry.value
    refine ⟨r, ranked, ?_⟩
    have enough : q * total ≤ mass CdfEntry.quantile
        ((sketch.tabled toF64 sorting).take (place + 1)) := by
      rcases reached.reached with last | enough
      · rw [last, List.take_length, ← whole]
        exact mul_le_of_le_one_left heavy.le most
      · exact enough
    rw [weight]
    exact enough.trans (mass_take_le weights fun first before => le_of_mem_take sorted own before)
  · rintro other ⟨_, r, ranked, enough⟩
    refine not_lt.mp fun lower => enough.not_gt ?_
    obtain ⟨same, sameRanked, weight⟩ := formed.rank_tabled toF64 sorting other
    obtain rfl : same = r := Option.some.inj (sameRanked.symm.trans ranked)
    have before : mass CdfEntry.quantile ((sketch.tabled toF64 sorting).take place) < q * total := by
      rcases reached.before with first | before
      · rw [first, List.take_zero]
        exact mul_pos positive heavy
      · exact before
    rw [weight]
    refine (massUpTo_le weights fun last behind => lower.trans_le ?_).trans_lt before
    rw [drop_of_getElem? own] at behind
    rcases List.mem_cons.mp behind with rfl | behind
    · exact le_rfl
    · exact le_of_mem_drop sorted own behind

theorem quantile_rising {p q : ℚ} (ordered : p ≤ q) :
    ∃ first last, sketch.quantile toF64 sorting searching p = some first ∧
      sketch.quantile toF64 sorting searching q = some last ∧ first ≤ last := by
  obtain ⟨total, first, entry, counted, _, own, answer, reached⟩ :=
    quantile_eq toF64 sorting formed items searching p
  obtain ⟨same, last, other, sameCounted, _, otherOwn, otherAnswer, otherReached⟩ :=
    quantile_eq toF64 sorting formed items searching q
  obtain rfl : same = total := Option.some.inj (sameCounted.symm.trans counted)
  have inside := (List.getElem?_eq_some_iff.mp own).1
  have places := ReachedAt.le (positive_tabled toF64 sorting sketch) ordered reached otherReached inside
  exact ⟨_, _, answer, otherAnswer, le_of_mem_take (sorting.sorted _) otherOwn
    (mem_take_of_getElem? own (Nat.lt_succ_of_le places))⟩

end Answers

section Values

variable (formed : Formed sketch) (items : sketch.retained ≠ [])

include formed items

theorem share_eq (searching : BinarySearch (CdfEntry F)) (x : F) : ∃ table total place,
    sketch.cdf toF64 sorting = some table ∧ sketch.count = some total ∧
    (total : ℚ) = mass CdfEntry.quantile (sketch.tabled toF64 sorting) ∧
    table.quantile searching x =
      some (mass CdfEntry.quantile ((sketch.tabled toF64 sorting).take place) / total) ∧
    ReadAt (sketch.tabled toF64 sorting) x place := by
  obtain ⟨total, counted, whole, made⟩ := formed.cdf_eq toF64 sorting items
  obtain ⟨place, answer, read⟩ := quantile_accumulate total (sorting.sorted _)
    (tabled_ne_nil toF64 sorting sketch items) searching x
  exact ⟨_, total, place, made, counted, whole, answer, read⟩

theorem share_rising (searching : BinarySearch (CdfEntry F)) {x y : F} (ordered : x ≤ y) :
    ∃ table first last, sketch.cdf toF64 sorting = some table ∧
      table.quantile searching x = some first ∧ table.quantile searching y = some last ∧
        first ≤ last := by
  obtain ⟨table, total, place, made, counted, _, answer, read⟩ :=
    share_eq toF64 sorting formed items searching x
  rcases ordered.lt_or_eq with less | rfl
  · obtain ⟨same, sameTotal, last, sameMade, sameCounted, _, lastAnswer, lastRead⟩ :=
      share_eq toF64 sorting formed items searching y
    obtain rfl : same = table := Option.some.inj (sameMade.symm.trans made)
    obtain rfl : sameTotal = total := Option.some.inj (sameCounted.symm.trans counted)
    have places : place ≤ last := by
      refine not_lt.mp fun earlier => less.not_ge ?_
      have own := List.getElem?_eq_getElem (earlier.trans_le read.inside)
      exact (lastRead.behind _ (mem_drop_of_getElem? own le_rfl)).trans
        (read.before _ (mem_take_of_getElem? own earlier))
    exact ⟨same, _, _, made, answer, lastAnswer, div_le_div_of_nonneg_right
      (mass_take_mono (positive_tabled toF64 sorting sketch) places lastRead.inside) (Nat.cast_nonneg _)⟩
  · exact ⟨table, _, _, made, answer, answer, le_rfl⟩

theorem share_of_nodup (distinct : (sketch.retained.map toF64).Nodup)
    (searching : BinarySearch (CdfEntry F)) (x : F) :
    ∃ table share total r, sketch.cdf toF64 sorting = some table ∧
      table.quantile searching x = some share ∧ sketch.count = some total ∧
        sketch.rank toF64 x = some r ∧ share * total = r := by
  obtain ⟨table, total, place, made, counted, whole, answer, read⟩ :=
    share_eq toF64 sorting formed items searching x
  obtain ⟨r, ranked, weight⟩ := formed.rank_tabled toF64 sorting x
  have weights := positive_tabled toF64 sorting sketch
  have heavy : (0 : ℚ) < total := whole ▸ mass_pos weights (tabled_ne_nil toF64 sorting sketch items)
  have apart : ∀ last ∈ (sketch.tabled toF64 sorting).drop place, x < last.value := by
    intro last behind
    refine lt_of_le_of_ne (read.behind last behind) fun same => ?_
    obtain ⟨earlier, before, equal⟩ := read.equal last behind same.symm
    have nodup := (perm_values_tabled toF64 sorting sketch).nodup_iff.mpr distinct
    rw [← List.take_append_drop place (sketch.tabled toF64 sorting), List.map_append] at nodup
    exact (List.nodup_append.mp nodup).2.2 _ (List.mem_map_of_mem before) _
      (List.mem_map_of_mem behind) (equal.trans same)
  refine ⟨table, _, total, r, made, answer, counted, ranked, ?_⟩
  rw [div_mul_cancel₀ _ heavy.ne', weight]
  exact le_antisymm (mass_take_le weights read.before) (massUpTo_le weights apart)

/-- When a value is held twice, the search that ends at the first of the two misses the weight of
the other. -/
theorem nodup_of_share (agrees : ∀ x, ∃ table share total r, sketch.cdf toF64 sorting = some table ∧
      table.quantile firstSearch x = some share ∧ sketch.count = some total ∧
        sketch.rank toF64 x = some r ∧ share * total = r) :
    (sketch.retained.map toF64).Nodup := by
  refine (perm_values_tabled toF64 sorting sketch).nodup_iff.mp ?_
  refine List.pairwise_map.mpr (List.pairwise_iff_getElem.mpr
    fun first last insideFirst insideLast ordered same => ?_)
  have weights := positive_tabled toF64 sorting sketch
  have sorted := sorting.sorted (sketch.weighted toF64)
  obtain ⟨table, share, total, r, made, answer, counted, ranked, agreed⟩ := agrees
    (sketch.tabled toF64 sorting)[first].value
  obtain ⟨sameTotal, sameCounted, whole, sameMade⟩ :=
    formed.cdf_eq toF64 sorting items
  obtain rfl : sameTotal = total := Option.some.inj (sameCounted.symm.trans counted)
  obtain rfl := Option.some.inj (sameMade.symm.trans made)
  obtain ⟨sameRank, sameRanked, weight⟩ := formed.rank_tabled toF64 sorting
    (sketch.tabled toF64 sorting)[first].value
  obtain rfl : sameRank = r := Option.some.inj (sameRanked.symm.trans ranked)
  obtain ⟨found, before, short⟩ := quantile_firstSearch sameTotal sorted
    (List.getElem?_eq_getElem insideFirst) rfl
  have heavy : (0 : ℚ) < sameTotal := whole ▸ mass_pos weights (tabled_ne_nil toF64 sorting sketch items)
  rw [← Option.some.inj (short.symm.trans answer), div_mul_cancel₀ _ heavy.ne', weight] at agreed
  have all : mass CdfEntry.quantile ((sketch.tabled toF64 sorting).take (last + 1)) ≤
      massUpTo CdfEntry.value CdfEntry.quantile _ _ := mass_take_le weights
    fun entry member => (le_of_mem_take sorted (List.getElem?_eq_getElem insideLast) member).trans_eq
      same.symm
  have fewer := mass_take_lt weights (Nat.succ_lt_succ (before.trans_lt ordered)) insideLast
  exact (fewer.trans_le all).ne agreed

end Values

/-- Ranks and answers of a reachable sketch with items agree, whichever of several equal entries the
search finds, exactly when no value is held twice. -/
theorem agreement_iff [LinearOrder Value] [Inhabited Value] [Zero F] {flips : CoinFlips Coin}
    (reached : Reachable flips sketch) (items : sketch.retained ≠ []) :
    (∀ searching, Agreement toF64 sorting searching sketch) ↔
      (sketch.retained.map toF64).Nodup := by
  have formed := reached.formed
  constructor
  · exact fun agree => nodup_of_share toF64 sorting formed items (agree firstSearch).weight
  · intro distinct searching
    exact ⟨fun q positive most => quantile_smallest toF64 sorting formed items searching positive most,
      share_of_nodup toF64 sorting formed items distinct searching,
      fun p q ordered => quantile_rising toF64 sorting formed items searching ordered,
      fun x y ordered => share_rising toF64 sorting formed items searching ordered⟩

end Agreement

/-! ### Two sketches of two values -/

/-- The answers of a sketch of two numbers agree with their ranks. -/
theorem agreement_two : ∃ sketch, ofRange 2 = some sketch ∧
    Agreement (Nat.cast : ℕ → ℚ) (insertionSorting CdfEntry.value) firstSearch sketch := by
  have evaluated : (ofRange 2).any (fun sketch =>
      decide (sketch.retained ≠ [] ∧ (sketch.retained.map (Nat.cast : ℕ → ℚ)).Nodup)) = true := by
    decide +kernel
  obtain ⟨sketch, made, checked⟩ := (Option.any_eq_true _ _).mp evaluated
  obtain ⟨items, distinct⟩ := of_decide_eq_true checked
  exact ⟨sketch, made, (agreement_iff _ _ (reachable_ofRange made) items).mpr distinct _⟩

/-- A sketch of one number twice: the search ends at the first entry, whose share is one half, and
the rank of the number is two. -/
theorem share_of_twice : ∃ sketch : KLL ℕ Unit, Reachable steadyCoin sketch ∧
    sketch.retained = [5, 5] ∧
      ¬Agreement (Nat.cast : ℕ → ℚ) (insertionSorting CdfEntry.value) firstSearch sketch := by
  have evaluated : ([5, 5].foldlM (pushValue steadyCoin) (initInternal 4 2 () none)).any
      (fun sketch => decide (sketch.retained = [5, 5] ∧
        (sketch.cdf (Nat.cast : ℕ → ℚ) (insertionSorting CdfEntry.value)).bind
          (fun table => table.quantile firstSearch 5) = some (1 / 2) ∧
        sketch.count = some 2 ∧ sketch.rank (Nat.cast : ℕ → ℚ) 5 = some 2)) = true := by
    decide +kernel
  obtain ⟨sketch, made, checked⟩ := (Option.any_eq_true _ _).mp evaluated
  obtain ⟨held, half, two, ranked⟩ := of_decide_eq_true checked
  refine ⟨sketch, (Reachable.init 4 2 () none).foldlM _ made, held, fun agrees => ?_⟩
  obtain ⟨table, share, total, r, tabled, answer, counted, rank, agreed⟩ := agrees.weight 5
  rw [tabled, Option.bind_some, answer] at half
  rw [Option.some.inj half, Option.some.inj (counted.symm.trans two),
    Option.some.inj (rank.symm.trans ranked)] at agreed
  exact absurd agreed (by decide +kernel)

end KLL

end AsapSketchlib
