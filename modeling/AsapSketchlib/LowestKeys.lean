/-
This file develops the elements of lowest key in a list whose keys are pairwise distinct: they are
the ones that few enough elements come before, whatever the order of the list. Choosing among
candidates only gives the lowest of the whole list exactly where no element left out is one of them.
-/

import AsapSketchlib.Largest
import Mathlib.Data.List.Perm.Subperm

namespace AsapSketchlib

namespace LowestKeys

variable {Elem Key : Type} [LinearOrder Key] (key : Elem → Key)

def sorted (elems : List Elem) : List Elem := elems.mergeSort fun left right => key left ≤ key right

def lowest (count : ℕ) (elems : List Elem) : List Elem := (sorted key elems).take count

def below (elems : List Elem) (elem : Elem) : ℕ := elems.countP fun other => key other < key elem

def Distinct (elems : List Elem) : Prop := (elems.map key).Nodup

def Rising (elems : List Elem) : Prop := elems.Pairwise fun left right => key left < key right

variable {key} {elems candidates dropped : List Elem}

theorem sorted_perm (elems : List Elem) : (sorted key elems).Perm elems := List.mergeSort_perm _ _

omit [LinearOrder Key] in
theorem Distinct.of_perm (distinct : Distinct key elems) (perm : elems.Perm candidates) :
    Distinct key candidates :=
  (perm.map key).nodup_iff.mp distinct

omit [LinearOrder Key] in
theorem Distinct.of_subperm (distinct : Distinct key elems) (part : candidates.Subperm elems) :
    Distinct key candidates := by
  obtain ⟨arranged, perm, sublist⟩ := part
  have arrangedDistinct : Distinct key arranged := (sublist.map key).nodup distinct
  exact arrangedDistinct.of_perm perm

omit [LinearOrder Key] in
theorem Distinct.nodup (distinct : Distinct key elems) : elems.Nodup :=
  List.Nodup.of_map key distinct

theorem Rising.nodup (rising : Rising key elems) : elems.Nodup :=
  List.Pairwise.imp (fun lower same => absurd (same ▸ lower) (lt_irrefl _)) rising

theorem rising_sorted (distinct : Distinct key elems) : Rising key (sorted key elems) := by
  have ordered : (sorted key elems).Pairwise fun left right => key left ≤ key right := by
    have transitive : ∀ first second third : Elem, decide (key first ≤ key second) = true →
        decide (key second ≤ key third) = true → decide (key first ≤ key third) = true :=
      fun _ _ _ lower higher =>
        decide_eq_true ((of_decide_eq_true lower).trans (of_decide_eq_true higher))
    have total : ∀ left right : Elem,
        (decide (key left ≤ key right) || decide (key right ≤ key left)) = true := by
      intro left right
      rw [Bool.or_eq_true, decide_eq_true_iff, decide_eq_true_iff]
      exact le_total _ _
    exact (List.pairwise_mergeSort transitive total elems).imp of_decide_eq_true
  have apart : (sorted key elems).Pairwise fun left right => key left ≠ key right :=
    List.pairwise_map.mp (distinct.of_perm (sorted_perm elems).symm)
  exact (ordered.and apart).imp fun both => lt_of_le_of_ne both.1 both.2

theorem Rising.eq_of_perm (rising : Rising key elems) (other : Rising key candidates)
    (perm : elems.Perm candidates) : elems = candidates :=
  perm.eq_of_pairwise (fun _ _ _ _ lower higher => absurd higher (lt_asymm lower)) rising other

theorem Rising.sorted_eq (rising : Rising key elems) : sorted key elems = elems := by
  have distinct : Distinct key elems :=
    List.pairwise_map.mpr (rising.imp fun lower => ne_of_lt lower)
  exact (rising_sorted distinct).eq_of_perm rising (sorted_perm elems)

theorem lowest_perm (distinct : Distinct key elems) (perm : elems.Perm candidates) (count : ℕ) :
    lowest key count elems = lowest key count candidates := by
  have same : sorted key elems = sorted key candidates :=
    (rising_sorted distinct).eq_of_perm (rising_sorted (distinct.of_perm perm))
      ((sorted_perm elems).trans (perm.trans (sorted_perm candidates).symm))
  rw [lowest, lowest, same]

theorem length_lowest (count : ℕ) (elems : List Elem) :
    (lowest key count elems).length = min count elems.length := by
  rw [lowest, List.length_take, (sorted_perm elems).length_eq]

theorem lowest_subperm (count : ℕ) (elems : List Elem) :
    (lowest key count elems).Subperm elems :=
  (List.take_sublist _ _).subperm.trans (sorted_perm elems).subperm

theorem rising_lowest (distinct : Distinct key elems) (count : ℕ) :
    Rising key (lowest key count elems) :=
  (rising_sorted distinct).sublist (List.take_sublist _ _)

theorem mem_of_mem_lowest {count : ℕ} {elem : Elem} (member : elem ∈ lowest key count elems) :
    elem ∈ elems :=
  (sorted_perm elems).mem_iff.mp (List.mem_of_mem_take member)

theorem mem_lowest_iff (distinct : Distinct key elems) {elem : Elem} (member : elem ∈ elems)
    (count : ℕ) : elem ∈ lowest key count elems ↔ below key elems elem < count := by
  have inSorted : elem ∈ sorted key elems := (sorted_perm elems).mem_iff.mpr member
  have counted := mem_take_iff_countP (fun _ _ lower => lt_asymm lower) (rising_sorted distinct)
    inSorted count
  rwa [(sorted_perm elems).countP_eq] at counted

theorem perm_lowest_append (elems : List Elem) (count : ℕ) :
    elems.Perm (lowest key count elems ++ (sorted key elems).drop count) := by
  rw [lowest, List.take_append_drop]
  exact (sorted_perm elems).symm

theorem mem_dropped_iff (distinct : Distinct key elems) {elem : Elem} (count : ℕ) :
    elem ∈ (sorted key elems).drop count ↔ elem ∈ elems ∧ count ≤ below key elems elem := by
  have whole : elems.Perm (lowest key count elems ++ (sorted key elems).drop count) :=
    perm_lowest_append elems count
  have apart := List.nodup_append.mp (whole.nodup_iff.mp distinct.nodup)
  constructor
  · intro gone
    have member := whole.mem_iff.mpr (List.mem_append_right _ gone)
    refine ⟨member, Nat.le_of_not_lt fun low => ?_⟩
    exact apart.2.2 elem ((mem_lowest_iff distinct member count).mpr low) elem gone rfl
  · rintro ⟨member, high⟩
    refine (List.mem_append.mp (whole.mem_iff.mp member)).resolve_left fun kept => ?_
    exact absurd ((mem_lowest_iff distinct member count).mp kept) (Nat.not_lt_of_le high)

/-- The lowest of the candidates are the lowest of all exactly where no element left out has fewer
elements below it than are chosen. -/
theorem lowest_eq_iff (distinct : Distinct key elems) (split : elems.Perm (candidates ++ dropped))
    {count : ℕ} (enough : count ≤ candidates.length) :
    lowest key count candidates = lowest key count elems ↔
      ∀ gone ∈ dropped, count ≤ below key elems gone := by
  have distinctSplit := distinct.of_perm split
  have distinctCandidates : Distinct key candidates := by
    unfold Distinct at distinctSplit
    rw [List.map_append] at distinctSplit
    exact (List.nodup_append.mp distinctSplit).1
  have apart := (List.nodup_append.mp distinctSplit.nodup).2.2
  constructor
  · intro same gone inDropped
    by_contra low
    have member := split.mem_iff.mpr (List.mem_append_right candidates inDropped)
    have chosen := (mem_lowest_iff distinct member count).mpr (Nat.lt_of_not_le low)
    rw [← same] at chosen
    exact apart gone (mem_of_mem_lowest chosen) gone inDropped rfl
  · intro high
    have includes : lowest key count elems ⊆ lowest key count candidates := by
      intro elem chosen
      have member := mem_of_mem_lowest chosen
      have low := (mem_lowest_iff distinct member count).mp chosen
      have candidate : elem ∈ candidates :=
        (List.mem_append.mp (split.mem_iff.mp member)).resolve_right fun inDropped =>
          absurd low (Nat.not_lt_of_le (high elem inDropped))
      refine (mem_lowest_iff distinctCandidates candidate count).mpr (lt_of_le_of_lt ?_ low)
      unfold below
      rw [split.countP_eq, List.countP_append]
      exact Nat.le_add_right _ _
    have lengths : (lowest key count candidates).length ≤ (lowest key count elems).length := by
      rw [length_lowest, length_lowest, split.length_eq, List.length_append]
      omega
    have perm := ((rising_lowest distinct count).nodup.subperm includes).perm_of_length_le lengths
    exact (rising_lowest distinctCandidates count).eq_of_perm (rising_lowest distinct count)
      perm.symm

/-- Inserting an element after the ones of lower key keeps the keys rising. -/
theorem insertIdx_below_eq_sorted {elem : Elem} (rising : Rising key elems)
    (distinct : Distinct key (elem :: elems)) :
    elems.insertIdx (below key elems elem) elem = sorted key (elem :: elems) := by
  have apart : ∀ other ∈ elems, key other ≠ key elem := fun other member same =>
    (List.nodup_cons.mp distinct).1 (List.mem_map.mpr ⟨other, member, same⟩)
  have inserted : Rising key (elems.insertIdx (below key elems elem) elem) := by
    induction elems with
    | nil => exact List.pairwise_singleton _ _
    | cons head rest hypothesis =>
      have restRising := List.Pairwise.of_cons rising
      have ahead : ∀ other ∈ rest, key head < key other := fun other =>
        List.rel_of_pairwise_cons rising
      have distinctRest : Distinct key (elem :: rest) := by
        refine List.Nodup.sublist ?_ distinct
        exact ((List.Sublist.refl _).cons head |>.cons_cons elem).map key
      by_cases lower : key head < key elem
      · have counted : below key (head :: rest) elem = below key rest elem + 1 :=
          List.countP_cons_of_pos (decide_eq_true lower)
        rw [counted, List.insertIdx_succ_cons]
        refine List.pairwise_cons.mpr ⟨fun other member => ?_,
          hypothesis restRising distinctRest fun other inRest =>
            apart other (List.mem_cons_of_mem head inRest)⟩
        rcases List.eq_or_mem_of_mem_insertIdx member with rfl | inRest
        · exact lower
        · exact ahead other inRest
      · have higher : key elem < key head :=
          lt_of_le_of_ne (not_lt.mp lower) (Ne.symm (apart head List.mem_cons_self))
        have none_lower : below key (head :: rest) elem = 0 := by
          refine List.countP_eq_zero.mpr fun other member isLower => ?_
          rcases List.mem_cons.mp member with rfl | inRest
          · exact lower (of_decide_eq_true isLower)
          · exact lt_asymm (of_decide_eq_true isLower) (higher.trans (ahead other inRest))
        rw [none_lower, List.insertIdx_zero]
        refine List.pairwise_cons.mpr ⟨fun other member => ?_, rising⟩
        rcases List.mem_cons.mp member with rfl | inRest
        · exact higher
        · exact higher.trans (ahead other inRest)
  refine inserted.eq_of_perm (rising_sorted distinct) ?_
  refine (List.perm_insertIdx elem elems ?_).trans (sorted_perm _).symm
  exact List.countP_le_length

end LowestKeys

end AsapSketchlib
