/-
This file develops keeping the smallest elements of a set in bounded room. What is kept does not
depend on the order in which elements are seen, nor on how often: an element that was turned away
lies above every kept one, and stays there. Two such collections are joined by showing one the
elements that the other kept.
-/

import Mathlib.Data.Finset.Sort

namespace AsapSketchlib

/-- `kept` are the smallest elements of a set, as many as there is room for. -/
structure SmallestOf {Value : Type} [LinearOrder Value] (capacity : ℕ) (seen kept : Finset Value) :
    Prop where
  within : kept ⊆ seen
  fits : kept.card ≤ capacity
  full : ∀ gone ∈ seen, gone ∉ kept → kept.card = capacity ∧ ∀ value ∈ kept, value < gone

namespace SmallestOf

variable {Value : Type} [LinearOrder Value] {capacity : ℕ} {seen seen' kept kept' : Finset Value}

theorem empty (capacity : ℕ) : SmallestOf capacity (∅ : Finset Value) ∅ where
  within := Finset.Subset.refl _
  fits := Nat.zero_le _
  full := fun _ member => absurd member (Finset.notMem_empty _)

section

variable (smallest : SmallestOf capacity seen kept)

include smallest

theorem again {value : Value} (member : value ∈ kept) :
    SmallestOf capacity (insert value seen) kept := by
  rwa [Finset.insert_eq_of_mem (smallest.within member)]

theorem grow {value : Value} (fresh : value ∉ kept) (room : kept.card < capacity) :
    SmallestOf capacity (insert value seen) (insert value kept) where
  within := Finset.insert_subset_insert value smallest.within
  fits := (Finset.card_insert_of_notMem fresh).trans_le room
  full := by
    intro gone member turned
    obtain ⟨different, outside⟩ := not_or.mp (fun here => turned (Finset.mem_insert.mpr here))
    have earlier := (Finset.mem_insert.mp member).resolve_left different
    exact absurd (smallest.full gone earlier outside).1 (Nat.ne_of_lt room)

theorem displace {value largest : Value} (fresh : value ∉ kept) (full : kept.card = capacity)
    (member : largest ∈ kept) (top : ∀ other ∈ kept, other ≤ largest) (smaller : value < largest) :
    SmallestOf capacity (insert value seen) (insert value (kept.erase largest)) := by
  have positive : 0 < kept.card := Finset.card_pos.mpr ⟨largest, member⟩
  have notErased : value ∉ kept.erase largest := fun inErased =>
    fresh (Finset.mem_of_mem_erase inErased)
  have sameCard : (insert value (kept.erase largest)).card = capacity := by
    rw [Finset.card_insert_of_notMem notErased, Finset.card_erase_of_mem member,
      Nat.sub_add_cancel positive, full]
  have below : ∀ other ∈ insert value (kept.erase largest), other < largest := by
    intro other inKept
    rcases Finset.mem_insert.mp inKept with rfl | inErased
    · exact smaller
    · exact lt_of_le_of_ne (top other (Finset.mem_of_mem_erase inErased))
        (Finset.ne_of_mem_erase inErased)
  refine ⟨?_, sameCard.le, fun gone inSeen turned => ⟨sameCard, fun other inKept => ?_⟩⟩
  · exact Finset.insert_subset_insert value ((Finset.erase_subset _ _).trans smallest.within)
  · obtain ⟨different, outside⟩ := not_or.mp (fun here => turned (Finset.mem_insert.mpr here))
    by_cases isLargest : gone = largest
    · rw [isLargest]
      exact below other inKept
    · have notKept : gone ∉ kept := fun inKept =>
        outside (Finset.mem_erase.mpr ⟨isLargest, inKept⟩)
      have earlier := (Finset.mem_insert.mp inSeen).resolve_left different
      exact (below other inKept).trans ((smallest.full gone earlier notKept).2 largest member)

theorem refuse {value : Value} (full : kept.card = capacity)
    (above : ∀ other ∈ kept, other < value) :
    SmallestOf capacity (insert value seen) kept where
  within := smallest.within.trans (Finset.subset_insert value seen)
  fits := smallest.fits
  full := by
    intro gone member turned
    rcases Finset.mem_insert.mp member with rfl | earlier
    · exact ⟨full, above⟩
    · exact smallest.full gone earlier turned

end

theorem union (other : SmallestOf capacity seen' kept')
    (smallest : SmallestOf capacity (seen ∪ kept') kept) :
    SmallestOf capacity (seen ∪ seen') kept where
  within := smallest.within.trans (Finset.union_subset_union_right other.within)
  fits := smallest.fits
  full := by
    intro gone member turned
    by_cases offered : gone ∈ seen ∪ kept'
    · exact smallest.full gone offered turned
    · obtain ⟨notSeen, notKept⟩ := not_or.mp (fun here => offered (Finset.mem_union.mpr here))
      have inOther := (Finset.mem_union.mp member).resolve_left notSeen
      obtain ⟨otherFull, below⟩ := other.full gone inOther notKept
      by_cases same : kept' ⊆ kept
      · have whole : kept' = kept :=
          Finset.eq_of_subset_of_card_le same (smallest.fits.trans_eq otherFull.symm)
        rw [← whole]
        exact ⟨otherFull, below⟩
      · obtain ⟨passed, inKept', notInKept⟩ := Finset.not_subset.mp same
        obtain ⟨keptFull, passedAbove⟩ :=
          smallest.full passed (Finset.mem_union_right seen inKept') notInKept
        exact ⟨keptFull, fun value inKept =>
          (passedAbove value inKept).trans (below passed inKept')⟩

theorem unique (smallest : SmallestOf capacity seen kept) (other : SmallestOf capacity seen kept') :
    kept = kept' := by
  have includes : ∀ {kept kept' : Finset Value}, SmallestOf capacity seen kept →
      SmallestOf capacity seen kept' → kept ⊆ kept' := by
    intro kept kept' smallest other value member
    by_contra outside
    obtain ⟨otherFull, below⟩ := other.full value (smallest.within member) outside
    have all : kept' ⊆ kept := by
      intro lower inOther
      by_contra turned
      have above := (smallest.full lower (other.within inOther) turned).2 value member
      exact lt_asymm above (below lower inOther)
    have whole := Finset.eq_of_subset_of_card_le all (smallest.fits.trans_eq otherFull.symm)
    exact outside (whole ▸ member)
  exact Finset.Subset.antisymm (includes smallest other) (includes other smallest)

theorem take_sort (capacity : ℕ) (seen : Finset Value) :
    SmallestOf capacity seen ((seen.sort (· ≤ ·)).take capacity).toFinset := by
  have nodup : ((seen.sort (· ≤ ·)).take capacity).Nodup :=
    (List.take_sublist _ _).nodup (Finset.sort_nodup seen (· ≤ ·))
  refine ⟨fun value member => ?_, ?_, fun gone member turned => ?_⟩
  · exact (Finset.mem_sort (· ≤ ·)).mp (List.mem_of_mem_take (List.mem_toFinset.mp member))
  · rw [List.toFinset_card_of_nodup nodup]
    exact List.length_take_le _ _
  · have split := List.take_append_drop capacity (seen.sort (· ≤ ·))
    have inSort := (Finset.mem_sort (· ≤ ·)).mpr member
    have notTaken : gone ∉ (seen.sort (· ≤ ·)).take capacity := fun taken =>
      turned (List.mem_toFinset.mpr taken)
    have dropped : gone ∈ (seen.sort (· ≤ ·)).drop capacity := by
      rw [← split] at inSort
      exact (List.mem_append.mp inSort).resolve_left notTaken
    have long : capacity ≤ (seen.sort (· ≤ ·)).length := by
      by_contra short
      rw [List.drop_eq_nil_of_le (Nat.le_of_not_le short)] at dropped
      exact List.not_mem_nil dropped
    have sorted := Finset.pairwise_sort seen (· ≤ ·)
    rw [← split] at sorted
    refine ⟨?_, fun value taken => ?_⟩
    · rw [List.toFinset_card_of_nodup nodup, List.length_take, Nat.min_eq_left long]
    · have inTake := List.mem_toFinset.mp taken
      have atMost := (List.pairwise_append.mp sorted).2.2 value inTake gone dropped
      exact lt_of_le_of_ne atMost fun same => notTaken (same ▸ inTake)

theorem perm_take {values : List Value} (smallest : SmallestOf capacity seen values.toFinset)
    (nodup : values.Nodup) : values.Perm ((seen.sort (· ≤ ·)).take capacity) :=
  List.perm_of_nodup_nodup_toFinset_eq nodup
    ((List.take_sublist _ _).nodup (Finset.sort_nodup seen (· ≤ ·)))
    (smallest.unique (take_sort capacity seen))

end SmallestOf

end AsapSketchlib
