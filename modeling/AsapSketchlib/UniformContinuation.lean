/-
This file proves when a sampler and its decoded form evolve alike. Both hold the same entries in
the order of their priorities, so that a truncation keeps the same entries of both unless it
separates entries of equal priority; and every sampler that is reached is accepted and emitted again
as it was.
-/

import AsapSketchlib.UniformWire

namespace AsapSketchlib

namespace UniformWire

open UniformSampling (nextState drawnIn mixState)

/-! ### Truncations -/

section Truncation

variable {left right : List Entry} {size : ℕ}

theorem rank_inj {first second : Entry} : first.rank = second.rank ↔
    first.priority = second.priority := BitVec.toNat_inj

theorem rising_iff {entries : List Entry} :
    Rising entries ↔ (entries.map Entry.rank).Pairwise (· ≤ ·) := List.pairwise_map.symm

theorem map_rank_eq (perm : left.Perm right) (leftRising : Rising left)
    (rightRising : Rising right) : left.map Entry.rank = right.map Entry.rank :=
  (perm.map Entry.rank).eq_of_pairwise (fun _ _ _ _ => le_antisymm) (rising_iff.mp leftRising)
    (rising_iff.mp rightRising)

theorem count_eq_count_rank {entries : List Entry} {entry : Entry}
    (only : ∀ other ∈ entries, other.rank = entry.rank → other = entry) :
    entries.count entry = (entries.map Entry.rank).count entry.rank := by
  induction entries with
  | nil => rfl
  | cons first rest hypothesis =>
    obtain ⟨here, later⟩ := List.forall_mem_cons.mp only
    rw [List.map_cons, List.count_cons, List.count_cons, hypothesis later]
    refine congrArg (_ + ·) (if_congr ?_ rfl rfl)
    rw [beq_iff_eq, beq_iff_eq]
    exact ⟨congrArg Entry.rank, here⟩

theorem rank_le_of_mem (rising : Rising left) {kept gone : Entry} (keptMember : kept ∈ left.take size)
    (goneMember : gone ∈ left.drop size) : kept.rank ≤ gone.rank := by
  rw [Rising, ← List.take_append_drop size left, List.pairwise_append] at rising
  exact rising.2.2 kept keptMember gone goneMember

/-- A truncation that keeps ties together keeps the same entries, however ties are ordered. -/
theorem take_perm (perm : left.Perm right) (leftRising : Rising left) (rightRising : Rising right)
    (keeps : Later.KeepsTies left size) : (left.take size).Perm (right.take size) := by
  by_cases whole : left.length ≤ size
  · rw [List.take_of_length_le whole, List.take_of_length_le (perm.length_eq ▸ whole)]
    exact perm
  · have inside := not_le.mp whole
    have rightInside := perm.length_eq ▸ inside
    have ranks := map_rank_eq perm leftRising rightRising
    have keptRanks : (left.take size).map Entry.rank = (right.take size).map Entry.rank := by
      rw [List.map_take, List.map_take, ranks]
    -- The entry at the cut decides: lower ranks are kept, higher ones go.
    have cut : left[size].rank = right[size].rank := by
      rw [← List.getElem_map Entry.rank (h := by rwa [List.length_map]),
        ← List.getElem_map Entry.rank (h := by rwa [List.length_map])]
      simp only [ranks]
    have atCut : left[size] ∈ left.drop size := by
      rw [List.drop_eq_getElem_cons inside]
      exact List.mem_cons_self
    have atRightCut : right[size] ∈ right.drop size := by
      rw [List.drop_eq_getElem_cons rightInside]
      exact List.mem_cons_self
    refine List.perm_iff_count.mpr fun entry => ?_
    have parts : ∀ entries : List Entry,
        entries.count entry = (entries.take size).count entry + (entries.drop size).count entry := by
      intro entries
      rw [← List.count_append, List.take_append_drop]
    rcases lt_trichotomy entry.rank left[size].rank with lower | same | higher
    · have none : ∀ {entries : List Entry} (bound : size < entries.length), Rising entries →
          entry.rank < entries[size].rank → (entries.drop size).count entry = 0 := by
        intro entries bound rising below
        refine List.count_eq_zero.mpr fun member => ?_
        rw [Rising, ← List.take_append_drop size entries, List.pairwise_append,
          List.drop_eq_getElem_cons bound, List.pairwise_cons] at rising
        rw [List.drop_eq_getElem_cons bound] at member
        rcases List.mem_cons.mp member with rfl | later
        · exact lt_irrefl _ below
        · exact absurd (rising.2.1.1 entry later) (not_le.mpr below)
      have counted := perm.count_eq entry
      rw [parts left, parts right, none inside leftRising lower,
        none rightInside rightRising (cut ▸ lower)] at counted
      exact counted
    · by_cases split : ∃ kept ∈ left.take size, kept.rank = entry.rank
      · obtain ⟨kept, keptMember, keptRank⟩ := split
        have equal : ∀ {first second : Entry}, first ∈ left.take size → second ∈ left.drop size →
            first.rank = second.rank → first = second := by
          intro first second firstMember secondMember sameRank
          have priority := rank_inj.mp sameRank
          have value := keeps first firstMember second secondMember priority
          cases first
          cases second
          exact Entry.mk.injEq _ _ _ _ ▸ ⟨priority, value⟩
        have cutIs := equal keptMember atCut (keptRank.trans same)
        have only : ∀ other ∈ left, other.rank = entry.rank → other = left[size] := by
          intro other member otherRank
          rw [← List.take_append_drop size left] at member
          rcases List.mem_append.mp member with before | behind
          · exact equal before atCut (otherRank.trans same)
          · exact (equal keptMember behind (keptRank.trans otherRank.symm)).symm.trans cutIs
        by_cases here : entry ∈ left
        · obtain rfl := only entry here rfl
          rw [count_eq_count_rank fun other member => only other (List.mem_of_mem_take member),
            count_eq_count_rank fun other member =>
              only other (perm.symm.subset (List.mem_of_mem_take member)), keptRanks]
        · rw [List.count_eq_zero_of_not_mem fun member => here (List.mem_of_mem_take member),
            List.count_eq_zero_of_not_mem fun member =>
              here (perm.symm.subset (List.mem_of_mem_take member))]
      · have absent : entry.rank ∉ (left.take size).map Entry.rank := fun member =>
          split (List.mem_map.mp member)
        rw [List.count_eq_zero_of_not_mem fun member => absent (List.mem_map_of_mem member),
          List.count_eq_zero_of_not_mem fun member =>
            (keptRanks ▸ absent) (List.mem_map_of_mem member)]
    · rw [List.count_eq_zero_of_not_mem fun member =>
          absurd (rank_le_of_mem leftRising member atCut) (not_le.mpr higher),
        List.count_eq_zero_of_not_mem fun member =>
          absurd (rank_le_of_mem rightRising member atRightCut) (not_le.mpr (cut ▸ higher))]

end Truncation

/-! ### Insertions and merges -/

theorem insertIdx_eq_append {Elem : Type} (elem : Elem) {elems : List Elem} {place : ℕ}
    (inside : place ≤ elems.length) :
    elems.insertIdx place elem = elems.take place ++ elem :: elems.drop place := by
  induction elems generalizing place with
  | nil =>
    obtain rfl := Nat.le_zero.mp inside
    rfl
  | cons first rest hypothesis =>
    cases place with
    | zero => rfl
    | succ place =>
      rw [List.insertIdx_succ_cons, hypothesis (Nat.le_of_succ_le_succ inside)]
      rfl

section Insertion

variable (search : BinarySearch) {entries other : List Entry} (entry : Entry)

theorem place_le (rising : Rising entries) :
    search.place (entries.map Entry.rank) entry.rank ≤ entries.length :=
  (search.inside _ _ (rising_iff.mp rising)).trans_eq (List.length_map _)

theorem rising_insertEntry (rising : Rising entries) :
    Rising (insertEntry search entries entry) := by
  have sorted := rising_iff.mp rising
  have before := search.below _ entry.rank sorted
  have behind := search.above _ entry.rank sorted
  rw [← List.map_take] at before
  rw [← List.map_drop] at behind
  rw [insertEntry, insertIdx_eq_append entry (place_le search entry rising)]
  have parts := rising
  rw [Rising, ← List.take_append_drop (search.place (entries.map Entry.rank) entry.rank) entries,
    List.pairwise_append] at parts
  obtain ⟨front, back, across⟩ := parts
  refine List.pairwise_append.mpr ⟨front, List.pairwise_cons.mpr ⟨fun later member =>
    behind _ (List.mem_map_of_mem member), back⟩, fun earlier earlierMember later laterMember => ?_⟩
  rcases List.mem_cons.mp laterMember with rfl | member
  · exact before _ (List.mem_map_of_mem earlierMember)
  · exact across earlier earlierMember later member

theorem perm_insertEntry (rising : Rising entries) :
    (insertEntry search entries entry).Perm (entry :: entries) :=
  List.perm_insertIdx entry entries (place_le search entry rising)

end Insertion

variable {search : BinarySearch} {sampler other source decoded : Sampler} {value : BitVec 64}

theorem rising_truncateTo {entries : List Entry} (rising : Rising entries) (size : ℕ) :
    Rising (truncateTo entries size) := rising.sublist (List.take_sublist size entries)

namespace Sampler

theorem rising_withDraw (rising : Rising sampler.entries) :
    Rising (sampler.withDraw search value) := rising_insertEntry search _ rising

theorem rising_joined (sampler other : Sampler) : Rising (sampler.joined other) := by
  have sorted := @List.pairwise_mergeSort Entry (fun left right =>
      decide (left.rank ≤ right.rank)) (fun first second third low high => by
        rw [decide_eq_true_eq] at low high ⊢
        exact low.trans high) (fun first second => by
        rw [Bool.or_eq_true, decide_eq_true_eq, decide_eq_true_eq]
        exact le_total _ _) (sampler.entries ++ other.entries)
  exact sorted.imp of_decide_eq_true

theorem perm_joined (sampler other : Sampler) :
    (sampler.joined other).Perm (sampler.entries ++ other.entries) := List.mergeSort_perm _ _

theorem merged_of_apart (apart : sampler.Apart other) : sampler.merged other = sampler := by
  rw [merged, merge, if_pos apart]

theorem merged_of_not_apart (near : ¬sampler.Apart other) :
    sampler.merged other =
      { sampleRate := sampler.sampleRate
        totalSeen := Portable.saturatingAddU64 sampler.totalSeen other.totalSeen
        rngState := mixState sampler.rngState other.rngState
        entries := truncateTo (sampler.joined other)
          (targetSize (Portable.saturatingAddU64 sampler.totalSeen other.totalSeen)
            sampler.sampleRate) } := by
  rw [merged, merge, if_neg near]

end Sampler

/-! ### Samplers alike -/

/-- Samplers that differ in the order of entries with equal priorities alone. -/
structure Alike (source decoded : Sampler) : Prop where
  sampleRate : source.sampleRate = decoded.sampleRate
  totalSeen : source.totalSeen = decoded.totalSeen
  rngState : source.rngState = decoded.rngState
  entries : source.entries.Perm decoded.entries
  rising : Rising source.entries
  decodedRising : Rising decoded.entries

namespace Alike

variable {another anotherDecoded : Sampler}

theorem refl (rising : Rising sampler.entries) : Alike sampler sampler :=
  ⟨rfl, rfl, rfl, List.Perm.refl _, rising, rising⟩

variable (alike : Alike source decoded)

include alike

theorem update (value : BitVec 64)
    (keeps : Later.KeepsTies (source.withDraw search value)
      (targetSize (Portable.saturatingAddU64 source.totalSeen 1) source.sampleRate)) :
    Alike (source.update search value) (decoded.update search value) := by
  have drawn : (⟨drawnIn (nextState source.rngState), value⟩ : Entry) =
      ⟨drawnIn (nextState decoded.rngState), value⟩ := by rw [alike.rngState]
  have perm : (source.withDraw search value).Perm (decoded.withDraw search value) := by
    refine (perm_insertEntry search _ alike.rising).trans (List.Perm.trans ?_
      (perm_insertEntry search _ alike.decodedRising).symm)
    rw [drawn]
    exact alike.entries.cons _
  have rising : Rising (source.withDraw search value) := Sampler.rising_withDraw alike.rising
  have decodedRising : Rising (decoded.withDraw search value) :=
    Sampler.rising_withDraw alike.decodedRising
  refine ⟨alike.sampleRate, ?_, ?_, ?_, rising_truncateTo rising _,
    rising_truncateTo decodedRising _⟩
  · exact congrArg (Portable.saturatingAddU64 · 1) alike.totalSeen
  · exact congrArg nextState alike.rngState
  · show ((source.withDraw search value).take _).Perm ((decoded.withDraw search value).take _)
    rw [← alike.totalSeen, ← alike.sampleRate]
    exact take_perm perm rising decodedRising keeps

theorem merge (others : Alike another anotherDecoded)
    (keeps : ¬source.Apart another →
      Later.KeepsTies (source.joined another)
        (targetSize (Portable.saturatingAddU64 source.totalSeen another.totalSeen)
          source.sampleRate)) :
    Alike (source.merged another) (decoded.merged anotherDecoded) := by
  have apartIff : source.Apart another ↔ decoded.Apart anotherDecoded := by
    rw [Sampler.Apart, Sampler.Apart, alike.sampleRate, others.sampleRate]
  by_cases apart : source.Apart another
  · rw [Sampler.merged_of_apart apart, Sampler.merged_of_apart (apartIff.mp apart)]
    exact alike
  · rw [Sampler.merged_of_not_apart apart,
      Sampler.merged_of_not_apart fun decodedApart => apart (apartIff.mpr decodedApart)]
    have perm : (source.joined another).Perm (decoded.joined anotherDecoded) :=
      (Sampler.perm_joined _ _).trans ((alike.entries.append others.entries).trans
        (Sampler.perm_joined _ _).symm)
    have rising := source.rising_joined another
    have decodedRising := decoded.rising_joined anotherDecoded
    refine ⟨alike.sampleRate, ?_, ?_, ?_, rising_truncateTo rising _,
      rising_truncateTo decodedRising _⟩
    · rw [alike.totalSeen, others.totalSeen]
    · rw [alike.rngState, others.rngState]
    · show ((source.joined another).take _).Perm ((decoded.joined anotherDecoded).take _)
      rw [← alike.totalSeen, ← others.totalSeen, ← alike.sampleRate]
      exact take_perm perm rising decodedRising (keeps apart)

theorem run {later : Later} (untied : later.Untied search source) :
    Alike (later.run search source) (later.run search decoded) := by
  induction later with
  | here => exact alike
  | other another rising => exact .refl rising
  | update before value hypothesis =>
    exact (hypothesis untied.1).update value untied.2
  | merge before another hypothesis anotherHypothesis =>
    exact (hypothesis untied.1).merge (anotherHypothesis untied.2.1) untied.2.2

end Alike

end UniformWire

end AsapSketchlib
