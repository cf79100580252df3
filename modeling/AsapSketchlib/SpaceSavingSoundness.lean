/-
This file proves that a Space-Saving summary is sound: whatever tree of recordings,
merges and clears built it, the recorded count of a key that is an integer, a string or
a byte string is never below the weight inserted for it, its count less its error is
never above that weight, and the weight of a key that is not monitored is within the
ceiling.

A key is a digest together with a stored form. For a hasher that hashes a borrowed
string as its stored form, that is the stored form alone.

The proof is over flat summaries. At most one counter monitors a key; what is known of
it, or of the ceiling where there is none, is carried through every recording and every
merge.
-/

import AsapSketchlib.SpaceSavingRuns

namespace AsapSketchlib

open Arena

/-! ### Keys and their exact weights -/

/-- The value is an integer, a string or a byte string. -/
def DataInput.isExact (value : DataInput) : Bool := (inputToOwned value).isExact

/-- Two values name one key: they have one digest and one stored form. -/
def SameKey (H : SketchHasher) (left right : DataInput) : Prop :=
  H.hash64Seeded 0 left = H.hash64Seeded 0 right ∧ inputToOwned left = inputToOwned right

instance (H : SketchHasher) (left right : DataInput) : Decidable (SameKey H left right) :=
  inferInstanceAs (Decidable (_ ∧ _))

/-- Two values a summary does not tell apart: they have one digest, and their stored forms compare
equal. A NaN is told apart even from itself. -/
def Indistinct (H : SketchHasher) (left right : DataInput) : Prop :=
  H.hash64Seeded 0 left = H.hash64Seeded 0 right ∧
    (inputToOwned left).eqItem (inputToOwned right) = true

instance (H : SketchHasher) (left right : DataInput) : Decidable (Indistinct H left right) :=
  inferInstanceAs (Decidable (_ ∧ _))

theorem indistinct_iff_sameKey {H : SketchHasher} {left right : DataInput}
    (exact : right.isExact = true) : Indistinct H left right ↔ SameKey H left right :=
  and_congr_right fun _ => HeapItem.eqItem_of_isExact _ _ exact

/-- A tree of operations that builds a summary. -/
inductive SummaryTree where
  | withCapacity (capacity : ℕ)
  | insert (tree : SummaryTree) (value : DataInput)
  | insertMany (tree : SummaryTree) (value : DataInput) (count : ℕ)
  | merge (left right : SummaryTree) (iter : SpaceSaving.IterOrder)
  | clear (tree : SummaryTree)

namespace SummaryTree

def run (H : SketchHasher) : SummaryTree → Except Fault SpaceSaving
  | withCapacity capacity => .ok (SpaceSaving.withCapacity capacity)
  | insert tree value => do
    let summary ← tree.run H
    SpaceSaving.insert H summary value
  | insertMany tree value count => do
    let summary ← tree.run H
    SpaceSaving.insertMany H summary value count
  | merge left right iter => do
    let mine ← left.run H
    let theirs ← right.run H
    SpaceSaving.merge iter mine theirs
  | clear tree => do
    let summary ← tree.run H
    return SpaceSaving.clear summary

/-- The exact weight inserted for a key in all the streams that reached the summary since the last
clear. -/
def weight (H : SketchHasher) (key : DataInput) : SummaryTree → ℕ
  | withCapacity _ => 0
  | insert tree value => tree.weight H key + if SameKey H value key then 1 else 0
  | insertMany tree value count => tree.weight H key + if SameKey H value key then count else 0
  | merge left right _ => left.weight H key + right.weight H key
  | clear _ => 0

end SummaryTree

/-! ### What is known of one key -/

section

variable {counter : Counter} {digest : BitVec 64} {value : DataInput}

theorem Counter.monitors_iff_eqItem :
    counter.Monitors digest value ↔
      counter.digest = digest ∧ counter.key.eqItem (inputToOwned value) = true := by
  rw [Counter.Monitors, HeapItem.eqInput_eq_eqItem]

theorem Counter.monitors_iff (exact : value.isExact = true) :
    counter.Monitors digest value ↔ counter.digest = digest ∧ counter.key = inputToOwned value := by
  rw [Counter.monitors_iff_eqItem, HeapItem.eqItem_of_isExact _ _ exact]

end

instance (counter : Counter) (digest : BitVec 64) (value : DataInput) :
    Decidable (counter.Monitors digest value) :=
  inferInstanceAs (Decidable (_ ∧ _))

theorem Counter.Monitors.indistinct {H : SketchHasher} {counter : Counter} {value key : DataInput}
    (own : counter.Monitors (H.hash64Seeded 0 key) key)
    (recorded : counter.Monitors (H.hash64Seeded 0 value) value) : Indistinct H value key := by
  obtain ⟨ownDigest, ownKey⟩ := Counter.monitors_iff_eqItem.mp own
  obtain ⟨recordedDigest, recordedKey⟩ := Counter.monitors_iff_eqItem.mp recorded
  exact ⟨recordedDigest.symm.trans ownDigest,
    HeapItem.eqItem_trans _ _ _ (HeapItem.eqItem_symm _ _ recordedKey) ownKey⟩

theorem Indistinct.monitors_iff {H : SketchHasher} {value key : DataInput}
    (indistinct : Indistinct H value key) (counter : Counter) : counter.Monitors (H.hash64Seeded 0 value) value ↔
      counter.Monitors (H.hash64Seeded 0 key) key := by
  rw [Counter.monitors_iff_eqItem, Counter.monitors_iff_eqItem, indistinct.1]
  refine and_congr_right fun _ => ⟨fun matched => ?_, fun matched => ?_⟩
  · exact HeapItem.eqItem_trans _ _ _ matched indistinct.2
  · exact HeapItem.eqItem_trans _ _ _ matched (HeapItem.eqItem_symm _ _ indistinct.2)

namespace FlatSummary

def holding (flat : FlatSummary) (digest : BitVec 64) (value : DataInput) : List Counter :=
  flat.counters.filter fun counter => counter.Monitors digest value

/-- What a summary knows of a key with a given exact weight: one counter monitors it, with a count
not below the weight and a count less error not above it, or none does and the weight is within
the ceiling on what has left. -/
inductive Tracks (flat : FlatSummary) (digest : BitVec 64) (value : DataInput) (weight : ℕ) :
    Prop where
  | held (counter : Counter) (only : flat.holding digest value = [counter])
      (lower : min weight u64Max ≤ counter.count) (upper : counter.count - counter.error ≤ weight)
  | absent (nothing : flat.holding digest value = [])
      (ceiling : min weight u64Max ≤ flat.discardedMax)

theorem Bounded.room_for {flat : FlatSummary} (bounded : flat.Bounded) {counter : Counter}
    (member : counter ∈ flat.counters) :
    flat.discardedMax ≤ counter.count ∧ counter.count ≤ u64Max ∧ counter.error ≤ counter.count :=
  ⟨bounded.ceiling counter member, (bounded.counts counter member).2, bounded.errors counter member⟩

theorem filter_replace (p : Counter → Bool) (front back : List Counter) (counter : Counter) :
    (front ++ counter :: back).filter p =
      front.filter p ++ ([counter].filter p ++ back.filter p) := by
  rw [← List.singleton_append, List.filter_append, List.filter_append]

theorem alone_of_append {front back : List Counter} {counter held : Counter}
    (whole : front ++ ([counter] ++ back) = [held]) : front = [] ∧ back = [] ∧ counter = held := by
  have length := congrArg List.length whole
  simp only [List.length_append, List.length_singleton] at length
  obtain rfl : front = [] := List.eq_nil_of_length_eq_zero (by omega)
  obtain rfl : back = [] := List.eq_nil_of_length_eq_zero (by omega)
  exact ⟨rfl, rfl, by simpa using whole⟩

/-- The step lemma: recording an occurrence keeps what is known of every key, with the weights of
the values it is not told apart from. -/
theorem Recorded.tracks {H : SketchHasher} {before after : FlatSummary} {value key : DataInput}
    {count weight : ℕ} (recorded : Recorded before (H.hash64Seeded 0 value) value count after)
    (bounded : before.Bounded) (tracks : Tracks before (H.hash64Seeded 0 key) key weight) :
    Tracks after (H.hash64Seeded 0 key) key
      (weight + if Indistinct H value key then count else 0) := by
  let mine : Counter → Bool := fun counter => counter.Monitors (H.hash64Seeded 0 key) key
  have mine_iff : ∀ counter, mine counter = true ↔ counter.Monitors (H.hash64Seeded 0 key) key :=
    fun counter => decide_eq_true_iff
  have absent_of_indistinct (indistinct : Indistinct H value key)
      (absent : ∀ counter ∈ before.counters, ¬counter.Monitors (H.hash64Seeded 0 value) value) :
      before.counters.filter mine = [] :=
    List.filter_eq_nil_iff.mpr fun counter member holds =>
      absent counter member ((indistinct.monitors_iff counter).mpr ((mine_iff counter).mp holds))
  have fresh_iff : ∀ counter : Counter, counter.digest = H.hash64Seeded 0 value →
      counter.key = inputToOwned value → (mine counter = true ↔ Indistinct H value key) := by
    intro counter digest owned
    rw [mine_iff, Counter.monitors_iff_eqItem, digest, owned]
    exact Iff.rfl
  cases recorded with
  | raised front back counter split monitors =>
    have member : counter ∈ before.counters := by simp [split]
    obtain ⟨-, capped, errors⟩ := bounded.room_for member
    by_cases own : mine counter = true
    · have indistinct : Indistinct H value key := ((mine_iff counter).mp own).indistinct monitors
      have raisedOwn : mine (counter.raise count) = true := own
      rw [if_pos indistinct]
      have before_eq : before.holding (H.hash64Seeded 0 key) key =
          front.filter mine ++ ([counter] ++ back.filter mine) := by
        rw [holding, split]
        exact (filter_replace mine front back counter).trans (by simp [own])
      cases tracks with
      | absent nothing ceiling =>
        rw [before_eq] at nothing
        exact absurd nothing (by simp)
      | held held only lower upper =>
        rw [before_eq] at only
        obtain ⟨frontEmpty, backEmpty, rfl⟩ := alone_of_append only
        refine .held (counter.raise count) ?_ ?_ ?_
        · refine (filter_replace mine front back _).trans ?_
          simp [frontEmpty, backEmpty, raisedOwn]
        · simp only [Counter.raise, saturatingAdd]
          omega
        · simp only [Counter.raise, saturatingAdd]
          omega
    · have different : ¬Indistinct H value key := fun indistinct =>
        own ((mine_iff counter).mpr ((indistinct.monitors_iff counter).mp monitors))
      have raisedOwn : ¬mine (counter.raise count) = true := own
      rw [if_neg different, Nat.add_zero]
      have keep : (front ++ counter.raise count :: back).filter mine = before.counters.filter mine := by
        rw [split, filter_replace, filter_replace]
        simp [own, raisedOwn]
      cases tracks with
      | held held only lower upper => exact .held held (keep.trans only) lower upper
      | absent nothing ceiling => exact .absent (keep.trans nothing) ceiling
  | seated absent room =>
    have capped := bounded.capped
    let fresh : Counter :=
      { key := inputToOwned value, digest := H.hash64Seeded 0 value,
        count := saturatingAdd before.discardedMax count, error := before.discardedMax }
    have after_eq : (before.counters ++ [fresh]).filter mine =
        before.counters.filter mine ++ [fresh].filter mine := List.filter_append _ _
    by_cases indistinct : Indistinct H value key
    · rw [if_pos indistinct]
      have nothing := absent_of_indistinct indistinct absent
      have own : mine fresh = true := (fresh_iff fresh rfl rfl).mpr indistinct
      cases tracks with
      | held held only lower upper => exact absurd (nothing.symm.trans only) (by simp)
      | absent _ ceiling =>
        refine .held fresh (after_eq.trans ?_) ?_ ?_
        · simp [nothing, own]
        · simp only [fresh, saturatingAdd]
          omega
        · simp only [fresh, saturatingAdd]
          omega
    · rw [if_neg indistinct, Nat.add_zero]
      have other : ¬mine fresh = true := fun own => indistinct ((fresh_iff fresh rfl rfl).mp own)
      have keep : (before.counters ++ [fresh]).filter mine = before.counters.filter mine := by
        rw [after_eq]
        simp [other]
      cases tracks with
      | held held only lower upper => exact .held held (keep.trans only) lower upper
      | absent nothing ceiling => exact .absent (keep.trans nothing) ceiling
  | displaced front back victim absent full split smallest =>
    have member : victim ∈ before.counters := by simp [split]
    obtain ⟨ceilingVictim, capped, errors⟩ := bounded.room_for member
    let fresh : Counter :=
      { key := inputToOwned value, digest := H.hash64Seeded 0 value,
        count := saturatingAdd victim.count count, error := victim.count }
    have before_eq : before.counters.filter mine =
        front.filter mine ++ ([victim].filter mine ++ back.filter mine) := by
      rw [split]
      exact filter_replace mine front back victim
    have after_eq : (front ++ fresh :: back).filter mine =
        front.filter mine ++ ([fresh].filter mine ++ back.filter mine) :=
      filter_replace mine front back fresh
    by_cases indistinct : Indistinct H value key
    · rw [if_pos indistinct]
      have nothing := absent_of_indistinct indistinct absent
      have own : mine fresh = true := (fresh_iff fresh rfl rfl).mpr indistinct
      have parts := before_eq.symm.trans nothing
      simp only [List.append_eq_nil_iff] at parts
      cases tracks with
      | held held only lower upper => exact absurd (nothing.symm.trans only) (by simp)
      | absent _ ceiling =>
        refine .held fresh (after_eq.trans ?_) ?_ ?_
        · simp [parts.1, parts.2.2, own]
        · simp only [fresh, saturatingAdd]
          omega
        · simp only [fresh, saturatingAdd]
          omega
    · rw [if_neg indistinct, Nat.add_zero]
      have other : [fresh].filter mine = [] := by
        have notOwn : ¬mine fresh = true := fun own => indistinct ((fresh_iff fresh rfl rfl).mp own)
        simp [notOwn]
      by_cases victimOwn : mine victim = true
      · have victimOnly : [victim].filter mine = [victim] := by simp [victimOwn]
        rw [victimOnly] at before_eq
        cases tracks with
        | absent nothing ceiling => exact absurd (before_eq.symm.trans nothing) (by simp)
        | held held only lower upper =>
          obtain ⟨frontEmpty, backEmpty, rfl⟩ := alone_of_append (before_eq.symm.trans only)
          refine .absent (after_eq.trans ?_) lower
          rw [frontEmpty, backEmpty, other]
          rfl
      · have victimNot : [victim].filter mine = [] := by simp [victimOwn]
        have keep : (front ++ fresh :: back).filter mine = before.counters.filter mine := by
          rw [after_eq, before_eq, other, victimNot]
        cases tracks with
        | held held only lower upper => exact .held held (keep.trans only) lower upper
        | absent nothing ceiling =>
          exact .absent (keep.trans nothing) (ceiling.trans ceilingVictim)

/-! ### One key through a merge -/

open SpaceSaving (MergeEntry absorb raiseUnpaired mergeUnion)

/-- The entries of a union under way that hold a key. -/
def entriesFor (digest : BitVec 64) (value : DataInput) (entries : List MergeEntry) :
    List MergeEntry :=
  entries.filter fun entry => entry.toCounter.Monitors digest value

section

variable {digest : BitVec 64} {value : DataInput} (entry : MergeEntry)

theorem entriesFor_cons_pos (holds : entry.toCounter.Monitors digest value)
    (rest : List MergeEntry) :
    entriesFor digest value (entry :: rest) = entry :: entriesFor digest value rest :=
  List.filter_cons_of_pos (decide_eq_true holds)

theorem entriesFor_cons_neg (other : ¬entry.toCounter.Monitors digest value)
    (rest : List MergeEntry) :
    entriesFor digest value (entry :: rest) = entriesFor digest value rest :=
  List.filter_cons_of_neg (by simpa using other)

end

section Absorb

variable {digest : BitVec 64} {value : DataInput} (mineMin : ℕ) {incoming : MergeEntry}

theorem paired_iff (entry : MergeEntry)
    (either : entry.toCounter.Monitors digest value ∨ incoming.toCounter.Monitors digest value) :
    entry.digest = incoming.digest ∧ entry.key.eqItem incoming.key = true ↔
      entry.toCounter.Monitors digest value ∧ incoming.toCounter.Monitors digest value := by
  rw [Counter.monitors_iff_eqItem, Counter.monitors_iff_eqItem] at either ⊢
  constructor
  · rintro ⟨sameDigest, sameKey⟩
    rcases either with ⟨ownDigest, ownKey⟩ | ⟨ownDigest, ownKey⟩
    · exact ⟨⟨ownDigest, ownKey⟩, sameDigest.symm.trans ownDigest,
        HeapItem.eqItem_trans _ _ _ (HeapItem.eqItem_symm _ _ sameKey) ownKey⟩
    · exact ⟨⟨sameDigest.trans ownDigest, HeapItem.eqItem_trans _ _ _ sameKey ownKey⟩,
        ownDigest, ownKey⟩
  · rintro ⟨⟨ownDigest, ownKey⟩, otherDigest, otherKey⟩
    exact ⟨ownDigest.trans otherDigest.symm,
      HeapItem.eqItem_trans _ _ _ ownKey (HeapItem.eqItem_symm _ _ otherKey)⟩

theorem entriesFor_absorb_other (incoming : MergeEntry)
    (other : ¬incoming.toCounter.Monitors digest value) (entries : List MergeEntry) :
    entriesFor digest value (absorb mineMin incoming entries) = entriesFor digest value entries := by
  induction entries with
  | nil =>
    refine entriesFor_cons_neg ({ incoming with
      count := _, error := _, paired := true }) ?_ []
    exact other
  | cons first rest hypothesis =>
    unfold absorb
    by_cases own : first.toCounter.Monitors digest value
    · have unpaired : ¬(first.digest = incoming.digest ∧ first.key.eqItem incoming.key = true) :=
        fun paired => other ((paired_iff first (Or.inl own)).mp paired).2
      rw [if_neg unpaired, entriesFor_cons_pos first own, entriesFor_cons_pos first own, hypothesis]
    · rw [entriesFor_cons_neg first own]
      split
      · refine entriesFor_cons_neg ({ first with
          count := _, error := _, paired := true }) ?_ rest
        exact own
      · rw [entriesFor_cons_neg first own, hypothesis]

section

variable (incoming : MergeEntry) (holds : incoming.toCounter.Monitors digest value)
  {entries : List MergeEntry}

include holds

theorem entriesFor_absorb_new (nothing : entriesFor digest value entries = []) :
    entriesFor digest value (absorb mineMin incoming entries) =
      [{ incoming with
        count := saturatingAdd incoming.count mineMin
        error := saturatingAdd incoming.error mineMin
        paired := true }] := by
  induction entries with
  | nil =>
    refine entriesFor_cons_pos ({ incoming with
      count := _, error := _, paired := true }) ?_ []
    exact holds
  | cons first rest hypothesis =>
    have notOwn : ¬first.toCounter.Monitors digest value := by
      intro own
      rw [entriesFor_cons_pos first own] at nothing
      exact absurd nothing (by simp)
    rw [entriesFor_cons_neg first notOwn] at nothing
    have unpaired : ¬(first.digest = incoming.digest ∧ first.key.eqItem incoming.key = true) :=
      fun paired => notOwn ((paired_iff first (Or.inr holds)).mp paired).1
    unfold absorb
    rw [if_neg unpaired, entriesFor_cons_neg first notOwn, hypothesis nothing]

theorem entriesFor_absorb_pair {entry : MergeEntry}
    (only : entriesFor digest value entries = [entry]) :
    entriesFor digest value (absorb mineMin incoming entries) =
      [{ entry with
        count := saturatingAdd entry.count incoming.count
        error := saturatingAdd entry.error incoming.error
        paired := true }] := by
  induction entries with
  | nil => exact absurd only (by simp [entriesFor])
  | cons first rest hypothesis =>
    unfold absorb
    by_cases own : first.toCounter.Monitors digest value
    · rw [entriesFor_cons_pos first own] at only
      obtain ⟨rfl, nothing⟩ := List.cons_eq_cons.mp only
      rw [if_pos ((paired_iff first (Or.inl own)).mpr ⟨own, holds⟩)]
      refine (entriesFor_cons_pos _ ?_ rest).trans (by rw [nothing])
      exact own
    · rw [entriesFor_cons_neg first own] at only
      have unpaired : ¬(first.digest = incoming.digest ∧ first.key.eqItem incoming.key = true) :=
        fun paired => own ((paired_iff first (Or.inr holds)).mp paired).1
      rw [if_neg unpaired, entriesFor_cons_neg first own, hypothesis only]

end

theorem entriesFor_foldl_other {others : List Counter}
    (other : ∀ counter ∈ others, ¬counter.Monitors digest value) (entries : List MergeEntry) :
    entriesFor digest value ((others.map MergeEntry.ofCounter).foldl
      (fun merged next => absorb mineMin next merged) entries) =
        entriesFor digest value entries := by
  induction others generalizing entries with
  | nil => rfl
  | cons counter rest hypothesis =>
    rw [List.map_cons, List.foldl_cons,
      hypothesis fun next member => other next (List.mem_cons_of_mem _ member)]
    exact entriesFor_absorb_other mineMin (MergeEntry.ofCounter counter)
      (other counter List.mem_cons_self) entries

end Absorb

theorem entriesFor_map_raiseUnpaired (digest : BitVec 64) (value : DataInput) (theirsMin : ℕ)
    (entries : List MergeEntry) :
    entriesFor digest value (entries.map (raiseUnpaired theirsMin)) =
      (entriesFor digest value entries).map (raiseUnpaired theirsMin) := by
  rw [entriesFor, List.filter_map]
  refine congrArg _ (List.filter_congr fun entry _ => ?_)
  unfold Function.comp raiseUnpaired
  split <;> rfl

theorem entriesFor_map_ofCounter (digest : BitVec 64) (value : DataInput) (flat : FlatSummary) :
    entriesFor digest value (flat.counters.map MergeEntry.ofCounter) =
      (flat.holding digest value).map MergeEntry.ofCounter := by
  rw [entriesFor, List.filter_map]
  rfl

/-- The entry of a union for a key, from the counters the two sides hold for it. -/
def pairUp (mineMin theirsMin : ℕ) : Option Counter → Option Counter → Option MergeEntry
  | none, none => none
  | some mine, none => some (raiseUnpaired theirsMin (MergeEntry.ofCounter mine))
  | none, some theirs =>
    some { MergeEntry.ofCounter theirs with
      count := saturatingAdd theirs.count mineMin
      error := saturatingAdd theirs.error mineMin
      paired := true }
  | some mine, some theirs =>
    some { MergeEntry.ofCounter mine with
      count := saturatingAdd mine.count theirs.count
      error := saturatingAdd mine.error theirs.error
      paired := true }

section

variable {mine theirs : FlatSummary} {digest : BitVec 64} {value : DataInput}

/-- The union holds for a key what the two sides hold for it, paired up. -/
theorem entriesFor_union {mineHeld theirsHeld : Option Counter}
    (mineHolding : mine.holding digest value = mineHeld.toList)
    (theirsHolding : theirs.holding digest value = theirsHeld.toList) :
    entriesFor digest value (union mine theirs) =
      (pairUp mine.minCount theirs.minCount mineHeld theirsHeld).toList := by
  have unionEq : entriesFor digest value (union mine theirs) =
      (entriesFor digest value ((theirs.counters.map MergeEntry.ofCounter).foldl
        (fun merged next => absorb mine.minCount next merged)
        (mine.counters.map MergeEntry.ofCounter))).map (raiseUnpaired theirs.minCount) :=
    entriesFor_map_raiseUnpaired _ _ _ _
  rw [unionEq]
  cases theirsHeld with
  | none =>
    have others : ∀ counter ∈ theirs.counters, ¬counter.Monitors digest value :=
      fun counter member holds =>
        List.filter_eq_nil_iff.mp theirsHolding counter member (decide_eq_true holds)
    rw [entriesFor_foldl_other _ others, entriesFor_map_ofCounter, mineHolding]
    cases mineHeld with
    | none => rfl
    | some counter => rfl
  | some counter =>
    obtain ⟨front, back, split, frontOther, holds, backNothing⟩ :=
      List.filter_eq_cons_iff.mp theirsHolding
    have holdsCounter : counter.Monitors digest value := of_decide_eq_true holds
    have frontOthers : ∀ next ∈ front, ¬next.Monitors digest value := fun next member holdsNext =>
      frontOther next member (decide_eq_true holdsNext)
    have backOthers : ∀ next ∈ back, ¬next.Monitors digest value := fun next member holdsNext =>
      List.filter_eq_nil_iff.mp backNothing next member (decide_eq_true holdsNext)
    rw [split, List.map_append, List.map_cons, List.foldl_append, List.foldl_cons,
      entriesFor_foldl_other _ backOthers]
    have before := entriesFor_foldl_other mine.minCount frontOthers
      (mine.counters.map MergeEntry.ofCounter)
    rw [entriesFor_map_ofCounter, mineHolding] at before
    cases mineHeld with
    | none =>
      rw [entriesFor_absorb_new _ (MergeEntry.ofCounter counter) holdsCounter before]
      rfl
    | some mineCounter =>
      rw [entriesFor_absorb_pair _ (MergeEntry.ofCounter counter) holdsCounter before]
      rfl

/-- What the union of two summaries knows of a key both know. -/
theorem union_tracks {mineWeight theirsWeight : ℕ} (mineBounded : mine.Bounded)
    (theirsBounded : theirs.Bounded) (mineTracks : mine.Tracks digest value mineWeight)
    (theirsTracks : theirs.Tracks digest value theirsWeight) :
    entriesFor digest value (union mine theirs) = [] ∧
        min (mineWeight + theirsWeight) u64Max ≤ saturatingAdd mine.minCount theirs.minCount ∨
      ∃ entry, entriesFor digest value (union mine theirs) = [entry] ∧
        min (mineWeight + theirsWeight) u64Max ≤ entry.count ∧
        entry.count - entry.error ≤ mineWeight + theirsWeight := by
  have mineCeiling : mine.discardedMax ≤ mine.minCount := le_max_left _ _
  have theirsCeiling : theirs.discardedMax ≤ theirs.minCount := le_max_left _ _
  have of_mem : ∀ {flat : FlatSummary} {counter : Counter},
      flat.holding digest value = [counter] → counter ∈ flat.counters := fun only =>
    (List.mem_filter.mp (only ▸ List.mem_singleton.mpr rfl)).1
  cases theirsTracks with
  | absent theirsNothing theirsLow =>
    cases mineTracks with
    | absent mineNothing mineLow =>
      have unionEq := @entriesFor_union _ _ _ _ none none mineNothing theirsNothing
      exact Or.inl ⟨unionEq, min_add_le_saturatingAdd (mineLow.trans mineCeiling)
        (theirsLow.trans theirsCeiling)⟩
    | held counter only lower upper =>
      have unionEq := @entriesFor_union _ _ _ _ (some counter) none only theirsNothing
      refine Or.inr ⟨_, unionEq, ?_, ?_⟩
      · exact min_add_le_saturatingAdd lower (theirsLow.trans theirsCeiling)
      · have errors := mineBounded.errors counter (of_mem only)
        simp only [raiseUnpaired, MergeEntry.ofCounter, Bool.false_eq_true, if_false, saturatingAdd]
        omega
  | held counter only theirsLow theirsHigh =>
    have errors := theirsBounded.errors counter (of_mem only)
    cases mineTracks with
    | absent mineNothing mineLow =>
      have unionEq := @entriesFor_union _ _ _ _ none (some counter) mineNothing only
      refine Or.inr ⟨_, unionEq, ?_, ?_⟩
      · rw [Nat.add_comm mineWeight]
        exact min_add_le_saturatingAdd theirsLow (mineLow.trans mineCeiling)
      · simp only [saturatingAdd]
        omega
    | held mineCounter mineOnly mineLow mineHigh =>
      have mineErrors := mineBounded.errors mineCounter (of_mem mineOnly)
      have unionEq := @entriesFor_union _ _ _ _ (some mineCounter) (some counter) mineOnly only
      refine Or.inr ⟨_, unionEq, min_add_le_saturatingAdd mineLow theirsLow, ?_⟩
      simp only [saturatingAdd]
      omega

end

theorem Merged.tracks {mine theirs after : FlatSummary} {sorted : List MergeEntry}
    (merged : Merged mine theirs after sorted) {digest : BitVec 64} {value : DataInput}
    {mineWeight theirsWeight : ℕ} (mineBounded : mine.Bounded) (theirsBounded : theirs.Bounded)
    (mineTracks : mine.Tracks digest value mineWeight)
    (theirsTracks : theirs.Tracks digest value theirsWeight) :
    after.Tracks digest value (mineWeight + theirsWeight) := by
  have afterHolding : after.holding digest value =
      (entriesFor digest value (sorted.take mine.capacity)).map MergeEntry.toCounter := by
    rw [holding, merged.counters, List.filter_map]
    rfl
  have perm : (entriesFor digest value sorted).Perm (entriesFor digest value (union mine theirs)) :=
    merged.perm.filter _
  have parts : entriesFor digest value sorted =
      entriesFor digest value (sorted.take mine.capacity) ++
        entriesFor digest value (sorted.drop mine.capacity) := by
    rw [entriesFor, entriesFor, entriesFor, ← List.filter_append, List.take_append_drop]
  rcases union_tracks mineBounded theirsBounded mineTracks theirsTracks with
    ⟨nothing, ceiling⟩ | ⟨entry, only, lower, upper⟩
  · rw [nothing, List.perm_nil] at perm
    rw [perm] at parts
    refine .absent ?_ (ceiling.trans merged.floor)
    rw [afterHolding, (List.append_eq_nil_iff.mp parts.symm).1]
    rfl
  · rw [only, List.perm_singleton] at perm
    rw [perm] at parts
    rcases List.append_eq_singleton_iff.mp parts.symm with ⟨front, back⟩ | ⟨front, back⟩
    · have dropped : entry ∈ sorted.drop mine.capacity :=
        (List.mem_filter.mp (back.symm ▸ List.mem_singleton.mpr rfl)).1
      refine .absent ?_ (lower.trans (merged.trimmed entry dropped))
      rw [afterHolding, front]
      rfl
    · refine .held entry.toCounter ?_ lower upper
      rw [afterHolding, front]
      rfl

end FlatSummary

namespace SpaceSaving

theorem tracks_of_empty {H : SketchHasher} {summary : SpaceSaving} (empty : summary.monitored = [])
    (key : DataInput) : (flatten summary).Tracks (H.hash64Seeded 0 key) key 0 := by
  refine .absent ?_ (by simp)
  rw [FlatSummary.holding]
  show (counters summary).filter _ = []
  rw [counters, empty]
  rfl

def Monitored (H : SketchHasher) (summary : SpaceSaving) (key : DataInput) : Prop :=
  ∃ cid, find summary (H.hash64Seeded 0 key) key = .ok (some cid)

/-! ### The queries -/

section Queries

variable {H : SketchHasher} {summary : SpaceSaving} {key : DataInput}

theorem monitored_queries (represented : Represented summary) (monitored : Monitored H summary key) :
    ∃ counter ∈ counters summary, counter.Monitors (H.hash64Seeded 0 key) key ∧
      estimate H summary key = .ok counter.count ∧ upperBound H summary key = .ok counter.count ∧
      error H summary key = .ok counter.error ∧
      isGuaranteed H summary key =
        .ok (decide ((flatten summary).minCount < counter.count - counter.error)) := by
  obtain ⟨cid, finding⟩ := monitored
  obtain ⟨found, searching, hit, -⟩ :=
    find_spec represented.structured (H.hash64Seeded 0 key) key
  obtain rfl : found = some cid := Except.ok.inj (searching.symm.trans finding)
  obtain ⟨counter, there, monitors⟩ := hit cid rfl
  have counting := countOf_spec represented.structured there
  have inside : cid < summary.monitored.length := by
    rw [← length_counters]
    exact lt_of_getElem? there
  obtain ⟨stored, present⟩ : ∃ stored, summary.monitored[cid]? = some stored :=
    ⟨_, List.getElem?_eq_getElem inside⟩
  obtain ⟨bucket, -, seen⟩ := represented.structured.readBucket present
  have errorEq : stored.error = counter.error := by
    rw [there] at seen
    rw [Option.some.inj seen]
    rfl
  refine ⟨counter, List.mem_of_getElem? there, monitors, ?_, ?_, ?_, ?_⟩
  · simp only [estimate, finding, bind, Except.bind, counting]
  · simp only [upperBound, finding, bind, Except.bind, counting]
  · simp only [error, finding, bind, Except.bind, readAt_some present, Functor.map, Except.map,
      errorEq]
  · simp only [isGuaranteed, finding, bind, Except.bind, counting, readAt_some present, errorEq,
      minCount_spec represented.structured represented.bounded.positive]
    rfl

theorem unmonitored_queries (represented : Represented summary)
    (unmonitored : ¬Monitored H summary key) :
    (∀ counter ∈ counters summary, ¬counter.Monitors (H.hash64Seeded 0 key) key) ∧
      upperBound H summary key = .ok (flatten summary).minCount ∧
      isGuaranteed H summary key = .ok false ∧ estimate H summary key = .ok 0 ∧
      error H summary key = .ok (flatten summary).minCount := by
  obtain ⟨found, searching, -, miss⟩ :=
    find_spec represented.structured (H.hash64Seeded 0 key) key
  cases found with
  | some cid => exact absurd ⟨cid, searching⟩ unmonitored
  | none =>
    have ceiling := minCount_spec represented.structured represented.bounded.positive
    refine ⟨miss rfl, ?_, ?_, ?_, ?_⟩
    · simp only [upperBound, searching, bind, Except.bind]
      exact ceiling
    · simp only [isGuaranteed, searching, bind, Except.bind]
      rfl
    · simp only [estimate, searching, bind, Except.bind]
      rfl
    · simp only [error, searching, bind, Except.bind]
      exact ceiling

end Queries

end SpaceSaving

/-! ### Every tree of operations -/

open SpaceSaving (flatten Represented Monitored)

/-- The run rule: a tree of operations ends without a fault, with what holds of empty summaries and
is kept by an insert, and by a merge of two summaries that have it. -/
theorem SummaryTree.run_induction (H : SketchHasher) {Keeps : SummaryTree → SpaceSaving → Prop}
    (fresh : ∀ capacity, Keeps (.withCapacity capacity) (SpaceSaving.withCapacity capacity))
    (unchanged : ∀ {tree summary} value, Keeps tree summary →
      Keeps (.insertMany tree value 0) summary)
    (recorded : ∀ {tree before after value count}, Represented before → Keeps tree before →
      (flatten before).Recorded (H.hash64Seeded 0 value) value count (flatten after) →
        Keeps (.insertMany tree value count) after)
    (once : ∀ {tree after value}, Keeps (.insertMany tree value 1) after →
      Keeps (.insert tree value) after)
    (merged : ∀ {left right mine theirs after sorted} iter, Represented mine →
      Represented theirs → Keeps left mine → Keeps right theirs →
      (flatten mine).Merged (flatten theirs) (flatten after) sorted →
      after.discardedMax = SpaceSaving.mergeCeiling
        (saturatingAdd (flatten mine).minCount (flatten theirs).minCount) sorted[mine.capacity]? →
        Keeps (.merge left right iter) after)
    (cleared : ∀ tree summary, Keeps (.clear tree) (SpaceSaving.clear summary))
    (tree : SummaryTree) :
    ∃ summary, tree.run H = .ok summary ∧ Represented summary ∧ Keeps tree summary := by
  have inserted : ∀ {tree before} (value : DataInput) (count : ℕ), Represented before →
      Keeps tree before → ∃ after, SpaceSaving.insertMany H before value count = .ok after ∧
        Represented after ∧ Keeps (.insertMany tree value count) after := by
    intro tree before value count represented keeps
    by_cases nothing : count = 0
    · subst nothing
      exact ⟨before, by rw [SpaceSaving.insertMany, if_pos rfl]; rfl, represented,
        unchanged value keeps⟩
    · obtain ⟨after, inserting, represented', step⟩ :=
        SpaceSaving.insertMany_spec H represented value (Nat.pos_of_ne_zero nothing)
      exact ⟨after, inserting, represented', recorded represented keeps step⟩
  induction tree with
  | withCapacity capacity =>
    exact ⟨_, rfl, SpaceSaving.withCapacity_represented capacity, fresh capacity⟩
  | insert tree value hypothesis =>
    obtain ⟨before, running, represented, keeps⟩ := hypothesis
    obtain ⟨after, inserting, represented', keeps'⟩ := inserted value 1 represented keeps
    refine ⟨after, ?_, represented', once keeps'⟩
    simp only [run, running, bind, Except.bind]
    exact inserting
  | insertMany tree value count hypothesis =>
    obtain ⟨before, running, represented, keeps⟩ := hypothesis
    obtain ⟨after, inserting, kept⟩ := inserted value count represented keeps
    refine ⟨after, ?_, kept⟩
    simp only [run, running, bind, Except.bind]
    exact inserting
  | merge left right iter mineHypothesis theirsHypothesis =>
    obtain ⟨mine, mineRunning, mineRepresented, mineKeeps⟩ := mineHypothesis
    obtain ⟨theirs, theirsRunning, theirsRepresented, theirsKeeps⟩ := theirsHypothesis
    obtain ⟨after, sorted, merging, represented, union, ceiling, -⟩ :=
      SpaceSaving.merge_spec iter mineRepresented theirsRepresented
    refine ⟨after, ?_, represented,
      merged iter mineRepresented theirsRepresented mineKeeps theirsKeeps union ceiling⟩
    simp only [run, mineRunning, theirsRunning, bind, Except.bind]
    exact merging
  | clear tree hypothesis =>
    obtain ⟨before, running, represented, -⟩ := hypothesis
    refine ⟨SpaceSaving.clear before, ?_, SpaceSaving.clear_represented represented,
      cleared tree before⟩
    simp only [run, running, bind, Except.bind]
    rfl

/-- A tree of operations ends in a summary that knows of every exact key what its exact weight
demands. -/
theorem SummaryTree.run_tracks (H : SketchHasher) (tree : SummaryTree) :
    ∃ summary, tree.run H = .ok summary ∧ Represented summary ∧
      ∀ key : DataInput, key.isExact = true →
        (flatten summary).Tracks (H.hash64Seeded 0 key) key (tree.weight H key) := by
  refine @run_induction H (fun tree summary => ∀ key : DataInput, key.isExact = true →
      (flatten summary).Tracks (H.hash64Seeded 0 key) key (tree.weight H key))
    (fun capacity key _ => SpaceSaving.tracks_of_empty rfl key)
    (fun value tracks key exact => ?_) (fun represented tracks step key exact => ?_) id
    (fun iter mineRepresented theirsRepresented mineTracks theirsTracks union _ key exact => ?_)
    (fun tree summary key _ => SpaceSaving.tracks_of_empty rfl key) tree
  · rw [weight, ite_self, Nat.add_zero]
    exact tracks key exact
  · have stepped := step.tracks represented.bounded (tracks key exact)
    rwa [if_congr (indistinct_iff_sameKey exact) rfl rfl] at stepped
  · exact union.tracks mineRepresented.bounded theirsRepresented.bounded (mineTracks key exact)
      (theirsTracks key exact)

/-- Soundness: for every tree of operations and every exact key, the upper bound covers the exact
weight; a monitored key's count covers it and its count less its error is within it; the ceiling
covers a key that is not monitored; and a guaranteed key outweighs every key that is not
monitored. -/
theorem space_saving_sound (H : SketchHasher) (tree : SummaryTree) :
    ∃ summary, tree.run H = .ok summary ∧ ∀ key : DataInput, key.isExact = true →
      (∃ bound, SpaceSaving.upperBound H summary key = .ok bound ∧
        min (tree.weight H key) u64Max ≤ bound) ∧
      (Monitored H summary key → ∃ count allowance,
        SpaceSaving.estimate H summary key = .ok count ∧
        SpaceSaving.error H summary key = .ok allowance ∧ allowance ≤ count ∧
        min (tree.weight H key) u64Max ≤ count ∧ count - allowance ≤ tree.weight H key) ∧
      (¬Monitored H summary key → ∃ ceiling, SpaceSaving.minCount summary = .ok ceiling ∧
        min (tree.weight H key) u64Max ≤ ceiling) ∧
      (SpaceSaving.isGuaranteed H summary key = .ok true → ∀ other : DataInput,
        other.isExact = true → ¬Monitored H summary other →
          tree.weight H other < tree.weight H key) := by
  obtain ⟨summary, running, represented, tracks⟩ := tree.run_tracks H
  -- What the invariant says of a key that is monitored, and of one that is not.
  have held : ∀ {key : DataInput} {counter : Counter}, key.isExact = true →
      counter ∈ SpaceSaving.counters summary → counter.Monitors (H.hash64Seeded 0 key) key →
      min (tree.weight H key) u64Max ≤ counter.count ∧
        counter.count - counter.error ≤ tree.weight H key := by
    intro key counter exact member monitors
    have inHolding : counter ∈ (flatten summary).holding (H.hash64Seeded 0 key) key :=
      List.mem_filter.mpr ⟨member, decide_eq_true monitors⟩
    cases tracks key exact with
    | held other only lower upper =>
      rw [only] at inHolding
      obtain rfl := List.mem_singleton.mp inHolding
      exact ⟨lower, upper⟩
    | absent nothing ceiling =>
      rw [nothing] at inHolding
      exact absurd inHolding List.not_mem_nil
  have unheld : ∀ {key : DataInput}, key.isExact = true → ¬Monitored H summary key →
      min (tree.weight H key) u64Max ≤ (flatten summary).minCount := by
    intro key exact unmonitored
    obtain ⟨none_monitors, -⟩ := SpaceSaving.unmonitored_queries represented unmonitored
    cases tracks key exact with
    | held other only lower upper =>
      obtain ⟨member, monitors⟩ := List.mem_filter.mp (only ▸ List.mem_singleton.mpr rfl :
        other ∈ (flatten summary).holding (H.hash64Seeded 0 key) key)
      exact absurd (of_decide_eq_true monitors) (none_monitors other member)
    | absent nothing ceiling => exact ceiling.trans (le_max_left _ _)
  have ceilingEq := SpaceSaving.minCount_spec represented.structured represented.bounded.positive
  refine ⟨summary, running, fun key exact => ⟨?_, ?_, ?_, ?_⟩⟩
  · by_cases monitored : Monitored H summary key
    · obtain ⟨counter, member, monitors, -, bounding, -⟩ :=
        SpaceSaving.monitored_queries represented monitored
      exact ⟨_, bounding, (held exact member monitors).1⟩
    · obtain ⟨-, bounding, -⟩ := SpaceSaving.unmonitored_queries represented monitored
      exact ⟨_, bounding, unheld exact monitored⟩
  · intro monitored
    obtain ⟨counter, member, monitors, estimating, -, erring, -⟩ :=
      SpaceSaving.monitored_queries represented monitored
    obtain ⟨lower, upper⟩ := held exact member monitors
    exact ⟨_, _, estimating, erring, represented.bounded.errors counter member, lower, upper⟩
  · exact fun unmonitored => ⟨_, ceilingEq, unheld exact unmonitored⟩
  · intro guaranteed other otherExact unmonitored
    by_cases monitored : Monitored H summary key
    · obtain ⟨counter, member, monitors, -, -, -, guaranteeing⟩ :=
        SpaceSaving.monitored_queries represented monitored
      obtain ⟨-, upper⟩ := held exact member monitors
      have above : (flatten summary).minCount < counter.count - counter.error :=
        of_decide_eq_true (Except.ok.inj (guaranteeing.symm.trans guaranteed))
      have below := unheld otherExact unmonitored
      have capped := (represented.bounded.counts counter member).2
      omega
    · obtain ⟨-, -, guaranteeing, -⟩ := SpaceSaving.unmonitored_queries represented monitored
      exact Bool.noConfusion (Except.ok.inj (guaranteeing.symm.trans guaranteed))

end AsapSketchlib
