/-
This file models a physical level of a UnivMon-Q sketch: its CountSketch, the table of candidates
with their scores, and the heap of candidates, whose entries keep the score a candidate had when
they were pushed until they come to the top.

A hash map is a list of entries without a key twice, in an order that nothing depends on. A binary
heap is the list of its entries, of which the least is at the top.
-/

import AsapSketchlib.LazyHeap
import AsapSketchlib.PackedCountSketch
import Mathlib.Data.List.AList
import Mathlib.Data.Prod.Lex

namespace AsapSketchlib

namespace UnivMonQ

structure Level where
  sketch : PackedCountSketch
  candidateScores : AList fun _ : ℕ => ℕ
  candidateHeap : List (ℕ ×ₗ ℕ)
  candidateCapacity : ℕ
  everEvicted : Bool

def keyOf (entry : ℕ ×ₗ ℕ) : ℕ := (ofLex entry).2

def storedScore (entry : ℕ ×ₗ ℕ) : ℕ := (ofLex entry).1

def currentEntry (scores : AList fun _ : ℕ => ℕ) (entry : ℕ ×ₗ ℕ) : Option (ℕ ×ₗ ℕ) :=
  (scores.lookup (keyOf entry)).map fun score => toLex (score, keyOf entry)

namespace Level

/-- `Level::new`. -/
def new (width depth counterBits candidates : ℕ) : Level where
  sketch := .new width depth counterBits
  candidateScores := ∅
  candidateHeap := []
  candidateCapacity := candidates
  everEvicted := false

/-- `lightest_candidate`, with a round for every entry and one more. -/
def lightestCandidate (level : Level) : Option (Option (ℕ ×ₗ ℕ) × Level) :=
  (LazyHeap.lightest (currentEntry level.candidateScores) (level.candidateHeap.length + 1)
    level.candidateHeap).map fun result => (result.1, { level with candidateHeap := result.2 })

def scoreOf (sketch : PackedCountSketch) (hash : BitVec 128) (bucketBits : ℕ) : ℕ :=
  (max (sketch.estimate hash bucketBits) 0).toNat

/-- A key is given a score, and an entry of the heap. -/
def seat (level : Level) (key score : ℕ) : Level :=
  { level with
    candidateScores := level.candidateScores.insert key score
    candidateHeap := toLex (score, key) :: level.candidateHeap }

/-- A key that found no room is seated in place of the lightest candidate if it is heavier. -/
def contest (searched : Level) (key score : ℕ) : Option (ℕ ×ₗ ℕ) → Level
  | none => searched
  | some lightest =>
    let evicting := { searched with everEvicted := true }
    if storedScore lightest < score then
      seat { evicting with
        candidateScores := evicting.candidateScores.erase (keyOf lightest) } key score
    else { evicting with candidateHeap := lightest :: evicting.candidateHeap }

/-- `Level::update`. -/
def update (level : Level) (key : ℕ) (hash : BitVec 128) (bucketBits : ℕ) : Option Level :=
  let counted := { level with sketch := level.sketch.update hash bucketBits }
  let score := scoreOf counted.sketch hash bucketBits
  if key ∈ counted.candidateScores then
    some { counted with candidateScores := counted.candidateScores.insert key score }
  else if counted.candidateScores.entries.length < counted.candidateCapacity then
    some (counted.seat key score)
  else do
    let (found, searched) ← counted.lightestCandidate
    some (searched.contest key score found)

/-- The loop that puts candidates into an empty table and an empty heap. -/
def rebuild (level : Level) (candidates : List (ℕ × ℕ)) : Level :=
  candidates.foldl (fun level candidate => level.seat candidate.1 candidate.2)
    { level with candidateScores := ∅, candidateHeap := [] }

/-- `Level::merge`. -/
def merge (hashKey : ℕ → BitVec 128) (bucketBits : ℕ) (level other : Level) : Option Level := do
  let sketch ← level.sketch.merge other.sketch
  let combined := (level.candidateScores.keys ++ other.candidateScores.keys).dedup
  let scored := combined.map fun key => (key, scoreOf sketch (hashKey key) bucketBits)
  let retained := (scored.insertionSort fun left right =>
    right.2 < left.2 ∨ right.2 = left.2 ∧ left.1 ≤ right.1).take level.candidateCapacity
  some (rebuild { level with
    sketch := sketch
    everEvicted := level.everEvicted || other.everEvicted ||
      decide (level.candidateCapacity < combined.length) } retained)

/-- `Level::clear`. -/
def clear (level : Level) : Level :=
  { level with
    sketch := level.sketch.clear
    candidateScores := ∅
    candidateHeap := []
    everEvicted := false }

/-- The candidates in the order in which they are written, ascending by key. -/
def emitted (level : Level) : List (ℕ × ℕ) :=
  (level.candidateScores.entries.map fun candidate =>
    (candidate.1, candidate.2)).insertionSort fun left right => left.1 ≤ right.1

/-- A level as it is read from its serialized form. A key twice is an error. The heap is rebuilt
from the scores. -/
def restored (level : Level) : Option Level :=
  if (level.emitted.map Prod.fst).Nodup then some (level.rebuild level.emitted) else none

/-! ### One entry for every candidate -/

/-- The heap has one entry for every key of the table. -/
def OneEach (level : Level) : Prop :=
  (level.candidateHeap.map keyOf).Perm level.candidateScores.keys

/-- No entry of the heap has a score above the stored one. -/
def Low (level : Level) : Prop :=
  LazyHeap.Low (currentEntry level.candidateScores) level.candidateHeap

end Level

section

variable {scores : AList fun _ : ℕ => ℕ} {entry now : ℕ ×ₗ ℕ}
  (looked : currentEntry scores entry = some now)

include looked

theorem currentEntry_again : currentEntry scores now = some now := by
  obtain ⟨score, stored, rfl⟩ := Option.map_eq_some_iff.mp looked
  show (scores.lookup (keyOf entry)).map _ = _
  rw [stored]
  rfl

theorem lookup_of_currentEntry :
    keyOf now = keyOf entry ∧ scores.lookup (keyOf entry) = some (storedScore now) := by
  obtain ⟨score, stored, rfl⟩ := Option.map_eq_some_iff.mp looked
  exact ⟨rfl, stored⟩

end

theorem currentEntry_eq_none {scores : AList fun _ : ℕ => ℕ} {entry : ℕ ×ₗ ℕ} :
    currentEntry scores entry = none ↔ keyOf entry ∉ scores := by
  rw [currentEntry, Option.map_eq_none_iff, AList.lookup_eq_none]

theorem le_iff_storedScore {left right : ℕ ×ₗ ℕ} (same : keyOf left = keyOf right) :
    left ≤ right ↔ storedScore left ≤ storedScore right := by
  rw [Prod.Lex.le_iff]
  constructor
  · rintro (less | ⟨equal, _⟩)
    · exact less.le
    · exact equal.le
  · intro ordered
    rcases Nat.lt_or_eq_of_le ordered with less | equal
    · exact .inl less
    · exact .inr ⟨equal, same.le⟩

namespace Level

/-- What a search for the lightest candidate leaves: an entry for every candidate, and if it finds
one, it is up to date and least. -/
structure Searched (level : Level) (found : Option (ℕ ×ₗ ℕ)) (rest : List (ℕ ×ₗ ℕ)) : Prop where
  keys : ((found.toList ++ rest).map keyOf).Perm level.candidateScores.keys
  low : level.Low → LazyHeap.Low (currentEntry level.candidateScores) (found.toList ++ rest)
  none : found = none → rest = []
  least : ∀ top, found = some top → currentEntry level.candidateScores top = some top ∧
    ∀ entry ∈ rest, top ≤ entry

theorem lightestCandidate_spec {level : Level} (one : OneEach level) :
    ∃ found rest, level.lightestCandidate =
      some (found, { level with candidateHeap := rest }) ∧ Searched level found rest := by
  obtain ⟨found, rest, ran⟩ := LazyHeap.lightest_ends_of_length
    (currentEntry level.candidateScores) currentEntry_again level.candidateHeap
  refine ⟨found, rest, ?_, ?_, LazyHeap.low_lightest _ currentEntry_again ran, ?_, ?_⟩
  · unfold lightestCandidate
    rw [ran]
    rfl
  · refine LazyHeap.lightest_induction (currentEntry level.candidateScores)
      (fun {heap rest top} split gone (keys : (heap.map keyOf).Perm _) => ?_)
      (fun {heap rest top now} split looked (keys : (heap.map keyOf).Perm _) => ?_) ran one
    · have held : keyOf top ∈ level.candidateScores.keys :=
        keys.mem_iff.mp (List.mem_map_of_mem (split.mem_iff.mpr List.mem_cons_self))
      exact absurd (AList.mem_keys.mpr held) (currentEntry_eq_none.mp gone)
    · show ((now :: rest).map keyOf).Perm _
      refine List.Perm.trans ?_ keys
      rw [List.map_cons, (lookup_of_currentEntry looked).1, ← List.map_cons]
      exact (split.map keyOf).symm
  · intro none
    rcases LazyHeap.lightest_spec _ ran with ⟨_, empty⟩ | ⟨top, found, _⟩
    · exact empty
    · cases none.symm.trans found
  · intro top found
    rcases LazyHeap.lightest_spec _ ran with ⟨none, _⟩ | ⟨same, other, upToDate, least⟩
    · cases none.symm.trans found
    · obtain rfl : same = top := Option.some.inj (other.symm.trans found)
      exact ⟨upToDate, least⟩

/-- What an update makes of a level whose counters have been updated. -/
inductive Outcome (level : Level) (key score : ℕ) : Level → Prop
  | resident (held : key ∈ level.candidateScores) :
      Outcome level key score
        { level with candidateScores := level.candidateScores.insert key score }
  | seated (absent : key ∉ level.candidateScores)
      (room : level.candidateScores.entries.length < level.candidateCapacity) :
      Outcome level key score (level.seat key score)
  | contested (absent : key ∉ level.candidateScores)
      (full : level.candidateCapacity ≤ level.candidateScores.entries.length)
      {found : Option (ℕ ×ₗ ℕ)} {rest : List (ℕ ×ₗ ℕ)} (searched : Searched level found rest) :
      Outcome level key score ({ level with candidateHeap := rest }.contest key score found)

theorem update_spec {level : Level} (one : OneEach level) (key : ℕ) (hash : BitVec 128)
    (bucketBits : ℕ) : ∃ next, level.update key hash bucketBits = some next ∧
      Outcome { level with sketch := level.sketch.update hash bucketBits } key
        (scoreOf (level.sketch.update hash bucketBits) hash bucketBits) next := by
  unfold update
  by_cases held : key ∈ level.candidateScores
  · exact ⟨_, if_pos held, .resident held⟩
  · by_cases room : level.candidateScores.entries.length < level.candidateCapacity
    · exact ⟨_, (if_neg held).trans (if_pos room), .seated held room⟩
    · obtain ⟨found, rest, ran, searched⟩ := @lightestCandidate_spec
        { level with sketch := level.sketch.update hash bucketBits } one
      refine ⟨_, (if_neg held).trans ((if_neg room).trans ?_),
        @Outcome.contested { level with sketch := level.sketch.update hash bucketBits } key _ held
          (not_lt.mp room) found rest searched⟩
      rw [ran]
      rfl

/-! ### Updates keep one entry for every candidate -/

theorem oneEach_seat {level : Level} {key : ℕ} (score : ℕ) (one : OneEach level)
    (absent : key ∉ level.candidateScores) : OneEach (level.seat key score) := by
  show (key :: level.candidateHeap.map keyOf).Perm (level.candidateScores.insert key score).keys
  rw [AList.keys_insert, List.erase_of_not_mem (mt AList.mem_keys.mpr absent)]
  exact one.cons key

theorem Searched.erase {level : Level} {top : ℕ ×ₗ ℕ} {rest : List (ℕ ×ₗ ℕ)}
    (searched : Searched level (some top) rest) :
    keyOf top ∈ level.candidateScores ∧
      (rest.map keyOf).Perm (level.candidateScores.erase (keyOf top)).keys := by
  have keys : (keyOf top :: rest.map keyOf).Perm level.candidateScores.keys := searched.keys
  refine ⟨AList.mem_keys.mpr (keys.mem_iff.mp List.mem_cons_self), ?_⟩
  rw [AList.keys_erase]
  have fewer := keys.erase (keyOf top)
  rwa [List.erase_cons_head] at fewer

theorem oneEach_outcome {level next : Level} {key score : ℕ}
    (outcome : Outcome level key score next) (one : OneEach level) : OneEach next := by
  cases outcome with
  | resident held =>
    show (level.candidateHeap.map keyOf).Perm (level.candidateScores.insert key score).keys
    rw [AList.keys_insert]
    exact one.trans (List.perm_cons_erase (AList.mem_keys.mp held))
  | seated absent room => exact oneEach_seat score one absent
  | @contested absent full found rest searched =>
    cases found with
    | none => exact searched.keys
    | some top =>
      unfold contest
      simp only
      split
      · exact oneEach_seat score searched.erase.2 fun held => absent (AList.mem_erase.mp held).2
      · exact searched.keys

/-! ### Updates keep entries low -/

theorem currentEntry_congr {scores others : AList fun _ : ℕ => ℕ} {entry : ℕ ×ₗ ℕ}
    (same : scores.lookup (keyOf entry) = others.lookup (keyOf entry)) :
    currentEntry scores entry = currentEntry others entry :=
  congrArg (Option.map _) same

theorem low_seat {level : Level} {key : ℕ} (score : ℕ) (one : OneEach level) (low : level.Low)
    (absent : key ∉ level.candidateScores) : (level.seat key score).Low := by
  intro entry member now looked
  rcases List.mem_cons.mp member with rfl | member
  · obtain ⟨same, stored⟩ := lookup_of_currentEntry looked
    refine (le_iff_storedScore same.symm).mpr (Option.some.inj ?_).le
    exact (AList.lookup_insert level.candidateScores).symm.trans stored
  · have other : keyOf entry ≠ key := fun same => absent
      (AList.mem_keys.mpr (one.mem_iff.mp (same ▸ List.mem_map_of_mem member)))
    rw [show (level.seat key score).candidateScores = level.candidateScores.insert key score from rfl,
      currentEntry_congr (AList.lookup_insert_ne other)] at looked
    exact low entry member now looked

/-- No entry of the key is above a score. -/
def Below (level : Level) (key score : ℕ) : Prop :=
  ∀ entry ∈ level.candidateHeap, keyOf entry = key → storedScore entry ≤ score

theorem low_outcome {level next : Level} {key score : ℕ}
    (outcome : Outcome level key score next) (one : OneEach level) (low : level.Low)
    (below : level.Below key score) : next.Low := by
  cases outcome with
  | resident held =>
    intro entry member now looked
    by_cases same : keyOf entry = key
    · obtain ⟨sameKey, stored⟩ := lookup_of_currentEntry looked
      refine (le_iff_storedScore sameKey.symm).mpr ((below entry member same).trans_eq ?_)
      rw [same] at stored
      exact Option.some.inj ((AList.lookup_insert level.candidateScores).symm.trans stored)
    · rw [currentEntry_congr (AList.lookup_insert_ne same)] at looked
      exact low entry member now looked
  | seated absent room => exact low_seat score one low absent
  | @contested absent full found rest searched =>
    have searchedLow := searched.low low
    cases found with
    | none => exact searchedLow
    | some top =>
      unfold contest
      simp only
      split
      · refine low_seat score searched.erase.2 (fun entry member now looked => ?_)
          fun held => absent (AList.mem_erase.mp held).2
        have other : keyOf entry ≠ keyOf top := fun same => by
          have held := searched.erase.2.mem_iff.mp (List.mem_map_of_mem member)
          exact (AList.mem_erase.mp (AList.mem_keys.mpr held)).1 same
        rw [currentEntry_congr (AList.lookup_erase_ne other)] at looked
        exact searchedLow entry (List.mem_cons_of_mem top member) now looked
      · exact searchedLow

end Level

end UnivMonQ

end AsapSketchlib
