/-
This file says when a level of a UnivMon-Q sketch evicts its lightest candidate. The heap has one
entry for every candidate in every run. The lightest candidate comes to its top as long as no update
of a candidate lowers its score below the one its entry was pushed with: an entry that is too low is
refreshed when it is at the top, and an entry that is too high never gets there.
-/

import AsapSketchlib.UnivMonQLevel
import Mathlib.Data.List.Dedup

namespace AsapSketchlib

namespace UnivMonQ

namespace Level

/-! ### A heap rebuilt from the scores -/

/-- What seating candidates in a level makes of it. -/
structure Seats (level : Level) (candidates : List (ℕ × ℕ)) (final : Level) : Prop where
  oneEach : final.OneEach
  low : final.Low
  lookup : ∀ key score, final.candidateScores.lookup key = some score ↔
    (key, score) ∈ candidates ∨ level.candidateScores.lookup key = some score
  sketch : final.sketch = level.sketch
  capacity : final.candidateCapacity = level.candidateCapacity
  everEvicted : final.everEvicted = level.everEvicted

theorem foldl_seat {level : Level} {candidates : List (ℕ × ℕ)} (one : level.OneEach)
    (low : level.Low) (distinct : (candidates.map Prod.fst).Nodup)
    (absent : ∀ candidate ∈ candidates, candidate.1 ∉ level.candidateScores) :
    Seats level candidates
      (candidates.foldl (fun level candidate => level.seat candidate.1 candidate.2) level) := by
  induction candidates generalizing level with
  | nil => exact ⟨one, low, fun key score => (or_iff_right List.not_mem_nil).symm, rfl, rfl, rfl⟩
  | cons first rest hypothesis =>
    obtain ⟨firstAbsent, restAbsent⟩ := List.forall_mem_cons.mp absent
    obtain ⟨apart, restDistinct⟩ := List.nodup_cons.mp distinct
    have seats := hypothesis (oneEach_seat first.2 one firstAbsent)
      (low_seat first.2 one low firstAbsent) restDistinct fun candidate member held => by
        rcases (AList.mem_insert _).mp held with same | before
        · exact apart (same ▸ List.mem_map_of_mem member)
        · exact restAbsent candidate member before
    refine ⟨seats.oneEach, seats.low, fun key score => ?_, seats.sketch, seats.capacity,
      seats.everEvicted⟩
    rw [List.foldl_cons, seats.lookup, List.mem_cons, or_comm (b := _ ∈ rest), or_assoc]
    refine or_congr_right ?_
    show (level.candidateScores.insert first.1 first.2).lookup key = some score ↔ _
    by_cases same : key = first.1
    · rw [same, AList.lookup_insert, AList.lookup_eq_none.mpr firstAbsent]
      constructor
      · exact fun equal => .inl (Prod.ext rfl (Option.some.inj equal).symm)
      · rintro (equal | impossible)
        · exact congrArg (some ·.2) equal.symm
        · cases impossible
    · rw [AList.lookup_insert_ne same]
      exact (or_iff_right fun equal => same (congrArg Prod.fst equal)).symm

theorem rebuild_spec (level : Level) {candidates : List (ℕ × ℕ)}
    (distinct : (candidates.map Prod.fst).Nodup) :
    Seats { level with candidateScores := ∅, candidateHeap := [] } candidates
      (level.rebuild candidates) :=
  foldl_seat (List.Perm.refl _) (fun _ member => absurd member List.not_mem_nil) distinct
    fun candidate _ => AList.notMem_empty candidate.1

theorem mem_emitted {level : Level} {key score : ℕ} :
    (key, score) ∈ level.emitted ↔ level.candidateScores.lookup key = some score := by
  unfold emitted
  rw [List.mem_insertionSort, List.mem_map]
  constructor
  · rintro ⟨candidate, member, same⟩
    obtain ⟨rfl, rfl⟩ := Prod.mk.inj same
    exact AList.mem_lookup_iff.mpr member
  · exact fun stored => ⟨⟨key, score⟩, AList.mem_lookup_iff.mp stored, rfl⟩

theorem nodup_emitted (level : Level) : (level.emitted.map Prod.fst).Nodup := by
  unfold emitted
  refine (((List.perm_insertionSort _ _).map Prod.fst).nodup_iff).mpr ?_
  rw [List.map_map]
  exact level.candidateScores.keys_nodup

/-! ### Levels that answer alike -/

/-- Two levels with the same counters and the same scores. -/
structure Alike (left right : Level) : Prop where
  sketch : left.sketch = right.sketch
  capacity : left.candidateCapacity = right.candidateCapacity
  everEvicted : left.everEvicted = right.everEvicted
  lookup : ∀ key, left.candidateScores.lookup key = right.candidateScores.lookup key

/-- A level is restored from its serialized form with the same scores and a heap of current
entries. -/
theorem restored_spec (level : Level) : ∃ restored, level.restored = some restored ∧
    restored.OneEach ∧ restored.Low ∧ Alike level restored := by
  have seats := level.rebuild_spec level.nodup_emitted
  refine ⟨level.rebuild level.emitted, if_pos level.nodup_emitted, seats.oneEach, seats.low,
    seats.sketch.symm, seats.capacity.symm, seats.everEvicted.symm, fun key => ?_⟩
  refine Option.ext fun score => ?_
  rw [seats.lookup, mem_emitted]
  exact (or_iff_left fun impossible => Option.some_ne_none score impossible.symm).symm

theorem Alike.mem_iff {left right : Level} (alike : Alike left right) (key : ℕ) :
    key ∈ left.candidateScores ↔ key ∈ right.candidateScores := by
  rw [← AList.lookup_isSome, alike.lookup, AList.lookup_isSome]

theorem Alike.length_eq {left right : Level} (alike : Alike left right) :
    left.candidateScores.entries.length = right.candidateScores.entries.length := by
  have same : left.candidateScores.keys.Perm right.candidateScores.keys := by
    refine (List.perm_ext_iff_of_nodup left.candidateScores.keys_nodup
      right.candidateScores.keys_nodup).mpr fun key => ?_
    rw [← AList.mem_keys, ← AList.mem_keys]
    exact alike.mem_iff key
  have lengths := same.length_eq
  unfold AList.keys List.keys at lengths
  rwa [List.length_map, List.length_map] at lengths

section

variable {level : Level} {top : ℕ ×ₗ ℕ} {rest : List (ℕ ×ₗ ℕ)}
  (searched : Searched level (some top) rest)

include searched

theorem Searched.top_le (low : level.Low) {key score : ℕ}
    (stored : level.candidateScores.lookup key = some score) : top ≤ toLex (score, key) := by
  have held : key ∈ level.candidateScores :=
    AList.lookup_isSome.mp (stored ▸ Option.isSome_some)
  obtain ⟨entry, member, same⟩ :=
    List.mem_map.mp (searched.keys.mem_iff.mpr (AList.mem_keys.mp held))
  have looked : currentEntry level.candidateScores entry = some (toLex (score, key)) := by
    unfold currentEntry
    rw [same, stored]
    rfl
  refine le_trans ?_ (searched.low low entry member _ looked)
  rcases List.mem_cons.mp member with equal | inRest
  · exact equal.ge
  · exact (searched.least top rfl).2 entry inRest

theorem Searched.lookup_top : level.candidateScores.lookup (keyOf top) = some (storedScore top) :=
  (lookup_of_currentEntry (searched.least top rfl).1).2

end

theorem Alike.found_eq {left right : Level} (alike : Alike left right) (leftLow : left.Low)
    (rightLow : right.Low) {leftFound rightFound : Option (ℕ ×ₗ ℕ)}
    {leftRest rightRest : List (ℕ ×ₗ ℕ)} (leftSearched : Searched left leftFound leftRest)
    (rightSearched : Searched right rightFound rightRest) : leftFound = rightFound := by
  have nothing : ∀ {level : Level} {rest : List (ℕ ×ₗ ℕ)}, Searched level none rest →
      ∀ key, key ∉ level.candidateScores := by
    intro level rest searched key held
    have keys := searched.keys
    rw [searched.none rfl] at keys
    exact absurd (keys.mem_iff.mpr (AList.mem_keys.mp held)) List.not_mem_nil
  cases leftFound with
  | none =>
    cases rightFound with
    | none => rfl
    | some top =>
      exact absurd ((alike.mem_iff _).mpr rightSearched.erase.1) (nothing leftSearched _)
  | some first =>
    cases rightFound with
    | none => exact absurd ((alike.mem_iff _).mp leftSearched.erase.1) (nothing rightSearched _)
    | some last =>
      refine congrArg some (le_antisymm ?_ ?_)
      · exact leftSearched.top_le leftLow ((alike.lookup _).trans rightSearched.lookup_top)
      · exact rightSearched.top_le rightLow ((alike.lookup _).symm.trans leftSearched.lookup_top)

section

variable {left right : AList fun _ : ℕ => ℕ} (same : ∀ key, left.lookup key = right.lookup key)

include same

theorem lookup_insert_congr (key score other : ℕ) :
    (left.insert key score).lookup other = (right.insert key score).lookup other := by
  by_cases equal : other = key
  · rw [equal, AList.lookup_insert, AList.lookup_insert]
  · rw [AList.lookup_insert_ne equal, AList.lookup_insert_ne equal, same]

theorem lookup_erase_congr (key other : ℕ) :
    (left.erase key).lookup other = (right.erase key).lookup other := by
  by_cases equal : other = key
  · rw [equal, AList.lookup_erase, AList.lookup_erase]
  · rw [AList.lookup_erase_ne equal, AList.lookup_erase_ne equal, same]

end

theorem Alike.outcome {left right leftNext rightNext : Level} (alike : Alike left right)
    (leftLow : left.Low) (rightLow : right.Low) {key score : ℕ}
    (leftOutcome : Outcome left key score leftNext)
    (rightOutcome : Outcome right key score rightNext) : Alike leftNext rightNext := by
  cases leftOutcome with
  | resident held =>
    cases rightOutcome with
    | resident _ => exact ⟨alike.sketch, alike.capacity, alike.everEvicted,
        lookup_insert_congr alike.lookup key score⟩
    | seated absent _ => exact absurd ((alike.mem_iff key).mp held) absent
    | contested absent _ _ => exact absurd ((alike.mem_iff key).mp held) absent
  | seated absent room =>
    cases rightOutcome with
    | resident held => exact absurd ((alike.mem_iff key).mpr held) absent
    | seated _ _ => exact ⟨alike.sketch, alike.capacity, alike.everEvicted,
        lookup_insert_congr alike.lookup key score⟩
    | contested _ full _ =>
      rw [alike.length_eq, alike.capacity] at room
      exact absurd full room.not_ge
  | @contested absent full found rest searched =>
    cases rightOutcome with
    | resident held => exact absurd ((alike.mem_iff key).mpr held) absent
    | seated _ room =>
      rw [← alike.length_eq, ← alike.capacity] at room
      exact absurd full room.not_ge
    | contested _ _ rightSearched =>
      rw [← alike.found_eq leftLow rightLow searched rightSearched]
      cases found with
      | none => exact ⟨alike.sketch, alike.capacity, alike.everEvicted, alike.lookup⟩
      | some top =>
        unfold contest
        simp only
        split
        · exact ⟨alike.sketch, alike.capacity, rfl,
            lookup_insert_congr (lookup_erase_congr alike.lookup (keyOf top)) key score⟩
        · exact ⟨alike.sketch, alike.capacity, rfl, alike.lookup⟩

/-! ### Merging and clearing -/

theorem nodup_first {order : ℕ × ℕ → ℕ × ℕ → Prop} [DecidableRel order] {keys : List ℕ}
    (distinct : keys.Nodup) (score : ℕ → ℕ) (count : ℕ) :
    ((((keys.map fun key => (key, score key)).insertionSort order).take count).map
      Prod.fst).Nodup := by
  refine List.Nodup.sublist ((List.take_sublist _ _).map Prod.fst) ?_
  refine (((List.perm_insertionSort order _).map Prod.fst).nodup_iff).mpr ?_
  rw [List.map_map]
  exact (List.map_id keys).symm ▸ distinct

theorem merge_spec {hashKey : ℕ → BitVec 128} {bucketBits : ℕ} {level other merged : Level}
    (ran : merge hashKey bucketBits level other = some merged) : merged.OneEach ∧ merged.Low := by
  simp only [merge, Option.bind_eq_bind, Option.bind_eq_some_iff, Option.some.injEq] at ran
  obtain ⟨sketch, added, rfl⟩ := ran
  exact ⟨(rebuild_spec _ (nodup_first (List.nodup_dedup _) _ _)).oneEach,
    (rebuild_spec _ (nodup_first (List.nodup_dedup _) _ _)).low⟩

/-! ### Runs -/

section Runs

variable (hashKey : ℕ → BitVec 128) (bucketBits : ℕ)

def scoreAfter (level : Level) (key : ℕ) : ℕ :=
  scoreOf (level.sketch.update (hashKey key) bucketBits) (hashKey key) bucketBits

/-- The levels of runs whose updates are all allowed. -/
inductive Reached (allowed : Level → ℕ → Prop) : Level → Prop
  | new (width depth counterBits candidates : ℕ) :
      Reached allowed (new width depth counterBits candidates)
  | update {level next : Level} (before : Reached allowed level) (key : ℕ)
      (permitted : allowed level key)
      (ran : level.update key (hashKey key) bucketBits = some next) : Reached allowed next
  | merge {level other merged : Level} (left : Reached allowed level)
      (right : Reached allowed other) (ran : merge hashKey bucketBits level other = some merged) :
      Reached allowed merged
  | clear {level : Level} (before : Reached allowed level) : Reached allowed level.clear
  | restore {level restored : Level} (before : Reached allowed level)
      (ran : level.restored = some restored) : Reached allowed restored

def run (level : Level) (keys : List ℕ) : Option Level :=
  keys.foldlM (fun level key => level.update key (hashKey key) bucketBits) level

def Allows (allowed : Level → ℕ → Prop) : Level → List ℕ → Prop
  | _, [] => True
  | level, key :: rest => allowed level key ∧
      ∀ next, level.update key (hashKey key) bucketBits = some next → Allows allowed next rest

/-- An update leaves the score of its key at or above the score of the entry of the key. -/
def Steady (level : Level) (key : ℕ) : Prop :=
  level.Below key (scoreAfter hashKey bucketBits level key)

/-- A level evicts its lightest candidate: the heap has one entry for every candidate, the search
ends with a candidate of the least score, a candidate is displaced only when it has the least score
and the new key a larger one, and a level restored from the serialized form has the same candidates
after all later updates. -/
structure EvictsLightest (allowed : Level → ℕ → Prop) (level : Level) : Prop where
  oneEach : level.OneEach
  lightest : ∃ found searched, level.lightestCandidate = some (found, searched) ∧
    (found = none → level.candidateScores.keys = []) ∧
    ∀ top, found = some top → level.candidateScores.lookup (keyOf top) = some (storedScore top) ∧
      ∀ key score, level.candidateScores.lookup key = some score → storedScore top ≤ score
  displaced : ∀ key next, level.update key (hashKey key) bucketBits = some next →
    ∀ evicted ∈ level.candidateScores, evicted ∉ next.candidateScores →
      ∃ least score, level.candidateScores.lookup evicted = some least ∧
        (∀ other stored, level.candidateScores.lookup other = some stored → least ≤ stored) ∧
        next.candidateScores.lookup key = some score ∧ least < score
  restored : ∃ restored, level.restored = some restored ∧
    ∀ keys, Allows hashKey bucketBits allowed level keys →
      Allows hashKey bucketBits allowed restored keys →
      ∃ final same, run hashKey bucketBits level keys = some final ∧
        run hashKey bucketBits restored keys = some same ∧ Alike final same

variable {hashKey bucketBits}

theorem Reached.oneEach {allowed : Level → ℕ → Prop} {level : Level}
    (reached : Reached hashKey bucketBits allowed level) : level.OneEach := by
  induction reached with
  | new width depth counterBits candidates => exact List.Perm.refl _
  | @update level next _ key _ ran hypothesis =>
    obtain ⟨same, went, outcome⟩ := update_spec hypothesis key (hashKey key) bucketBits
    obtain rfl : same = next := Option.some.inj (went.symm.trans ran)
    exact oneEach_outcome outcome hypothesis
  | merge _ _ ran _ _ => exact (merge_spec ran).1
  | clear _ _ => exact List.Perm.refl _
  | @restore level restored _ ran _ =>
    obtain ⟨same, went, one, _⟩ := level.restored_spec
    obtain rfl : same = restored := Option.some.inj (went.symm.trans ran)
    exact one

theorem low_update {level next : Level} {key : ℕ} (one : level.OneEach) (low : level.Low)
    (steady : Steady hashKey bucketBits level key)
    (ran : level.update key (hashKey key) bucketBits = some next) : next.OneEach ∧ next.Low := by
  obtain ⟨same, went, outcome⟩ := update_spec one key (hashKey key) bucketBits
  obtain rfl : same = next := Option.some.inj (went.symm.trans ran)
  exact ⟨oneEach_outcome outcome one, low_outcome outcome one low steady⟩

theorem Reached.low {level : Level}
    (reached : Reached hashKey bucketBits (Steady hashKey bucketBits) level) : level.Low := by
  induction reached with
  | new width depth counterBits candidates => exact fun _ member => absurd member List.not_mem_nil
  | update before key steady ran hypothesis =>
    exact (low_update before.oneEach hypothesis steady ran).2
  | merge _ _ ran _ _ => exact (merge_spec ran).2
  | clear _ _ => exact fun _ member => absurd member List.not_mem_nil
  | @restore level restored _ ran _ =>
    obtain ⟨same, went, _, low, _⟩ := level.restored_spec
    obtain rfl : same = restored := Option.some.inj (went.symm.trans ran)
    exact low

theorem Alike.run {left right : Level} (alike : Alike left right) (leftOne : left.OneEach)
    (rightOne : right.OneEach) (leftLow : left.Low) (rightLow : right.Low) (keys : List ℕ)
    (leftSteady : Allows hashKey bucketBits (Steady hashKey bucketBits) left keys)
    (rightSteady : Allows hashKey bucketBits (Steady hashKey bucketBits) right keys) :
    ∃ final same, run hashKey bucketBits left keys = some final ∧
      run hashKey bucketBits right keys = some same ∧ Alike final same := by
  induction keys generalizing left right with
  | nil => exact ⟨left, right, rfl, rfl, alike⟩
  | cons key rest hypothesis =>
    obtain ⟨leftNext, leftRan, leftOutcome⟩ := update_spec leftOne key (hashKey key) bucketBits
    obtain ⟨rightNext, rightRan, rightOutcome⟩ := update_spec rightOne key (hashKey key) bucketBits
    obtain ⟨leftNextOne, leftNextLow⟩ := low_update leftOne leftLow leftSteady.1 leftRan
    obtain ⟨rightNextOne, rightNextLow⟩ := low_update rightOne rightLow rightSteady.1 rightRan
    have counted : Alike { left with sketch := left.sketch.update (hashKey key) bucketBits }
        { right with sketch := right.sketch.update (hashKey key) bucketBits } :=
      ⟨congrArg (·.update (hashKey key) bucketBits) alike.sketch, alike.capacity,
        alike.everEvicted, alike.lookup⟩
    rw [alike.sketch] at leftOutcome counted
    have next := counted.outcome leftLow rightLow leftOutcome rightOutcome
    obtain ⟨final, same, leftFinal, rightFinal, finalAlike⟩ := hypothesis next leftNextOne
      rightNextOne leftNextLow rightNextLow (leftSteady.2 _ leftRan) (rightSteady.2 _ rightRan)
    refine ⟨final, same, ?_, ?_, finalAlike⟩
    · rw [Level.run, List.foldlM_cons, leftRan]
      exact leftFinal
    · rw [Level.run, List.foldlM_cons, rightRan]
      exact rightFinal

theorem displaced_spec {level next : Level} {key score evicted : ℕ}
    (outcome : Outcome level key score next) (low : level.Low) (held : evicted ∈ level.candidateScores)
    (gone : evicted ∉ next.candidateScores) :
    ∃ least, level.candidateScores.lookup evicted = some least ∧
      (∀ other stored, level.candidateScores.lookup other = some stored → least ≤ stored) ∧
      next.candidateScores.lookup key = some score ∧ least < score := by
  cases outcome with
  | resident _ => exact absurd ((AList.mem_insert _).mpr (.inr held)) gone
  | seated _ _ => exact absurd ((AList.mem_insert _).mpr (.inr held)) gone
  | @contested absent full found rest searched =>
    cases found with
    | none => exact absurd held gone
    | some top =>
      unfold contest at gone ⊢
      simp only at gone ⊢
      split at gone
      · rename_i heavier
        have same : evicted = keyOf top := by
          by_contra other
          exact gone ((AList.mem_insert _).mpr (.inr (AList.mem_erase.mpr ⟨other, held⟩)))
        refine ⟨storedScore top, same ▸ searched.lookup_top, fun other stored lookup => ?_, ?_,
          heavier⟩
        · rcases Prod.Lex.le_iff.mp (searched.top_le low lookup) with less | ⟨equal, _⟩
          · exact less.le
          · exact equal.le
        · rw [if_pos heavier]
          exact AList.lookup_insert _
      · exact absurd held gone

/-- In every run the heap has one entry for every candidate and the search for the lightest one
ends. In a run whose updates are all steady, every level evicts its lightest candidate. -/
theorem evicts_lightest (hashKey : ℕ → BitVec 128) (bucketBits : ℕ) :
    (∀ level, Reached hashKey bucketBits (fun _ _ => True) level → level.OneEach ∧
      ∃ result, level.lightestCandidate = some result) ∧
    ∀ level, Reached hashKey bucketBits (Steady hashKey bucketBits) level →
      EvictsLightest hashKey bucketBits (Steady hashKey bucketBits) level := by
  refine ⟨fun level reached => ⟨reached.oneEach, ?_⟩, fun level reached => ?_⟩
  · obtain ⟨found, rest, ran, _⟩ := lightestCandidate_spec reached.oneEach
    exact ⟨_, ran⟩
  · have one := reached.oneEach
    have low := reached.low
    obtain ⟨found, rest, ran, searched⟩ := lightestCandidate_spec one
    refine ⟨one, ⟨found, _, ran, fun none => ?_, fun top some => ?_⟩,
      fun key next updated evicted held gone => ?_, ?_⟩
    · have keys := searched.keys
      rw [none, searched.none none] at keys
      exact keys.nil_eq.symm
    · subst some
      refine ⟨searched.lookup_top, fun key score stored => ?_⟩
      rcases Prod.Lex.le_iff.mp (searched.top_le low stored) with less | ⟨equal, _⟩
      · exact less.le
      · exact equal.le
    · obtain ⟨same, went, outcome⟩ := update_spec one key (hashKey key) bucketBits
      obtain rfl : same = next := Option.some.inj (went.symm.trans updated)
      obtain ⟨least, stored, lowest, seated, less⟩ := displaced_spec outcome low held gone
      exact ⟨least, _, stored, lowest, seated, less⟩
    · obtain ⟨restored, made, restoredOne, restoredLow, alike⟩ := level.restored_spec
      exact ⟨restored, made, alike.run one restoredOne low restoredLow⟩

/-- A level with one candidate evicts it as the lightest. -/
theorem evicts_lightest_one : ∃ level,
    (new 4 1 32 2).update 1 (BitVec.ofNat 128 1) 2 = some level ∧
      EvictsLightest (BitVec.ofNat 128) 2 (Steady (BitVec.ofNat 128) 2) level := by
  obtain ⟨level, ran, _⟩ :=
    update_spec (List.Perm.refl _ : (new 4 1 32 2).OneEach) 1 (BitVec.ofNat 128 1) 2
  exact ⟨level, ran, (evicts_lightest (BitVec.ofNat 128) 2).2 level
    ((Reached.new 4 1 32 2).update 1 (fun _ member => absurd member List.not_mem_nil) ran)⟩

theorem Reached.run {level final : Level} (reached : Reached hashKey bucketBits (fun _ _ => True) level)
    (keys : List ℕ) (ran : Level.run hashKey bucketBits level keys = some final) :
    Reached hashKey bucketBits (fun _ _ => True) final := by
  induction keys generalizing level with
  | nil => exact Option.some.inj ran ▸ reached
  | cons key rest hypothesis =>
    rw [Level.run, List.foldlM_cons, Option.bind_eq_bind, Option.bind_eq_some_iff] at ran
    obtain ⟨next, updated, later⟩ := ran
    exact hypothesis (reached.update key trivial updated) later

/-- Key 0 is seated at the score 4 of a counter that it shares with key 8. Key 4, which counts down
there, lowers its score to 2, and its entry stays at 4. The lightest candidate is then key 8 with
the score 3. -/
theorem lightest_too_heavy : ∃ level,
    Level.run (BitVec.ofNat 128) 2 (new 4 1 32 2) [8, 8, 8, 0, 4, 4, 4, 0] = some level ∧
    Reached (BitVec.ofNat 128) 2 (fun _ _ => True) level ∧
    level.lightestCandidate.map Prod.fst = some (some (toLex (3, 8))) ∧
    level.candidateScores.lookup 0 = some 2 ∧
      ¬EvictsLightest (BitVec.ofNat 128) 2 (fun _ _ => True) level := by
  have evaluated : (Level.run (BitVec.ofNat 128) 2 (new 4 1 32 2) [8, 8, 8, 0, 4, 4, 4, 0]).any
      (fun level => decide (level.lightestCandidate.map Prod.fst = some (some (toLex (3, 8))) ∧
        level.candidateScores.lookup 0 = some 2)) = true := by decide +kernel
  obtain ⟨level, ran, checked⟩ := (Option.any_eq_true _ _).mp evaluated
  obtain ⟨found, stored⟩ := of_decide_eq_true checked
  refine ⟨level, ran, (Reached.new 4 1 32 2).run _ ran, found, stored, fun evicts => ?_⟩
  obtain ⟨top, searched, went, _, least⟩ := evicts.lightest
  rw [went] at found
  exact absurd ((least _ (Option.some.inj found)).2 0 2 stored) (by decide)

end Runs

end Level

end UnivMonQ

end AsapSketchlib
