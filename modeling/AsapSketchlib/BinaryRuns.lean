/-
This file develops lists of powers of two, largest first, given by how often each power
occurs. Such a list is balanced if every power but the largest occurs one of two neighbouring
numbers of times; it then stays so when its front is dropped, and its first entry is bounded
by a fraction of the rest.
-/

import Mathlib.Algebra.BigOperators.Group.List.Basic
import Mathlib.Algebra.GroupWithZero.Nat
import Mathlib.Data.List.Count
import Mathlib.Data.Nat.Basic

namespace AsapSketchlib

namespace BinaryRuns

/-- The powers of two from a level up, each as often as its count says, largest first. -/
def expand (level : ℕ) : List ℕ → List ℕ
  | [] => []
  | count :: counts => expand (level + 1) counts ++ List.replicate count (2 ^ level)

/-- No power is missing, none occurs more than `low + 1` times, and all but the largest occur at
least `low` times. -/
structure Balanced (low : ℕ) (counts : List ℕ) : Prop where
  range : ∀ count ∈ counts, 1 ≤ count ∧ count ≤ low + 1
  full : ∀ count ∈ counts.dropLast, low ≤ count

theorem balanced_nil (low : ℕ) : Balanced low [] where
  range := fun _ member => absurd member List.not_mem_nil
  full := fun _ member => absurd member List.not_mem_nil

theorem Balanced.cons {low count : ℕ} {counts : List ℕ} (balanced : Balanced low counts)
    (positive : 1 ≤ count) (small : count ≤ low + 1) (full : counts ≠ [] → low ≤ count) :
    Balanced low (count :: counts) where
  range := List.forall_mem_cons.mpr ⟨⟨positive, small⟩, balanced.range⟩
  full := by
    cases counts with
    | nil => exact fun _ member => absurd member List.not_mem_nil
    | cons next rest =>
      exact List.forall_mem_cons.mpr ⟨full (List.cons_ne_nil next rest), balanced.full⟩

section

variable {low count : ℕ} {counts : List ℕ} (balanced : Balanced low (count :: counts))

include balanced

theorem Balanced.head : 1 ≤ count ∧ count ≤ low + 1 ∧ (counts ≠ [] → low ≤ count) := by
  obtain ⟨positive, small⟩ := balanced.range count List.mem_cons_self
  refine ⟨positive, small, fun more => balanced.full count ?_⟩
  rw [List.dropLast_cons_of_ne_nil more]
  exact List.mem_cons_self

theorem Balanced.tail :
    Balanced low counts where
  range := fun other member => balanced.range other (List.mem_cons_of_mem count member)
  full := by
    intro other member
    cases counts with
    | nil => exact absurd member List.not_mem_nil
    | cons next rest => exact balanced.full other (List.mem_cons_of_mem count member)

end

/-! ### The entries -/

theorem mem_expand {level entry : ℕ} {counts : List ℕ} (member : entry ∈ expand level counts) :
    ∃ place < counts.length, entry = 2 ^ (level + place) := by
  induction counts generalizing level with
  | nil => exact absurd member List.not_mem_nil
  | cons count counts hypothesis =>
    rcases List.mem_append.mp member with larger | same
    · obtain ⟨place, inside, rfl⟩ := hypothesis larger
      refine ⟨place + 1, Nat.succ_lt_succ inside, ?_⟩
      rw [Nat.add_assoc, Nat.add_comm 1 place]
    · exact ⟨0, Nat.succ_pos _, (List.mem_replicate.mp same).2⟩

theorem pairwise_expand (level : ℕ) (counts : List ℕ) :
    (expand level counts).Pairwise fun older newer => newer ≤ older := by
  induction counts generalizing level with
  | nil => exact List.Pairwise.nil
  | cons count counts hypothesis =>
    refine List.pairwise_append.mpr ⟨hypothesis (level + 1), ?_, ?_⟩
    · exact List.pairwise_replicate.mpr (Or.inr (Nat.le_refl _))
    · intro larger member smaller same
      obtain ⟨place, -, rfl⟩ := mem_expand member
      rw [(List.mem_replicate.mp same).2]
      exact Nat.pow_le_pow_right (by decide) (by omega)

theorem count_expand (level place : ℕ) (counts : List ℕ) :
    (expand level counts).count (2 ^ (level + place)) = counts.getD place 0 := by
  induction counts generalizing level place with
  | nil => rfl
  | cons count counts hypothesis =>
    unfold expand
    rw [List.count_append]
    cases place with
    | zero =>
      have absent : 2 ^ (level + 0) ∉ expand (level + 1) counts := by
        intro member
        obtain ⟨place, -, equal⟩ := mem_expand member
        have exponent := Nat.pow_right_injective (Nat.le_refl 2) equal
        omega
      rw [List.count_eq_zero_of_not_mem absent, Nat.add_zero, List.count_replicate_self,
        Nat.zero_add]
      rfl
    | succ place =>
      have other : 2 ^ level ≠ 2 ^ (level + (place + 1)) := by
        intro equal
        have exponent := Nat.pow_right_injective (Nat.le_refl 2) equal
        omega
      have regrouped : level + (place + 1) = level + 1 + place := by omega
      rw [List.count_replicate, if_neg fun same => other (eq_of_beq same), Nat.add_zero, regrouped,
        hypothesis]
      rfl

theorem head_expand {low level first : ℕ} {counts rest : List ℕ} (balanced : Balanced low counts)
    (equal : expand level counts = first :: rest) :
    counts ≠ [] ∧ first = 2 ^ (level + (counts.length - 1)) := by
  induction counts generalizing level first rest with
  | nil => exact absurd equal (List.cons_ne_nil first rest).symm
  | cons count counts hypothesis =>
    refine ⟨List.cons_ne_nil _ _, ?_⟩
    unfold expand at equal
    cases larger : expand (level + 1) counts with
    | cons largest others =>
      rw [larger] at equal
      obtain ⟨more, power⟩ := hypothesis balanced.tail larger
      have positive := List.length_pos_of_ne_nil more
      rw [← (List.cons.inj equal).1, power]
      congr 1
      rw [List.length_cons]
      omega
    | nil =>
      have none : counts = [] := by
        cases counts with
        | nil => rfl
        | cons next later =>
          obtain ⟨positive, -, -⟩ := balanced.tail.head
          have missing := (List.append_eq_nil_iff.mp larger).2
          rw [List.replicate_eq_nil_iff] at missing
          omega
      subst none
      rw [larger, List.nil_append] at equal
      have member : first ∈ List.replicate count (2 ^ level) := equal ▸ List.mem_cons_self
      exact (List.mem_replicate.mp member).2

/-! ### Dropping the front -/

theorem tail_expand {low level first : ℕ} {counts rest : List ℕ}
    (balanced : Balanced low counts) (equal : expand level counts = first :: rest) :
    ∃ counts', rest = expand level counts' ∧ Balanced low counts' := by
  induction counts generalizing level first rest with
  | nil => exact absurd equal (List.cons_ne_nil first rest).symm
  | cons count counts hypothesis =>
    obtain ⟨headPositive, small, full⟩ := balanced.head
    unfold expand at equal
    cases larger : expand (level + 1) counts with
    | cons largest others =>
      have more : counts ≠ [] := (head_expand balanced.tail larger).1
      rw [larger] at equal
      obtain ⟨counts', othersEq, balanced'⟩ := hypothesis balanced.tail larger
      refine ⟨count :: counts', ?_, balanced'.cons headPositive small fun _ => full more⟩
      rw [← (List.cons.inj equal).2, othersEq]
      rfl
    | nil =>
      rw [larger, List.nil_append] at equal
      obtain ⟨fewer, rfl⟩ := Nat.exists_eq_succ_of_ne_zero (Nat.one_le_iff_ne_zero.mp headPositive)
      rw [List.replicate_succ] at equal
      obtain ⟨-, rfl⟩ := List.cons.inj equal
      by_cases last : fewer = 0
      · subst last
        exact ⟨[], rfl, balanced_nil low⟩
      · exact ⟨[fewer], rfl, (balanced_nil low).cons (Nat.one_le_iff_ne_zero.mpr last)
          (Nat.le_of_succ_le small) fun more => absurd rfl more⟩

theorem suffix_expand {low level : ℕ} {counts front back : List ℕ}
    (balanced : Balanced low counts) (equal : expand level counts = front ++ back) :
    ∃ counts', back = expand level counts' ∧ Balanced low counts' := by
  induction front generalizing counts with
  | nil => exact ⟨counts, equal.symm, balanced⟩
  | cons first front hypothesis =>
    obtain ⟨counts', restEq, balanced'⟩ := tail_expand balanced equal
    exact hypothesis balanced' restEq.symm

/-! ### The weight of the first entry -/

theorem sum_expand {low level : ℕ} {counts : List ℕ} (balanced : Balanced low counts)
    (some : counts ≠ []) :
    low * (2 ^ (level + (counts.length - 1)) - 2 ^ level) + 2 ^ (level + (counts.length - 1)) ≤
      (expand level counts).sum := by
  induction counts generalizing level with
  | nil => exact absurd rfl some
  | cons count counts hypothesis =>
    obtain ⟨positive, -, full⟩ := balanced.head
    unfold expand
    rw [List.sum_append, List.sum_replicate_nat]
    by_cases more : counts = []
    · subst more
      show low * (2 ^ (level + 0) - 2 ^ level) + 2 ^ (level + 0) ≤ 0 + count * 2 ^ level
      rw [Nat.add_zero, Nat.sub_self, Nat.mul_zero, Nat.zero_add, Nat.zero_add]
      exact Nat.le_mul_of_pos_left _ positive
    · have larger : low * (2 ^ (level + 1 + (counts.length - 1)) - 2 ^ (level + 1)) +
          2 ^ (level + 1 + (counts.length - 1)) ≤ (expand (level + 1) counts).sum :=
        hypothesis balanced.tail more
      have length := List.length_pos_of_ne_nil more
      have same : level + ((count :: counts).length - 1) = level + 1 + (counts.length - 1) := by
        rw [List.length_cons]
        omega
      have below : 2 ^ (level + 1) ≤ 2 ^ (level + 1 + (counts.length - 1)) :=
        Nat.pow_le_pow_right (by decide) (Nat.le_add_right _ _)
      have double : 2 ^ (level + 1) = 2 ^ level + 2 ^ level := by rw [pow_succ, Nat.mul_two]
      have split : ∀ power twice once : ℕ, twice ≤ power → twice = once + once →
          power - once = power - twice + once := by omega
      have enough : low * 2 ^ level ≤ count * 2 ^ level := Nat.mul_le_mul_right _ (full more)
      rw [same, split _ _ _ below double, Nat.mul_add, Nat.add_right_comm]
      exact Nat.add_le_add larger enough

end BinaryRuns

end AsapSketchlib
