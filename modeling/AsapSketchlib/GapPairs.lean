/-
This file develops byte strings that are read as pairs of varints: the gap from the index before
to the next one, and the value there. The gaps of a string determine the indexes, which are
their partial sums.
-/

import AsapSketchlib.Uvarint
import Mathlib.Data.List.Basic

namespace AsapSketchlib

namespace GapPairs

/-- The input starts with the pairs of gap and value, and the rest stands behind them. -/
inductive Reads : List UInt8 → List (ℕ × ℕ) → List UInt8 → Prop
  | nil (input : List UInt8) : Reads input [] input
  | cons {input rest : List UInt8} {gap used val usedVal : ℕ} {pairs : List (ℕ × ℕ)}
      (gapRead : Uvarint.read input = some (gap, used))
      (valRead : Uvarint.read (input.drop used) = some (val, usedVal))
      (later : Reads ((input.drop used).drop usedVal) pairs rest) :
      Reads input ((gap, val) :: pairs) rest

def updates (prev : ℕ) : List (ℕ × ℕ) → List (ℕ × UInt8)
  | [] => []
  | (gap, val) :: rest => (prev + gap, UInt8.ofNat val) :: updates (prev + gap) rest

def total : List (ℕ × ℕ) → ℕ
  | [] => 0
  | (gap, _) :: rest => gap + total rest

/-- The pairs that an encoder writes for updates behind an index. -/
def gaps (prev : ℕ) : List (ℕ × UInt8) → List (ℕ × ℕ)
  | [] => []
  | update :: rest => (update.1 - prev, update.2.toNat) :: gaps update.1 rest

/-- A sequence of pairs for a number of registers: indexes that strictly increase and stay below
the number, and values of one byte. -/
structure WellFormed (n : ℕ) (pairs : List (ℕ × ℕ)) : Prop where
  increasing : ((updates 0 pairs).map Prod.fst).Pairwise (· < ·)
  below : ∀ update ∈ updates 0 pairs, update.1 < n
  values : ∀ pair ∈ pairs, pair.2 ≤ 0xff

/-! ### Reading -/

theorem reads_cons_iff {input rest : List UInt8} {gap used val usedVal : ℕ} {pair : ℕ × ℕ}
    {pairs : List (ℕ × ℕ)} (gapRead : Uvarint.read input = some (gap, used))
    (valRead : Uvarint.read (input.drop used) = some (val, usedVal)) :
    Reads input (pair :: pairs) rest ↔
      pair = (gap, val) ∧ Reads ((input.drop used).drop usedVal) pairs rest := by
  constructor
  · rintro (_ | ⟨gapAgain, valAgain, later⟩)
    obtain ⟨rfl, rfl⟩ := Prod.mk.inj (Option.some.inj (gapRead.symm.trans gapAgain))
    obtain ⟨rfl, rfl⟩ := Prod.mk.inj (Option.some.inj (valRead.symm.trans valAgain))
    exact ⟨rfl, later⟩
  · rintro ⟨rfl, later⟩
    exact .cons gapRead valRead later

theorem reads_unique {input : List UInt8} {first second : List (ℕ × ℕ)}
    (one : Reads input first []) (other : Reads input second []) : first = second := by
  generalize ending : ([] : List UInt8) = rest at one
  induction one generalizing second with
  | nil input =>
    subst ending
    cases other with
    | nil => rfl
    | cons gapRead => cases gapRead
  | cons gapRead valRead _ hypothesis =>
    cases second with
    | nil =>
      cases other
      cases gapRead
    | cons pair pairs =>
      obtain ⟨rfl, later⟩ := (reads_cons_iff gapRead valRead).mp other
      rw [hypothesis later ending]

theorem gap_lt {input rest : List UInt8} {pairs : List (ℕ × ℕ)} (reads : Reads input pairs rest) :
    ∀ pair ∈ pairs, pair.1 < 2 ^ 64 := by
  induction reads with
  | nil => exact fun pair member => absurd member List.not_mem_nil
  | cons gapRead _ _ hypothesis =>
    exact List.forall_mem_cons.mpr ⟨(Uvarint.read_bounds gapRead).1, hypothesis⟩

theorem length_drop_lt {input : List UInt8} {gap used val usedVal : ℕ}
    (gapRead : Uvarint.read input = some (gap, used))
    (valRead : Uvarint.read (input.drop used) = some (val, usedVal)) :
    ((input.drop used).drop usedVal).length < input.length := by
  obtain ⟨-, some, inside⟩ := Uvarint.read_bounds gapRead
  obtain ⟨-, someVal, insideVal⟩ := Uvarint.read_bounds valRead
  rw [List.length_drop] at insideVal ⊢
  rw [List.length_drop]
  omega

/-! ### The updates of pairs -/

@[simp] theorem updates_nil (prev : ℕ) : updates prev [] = [] := rfl

@[simp] theorem updates_cons (prev gap val : ℕ) (rest : List (ℕ × ℕ)) :
    updates prev ((gap, val) :: rest) =
      (prev + gap, UInt8.ofNat val) :: updates (prev + gap) rest := rfl

theorem updates_gaps {prev : ℕ} {entries : List (ℕ × UInt8)}
    (ascending : (entries.map Prod.fst).Pairwise (· ≤ ·))
    (after : ∀ update ∈ entries, prev ≤ update.1) : updates prev (gaps prev entries) = entries := by
  induction entries generalizing prev with
  | nil => rfl
  | cons update rest hypothesis =>
    obtain ⟨first, later⟩ := List.pairwise_cons.mp ascending
    have index : prev + (update.1 - prev) = update.1 :=
      Nat.add_sub_cancel' (after update List.mem_cons_self)
    have restEq := hypothesis later fun other member =>
      first other.1 (List.mem_map_of_mem member)
    show (prev + (update.1 - prev), _) :: _ = _
    rw [index, restEq, UInt8.ofNat_toNat]

end GapPairs

end AsapSketchlib
