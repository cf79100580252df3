/-
This file develops escaped texts. In an escaped text every reserved symbol stands behind the
escape symbol, so a separator, which is reserved but never escaped where it separates, ends the
text: what is written can be read in one way only. Joined records of a name and a value then
determine the records.
-/

import Mathlib.Data.List.Basic

namespace AsapSketchlib

/-- An escape symbol and the reserved symbols, of which it is one. -/
structure Escaping (Symbol : Type) where
  escape : Symbol
  reserved : Symbol → Bool
  escapeReserved : reserved escape = true

namespace Escaping

variable {Symbol : Type} (escaping : Escaping Symbol)

/-! ### Texts -/

def writeSymbol (symbol : Symbol) : List Symbol :=
  if escaping.reserved symbol then [escaping.escape, symbol] else [symbol]

def write (text : List Symbol) : List Symbol := text.flatMap escaping.writeSymbol

def Separates (symbol : Symbol) : Prop :=
  escaping.reserved symbol = true ∧ symbol ≠ escaping.escape

/-- Nothing is left, or a separator comes first. -/
def Ended : List Symbol → Prop
  | [] => True
  | symbol :: _ => escaping.Separates symbol

variable {escaping}

theorem not_ended_write_cons (symbol : Symbol) (text rest : List Symbol) :
    ¬escaping.Ended (escaping.write (symbol :: text) ++ rest) := by
  unfold write
  rw [List.flatMap_cons, List.append_assoc]
  unfold writeSymbol
  cases reserved : escaping.reserved symbol with
  | true =>
    rw [if_pos rfl]
    exact fun ended => ended.2 rfl
  | false =>
    rw [if_neg Bool.false_ne_true]
    exact fun ended => Bool.false_ne_true (reserved.symm.trans ended.1)

theorem writeSymbol_append_inj {left right : Symbol} {rest rest' : List Symbol}
    (same : escaping.writeSymbol left ++ rest = escaping.writeSymbol right ++ rest') :
    left = right ∧ rest = rest' := by
  unfold writeSymbol at same
  cases leftReserved : escaping.reserved left <;> cases rightReserved : escaping.reserved right <;>
    simp only [leftReserved, rightReserved, Bool.false_eq_true, if_true, if_false, List.cons_append,
      List.nil_append, List.cons.injEq] at same
  · exact same
  · have unreserved := leftReserved
    rw [same.1, escaping.escapeReserved] at unreserved
    exact absurd unreserved (by decide)
  · have unreserved := rightReserved
    rw [← same.1, escaping.escapeReserved] at unreserved
    exact absurd unreserved (by decide)
  · exact same.2

theorem write_append_inj {left right rest rest' : List Symbol} (ended : escaping.Ended rest)
    (ended' : escaping.Ended rest')
    (same : escaping.write left ++ rest = escaping.write right ++ rest') :
    left = right ∧ rest = rest' := by
  induction left generalizing right with
  | nil =>
    cases right with
    | nil => exact ⟨rfl, same⟩
    | cons symbol text =>
      rw [show rest = _ from same] at ended
      exact absurd ended (not_ended_write_cons symbol text rest')
  | cons symbol text hypothesis =>
    cases right with
    | nil =>
      rw [show rest' = _ from same.symm] at ended'
      exact absurd ended' (not_ended_write_cons symbol text rest)
    | cons other otherText =>
      unfold write at same
      rw [List.flatMap_cons, List.flatMap_cons, List.append_assoc, List.append_assoc] at same
      obtain ⟨rfl, later⟩ := writeSymbol_append_inj same
      obtain ⟨rfl, restSame⟩ := hypothesis later
      exact ⟨rfl, restSame⟩

/-! ### Records -/

variable (escaping) (between behind : Symbol)

def record (entry : List Symbol × List Symbol) : List Symbol :=
  escaping.write entry.1 ++ between :: escaping.write entry.2

/-- Records, each behind a separator. -/
def following (entries : List (List Symbol × List Symbol)) : List Symbol :=
  entries.flatMap fun entry => behind :: escaping.record between entry

def records : List (List Symbol × List Symbol) → List Symbol
  | [] => []
  | entry :: entries => escaping.record between entry ++ escaping.following between behind entries

variable {escaping between behind}

theorem ended_following (separates : escaping.Separates behind)
    (entries : List (List Symbol × List Symbol)) :
    escaping.Ended (escaping.following between behind entries) := by
  cases entries with
  | nil => exact trivial
  | cons entry rest => exact separates

theorem record_append_inj (separates : escaping.Separates between)
    {left right : List Symbol × List Symbol} {rest rest' : List Symbol}
    (ended : escaping.Ended rest) (ended' : escaping.Ended rest')
    (same : escaping.record between left ++ rest = escaping.record between right ++ rest') :
    left = right ∧ rest = rest' := by
  unfold record at same
  rw [List.append_assoc, List.append_assoc] at same
  have endsName : ∀ text, escaping.Ended (between :: text) := fun _ => separates
  obtain ⟨name, later⟩ := write_append_inj (endsName _) (endsName _) same
  obtain ⟨value, restSame⟩ := write_append_inj ended ended' (List.cons.inj later).2
  exact ⟨Prod.ext name value, restSame⟩

theorem following_inj (separatesBetween : escaping.Separates between)
    (separatesBehind : escaping.Separates behind) {left right : List (List Symbol × List Symbol)}
    (same : escaping.following between behind left = escaping.following between behind right) :
    left = right := by
  induction left generalizing right with
  | nil =>
    cases right with
    | nil => rfl
    | cons entry rest => exact absurd same (List.cons_ne_nil _ _).symm
  | cons entry rest hypothesis =>
    cases right with
    | nil => exact absurd same (List.cons_ne_nil _ _)
    | cons other others =>
      obtain ⟨rfl, later⟩ := record_append_inj separatesBetween
        (ended_following separatesBehind rest) (ended_following separatesBehind others)
        (List.cons.inj same).2
      rw [hypothesis later]

theorem records_ne_nil (entry : List Symbol × List Symbol)
    (entries : List (List Symbol × List Symbol)) :
    escaping.records between behind (entry :: entries) ≠ [] := by
  refine List.append_ne_nil_of_left_ne_nil ?_ _
  exact List.append_ne_nil_of_right_ne_nil _ (List.cons_ne_nil _ _)

theorem records_inj (separatesBetween : escaping.Separates between)
    (separatesBehind : escaping.Separates behind) {left right : List (List Symbol × List Symbol)}
    (same : escaping.records between behind left = escaping.records between behind right) :
    left = right := by
  cases left with
  | nil =>
    cases right with
    | nil => rfl
    | cons entry rest => exact absurd same.symm (records_ne_nil entry rest)
  | cons entry rest =>
    cases right with
    | nil => exact absurd same (records_ne_nil entry rest)
    | cons other others =>
      obtain ⟨rfl, later⟩ := record_append_inj separatesBetween
        (ended_following separatesBehind rest) (ended_following separatesBehind others) same
      rw [following_inj separatesBetween separatesBehind later]

end Escaping

end AsapSketchlib
