/-
This file develops arenas: growable arrays whose elements refer to each other by
index. A link is an index or nothing. Reading or writing through a link that is
nothing, or that lies outside the arena, is a fault, so a program over arenas is a
computation that may stop with one, and showing that it never does shows that no
index it uses is absent or out of range.
-/

import Mathlib.Data.List.Nodup

namespace AsapSketchlib

/-- Why a checked operation stops. -/
inductive Fault where
  | outOfBounds
  | debugAssertion
  | outOfFuel
  deriving DecidableEq, Repr

abbrev Link := Option ℕ

namespace Arena

variable {Elem : Type}

/-- The element a link names, if it names one. -/
def lookup (arena : List Elem) (link : Link) : Option Elem := link.bind fun index => arena[index]?

def readAt (arena : List Elem) (link : Link) : Except Fault Elem :=
  match lookup arena link with
  | some elem => .ok elem
  | none => .error .outOfBounds

def writeAt (arena : List Elem) (link : Link) (change : Elem → Elem) :
    Except Fault (List Elem) :=
  match link with
  | none => .error .outOfBounds
  | some index =>
    if index < arena.length then .ok (arena.modify index change) else .error .outOfBounds

/-- Change the element a link names, if it names one: the guarded write
`if link != NIL { arena[link] .. }`. -/
def writeIfSome (arena : List Elem) (link : Link) (change : Elem → Elem) :
    Except Fault (List Elem) :=
  if link ≠ none then writeAt arena link change else .ok arena

def modifyAt (arena : List Elem) (link : Link) (change : Elem → Elem) : List Elem :=
  match link with
  | none => arena
  | some index => arena.modify index change

theorem readAt_some {arena : List Elem} {index : ℕ} {elem : Elem}
    (present : arena[index]? = some elem) : readAt arena (some index) = .ok elem := by
  simp only [readAt, lookup, Option.bind_some, present]

theorem writeAt_some {arena : List Elem} {index : ℕ} (change : Elem → Elem)
    (inside : index < arena.length) :
    writeAt arena (some index) change = .ok (arena.modify index change) := by
  simp only [writeAt, if_pos inside]

theorem writeIfSome_eq {arena : List Elem} {link : Link} (change : Elem → Elem)
    (inside : ∀ index, link = some index → index < arena.length) :
    writeIfSome arena link change = .ok (modifyAt arena link change) := by
  cases link with
  | none => rfl
  | some index => exact writeAt_some change (inside index rfl)

@[simp] theorem length_modifyAt (arena : List Elem) (link : Link) (change : Elem → Elem) :
    (modifyAt arena link change).length = arena.length := by
  cases link <;> simp [modifyAt]

theorem lt_of_getElem? {arena : List Elem} {index : ℕ} {elem : Elem}
    (present : arena[index]? = some elem) : index < arena.length :=
  (List.getElem?_eq_some_iff.mp present).1

/-- A field of the element at an index, with a default where there is no element. -/
def fieldAt {Value : Type} (get : Elem → Value) (default : Value) (arena : List Elem)
    (index : ℕ) : Value :=
  match arena[index]? with
  | some elem => get elem
  | none => default

variable {Value : Type} {get : Elem → Value} {default : Value} {arena : List Elem} {index : ℕ}

theorem fieldAt_of_getElem? {elem : Elem} (present : arena[index]? = some elem) :
    fieldAt get default arena index = get elem := by
  simp only [fieldAt, present]

theorem fieldAt_modify_self (change : Elem → Elem) (inside : index < arena.length) :
    fieldAt get default (arena.modify index change) index = get (change arena[index]) := by
  refine fieldAt_of_getElem? ?_
  rw [List.getElem?_modify_eq, List.getElem?_eq_getElem inside]
  rfl

theorem fieldAt_modify_of_ne {other : ℕ} (change : Elem → Elem) (different : other ≠ index) :
    fieldAt get default (arena.modify index change) other = fieldAt get default arena other := by
  unfold fieldAt
  rw [List.getElem?_modify_ne change arena different.symm]

theorem fieldAt_modify_of_keep (change : Elem → Elem) (keep : ∀ elem, get (change elem) = get elem)
    (other : ℕ) :
    fieldAt get default (arena.modify index change) other = fieldAt get default arena other := by
  by_cases same : other = index
  · subst same
    unfold fieldAt
    rw [List.getElem?_modify_eq]
    cases arena[other]? with
    | none => rfl
    | some elem => exact keep elem
  · exact fieldAt_modify_of_ne change same

section

variable {link : Link} (change : Elem → Elem)

theorem fieldAt_modifyAt_self (same : link = some index) (inside : index < arena.length) :
    fieldAt get default (modifyAt arena link change) index = get (change arena[index]) := by
  subst same
  exact fieldAt_modify_self change inside

theorem fieldAt_modifyAt_of_ne {other : ℕ} (different : link ≠ some other) :
    fieldAt get default (modifyAt arena link change) other = fieldAt get default arena other := by
  cases link with
  | none => rfl
  | some index => exact fieldAt_modify_of_ne change fun same => different (same ▸ rfl)

theorem fieldAt_modifyAt_of_keep (keep : ∀ elem, get (change elem) = get elem) (other : ℕ) :
    fieldAt get default (modifyAt arena link change) other = fieldAt get default arena other := by
  cases link with
  | none => rfl
  | some index => exact fieldAt_modify_of_keep change keep other

end

theorem fieldAt_append_left (extra : List Elem) (inside : index < arena.length) :
    fieldAt get default (arena ++ extra) index = fieldAt get default arena index := by
  unfold fieldAt
  rw [List.getElem?_append_left inside]

end Arena

end AsapSketchlib
