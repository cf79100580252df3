/-
This file models the keys of every sketch: the borrowed `DataInput` a caller
hands over, the owned `HeapItem` a sketch stores, and the two equalities the
code compares them with.

A floating-point key is its bit pattern. Rust's `==` on such a key is the IEEE
comparison, which differs from identity of the bits in two ways: a NaN is equal
to nothing, and the two zeros are equal. On every other variant `==` is identity.
-/

import Mathlib.Data.BitVec
import Mathlib.Data.List.Lex
import Mathlib.Data.Prod.Lex

namespace AsapSketchlib

/-! ### IEEE equality on bit patterns -/

/-- `f32::is_nan` on the bits of the value. -/
def f32IsNan (bits : BitVec 32) : Bool := (0x7f800000#32).ult (bits &&& 0x7fffffff#32)

/-- `f64::is_nan` on the bits of the value. -/
def f64IsNan (bits : BitVec 64) : Bool :=
  (0x7ff0000000000000#64).ult (bits &&& 0x7fffffffffffffff#64)

def f32IsZero (bits : BitVec 32) : Bool := bits &&& 0x7fffffff#32 == 0#32

def f64IsZero (bits : BitVec 64) : Bool := bits &&& 0x7fffffffffffffff#64 == 0#64

/-- The IEEE `==` of two bit patterns, for a format given by its NaN and zero tests. -/
def ieeeEq {width : Nat} (isNan isZero : BitVec width → Bool) (left right : BitVec width) : Bool :=
  !isNan left && !isNan right && (left == right || (isZero left && isZero right))

section

variable {width : Nat} (isNan isZero : BitVec width → Bool)

theorem ieeeEq_self (bits : BitVec width) : ieeeEq isNan isZero bits bits = !isNan bits := by
  cases nan : isNan bits <;> simp [ieeeEq, nan]

theorem ieeeEq_comm (left right : BitVec width) :
    ieeeEq isNan isZero left right = ieeeEq isNan isZero right left := by
  rw [Bool.eq_iff_iff]
  simp only [ieeeEq, Bool.and_eq_true, Bool.or_eq_true, beq_iff_eq, @eq_comm _ left]
  tauto

theorem ieeeEq_trans (first second third : BitVec width)
    (firstSecond : ieeeEq isNan isZero first second = true)
    (secondThird : ieeeEq isNan isZero second third = true) :
    ieeeEq isNan isZero first third = true := by
  simp only [ieeeEq, Bool.and_eq_true, Bool.or_eq_true, beq_iff_eq, Bool.not_eq_true'] at *
  obtain ⟨⟨firstNumber, -⟩, same | zeros⟩ := firstSecond
  · subst same
    exact secondThird
  · obtain ⟨⟨-, thirdNumber⟩, same | zeros'⟩ := secondThird
    · subst same
      exact ⟨⟨firstNumber, thirdNumber⟩, Or.inr zeros⟩
    · exact ⟨⟨firstNumber, thirdNumber⟩, Or.inr ⟨zeros.1, zeros'.2⟩⟩

end

/-! ### The key types -/

/-- The input wrapper of the sketch APIs. `str`, `string` and `bytes` carry the value a
borrowed or owned slice points at. -/
inductive DataInput where
  | i8 (value : BitVec 8)
  | i16 (value : BitVec 16)
  | i32 (value : BitVec 32)
  | i64 (value : BitVec 64)
  | i128 (value : BitVec 128)
  | isize (value : BitVec 64)
  | u8 (value : BitVec 8)
  | u16 (value : BitVec 16)
  | u32 (value : BitVec 32)
  | u64 (value : BitVec 64)
  | u128 (value : BitVec 128)
  | usize (value : BitVec 64)
  | f32 (bits : BitVec 32)
  | f64 (bits : BitVec 64)
  | str (value : String)
  | string (value : String)
  | bytes (value : List UInt8)
  deriving DecidableEq, Repr

/-- The owned counterpart of `DataInput`, which sketches store. -/
inductive HeapItem where
  | i8 (value : BitVec 8)
  | i16 (value : BitVec 16)
  | i32 (value : BitVec 32)
  | i64 (value : BitVec 64)
  | i128 (value : BitVec 128)
  | isize (value : BitVec 64)
  | u8 (value : BitVec 8)
  | u16 (value : BitVec 16)
  | u32 (value : BitVec 32)
  | u64 (value : BitVec 64)
  | u128 (value : BitVec 128)
  | usize (value : BitVec 64)
  | f32 (bits : BitVec 32)
  | f64 (bits : BitVec 64)
  | string (value : String)
  | bytes (value : List UInt8)
  deriving DecidableEq, Repr

/-- `heap_item_to_sketch_input`: the borrowed form of a stored key. -/
def heapItemToSketchInput : HeapItem → DataInput
  | .i8 value => .i8 value
  | .i16 value => .i16 value
  | .i32 value => .i32 value
  | .i64 value => .i64 value
  | .i128 value => .i128 value
  | .isize value => .isize value
  | .u8 value => .u8 value
  | .u16 value => .u16 value
  | .u32 value => .u32 value
  | .u64 value => .u64 value
  | .u128 value => .u128 value
  | .usize value => .usize value
  | .f32 bits => .f32 bits
  | .f64 bits => .f64 bits
  | .string value => .str value
  | .bytes value => .bytes value

/-- `input_to_owned`: the stored form of a key. -/
def inputToOwned : DataInput → HeapItem
  | .i8 value => .i8 value
  | .i16 value => .i16 value
  | .i32 value => .i32 value
  | .i64 value => .i64 value
  | .i128 value => .i128 value
  | .isize value => .isize value
  | .u8 value => .u8 value
  | .u16 value => .u16 value
  | .u32 value => .u32 value
  | .u64 value => .u64 value
  | .u128 value => .u128 value
  | .usize value => .usize value
  | .f32 bits => .f32 bits
  | .f64 bits => .f64 bits
  | .str value => .string value
  | .string value => .string value
  | .bytes value => .bytes value

@[simp] theorem inputToOwned_heapItemToSketchInput (item : HeapItem) :
    inputToOwned (heapItemToSketchInput item) = item := by
  cases item <;> rfl

/-! ### Equality as the code computes it -/

/-- The derived `PartialEq` of `HeapItem`: IEEE equality on the floating-point variants,
identity on the others. -/
def HeapItem.eqItem : HeapItem → HeapItem → Bool
  | .f32 left, .f32 right => ieeeEq f32IsNan f32IsZero left right
  | .f64 left, .f64 right => ieeeEq f64IsNan f64IsZero left right
  | left, right => left == right

/-- `PartialEq<DataInput> for HeapItem`. -/
def HeapItem.eqInput : HeapItem → DataInput → Bool
  | .i8 left, .i8 right => left == right
  | .i16 left, .i16 right => left == right
  | .i32 left, .i32 right => left == right
  | .i64 left, .i64 right => left == right
  | .i128 left, .i128 right => left == right
  | .isize left, .isize right => left == right
  | .u8 left, .u8 right => left == right
  | .u16 left, .u16 right => left == right
  | .u32 left, .u32 right => left == right
  | .u64 left, .u64 right => left == right
  | .u128 left, .u128 right => left == right
  | .usize left, .usize right => left == right
  | .f32 left, .f32 right => ieeeEq f32IsNan f32IsZero left right
  | .f64 left, .f64 right => ieeeEq f64IsNan f64IsZero left right
  | .string left, .str right => left == right
  | .string left, .string right => left == right
  | .bytes left, .bytes right => left == right
  | _, _ => false

theorem HeapItem.eqInput_eq_eqItem (item : HeapItem) (input : DataInput) :
    item.eqInput input = item.eqItem (inputToOwned input) := by
  cases item <;> cases input <;> first | rfl | simp [HeapItem.eqInput, HeapItem.eqItem, inputToOwned]

/-- The key is an integer, a string or a byte string. -/
def HeapItem.isExact : HeapItem → Bool
  | .f32 _ => false
  | .f64 _ => false
  | _ => true

/-- The key is a floating-point NaN, so it is not equal to itself. -/
def HeapItem.isNan : HeapItem → Bool
  | .f32 bits => f32IsNan bits
  | .f64 bits => f64IsNan bits
  | _ => false

theorem HeapItem.eqItem_eq_beq (left right : HeapItem) (exact : right.isExact = true) :
    left.eqItem right = (left == right) := by
  cases right with
  | f32 bits => exact absurd exact (by simp [HeapItem.isExact])
  | f64 bits => exact absurd exact (by simp [HeapItem.isExact])
  | _ => cases left <;> rfl

theorem HeapItem.eqItem_of_isExact (left right : HeapItem) (exact : right.isExact = true) :
    left.eqItem right = true ↔ left = right := by
  rw [HeapItem.eqItem_eq_beq left right exact, beq_iff_eq]

theorem HeapItem.eqItem_f32 (item : HeapItem) (bits : BitVec 32) :
    item.eqItem (.f32 bits) = true ↔
      ∃ other, item = .f32 other ∧ ieeeEq f32IsNan f32IsZero other bits = true := by
  cases item <;> simp [HeapItem.eqItem]

theorem HeapItem.eqItem_f64 (item : HeapItem) (bits : BitVec 64) :
    item.eqItem (.f64 bits) = true ↔
      ∃ other, item = .f64 other ∧ ieeeEq f64IsNan f64IsZero other bits = true := by
  cases item <;> simp [HeapItem.eqItem]

theorem HeapItem.eqItem_self (item : HeapItem) : item.eqItem item = !item.isNan := by
  cases item with
  | f32 bits => exact ieeeEq_self _ _ bits
  | f64 bits => exact ieeeEq_self _ _ bits
  | _ => exact beq_self_eq_true _

theorem HeapItem.eqItem_symm (left right : HeapItem) (equal : left.eqItem right = true) :
    right.eqItem left = true := by
  cases right with
  | f32 bits =>
    obtain ⟨other, rfl, same⟩ := (HeapItem.eqItem_f32 left bits).mp equal
    exact (ieeeEq_comm _ _ _ _).trans same
  | f64 bits =>
    obtain ⟨other, rfl, same⟩ := (HeapItem.eqItem_f64 left bits).mp equal
    exact (ieeeEq_comm _ _ _ _).trans same
  | _ =>
    have same := (HeapItem.eqItem_of_isExact left _ rfl).mp equal
    subst same
    exact equal

theorem HeapItem.eqItem_trans (first second third : HeapItem)
    (firstSecond : first.eqItem second = true) (secondThird : second.eqItem third = true) :
    first.eqItem third = true := by
  cases second with
  | f32 bits =>
    obtain ⟨other, rfl, same⟩ := (HeapItem.eqItem_f32 first bits).mp firstSecond
    obtain ⟨last, rfl, same'⟩ :=
      (HeapItem.eqItem_f32 third bits).mp (HeapItem.eqItem_symm _ _ secondThird)
    exact ieeeEq_trans _ _ _ _ _ same ((ieeeEq_comm _ _ _ _).trans same')
  | f64 bits =>
    obtain ⟨other, rfl, same⟩ := (HeapItem.eqItem_f64 first bits).mp firstSecond
    obtain ⟨last, rfl, same'⟩ :=
      (HeapItem.eqItem_f64 third bits).mp (HeapItem.eqItem_symm _ _ secondThird)
    exact ieeeEq_trans _ _ _ _ _ same ((ieeeEq_comm _ _ _ _).trans same')
  | _ =>
    have same := (HeapItem.eqItem_of_isExact first _ rfl).mp firstSecond
    subst same
    exact secondThird

/-! ### The order that breaks ties -/

/-- `key_order`: variant tag, integer value and bytes, compared in that order. The integer is
the value cast to `u128`, so a negative one is its two's complement. -/
def keyOrder : HeapItem → ℕ ×ₗ ℕ ×ₗ List ℕ
  | .i8 value => toLex (0, toLex ((value.signExtend 128).toNat, []))
  | .i16 value => toLex (1, toLex ((value.signExtend 128).toNat, []))
  | .i32 value => toLex (2, toLex ((value.signExtend 128).toNat, []))
  | .i64 value => toLex (3, toLex ((value.signExtend 128).toNat, []))
  | .i128 value => toLex (4, toLex (value.toNat, []))
  | .isize value => toLex (5, toLex ((value.signExtend 128).toNat, []))
  | .u8 value => toLex (6, toLex (value.toNat, []))
  | .u16 value => toLex (7, toLex (value.toNat, []))
  | .u32 value => toLex (8, toLex (value.toNat, []))
  | .u64 value => toLex (9, toLex (value.toNat, []))
  | .u128 value => toLex (10, toLex (value.toNat, []))
  | .usize value => toLex (11, toLex (value.toNat, []))
  | .f32 bits => toLex (12, toLex (bits.toNat, []))
  | .f64 bits => toLex (13, toLex (bits.toNat, []))
  | .string value => toLex (14, toLex (0, value.toByteArray.data.toList.map UInt8.toNat))
  | .bytes value => toLex (15, toLex (0, value.map UInt8.toNat))

end AsapSketchlib
