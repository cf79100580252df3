/-
This file is a codec of MessagePack: integers in their shortest form, byte strings, text
and arrays behind their length headers, and the maps and arrays a record is written as.
-/

import AsapSketchlib.ByteCodec
import Mathlib.Tactic.Linarith

namespace AsapSketchlib

namespace MessagePack

/-! ### Integers -/

/-- The shortest form of an integer of at most 64 bits. -/
def encodeInt (value : ℤ) : List UInt8 :=
  if 0 ≤ value then
    if value < 2 ^ 7 then [UInt8.ofNat value.toNat]
    else if value < 2 ^ 8 then 0xcc :: beBytes 1 value.toNat
    else if value < 2 ^ 16 then 0xcd :: beBytes 2 value.toNat
    else if value < 2 ^ 32 then 0xce :: beBytes 4 value.toNat
    else 0xcf :: beBytes 8 value.toNat
  else if -2 ^ 5 ≤ value then [UInt8.ofNat (value + 2 ^ 8).toNat]
  else if -2 ^ 7 ≤ value then 0xd0 :: beBytes 1 (value + 2 ^ 8).toNat
  else if -2 ^ 15 ≤ value then 0xd1 :: beBytes 2 (value + 2 ^ 16).toNat
  else if -2 ^ 31 ≤ value then 0xd2 :: beBytes 4 (value + 2 ^ 32).toNat
  else 0xd3 :: beBytes 8 (value + 2 ^ 64).toNat

def takeUnsigned (count : ℕ) (input : List UInt8) : Option (ℤ × List UInt8) :=
  (takeWord count input).map fun read => ((read.1 : ℤ), read.2)

/-- A word behind its marker, in two's complement. -/
def takeSigned (count : ℕ) (input : List UInt8) : Option (ℤ × List UInt8) :=
  (takeWord count input).map fun read =>
    (if 2 * read.1 < 256 ^ count then (read.1 : ℤ) else (read.1 : ℤ) - 256 ^ count, read.2)

/-- Reads an integer in any of its forms. -/
def decodeInt : List UInt8 → Option (ℤ × List UInt8)
  | [] => none
  | marker :: input =>
    if marker.toNat < 0x80 then some ((marker.toNat : ℤ), input)
    else if 0xe0 ≤ marker.toNat then some ((marker.toNat : ℤ) - 256, input)
    else if marker = 0xcc then takeUnsigned 1 input
    else if marker = 0xcd then takeUnsigned 2 input
    else if marker = 0xce then takeUnsigned 4 input
    else if marker = 0xcf then takeUnsigned 8 input
    else if marker = 0xd0 then takeSigned 1 input
    else if marker = 0xd1 then takeSigned 2 input
    else if marker = 0xd2 then takeSigned 4 input
    else if marker = 0xd3 then takeSigned 8 input
    else none

theorem takeUnsigned_beBytes (count : ℕ) {value : ℤ} (nonneg : 0 ≤ value)
    (fits : value < 256 ^ count) (rest : List UInt8) :
    takeUnsigned count (beBytes count value.toNat ++ rest) = some (value, rest) := by
  have small : value.toNat < 256 ^ count := by
    zify
    rw [Int.toNat_of_nonneg nonneg]
    exact fits
  rw [takeUnsigned, takeWord_beBytes small, Option.map_some, Int.toNat_of_nonneg nonneg]

theorem takeSigned_beBytes (count : ℕ) {value : ℤ} (negative : value < 0)
    (fits : -256 ^ count ≤ 2 * value) (rest : List UInt8) :
    takeSigned count (beBytes count (value + 256 ^ count).toNat ++ rest) = some (value, rest) := by
  have nonneg : 0 ≤ value + 256 ^ count := by linarith
  have cast : ((value + 256 ^ count).toNat : ℤ) = value + 256 ^ count := Int.toNat_of_nonneg nonneg
  have small : (value + 256 ^ count).toNat < 256 ^ count := by
    zify
    rw [cast]
    linarith
  have high : ¬2 * (value + 256 ^ count).toNat < 256 ^ count := by
    zify
    rw [cast]
    linarith
  rw [takeSigned, takeWord_beBytes small, Option.map_some, if_neg high, cast, add_sub_cancel_right]

/-- An integer of at most 64 bits is read back from its shortest form. -/
theorem decodeInt_encodeInt {value : ℤ} (low : -2 ^ 63 ≤ value) (high : value < 2 ^ 64)
    (rest : List UInt8) : decodeInt (encodeInt value ++ rest) = some (value, rest) := by
  unfold encodeInt
  split
  next nonneg =>
    split
    next small =>
      have byte : (UInt8.ofNat value.toNat).toNat = value.toNat := by
        rw [UInt8.toNat_ofNat']
        omega
      simp only [List.singleton_append, decodeInt, byte]
      rw [if_pos (by omega), Int.toNat_of_nonneg nonneg]
    next =>
      split
      next fits => exact takeUnsigned_beBytes 1 nonneg fits rest
      next =>
        split
        next fits => exact takeUnsigned_beBytes 2 nonneg fits rest
        next =>
          split
          next fits => exact takeUnsigned_beBytes 4 nonneg fits rest
          next => exact takeUnsigned_beBytes 8 nonneg high rest
  next negative =>
    have negative : value < 0 := by omega
    split
    next small =>
      have byte : (UInt8.ofNat (value + 2 ^ 8).toNat).toNat = (value + 2 ^ 8).toNat := by
        rw [UInt8.toNat_ofNat']
        omega
      simp only [List.singleton_append, decodeInt, byte]
      rw [if_neg (by omega), if_pos (by omega), Int.toNat_of_nonneg (by omega)]
      congr 2
      omega
    next =>
      split
      next fits => exact takeSigned_beBytes 1 negative (by omega) rest
      next =>
        split
        next fits => exact takeSigned_beBytes 2 negative (by omega) rest
        next =>
          split
          next fits => exact takeSigned_beBytes 4 negative (by omega) rest
          next => exact takeSigned_beBytes 8 negative (by omega) rest

theorem encodeInt_occupied (value : ℤ) : 0 < (encodeInt value).length := by
  unfold encodeInt
  repeat' split
  all_goals simp

/-- Integers of at most 64 bits, signed or not. -/
def int : Codec { value : ℤ // -2 ^ 63 ≤ value ∧ value < 2 ^ 64 } where
  encode value := encodeInt value.val
  decode input :=
    (decodeInt input).bind fun read =>
      if inside : -2 ^ 63 ≤ read.1 ∧ read.1 < 2 ^ 64 then some (⟨read.1, inside⟩, read.2) else none
  occupied value := encodeInt_occupied value.val
  exact value rest short := by
    rw [decodeInt_encodeInt value.property.1 value.property.2, Option.bind_some,
      dif_pos value.property]

def unsigned (width : ℕ) (narrow : width ≤ 64) : Codec (BitVec width) :=
  int.through
    (fun value => ⟨value.toNat, by
      have below : 2 ^ width ≤ 2 ^ 64 := Nat.pow_le_pow_right (by decide) narrow
      have own := value.isLt
      omega⟩)
    (fun read =>
      if 0 ≤ read.val ∧ read.val < 2 ^ width then some (BitVec.ofInt width read.val) else none)
    fun value => by
      have inside : 0 ≤ (value.toNat : ℤ) ∧ (value.toNat : ℤ) < 2 ^ width :=
        ⟨Int.natCast_nonneg _, by exact_mod_cast value.isLt⟩
      simp only [if_pos inside, BitVec.ofInt_natCast, BitVec.ofNat_toNat, BitVec.setWidth_eq]

def signed (width : ℕ) (narrow : width ≤ 64) : Codec (BitVec width) :=
  int.through
    (fun value => ⟨value.toInt, by
      have low := BitVec.le_two_mul_toInt (x := value)
      have high := BitVec.two_mul_toInt_lt (x := value)
      have below : (2 : ℤ) ^ width ≤ 2 ^ 64 := pow_le_pow_right₀ (by decide) narrow
      omega⟩)
    (fun read =>
      if -2 ^ width ≤ 2 * read.val ∧ 2 * read.val < 2 ^ width then
        some (BitVec.ofInt width read.val)
      else none)
    fun value => by
      have inside : -2 ^ width ≤ 2 * value.toInt ∧ 2 * value.toInt < 2 ^ width :=
        ⟨BitVec.le_two_mul_toInt, BitVec.two_mul_toInt_lt⟩
      simp only [if_pos inside, BitVec.ofInt_toInt]

/-- The bits of a floating-point number behind the marker of its width. -/
def float (marker : UInt8) (count : ℕ) (positive : 0 < count) : Codec (BitVec (8 * count)) :=
  (Codec.tagged [marker] (Codec.word count positive)).through
    (fun bits => ⟨bits.toNat, by
      have own := bits.isLt
      rw [pow_mul] at own
      exact own⟩)
    (fun read => some (BitVec.ofNat (8 * count) read.val))
    fun bits => by simp only [BitVec.ofNat_toNat, BitVec.setWidth_eq]

/-! ### Length headers -/

/-- How a family of values writes its lengths: the first `shortCount` in the marker itself, the
others as a word behind the marker of the first width that holds them. -/
structure LengthHeader where
  short : ℕ
  shortCount : ℕ
  wide : List (UInt8 × ℕ)
  bytes : short + shortCount ≤ 256
  apart : ∀ entry ∈ wide, short + shortCount ≤ entry.1.toNat
  distinct : wide.Pairwise fun left right => left.1 ≠ right.1
  covers : ∃ entry ∈ wide, 4 ≤ entry.2

/-- The header of `bin`. -/
def binHeader : LengthHeader where
  short := 0
  shortCount := 0
  wide := [(0xc4, 1), (0xc5, 2), (0xc6, 4)]
  bytes := by decide
  apart := by decide
  distinct := by decide
  covers := ⟨(0xc6, 4), by decide, le_rfl⟩

/-- The header of `str`. -/
def strHeader : LengthHeader where
  short := 0xa0
  shortCount := 32
  wide := [(0xd9, 1), (0xda, 2), (0xdb, 4)]
  bytes := by decide
  apart := by decide
  distinct := by decide
  covers := ⟨(0xdb, 4), by decide, le_rfl⟩

def arrayHeader : LengthHeader where
  short := 0x90
  shortCount := 16
  wide := [(0xdc, 2), (0xdd, 4)]
  bytes := by decide
  apart := by decide
  distinct := by decide
  covers := ⟨(0xdd, 4), by decide, le_rfl⟩

def mapHeader : LengthHeader where
  short := 0x80
  shortCount := 16
  wide := [(0xde, 2), (0xdf, 4)]
  bytes := by decide
  apart := by decide
  distinct := by decide
  covers := ⟨(0xdf, 4), by decide, le_rfl⟩

namespace LengthHeader

variable (header : LengthHeader)

def encode (length : ℕ) : List UInt8 :=
  if length < header.shortCount then [UInt8.ofNat (header.short + length)]
  else
    match header.wide.find? fun entry => length < 256 ^ entry.2 with
    | some entry => entry.1 :: beBytes entry.2 length
    | none => []

def decode : List UInt8 → Option (ℕ × List UInt8)
  | [] => none
  | marker :: input =>
    if header.short ≤ marker.toNat ∧ marker.toNat < header.short + header.shortCount then
      some (marker.toNat - header.short, input)
    else
      match header.wide.find? fun entry => entry.1 = marker with
      | some entry => takeWord entry.2 input
      | none => none

theorem exists_width {length : ℕ} (fits : length < 2 ^ 32) :
    ∃ entry, header.wide.find? (fun entry => decide (length < 256 ^ entry.2)) = some entry := by
  obtain ⟨entry, member, large⟩ := header.covers
  refine Option.isSome_iff_exists.mp (List.find?_isSome.mpr ⟨entry, member, ?_⟩)
  have held : (256 : ℕ) ^ 4 ≤ 256 ^ entry.2 := Nat.pow_le_pow_right (by decide) large
  exact decide_eq_true (by omega)

theorem find_marker {wide : List (UInt8 × ℕ)} {entry : UInt8 × ℕ}
    (distinct : wide.Pairwise fun left right => left.1 ≠ right.1) (member : entry ∈ wide) :
    wide.find? (fun other => decide (other.1 = entry.1)) = some entry := by
  induction wide with
  | nil => exact absurd member List.not_mem_nil
  | cons first others hypothesis =>
    rw [List.pairwise_cons] at distinct
    rcases List.mem_cons.mp member with rfl | later
    · exact List.find?_cons_of_pos (by simp)
    · rw [List.find?_cons_of_neg (by simpa using distinct.1 entry later)]
      exact hypothesis distinct.2 later

theorem decode_encode {length : ℕ} (fits : length < 2 ^ 32) (rest : List UInt8) :
    header.decode (header.encode length ++ rest) = some (length, rest) := by
  unfold encode
  by_cases small : length < header.shortCount
  · have bytes := header.bytes
    have marker : (UInt8.ofNat (header.short + length)).toNat = header.short + length := by
      rw [UInt8.toNat_ofNat']
      omega
    simp only [if_pos small, List.singleton_append, decode, marker]
    rw [if_pos (by omega), Nat.add_sub_cancel_left]
  · obtain ⟨entry, found⟩ := header.exists_width fits
    have member := List.mem_of_find?_eq_some found
    have above := header.apart entry member
    have held : length < 256 ^ entry.2 := by simpa using List.find?_some found
    rw [if_neg small, found]
    simp only [List.cons_append, decode]
    rw [if_neg (by omega), find_marker header.distinct member]
    exact takeWord_beBytes held rest

theorem encode_occupied {length : ℕ} (fits : length < 2 ^ 32) :
    0 < (header.encode length).length := by
  unfold encode
  obtain ⟨entry, found⟩ := header.exists_width fits
  rw [found]
  split
  · exact Nat.one_pos
  · exact Nat.succ_pos _

end LengthHeader

/-! ### Counted values -/

def counted {Value : Type} (header : LengthHeader) (codec : Codec Value) : Codec (List Value) where
  encode values := header.encode values.length ++ values.flatMap codec.encode
  decode input := (header.decode input).bind fun read => codec.decodeMany read.1 read.2
  occupied values := by
    have length := codec.length_le_flatMap values
    rw [List.length_append]
    by_cases fits : values.length < 2 ^ 32
    · exact Nat.add_pos_left (header.encode_occupied fits) _
    · omega
  exact values rest short := by
    have length := codec.length_le_flatMap values
    rw [List.length_append] at short
    rw [List.append_assoc, header.decode_encode (by omega), Option.bind_some,
      codec.decodeMany_flatMap values rest (by omega)]

theorem length_le_counted {Value : Type} (header : LengthHeader) (codec : Codec Value)
    {values : List Value} {value : Value} (member : value ∈ values) :
    (codec.encode value).length ≤ ((counted header codec).encode values).length := by
  obtain ⟨front, back, rfl⟩ := List.append_of_mem member
  simp only [counted, List.flatMap_append, List.flatMap_cons, List.length_append]
  omega

def bin : Codec (List UInt8) := counted binHeader Codec.byte

def str : Codec String :=
  (counted strHeader Codec.byte).through
    (fun text => text.toByteArray.data.toList)
    (fun bytes => String.fromUTF8? ⟨bytes.toArray⟩)
    fun text => by
      have same : (⟨text.toByteArray.data.toList.toArray⟩ : ByteArray) = text.toByteArray := rfl
      rw [same, String.fromUTF8?, dif_pos text.isValidUTF8]
      rfl

def array {Value : Type} (codec : Codec Value) : Codec (List Value) := counted arrayHeader codec

def field {Value : Type} (name : String) (codec : Codec Value) : Codec Value :=
  Codec.tagged (str.encode name) codec

end MessagePack

end AsapSketchlib
