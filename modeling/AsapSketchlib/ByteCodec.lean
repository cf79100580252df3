/-
This file develops codecs: a writer of values as bytes together with a reader that takes
one value off the front of its input. The law of a codec is that the reader, given what
the writer wrote and anything behind it, takes exactly that value. It is asked for
encodings shorter than 2^32 bytes, as far as a four-byte length reaches.

Codecs compose: two in a row, one behind a fixed tag, one seen through a partial inverse,
and a counted list of one.
-/

import Mathlib.Algebra.Order.Ring.Nat
import Mathlib.Data.Nat.ModEq

namespace AsapSketchlib

/-! ### Big-endian words -/

/-- The lowest `count` bytes of a number, the most significant first. -/
def beBytes : ℕ → ℕ → List UInt8
  | 0, _ => []
  | count + 1, value => beBytes count (value / 256) ++ [UInt8.ofNat value]

/-- The number a big-endian word stands for. -/
def ofBeBytes (bytes : List UInt8) : ℕ := bytes.foldl (fun sum byte => 256 * sum + byte.toNat) 0

@[simp] theorem length_beBytes (count value : ℕ) : (beBytes count value).length = count := by
  induction count generalizing value with
  | zero => rfl
  | succ count hypothesis =>
    rw [beBytes, List.length_append, hypothesis, List.length_singleton]

theorem ofBeBytes_beBytes (count value : ℕ) (fits : value < 256 ^ count) :
    ofBeBytes (beBytes count value) = value := by
  induction count generalizing value with
  | zero =>
    rw [pow_zero, Nat.lt_one_iff] at fits
    rw [fits]
    rfl
  | succ count hypothesis =>
    have high : value / 256 < 256 ^ count := by
      rw [Nat.div_lt_iff_lt_mul (by decide)]
      exact fits
    have lowByte : (UInt8.ofNat value).toNat = value % 256 := UInt8.toNat_ofNat' ..
    have unfolded := hypothesis (value / 256) high
    rw [ofBeBytes] at unfolded
    rw [ofBeBytes, beBytes, List.foldl_append, unfolded, List.foldl_cons, List.foldl_nil, lowByte]
    exact Nat.div_add_mod value 256

/-- A word of `count` bytes off the front of the input. -/
def takeWord (count : ℕ) (input : List UInt8) : Option (ℕ × List UInt8) :=
  if input.length < count then none
  else some (ofBeBytes (input.take count), input.drop count)

theorem takeWord_beBytes {count value : ℕ} (fits : value < 256 ^ count) (rest : List UInt8) :
    takeWord count (beBytes count value ++ rest) = some (value, rest) := by
  have long : ¬(beBytes count value ++ rest).length < count := by
    rw [List.length_append, length_beBytes]
    omega
  rw [takeWord, if_neg long, List.take_left' (length_beBytes count value),
    List.drop_left' (length_beBytes count value), ofBeBytes_beBytes count value fits]

/-! ### Codecs -/

/-- A writer and a reader of one kind of value, with the law that binds them. -/
structure Codec (Value : Type) where
  encode : Value → List UInt8
  decode : List UInt8 → Option (Value × List UInt8)
  occupied : ∀ value, 0 < (encode value).length
  exact : ∀ value rest, (encode value).length < 2 ^ 32 →
    decode (encode value ++ rest) = some (value, rest)

namespace Codec

variable {Value Left Right : Type}

def pair (left : Codec Left) (right : Codec Right) : Codec (Left × Right) where
  encode value := left.encode value.1 ++ right.encode value.2
  decode input :=
    (left.decode input).bind fun first =>
      (right.decode first.2).map fun second => ((first.1, second.1), second.2)
  occupied value := by
    rw [List.length_append]
    exact Nat.add_pos_left (left.occupied value.1) _
  exact value rest short := by
    rw [List.length_append] at short
    rw [List.append_assoc, left.exact value.1 _ (by omega), Option.bind_some,
      right.exact value.2 rest (by omega), Option.map_some]

def tagged (tag : List UInt8) (codec : Codec Value) : Codec Value where
  encode value := tag ++ codec.encode value
  decode input := if tag <+: input then codec.decode (input.drop tag.length) else none
  occupied value := by
    rw [List.length_append]
    exact Nat.add_pos_right _ (codec.occupied value)
  exact value rest short := by
    rw [List.length_append] at short
    have tagFirst : tag <+: tag ++ codec.encode value ++ rest :=
      ⟨codec.encode value ++ rest, (List.append_assoc _ _ _).symm⟩
    rw [if_pos tagFirst, List.append_assoc, List.drop_left, codec.exact value rest (by omega)]

/-- A value seen through a map that its reader can undo. -/
def through (codec : Codec Right) (pack : Left → Right) (unpack : Right → Option Left)
    (undone : ∀ value, unpack (pack value) = some value) : Codec Left where
  encode value := codec.encode (pack value)
  decode input :=
    (codec.decode input).bind fun read => (unpack read.1).map fun value => (value, read.2)
  occupied value := codec.occupied (pack value)
  exact value rest short := by
    rw [codec.exact (pack value) rest short, Option.bind_some, undone, Option.map_some]

def byte : Codec UInt8 where
  encode value := [value]
  decode
    | [] => none
    | value :: rest => some (value, rest)
  occupied _ := Nat.one_pos
  exact _ _ _ := rfl

def word (count : ℕ) (positive : 0 < count) : Codec { value : ℕ // value < 256 ^ count } where
  encode value := beBytes count value.val
  decode input :=
    (takeWord count input).bind fun read =>
      if fits : read.1 < 256 ^ count then some (⟨read.1, fits⟩, read.2) else none
  occupied value := by
    rw [length_beBytes]
    exact positive
  exact value rest _ := by
    rw [takeWord_beBytes value.property, Option.bind_some, dif_pos value.property]

/-! ### Lists -/

def decodeMany (codec : Codec Value) : ℕ → List UInt8 → Option (List Value × List UInt8)
  | 0, input => some ([], input)
  | count + 1, input =>
    (codec.decode input).bind fun first =>
      (decodeMany codec count first.2).map fun others => (first.1 :: others.1, others.2)

variable (codec : Codec Value) (values : List Value)

theorem length_le_flatMap : values.length ≤ (values.flatMap codec.encode).length := by
  induction values with
  | nil => exact Nat.zero_le _
  | cons value values hypothesis =>
    have own := codec.occupied value
    rw [List.flatMap_cons, List.length_append, List.length_cons]
    omega

theorem decodeMany_flatMap (rest : List UInt8)
    (short : (values.flatMap codec.encode).length < 2 ^ 32) :
    decodeMany codec values.length (values.flatMap codec.encode ++ rest) = some (values, rest) := by
  induction values with
  | nil => rfl
  | cons value values hypothesis =>
    rw [List.flatMap_cons, List.length_append] at short
    rw [List.flatMap_cons, List.append_assoc, List.length_cons, decodeMany,
      codec.exact value _ (by omega), Option.bind_some, hypothesis (by omega),
      Option.map_some]

end Codec

end AsapSketchlib
