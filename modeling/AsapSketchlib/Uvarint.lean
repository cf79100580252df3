/-
This file develops unsigned varints: seven bits of a `u64` in each byte, the lowest first, and
the highest bit of a byte set while more follow. What the writer wrote the reader reads back,
whatever stands behind it.
-/

import Mathlib.Data.Nat.Bitwise
import Mathlib.Tactic.Ring

namespace AsapSketchlib

namespace Uvarint

/-- The loop of the writer for at most a number of further bytes. -/
def writeWithin : ℕ → ℕ → List UInt8
  | 0, value => [UInt8.ofNat value]
  | further + 1, value =>
    if 0x80 ≤ value then (UInt8.ofNat value ||| 0x80) :: writeWithin further (value >>> 7)
    else [UInt8.ofNat value]

/-- Writes a `u64`, which has ten groups of seven bits. -/
def write (value : ℕ) : List UInt8 := writeWithin 9 value

/-- The loop of the reader from byte `i` on. -/
def readFrom : List UInt8 → ℕ → ℕ → ℕ → Option (ℕ × ℕ)
  | [], _, _, _ => none
  | byte :: rest, i, shift, result =>
    if 10 ≤ i then none
    else if shift = 63 ∧ 1 < byte then none
    else
      let result := result ||| ((byte &&& 0x7f).toNat <<< shift)
      if byte < 0x80 then some (result, i + 1) else readFrom rest (i + 1) (shift + 7) result

/-- Reads one value: the value, and the number of bytes it took. -/
def read (input : List UInt8) : Option (ℕ × ℕ) := readFrom input 0 0 0

/-! ### Bytes -/

theorem toNat_and_low (byte : UInt8) : (byte &&& 0x7f).toNat = byte.toNat % 128 := by
  rw [UInt8.toNat_and]
  exact Nat.and_two_pow_sub_one_eq_mod byte.toNat 7

theorem toNat_or_high (value : ℕ) :
    (UInt8.ofNat value ||| 0x80).toNat = 128 + value % 128 := by
  have parts : (UInt8.ofNat value ||| 0x80).toNat = value % 256 ||| 128 := by
    rw [UInt8.toNat_or, UInt8.toNat_ofNat']
    rfl
  have marked : ∀ byte < 256, byte ||| 128 = 128 + byte % 128 := by decide +kernel
  rw [parts, marked _ (Nat.mod_lt value (by decide)), Nat.mod_mod_of_dvd value (by decide)]

theorem or_shiftLeft {result shift : ℕ} (bound : result < 2 ^ shift) (bits : ℕ) :
    result ||| (bits <<< shift) = result + bits * 2 ^ shift := by
  rw [Nat.or_comm, ← Nat.shiftLeft_add_eq_or_of_lt bound, Nat.shiftLeft_eq, Nat.add_comm]

/-! ### Reading what was written -/

theorem readFrom_last {value i result : ℕ} (rest : List UInt8) (few : i ≤ 9) (small : value < 128)
    (fits : i = 9 → value ≤ 1) (bound : result < 2 ^ (7 * i)) :
    readFrom (UInt8.ofNat value :: rest) i (7 * i) result =
      some (result + value * 2 ^ (7 * i), i + 1) := by
  have toNat : (UInt8.ofNat value).toNat = value := by
    rw [UInt8.toNat_ofNat', Nat.mod_eq_of_lt (by omega)]
  have noOverflow : ¬(7 * i = 63 ∧ 1 < UInt8.ofNat value) := by
    rintro ⟨last, large⟩
    have tooLarge : 1 < value := by
      rw [← toNat]
      exact UInt8.lt_iff_toNat_lt.mp large
    have le := fits (by omega)
    omega
  have ends : UInt8.ofNat value < 0x80 := by
    rw [UInt8.lt_iff_toNat_lt, toNat]
    exact small
  unfold readFrom
  rw [if_neg (by omega), if_neg noOverflow]
  simp only [if_pos ends, or_shiftLeft bound, toNat_and_low, toNat, Nat.mod_eq_of_lt small]

theorem readFrom_more {value i result : ℕ} (rest : List UInt8) (few : i ≤ 8)
    (bound : result < 2 ^ (7 * i)) :
    readFrom ((UInt8.ofNat value ||| 0x80) :: rest) i (7 * i) result =
      readFrom rest (i + 1) (7 * (i + 1)) (result + value % 128 * 2 ^ (7 * i)) := by
  have notLast : ¬7 * i = 63 := by omega
  have continues : ¬(UInt8.ofNat value ||| 0x80) < 0x80 := by
    rw [UInt8.lt_iff_toNat_lt, toNat_or_high]
    exact not_lt.mpr (Nat.le_add_right 128 _)
  have bits : (128 + value % 128) % 128 = value % 128 := by omega
  conv_lhs => unfold readFrom
  rw [if_neg (by omega), if_neg (fun overflow => notLast overflow.1)]
  simp only [if_neg continues, or_shiftLeft bound, toNat_and_low, toNat_or_high, bits]
  rfl

theorem readFrom_writeWithin {further i value result : ℕ} (rest : List UInt8)
    (groups : i + further = 9) (fits : value < 2 ^ (64 - 7 * i)) (bound : result < 2 ^ (7 * i)) :
    readFrom (writeWithin further value ++ rest) i (7 * i) result =
      some (result + value * 2 ^ (7 * i), i + (writeWithin further value).length) := by
  induction further generalizing i value result with
  | zero =>
    obtain rfl : i = 9 := by omega
    have small : value < 2 := fits
    exact readFrom_last rest (by omega) (by omega) (fun _ => by omega) bound
  | succ further hypothesis =>
    unfold writeWithin
    by_cases more : 0x80 ≤ value
    · rw [if_pos more, List.cons_append, readFrom_more _ (by omega) bound]
      have power : 2 ^ (64 - 7 * i) = 2 ^ (64 - 7 * (i + 1)) * 128 := by
        rw [show 64 - 7 * i = 64 - 7 * (i + 1) + 7 by omega, Nat.pow_add]
      have shifted : 2 ^ (7 * (i + 1)) = 2 ^ (7 * i) * 128 := by
        rw [show 7 * (i + 1) = 7 * i + 7 by omega, Nat.pow_add]
      have high : value >>> 7 = value / 128 := Nat.shiftRight_eq_div_pow value 7
      have fitsHigh : value >>> 7 < 2 ^ (64 - 7 * (i + 1)) := by
        rw [high, Nat.div_lt_iff_lt_mul (by decide), ← power]
        exact fits
      have boundNext : result + value % 128 * 2 ^ (7 * i) < 2 ^ (7 * (i + 1)) := by
        have low : value % 128 + 1 ≤ 128 := Nat.mod_lt value (by decide)
        calc
          result + value % 128 * 2 ^ (7 * i) < 2 ^ (7 * i) + value % 128 * 2 ^ (7 * i) :=
            Nat.add_lt_add_right bound _
          _ = (value % 128 + 1) * 2 ^ (7 * i) := by ring
          _ ≤ 128 * 2 ^ (7 * i) := Nat.mul_le_mul_right _ low
          _ = 2 ^ (7 * (i + 1)) := by rw [shifted, Nat.mul_comm]
      rw [hypothesis (by omega) fitsHigh boundNext, List.length_cons]
      refine congrArg some (Prod.ext ?_ ?_)
      · show result + value % 128 * 2 ^ (7 * i) + value >>> 7 * 2 ^ (7 * (i + 1)) = _
        rw [high, shifted]
        calc
          result + value % 128 * 2 ^ (7 * i) + value / 128 * (2 ^ (7 * i) * 128) =
              result + (128 * (value / 128) + value % 128) * 2 ^ (7 * i) := by ring
          _ = result + value * 2 ^ (7 * i) := by rw [Nat.div_add_mod]
      · show i + 1 + _ = i + (_ + 1)
        omega
    · rw [if_neg more]
      exact readFrom_last rest (by omega) (by omega) (fun last => by omega) bound

theorem read_write {value : ℕ} (fits : value < 2 ^ 64) (rest : List UInt8) :
    read (write value ++ rest) = some (value, (write value).length) := by
  have exactly : readFrom (writeWithin 9 value ++ rest) 0 (7 * 0) 0 =
      some (0 + value * 2 ^ (7 * 0), 0 + (writeWithin 9 value).length) :=
    readFrom_writeWithin rest rfl fits Nat.one_pos
  rw [Nat.mul_zero, pow_zero, Nat.mul_one, Nat.zero_add, Nat.zero_add] at exactly
  exact exactly

theorem write_ne_nil (value : ℕ) : write value ≠ [] := by
  unfold write writeWithin
  split <;> exact List.cons_ne_nil _ _

/-! ### Reading any input -/

theorem readFrom_bounds {input : List UInt8} {i result value used : ℕ}
    (bound : result < 2 ^ (7 * i))
    (found : readFrom input i (7 * i) result = some (value, used)) :
    value < 2 ^ 64 ∧ i < used ∧ used ≤ i + input.length := by
  induction input generalizing i result with
  | nil => cases found
  | cons byte rest hypothesis =>
    unfold readFrom at found
    split at found
    · cases found
    split at found
    · cases found
    next few noOverflow =>
    simp only [or_shiftLeft bound, toNat_and_low] at found
    have few : i ≤ 9 := by omega
    have low : byte.toNat % 128 + 1 ≤ 128 := Nat.mod_lt _ (by decide)
    have shifted : 2 ^ (7 * (i + 1)) = 2 ^ (7 * i) * 128 := by
      rw [show 7 * (i + 1) = 7 * i + 7 by omega, Nat.pow_add]
    have next : result + byte.toNat % 128 * 2 ^ (7 * i) < 2 ^ (7 * (i + 1)) := by
      calc
        result + byte.toNat % 128 * 2 ^ (7 * i) < 2 ^ (7 * i) + byte.toNat % 128 * 2 ^ (7 * i) :=
          Nat.add_lt_add_right bound _
        _ = (byte.toNat % 128 + 1) * 2 ^ (7 * i) := by ring
        _ ≤ 128 * 2 ^ (7 * i) := Nat.mul_le_mul_right _ low
        _ = 2 ^ (7 * (i + 1)) := by rw [shifted, Nat.mul_comm]
    rw [List.length_cons]
    split at found
    · obtain ⟨rfl, rfl⟩ := Prod.mk.inj (Option.some.inj found)
      refine ⟨?_, Nat.lt_succ_self i, by omega⟩
      rcases Nat.lt_or_eq_of_le few with early | rfl
      · exact next.trans_le (Nat.pow_le_pow_right (by decide) (by omega))
      · have last : byte.toNat ≤ 1 := by
          by_contra large
          exact noOverflow ⟨rfl, UInt8.lt_iff_toNat_lt.mpr (not_le.mp large)⟩
        have low : byte.toNat % 128 ≤ 1 := (Nat.mod_le _ _).trans last
        calc
          result + byte.toNat % 128 * 2 ^ (7 * 9) < 2 ^ (7 * 9) + 1 * 2 ^ (7 * 9) :=
            Nat.add_lt_add_of_lt_of_le bound (Nat.mul_le_mul_right _ low)
          _ = 2 ^ 64 := rfl
    · obtain ⟨fits, after, inside⟩ := hypothesis next found
      exact ⟨fits, by omega, by omega⟩

theorem read_bounds {input : List UInt8} {value used : ℕ}
    (found : read input = some (value, used)) :
    value < 2 ^ 64 ∧ 0 < used ∧ used ≤ input.length := by
  have start : 0 < 2 ^ (7 * 0) := Nat.one_pos
  obtain ⟨fits, some, inside⟩ := readFrom_bounds start found
  rw [Nat.zero_add] at inside
  exact ⟨fits, some, inside⟩

end Uvarint

end AsapSketchlib
