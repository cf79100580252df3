/-
This file models the hashers: the `SketchHasher` trait every generic sketch takes,
and the default hasher, which feeds the bytes of a key to XXH3 under a seed from
`SEEDLIST`.

XXH3 itself is a third-party crate, so its two one-shot functions are a parameter.
What is kept of it beyond being a function is that the 64-bit variant is a
bijection of the inputs of four and of eight bytes.
-/

import AsapSketchlib.Input

namespace AsapSketchlib

/-! ### The hasher interface -/

/-- The part of the `SketchHasher` trait the sketches here call: 64- and 128-bit hashes of a
borrowed or a stored key, under a seed index. -/
structure SketchHasher where
  hash64Seeded : ℕ → DataInput → BitVec 64
  hash128Seeded : ℕ → DataInput → BitVec 128
  hashItem64Seeded : ℕ → HeapItem → BitVec 64
  hashItem128Seeded : ℕ → HeapItem → BitVec 128

/-- A stored key hashes as the borrowed keys it is the owned form of. -/
def SketchHasher.Coherent (H : SketchHasher) : Prop :=
  ∀ index value, H.hash64Seeded index value = H.hashItem64Seeded index (inputToOwned value)

/-- The `HashProfile` trait: how a hasher describes itself on the wire. -/
structure HashProfile where
  profileId : String
  algorithm : String
  seedDerivation : String
  inputEncoding : String
  seedList : List (BitVec 64)

/-- The hasher under which every key has the digest zero, so that all keys collide. -/
def collidingHasher : SketchHasher where
  hash64Seeded := fun _ _ => 0
  hash128Seeded := fun _ _ => 0
  hashItem64Seeded := fun _ _ => 0
  hashItem128Seeded := fun _ _ => 0

def lower32Mask : BitVec 64 := (1#64 <<< 32) - 1#64

/-- `((hashed & LOWER_32_MASK) as usize) % cols`: the column a matrix sketch takes from one
row hash. -/
def lower32Col (hashed : BitVec 64) (cols : ℕ) : ℕ := (hashed &&& lower32Mask).toNat % cols

theorem lower32Mask_toNat : lower32Mask.toNat = 2 ^ 32 - 1 := by decide

theorem and_lower32Mask_toNat (hashed : BitVec 64) :
    (hashed &&& lower32Mask).toNat = hashed.toNat % 2 ^ 32 := by
  rw [BitVec.toNat_and, lower32Mask_toNat, Nat.and_two_pow_sub_one_eq_mod]

theorem lower32Col_lt (hashed : BitVec 64) (cols : ℕ) (positive : 0 < cols) :
    lower32Col hashed cols < cols := Nat.mod_lt _ positive

theorem lower32Col_lt_two_pow (hashed : BitVec 64) (cols : ℕ) :
    lower32Col hashed cols < 2 ^ 32 := by
  refine lt_of_le_of_lt (Nat.mod_le _ _) ?_
  rw [and_lower32Mask_toNat]
  exact Nat.mod_lt _ (Nat.two_pow_pos 32)

/-! ### The default hasher -/

def seedList : List (BitVec 64) :=
  [0xcafe3553, 0xade3415118, 0x8cc70208, 0x2f024b2b, 0x451a3df5, 0x6a09e667, 0xbb67ae85,
    0x3c6ef372, 0xa54ff53a, 0x510e527f, 0x9b05688c, 0x1f83d9ab, 0x5be0cd19, 0xcbbb9d5d,
    0x629a292a, 0x9159015a, 0x152fecd8, 0x67332667, 0x8eb44a87, 0xdb0c2e0d]

def canonicalHashSeed : ℕ := 5

/-- `BOTTOM_LAYER_FINDER`, the seed index of UnivMon's layer selector. -/
def bottomLayerFinder : ℕ := 19

def normalizedSeedIdx (index : ℕ) : ℕ := index % seedList.length

/-- `SEEDLIST[normalized_seed_idx(d)]`. -/
def seedAt (index : ℕ) : BitVec 64 := seedList.getD (normalizedSeedIdx index) 0

/-- The bytes of an integer, least significant first: `to_ne_bytes` on the little-endian
targets the library is built for. -/
def leBytes {width : ℕ} (count : ℕ) (value : BitVec width) : List UInt8 :=
  (List.range count).map fun place => UInt8.ofNat (value.toNat >>> (8 * place))

/-- The bytes the default hasher feeds for a stored key. Integers of at most 64 bits are first
cast to `u64`, sign-extended where they are signed. -/
def hashBytes : HeapItem → List UInt8
  | .i8 value => leBytes 8 (value.signExtend 64)
  | .i16 value => leBytes 8 (value.signExtend 64)
  | .i32 value => leBytes 8 (value.signExtend 64)
  | .i64 value => leBytes 8 value
  | .i128 value => leBytes 16 value
  | .isize value => leBytes 8 value
  | .u8 value => leBytes 8 (value.setWidth 64)
  | .u16 value => leBytes 8 (value.setWidth 64)
  | .u32 value => leBytes 8 (value.setWidth 64)
  | .u64 value => leBytes 8 value
  | .u128 value => leBytes 16 value
  | .usize value => leBytes 8 value
  | .f32 bits => leBytes 4 bits
  | .f64 bits => leBytes 8 bits
  | .string value => value.toByteArray.data.toList
  | .bytes value => value

@[simp] theorem length_leBytes {width : ℕ} (count : ℕ) (value : BitVec width) :
    (leBytes count value).length = count := by
  rw [leBytes, List.length_map, List.length_range]

theorem leBytes_inj {width count : ℕ} (wide : width ≤ 8 * count) {left right : BitVec width}
    (same : leBytes count left = leBytes count right) : left = right := by
  refine BitVec.eq_of_getLsbD_eq fun bit inside => ?_
  have place : bit / 8 ∈ List.range count := by
    rw [List.mem_range]
    omega
  have sameByte := List.map_inj_left.mp same _ place
  have sameTested := congrArg (fun byte : UInt8 => byte.toNat.testBit (bit % 8)) sameByte
  have low : bit % 8 < 8 := Nat.mod_lt _ (by decide)
  have whole : 8 * (bit / 8) + bit % 8 = bit := Nat.div_add_mod bit 8
  simp only [UInt8.toNat_ofNat', Nat.testBit_mod_two_pow, Nat.testBit_shiftRight, low, whole,
    decide_true, Bool.true_and] at sameTested
  exact sameTested

/-- The one-shot XXH3 functions under a seed. `oneshot64_inj` is the bijectivity of the 64-bit
variant on its fixed-length short inputs. -/
structure XxHash3 where
  oneshot64 : BitVec 64 → List UInt8 → BitVec 64
  oneshot128 : BitVec 64 → List UInt8 → BitVec 128
  oneshot64_inj : ∀ seed left right, left.length = right.length →
    left.length = 4 ∨ left.length = 8 → oneshot64 seed left = oneshot64 seed right → left = right

/-- The number whose little-endian bytes these are. -/
def bytesValue : List UInt8 → ℕ
  | [] => 0
  | byte :: rest => byte.toNat + 256 * bytesValue rest

theorem bytesValue_lt (bytes : List UInt8) : bytesValue bytes < 2 ^ (8 * bytes.length) := by
  induction bytes with
  | nil => exact Nat.one_pos
  | cons byte rest hypothesis =>
    have byteLt : byte.toNat < 256 := byte.toNat_lt
    have power : 2 ^ (8 * (rest.length + 1)) = 256 * 2 ^ (8 * rest.length) := by
      rw [Nat.mul_add, Nat.mul_one, Nat.pow_add, Nat.mul_comm]
    rw [bytesValue, List.length_cons, power]
    omega

theorem bytesValue_inj {left right : List UInt8} (sameLength : left.length = right.length)
    (same : bytesValue left = bytesValue right) : left = right := by
  induction left generalizing right with
  | nil => exact (List.eq_nil_of_length_eq_zero sameLength.symm).symm
  | cons byte rest hypothesis =>
    cases right with
    | nil => exact absurd sameLength (Nat.succ_ne_zero _)
    | cons byte' rest' =>
      have byteLt : byte.toNat < 256 := byte.toNat_lt
      have byteLt' : byte'.toNat < 256 := byte'.toNat_lt
      rw [bytesValue, bytesValue] at same
      have sameByte : byte.toNat = byte'.toNat := by omega
      have sameRest : bytesValue rest = bytesValue rest' := by omega
      rw [UInt8.toNat_inj.mp sameByte, hypothesis (Nat.succ.inj sameLength) sameRest]

/-- A function with that property, which reads the bytes as a number and ignores the seed. -/
def plainXxHash : XxHash3 where
  oneshot64 := fun _ bytes => BitVec.ofNat 64 (bytesValue bytes)
  oneshot128 := fun _ bytes => BitVec.ofNat 128 (bytesValue bytes)
  oneshot64_inj := by
    intro seed left right sameLength short same
    have small : ∀ bytes : List UInt8, bytes.length = 4 ∨ bytes.length = 8 →
        bytesValue bytes < 2 ^ 64 := fun bytes short =>
      (bytesValue_lt bytes).trans_le (Nat.pow_le_pow_right (by decide) (by omega))
    have sameNat := congrArg BitVec.toNat same
    rw [BitVec.toNat_ofNat, BitVec.toNat_ofNat, Nat.mod_eq_of_lt (small left short),
      Nat.mod_eq_of_lt (small right (sameLength ▸ short))] at sameNat
    exact bytesValue_inj sameLength sameNat

section Default

variable (xxh : XxHash3)

def hashItem64Seeded (index : ℕ) (item : HeapItem) : BitVec 64 :=
  xxh.oneshot64 (seedAt index) (hashBytes item)

def hashItem128Seeded (index : ℕ) (item : HeapItem) : BitVec 128 :=
  xxh.oneshot128 (seedAt index) (hashBytes item)

/-- `hash64_seeded`: the arms for a borrowed key feed the same bytes as those for its owned
form. -/
def hash64Seeded (index : ℕ) (input : DataInput) : BitVec 64 :=
  xxh.oneshot64 (seedAt index) (hashBytes (inputToOwned input))

def hash128Seeded (index : ℕ) (input : DataInput) : BitVec 128 :=
  xxh.oneshot128 (seedAt index) (hashBytes (inputToOwned input))

def defaultXxHasher : SketchHasher where
  hash64Seeded := hash64Seeded xxh
  hash128Seeded := hash128Seeded xxh
  hashItem64Seeded := hashItem64Seeded xxh
  hashItem128Seeded := hashItem128Seeded xxh

theorem hash64Seeded_eq (index : ℕ) (input : DataInput) :
    hash64Seeded xxh index input = hashItem64Seeded xxh index (inputToOwned input) := rfl

theorem defaultXxHasher_coherent : (defaultXxHasher xxh).Coherent := hash64Seeded_eq xxh

end Default

/-- The profile of `DefaultXxHasher`. -/
def defaultHashProfile : HashProfile where
  profileId := "projectasap.xxh3.seedlist.v1"
  algorithm := "xxh3_64_128"
  seedDerivation := "seed_list_index_wrap"
  inputEncoding := "projectasap.input.v1"
  seedList := seedList

end AsapSketchlib
