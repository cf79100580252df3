/-
This file proves that the framing of an envelope is exact: bytes are split into three blocks if and
only if the envelope of the blocks stands at their front. The split is also modelled with what its
slices and its arithmetic may stop on, and shown never to stop.
-/

import AsapSketchlib.EnvelopeBlocks
import Mathlib.Data.List.Induction

namespace AsapSketchlib

/-! ### Words that are read -/

theorem ofBeBytes_append_singleton (front : List UInt8) (byte : UInt8) :
    ofBeBytes (front ++ [byte]) = 256 * ofBeBytes front + byte.toNat := by
  rw [ofBeBytes, List.foldl_append, ← ofBeBytes]
  rfl

theorem ofBeBytes_lt (bytes : List UInt8) : ofBeBytes bytes < 256 ^ bytes.length := by
  induction bytes using List.reverseRecOn with
  | nil => exact Nat.one_pos
  | append_singleton front byte hypothesis =>
    have small := byte.toNat_lt
    rw [ofBeBytes_append_singleton, List.length_append, List.length_singleton, pow_succ]
    omega

theorem beBytes_ofBeBytes (bytes : List UInt8) :
    beBytes bytes.length (ofBeBytes bytes) = bytes := by
  induction bytes using List.reverseRecOn with
  | nil => rfl
  | append_singleton front byte hypothesis =>
    have small := byte.toNat_lt
    have high : (256 * ofBeBytes front + byte.toNat) / 256 = ofBeBytes front := by omega
    have low : UInt8.ofNat (256 * ofBeBytes front + byte.toNat) = byte := by
      rw [← UInt8.toNat_inj, UInt8.toNat_ofNat']
      omega
    rw [ofBeBytes_append_singleton, List.length_append, List.length_singleton, beBytes, high, low,
      hypothesis]

namespace Envelope

/-! ### Slices -/

theorem take_append_slice (bytes : List UInt8) {start stop : ℕ} (ordered : start ≤ stop) :
    bytes.take start ++ slice bytes start stop = bytes.take stop := by
  rw [slice, ← List.take_add, Nat.add_sub_cancel' ordered]

theorem length_slice {bytes : List UInt8} {start stop : ℕ} (inside : stop ≤ bytes.length) :
    (slice bytes start stop).length = stop - start := by
  rw [slice, List.length_take, List.length_drop]
  omega

theorem take_append_getD {bytes : List UInt8} {index : ℕ} (inside : index < bytes.length) :
    bytes.take index ++ [bytes.getD index 0] = bytes.take (index + 1) := by
  rw [List.getD_eq_getElem?_getD, List.getElem?_eq_getElem inside, Option.getD_some,
    List.take_append_getElem]

/-! ### Acceptance -/

theorem encode_of_split {bytes kindId metadata payload : List UInt8}
    (accepted : split bytes = .ok (kindId, metadata, payload)) :
    ∃ framed, encode kindId metadata payload = .ok framed ∧ framed <+: bytes := by
  have magicLength : magic.length = 6 := rfl
  simp only [split, magicLength] at accepted
  by_cases tooShort : bytes.length < 16
  · rw [if_pos tooShort] at accepted
    cases accepted
  by_cases badMagic : bytes.take 6 ≠ magic
  · rw [if_neg tooShort, if_pos badMagic] at accepted
    cases accepted
  by_cases unsupported : bytes.getD 6 0 ≠ version
  · rw [if_neg tooShort, if_neg badMagic, if_pos unsupported] at accepted
    cases accepted
  rw [if_neg tooShort, if_neg badMagic, if_neg unsupported] at accepted
  have kindSmall := (bytes.getD 7 0).toNat_lt
  have kindByte : UInt8.ofNat (bytes.getD 7 0).toNat = bytes.getD 7 0 := UInt8.ofNat_toNat
  generalize kindIdLen : (bytes.getD 7 0).toNat = kindLen at accepted kindSmall kindByte
  by_cases truncated : bytes.length < 8 + kindLen + 8
  · rw [if_pos truncated] at accepted
    cases accepted
  rw [if_neg truncated] at accepted
  have metadataWord : (slice bytes (8 + kindLen) (8 + kindLen + 4)).length = 4 := by
    rw [length_slice (by omega)]
    omega
  have payloadWord : (slice bytes (8 + kindLen + 4) (8 + kindLen + 8)).length = 4 := by
    rw [length_slice (by omega)]
    omega
  have metadataBytes := beBytes_ofBeBytes (slice bytes (8 + kindLen) (8 + kindLen + 4))
  have payloadBytes := beBytes_ofBeBytes (slice bytes (8 + kindLen + 4) (8 + kindLen + 8))
  have metadataSmall := ofBeBytes_lt (slice bytes (8 + kindLen) (8 + kindLen + 4))
  have payloadSmall := ofBeBytes_lt (slice bytes (8 + kindLen + 4) (8 + kindLen + 8))
  rw [metadataWord] at metadataBytes metadataSmall
  rw [payloadWord] at payloadBytes payloadSmall
  generalize ofBeBytes (slice bytes (8 + kindLen) (8 + kindLen + 4)) = metadataLen
    at accepted metadataBytes metadataSmall
  generalize ofBeBytes (slice bytes (8 + kindLen + 4) (8 + kindLen + 8)) = payloadLen
    at accepted payloadBytes payloadSmall
  have startInside : 8 + kindLen + 8 + metadataLen ≤ u64Max := by
    unfold u64Max
    omega
  have endInside : 8 + kindLen + 8 + metadataLen + payloadLen ≤ u64Max := by
    unfold u64Max
    omega
  simp only [checkedAdd, if_pos startInside, if_pos endInside, bind, Except.bind] at accepted
  by_cases cut : bytes.length < 8 + kindLen + 8 + metadataLen + payloadLen
  · rw [if_pos cut] at accepted
    cases accepted
  rw [if_neg cut] at accepted
  obtain ⟨rfl, rfl, rfl⟩ : slice bytes 8 (8 + kindLen) = kindId ∧
      slice bytes (8 + kindLen + 8) (8 + kindLen + 8 + metadataLen) = metadata ∧
        slice bytes (8 + kindLen + 8 + metadataLen)
          (8 + kindLen + 8 + metadataLen + payloadLen) = payload := by
    obtain ⟨kindEq, blocksEq⟩ := Prod.mk.inj (Except.ok.inj accepted)
    exact ⟨kindEq, (Prod.mk.inj blocksEq).1, (Prod.mk.inj blocksEq).2⟩
  have kindLength : (slice bytes 8 (8 + kindLen)).length = kindLen := by
    rw [length_slice (by omega)]
    omega
  have metadataLength : (slice bytes (8 + kindLen + 8)
      (8 + kindLen + 8 + metadataLen)).length = metadataLen := by
    rw [length_slice (by omega)]
    omega
  have payloadLength : (slice bytes (8 + kindLen + 8 + metadataLen)
      (8 + kindLen + 8 + metadataLen + payloadLen)).length = payloadLen := by
    rw [length_slice (by omega)]
    omega
  refine ⟨_, encode_ok (by omega) (by omega) (by omega), ?_⟩
  rw [kindLength, metadataLength, payloadLength, metadataBytes, payloadBytes, kindByte]
  have whole : bytes.take (8 + kindLen + 8 + metadataLen + payloadLen) =
      magic ++ (version :: bytes.getD 7 0 :: (slice bytes 8 (8 + kindLen) ++
        (slice bytes (8 + kindLen) (8 + kindLen + 4) ++
          (slice bytes (8 + kindLen + 4) (8 + kindLen + 8) ++
            (slice bytes (8 + kindLen + 8) (8 + kindLen + 8 + metadataLen) ++
              slice bytes (8 + kindLen + 8 + metadataLen)
                (8 + kindLen + 8 + metadataLen + payloadLen)))))) := by
    rw [← take_append_slice bytes (Nat.le_add_right _ payloadLen),
      ← take_append_slice bytes (Nat.le_add_right _ metadataLen),
      ← take_append_slice bytes (show 8 + kindLen + 4 ≤ 8 + kindLen + 8 by omega),
      ← take_append_slice bytes (Nat.le_add_right _ 4),
      ← take_append_slice bytes (Nat.le_add_right 8 kindLen),
      ← take_append_getD (show 7 < bytes.length by omega),
      ← take_append_getD (show 6 < bytes.length by omega), not_not.mp badMagic,
      not_not.mp unsupported]
    simp only [List.append_assoc, List.cons_append, List.nil_append]
  rw [← whole]
  exact List.take_prefix _ bytes

theorem split_iff (bytes kindId metadata payload : List UInt8) :
    split bytes = .ok (kindId, metadata, payload) ↔
      ∃ framed, encode kindId metadata payload = .ok framed ∧ framed <+: bytes := by
  constructor
  · exact encode_of_split
  · rintro ⟨framed, written, rest, rfl⟩
    obtain ⟨kindFits, metadataFits, payloadFits⟩ := fits_of_encode written
    exact split_append kindFits metadataFits payloadFits written rest

/-! ### The split with its panics -/

/-- A sum of two `usize`, which stops where it overflows. -/
def addUsize (left right : ℕ) : Except Panic ℕ :=
  if left + right ≤ u64Max then .ok (left + right)
  else .error (.expect "attempt to add with overflow")

/-- `bytes[index]`. -/
def byteAt (bytes : List UInt8) (index : ℕ) : Except Panic UInt8 :=
  if index < bytes.length then .ok (bytes.getD index 0) else .error (.fault .outOfBounds)

/-- `&bytes[start..stop]`, which stops outside the bytes. -/
def sliceAt (bytes : List UInt8) (start stop : ℕ) : Except Panic (List UInt8) :=
  if start ≤ stop ∧ stop ≤ bytes.length then .ok (slice bytes start stop)
  else .error (.fault .outOfBounds)

/-- `u32::from_be_bytes` of a slice that has to be of four bytes. -/
def lengthAt (bytes : List UInt8) (start stop : ℕ) : Except Panic ℕ :=
  (sliceAt bytes start stop).bind fun word =>
    if word.length = 4 then .ok (ofBeBytes word) else .error (.expect "four-byte length slice")

/-- What `split` returns once the front of the envelope has been checked. -/
def splitBlocks (bytes : List UInt8) (kindIdOffset kindIdLen : ℕ) :
    Except Panic (Except String (List UInt8 × List UInt8 × List UInt8)) := do
  let lengthsOffset ← addUsize kindIdOffset kindIdLen
  let lengthsEnd ← addUsize lengthsOffset 8
  if bytes.length < lengthsEnd then
    return .error "ASAPv1 envelope: truncated kind_id / length fields"
  else
    let kindId ← sliceAt bytes kindIdOffset lengthsOffset
    let payloadLenOffset ← addUsize lengthsOffset 4
    let metadataLen ← lengthAt bytes lengthsOffset payloadLenOffset
    let payloadLen ← lengthAt bytes payloadLenOffset lengthsEnd
    match (checkedAdd lengthsEnd metadataLen).bind fun payloadStart =>
        (checkedAdd payloadStart payloadLen).map fun payloadEnd => (payloadStart, payloadEnd) with
    | .error message => return .error message
    | .ok (payloadStart, payloadEnd) =>
      if bytes.length < payloadEnd then
        return .error "ASAPv1 envelope: truncated metadata / payload"
      else
        let metadata ← sliceAt bytes lengthsEnd payloadStart
        let payload ← sliceAt bytes payloadStart payloadEnd
        return .ok (kindId, metadata, payload)

/-- `split`, with every slice, every index and every sum that may stop. -/
def splitOrPanic (bytes : List UInt8) :
    Except Panic (Except String (List UInt8 × List UInt8 × List UInt8)) :=
  let magicLen := magic.length
  let headerMin := magicLen + 2 + 4 + 4
  if bytes.length < headerMin then
    .ok (.error ("ASAPv1 envelope: too short (" ++ toString bytes.length ++
      " bytes, need at least " ++ toString headerMin ++ ")"))
  else
    (sliceAt bytes 0 magicLen).bind fun front =>
      if front ≠ magic then .ok (.error "ASAPv1 envelope: bad magic")
      else
        (byteAt bytes magicLen).bind fun versionByte =>
          if versionByte ≠ version then
            .ok (.error ("ASAPv1 envelope: unsupported version 0x" ++ hexByte versionByte))
          else
            (byteAt bytes (magicLen + 1)).bind fun kindIdLen =>
              splitBlocks bytes (magicLen + 2) kindIdLen.toNat

theorem addUsize_ok {left right : ℕ} (fits : left + right ≤ u64Max) :
    addUsize left right = .ok (left + right) := if_pos fits

theorem byteAt_ok {bytes : List UInt8} {index : ℕ} (inside : index < bytes.length) :
    byteAt bytes index = .ok (bytes.getD index 0) := if_pos inside

theorem sliceAt_ok {bytes : List UInt8} {start stop : ℕ} (ordered : start ≤ stop)
    (inside : stop ≤ bytes.length) : sliceAt bytes start stop = .ok (slice bytes start stop) :=
  if_pos ⟨ordered, inside⟩

theorem lengthAt_ok {bytes : List UInt8} {start : ℕ} (inside : start + 4 ≤ bytes.length) :
    lengthAt bytes start (start + 4) = .ok (ofBeBytes (slice bytes start (start + 4))) := by
  have four : (slice bytes start (start + 4)).length = 4 := by
    rw [length_slice inside, Nat.add_sub_cancel_left]
  rw [lengthAt, sliceAt_ok (Nat.le_add_right start 4) inside]
  exact if_pos four

/-- No byte string makes the split stop. -/
theorem splitOrPanic_eq (bytes : List UInt8) : splitOrPanic bytes = .ok (split bytes) := by
  have magicLength : magic.length = 6 := rfl
  simp only [splitOrPanic, split, magicLength]
  by_cases tooShort : bytes.length < 16
  · rw [if_pos tooShort, if_pos tooShort]
  rw [if_neg tooShort, if_neg tooShort, sliceAt_ok (Nat.zero_le 6) (by omega)]
  have front : slice bytes 0 6 = bytes.take 6 := rfl
  simp only [Except.bind, front]
  by_cases badMagic : bytes.take 6 ≠ magic
  · rw [if_pos badMagic, if_pos badMagic]
  rw [if_neg badMagic, if_neg badMagic, byteAt_ok (by omega)]
  by_cases unsupported : bytes.getD 6 0 ≠ version
  · rw [if_pos unsupported]
    exact if_pos unsupported
  rw [if_neg unsupported, byteAt_ok (by omega)]
  refine (if_neg unsupported).trans ?_
  have kindSmall := (bytes.getD 7 0).toNat_lt
  simp only [splitBlocks]
  generalize (bytes.getD 7 0).toNat = kindLen at kindSmall
  have offsetFits : 6 + 2 + kindLen + 8 ≤ u64Max := by
    unfold u64Max
    omega
  have lengthsOffset : addUsize (6 + 2) kindLen = .ok (6 + 2 + kindLen) :=
    addUsize_ok (by omega)
  have payloadLenOffset : addUsize (6 + 2 + kindLen) 4 = .ok (6 + 2 + kindLen + 4) :=
    addUsize_ok (by omega)
  have lengthsEnd : addUsize (6 + 2 + kindLen) 8 = .ok (6 + 2 + kindLen + 8) :=
    addUsize_ok offsetFits
  simp only [lengthsOffset, lengthsEnd, bind, Except.bind]
  by_cases truncated : bytes.length < 6 + 2 + kindLen + 8
  · rw [if_pos truncated, if_pos truncated]
    rfl
  rw [if_neg truncated, if_neg truncated]
  have kindId : sliceAt bytes (6 + 2) (6 + 2 + kindLen) =
      .ok (slice bytes (6 + 2) (6 + 2 + kindLen)) :=
    sliceAt_ok (Nat.le_add_right _ kindLen) (by omega)
  have metadataWord : lengthAt bytes (6 + 2 + kindLen) (6 + 2 + kindLen + 4) =
      .ok (ofBeBytes (slice bytes (6 + 2 + kindLen) (6 + 2 + kindLen + 4))) :=
    lengthAt_ok (by omega)
  have payloadWord : lengthAt bytes (6 + 2 + kindLen + 4) (6 + 2 + kindLen + 8) =
      .ok (ofBeBytes (slice bytes (6 + 2 + kindLen + 4) (6 + 2 + kindLen + 8))) :=
    lengthAt_ok (by omega)
  simp only [kindId, payloadLenOffset, metadataWord, payloadWord]
  generalize ofBeBytes (slice bytes (6 + 2 + kindLen) (6 + 2 + kindLen + 4)) = metadataLen
  generalize ofBeBytes (slice bytes (6 + 2 + kindLen + 4) (6 + 2 + kindLen + 8)) = payloadLen
  rw [checkedAdd]
  by_cases startFits : 6 + 2 + kindLen + 8 + metadataLen ≤ u64Max
  · rw [if_pos startFits]
    simp only [checkedAdd]
    by_cases endFits : 6 + 2 + kindLen + 8 + metadataLen + payloadLen ≤ u64Max
    · rw [if_pos endFits]
      simp only [Except.map]
      by_cases cut : bytes.length < 6 + 2 + kindLen + 8 + metadataLen + payloadLen
      · rw [if_pos cut, if_pos cut]
        rfl
      · rw [if_neg cut, if_neg cut, sliceAt_ok (Nat.le_add_right _ metadataLen) (by omega),
          sliceAt_ok (Nat.le_add_right _ payloadLen) (by omega)]
        rfl
    · rw [if_neg endFits]
      rfl
  · rw [if_neg startFits]
    rfl

/-! ### The framing -/

/-- What is assembled is split into exactly its blocks. The split never stops, takes exactly what an
envelope at the front of its input holds, and no envelope is a proper prefix of another one. -/
theorem framing_exact :
    (∀ kindId metadata payload : List UInt8, kindId.length ≤ 255 → metadata.length < 2 ^ 32 →
      payload.length < 2 ^ 32 → ∃ framed, encode kindId metadata payload = .ok framed ∧
        splitOrPanic framed = .ok (.ok (kindId, metadata, payload))) ∧
    (∀ bytes : List UInt8, ∃ result, splitOrPanic bytes = .ok result ∧
      ∀ kindId metadata payload, result = .ok (kindId, metadata, payload) ↔
        ∃ framed, encode kindId metadata payload = .ok framed ∧ framed <+: bytes) ∧
    (∀ kindId metadata payload kindId' metadata' payload' framed framed' : List UInt8,
      encode kindId metadata payload = .ok framed →
        encode kindId' metadata' payload' = .ok framed' → framed <+: framed' → framed = framed' ∧
          (kindId, metadata, payload) = (kindId', metadata', payload')) := by
  refine ⟨fun kindId metadata payload kindFits metadataFits payloadFits => ?_,
    fun bytes => ⟨split bytes, splitOrPanic_eq bytes, fun kindId metadata payload =>
      split_iff bytes kindId metadata payload⟩, ?_⟩
  · have kindShort : kindId.length < 2 ^ 8 := Nat.lt_succ_of_le kindFits
    have framed := encode_ok kindShort metadataFits payloadFits
    refine ⟨_, framed, ?_⟩
    rw [splitOrPanic_eq, split_encode kindShort metadataFits payloadFits framed]
  · intro kindId metadata payload kindId' metadata' payload' framed framed' written written' front
    have here := (split_iff framed' kindId metadata payload).mpr ⟨framed, written, front⟩
    rw [split_of_encode written'] at here
    have same := (Except.ok.inj here).symm
    obtain ⟨rfl, rest⟩ := Prod.mk.inj same
    obtain ⟨rfl, rfl⟩ := Prod.mk.inj rest
    exact ⟨Except.ok.inj (written.symm.trans written'), rfl⟩

/-- The envelope of a KLL sketch with empty blocks. -/
theorem framing_exact_empty :
    splitOrPanic [0x41, 0x53, 0x41, 0x50, 0x76, 0x31, 0x01, 0x02, 0x06, 0x00, 0, 0, 0, 0, 0, 0, 0, 0] = .ok (.ok ([0x06, 0x00], [], [])) := by
  obtain ⟨framed, written, read⟩ := framing_exact.1 [0x06, 0x00] [] [] (by decide) (by decide)
    (by decide)
  rw [← Except.ok.inj written] at read
  exact read

end Envelope

end AsapSketchlib
