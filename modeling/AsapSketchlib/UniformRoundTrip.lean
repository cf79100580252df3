/-
This file proves the round trip of the uniform sampler: every sampler that updates and merges reach
is emitted, accepted and emitted again with the same bytes. The decoded sampler evolves as the
original if the entries were emitted in the order they had, or as long as no truncation separates
entries of equal priority; otherwise the two may retain different values.
-/

import AsapSketchlib.UniformContinuation

namespace AsapSketchlib

namespace UniformWire

open UniformSampling (nextState drawnIn mixState initState)

/-! ### The canonical order -/

def InOrder (entries : List Entry) : Prop :=
  entries.Pairwise fun left right => (canonicalOrder left right).isLE

theorem canonicalOrder_isLE (left right : Entry) : (canonicalOrder left right).isLE ↔
    left.rank < right.rank ∨ left.rank = right.rank ∧
      (UnivMonQ.floatToOrdered left.value).toNat ≤ (UnivMonQ.floatToOrdered right.value).toNat := by
  rw [canonicalOrder, ← UnivMonQ.compare_floatToOrdered, Ordering.isLE_then_iff_or,
    compare_lt_iff_lt, compare_eq_iff_eq, Nat.isLE_compare]

theorem canonicalOrder_trans (first second third : Entry)
    (low : (canonicalOrder first second).isLE) (high : (canonicalOrder second third).isLE) :
    (canonicalOrder first third).isLE := by
  rw [canonicalOrder_isLE] at low high ⊢
  omega

theorem canonicalOrder_total (left right : Entry) :
    ((canonicalOrder left right).isLE || (canonicalOrder right left).isLE) = true := by
  rw [Bool.or_eq_true, canonicalOrder_isLE, canonicalOrder_isLE]
  omega

theorem canonicalOrder_antisymm {left right : Entry} (low : (canonicalOrder left right).isLE)
    (high : (canonicalOrder right left).isLE) : left = right := by
  rw [canonicalOrder_isLE] at low high
  have rank : left.rank = right.rank := by omega
  have key : UnivMonQ.floatToOrdered left.value = UnivMonQ.floatToOrdered right.value :=
    BitVec.eq_of_toNat_eq (by omega)
  have value := congrArg UnivMonQ.orderedToFloat key
  rw [UnivMonQ.orderedToFloat_floatToOrdered, UnivMonQ.orderedToFloat_floatToOrdered] at value
  cases left
  cases right
  exact Entry.mk.injEq _ _ _ _ ▸ ⟨rank_inj.mp rank, value⟩

theorem inOrder_ordered (entries : List Entry) : InOrder (ordered entries) :=
  List.pairwise_mergeSort canonicalOrder_trans canonicalOrder_total entries

theorem perm_ordered (entries : List Entry) : (ordered entries).Perm entries :=
  List.mergeSort_perm _ _

theorem InOrder.rising {entries : List Entry} (inOrder : InOrder entries) : Rising entries :=
  inOrder.imp fun less => by
    rw [canonicalOrder_isLE] at less
    omega

theorem ordered_eq {entries arranged : List Entry} (perm : arranged.Perm entries)
    (inOrder : InOrder arranged) : ordered entries = arranged :=
  ((perm_ordered entries).trans perm.symm).eq_of_pairwise
    (fun _ _ _ _ => canonicalOrder_antisymm) (inOrder_ordered entries) inOrder

theorem checkOrder_ok {entries : List Entry} (inOrder : InOrder entries) (idx : ℕ) :
    checkOrder idx entries = .ok () := by
  induction entries generalizing idx with
  | nil => rfl
  | cons previous rest hypothesis =>
    obtain ⟨follows, later⟩ := List.pairwise_cons.mp inOrder
    cases rest with
    | nil => rfl
    | cons entry rest =>
      have notGreater : canonicalOrder previous entry ≠ .gt := fun greater => by
        have le := follows entry List.mem_cons_self
        rw [greater] at le
        exact Bool.noConfusion le
      rw [checkOrder, if_neg notGreater]
      exact hypothesis later (idx + 1)

/-! ### Reached samplers -/

/-- What a sampler needs to be emitted: a rate in the range, no more entries than its rate allows,
and these in the order of their priorities. -/
structure Sound (sampler : Sampler) : Prop where
  rate : 0 < sampler.sampleRate ∧ sampler.sampleRate ≤ 1
  atMost : sampler.entries.length ≤ targetSize sampler.totalSeen sampler.sampleRate
  rising : Rising sampler.entries

variable {search : BinarySearch} {sampler other : Sampler}

theorem length_truncateTo_le (entries : List Entry) (size : ℕ) :
    (truncateTo entries size).length ≤ size := List.length_take_le size entries

theorem Sound.update (sound : Sound sampler) (value : BitVec 64) :
    Sound (sampler.update search value) where
  rate := sound.rate
  atMost := length_truncateTo_le _ _
  rising := rising_truncateTo (Sampler.rising_withDraw sound.rising) _

theorem Sound.merged (sound : Sound sampler) (other : Sampler) : Sound (sampler.merged other) := by
  by_cases apart : sampler.Apart other
  · rw [Sampler.merged_of_apart apart]
    exact sound
  · rw [Sampler.merged_of_not_apart apart]
    exact ⟨sound.rate, length_truncateTo_le _ _, rising_truncateTo (sampler.rising_joined other) _⟩

theorem Reached.sound (reached : Reached search sampler) : Sound sampler := by
  induction reached with
  | seeded made =>
    obtain ⟨valid, rfl⟩ := Option.ite_some_none_eq_some.mp made
    exact ⟨⟨valid.2, valid.1.2⟩, Nat.zero_le _, List.Pairwise.nil⟩
  | update _ value hypothesis => exact hypothesis.update value
  | merge _ _ hypothesis _ => exact hypothesis.merged _

/-! ### The round trip -/

/-- The sampler that is decoded: the entries stand in the canonical order. -/
def restored (sampler : Sampler) : Sampler := { sampler with entries := ordered sampler.entries }

theorem restored_eq (inOrder : InOrder sampler.entries) : restored sampler = sampler := by
  rw [restored, ordered_eq (List.Perm.refl _) inOrder]

theorem Sound.restored (sound : Sound sampler) : Sound (restored sampler) where
  rate := sound.rate
  atMost := (perm_ordered sampler.entries).length_eq.trans_le sound.atMost
  rising := (inOrder_ordered sampler.entries).rising

theorem Sound.alike (sound : Sound sampler) : Alike sampler (UniformWire.restored sampler) :=
  ⟨rfl, rfl, rfl, (perm_ordered sampler.entries).symm, sound.rising,
    (inOrder_ordered sampler.entries).rising⟩

theorem usPayload_restored (sampler : Sampler) :
    usPayload (restored sampler) = usPayload sampler := by
  have again : ordered (ordered sampler.entries) = ordered sampler.entries :=
    ordered_eq (List.Perm.refl _) (inOrder_ordered sampler.entries)
  rw [usPayload, usPayload, restored, again]

theorem checkSampleRate_ok {rate : ℚ} (valid : 0 < rate ∧ rate ≤ 1) :
    checkSampleRate (.finite rate) = .ok rate := if_pos valid

theorem Sound.serialize_eq (sound : Sound sampler) (rmp : UsRmp) :
    serializeToBytes rmp sampler =
      Envelope.write usKind rmp.metadata rmp.payload (usMetadata (.finite sampler.sampleRate))
        (usPayload sampler) := by
  rw [serializeToBytes, checkSampleRate_ok sound.rate]
  exact if_neg (not_lt.mpr sound.atMost)

theorem Sound.ofPayload_usPayload (sound : Sound sampler) :
    ofPayload sampler.sampleRate (usPayload sampler) = .ok (UniformWire.restored sampler) := by
  have entries : (((ordered sampler.entries).map Entry.priority).zip
      ((ordered sampler.entries).map Entry.value)).map
        (fun entry => (⟨entry.1, entry.2⟩ : Entry)) = ordered sampler.entries := by
    rw [List.zip_map', List.map_map]
    exact List.map_id _
  have length : ((ordered sampler.entries).map Entry.value).length = sampler.entries.length := by
    rw [List.length_map, (perm_ordered sampler.entries).length_eq]
  rw [ofPayload, usPayload]
  simp only
  rw [if_neg (not_not_intro (by rw [List.length_map, List.length_map])), length,
    if_neg (not_lt.mpr sound.atMost), entries, checkOrder_ok (inOrder_ordered _)]
  rfl

/-- What a crate is assumed to do for a sampler: it writes its blocks and reads them back. -/
structure UsRmp.RoundTrips (rmp : UsRmp) (sampler : Sampler) : Prop where
  metadata : Portable.RoundTrips rmp.metadata (usMetadata (.finite sampler.sampleRate))
  payload : Portable.RoundTrips rmp.payload (usPayload sampler)

/-- Both blocks of a sampler are short enough for the lengths of the envelope. -/
structure UsRmp.Fits (rmp : UsRmp) (sampler : Sampler) : Prop where
  metadata : Envelope.Short rmp.metadata (usMetadata (.finite sampler.sampleRate))
  payload : Envelope.Short rmp.payload (usPayload sampler)

/-- The same entries as a multiset, the same values seen and the same state of the generator. -/
structure SameContents (source decoded : Sampler) : Prop where
  entries : source.entries.Perm decoded.entries
  totalSeen : source.totalSeen = decoded.totalSeen
  rngState : source.rngState = decoded.rngState

theorem Sound.round_trip (sound : Sound sampler) {rmp : UsRmp} (trips : rmp.RoundTrips sampler)
    (fits : rmp.Fits sampler) :
    ∃ bytes, serializeToBytes rmp sampler = .ok (.ok bytes) ∧
      deserializeFromBytes rmp bytes = .ok (UniformWire.restored sampler) ∧
        serializeToBytes rmp (UniformWire.restored sampler) = .ok (.ok bytes) := by
  obtain ⟨bytes, metadata, payload, written, parts, metadataRead, payloadRead⟩ :=
    Envelope.write_split (show usKind.length < 2 ^ 8 by decide) trips.metadata trips.payload
      fits.metadata fits.payload
  refine ⟨bytes, ?_, ?_, ?_⟩
  · rw [sound.serialize_eq, written]
  · simp only [deserializeFromBytes, parts, Except.mapError, bind, Except.bind, metadataRead]
    have rate : checkSampleRate (usMetadata (.finite sampler.sampleRate)).sampleRate =
        .ok sampler.sampleRate := checkSampleRate_ok sound.rate
    have echoed : usMetadata (.finite sampler.sampleRate) =
        usMetadata (usMetadata (.finite sampler.sampleRate)).sampleRate := rfl
    rw [if_neg (not_not_intro rfl)]
    simp only [rate]
    rw [if_neg (not_not_intro echoed)]
    simp only [payloadRead]
    exact sound.ofPayload_usPayload
  · rw [sound.restored.serialize_eq, usPayload_restored]
    exact written

/-- Every sampler that is reached is emitted and accepted, and emitted again with the same bytes.
The decoded sampler and the original hold the same contents after everything that is done with both
later, if the entries stood in the canonical order, or if no truncation separates entries of equal
priority and different values. -/
theorem decoded_continues (search : BinarySearch) (rmp : UsRmp) (sampler : Sampler)
    (reached : Reached search sampler) (trips : rmp.RoundTrips sampler) (fits : rmp.Fits sampler) :
    ∃ bytes decoded, serializeToBytes rmp sampler = .ok (.ok bytes) ∧
      deserializeFromBytes rmp bytes = .ok decoded ∧
        serializeToBytes rmp decoded = .ok (.ok bytes) ∧
          ∀ later : Later, InOrder sampler.entries ∨ later.Untied search sampler →
            SameContents (later.run search sampler) (later.run search decoded) := by
  have sound := reached.sound
  obtain ⟨bytes, written, read, again⟩ := sound.round_trip trips fits
  refine ⟨bytes, restored sampler, written, read, again, fun later condition => ?_⟩
  rcases condition with inOrder | untied
  · rw [restored_eq inOrder]
    exact ⟨List.Perm.refl _, rfl, rfl⟩
  · have alike := sound.alike.run untied
    exact ⟨alike.entries, alike.totalSeen, alike.rngState⟩

/-! ### A search and samplers of one seed -/

theorem countP_lt_splits {numbers : List ℕ} (rising : numbers.Pairwise (· ≤ ·)) (number : ℕ) :
    (∀ other ∈ numbers.take (numbers.countP (· < number)), other ≤ number) ∧
      ∀ other ∈ numbers.drop (numbers.countP (· < number)), number ≤ other := by
  induction numbers with
  | nil => exact ⟨fun _ member => absurd member List.not_mem_nil,
      fun _ member => absurd member List.not_mem_nil⟩
  | cons first rest hypothesis =>
    obtain ⟨least, later⟩ := List.pairwise_cons.mp rising
    obtain ⟨below, above⟩ := hypothesis later
    by_cases less : first < number
    · rw [List.countP_cons_of_pos (by exact decide_eq_true less), List.take_succ_cons,
        List.drop_succ_cons]
      exact ⟨List.forall_mem_cons.mpr ⟨less.le, below⟩, above⟩
    · have none : (first :: rest).countP (· < number) = 0 := by
        refine List.countP_eq_zero.mpr fun other member => ?_
        rw [decide_eq_true_eq, not_lt]
        rcases List.mem_cons.mp member with rfl | inRest
        · exact not_lt.mp less
        · exact (not_lt.mp less).trans (least other inRest)
      rw [none]
      refine ⟨fun _ member => absurd member List.not_mem_nil, fun other member => ?_⟩
      rcases List.mem_cons.mp member with rfl | inRest
      · exact not_lt.mp less
      · exact (not_lt.mp less).trans (least other inRest)

/-- A search that ends in front of all numbers that are not lower. -/
def firstPlace : BinarySearch where
  place numbers number := numbers.countP (· < number)
  inside _ _ _ := List.countP_le_length
  below _ number rising := (countP_lt_splits rising number).1
  above _ number rising := (countP_lt_splits rising number).2

/-- The sampler of the default seed at rate three quarters, after one value. -/
def afterOne (value : BitVec 64) : Sampler where
  sampleRate := 3 / 4
  totalSeen := 1
  rngState := nextState UniformSampling.defaultSeed
  entries := [⟨drawnIn (nextState UniformSampling.defaultSeed), value⟩]

theorem reached_afterOne (value : BitVec 64) : Reached firstPlace (afterOne value) := by
  have seeded : withSeed (3 / 4) 0 = some ⟨3 / 4, 0, UniformSampling.defaultSeed, []⟩ := by
    decide +kernel
  have reached : Reached firstPlace _ := Reached.seeded seeded
  have updated := reached.update value
  have size : targetSize (Portable.saturatingAddU64 0 1) (3 / 4) = 1 := by decide +kernel
  have same : Sampler.update firstPlace ⟨3 / 4, 0, UniformSampling.defaultSeed, []⟩ value =
      afterOne value := by
    rw [Sampler.update, size]
    rfl
  rwa [same] at updated

def oneBits : BitVec 64 := 0x3FF0000000000000

def twoBits : BitVec 64 := 0x4000000000000000

/-- Two samplers of one seed draw the same priority, and are merged. -/
def tied : Sampler where
  sampleRate := 3 / 4
  totalSeen := 2
  rngState := mixState (nextState UniformSampling.defaultSeed)
    (nextState UniformSampling.defaultSeed)
  entries := (afterOne twoBits).entries ++ (afterOne oneBits).entries

theorem reached_tied : Reached firstPlace tied := by
  have merged := (reached_afterOne twoBits).merge (reached_afterOne oneBits)
  have size : targetSize (Portable.saturatingAddU64 1 1) (3 / 4) = 2 := by decide +kernel
  have joined : (afterOne twoBits).joined (afterOne oneBits) =
      (afterOne twoBits).entries ++ (afterOne oneBits).entries :=
    List.mergeSort_of_pairwise (by decide +kernel)
  have same : (afterOne twoBits).merged (afterOne oneBits) = tied := by
    rw [Sampler.merged_of_not_apart (by decide +kernel), joined]
    show (⟨3 / 4, _, _, truncateTo _ (targetSize (Portable.saturatingAddU64 1 1) (3 / 4))⟩ :
      Sampler) = tied
    rw [size]
    rfl
  rwa [same] at merged

theorem restored_tied :
    restored tied = { tied with entries := (afterOne oneBits).entries ++ (afterOne twoBits).entries
    } := by
  have arranged : ordered tied.entries =
      (afterOne oneBits).entries ++ (afterOne twoBits).entries :=
    ordered_eq List.perm_append_comm (by
      show List.Pairwise _ _
      decide +kernel)
  rw [restored, arranged]

/-- A crate that writes the blocks of one sampler. -/
def singleUs (sampler : Sampler) : UsRmp where
  metadata := Portable.singleRmp (usMetadata (.finite sampler.sampleRate)) [0]
  payload := Portable.singleRmp (usPayload sampler) [1]

theorem roundTrips_singleUs (sampler : Sampler) : (singleUs sampler).RoundTrips sampler :=
  ⟨Portable.roundTrips_singleRmp _ _, Portable.roundTrips_singleRmp _ _⟩

theorem fits_singleUs (sampler : Sampler) : (singleUs sampler).Fits sampler where
  metadata := Envelope.short_singleRmp _ (by decide)
  payload := Envelope.short_singleRmp _ (by decide)

/-- A sampler with one entry goes on alike when it is merged with one of another seed. -/
theorem decoded_continues_afterOne :
    ∃ bytes decoded, serializeToBytes (singleUs (afterOne twoBits)) (afterOne twoBits) =
        .ok (.ok bytes) ∧
      deserializeFromBytes (singleUs (afterOne twoBits)) bytes = .ok decoded ∧
        serializeToBytes (singleUs (afterOne twoBits)) decoded = .ok (.ok bytes) ∧
          SameContents ((Later.here.update oneBits).run firstPlace (afterOne twoBits))
            ((Later.here.update oneBits).run firstPlace decoded) := by
  obtain ⟨bytes, decoded, written, read, again, continues⟩ := decoded_continues firstPlace
    (singleUs (afterOne twoBits)) (afterOne twoBits) (reached_afterOne twoBits)
    (roundTrips_singleUs _) (fits_singleUs _)
  exact ⟨bytes, decoded, written, read, again,
    continues (Later.here.update oneBits) (Or.inr (by
      refine ⟨trivial, ?_⟩
      decide +kernel))⟩

/-- Two more values evict one of two entries with one priority: the original retains 2, the decoded
sampler 1. -/
theorem decoded_diverges :
    Reached firstPlace tied ∧ (singleUs tied).RoundTrips tied ∧ (singleUs tied).Fits tied ∧
      ∃ bytes decoded, serializeToBytes (singleUs tied) tied = .ok (.ok bytes) ∧
        deserializeFromBytes (singleUs tied) bytes = .ok decoded ∧
          ¬SameContents
            (((Later.here.update oneBits).update oneBits).run firstPlace tied)
            (((Later.here.update oneBits).update oneBits).run firstPlace decoded) := by
  have sound := reached_tied.sound
  obtain ⟨bytes, written, read, -⟩ :=
    sound.round_trip (roundTrips_singleUs tied) (fits_singleUs tied)
  refine ⟨reached_tied, roundTrips_singleUs tied, fits_singleUs tied, bytes, restored tied, written,
    read, fun same => ?_⟩
  have entries := same.entries
  rw [restored_tied] at entries
  revert entries
  decide +kernel

end UniformWire

end AsapSketchlib
