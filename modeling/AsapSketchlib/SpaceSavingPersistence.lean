/-
This file proves that a Space-Saving summary survives the wire. The emitted order tells any
two distinct keys of one variant apart, so the blocks depend on the triples alone; the
payload reads back as those triples; and every summary that recordings, merges and clears
can build has triples the rebuild takes back.
-/

import AsapSketchlib.SpaceSavingRebuild
import AsapSketchlib.SpaceSavingWire

namespace AsapSketchlib

open SpaceSaving

/-! ### The emitted order -/

theorem signExtend_inj {width : ℕ} (narrow : width ≤ 128) {left right : BitVec width}
    (same : (left.signExtend 128).toNat = (right.signExtend 128).toNat) : left = right := by
  have extended := BitVec.toNat_inj.mp same
  refine BitVec.eq_of_getLsbD_eq fun bit inside => ?_
  have read := congrArg (fun value : BitVec 128 => value.getLsbD bit) extended
  have wide : bit < 128 := by omega
  simpa only [BitVec.getLsbD_signExtend, wide, inside, decide_true, Bool.true_and, if_true] using read

def HeapItem.tag (key : HeapItem) : ℕ := (ofLex (keyOrder key)).1

theorem keyOrder_injective : Function.Injective keyOrder := by
  intro left right same
  have tags : left.tag = right.tag := congrArg (fun order => (ofLex order).1) same
  have value : (ofLex (ofLex (keyOrder left)).2).1 = (ofLex (ofLex (keyOrder right)).2).1 :=
    congrArg (fun order => (ofLex (ofLex order).2).1) same
  have bytes : (ofLex (ofLex (keyOrder left)).2).2 = (ofLex (ofLex (keyOrder right)).2).2 :=
    congrArg (fun order => (ofLex (ofLex order).2).2) same
  cases left with
  | i8 _ | i16 _ | i32 _ | i64 _ | isize _ =>
    cases right <;> first | (cases tags; done) | exact congrArg _ (signExtend_inj (by decide) value)
  | string _ =>
    cases right <;> first
      | (cases tags; done)
      | have sameBytes := List.map_injective_iff.mpr (fun _ _ => UInt8.toNat_inj.mp) bytes
        exact congrArg _ (String.toByteArray_inj.mp (ByteArray.ext (Array.toList_inj.mp sameBytes)))
  | bytes _ =>
    cases right <;> first
      | (cases tags; done)
      | exact congrArg _ (List.map_injective_iff.mpr (fun _ _ => UInt8.toNat_inj.mp) bytes)
  | _ => cases right <;> first | (cases tags; done) | exact congrArg _ (BitVec.toNat_inj.mp value)

theorem WireKey.item_of_keyOrder (kind : WireKey) {left right : kind.Held}
    (same : keyOrder (kind.item left) = keyOrder (kind.item right)) : left = right := by
  have items := congrArg kind.held (keyOrder_injective same)
  rw [kind.held_item, kind.held_item] at items
  exact Option.some.inj items

theorem toNat_ofNat_of_le {value : ℕ} (capped : value ≤ u64Max) :
    (BitVec.ofNat 64 value).toNat = value := by
  rw [BitVec.toNat_ofNat]
  exact Nat.mod_eq_of_lt (Nat.lt_succ_of_le capped)

namespace SpaceSaving

theorem emittedLe_iff (left right : HeapItem × ℕ × ℕ) :
    emittedLe left right = true ↔ right.2.1 < left.2.1 ∨
      right.2.1 = left.2.1 ∧ keyOrder left.1 ≤ keyOrder right.1 := by
  simp only [emittedLe, decide_eq_true_eq]

def asTriple (counter : Counter) : HeapItem × ℕ × ℕ := (counter.key, counter.count, counter.error)

/-- A triple as an entry of a union, under no digest. -/
def asEntry (entry : HeapItem × ℕ × ℕ) : MergeEntry where
  key := entry.1
  digest := 0
  count := entry.2.1
  error := entry.2.2
  paired := false

/-- Triples of distinct keys of one variant are emitted in one order, whatever order they come
in. -/
theorem emitted_unique {kind : WireKey} {left right : List (HeapItem × ℕ × ℕ)}
    (perm : left.Perm right) (typed : ∀ entry ∈ left, keyTypeOf entry.1 = some kind)
    (distinct : (left.map Prod.fst).Nodup) : left.mergeSort emittedLe = right.mergeSort emittedLe := by
  have trans : ∀ first second third : HeapItem × ℕ × ℕ, emittedLe first second = true →
      emittedLe second third = true → emittedLe first third = true :=
    fun first second third => mergeLe_trans (asEntry first) (asEntry second) (asEntry third)
  have total : ∀ first second : HeapItem × ℕ × ℕ,
      (emittedLe first second || emittedLe second first) = true :=
    fun first second => mergeLe_total (asEntry first) (asEntry second)
  have leftPerm := List.mergeSort_perm left emittedLe
  have rightPerm := List.mergeSort_perm right emittedLe
  refine List.Perm.eq_of_pairwise ?_ (List.pairwise_mergeSort trans total left)
    (List.pairwise_mergeSort trans total right) (leftPerm.trans (perm.trans rightPerm.symm))
  intro first second memberFirst memberSecond forward backward
  have inFirst := leftPerm.subset memberFirst
  have inSecond := perm.symm.subset (rightPerm.subset memberSecond)
  rw [emittedLe_iff] at forward backward
  have sameOrder : keyOrder first.1 = keyOrder second.1 := by
    rcases forward with below | ⟨sameCount, below⟩
    · rcases backward with above | ⟨sameCount, -⟩
      · exact absurd (below.trans above) (lt_irrefl _)
      · exact absurd below sameCount.not_gt
    · rcases backward with above | ⟨-, above⟩
      · exact absurd above sameCount.not_gt
      · exact le_antisymm below above
  obtain ⟨firstValue, -, firstKey⟩ := WireKey.exists_held (typed first inFirst)
  obtain ⟨secondValue, -, secondKey⟩ := WireKey.exists_held (typed second inSecond)
  rw [← firstKey, ← secondKey] at sameOrder
  have sameKey : first.1 = second.1 := by
    rw [← firstKey, ← secondKey, kind.item_of_keyOrder sameOrder]
  exact List.inj_on_of_nodup_map distinct inFirst inSecond sameKey

/-! ### The payload -/

theorem mapM_packKey (keyType : String) {kind : WireKey} {entries : List (HeapItem × ℕ × ℕ)}
    (typed : ∀ entry ∈ entries, keyTypeOf entry.1 = some kind) :
    ∃ keys, entries.mapM (packKey keyType kind) = .ok keys ∧
      keys.map kind.item = entries.map Prod.fst := by
  induction entries with
  | nil => exact ⟨[], rfl, rfl⟩
  | cons entry rest hypothesis =>
    obtain ⟨value, holds, whole⟩ := WireKey.exists_held (typed entry List.mem_cons_self)
    obtain ⟨keys, packing, wholes⟩ :=
      hypothesis fun other member => typed other (List.mem_cons_of_mem _ member)
    have own : packKey keyType kind entry = .ok value := by
      simp only [packKey, holds]
    refine ⟨value :: keys, ?_, ?_⟩
    · rw [List.mapM_cons, own, packing]
      rfl
    · rw [List.map_cons, List.map_cons, whole, wholes]

theorem zipEntries_split {entries : List (HeapItem × ℕ × ℕ)}
    (capped : ∀ entry ∈ entries, entry.2.1 ≤ u64Max ∧ entry.2.2 ≤ u64Max) :
    zipEntries (entries.map Prod.fst) (entries.map fun entry => BitVec.ofNat 64 entry.2.1)
      (entries.map fun entry => BitVec.ofNat 64 entry.2.2) = entries := by
  induction entries with
  | nil => rfl
  | cons entry rest hypothesis =>
    obtain ⟨count, error⟩ := capped entry List.mem_cons_self
    have others := hypothesis fun other member => capped other (List.mem_cons_of_mem _ member)
    simp only [zipEntries, List.map_cons, List.zip_cons_cons] at others ⊢
    rw [others, toNat_ofNat_of_le count, toNat_ofNat_of_le error]

theorem decodePayload_encodePayload {rmp : SpaceSavingRmp} (roundTrips : rmp.RoundTrips)
    (kind : WireKey) {entries : List (HeapItem × ℕ × ℕ)} {total discardedMax : ℕ} (capacity : ℕ)
    (typed : ∀ entry ∈ entries, keyTypeOf entry.1 = some kind)
    (capped : ∀ entry ∈ entries, entry.2.1 ≤ u64Max ∧ entry.2.2 ≤ u64Max)
    (totalCapped : total ≤ u64Max) (ceilingCapped : discardedMax ≤ u64Max) :
    ∃ payload, encodePayload rmp kind.name entries total discardedMax = .ok payload ∧
      (payload.length < 2 ^ 32 → ∃ state, decodePayload rmp kind.name capacity payload = .ok state ∧
        state.capacity = capacity ∧ state.total = total ∧ state.discardedMax = discardedMax ∧
        state.entries = entries) := by
  obtain ⟨keys, packing, wholes⟩ := mapM_packKey kind.name typed
  obtain ⟨payload, written⟩ := (roundTrips.payload kind).writes {
    keys := keys
    counts := entries.map fun entry => BitVec.ofNat 64 entry.2.1
    errors := entries.map fun entry => BitVec.ofNat 64 entry.2.2
    total := BitVec.ofNat 64 total
    discardedMax := BitVec.ofNat 64 discardedMax }
  refine ⟨payload, ?_, fun short => ?_⟩
  · simp only [encodePayload, WireKey.ofName_name, packing, bind, Except.bind]
    exact written
  · have read := (roundTrips.payload kind).reads _ payload written short
    have lengths : (keys.map kind.item).length = entries.length := by
      rw [wholes, List.length_map]
    let counts := entries.map fun entry => BitVec.ofNat 64 entry.2.1
    let errors := entries.map fun entry => BitVec.ofNat 64 entry.2.2
    let state : State := {
      capacity := capacity
      total := (BitVec.ofNat 64 total).toNat
      discardedMax := (BitVec.ofNat 64 discardedMax).toNat
      entries := zipEntries (keys.map kind.item) counts errors
      discardedMax_le := Nat.le_of_lt_succ (BitVec.ofNat 64 discardedMax).isLt
      entries_le := fun _ => count_le_of_mem_zipEntries }
    refine ⟨state, ?_, rfl, toNat_ofNat_of_le totalCapped, toNat_ofNat_of_le ceilingCapped, ?_⟩
    · simp only [decodePayload, WireKey.ofName_name, read, bind, Except.bind]
      rw [if_neg]
      · rfl
      · simp [lengths]
    · show zipEntries (keys.map kind.item) counts errors = entries
      rw [wholes]
      exact zipEntries_split capped

/-! ### The envelope -/

theorem wireKeyType_ok {kind : WireKey} {entries : List (HeapItem × ℕ × ℕ)}
    (typed : ∀ entry ∈ entries, keyTypeOf entry.1 = some kind) :
    ∃ named : WireKey, wireKeyType entries = .ok named.name ∧
      ∀ entry ∈ entries, keyTypeOf entry.1 = some named := by
  cases entries with
  | nil => exact ⟨.u64, rfl, fun entry member => absurd member List.not_mem_nil⟩
  | cons entry rest =>
    refine ⟨kind, ?_, typed⟩
    obtain ⟨key, count, error⟩ := entry
    have own : keyTypeOf key = some kind := typed (key, count, error) List.mem_cons_self
    simp only [wireKeyType, own]

/-- Triples of one variant are written as two blocks, and an envelope of the two reads back as the
state they were written from. -/
theorem decodeState_encodeBlocks (profile : HashProfile) {rmp : SpaceSavingRmp}
    (roundTrips : rmp.RoundTrips) (summary : SpaceSaving) {kind : WireKey}
    {entries : List (HeapItem × ℕ × ℕ)} (typed : ∀ entry ∈ entries, keyTypeOf entry.1 = some kind)
    (capped : ∀ entry ∈ entries, entry.2.1 ≤ u64Max ∧ entry.2.2 ≤ u64Max)
    (totalCapped : summary.total ≤ u64Max) (ceilingCapped : summary.discardedMax ≤ u64Max)
    (capacity : summary.capacity < 2 ^ 32) :
    ∃ metadata payload, encodeBlocks profile rmp summary entries = .ok (metadata, payload) ∧
      (metadata.length < 2 ^ 32 → payload.length < 2 ^ 32 →
        ∃ bytes state, Envelope.encode spaceSavingKind metadata payload = .ok bytes ∧
          decodeState profile rmp bytes = .ok state ∧ state.capacity = summary.capacity ∧
          state.total = summary.total ∧ state.discardedMax = summary.discardedMax ∧
          state.entries = entries) := by
  obtain ⟨named, naming, typedNamed⟩ := wireKeyType_ok typed
  have capacitySame : (BitVec.ofNat 32 summary.capacity).toNat = summary.capacity := by
    rw [BitVec.toNat_ofNat]
    exact Nat.mod_eq_of_lt capacity
  let described := spaceSavingMetadata profile (BitVec.ofNat 32 summary.capacity) named.name
  obtain ⟨metadata, described_eq⟩ := roundTrips.metadata.writes described
  obtain ⟨payload, packing, unpacking⟩ := decodePayload_encodePayload roundTrips named
    (BitVec.ofNat 32 summary.capacity).toNat typedNamed capped totalCapped ceilingCapped
  refine ⟨metadata, payload, ?_, fun metadataShort payloadShort => ?_⟩
  · simp only [encodeBlocks, naming, bind, Except.bind]
    rw [show rmp.metadata.toVec _ = _ from described_eq]
    simp only [packing]
    rfl
  · have kindShort : spaceSavingKind.length < 2 ^ 8 := by decide
    have framing := Envelope.encode_ok kindShort metadataShort payloadShort
    have parts := Envelope.split_encode kindShort metadataShort payloadShort framing
    have readMetadata := roundTrips.metadata.reads described metadata described_eq metadataShort
    obtain ⟨state, decoding, stateCapacity, rest⟩ := unpacking payloadShort
    have echoed : described = spaceSavingMetadata profile described.capacity described.keyType := rfl
    refine ⟨_, state, framing, ?_, stateCapacity.trans capacitySame, rest⟩
    simp only [decodeState, parts, Except.mapError, bind, Except.bind, readMetadata]
    rw [if_neg (not_not_intro rfl), if_neg (not_not_intro echoed)]
    exact decoding

/-! ### Every tree of operations -/

/-- Where counters are filed coherently, each exact key is monitored once. -/
theorem distinct_keys {H : SketchHasher} (coherent : H.Coherent) {flat : FlatSummary}
    (accounted : flat.Accounted H) (exact : ∀ counter ∈ flat.counters, counter.key.isExact = true)
    (tracked : ∀ key : DataInput, key.isExact = true →
      ∃ weight, flat.Tracks (H.hash64Seeded 0 key) key weight) :
    (flat.counters.map Counter.key).Nodup := by
  rw [List.nodup_iff_count_le_one]
  intro key
  by_cases held : key ∈ flat.counters.map Counter.key
  · obtain ⟨witness, memberWitness, witnessKey⟩ := List.mem_map.mp held
    let value := heapItemToSketchInput key
    have owned : inputToOwned value = key := inputToOwned_heapItemToSketchInput key
    have exactValue : value.isExact = true := by
      rw [DataInput.isExact, owned, ← witnessKey]
      exact exact witness memberWitness
    have digest : ∀ counter ∈ flat.counters, counter.key = key →
        counter.digest = H.hash64Seeded 0 value := by
      intro counter member same
      obtain ⟨source, sourceDigest, sourceKey⟩ := accounted.labelled counter member
      rw [sourceDigest, coherent, ← sourceKey, same, coherent, owned]
    have holding : flat.counters.filter (fun counter => counter.key == key) =
        flat.holding (H.hash64Seeded 0 value) value := by
      refine List.filter_congr fun counter member => ?_
      rw [Bool.eq_iff_iff, beq_iff_eq, decide_eq_true_eq, Counter.monitors_iff exactValue, owned]
      exact ⟨fun same => ⟨digest counter member same, same⟩, And.right⟩
    obtain ⟨weight, tracks⟩ := tracked value exactValue
    rw [List.count, List.countP_map, List.countP_eq_length_filter]
    show (flat.counters.filter fun counter => counter.key == key).length ≤ 1
    rw [holding]
    cases tracks with
    | held counter only lower upper => rw [only, List.length_singleton]
    | absent nothing ceiling =>
      rw [nothing]
      exact Nat.zero_le _
  · rw [List.count_eq_zero.mpr held]
    exact Nat.zero_le _

/-- A summary whose keys are all of one variant. -/
def Uniform (kind : WireKey) (summary : SpaceSaving) : Prop :=
  ∀ counter ∈ counters summary, keyTypeOf counter.key = some kind

def emitted (summary : SpaceSaving) : List (HeapItem × ℕ × ℕ) :=
  ((counters summary).map asTriple).mergeSort emittedLe

section Emitted

variable {summary : SpaceSaving}

theorem emitted_perm : (emitted summary).Perm ((counters summary).map asTriple) :=
  List.mergeSort_perm _ _

theorem exists_counter {entry : HeapItem × ℕ × ℕ} (member : entry ∈ emitted summary) :
    ∃ counter ∈ counters summary, asTriple counter = entry :=
  List.mem_map.mp (emitted_perm.subset member)

theorem keys_asTriple (held : List Counter) :
    (held.map asTriple).map Prod.fst = held.map Counter.key := by
  rw [List.map_map]
  rfl

theorem wireEntries_eq {other : SpaceSaving} {kind : WireKey} (represented : Represented other)
    (perm : (counters summary).Perm (counters other)) (uniform : Uniform kind summary)
    (distinct : ((counters summary).map Counter.key).Nodup) (unstable : SortOrder) :
    wireEntries unstable other = .ok (emitted summary) := by
  have triples : entries other = .ok ((counters other).map asTriple) :=
    entries_spec represented.structured
  have taken : ((counters summary).map asTriple).Perm
      (unstable.order ((counters other).map asTriple)) :=
    (perm.map asTriple).trans (unstable.perm _).symm
  have typed : ∀ entry ∈ (counters summary).map asTriple, keyTypeOf entry.1 = some kind := by
    intro entry member
    obtain ⟨counter, memberCounter, rfl⟩ := List.mem_map.mp member
    exact uniform counter memberCounter
  simp only [wireEntries, triples, bind, Except.bind]
  rw [← emitted_unique taken typed (keys_asTriple _ ▸ distinct)]
  rfl

/-- The state a decoder reads out of the bytes of a summary is one the rebuild takes back. -/
theorem acceptable_of_emitted {H : SketchHasher} {kind : WireKey} {state : State}
    (represented : Represented summary) (accounted : (flatten summary).Accounted H)
    (exact : kind.isExact = true) (uniform : Uniform kind summary)
    (distinct : ((counters summary).map Counter.key).Nodup)
    (capacity : state.capacity = summary.capacity) (total : state.total = summary.total)
    (discardedMax : state.discardedMax = summary.discardedMax)
    (entries : state.entries = emitted summary) : Acceptable state := by
  have bounded := represented.bounded
  have length : (emitted summary).length = (counters summary).length := by
    rw [emitted_perm.length_eq, List.length_map]
  refine ⟨?_, ?_, ?_, ?_, ?_, ?_, ?_, ?_⟩
  · rw [capacity]
    exact bounded.positive
  · rw [capacity, entries, length]
    exact bounded.room
  · intro entry member
    obtain ⟨counter, memberCounter, rfl⟩ := exists_counter (entries ▸ member)
    exact ⟨(bounded.counts counter memberCounter).1, bounded.errors counter memberCounter⟩
  · intro entry member
    obtain ⟨counter, memberCounter, rfl⟩ := exists_counter (entries ▸ member)
    exact WireKey.isExact_key (uniform counter memberCounter) exact
  · rw [entries, (emitted_perm.map Prod.fst).nodup_iff, keys_asTriple]
    exact distinct
  · intro entry member
    obtain ⟨counter, memberCounter, rfl⟩ := exists_counter (entries ▸ member)
    rw [discardedMax]
    exact bounded.ceiling counter memberCounter
  · intro nothing
    rw [discardedMax]
    have none_held : (counters summary).length = 0 := by
      rw [← length, ← entries, nothing]
      rfl
    exact accounted.quiet (List.eq_nil_of_length_eq_zero none_held)
  · have weights : ((emitted summary).map fun entry => entry.2.1 - entry.2.2).sum =
        (flatten summary).recordedWeight := by
      rw [(emitted_perm.map _).sum_eq, List.map_map]
      rfl
    rw [entries, weights, total]
    exact accounted.covered

theorem decodedCounter_asTriple {H : SketchHasher} (coherent : H.Coherent)
    (accounted : (flatten summary).Accounted H) :
    ((counters summary).map asTriple).map (decodedCounter H) = counters summary := by
  rw [List.map_map]
  refine (List.map_congr_left fun counter member => ?_).trans (List.map_id _)
  obtain ⟨value, digest, key⟩ := accounted.labelled counter member
  rw [coherent, ← key] at digest
  simp only [Function.comp_apply, decodedCounter, asTriple, id, ← digest]

end Emitted

end SpaceSaving

/-- Persistence: for every tree of operations, every exact variant of which all the monitored keys
are and every capacity a `u32` holds, the summary serializes if its blocks fit their lengths, the
bytes deserialize, the decoded summary answers every query as the original does, and it serializes
to the same bytes. -/
theorem space_saving_persists (H : SketchHasher) (coherent : H.Coherent) (profile : HashProfile)
    (rmp : SpaceSavingRmp) (roundTrips : rmp.RoundTrips) (tree : SummaryTree) :
    ∃ summary, tree.run H = .ok summary ∧ ∀ kind : WireKey, kind.isExact = true →
      SpaceSaving.Uniform kind summary → summary.capacity < 2 ^ 32 →
      ∀ unstable, SpaceSaving.FitsEnvelope profile rmp unstable summary →
        ∃ bytes decoded,
          SpaceSaving.serializeToBytes profile rmp unstable summary = .ok (.ok bytes) ∧
          SpaceSaving.deserializeFromBytes H profile rmp bytes = .ok (.ok decoded) ∧
          (∀ value, SpaceSaving.estimate H decoded value = SpaceSaving.estimate H summary value ∧
            SpaceSaving.error H decoded value = SpaceSaving.error H summary value ∧
            SpaceSaving.upperBound H decoded value = SpaceSaving.upperBound H summary value ∧
            SpaceSaving.isGuaranteed H decoded value = SpaceSaving.isGuaranteed H summary value) ∧
          SpaceSaving.minCount decoded = SpaceSaving.minCount summary ∧
          decoded.total = summary.total ∧ decoded.len = summary.len ∧
          decoded.capacity = summary.capacity ∧
          ∀ unstable', SpaceSaving.serializeToBytes profile rmp unstable' decoded =
            .ok (.ok bytes) := by
  obtain ⟨summary, running, represented, accounted⟩ := tree.run_accounted H
  obtain ⟨tracked, trackedRunning, -, tracks⟩ := tree.run_tracks H
  obtain rfl := Except.ok.inj (running.symm.trans trackedRunning)
  refine ⟨summary, running, fun kind exact uniform capacity unstable fits => ?_⟩
  have exactKeys : ∀ counter ∈ SpaceSaving.counters summary, counter.key.isExact = true :=
    fun counter member => WireKey.isExact_key (uniform counter member) exact
  have distinct : ((SpaceSaving.counters summary).map Counter.key).Nodup :=
    SpaceSaving.distinct_keys coherent accounted exactKeys fun key exactKey =>
      ⟨_, tracks key exactKey⟩
  have typed : ∀ entry ∈ SpaceSaving.emitted summary, keyTypeOf entry.1 = some kind := by
    intro entry member
    obtain ⟨counter, memberCounter, rfl⟩ := SpaceSaving.exists_counter member
    exact uniform counter memberCounter
  have capped : ∀ entry ∈ SpaceSaving.emitted summary, entry.2.1 ≤ u64Max ∧ entry.2.2 ≤ u64Max := by
    intro entry member
    obtain ⟨counter, memberCounter, rfl⟩ := SpaceSaving.exists_counter member
    have countCapped := (represented.bounded.counts counter memberCounter).2
    exact ⟨countCapped, (represented.bounded.errors counter memberCounter).trans countCapped⟩
  have emits := SpaceSaving.wireEntries_eq represented (List.Perm.refl _) uniform distinct
  obtain ⟨metadata, payload, blocks, framed⟩ := SpaceSaving.decodeState_encodeBlocks profile
    roundTrips summary typed capped accounted.capped represented.bounded.capped capacity
  obtain ⟨metadataShort, payloadShort⟩ := fits _ metadata payload (emits unstable) blocks
  obtain ⟨bytes, state, framing, decoding, stateCapacity, stateTotal, stateCeiling, stateEntries⟩ :=
    framed metadataShort payloadShort
  have acceptable := SpaceSaving.acceptable_of_emitted represented accounted exact uniform distinct
    stateCapacity stateTotal stateCeiling stateEntries
  obtain ⟨decoded, rebuilding, decodedRepresented, held, decodedCapacity, decodedTotal,
    decodedCeiling⟩ := SpaceSaving.rebuild_accepts H acceptable
  have perm : (SpaceSaving.counters summary).Perm (SpaceSaving.counters decoded) := by
    refine List.Perm.symm (held.trans ?_)
    rw [stateEntries]
    refine (SpaceSaving.emitted_perm.map _).trans ?_
    rw [SpaceSaving.decodedCounter_asTriple coherent accounted]
  have sameCapacity : summary.capacity = decoded.capacity := (decodedCapacity.trans stateCapacity).symm
  have sameTotal : decoded.total = summary.total := decodedTotal.trans stateTotal
  have sameCeiling : summary.discardedMax = decoded.discardedMax :=
    (decodedCeiling.trans stateCeiling).symm
  have sameBlocks : SpaceSaving.encodeBlocks profile rmp decoded (SpaceSaving.emitted summary) =
      .ok (metadata, payload) := by
    rw [← blocks, SpaceSaving.encodeBlocks, SpaceSaving.encodeBlocks, sameTotal, sameCapacity,
      sameCeiling]
  refine ⟨bytes, decoded, ?_, ?_, fun value => ?_, ?_, sameTotal, ?_, sameCapacity.symm,
    fun unstable' => ?_⟩
  · rw [SpaceSaving.serializeToBytes, if_neg (Nat.not_le.mpr capacity)]
    simp only [emits unstable, Except.mapError, bind, Except.bind, blocks, framing]
    rfl
  · simp only [SpaceSaving.deserializeFromBytes, decoding, rebuilding, bind, Except.bind,
      Except.mapError]
    rfl
  · obtain ⟨estimating, erring, bounding, guaranteeing⟩ := SpaceSaving.queries_congr represented
      decodedRepresented perm sameCapacity sameCeiling exactKeys distinct value
    exact ⟨estimating.symm, erring.symm, bounding.symm, guaranteeing.symm⟩
  · rw [SpaceSaving.minCount_spec decodedRepresented.structured decodedRepresented.bounded.positive,
      SpaceSaving.minCount_spec represented.structured represented.bounded.positive,
      SpaceSaving.minCount_congr perm sameCapacity sameCeiling]
  · rw [SpaceSaving.len, SpaceSaving.len, ← SpaceSaving.length_counters,
      ← SpaceSaving.length_counters, perm.length_eq]
  · rw [SpaceSaving.serializeToBytes, if_neg (Nat.not_le.mpr (sameCapacity ▸ capacity))]
    simp only [SpaceSaving.wireEntries_eq decodedRepresented perm uniform distinct unstable',
      Except.mapError, bind, Except.bind, sameBlocks, framing]
    rfl

def SpaceSaving.asTheyAre : SpaceSaving.SortOrder where
  order entries := entries
  perm _ := List.Perm.refl _

def onceTree (value : DataInput) : SummaryTree := .insertMany (.withCapacity 1) value 1

theorem onceTree_run (H : SketchHasher) (value : DataInput) :
    ∃ summary, (onceTree value).run H = .ok summary ∧
      counters summary = [.mk (inputToOwned value) (H.hash64Seeded 0 value) 1 0] ∧
      summary.capacity = 1 ∧ summary.total = 1 ∧ summary.discardedMax = 0 :=
  ⟨_, rfl, rfl, rfl, rfl, rfl⟩

def oncePayload {Key : Type} (key : Key) : SpaceSavingPayload Key where
  keys := [key]
  counts := [1]
  errors := [0]
  total := 1
  discardedMax := 0

theorem onceTree_blocks {H : SketchHasher} {value : DataInput} (kind : WireKey) (held : kind.Held)
    (owned : inputToOwned value = kind.item held)
    (typed : keyTypeOf (kind.item held) = some kind) {summary : SpaceSaving}
    (running : (onceTree value).run H = .ok summary) :
    wireEntries asTheyAre summary = .ok [(kind.item held, 1, 0)] ∧
      encodeBlocks defaultHashProfile messagePack summary
        [(kind.item held, 1, 0)] =
        .ok (metadataCodec.encode (spaceSavingMetadata defaultHashProfile 1 kind.name),
          (payloadCodec (keyCodec kind)).encode (oncePayload held)) := by
  obtain ⟨known, knownRunning, counters, capacity, total, discardedMax⟩ := onceTree_run H value
  obtain rfl := Except.ok.inj (running.symm.trans knownRunning)
  obtain ⟨run, runRunning, represented, -⟩ := (onceTree value).run_accounted H
  obtain rfl := Except.ok.inj (running.symm.trans runRunning)
  have entries : entries summary = .ok [(kind.item held, 1, 0)] := by
    rw [entries_spec represented.structured, counters, owned]
    rfl
  have packed : packKey kind.name kind (kind.item held, 1, 0) = .ok held := by
    simp only [packKey, WireKey.held_item]
  refine ⟨?_, ?_⟩
  · simp only [wireEntries, entries, bind, Except.bind]
    exact congrArg Except.ok (List.mergeSort_singleton _)
  · simp only [encodeBlocks, wireKeyType, typed, encodePayload,
      WireKey.ofName_name, List.mapM_cons, List.mapM_nil, packed, capacity, total, discardedMax,
      bind, Except.bind, pure, Except.pure]
    rfl

/-- A summary of one integer key survives the wire in MessagePack. -/
theorem space_saving_persists_once : ∃ summary bytes decoded,
    (onceTree (.i64 7)).run (defaultXxHasher plainXxHash) = .ok summary ∧
    SpaceSaving.serializeToBytes defaultHashProfile SpaceSaving.messagePack SpaceSaving.asTheyAre
      summary = .ok (.ok bytes) ∧
    SpaceSaving.deserializeFromBytes (defaultXxHasher plainXxHash) defaultHashProfile
      SpaceSaving.messagePack bytes = .ok (.ok decoded) ∧ decoded.total = summary.total := by
  obtain ⟨summary, running, persists⟩ := space_saving_persists (defaultXxHasher plainXxHash)
    (defaultXxHasher_coherent plainXxHash) defaultHashProfile SpaceSaving.messagePack
    SpaceSaving.messagePack_roundTrips (onceTree (.i64 7))
  obtain ⟨known, knownRunning, counters, capacity, -⟩ :=
    onceTree_run (defaultXxHasher plainXxHash) (.i64 7)
  obtain rfl := Except.ok.inj (running.symm.trans knownRunning)
  have uniform : SpaceSaving.Uniform .i64 summary := by
    intro counter member
    rw [counters] at member
    rw [List.mem_singleton.mp member]
    rfl
  have fits : SpaceSaving.FitsEnvelope defaultHashProfile SpaceSaving.messagePack
      SpaceSaving.asTheyAre summary := by
    intro entries metadata payload emits blocks
    obtain ⟨emitted, written⟩ := onceTree_blocks .i64 7#64 rfl rfl running
    obtain rfl := Except.ok.inj (emits.symm.trans emitted)
    obtain ⟨rfl, rfl⟩ := Prod.mk.inj (Except.ok.inj (blocks.symm.trans written))
    decide +kernel
  obtain ⟨bytes, decoded, writing, reading, -, -, total, -⟩ :=
    persists .i64 rfl uniform (by rw [capacity]; decide) SpaceSaving.asTheyAre fits
  exact ⟨summary, bytes, decoded, running, writing, reading, total⟩

/-- A byte string whose payload no `u32` length holds. -/
@[irreducible] def longKey : List UInt8 := List.replicate (2 ^ 32 - 1) 0

/-- A summary that monitors one such key panics where it is serialized. -/
theorem space_saving_panics_oversized :
    (defaultXxHasher plainXxHash).Coherent ∧ SpaceSaving.messagePack.RoundTrips ∧
      ∃ summary, (onceTree (.bytes longKey)).run (defaultXxHasher plainXxHash) = .ok summary ∧
        SpaceSaving.Uniform .bytes summary ∧ summary.capacity < 2 ^ 32 ∧
        SpaceSaving.serializeToBytes defaultHashProfile SpaceSaving.messagePack
          SpaceSaving.asTheyAre summary = .error (.expect "ASAPv1 payload too large") := by
  obtain ⟨summary, running, counters, capacity, -⟩ :=
    onceTree_run (defaultXxHasher plainXxHash) (.bytes longKey)
  obtain ⟨emitted, written⟩ := onceTree_blocks .bytes longKey rfl rfl running
  have large : 2 ^ 32 ≤ ((SpaceSaving.payloadCodec (SpaceSaving.keyCodec .bytes)).encode
      (oncePayload longKey)).length := by
    have length : longKey.length = 2 ^ 32 - 1 := by
      unfold longKey
      exact List.length_replicate
    have raw : longKey.flatMap Codec.byte.encode = longKey := List.flatMap_singleton' longKey
    have own : longKey.length ≤ (MessagePack.bin.encode longKey).length := by
      show longKey.length ≤ (MessagePack.binHeader.encode longKey.length ++
        longKey.flatMap Codec.byte.encode).length
      rw [raw, List.length_append]
      exact Nat.le_add_left _ _
    have listed := MessagePack.length_le_counted MessagePack.arrayHeader MessagePack.bin
      (List.mem_singleton.mpr (rfl : longKey = longKey))
    let word := MessagePack.unsigned 64 (by decide)
    let scalars := ((MessagePack.array word).pair ((MessagePack.array word).pair
      (word.pair word))).encode ([1], [0], 1, 0)
    have tag : (MessagePack.arrayHeader.encode 5).length = 1 := by decide
    show 2 ^ 32 ≤ (MessagePack.arrayHeader.encode 5 ++
      ((MessagePack.array MessagePack.bin).encode [longKey] ++ scalars)).length
    rw [List.length_append, List.length_append, tag, MessagePack.array]
    omega
  have short : (SpaceSaving.metadataCodec.encode
      (spaceSavingMetadata defaultHashProfile 1 (WireKey.name .bytes))).length < 2 ^ 32 := by
    decide +kernel
  have kindShort : spaceSavingKind.length < 2 ^ 8 := by decide
  refine ⟨defaultXxHasher_coherent plainXxHash, SpaceSaving.messagePack_roundTrips, summary,
    running, ?_, by rw [capacity]; decide, ?_⟩
  · intro counter member
    rw [counters] at member
    rw [List.mem_singleton.mp member]
    rfl
  · have small : ¬2 ^ 32 ≤ summary.capacity := by
      rw [capacity]
      decide
    rw [SpaceSaving.serializeToBytes, if_neg small]
    simp only [emitted, Except.mapError, bind, Except.bind]
    rw [show SpaceSaving.encodeBlocks _ _ _ _ = _ from written]
    simp only [Envelope.encode_oversized kindShort short large]
    rfl

end AsapSketchlib
