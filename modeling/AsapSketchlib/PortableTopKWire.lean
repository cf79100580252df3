/-
This file follows a portable composite of a sketch and a heap through its MessagePack form. With
cells and counts that an `f64` holds exactly, the decoded composite is the same exactly where the
top-k items fit the heap size and have positive counts. Decoding panics exactly where the matrix
cannot be reserved or a NaN is compared.
-/

import AsapSketchlib.PortableRoundTrips
import AsapSketchlib.PortableTopKTrees

namespace AsapSketchlib

open MatrixStorage

/-! ### Integers as floats -/

/-- An `f64` and an `i64` hold the integer. -/
def Representable (value : ℤ) : Prop :=
  F64.ofInt value = F64.finite value ∧ i64Min ≤ value ∧ value ≤ i64Max

instance (value : ℤ) : Decidable (Representable value) := inferInstanceAs (Decidable (_ ∧ _))

theorem floor_intCast_add_half (value : ℤ) : ⌊(value : ℚ) + 1 / 2⌋ = value := by
  rw [Int.floor_intCast_add, show ⌊(1 / 2 : ℚ)⌋ = 0 by norm_num, add_zero]

theorem ceil_intCast_sub_half (value : ℤ) : ⌈(value : ℚ) - 1 / 2⌉ = value := by
  rw [sub_eq_add_neg, Int.ceil_intCast_add, show ⌈(-(1 / 2) : ℚ)⌉ = 0 by norm_num, add_zero]

namespace WithHeap

theorem weightOf_ofInt {value : ℤ} (representable : Representable value) :
    weightOf (F64.ofInt value) = value := by
  obtain ⟨exactly, low, high⟩ := representable
  have rounded : (F64.finite (value : ℚ)).roundAway = F64.finite value := by
    rw [F64.roundAway, floor_intCast_add_half, ceil_intCast_sub_half, ite_self]
  rw [weightOf, exactly, rounded]
  show f64AsI64 (value : ℚ) = value
  unfold f64AsI64
  rw [Int.floor_intCast, Int.ceil_intCast, ite_self, min_eq_right high, max_eq_right low]

theorem ofInt_ne_nan (value : ℤ) : F64.ofInt value ≠ F64.nan := by
  unfold F64.ofInt F64.round
  split
  · exact fun impossible => F64.noConfusion impossible
  · exact fun impossible => F64.noConfusion impossible

/-! ### Decoding -/

/-- What decoding does not panic on: a matrix that can be reserved, and no NaN among two or more
items. -/
def Decodable (wire : WithHeapWire) : Prop :=
  Reservable wire.sketch.rows wire.sketch.cols ∧
    (2 ≤ wire.topkHeap.length → ∀ item ∈ wire.topkHeap, item.value ≠ F64.nan)

variable {xxh : XxHash3} {debug : HeapItem → String}

theorem fromFn_spec {rows cols : ℕ} (reservable : Reservable rows cols) (f : ℕ → ℕ → ℤ) :
    ∃ counts, fromFn rows cols f = some counts ∧ Shaped rows cols counts ∧
      ∀ r < rows, ∀ c < cols, counts.queryOneCounter r c = f r c := by
  refine ⟨_, if_pos reservable, ⟨rfl, rfl, fun _ _ same => (vector2D.inj same).2.symm⟩,
    fun r rowInside c colInside => ?_⟩
  have each : ∀ r, ((List.range cols).map fun c => f r c).length = cols :=
    fun _ => (List.length_map _).trans List.length_range
  show (((List.range rows).flatMap fun r => (List.range cols).map fun c => f r c)[r * cols + c]?).getD
    0 = f r c
  rw [getElem?_flatMap_range each rowInside colInside, List.getElem?_map,
    List.getElem?_range colInside]
  rfl

theorem sortedByValue_spec {items : List WireHeapItem}
    (comparable : 2 ≤ items.length → ∀ item ∈ items, item.value ≠ F64.nan) :
    ∃ sorted, sortedByValue items = some sorted ∧ sorted.Perm items := by
  refine ⟨_, if_neg ?_, List.perm_insertionSort _ items⟩
  rintro ⟨several, item, member, nan⟩
  exact comparable several item member nan

theorem fromWire_isSome_iff (wire : WithHeapWire) :
    (fromWire xxh wire).isSome = true ↔ Decodable wire := by
  refine ⟨fun decoding => ?_, fun ⟨reservable, comparable⟩ => ?_⟩
  · obtain ⟨decoded, decoding⟩ := Option.isSome_iff_exists.mp decoding
    obtain ⟨sorted, sorting, rest⟩ := Option.bind_eq_some_iff.mp decoding
    obtain ⟨backend, backendEq, -⟩ := Option.map_eq_some_iff.mp rest
    obtain ⟨counts, making, -⟩ := Option.map_eq_some_iff.mp backendEq
    refine ⟨?_, fun several item member nan => ?_⟩
    · by_contra unreserved
      rw [fromFn, if_neg unreserved] at making
      exact absurd making (Option.some_ne_none counts).symm
    · rw [sortedByValue, if_pos ⟨several, item, member, nan⟩] at sorting
      exact absurd sorting (Option.some_ne_none sorted).symm
  · obtain ⟨sorted, sorting, -⟩ := sortedByValue_spec comparable
    obtain ⟨counts, making, -⟩ := fromFn_spec reservable
      fun r c => weightOf (wireCell wire.sketch.sketch r c)
    rw [fromWire, sorting, Option.bind_some, fromMatrixAndHeap, making]
    rfl

/-! ### Offering decoded items -/

def hhItem (item : WireHeapItem) : HHItem := ⟨HeapItem.string item.key, weightOf item.value⟩

/-- A resident after decoding is an item with a positive count. -/
theorem mem_foldl_offerItem (items : List WireHeapItem) {heap : HHHeap}
    (ofTexts : HHHeap.OfTexts xxh heap) :
    HHHeap.OfTexts xxh (items.foldl (offerItem xxh) heap) ∧
      (items.foldl (offerItem xxh) heap).k = heap.k ∧
      ∀ resident ∈ (items.foldl (offerItem xxh) heap).heap, resident ∈ heap.heap ∨
        0 < resident.count ∧ ∃ item ∈ items, resident = hhItem item := by
  induction items generalizing heap with
  | nil => exact ⟨ofTexts, rfl, fun resident member => Or.inl member⟩
  | cons item rest hypothesis =>
    rw [List.foldl_cons]
    unfold offerItem
    dsimp only
    by_cases counted : 0 < weightOf item.value
    · rw [if_pos counted]
      obtain ⟨afterTexts, capacity, flag, offered⟩ :=
        @HHHeap.OfTexts.update xxh heap ofTexts (.str item.key) item.key rfl (weightOf item.value)
      obtain ⟨later, laterCapacity, residents⟩ := hypothesis afterTexts
      refine ⟨later, laterCapacity.trans capacity, fun resident member => ?_⟩
      rcases residents resident member with here | ⟨positive, other, inRest, same⟩
      · have single : HHHeap.Single heap := fun key _ => List.nodup_iff_count_le_one.mp
          ofTexts.kept.distinct key
        rcases offered.mem_cases single here with rfl | ⟨before, -⟩
        · exact Or.inr ⟨counted, item, List.mem_cons_self, rfl⟩
        · exact Or.inl before
      · exact Or.inr ⟨positive, other, List.mem_cons_of_mem item inRest, same⟩
    · rw [if_neg counted]
      obtain ⟨later, capacity, residents⟩ := hypothesis ofTexts
      refine ⟨later, capacity, fun resident member => ?_⟩
      rcases residents resident member with here | ⟨positive, other, inRest, same⟩
      · exact Or.inl here
      · exact Or.inr ⟨positive, other, List.mem_cons_of_mem item inRest, same⟩

/-- Where there is room, all items of distinct keys are seated. -/
theorem perm_foldl_offerItem {items : List WireHeapItem} {heap : HHHeap}
    (ofTexts : HHHeap.OfTexts xxh heap)
    (positive : ∀ item ∈ items, 0 < weightOf item.value)
    (room : heap.heap.length + items.length ≤ heap.k)
    (distinct : (items.map fun item => HeapItem.string item.key).Nodup)
    (fresh : ∀ item ∈ items, HeapItem.string item.key ∉ HHHeap.keys heap) :
    (items.foldl (offerItem xxh) heap).heap.Perm (items.map hhItem ++ heap.heap) := by
  induction items generalizing heap with
  | nil => exact List.Perm.refl _
  | cons item rest hypothesis =>
    obtain ⟨firstPositive, restPositive⟩ := List.forall_mem_cons.mp positive
    obtain ⟨firstFresh, restFresh⟩ := List.forall_mem_cons.mp fresh
    obtain ⟨apart, restDistinct⟩ := List.nodup_cons.mp distinct
    rw [List.length_cons] at room
    have here : heap.heap.length < heap.k := by omega
    obtain ⟨afterTexts, capacity, flag, offered⟩ :=
      @HHHeap.OfTexts.update xxh heap ofTexts (.str item.key) item.key rfl (weightOf item.value)
    -- The key is not resident and there is room, so the item gets a place of its own.
    have seated : (HHHeap.update xxh heap (.str item.key) (weightOf item.value)).1.heap.Perm
        (hhItem item :: heap.heap) := by
      cases offered with
      | rescored idx resident residentEq same _ =>
        exact absurd (same ▸ List.mem_map_of_mem (List.mem_of_getElem? residentEq)) firstFresh
      | seated _ _ perm => exact perm
      | displaced _ full _ _ _ _ _ => exact absurd full (Nat.ne_of_lt here)
      | refused _ full _ _ => exact absurd full (Nat.ne_of_lt here)
    rw [List.foldl_cons]
    unfold offerItem
    dsimp only
    rw [if_pos firstPositive]
    have later := hypothesis afterTexts restPositive
      (by rw [seated.length_eq, List.length_cons, capacity]; omega) restDistinct
      (fun other member held => by
        rcases List.mem_cons.mp ((seated.map HHItem.key).mem_iff.mp held) with same | old
        · exact apart (List.mem_map.mpr ⟨other, member, same⟩)
        · exact restFresh other member old)
    refine later.trans ?_
    rw [List.map_cons, List.cons_append]
    exact (seated.append_left _).trans List.perm_middle

/-! ### The round trip -/

/-- An `f64` holds every cell and every count. -/
structure Exact (sketch : WithHeap) : Prop where
  cells : ∀ row < sketch.rows, ∀ col < sketch.cols,
    Representable (sketch.counts.queryOneCounter row col)
  counts : ∀ item ∈ sketch.heap.heap, Representable item.count

instance (sketch : WithHeap) : Decidable (Exact sketch) :=
  decidable_of_iff ((∀ row < sketch.rows, ∀ col < sketch.cols,
      Representable (sketch.counts.queryOneCounter row col)) ∧
    ∀ item ∈ sketch.heap.heap, Representable item.count)
    ⟨fun both => ⟨both.1, both.2⟩, fun exact => ⟨exact.cells, exact.counts⟩⟩

/-- A composite that is told apart from another by nothing that it answers. -/
structure SameAs (counting : Counting) (debug : HeapItem → String) (sketch decoded : WithHeap) :
    Prop where
  rows : decoded.rows = sketch.rows
  cols : decoded.cols = sketch.cols
  heapSize : decoded.heapSize = sketch.heapSize
  matrix : decoded.sketchMatrix = sketch.sketchMatrix
  items : ∀ item, item ∈ decoded.topkHeapItems debug ↔ item ∈ sketch.topkHeapItems debug
  estimates : ∀ key, decoded.estimate counting key = sketch.estimate counting key

def Survives (counting : Counting) (xxh : XxHash3) (debug : HeapItem → String)
    (rmp : RmpSerde WithHeapWire) (sketch : WithHeap) : Prop :=
  ∃ bytes decoded, sketch.toMsgpack debug rmp = .ok bytes ∧
    fromMsgpack xxh rmp bytes = some (.ok decoded) ∧ SameAs counting debug sketch decoded

/-- The top-k items fit the heap size and have positive counts. -/
structure Carried (sketch : WithHeap) : Prop where
  fits : sketch.heap.heap.length ≤ sketch.heapSize
  positive : ∀ item ∈ sketch.heap.heap, 0 < item.count

variable {counting : Counting} {numRows numCols smallest : ℕ} {sketch : WithHeap}

theorem hhItem_wireItem (ofTexts : HHHeap.OfTexts xxh sketch.heap) (exact : sketch.Exact)
    {item : HHItem} (member : item ∈ sketch.heap.heap) :
    hhItem (wireItem debug item) = item := by
  obtain ⟨text, keyEq⟩ := ofTexts.texts item.key (List.mem_map_of_mem member)
  have key : wireKey debug item.key = text := by rw [keyEq]; rfl
  rw [hhItem, wireItem, key, ← keyEq, weightOf_ofInt (exact.counts item member)]

theorem weightOf_wireCell (shaped : Shaped numRows numCols sketch.counts)
    {r c : ℕ} (rowInside : r < numRows) (colInside : c < numCols)
    (representable : Representable (sketch.counts.queryOneCounter r c)) :
    weightOf (wireCell sketch.sketchMatrix r c) = sketch.counts.queryOneCounter r c := by
  have row : r < sketch.counts.rows := shaped.rows.symm ▸ rowInside
  have col : c < sketch.counts.cols := shaped.cols.symm ▸ colInside
  have cell : wireCell sketch.sketchMatrix r c =
      F64.ofInt (sketch.counts.queryOneCounter r c) := by
    rw [wireCell, sketchMatrix, List.getElem?_map, List.getElem?_range row, Option.map_some,
      Option.bind_some, List.getElem?_map, List.getElem?_range col, Option.map_some,
      Option.getD_some, shaped.queryOneCounter?_eq rowInside colInside]
  rw [cell, weightOf_ofInt representable]

/-- What decoding the wire form of a composite gives. -/
structure Decoded (xxh : XxHash3) (debug : HeapItem → String) (numRows numCols : ℕ)
    (sketch decoded : WithHeap) : Prop where
  rows : decoded.rows = numRows
  cols : decoded.cols = numCols
  heapSize : decoded.heapSize = sketch.heapSize
  shaped : Shaped numRows numCols decoded.counts
  cells : ∀ row < numRows, ∀ col < numCols,
    decoded.counts.queryOneCounter row col = sketch.counts.queryOneCounter row col
  heap : ∃ sorted : List WireHeapItem, sorted.Perm (sketch.topkHeapItems debug) ∧
    decoded.heap = sorted.foldl (offerItem xxh) (HHHeap.new sketch.heapSize)

theorem Held.fromWire_toWire (held : Held xxh numRows numCols smallest sketch)
    (exact : sketch.Exact) (debug : HeapItem → String) :
    ∃ decoded, fromWire xxh (sketch.toWire debug) = some decoded ∧
      Decoded xxh debug numRows numCols sketch decoded := by
  have comparable : 2 ≤ (sketch.topkHeapItems debug).length →
      ∀ item ∈ sketch.topkHeapItems debug, item.value ≠ F64.nan := by
    intro _ item member
    obtain ⟨entry, -, rfl⟩ := List.mem_map.mp member
    exact ofInt_ne_nan entry.count
  obtain ⟨sorted, sorting, perm⟩ := sortedByValue_spec comparable
  obtain ⟨counts, making, shaped, cells⟩ := fromFn_spec held.reservable
    fun r c => weightOf (wireCell sketch.sketchMatrix r c)
  have decoding : fromWire xxh (sketch.toWire debug) = some ⟨numRows, numCols, sketch.heapSize,
      counts, sorted.foldl (offerItem xxh) (HHHeap.new sketch.heapSize)⟩ := by
    rw [fromWire]
    show (sortedByValue (sketch.topkHeapItems debug)).bind _ = _
    rw [sorting, Option.bind_some]
    show (fromMatrixAndHeap xxh sketch.rows sketch.cols sketch.heapSize sketch.sketchMatrix
      sorted).map _ = _
    rw [held.rows, held.cols, fromMatrixAndHeap, making]
    rw [Option.map_some, Option.map_some, toWire, held.rows, held.cols]
  refine ⟨_, decoding, rfl, rfl, rfl, shaped, fun row rowInside col colInside => ?_, sorted, perm,
    rfl⟩
  rw [cells row rowInside col colInside]
  exact weightOf_wireCell held.shaped rowInside colInside
    (exact.cells row (held.rows.symm ▸ rowInside) col (held.cols.symm ▸ colInside))

section

variable {decoded : WithHeap} (held : Held xxh numRows numCols smallest sketch)
  (exact : sketch.Exact) (outcome : Decoded xxh debug numRows numCols sketch decoded)

include held exact outcome

theorem Decoded.residents :
    decoded.heap.heap.length ≤ sketch.heapSize ∧
      ∀ resident ∈ decoded.heap.heap, 0 < resident.count ∧ resident ∈ sketch.heap.heap := by
  obtain ⟨sorted, perm, heapEq⟩ := outcome.heap
  obtain ⟨afterTexts, capacity, residents⟩ := mem_foldl_offerItem sorted
    (@HHHeap.ofTexts_new xxh sketch.heapSize)
  rw [← heapEq] at afterTexts capacity residents
  refine ⟨afterTexts.kept.indexed.bounded.trans_eq capacity, fun resident member => ?_⟩
  rcases residents resident member with impossible | ⟨positive, item, inSorted, rfl⟩
  · exact absurd impossible List.not_mem_nil
  · obtain ⟨entry, inHeap, rfl⟩ := List.mem_map.mp (perm.mem_iff.mp inSorted)
    rw [hhItem_wireItem held.ofTexts exact inHeap] at positive ⊢
    exact ⟨positive, inHeap⟩

theorem Decoded.carried (same : SameAs counting debug sketch decoded) : Carried sketch := by
  obtain ⟨bounded, residents⟩ := outcome.residents held exact
  have kept : ∀ item ∈ sketch.heap.heap, item ∈ decoded.heap.heap := by
    intro item member
    obtain ⟨other, inDecoded, wireEq⟩ :=
      List.mem_map.mp ((same.items (wireItem debug item)).mpr (List.mem_map_of_mem member))
    have itself : other = item := by
      rw [← hhItem_wireItem held.ofTexts exact (residents other inDecoded).2, wireEq,
        hhItem_wireItem held.ofTexts exact member]
    exact itself ▸ inDecoded
  have distinct : sketch.heap.heap.Nodup := held.ofTexts.kept.distinct.of_map
  exact ⟨(distinct.subperm kept).length_le.trans bounded,
    fun item member => (residents item (kept item member)).1⟩

end

theorem Carried.sameAs {decoded : WithHeap} (carried : Carried sketch)
    (lawful : counting.Lawful numRows numCols)
    (held : Held xxh numRows numCols smallest sketch) (exact : sketch.Exact)
    (outcome : Decoded xxh debug numRows numCols sketch decoded) :
    SameAs counting debug sketch decoded := by
  obtain ⟨sorted, perm, heapEq⟩ := outcome.heap
  have entries : (sketch.topkHeapItems debug).map hhItem = sketch.heap.heap := by
    rw [topkHeapItems, heapToWire, List.map_map]
    refine (List.map_congr_left fun item member => ?_).trans (List.map_id _)
    exact hhItem_wireItem held.ofTexts exact member
  have sortedEntries : (sorted.map hhItem).Perm sketch.heap.heap :=
    (perm.map hhItem).trans (List.Perm.of_eq entries)
  have inHeap : ∀ item ∈ sorted, hhItem item ∈ sketch.heap.heap := fun item member =>
    sortedEntries.mem_iff.mp (List.mem_map_of_mem member)
  have distinct : (sorted.map fun item => HeapItem.string item.key).Nodup := by
    have keysPerm := sortedEntries.map HHItem.key
    rw [List.map_map] at keysPerm
    exact keysPerm.nodup_iff.mpr held.ofTexts.kept.distinct
  have seated : decoded.heap.heap.Perm sketch.heap.heap := by
    have offered := perm_foldl_offerItem (@HHHeap.ofTexts_new xxh sketch.heapSize)
      (fun item member => carried.positive (hhItem item) (inHeap item member))
      (by
        rw [show (HHHeap.new sketch.heapSize).heap = [] from rfl, List.length_nil, Nat.zero_add,
          ← List.length_map hhItem, sortedEntries.length_eq]
        exact carried.fits)
      distinct fun _ _ => List.not_mem_nil
    rw [← heapEq, show (HHHeap.new sketch.heapSize).heap = [] from rfl, List.append_nil] at offered
    exact offered.trans sortedEntries
  refine ⟨outcome.rows.trans held.rows.symm, outcome.cols.trans held.cols.symm, outcome.heapSize,
    ?_, fun item => (seated.map (wireItem debug)).mem_iff, fun key => ?_⟩
  · rw [sketchMatrix, sketchMatrix, outcome.shaped.rows, outcome.shaped.cols, held.shaped.rows,
      held.shaped.cols]
    refine List.map_congr_left fun r rowMember => List.map_congr_left fun c colMember => ?_
    have rowInside := List.mem_range.mp rowMember
    have colInside := List.mem_range.mp colMember
    rw [outcome.shaped.queryOneCounter?_eq rowInside colInside,
      held.shaped.queryOneCounter?_eq rowInside colInside,
      outcome.cells r rowInside c colInside]
  · exact lawful.reads decoded.counts sketch.counts outcome.shaped held.shaped outcome.cells
      (.string key)

theorem Held.survives_iff (lawful : counting.Lawful numRows numCols)
    (held : Held xxh numRows numCols smallest sketch) (exact : sketch.Exact)
    {rmp : RmpSerde WithHeapWire} (trips : Portable.RoundTrips rmp (sketch.toWire debug)) :
    Survives counting xxh debug rmp sketch ↔ Carried sketch := by
  obtain ⟨bytes, written, read⟩ := trips
  obtain ⟨decoded, decoding, outcome⟩ := held.fromWire_toWire exact debug
  have reading : fromMsgpack xxh rmp bytes = some (.ok decoded) := by
    simp only [fromMsgpack, read, decoding, Option.map_some]
  refine ⟨?_, fun carried => ⟨bytes, decoded, written, reading,
    carried.sameAs lawful held exact outcome⟩⟩
  rintro ⟨otherBytes, other, otherWritten, otherReading, same⟩
  obtain rfl : bytes = otherBytes := Except.ok.inj (written.symm.trans otherWritten)
  obtain rfl : decoded = other :=
    Except.ok.inj (Option.some.inj (reading.symm.trans otherReading))
  exact outcome.carried held exact same

/-! ### Counts of Count-Min -/

section CountMin

variable {other after : WithHeap} {counts : MatrixStorage}

def columnOf (xxh : XxHash3) (numRows numCols : ℕ) (key : HeapItem) : ℕ → ℕ :=
  ((UpdatePath.regular (defaultXxHasher xxh)).address numRows numCols
    (heapItemToSketchInput key)).column

/-- What Count-Min keeps: no cell is negative, and those of a resident are positive. -/
structure Positive (xxh : XxHash3) (numRows numCols : ℕ) (sketch : WithHeap) : Prop where
  cells : ∀ row < numRows, ∀ col < numCols, 0 ≤ sketch.counts.queryOneCounter row col
  residents : ∀ key ∈ HHHeap.keys sketch.heap, ∀ row < numRows,
    0 < sketch.counts.queryOneCounter row (columnOf xxh numRows numCols key row)
  counts : ∀ item ∈ sketch.heap.heap, 0 < item.count

theorem heapCount_pos (positive : 0 < numCols) (shaped : Shaped numRows numCols counts)
    {text : String} (cells : ∀ row < numRows,
      0 < counts.queryOneCounter row (columnOf xxh numRows numCols (.string text) row))
    {input : DataInput} (owned : inputToOwned input = HeapItem.string text) {count : ℤ}
    (counted : (Counting.cmsHeap xxh).heapCount counts input = some count) : 0 < count := by
  obtain ⟨⟨row, inside, rfl⟩, -⟩ := @Stored.CountMin.isLeast_estimate
    (.regular (defaultXxHasher xxh)) _ _ ⟨counts⟩ shaped positive _ _ counted
  have sameColumn : ((UpdatePath.regular (defaultXxHasher xxh)).address numRows numCols
      input).column row = columnOf xxh numRows numCols (.string text) row := by
    show lower32Col (hash64Seeded xxh row input) numCols =
      lower32Col (hash64Seeded xxh row (.str text)) numCols
    rw [hash64Seeded_eq, hash64Seeded_eq, owned]
    rfl
  rw [Stored.CountMin.addressed, sameColumn]
  exact cells row inside

theorem cells_insertMany (positive : 0 < numCols) (shaped : Shaped numRows numCols counts)
    {key : DataInput} {many : ℤ} {result : MatrixStorage}
    (inserted : (Counting.cmsHeap xxh).insertMany counts key many = some result) :
    ∀ row < numRows, ∀ col < numCols, result.queryOneCounter row col =
      counts.queryOneCounter row col +
        countMinTerm (.regular (defaultXxHasher xxh)) numRows numCols key many row col := by
  obtain ⟨expected, inserting, -, cells⟩ :=
    (Stored.CountMin.linear (.regular (defaultXxHasher xxh)) .vector2D numRows
      positive).insert_spec ⟨counts⟩ key many shaped rfl
  have same : some expected.counts = some result :=
    (congrArg (Option.map Stored.CountMin.counts) inserting).symm.trans inserted
  exact Option.some.inj same ▸ cells

theorem cells_mergeCounts {theirs result : MatrixStorage} (shaped : Shaped numRows numCols counts)
    (otherShaped : Shaped numRows numCols theirs)
    (merged : (Counting.cmsHeap xxh).mergeCounts counts theirs = some result) :
    ∀ row < numRows, ∀ col < numCols, result.queryOneCounter row col =
      counts.queryOneCounter row col + theirs.queryOneCounter row col := by
  obtain ⟨expected, merging, -, cells⟩ :=
    @Stored.CountMin.merge_spec ⟨counts⟩ ⟨theirs⟩ _ _ shaped otherShaped
  have same : some expected.counts = some result :=
    (congrArg (Option.map Stored.CountMin.counts) merging).symm.trans merged
  exact Option.some.inj same ▸ cells

theorem positive_new {heapSize : ℕ} (ran : new numRows numCols heapSize = some sketch) :
    Positive xxh numRows numCols sketch := by
  obtain ⟨-, heapEq, countsEq⟩ := held_new xxh ran
  refine ⟨fun row _ col _ => ?_, fun key member => ?_, fun item member => ?_⟩
  · rw [countsEq, queryOneCounter_newVector2D]
  · rw [heapEq] at member
    exact absurd member List.not_mem_nil
  · rw [heapEq] at member
    exact absurd member List.not_mem_nil

theorem Positive.update (columns : 0 < numCols)
    (held : Held xxh numRows numCols smallest sketch)
    (positive : Positive xxh numRows numCols sketch) {key : String} {value : F64}
    (ran : sketch.update (Counting.cmsHeap xxh) xxh key value = some after) :
    Positive xxh numRows numCols after := by
  rcases held.update_cases (Counting.lawful_cmsHeap xxh numRows columns) ran with
    ⟨-, rfl⟩ | ⟨many, counts, count, updated⟩
  · exact positive
  · have cells := cells_insertMany columns held.shaped updated.inserted
    have countsEq : after.counts = counts := by rw [updated.outcome]
    have added : ∀ row col, 0 ≤ countMinTerm (.regular (defaultXxHasher xxh)) numRows numCols
        (.string key) (weightOf value) row col := by
      intro row col
      unfold countMinTerm
      split
      · exact many.le
      · exact le_rfl
    have grown : ∀ row < numRows, ∀ col < numCols,
        sketch.counts.queryOneCounter row col ≤ after.counts.queryOneCounter row col := by
      intro row rowInside col colInside
      rw [countsEq, cells row rowInside col colInside]
      exact le_add_of_nonneg_right (added row col)
    have inside : ∀ key row, columnOf xxh numRows numCols key row < numCols := fun key row =>
      UpdatePath.address_lt _ numRows columns _ row
    have reached : ∀ row < numRows, 0 < after.counts.queryOneCounter row
        (columnOf xxh numRows numCols (.string key) row) := by
      intro row rowInside
      rw [countsEq, cells row rowInside _ (inside _ row)]
      refine add_pos_of_nonneg_of_pos (positive.cells row rowInside _ (inside _ row)) ?_
      have same : ((UpdatePath.regular (defaultXxHasher xxh)).address numRows numCols
          (.string key)).column row = columnOf xxh numRows numCols (.string key) row := rfl
      rw [countMinTerm, if_pos same]
      exact many
    have counted : 0 < count :=
      heapCount_pos columns updated.shaped (countsEq ▸ reached) rfl updated.counted
    obtain ⟨flag, offered⟩ := updated.offered.offered
    have single : HHHeap.Single sketch.heap := fun other _ => List.nodup_iff_count_le_one.mp
      held.ofTexts.kept.distinct other
    refine ⟨fun row rowInside col colInside => (positive.cells row rowInside col colInside).trans
      (grown row rowInside col colInside), fun other member row rowInside => ?_,
      fun item member => ?_⟩
    · obtain ⟨item, resident, rfl⟩ := List.mem_map.mp member
      rcases offered.mem_cases single resident with rfl | ⟨before, -⟩
      · exact reached row rowInside
      · exact (positive.residents item.key (List.mem_map_of_mem before) row rowInside).trans_le
          (grown row rowInside _ (inside _ row))
    · rcases offered.mem_cases single member with rfl | ⟨before, -⟩
      · exact counted
      · exact positive.counts item before

theorem Positive.merge {smallest' : ℕ} (columns : 0 < numCols)
    (held : Held xxh numRows numCols smallest sketch)
    (otherHeld : Held xxh numRows numCols smallest' other)
    (positive : Positive xxh numRows numCols sketch)
    (otherPositive : Positive xxh numRows numCols other)
    (ran : (sketch.merge (Counting.cmsHeap xxh) xxh other).bind Except.toOption = some after) :
    Positive xxh numRows numCols after := by
  obtain ⟨counts, estimate, merged⟩ :=
    held.merge_cases (Counting.lawful_cmsHeap xxh numRows columns) otherHeld ran
  have cells := cells_mergeCounts held.shaped otherHeld.shaped merged.merged
  have countsEq : after.counts = counts := by rw [merged.outcome]
  have inside : ∀ key row, columnOf xxh numRows numCols key row < numCols := fun key row =>
    UpdatePath.address_lt _ numRows columns _ row
  have reached : ∀ key ∈ HHHeap.keys sketch.heap ++ HHHeap.keys other.heap, ∀ row < numRows,
      0 < after.counts.queryOneCounter row (columnOf xxh numRows numCols key row) := by
    intro key member row rowInside
    rw [countsEq, cells row rowInside _ (inside key row)]
    rcases List.mem_append.mp member with mine | theirs
    · exact add_pos_of_pos_of_nonneg (positive.residents key mine row rowInside)
        (otherPositive.cells row rowInside _ (inside key row))
    · exact add_pos_of_nonneg_of_pos (positive.cells row rowInside _ (inside key row))
        (otherPositive.residents key theirs row rowInside)
  refine ⟨fun row rowInside col colInside => ?_,
    fun key member => reached key (merged.holds.known key member), fun item member => ?_⟩
  · rw [countsEq, cells row rowInside col colInside]
    exact add_nonneg (positive.cells row rowInside col colInside)
      (otherPositive.cells row rowInside col colInside)
  · have resident : item.key ∈ HHHeap.keys after.heap := List.mem_map_of_mem member
    obtain ⟨text, keyEq⟩ := merged.ofTexts.texts item.key resident
    have candidate := merged.holds.known item.key resident
    have cellsOf := reached item.key candidate
    rw [keyEq, countsEq] at cellsOf
    rw [merged.holds.counted item member]
    refine heapCount_pos columns merged.shaped cellsOf ?_ (merged.counted item.key candidate)
    rw [inputToOwned_heapItemToSketchInput, keyEq]

theorem positive_of_run {tree : WithHeapTree} {sketch : WithHeap} (columns : 0 < numCols)
    (ran : tree.run (Counting.cmsHeap xxh) xxh numRows numCols = some sketch) :
    Positive xxh numRows numCols sketch := by
  have lawful := Counting.lawful_cmsHeap xxh numRows columns
  induction tree generalizing sketch with
  | new heapSize => exact positive_new ran
  | update tree key value hypothesis =>
    obtain ⟨before, ranBefore, updating⟩ := Option.bind_eq_some_iff.mp ran
    exact (hypothesis ranBefore).update columns
      (WithHeapTree.held_of_run lawful ranBefore) updating
  | merge left right leftHypothesis rightHypothesis =>
    obtain ⟨mine, ranLeft, rest⟩ := Option.bind_eq_some_iff.mp ran
    obtain ⟨theirs, ranRight, merging⟩ := Option.bind_eq_some_iff.mp rest
    exact Positive.merge columns (WithHeapTree.held_of_run lawful ranLeft)
      (WithHeapTree.held_of_run lawful ranRight) (leftHypothesis ranLeft)
      (rightHypothesis ranRight) merging

end CountMin

theorem fromMsgpack_isSome_iff (rmp : RmpSerde WithHeapWire) (bytes : List UInt8) :
    (fromMsgpack xxh rmp bytes).isSome = true ↔
      ∀ wire, rmp.fromSlice bytes = .ok wire → Decodable wire := by
  unfold fromMsgpack
  cases read : rmp.fromSlice bytes with
  | error error => exact iff_of_true rfl fun wire impossible => nomatch impossible
  | ok wire =>
    have same : ((fromWire xxh wire).map Except.ok : Option (Except RmpDecodeError WithHeap)).isSome
        = (fromWire xxh wire).isSome := Option.isSome_map
    rw [same, fromWire_isSome_iff]
    exact ⟨fun decodable other otherRead => Except.ok.inj otherRead ▸ decodable,
      fun all => all wire rfl⟩

end WithHeap

/-! ### The composites -/

/-- What a composite keeps over every tree, and when. -/
structure KeepsTopK (counting : Counting) (xxh : XxHash3) (debug : HeapItem → String)
    (rmp : RmpSerde WithHeapWire) : Prop where
  /-- Every tree over matrices that have a row and can be reserved runs. -/
  runs : ∀ rows cols tree, 0 < rows → Reservable rows cols →
    ∃ sketch, WithHeapTree.run counting xxh rows cols tree = some sketch
  /-- The heap size is the smallest of the operands. -/
  smallest : ∀ rows cols tree sketch,
    WithHeapTree.run counting xxh rows cols tree = some sketch → sketch.heapSize = tree.smallest
  /-- Where every step meets its condition, no composite has more items than its heap size. -/
  bounded : ∀ rows cols tree, Reservable rows cols →
    WithHeapTree.Fitting counting xxh rows cols tree →
      WithHeapTree.Bounded counting xxh rows cols tree
  /-- With a row, nowhere else. -/
  fitting : ∀ rows cols tree, 0 < rows → Reservable rows cols →
    WithHeapTree.Bounded counting xxh rows cols tree →
      WithHeapTree.Fitting counting xxh rows cols tree
  /-- A composite survives the wire exactly where it has no more items than its heap size and their
  counts are positive. -/
  survives : ∀ rows cols tree sketch,
    WithHeapTree.run counting xxh rows cols tree = some sketch → sketch.Exact →
      Portable.RoundTrips rmp (sketch.toWire debug) →
        (sketch.Survives counting xxh debug rmp ↔ sketch.Carried)

theorem keepsTopK_of_lawful {counting : Counting} {xxh : XxHash3}
    (lawful : ∀ rows cols, 0 < cols → counting.Lawful rows cols) (debug : HeapItem → String)
    (rmp : RmpSerde WithHeapWire) : KeepsTopK counting xxh debug rmp where
  runs := fun rows cols tree row reservable =>
    WithHeapTree.exists_run (lawful rows cols (Nat.pos_of_ne_zero reservable.1)) row reservable tree
  smallest := fun rows cols _ _ ran =>
    (WithHeapTree.held_of_run (lawful rows cols
      (Nat.pos_of_ne_zero (WithHeapTree.reservable_of_run ran).1)) ran).smallest
  bounded := fun rows cols _ reservable fitting =>
    fitting.bounded (lawful rows cols (Nat.pos_of_ne_zero reservable.1))
  fitting := fun rows cols _ row reservable bounded =>
    bounded.fitting (lawful rows cols (Nat.pos_of_ne_zero reservable.1)) row
  survives := by
    intro rows cols tree sketch ran exact trips
    have law := lawful rows cols (Nat.pos_of_ne_zero (WithHeapTree.reservable_of_run ran).1)
    exact (WithHeapTree.held_of_run law ran).survives_iff law exact trips

/-- Both composites have no more items than their heap size where every step of the tree meets its
condition, and survive the wire where these items have positive counts, as those of Count-Min always
have. Decoding panics exactly where it must. -/
theorem top_k_composites_iff (xxh : XxHash3) (debug : HeapItem → String)
    (rmp : RmpSerde WithHeapWire) :
    KeepsTopK (Counting.cmsHeap xxh) xxh debug rmp ∧
      KeepsTopK (Counting.csHeap xxh) xxh debug rmp ∧
      (∀ rows cols tree sketch,
        WithHeapTree.run (Counting.cmsHeap xxh) xxh rows cols tree = some sketch →
          ∀ item ∈ sketch.heap.heap, 0 < item.count) ∧
      ∀ bytes, (WithHeap.fromMsgpack xxh rmp bytes).isSome = true ↔
        ∀ wire, rmp.fromSlice bytes = .ok wire → WithHeap.Decodable wire :=
  ⟨keepsTopK_of_lawful (fun rows _ positive => Counting.lawful_cmsHeap xxh rows positive) debug rmp,
    keepsTopK_of_lawful (fun rows _ positive => Counting.lawful_csHeap xxh rows positive) debug rmp,
    fun _ _ _ _ ran => (WithHeap.positive_of_run
      (Nat.pos_of_ne_zero (WithHeapTree.reservable_of_run ran).1) ran).counts,
    WithHeap.fromMsgpack_isSome_iff rmp⟩

/-! ### Small trees -/

def smallReceiver : WithHeapTree := .merge (.update (.new 1) "a" (F64.ofInt 3)) (.new 2)

def largeReceiver : WithHeapTree :=
  .merge (.update (.update (.new 2) "a" F64.one) "b" F64.one) (.new 1)

/-- Two keys whose signs differ share a counter. -/
def oppositeSigns : WithHeapTree :=
  .update (.update (.new 2) "aaaaaaé" (F64.ofInt 5)) "a" F64.one

def nanWire : WithHeapWire := ⟨⟨[], 1, 1⟩, [⟨"a", F64.nan⟩, ⟨"b", F64.nan⟩], 2⟩

theorem exists_run_of_any {counting : Counting} {xxh : XxHash3} {rows cols : ℕ}
    {tree : WithHeapTree} {fact : WithHeap → Prop} [DecidablePred fact]
    (evaluated : ((tree.run counting xxh rows cols).any fun sketch => fact sketch) = true) :
    ∃ sketch, tree.run counting xxh rows cols = some sketch ∧ fact sketch := by
  obtain ⟨sketch, ran, holds⟩ := Option.any_eq_true _ _ |>.mp evaluated
  exact ⟨sketch, ran, of_decide_eq_true holds⟩

/-- A merge into the smaller operand survives the wire. -/
theorem top_k_composites_small : ∃ sketch rmp,
    smallReceiver.run (Counting.cmsHeap plainXxHash) plainXxHash 1 2 = some sketch ∧
      sketch.heapSize = 1 ∧ sketch.Survives (Counting.cmsHeap plainXxHash) plainXxHash
        (fun _ => "") rmp := by
  obtain ⟨sketch, ran, exact, fits⟩ :
      ∃ sketch, smallReceiver.run (Counting.cmsHeap plainXxHash) plainXxHash 1 2 = some sketch ∧
        sketch.Exact ∧ sketch.heap.heap.length ≤ sketch.heapSize :=
    exists_run_of_any (by decide +kernel)
  have trips : Portable.RoundTrips
      (Portable.singleRmp (sketch.toWire fun _ => "") [1]) (sketch.toWire fun _ => "") :=
    Portable.roundTrips_singleRmp _ _
  obtain ⟨keeps, -, positive, -⟩ := top_k_composites_iff plainXxHash (fun _ => "")
    (Portable.singleRmp (sketch.toWire fun _ => "") [1])
  exact ⟨sketch, _, ran, keeps.smallest 1 2 smallReceiver sketch ran,
    (keeps.survives 1 2 smallReceiver sketch ran exact trips).mpr
      ⟨fits, positive 1 2 smallReceiver sketch ran⟩⟩

/-- A merge into the larger operand has more items than its heap size and loses one on the wire, a
Count sketch loses a key whose estimate is negative, and two NaNs stop the decoder. -/
theorem top_k_composites_lose :
    (∃ sketch rmp,
      largeReceiver.run (Counting.cmsHeap plainXxHash) plainXxHash 1 2 = some sketch ∧
        sketch.Exact ∧ Portable.RoundTrips rmp (sketch.toWire fun _ => "") ∧
        sketch.heapSize < (sketch.topkHeapItems fun _ => "").length ∧
        ¬sketch.Survives (Counting.cmsHeap plainXxHash) plainXxHash (fun _ => "") rmp) ∧
    (∃ sketch rmp,
      oppositeSigns.run (Counting.csHeap plainXxHash) plainXxHash 1 1 = some sketch ∧
        sketch.Exact ∧ Portable.RoundTrips rmp (sketch.toWire fun _ => "") ∧
        ¬sketch.Survives (Counting.csHeap plainXxHash) plainXxHash (fun _ => "") rmp) ∧
    WithHeap.fromMsgpack plainXxHash (Portable.singleRmp nanWire [1]) [1] = none := by
  refine ⟨?_, ?_, ?_⟩
  · obtain ⟨sketch, ran, exact, exceeds⟩ :
        ∃ sketch, largeReceiver.run (Counting.cmsHeap plainXxHash) plainXxHash 1 2 = some sketch ∧
          sketch.Exact ∧ sketch.heapSize < sketch.heap.heap.length :=
      exists_run_of_any (by decide +kernel)
    have trips := Portable.roundTrips_singleRmp (sketch.toWire fun _ => "") [1]
    have law := Counting.lawful_cmsHeap plainXxHash 1 (show 0 < 2 by decide)
    refine ⟨sketch, _, ran, exact, trips, ?_, fun survives => ?_⟩
    · rw [WithHeap.topkHeapItems, WithHeap.heapToWire, List.length_map]
      exact exceeds
    · exact absurd (((WithHeapTree.held_of_run law ran).survives_iff law exact trips).mp
        survives).fits (not_le.mpr exceeds)
  · obtain ⟨sketch, ran, exact, negative⟩ :
        ∃ sketch, oppositeSigns.run (Counting.csHeap plainXxHash) plainXxHash 1 1 = some sketch ∧
          sketch.Exact ∧ ¬∀ item ∈ sketch.heap.heap, 0 < item.count :=
      exists_run_of_any (by decide +kernel)
    have trips := Portable.roundTrips_singleRmp (sketch.toWire fun _ => "") [1]
    have law := Counting.lawful_csHeap plainXxHash 1 (show 0 < 1 by decide)
    exact ⟨sketch, _, ran, exact, trips, fun survives => negative
      (((WithHeapTree.held_of_run law ran).survives_iff law exact trips).mp survives).positive⟩
  · rfl

end AsapSketchlib
