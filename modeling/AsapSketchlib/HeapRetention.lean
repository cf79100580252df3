/-
This file proves what the flag returned by the heavy-hitter heap means over a whole run.
The flag of one offer is true for a key that is already resident even after earlier keys
were turned away, so only the conjunction of all flags since the last clear says anything:
it is true exactly when every key offered since then is still in the heap.
-/

import AsapSketchlib.HHHeap

namespace AsapSketchlib

/-! ### A bounded set that is offered keys -/

/-- The keys a set bounded by `capacity` keeps of those offered, beside a flag. While the flag is
up nothing was lost; it comes down only once more distinct keys than fit were offered. -/
structure Retention {Key : Type} [DecidableEq Key] (capacity : ℕ) (offered kept : List Key)
    (complete : Bool) : Prop where
  distinct : kept.Nodup
  subset : ∀ key ∈ kept, key ∈ offered
  bounded : kept.length ≤ capacity
  whole : complete = true → ∀ key ∈ offered, key ∈ kept
  exceeded : complete = false → capacity < offered.toFinset.card

namespace Retention

variable {Key : Type} [DecidableEq Key] {capacity : ℕ} {offered kept kept' : List Key}
  {complete : Bool}

theorem empty (capacity : ℕ) : Retention capacity ([] : List Key) [] true where
  distinct := List.nodup_nil
  subset := fun _ member => member
  bounded := Nat.zero_le capacity
  whole := fun _ _ member => member
  exceeded := fun impossible => absurd impossible.symm Bool.false_ne_true

theorem card_le_cons (offered : List Key) (key : Key) :
    offered.toFinset.card ≤ (key :: offered).toFinset.card := by
  rw [List.toFinset_cons]
  exact Finset.card_le_card (Finset.subset_insert key _)

section

variable (retention : Retention capacity offered kept complete)

include retention

theorem of_perm (perm : kept'.Perm kept) :
    Retention capacity offered kept' complete where
  distinct := perm.nodup_iff.mpr retention.distinct
  subset := fun key member => retention.subset key (perm.mem_iff.mp member)
  bounded := perm.length_eq.trans_le retention.bounded
  whole := fun up key member => perm.mem_iff.mpr (retention.whole up key member)
  exceeded := retention.exceeded

theorem again {key : Key} (member : key ∈ kept) :
    Retention capacity (key :: offered) kept complete where
  distinct := retention.distinct
  subset := fun other inKept => List.mem_cons_of_mem key (retention.subset other inKept)
  bounded := retention.bounded
  whole := by
    intro up other inOffered
    rcases List.mem_cons.mp inOffered with rfl | earlier
    · exact member
    · exact retention.whole up other earlier
  exceeded := fun down => (retention.exceeded down).trans_le (card_le_cons offered key)

variable {key : Key} (fresh : key ∉ kept)

include fresh

theorem grow (room : kept.length < capacity) :
    Retention capacity (key :: offered) (key :: kept) complete where
  distinct := List.nodup_cons.mpr ⟨fresh, retention.distinct⟩
  subset := by
    intro other inKept
    rcases List.mem_cons.mp inKept with rfl | earlier
    · exact List.mem_cons_self
    · exact List.mem_cons_of_mem key (retention.subset other earlier)
  bounded := room
  whole := by
    intro up other inOffered
    rcases List.mem_cons.mp inOffered with rfl | earlier
    · exact List.mem_cons_self
    · exact List.mem_cons_of_mem key (retention.whole up other earlier)
  exceeded := fun down => (retention.exceeded down).trans_le (card_le_cons offered key)

theorem card_of_full (full : kept.length = capacity) :
    capacity < (key :: offered).toFinset.card := by
  have inside : (key :: kept).toFinset ⊆ (key :: offered).toFinset := by
    intro other member
    rw [List.mem_toFinset] at member ⊢
    rcases List.mem_cons.mp member with rfl | earlier
    · exact List.mem_cons_self
    · exact List.mem_cons_of_mem key (retention.subset other earlier)
  have counted := Finset.card_le_card inside
  rw [List.toFinset_card_of_nodup (List.nodup_cons.mpr ⟨fresh, retention.distinct⟩),
    List.length_cons, full] at counted
  exact counted

theorem refuse (full : kept.length = capacity) :
    Retention capacity (key :: offered) kept false where
  distinct := retention.distinct
  subset := fun other inKept => List.mem_cons_of_mem key (retention.subset other inKept)
  bounded := retention.bounded
  whole := fun impossible => absurd impossible Bool.false_ne_true
  exceeded := fun _ => retention.card_of_full fresh full

end

theorem displace {gone : Key} {rest : List Key}
    (retention : Retention capacity offered (gone :: rest) complete) {key : Key}
    (fresh : key ∉ gone :: rest) (full : (gone :: rest).length = capacity) :
    Retention capacity (key :: offered) (key :: rest) false where
  distinct := List.nodup_cons.mpr ⟨fun member => fresh (List.mem_cons_of_mem gone member),
    (List.nodup_cons.mp retention.distinct).2⟩
  subset := by
    intro other inKept
    rcases List.mem_cons.mp inKept with rfl | earlier
    · exact List.mem_cons_self
    · exact List.mem_cons_of_mem key (retention.subset other (List.mem_cons_of_mem gone earlier))
  bounded := full.le
  whole := fun impossible => absurd impossible Bool.false_ne_true
  exceeded := fun _ => retention.card_of_full fresh full

theorem complete_iff (retention : Retention capacity offered kept complete) :
    complete = true ↔ ∀ key ∈ offered, key ∈ kept := by
  refine ⟨retention.whole, fun allKept => ?_⟩
  cases flag : complete with
  | true => rfl
  | false =>
    have inside : offered.toFinset ⊆ kept.toFinset := fun key member =>
      List.mem_toFinset.mpr (allKept key (List.mem_toFinset.mp member))
    have fewer := (retention.exceeded flag).trans_le (Finset.card_le_card inside)
    rw [List.toFinset_card_of_nodup retention.distinct] at fewer
    exact absurd retention.bounded (Nat.not_le.mpr fewer)

end Retention

/-! ### The heap as such a set -/

namespace HHHeap

variable {xxh : XxHash3}

theorem keys_set {heap : HHHeap} {idx : ℕ} {item : HHItem} (resident : heap.heap[idx]? = some item)
    (count : ℤ) : (heap.heap.set idx ⟨item.key, count⟩).map HHItem.key = keys heap := by
  rw [List.map_set, keys]
  refine List.ext_getElem? fun place => ?_
  by_cases here : idx = place
  · rw [← here, List.getElem?_set_self', List.getElem?_map, resident]
    rfl
  · rw [List.getElem?_set_ne here]

/-- One offer of a key that equals itself, or was not offered before. -/
theorem Offered.retention {before after : HHHeap} {key : HeapItem} {count : ℤ} {kept : Bool}
    (offer : Offered before key count after kept) {offered : List HeapItem}
    (known : key.isNan = false ∨ key ∉ offered) {complete : Bool}
    (retention : Retention before.k offered (keys before) complete) :
    Retention before.k (key :: offered) (keys after) (complete && kept) := by
  have freshIf : (key.isNan = false → key ∉ keys before) → key ∉ keys before := fun absent =>
    known.elim absent fun new resident => new (retention.subset key resident)
  cases offer with
  | rescored idx item resident same perm =>
    subst same
    have member : item.key ∈ keys before :=
      List.mem_map.mpr ⟨item, List.mem_of_getElem? resident, rfl⟩
    rw [Bool.and_true]
    refine (retention.again member).of_perm ?_
    exact keys_set resident count ▸ perm.map HHItem.key
  | seated absent room perm =>
    rw [Bool.and_true]
    refine (retention.grow (freshIf absent) ?_).of_perm (perm.map HHItem.key)
    rw [keys, List.length_map]
    exact room
  | displaced absent full root rest split beaten perm =>
    have keysSplit : keys before = root.key :: rest.map HHItem.key := by
      rw [keys, split, List.map_cons]
    rw [Bool.and_false]
    have fresh := freshIf absent
    rw [keysSplit] at retention fresh
    refine (retention.displace fresh ?_).of_perm (perm.map HHItem.key)
    rw [← keysSplit, keys, List.length_map, full]
  | refused absent full unchanged low =>
    rw [Bool.and_false, unchanged]
    refine retention.refuse (freshIf absent) ?_
    rw [keys, List.length_map, full]

/-! ### Runs -/

/-- An operation that changes a heap. -/
inductive HeapOp where
  | update (key : DataInput) (count : ℤ)
  | updateHeapItem (key : HeapItem) (count : ℤ)
  | clear

/-- A heap under observation: the keys offered since the last clear, and the conjunction of the
flags returned since then. -/
structure Observed where
  heap : HHHeap
  offered : List HeapItem
  complete : Bool

def observedNew (k : ℕ) : Observed := ⟨new k, [], true⟩

def observe (xxh : XxHash3) (state : Observed) : HeapOp → Observed
  | .update key count =>
    let (heap, kept) := update xxh state.heap key count
    ⟨heap, inputToOwned key :: state.offered, state.complete && kept⟩
  | .updateHeapItem key count =>
    let (heap, kept) := updateHeapItem xxh state.heap key count
    ⟨heap, key :: state.offered, state.complete && kept⟩
  | .clear => ⟨clear state.heap, [], true⟩

/-- What holds of an observed heap to which no NaN was offered since the last clear. -/
def Sound (xxh : XxHash3) (k : ℕ) (state : Observed) : Prop :=
  Indexed xxh state.heap ∧ state.heap.k = k ∧
    ((∀ key ∈ state.offered, key.isNan = false) →
      Retention k state.offered (keys state.heap) state.complete)

theorem sound_updateHeapItem {k : ℕ} {state : Observed} (sound : Sound xxh k state)
    (key : HeapItem) (count : ℤ) : Sound xxh k (observe xxh state (.updateHeapItem key count)) := by
  obtain ⟨indexed, capacity, retention⟩ := sound
  obtain ⟨offer, indexed', capacity'⟩ := updateHeapItem_spec indexed key count
  refine ⟨indexed', capacity'.trans capacity, fun numbers => ?_⟩
  subst capacity
  exact offer.retention (Or.inl (numbers key List.mem_cons_self))
    (retention fun other member => numbers other (List.mem_cons_of_mem key member))

theorem sound_observe {k : ℕ} {state : Observed} (sound : Sound xxh k state) (op : HeapOp) :
    Sound xxh k (observe xxh state op) := by
  cases op with
  | update key count =>
    have owned : observe xxh state (.update key count) =
        observe xxh state (.updateHeapItem (inputToOwned key) count) := by
      simp only [observe, update_eq_updateHeapItem]
    exact owned ▸ sound_updateHeapItem sound (inputToOwned key) count
  | updateHeapItem key count => exact sound_updateHeapItem sound key count
  | clear =>
    obtain ⟨indexed, rfl, retention⟩ := sound
    exact ⟨indexed_new state.heap.k, rfl, fun _ => Retention.empty state.heap.k⟩

theorem sound_run (k : ℕ) (ops : List HeapOp) :
    Sound xxh k (ops.foldl (observe xxh) (observedNew k)) := by
  have start : Sound xxh k (observedNew k) :=
    ⟨indexed_new k, rfl, fun _ => Retention.empty k⟩
  generalize observedNew k = state at start
  induction ops generalizing state with
  | nil => exact start
  | cons op rest hypothesis => exact hypothesis _ (sound_observe start op)

/-- Over every run, the conjunction of the flags since the last clear is up exactly when every key
offered since then is found in the heap. -/
theorem complete_iff_found (k : ℕ) (ops : List HeapOp)
    (numbers : ∀ key ∈ (ops.foldl (observe xxh) (observedNew k)).offered, key.isNan = false) :
    (ops.foldl (observe xxh) (observedNew k)).complete = true ↔
      ∀ key ∈ (ops.foldl (observe xxh) (observedNew k)).offered,
        (findHeapItem xxh (ops.foldl (observe xxh) (observedNew k)).heap key).isSome = true := by
  obtain ⟨indexed, -, retention⟩ := (sound_run k ops : Sound xxh k _)
  rw [(retention numbers).complete_iff]
  refine forall_congr' fun key => forall_congr' fun member => ?_
  rw [findHeapItem_isSome indexed key (numbers key member)]

end HHHeap

end AsapSketchlib
