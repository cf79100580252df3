/-
This file proves what tumbling windows over the folding sketches answer. Whatever the times and
the flushes, each of the three queries answers every key as one fresh sketch would that was fed
with the inserts of the retained windows alone, and no answer depends on the pool.
-/

import AsapSketchlib.FoldTrees
import AsapSketchlib.TumblingWindows

namespace AsapSketchlib

open TumblingWindow

/-! ### Recycled sketches -/

namespace FoldSketch

/-- The operations of both sketches, for an insert and a query of their own. -/
def tumbling (xxh : XxHash3) (feed : FoldSketch → DataInput → ℤ → FoldSketch)
    (query : FoldSketch → DataInput → ℤ) : TumblingWindowSketch FoldSketch FoldConfig where
  fromConfig config := new config.rows config.fullCols config.foldLevel config.topK
  tumblingInsert := feed
  tumblingMerge := mergeSameLevel xxh query
  tumblingClear := clear

theorem new_eq_emptyAt {rows fullCols foldLevel topK : ℕ} {sketch : FoldSketch}
    (accepted : new rows fullCols foldLevel topK = some sketch) :
    sketch = emptyAt rows fullCols foldLevel topK := by
  unfold new at accepted
  split at accepted
  case isFalse => exact absurd accepted (by simp)
  split at accepted
  case isFalse => exact absurd accepted (by simp)
  exact (Option.some.inj accepted).symm

/-- What a fed sketch keeps of the sketch it was fed into. -/
structure SameShape (sketch other : FoldSketch) : Prop where
  rows : other.rows = sketch.rows
  foldCols : other.foldCols = sketch.foldCols
  fullCols : other.fullCols = sketch.fullCols
  foldLevel : other.foldLevel = sketch.foldLevel
  size : other.cells.length = sketch.cells.length
  capacity : other.heap.k = sketch.heap.k

theorem clear_emptyAt {rows fullCols foldLevel topK : ℕ} {sketch : FoldSketch}
    (same : SameShape (emptyAt rows fullCols foldLevel topK) sketch) :
    clear sketch = emptyAt rows fullCols foldLevel topK := by
  obtain ⟨sketchRows, sketchFoldCols, sketchFullCols, sketchLevel, cells, heap⟩ := sketch
  obtain ⟨sameRows, sameFoldCols, sameFullCols, sameLevel, size, capacity⟩ := same
  simp only [emptyAt] at sameRows sameFoldCols sameFullCols sameLevel
  subst sameRows sameFoldCols sameFullCols sameLevel
  have sized : cells.length = sketchRows * sketchFullCols >>> sketchLevel :=
    size.trans List.length_replicate
  have topped : heap.k = topK := capacity
  unfold clear emptyAt
  rw [HHHeap.clear_eq_new]
  simp only [sized, topped]

/-- What the two sketches share: an insert adds a delta of its own in each row, and a query is an
estimate from what the key reads in each row. -/
structure Kind (hasher : SketchHasher) (deltaOf : ℕ → DataInput → ℤ → ℤ)
    (feed : FoldSketch → DataInput → ℤ → FoldSketch) (query : FoldSketch → DataInput → ℤ)
    (estimate : ℕ → DataInput → (ℕ → ℤ) → ℤ) : Prop where
  inserts : InsertsAs hasher deltaOf feed
  capacity : ∀ sketch key delta, (feed sketch key delta).heap.k = sketch.heap.k
  reads : ∀ sketch key,
    query sketch key = estimate sketch.rows key (rowCount hasher sketch key)
  rowwise : ∀ rows key valueOf valueOf', (∀ row < rows, valueOf row = valueOf' row) →
    estimate rows key valueOf = estimate rows key valueOf'

section Kind

variable {hasher : SketchHasher} {deltaOf : ℕ → DataInput → ℤ → ℤ}
  {feed : FoldSketch → DataInput → ℤ → FoldSketch} {query : FoldSketch → DataInput → ℤ}
  {estimate : ℕ → DataInput → (ℕ → ℤ) → ℤ} {xxh : XxHash3}

section

variable (kind : Kind hasher deltaOf feed query estimate)

include kind

theorem Kind.sameShape {start sketch : FoldSketch} (same : SameShape start sketch) (key : DataInput)
    (delta : ℤ) : SameShape start (feed sketch key delta) := by
  have grid := kind.inserts sketch key delta
  refine ⟨grid.rows.symm.trans same.rows, grid.foldCols.symm.trans same.foldCols,
    grid.fullCols.symm.trans same.fullCols, grid.foldLevel.symm.trans same.foldLevel, ?_,
    (kind.capacity sketch key delta).trans same.capacity⟩
  rw [← grid.cells, ← same.size]
  exact Grid.length_updateRows _ _ _ _ _

theorem Kind.recycles {rows fullCols foldLevel topK : ℕ} {fresh : FoldSketch}
    (accepted : new rows fullCols foldLevel topK = some fresh) (stream : List (DataInput × ℤ)) :
    clear (feedAll (tumbling xxh feed query) fresh stream) = fresh := by
  rw [new_eq_emptyAt accepted]
  refine clear_emptyAt ?_
  have kept : ∀ sketch, SameShape (emptyAt rows fullCols foldLevel topK) sketch →
      SameShape (emptyAt rows fullCols foldLevel topK)
        (stream.foldl (fun sketch entry => feed sketch entry.1 entry.2) sketch) := by
    induction stream with
    | nil => exact fun sketch same => same
    | cons entry rest hypothesis =>
      exact fun sketch same => hypothesis _ (kind.sameShape same entry.1 entry.2)
  exact kept _ ⟨rfl, rfl, rfl, rfl, rfl, rfl⟩

theorem Kind.query_eq {rows fullCols foldLevel otherLevel : ℕ} {sketch other : FoldSketch}
    {total : ℕ → ℕ → ℤ} (holds : Holds rows fullCols foldLevel sketch total)
    (otherHolds : Holds rows fullCols otherLevel other total) (key : DataInput) :
    query sketch key = query other key := by
  rw [kind.reads, kind.reads, holds.rowsEq, otherHolds.rowsEq]
  refine kind.rowwise rows key _ _ fun row rowInside => ?_
  have sameCol : fullColFor hasher sketch row key = fullColFor hasher other row key := by
    unfold fullColFor
    rw [holds.colsEq, otherHolds.colsEq]
  unfold rowCount
  rw [sameCol]
  exact (holds.answers row rowInside _).trans (otherHolds.answers row rowInside _).symm

end

/-! ### Totals of the retained windows -/

/-- What a stream adds to the flat counter of a row and a full column. -/
def streamTotal (hasher : SketchHasher) (deltaOf : ℕ → DataInput → ℤ → ℤ) (fullCols : ℕ)
    (stream : List (DataInput × ℤ)) (row col : ℕ) : ℤ :=
  (stream.map fun entry => insertTotal hasher deltaOf fullCols entry.1 entry.2 row col).sum

theorem streamTotal_split {log : List WindowEvent} {chosen first second : WindowEvent → Bool}
    (split : ∀ event ∈ log, (chosen event = true ↔ first event = true ∨ second event = true) ∧
      ¬(first event = true ∧ second event = true)) (fullCols row col : ℕ) :
    streamTotal hasher deltaOf fullCols (streamOf chosen log) row col =
      streamTotal hasher deltaOf fullCols (streamOf first log) row col +
        streamTotal hasher deltaOf fullCols (streamOf second log) row col := by
  induction log with
  | nil => rfl
  | cons event rest hypothesis =>
    have restSplit := hypothesis fun other member =>
      split other (List.mem_cons_of_mem event member)
    obtain ⟨either, notBoth⟩ := split event List.mem_cons_self
    unfold streamTotal streamOf at restSplit ⊢
    rw [List.filter_cons, List.filter_cons, List.filter_cons]
    by_cases inFirst : first event = true
    · have inSecond : ¬second event = true := fun both => notBoth ⟨inFirst, both⟩
      rw [if_pos (either.mpr (Or.inl inFirst)), if_pos inFirst, if_neg inSecond, List.map_cons,
        List.map_cons, List.map_cons, List.map_cons, List.sum_cons, List.sum_cons, restSplit,
        add_assoc]
    · by_cases inSecond : second event = true
      · rw [if_pos (either.mpr (Or.inr inSecond)), if_neg inFirst, if_pos inSecond, List.map_cons,
          List.map_cons, List.map_cons, List.map_cons, List.sum_cons, List.sum_cons, restSplit,
          add_left_comm]
      · have neither : ¬chosen event = true := fun inEither =>
          (either.mp inEither).elim inFirst inSecond
        rw [if_neg neither, if_neg inFirst, if_neg inSecond, restSplit]

/-- The active window and a number of windows before it add what each of them adds. -/
theorem streamTotal_recentStream {log : List WindowEvent} {activeWindowId : ℕ}
    (past : ∀ event ∈ log, event.window ≤ activeWindowId) {count : ℕ}
    (few : count ≤ activeWindowId) (fullCols row col : ℕ) :
    streamTotal hasher deltaOf fullCols
        (recentStream activeWindowId count log) row col =
      streamTotal hasher deltaOf fullCols (windowStream activeWindowId log) row col +
        ((List.range' (activeWindowId - count) count).map fun windowId =>
          streamTotal hasher deltaOf fullCols
            (windowStream windowId log) row col).sum := by
  induction count with
  | zero =>
    have same : recentStream activeWindowId 0 log =
        windowStream activeWindowId log := by
      unfold recentStream windowStream streamOf
      congr 1
      refine List.filter_congr fun event member => ?_
      rw [add_zero, decide_eq_decide]
      exact ⟨fun later => le_antisymm (past event member) later, fun same => same.ge⟩
    rw [same]
    exact (add_zero _).symm
  | succ count hypothesis =>
    have oldest : activeWindowId - (count + 1) + 1 = activeWindowId - count := by omega
    have split : streamTotal hasher deltaOf fullCols
        (recentStream activeWindowId (count + 1) log) row col =
          streamTotal hasher deltaOf fullCols
            (recentStream activeWindowId count log) row col +
          streamTotal hasher deltaOf fullCols
            (windowStream (activeWindowId - (count + 1)) log) row col := by
      refine streamTotal_split (fun event _ => ?_) fullCols row col
      simp only [decide_eq_true_eq]
      omega
    rw [split, hypothesis (Nat.le_of_succ_le few), List.range'_succ, oldest, List.map_cons,
      List.sum_cons]
    ring

/-! ### The three queries -/

variable {config : FoldConfig} {fresh : FoldSketch}

section

variable (kind : Kind hasher deltaOf feed query estimate) (xxh : XxHash3)
  (accepted : new config.rows config.fullCols config.foldLevel config.topK = some fresh)

include kind accepted

theorem Kind.feedAll_holds (stream : List (DataInput × ℤ)) :
    Holds config.rows config.fullCols config.foldLevel
      (feedAll (tumbling xxh feed query) fresh stream)
      (streamTotal hasher deltaOf config.fullCols stream) :=
  ((holds_new accepted).insertAll kind.inserts stream).congr fun _ _ _ => zero_add _

theorem Kind.foldlM_merge (streamAt : ℕ → List (DataInput × ℤ)) (windowIds : List ℕ)
    {sketch : FoldSketch} {total : ℕ → ℕ → ℤ}
    (holds : Holds config.rows config.fullCols config.foldLevel sketch total) :
    ∃ merged, (windowIds.map fun windowId => (⟨feedAll (tumbling xxh feed query) fresh
        (streamAt windowId), windowId⟩ : ClosedWindow FoldSketch)).foldlM
          (fun merged closed => mergeSameLevel xxh query merged closed.sketch) sketch = some merged ∧
      Holds config.rows config.fullCols config.foldLevel merged fun row col => total row col +
        (windowIds.map fun windowId =>
          streamTotal hasher deltaOf config.fullCols (streamAt windowId) row col).sum := by
  induction windowIds generalizing sketch total with
  | nil => exact ⟨sketch, rfl, holds.congr fun row _ col => (add_zero _).symm⟩
  | cons windowId rest hypothesis =>
    obtain ⟨first, merges, firstHolds⟩ := holds.mergeSameLevel xxh query
      (kind.feedAll_holds xxh accepted (streamAt windowId))
    obtain ⟨merged, runs, mergedHolds⟩ := hypothesis firstHolds
    refine ⟨merged, ?_, mergedHolds.congr fun row _ col => add_assoc _ _ _⟩
    rw [List.map_cons, List.foldlM_cons, merges]
    exact runs

end

theorem newest_retainedIds (maxWindows activeWindowId n : ℕ) :
    (retainedIds maxWindows activeWindowId).drop
        ((retainedIds maxWindows activeWindowId).length - n) =
      List.range' (activeWindowId - min n (min maxWindows activeWindowId))
        (min n (min maxWindows activeWindowId)) := by
  rw [retainedIds, List.length_range', List.drop_range']
  congr 1 <;> omega

theorem Kind.queryRecent (kind : Kind hasher deltaOf feed query estimate) (xxh : XxHash3)
    (accepted : new config.rows config.fullCols config.foldLevel config.topK = some fresh)
    {window : TumblingWindow FoldSketch FoldConfig} {log : List WindowEvent}
    (tracks : TumblingWindow.Tracks (tumbling xxh feed query) fresh window log) (n : ℕ) :
    ∃ merged, TumblingWindow.queryRecent (tumbling xxh feed query) window n = some merged ∧
      ∀ key, query merged key = query (feedAll (tumbling xxh feed query) fresh
        (recentStream window.activeWindowId (min n window.closed.length) log)) key := by
  have count : window.closed.length = min window.maxWindows window.activeWindowId := by
    rw [tracks.closed, List.length_map, retainedIds, List.length_range']
  have newest : window.closed.drop (window.closed.length - n) =
      (List.range' (window.activeWindowId - min n window.closed.length)
        (min n window.closed.length)).map fun windowId =>
          ⟨feedAll (tumbling xxh feed query) fresh
            (windowStream windowId log), windowId⟩ := by
    rw [count, ← newest_retainedIds, List.map_drop, ← tracks.closed, retainedIds,
      List.length_range', ← count]
  obtain ⟨merged, runs, holds⟩ := kind.foldlM_merge xxh accepted
    (fun windowId => windowStream windowId log)
    (List.range' (window.activeWindowId - min n window.closed.length) (min n window.closed.length))
    (kind.feedAll_holds xxh accepted (windowStream window.activeWindowId log))
  refine ⟨merged, ?_, fun key => ?_⟩
  · unfold TumblingWindow.queryRecent
    rw [newest, tracks.active]
    exact runs
  · have few : min n window.closed.length ≤ window.activeWindowId := by
      rw [count]
      exact (min_le_right _ _).trans (min_le_right _ _)
    refine kind.query_eq holds ((kind.feedAll_holds xxh accepted _).congr fun row _ col => ?_) key
    exact streamTotal_recentStream tracks.past few config.fullCols row col

theorem totalOf_map {rows fullCols foldLevel : ℕ} {sketchOf : ℕ → FoldSketch}
    {totalAt : ℕ → ℕ → ℕ → ℤ} (windowIds : List ℕ)
    (holds : ∀ windowId, Holds rows fullCols foldLevel (sketchOf windowId) (totalAt windowId))
    {row : ℕ} (rowInside : row < rows) (col : ℕ) :
    totalOf (windowIds.map sketchOf) row col =
      (windowIds.map fun windowId => totalAt windowId row col).sum := by
  unfold totalOf
  rw [List.map_map]
  congr 1
  exact List.map_congr_left fun windowId _ => (holds windowId).answers row rowInside col

/-- All windows scattered into one full-width sketch answer as one sketch fed with their inserts. -/
theorem Kind.hierarchical (kind : Kind hasher deltaOf feed query estimate) (xxh : XxHash3)
    (accepted : new config.rows config.fullCols config.foldLevel config.topK = some fresh)
    {window : TumblingWindow FoldSketch FoldConfig} {log : List WindowEvent}
    (tracks : TumblingWindow.Tracks (tumbling xxh feed query) fresh window log) :
    ∃ merged, hierarchicalMerge xxh query window.allSketches = some merged ∧
      ∀ key, query merged key = query (feedAll (tumbling xxh feed query) fresh
        (recentStream window.activeWindowId window.closed.length log)) key := by
  have count : window.closed.length = min window.maxWindows window.activeWindowId := by
    rw [tracks.closed, List.length_map, retainedIds, List.length_range']
  have sketches : window.allSketches =
      (retainedIds window.maxWindows window.activeWindowId ++
        [window.activeWindowId]).map fun windowId => feedAll
          (tumbling xxh feed query) fresh (windowStream windowId log) := by
    unfold allSketches
    rw [tracks.closed, tracks.active, List.map_append, List.map_map]
    rfl
  have each := fun windowId =>
    kind.feedAll_holds xxh accepted (windowStream windowId log)
  have fits : ∀ sketch ∈ window.allSketches, Fits config.rows config.fullCols sketch := by
    intro sketch member
    rw [sketches] at member
    obtain ⟨windowId, -, rfl⟩ := List.mem_map.mp member
    exact (each windowId).fits
  have nonempty : window.allSketches ≠ [] :=
    List.append_ne_nil_of_right_ne_nil _ (List.cons_ne_nil _ _)
  obtain ⟨merged, runs, holds⟩ := hierarchicalMerge_holds xxh query nonempty fits
  refine ⟨merged, runs, fun key => kind.query_eq holds
    ((kind.feedAll_holds xxh accepted _).congr fun row rowInside col => ?_) key⟩
  have few : window.closed.length ≤ window.activeWindowId := by
    rw [count]
    exact min_le_right _ _
  rw [streamTotal_recentStream tracks.past few, sketches, totalOf_map _ each rowInside,
    List.map_append, List.sum_append, List.map_singleton, List.sum_singleton, add_comm, count,
    retainedIds]

end Kind

end FoldSketch

/-! ### Sessions -/

namespace TumblingWindow

variable {Sketch Config : Type}

/-- The three queries of a window manager. -/
structure Answers (Sketch : Type) where
  all : Option Sketch
  recent : ℕ → Option Sketch
  hierarchical : Option Sketch

def answers (ops : TumblingWindowSketch Sketch Config)
    (hierarchical : TumblingWindow Sketch Config → Option Sketch)
    (window : TumblingWindow Sketch Config) : Answers Sketch where
  all := queryAll ops window
  recent := queryRecent ops window
  hierarchical := hierarchical window

/-- A query that answers every key as a fresh sketch fed with a stream does. -/
def AnswersAs (ops : TumblingWindowSketch Sketch Config) (query : Sketch → DataInput → ℤ)
    (fresh : Sketch) (stream : List (DataInput × ℤ)) (answer : Option Sketch) : Prop :=
  ∃ merged, answer = some merged ∧
    ∀ key, query merged key = query (feedAll ops fresh stream) key

/-- What a window manager owes at a moment of a session: its queries answer for the inserts filed
under the windows concerned, which for times in order are the late enough ones. -/
structure Exact (ops : TumblingWindowSketch Sketch Config) (query : Sketch → DataInput → ℤ)
    (hierarchical : TumblingWindow Sketch Config → Option Sketch) (fresh : Sketch)
    (calls : List TumblingOp) (window : TumblingWindow Sketch Config) (log : List WindowEvent) :
    Prop where
  recorded : log.map (fun event => (event.time, event.key, event.value)) =
    calls.filterMap TumblingOp.inserted
  retained : window.closed.length = min window.maxWindows window.activeWindowId
  all : AnswersAs ops query fresh
    (recentStream window.activeWindowId window.closed.length log) (queryAll ops window)
  recent : ∀ n, AnswersAs ops query fresh
    (recentStream window.activeWindowId (min n window.closed.length) log) (queryRecent ops window n)
  hierarchical : AnswersAs ops query fresh
    (recentStream window.activeWindowId window.closed.length log) (hierarchical window)
  inTime : ∀ inserts : List (ℕ × DataInput × ℤ), calls = inserts.map insertCall →
    (inserts.Pairwise fun earlier later => earlier.1 ≤ later.1) →
    recentStream window.activeWindowId window.closed.length log =
      (inserts.filter fun entry =>
        window.activeStart ≤ entry.1 + window.maxWindows * window.windowSize).map Prod.snd

theorem streamOf_inserts {log : List WindowEvent} {inserts : List (ℕ × DataInput × ℤ)}
    (recorded : log.map (fun event => (event.time, event.key, event.value)) = inserts)
    (test : ℕ → Bool) :
    streamOf (fun event => test event.time) log =
      (inserts.filter fun entry => test entry.1).map Prod.snd := by
  rw [← recorded, List.filter_map, List.map_map]
  rfl

end TumblingWindow

open TumblingWindow in
theorem FoldSketch.Kind.session_exact {hasher : SketchHasher} {deltaOf : ℕ → DataInput → ℤ → ℤ}
    {feed : FoldSketch → DataInput → ℤ → FoldSketch} {query : FoldSketch → DataInput → ℤ}
    {estimate : ℕ → DataInput → (ℕ → ℤ) → ℤ} (kind : Kind hasher deltaOf feed query estimate)
    (xxh : XxHash3) {windowSize : ℕ} (positive : 0 < windowSize) (maxWindows : ℕ)
    {config : FoldConfig} {fresh : FoldSketch}
    (accepted : new config.rows config.fullCols config.foldLevel config.topK = some fresh)
    (calls : List TumblingOp) :
    ∃ log answered, ∀ poolCap, ∃ window,
      session (tumbling xxh feed query) windowSize maxWindows config poolCap calls =
        some (window, log) ∧
      Exact (tumbling xxh feed query) query
        (fun window => hierarchicalMerge xxh query window.allSketches) fresh calls window log ∧
      answers (tumbling xxh feed query)
        (fun window => hierarchicalMerge xxh query window.allSketches) window = answered := by
  have each : ∀ poolCap, ∃ after, session (tumbling xxh feed query) windowSize maxWindows config
      poolCap calls = some after ∧ Tracks (tumbling xxh feed query) fresh after.1 after.2 ∧
      (after.1.activeWindowId, after.2) = calls.foldl (assign windowSize) (0, []) ∧
      after.1.windowSize = windowSize ∧ after.1.maxWindows = maxWindows := fun poolCap =>
    session_tracks (kind.recycles accepted) positive maxWindows accepted poolCap calls
  obtain ⟨first, -, firstTracks, firstFiled, firstSize, firstMost⟩ := each 0
  refine ⟨first.2, answers (tumbling xxh feed query)
    (fun window => hierarchicalMerge xxh query window.allSketches) first.1, fun poolCap => ?_⟩
  obtain ⟨⟨window, log⟩, runs, tracks, filed, size, most⟩ := each poolCap
  obtain ⟨sameId, sameLog⟩ := Prod.mk.inj (filed.trans firstFiled.symm)
  simp only at sameId sameLog size most tracks filed
  have retained : window.closed.length = min window.maxWindows window.activeWindowId := by
    rw [tracks.closed, List.length_map, retainedIds, List.length_range']
  have recorded : log.map (fun event => (event.time, event.key, event.value)) =
      calls.filterMap TumblingOp.inserted := by
    have whole := assign_inserted windowSize calls (0, [])
    rw [← filed] at whole
    exact whole
  refine ⟨window, sameLog ▸ runs, ?_, ?_⟩
  · rw [← sameLog]
    refine ⟨recorded, retained, ?_, kind.queryRecent xxh accepted tracks,
      kind.hierarchical xxh accepted tracks, fun inserts onlyInserts sorted => ?_⟩
    · have all := kind.queryRecent xxh accepted tracks window.closed.length
      rw [min_self] at all
      unfold TumblingWindow.queryRecent at all
      rw [Nat.sub_self, List.drop_zero] at all
      exact all
    · have inOrder : log.map (fun event => (event.time, event.key, event.value)) = inserts := by
        rw [recorded, onlyInserts, List.filterMap_map]
        exact List.filterMap_some
      have inTime : ∀ event ∈ log, event.window = event.time / windowSize := by
        have start : ∀ event ∈ ((0, []) : ℕ × List WindowEvent).2,
            event.window = event.time / windowSize := fun event member =>
              absurd member List.not_mem_nil
        have each := assign_inTime windowSize sorted (fun entry _ => Nat.zero_le _) start
        rw [← onlyInserts, ← filed] at each
        exact each
      rw [retained, tracks.start, size, recentStream_inTime positive inTime]
      exact streamOf_inserts inOrder fun time =>
        decide (window.activeWindowId * windowSize ≤ time + window.maxWindows * windowSize)
  · have sameActive : window.active = first.1.active := by
      rw [tracks.active, firstTracks.active, sameId, sameLog]
    have sameClosed : window.closed = first.1.closed := by
      rw [tracks.closed, firstTracks.closed, sameId, sameLog, most, firstMost]
    have sameRecent : TumblingWindow.queryRecent (tumbling xxh feed query) window =
        TumblingWindow.queryRecent (tumbling xxh feed query) first.1 := by
      funext n
      unfold TumblingWindow.queryRecent
      rw [sameActive, sameClosed]
    simp only [answers, queryAll, allSketches, sameActive, sameClosed, sameRecent]

/-! ### Both sketches -/

theorem FoldCMS.kind (hasher : SketchHasher) (xxh : XxHash3) :
    FoldSketch.Kind hasher (fun _ _ delta => delta) (insert hasher xxh) (query hasher)
      minimumOf where
  inserts := insertsAs hasher xxh
  capacity _ _ _ := HHHeap.update_k xxh _ _ _
  reads sketch key := query_eq_minimumOf hasher sketch rfl key
  rowwise := minimumOf_congr

theorem FoldCS.kind (hasher : SketchHasher) (xxh : XxHash3) :
    FoldSketch.Kind hasher (fun row key delta => rowSign (hasher.hash64Seeded row key) * delta)
      (insert hasher xxh) (query hasher) (medianOf hasher) where
  inserts := insertsAs hasher xxh
  capacity _ _ _ := HHHeap.update_k xxh _ _ _
  reads sketch key := query_eq_medianOf hasher sketch rfl key
  rowwise := medianOf_congr hasher

open TumblingWindow in
/-- At every moment of every session over either sketch, whatever the times, the flushes and the
pool, the queries answer for exactly the inserts of the retained windows. -/
theorem tumbling_windows_exact (hasher : SketchHasher) (xxh : XxHash3) (windowSize : ℕ)
    (positive : 0 < windowSize) (maxWindows : ℕ) (config : FoldConfig) (calls : List TumblingOp) :
    (∀ fresh, (FoldCMS.tumbling hasher xxh).fromConfig config = some fresh →
        ∃ log answered, ∀ poolCap, ∃ window,
          session (FoldCMS.tumbling hasher xxh) windowSize maxWindows config poolCap calls =
            some (window, log) ∧
          Exact (FoldCMS.tumbling hasher xxh) (FoldCMS.query hasher)
            (FoldCMS.queryAllHierarchical hasher xxh) fresh calls window log ∧
          answers (FoldCMS.tumbling hasher xxh) (FoldCMS.queryAllHierarchical hasher xxh) window =
            answered) ∧
      ∀ fresh, (FoldCS.tumbling hasher xxh).fromConfig config = some fresh →
        ∃ log answered, ∀ poolCap, ∃ window,
          session (FoldCS.tumbling hasher xxh) windowSize maxWindows config poolCap calls =
            some (window, log) ∧
          Exact (FoldCS.tumbling hasher xxh) (FoldCS.query hasher)
            (FoldCS.queryAllHierarchical hasher xxh) fresh calls window log ∧
          answers (FoldCS.tumbling hasher xxh) (FoldCS.queryAllHierarchical hasher xxh) window =
            answered :=
  ⟨fun _ accepted =>
      (FoldCMS.kind hasher xxh).session_exact xxh positive maxWindows accepted calls,
    fun _ accepted =>
      (FoldCS.kind hasher xxh).session_exact xxh positive maxWindows accepted calls⟩

open TumblingWindow in
/-- Windows of 10 time units, two retained, over calls that skip windows, fall back and flush. -/
theorem tumbling_windows_exact_small :
    ∃ window log, session (FoldCMS.tumbling wideHasher plainXxHash) 10 2 ⟨2, 8, 1, 4⟩ 1
        [.insert 3 (.u8 1) 5, .insert 41 (.u8 2) 1, .insert 12 (.u8 1) 2, .flush 50,
          .insert 55 (.u8 3) 4] = some (window, log) ∧
      window.closed.length = min window.maxWindows window.activeWindowId := by
  obtain ⟨log, _, each⟩ := (tumbling_windows_exact wideHasher plainXxHash 10 (by decide) 2
    ⟨2, 8, 1, 4⟩ _).1 _ rfl
  obtain ⟨window, runs, exact, -⟩ := each 1
  exact ⟨window, log, runs, exact.retained⟩

end AsapSketchlib
