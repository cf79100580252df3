/-
This file follows a window manager through every run of inserts and flushes. Each insert is
filed under the window that is active when it is recorded; the active sketch and the sketch of
each retained window are a fresh sketch fed with what is filed under that window, and the pool
holds fresh sketches only, provided clearing a fed sketch makes it fresh again.
-/

import AsapSketchlib.Tumbling

namespace AsapSketchlib

/-! ### Runs -/

/-- A call of the window manager. -/
inductive TumblingOp where
  | insert (time : ℕ) (key : DataInput) (value : ℤ)
  | flush (time : ℕ)

/-- An insert, with the window that was active when it was recorded. -/
structure WindowEvent where
  window : ℕ
  time : ℕ
  key : DataInput
  value : ℤ

namespace TumblingOp

def inserted : TumblingOp → Option (ℕ × DataInput × ℤ)
  | .insert time key value => some (time, key, value)
  | .flush _ => none

end TumblingOp

namespace TumblingWindow

variable {Sketch Config : Type} (ops : TumblingWindowSketch Sketch Config)

/-- One call, which files an insert under the window it finds active. -/
def step (state : TumblingWindow Sketch Config × List WindowEvent) :
    TumblingOp → Option (TumblingWindow Sketch Config × List WindowEvent)
  | .insert time key value => do
    let after ← insert ops time key value state.1
    some (after, state.2 ++ [⟨after.activeWindowId, time, key, value⟩])
  | .flush time => do
    let after ← flush ops time state.1
    some (after, state.2)

/-- A whole session: a new window manager, then the calls in order. -/
def session (windowSize maxWindows : ℕ) (config : Config) (poolCap : ℕ)
    (calls : List TumblingOp) : Option (TumblingWindow Sketch Config × List WindowEvent) := do
  let start ← new ops windowSize maxWindows config poolCap
  calls.foldlM (step ops) (start, [])

def feedAll (sketch : Sketch) (stream : List (DataInput × ℤ)) : Sketch :=
  stream.foldl (fun sketch entry => ops.tumblingInsert sketch entry.1 entry.2) sketch

/-- The inserts filed under the windows that pass a test. -/
def streamOf (chosen : WindowEvent → Bool) (log : List WindowEvent) : List (DataInput × ℤ) :=
  (log.filter chosen).map fun event => (event.key, event.value)

def windowStream (windowId : ℕ) (log : List WindowEvent) : List (DataInput × ℤ) :=
  streamOf (fun event => event.window = windowId) log

/-- The inserts of the active window and of the given number of windows before it. -/
def recentStream (activeWindowId count : ℕ) (log : List WindowEvent) : List (DataInput × ℤ) :=
  streamOf (fun event => activeWindowId ≤ event.window + count) log

/-- The windows still retained when a window is active: as many as the limit allows. -/
def retainedIds (maxWindows activeWindowId : ℕ) : List ℕ :=
  List.range' (activeWindowId - min maxWindows activeWindowId) (min maxWindows activeWindowId)

/-- Every sketch the manager holds is a fresh one fed with what is filed under its window. -/
structure Tracks (fresh : Sketch) (window : TumblingWindow Sketch Config)
    (log : List WindowEvent) : Prop where
  positive : 0 < window.windowSize
  start : window.activeStart = window.activeWindowId * window.windowSize
  active : window.active = feedAll ops fresh (windowStream window.activeWindowId log)
  closed : window.closed = (retainedIds window.maxWindows window.activeWindowId).map
    fun windowId => ⟨feedAll ops fresh (windowStream windowId log), windowId⟩
  past : ∀ event ∈ log, event.window ≤ window.activeWindowId
  pooled : ∀ sketch ∈ window.pool.freeList, sketch = fresh
  config : ops.fromConfig window.pool.config = some fresh

variable {ops}

theorem windowStream_append (windowId : ℕ) (log : List WindowEvent) (event : WindowEvent) :
    windowStream windowId (log ++ [event]) =
      windowStream windowId log ++ if event.window = windowId then [(event.key, event.value)]
        else [] := by
  unfold windowStream streamOf
  rw [List.filter_append, List.map_append]
  by_cases here : event.window = windowId
  · rw [if_pos here, List.filter_singleton, decide_eq_true here]
    rfl
  · rw [if_neg here, List.filter_singleton, decide_eq_false here]
    rfl

theorem windowStream_of_past {log : List WindowEvent} {windowId : ℕ}
    (past : ∀ event ∈ log, event.window < windowId) : windowStream windowId log = [] := by
  have none : log.filter (fun event => decide (event.window = windowId)) = [] :=
    List.filter_eq_nil_iff.mpr fun event member same =>
      Nat.ne_of_lt (past event member) (of_decide_eq_true same)
  unfold windowStream streamOf
  rw [none, List.map_nil]

/-! ### Closing a window -/

section Recycled

variable {fresh : Sketch}

theorem take_spec {pool : SketchPool Sketch Config} (pooled : ∀ sketch ∈ pool.freeList, sketch = fresh)
    (config : ops.fromConfig pool.config = some fresh) :
    ∃ after, SketchPool.take ops pool = some (fresh, after) ∧
      (∀ sketch ∈ after.freeList, sketch = fresh) ∧ after.config = pool.config := by
  obtain ⟨freeList, totalAllocated, config'⟩ := pool
  cases freeList with
  | nil =>
    have built : ops.fromConfig config' = some fresh := config
    refine ⟨⟨[], totalAllocated + 1, config'⟩, ?_, pooled, rfl⟩
    simp only [SketchPool.take, built, Option.bind_eq_bind, Option.bind_some]
  | cons sketch rest =>
    have top : sketch = fresh := pooled sketch List.mem_cons_self
    refine ⟨⟨rest, totalAllocated, config'⟩, ?_,
      fun other member => pooled other (List.mem_cons_of_mem sketch member), rfl⟩
    rw [← top]
    rfl

theorem evict_spec (maxWindows : ℕ) {closed : List (ClosedWindow Sketch)}
    {pool : SketchPool Sketch Config} (pooled : ∀ sketch ∈ pool.freeList, sketch = fresh)
    (recycled : ∀ window ∈ closed, ops.tumblingClear window.sketch = fresh) :
    (evict ops maxWindows closed pool).1 = closed.drop (closed.length - maxWindows) ∧
      (∀ sketch ∈ (evict ops maxWindows closed pool).2.freeList, sketch = fresh) ∧
      (evict ops maxWindows closed pool).2.config = pool.config := by
  induction closed generalizing pool with
  | nil => exact ⟨List.drop_nil.symm, pooled, rfl⟩
  | cons oldest rest hypothesis =>
    rw [evict]
    by_cases tooMany : maxWindows < (oldest :: rest).length
    · have putPooled : ∀ sketch ∈ (SketchPool.put ops pool oldest.sketch).freeList,
          sketch = fresh := by
        intro sketch member
        rcases List.mem_cons.mp member with rfl | inside
        · exact recycled oldest List.mem_cons_self
        · exact pooled sketch inside
      obtain ⟨kept, recycledPool, config⟩ := hypothesis putPooled
        fun window member => recycled window (List.mem_cons_of_mem oldest member)
      have longer : (oldest :: rest).length - maxWindows = rest.length - maxWindows + 1 := by
        rw [List.length_cons] at tooMany ⊢
        exact Nat.succ_sub (Nat.lt_succ_iff.mp tooMany)
      rw [if_pos tooMany, longer, List.drop_succ_cons]
      exact ⟨kept, recycledPool, config⟩
    · rw [if_neg tooMany, Nat.sub_eq_zero_of_le (not_lt.mp tooMany), List.drop_zero]
      exact ⟨rfl, pooled, rfl⟩

theorem drop_retainedIds (maxWindows activeWindowId : ℕ) :
    (retainedIds maxWindows activeWindowId ++ [activeWindowId]).drop
        ((retainedIds maxWindows activeWindowId ++ [activeWindowId]).length - maxWindows) =
      retainedIds maxWindows (activeWindowId + 1) := by
  have whole : retainedIds maxWindows activeWindowId ++ [activeWindowId] =
      List.range' (activeWindowId - min maxWindows activeWindowId)
        (min maxWindows activeWindowId + 1) := by
    have last : activeWindowId - min maxWindows activeWindowId + 1 * min maxWindows activeWindowId =
        activeWindowId := by
      rw [one_mul]
      exact Nat.sub_add_cancel (min_le_right _ _)
    rw [List.range'_concat, last]
    rfl
  rw [whole, List.length_range', List.drop_range', retainedIds]
  congr 1 <;> omega

theorem Tracks.closeActive
    (recycles : ∀ stream, ops.tumblingClear (feedAll ops fresh stream) = fresh) {window : TumblingWindow Sketch Config} {log : List WindowEvent}
    (tracks : Tracks ops fresh window log) :
    ∃ after, closeActive ops window = some after ∧ Tracks ops fresh after log ∧
      after.activeWindowId = window.activeWindowId + 1 ∧
      after.windowSize = window.windowSize ∧ after.maxWindows = window.maxWindows := by
  obtain ⟨pool, taken, pooled, config⟩ := take_spec tracks.pooled tracks.config
  have appended : window.closed ++ [⟨window.active, window.activeWindowId⟩] =
      (retainedIds window.maxWindows window.activeWindowId ++ [window.activeWindowId]).map
        fun windowId => (⟨feedAll ops fresh (windowStream windowId log), windowId⟩ :
          ClosedWindow Sketch) := by
    rw [List.map_append, tracks.closed, tracks.active]
    rfl
  have recycled : ∀ closed ∈ window.closed ++ [⟨window.active, window.activeWindowId⟩],
      ops.tumblingClear closed.sketch = fresh := by
    intro closed member
    rw [appended] at member
    obtain ⟨windowId, -, rfl⟩ := List.mem_map.mp member
    exact recycles _
  obtain ⟨kept, evictedPool, evictedConfig⟩ := evict_spec window.maxWindows pooled recycled
  simp only [TumblingWindow.closeActive, taken, Option.bind_eq_bind, Option.bind_some]
  refine ⟨_, rfl, ⟨tracks.positive, ?_, ?_, ?_, ?_, evictedPool, ?_⟩, rfl, rfl, rfl⟩
  · show window.activeStart + window.windowSize = (window.activeWindowId + 1) * window.windowSize
    rw [tracks.start, Nat.succ_mul]
  · have empty : windowStream (window.activeWindowId + 1) log = [] :=
      windowStream_of_past fun event member => Nat.lt_succ_of_le (tracks.past event member)
    show fresh = feedAll ops fresh (windowStream (window.activeWindowId + 1) log)
    rw [empty]
    rfl
  · show (evict ops window.maxWindows _ pool).1 = (retainedIds window.maxWindows
      (window.activeWindowId + 1)).map _
    rw [kept, appended, ← List.map_drop, List.length_map, drop_retainedIds]
  · exact fun event member => Nat.le_succ_of_le (tracks.past event member)
  · show ops.fromConfig (evict ops window.maxWindows _ pool).2.config = some fresh
    rw [evictedConfig, config]
    exact tracks.config

/-! ### Every run -/

/-- What a call does to the number of the active window and to the record. -/
def assign (windowSize : ℕ) (state : ℕ × List WindowEvent) : TumblingOp → ℕ × List WindowEvent
  | .insert time key value =>
    let windowId := max state.1 (time / windowSize)
    (windowId, state.2 ++ [⟨windowId, time, key, value⟩])
  | .flush time => (max state.1 (time / windowSize) + 1, state.2)

/-- What a window manager is configured with stays. -/
structure SameLimits (window after : TumblingWindow Sketch Config) : Prop where
  windowSize : after.windowSize = window.windowSize
  maxWindows : after.maxWindows = window.maxWindows

section

variable (recycles : ∀ stream, ops.tumblingClear (feedAll ops fresh stream) = fresh) (time : ℕ)

include recycles

/-- The loop ends, in the window of the time or in the active one if that is later. -/
theorem Tracks.closeUntil {fuel : ℕ} {window : TumblingWindow Sketch Config}
    {log : List WindowEvent} (tracks : Tracks ops fresh window log)
    (enough : time < window.activeStart + (fuel + 1) * window.windowSize) :
    ∃ after, closeUntil ops time fuel window = some after ∧ Tracks ops fresh after log ∧
      after.activeWindowId = max window.activeWindowId (time / window.windowSize) ∧
      SameLimits window after := by
  induction fuel generalizing window with
  | zero =>
    have inside : ¬window.activeStart + window.windowSize ≤ time := by
      rw [zero_add, one_mul] at enough
      exact not_le.mpr enough
    refine ⟨window, if_neg inside, tracks, (max_eq_left ?_).symm, rfl, rfl⟩
    rw [tracks.start, ← Nat.succ_mul, not_le] at inside
    exact Nat.lt_succ_iff.mp ((Nat.div_lt_iff_lt_mul tracks.positive).mpr inside)
  | succ fuel hypothesis =>
    rw [TumblingWindow.closeUntil]
    by_cases later : window.activeStart + window.windowSize ≤ time
    · obtain ⟨closed, runs, closedTracks, next, sizes, limits⟩ := tracks.closeActive recycles
      have closedEnough : time < closed.activeStart + (fuel + 1) * closed.windowSize := by
        rw [closedTracks.start, next, sizes, Nat.succ_mul, ← tracks.start]
        calc
          time < window.activeStart + (fuel + 1 + 1) * window.windowSize := enough
          _ = window.activeStart + window.windowSize + (fuel + 1) * window.windowSize := by ring
      obtain ⟨after, rest, afterTracks, afterId, sameLimits⟩ :=
        hypothesis closedTracks closedEnough
      have reached : window.activeWindowId + 1 ≤ time / window.windowSize := by
        rw [tracks.start, ← Nat.succ_mul] at later
        exact (Nat.le_div_iff_mul_le tracks.positive).mpr later
      refine ⟨after, ?_, afterTracks, ?_, sameLimits.windowSize.trans sizes,
        sameLimits.maxWindows.trans limits⟩
      · rw [if_pos later, runs, Option.bind_some]
        exact rest
      · rw [afterId, next, sizes, max_eq_right reached,
          max_eq_right ((Nat.le_succ _).trans reached)]
    · refine ⟨window, if_neg later, tracks, (max_eq_left ?_).symm, rfl, rfl⟩
      rw [tracks.start, ← Nat.succ_mul, not_le] at later
      exact Nat.lt_succ_iff.mp ((Nat.div_lt_iff_lt_mul tracks.positive).mpr later)

theorem Tracks.advance {window : TumblingWindow Sketch Config} {log : List WindowEvent}
    (tracks : Tracks ops fresh window log) :
    ∃ after, advance ops time window = some after ∧ Tracks ops fresh after log ∧
      after.activeWindowId = max window.activeWindowId (time / window.windowSize) ∧
      SameLimits window after := by
  refine tracks.closeUntil recycles time ?_
  calc
    time < (time + 1) * 1 := by rw [mul_one]; exact Nat.lt_succ_self time
    _ ≤ (time + 1) * window.windowSize := Nat.mul_le_mul_left _ tracks.positive
    _ ≤ window.activeStart + (time + 1) * window.windowSize := Nat.le_add_left _ _

end

theorem Tracks.record {window : TumblingWindow Sketch Config} {log : List WindowEvent}
    (tracks : Tracks ops fresh window log) (time : ℕ) (key : DataInput) (value : ℤ) :
    Tracks ops fresh { window with active := ops.tumblingInsert window.active key value }
      (log ++ [⟨window.activeWindowId, time, key, value⟩]) := by
  refine ⟨tracks.positive, tracks.start, ?_, ?_, ?_, tracks.pooled, tracks.config⟩
  · show ops.tumblingInsert window.active key value = feedAll ops fresh (windowStream
      window.activeWindowId _)
    rw [windowStream_append, if_pos rfl, tracks.active]
    unfold feedAll
    rw [List.foldl_append]
    rfl
  · show window.closed = _
    rw [tracks.closed]
    refine List.map_congr_left fun windowId member => ?_
    have earlier : window.activeWindowId ≠ windowId := by
      have bounds := (List.mem_range'_1.mp member).2
      rw [Nat.sub_add_cancel (min_le_right _ _)] at bounds
      exact Nat.ne_of_gt bounds
    rw [windowStream_append, if_neg earlier, List.append_nil]
  · intro event member
    rcases List.mem_append.mp member with inside | last
    · exact tracks.past event inside
    · rw [List.mem_singleton.mp last]

section

variable (recycles : ∀ stream, ops.tumblingClear (feedAll ops fresh stream) = fresh)
  {state : TumblingWindow Sketch Config × List WindowEvent}
  (tracks : Tracks ops fresh state.1 state.2)

include recycles tracks

theorem Tracks.step (call : TumblingOp) :
    ∃ after, step ops state call = some after ∧ Tracks ops fresh after.1 after.2 ∧
      (after.1.activeWindowId, after.2) =
        assign state.1.windowSize (state.1.activeWindowId, state.2) call ∧
      SameLimits state.1 after.1 := by
  cases call with
  | insert time key value =>
    obtain ⟨advanced, runs, advancedTracks, windowId, limits⟩ := tracks.advance recycles time
    refine ⟨(_, _), ?_, advancedTracks.record time key value, ?_, limits.windowSize,
      limits.maxWindows⟩
    · simp only [TumblingWindow.step, TumblingWindow.insert, runs, Option.bind_eq_bind,
        Option.bind_some]
    · simp only [assign, windowId]
  | flush time =>
    obtain ⟨advanced, runs, advancedTracks, windowId, limits⟩ := tracks.advance recycles time
    obtain ⟨closed, closes, closedTracks, next, sizes, most⟩ := advancedTracks.closeActive recycles
    refine ⟨(closed, state.2), ?_, closedTracks, ?_, sizes.trans limits.windowSize,
      most.trans limits.maxWindows⟩
    · simp only [TumblingWindow.step, TumblingWindow.flush, runs, closes, Option.bind_eq_bind,
        Option.bind_some]
    · simp only [assign, next, windowId]

/-- Over every run the manager tracks the record, and what is filed where depends on the calls
and the window size only. -/
theorem Tracks.run (calls : List TumblingOp) :
    ∃ after, calls.foldlM (TumblingWindow.step ops) state = some after ∧
      Tracks ops fresh after.1 after.2 ∧
      (after.1.activeWindowId, after.2) =
        calls.foldl (assign state.1.windowSize) (state.1.activeWindowId, state.2) ∧
      SameLimits state.1 after.1 := by
  induction calls generalizing state with
  | nil => exact ⟨state, rfl, tracks, rfl, rfl, rfl⟩
  | cons call rest hypothesis =>
    obtain ⟨middle, steps, middleTracks, assigned, limits⟩ := tracks.step recycles call
    obtain ⟨after, runs, afterTracks, restAssigned, restLimits⟩ :=
      hypothesis middleTracks
    refine ⟨after, ?_, afterTracks, ?_, restLimits.windowSize.trans limits.windowSize,
      restLimits.maxWindows.trans limits.maxWindows⟩
    · rw [List.foldlM_cons, steps]
      exact runs
    · rw [restAssigned, assigned, limits.windowSize]
      rfl

end

theorem tracks_new {windowSize : ℕ} (positive : 0 < windowSize) (maxWindows : ℕ) {config : Config}
    (accepted : ops.fromConfig config = some fresh) (poolCap : ℕ) :
    ∃ start, new ops windowSize maxWindows config poolCap = some start ∧
      Tracks ops fresh start [] ∧ start.activeWindowId = 0 ∧ start.windowSize = windowSize ∧
      start.maxWindows = maxWindows := by
  have allocated : (List.replicate poolCap config).mapM ops.fromConfig =
      some (List.replicate poolCap fresh) := by
    induction poolCap with
    | zero => rfl
    | succ others hypothesis =>
      rw [List.replicate_succ, List.mapM_cons, hypothesis, accepted]
      rfl
  have allFresh : ∀ sketch ∈ List.replicate poolCap fresh, sketch = fresh :=
    fun sketch member => List.eq_of_mem_replicate member
  have full : ∃ pool, SketchPool.take ops ⟨List.replicate poolCap fresh, poolCap, config⟩ =
      some (fresh, pool) ∧ (∀ sketch ∈ pool.freeList, sketch = fresh) ∧ pool.config = config :=
    take_spec allFresh accepted
  obtain ⟨pool, taken, pooled, poolConfig⟩ := full
  refine ⟨⟨fresh, 0, 0, windowSize, maxWindows, [], pool⟩, ?_,
    ⟨positive, (Nat.zero_mul _).symm, rfl, ?_, fun _ member => (nomatch member), pooled, ?_⟩,
    rfl, rfl, rfl⟩
  · simp only [new, if_pos positive, SketchPool.new, allocated, taken, Option.bind_eq_bind,
      Option.bind_some]
  · show [] = (retainedIds maxWindows 0).map _
    rw [retainedIds, Nat.min_zero]
    rfl
  · rw [poolConfig]
    exact accepted

theorem session_tracks (recycles : ∀ stream, ops.tumblingClear (feedAll ops fresh stream) = fresh)
    {windowSize : ℕ} (positive : 0 < windowSize) (maxWindows : ℕ) {config : Config}
    (accepted : ops.fromConfig config = some fresh) (poolCap : ℕ) (calls : List TumblingOp) :
    ∃ after, session ops windowSize maxWindows config poolCap calls = some after ∧
      Tracks ops fresh after.1 after.2 ∧
      (after.1.activeWindowId, after.2) = calls.foldl (assign windowSize) (0, []) ∧
      after.1.windowSize = windowSize ∧ after.1.maxWindows = maxWindows := by
  obtain ⟨start, created, tracks, first, sizes, most⟩ :=
    tracks_new positive maxWindows accepted poolCap
  have startTracks : Tracks ops fresh (start, ([] : List WindowEvent)).1 [] := tracks
  obtain ⟨after, runs, afterTracks, assigned, limits⟩ := startTracks.run recycles calls
  refine ⟨after, ?_, afterTracks, ?_, limits.windowSize.trans sizes, limits.maxWindows.trans most⟩
  · simp only [session, created, Option.bind_eq_bind, Option.bind_some, runs]
  · rw [assigned]
    simp only [first, sizes]

end Recycled

/-! ### What is filed -/

theorem assign_inserted (windowSize : ℕ) (calls : List TumblingOp)
    (state : ℕ × List WindowEvent) :
    (calls.foldl (assign windowSize) state).2.map
        (fun event => (event.time, event.key, event.value)) =
      state.2.map (fun event => (event.time, event.key, event.value)) ++
        calls.filterMap TumblingOp.inserted := by
  induction calls generalizing state with
  | nil => exact (List.append_nil _).symm
  | cons call rest hypothesis =>
    rw [List.foldl_cons, hypothesis]
    cases call with
    | insert time key value =>
      simp only [assign, List.map_append, List.append_assoc]
      rfl
    | flush time => rfl

def insertCall (entry : ℕ × DataInput × ℤ) : TumblingOp := .insert entry.1 entry.2.1 entry.2.2

/-- Where times never fall and nothing is flushed, each insert is filed under the window of its
time. -/
theorem assign_inTime (windowSize : ℕ) {inserts : List (ℕ × DataInput × ℤ)}
    (sorted : inserts.Pairwise fun earlier later => earlier.1 ≤ later.1)
    {state : ℕ × List WindowEvent} (ahead : ∀ entry ∈ inserts, state.1 ≤ entry.1 / windowSize)
    (filed : ∀ event ∈ state.2, event.window = event.time / windowSize) :
    ∀ event ∈ ((inserts.map insertCall).foldl (assign windowSize) state).2,
      event.window = event.time / windowSize := by
  induction inserts generalizing state with
  | nil => exact filed
  | cons entry rest hypothesis =>
    obtain ⟨first, sortedRest⟩ := List.pairwise_cons.mp sorted
    have here : max state.1 (entry.1 / windowSize) = entry.1 / windowSize :=
      max_eq_right (ahead entry List.mem_cons_self)
    rw [List.map_cons, List.foldl_cons]
    refine hypothesis sortedRest (fun later member => ?_) fun event member => ?_
    · exact here.le.trans (Nat.div_le_div_right (first later member))
    · rcases List.mem_append.mp member with inside | last
      · exact filed event inside
      · rw [List.mem_singleton.mp last]
        exact here

theorem recentStream_inTime {windowSize : ℕ} (positive : 0 < windowSize) {log : List WindowEvent}
    (inTime : ∀ event ∈ log, event.window = event.time / windowSize)
    (activeWindowId maxWindows : ℕ) :
    recentStream activeWindowId (min maxWindows activeWindowId) log =
      streamOf (fun event => activeWindowId * windowSize ≤ event.time + maxWindows * windowSize)
        log := by
  unfold recentStream streamOf
  congr 1
  refine List.filter_congr fun event member => ?_
  rw [decide_eq_decide, inTime event member]
  calc
    activeWindowId ≤ event.time / windowSize + min maxWindows activeWindowId ↔
        activeWindowId - maxWindows ≤ event.time / windowSize := by omega
    _ ↔ (activeWindowId - maxWindows) * windowSize ≤ event.time :=
      Nat.le_div_iff_mul_le positive
    _ ↔ activeWindowId * windowSize ≤ event.time + maxWindows * windowSize := by
      rw [Nat.sub_mul, Nat.sub_le_iff_le_add]

end TumblingWindow

end AsapSketchlib
