/-
This file models the Octo pipeline at the grain of whole messages: workers that handle one
message at a time and send deltas along a queue each, a threshold all of them read, and an
aggregator that applies the head of some queue.

What a worker, a delta and the aggregator are is a parameter, as in the traits of the source.
-/

import Mathlib.Algebra.BigOperators.Group.Finset.Piecewise
import Mathlib.Data.Fintype.Basic

namespace AsapSketchlib

/-! ### The promotion threshold -/

def maxPromask : ℕ := 127

/-- `tau.clamp(1, MAX_PROMASK)`. -/
def clampPromask (tau : ℕ) : ℕ := min (max tau 1) maxPromask

theorem clampPromask_pos (tau : ℕ) : 1 ≤ clampPromask tau := by
  unfold clampPromask maxPromask
  omega

theorem clampPromask_le (tau : ℕ) : clampPromask tau ≤ maxPromask := Nat.min_le_right _ _

/-! ### Plans, workers and aggregators -/

/-- The traits `OctoPlan`, `OctoWorker` and `OctoAggregator`. A worker that fails an assertion
returns nothing. What reads the shared threshold is given it. -/
structure OctoTraits (Input Payload Worker Delta Parent : Type) where
  prepare : Input → Payload
  process : ℕ → Worker → Payload → Option (Worker × List Delta)
  flush : Worker → Worker × List Delta
  apply : ℕ → Parent → Delta → Parent

/-- The state between two messages. A worker has ended once it has handled `End`. -/
structure OctoState (Worker Delta Parent : Type) (workers : ℕ) where
  threshold : ℕ
  worker : Fin workers → Worker
  queue : Fin workers → List Delta
  ended : Fin workers → Bool
  parent : Parent

/-- What may happen next: a worker handles `Data`, `Flush` or `End`, the threshold is set, or
the aggregator receives from a worker. -/
inductive OctoEvent (Input : Type) (workers : ℕ) where
  | data (worker : Fin workers) (input : Input)
  | flush (worker : Fin workers)
  | finish (worker : Fin workers)
  | setThreshold (tau : ℕ)
  | apply (worker : Fin workers)

namespace OctoEvent

variable {Input : Type} {workers : ℕ}

def input? : OctoEvent Input workers → Option Input
  | .data _ input => some input
  | _ => none

def inputs (events : List (OctoEvent Input workers)) : List Input := events.filterMap input?

end OctoEvent

namespace OctoState

variable {Input Payload Worker Delta Parent : Type} {workers : ℕ}

def start (threshold : ℕ) (workerOf : Fin workers → Worker) (parent : Parent) :
    OctoState Worker Delta Parent workers where
  threshold := threshold
  worker := workerOf
  queue := fun _ => []
  ended := fun _ => false
  parent := parent

variable (state : OctoState Worker Delta Parent workers)

/-- A worker has a new sketch and has sent deltas. -/
def handle (worker : Fin workers) (result : Worker × List Delta) :
    OctoState Worker Delta Parent workers :=
  { state with
    worker := Function.update state.worker worker result.1
    queue := Function.update state.queue worker (state.queue worker ++ result.2) }

section

variable (worker : Fin workers) (result : Worker × List Delta)

@[simp] theorem handle_threshold : (state.handle worker result).threshold = state.threshold := rfl

@[simp] theorem handle_ended : (state.handle worker result).ended = state.ended := rfl

@[simp] theorem handle_parent : (state.handle worker result).parent = state.parent := rfl

end

def stop (worker : Fin workers) : OctoState Worker Delta Parent workers :=
  { state with ended := Function.update state.ended worker true }

/-- `OctoThreshold::set`. -/
def setThreshold (tau : ℕ) : OctoState Worker Delta Parent workers :=
  { state with threshold := clampPromask tau }

variable (traits : OctoTraits Input Payload Worker Delta Parent)

/-- The aggregator applies the first delta of a queue. -/
def receive (worker : Fin workers) (delta : Delta) (rest : List Delta) :
    OctoState Worker Delta Parent workers :=
  { state with
    queue := Function.update state.queue worker rest
    parent := traits.apply state.threshold state.parent delta }

def step : OctoEvent Input workers → Option (OctoState Worker Delta Parent workers)
  | .data worker input =>
    if state.ended worker then none
    else (traits.process state.threshold (state.worker worker) (traits.prepare input)).map
      (state.handle worker)
  | .flush worker =>
    if state.ended worker then none
    else some (state.handle worker (traits.flush (state.worker worker)))
  | .finish worker =>
    if state.ended worker then none
    else some ((state.handle worker (traits.flush (state.worker worker))).stop worker)
  | .setThreshold tau => some (state.setThreshold tau)
  | .apply worker =>
    match state.queue worker with
    | [] => none
    | delta :: rest => some (state.receive traits worker delta rest)

def run : List (OctoEvent Input workers) → OctoState Worker Delta Parent workers →
    Option (OctoState Worker Delta Parent workers)
  | [], state => some state
  | event :: rest, state => (state.step traits event).bind (run rest)

/-- What can happen in one step. -/
inductive Stepped : OctoEvent Input workers → OctoState Worker Delta Parent workers →
    OctoState Worker Delta Parent workers → Prop
  | data {before : OctoState Worker Delta Parent workers} (worker : Fin workers) (input : Input)
      (result : Worker × List Delta) (running : before.ended worker = false)
      (processed : traits.process before.threshold (before.worker worker) (traits.prepare input) =
        some result) :
      Stepped (.data worker input) before (before.handle worker result)
  | flush {before : OctoState Worker Delta Parent workers} (worker : Fin workers)
      (running : before.ended worker = false) :
      Stepped (.flush worker) before
        (before.handle worker (traits.flush (before.worker worker)))
  | finish {before : OctoState Worker Delta Parent workers} (worker : Fin workers)
      (running : before.ended worker = false) :
      Stepped (.finish worker) before
        ((before.handle worker (traits.flush (before.worker worker))).stop worker)
  | setThreshold {before : OctoState Worker Delta Parent workers} (tau : ℕ) :
      Stepped (.setThreshold tau) before (before.setThreshold tau)
  | apply {before : OctoState Worker Delta Parent workers} (worker : Fin workers) (delta : Delta)
      (rest : List Delta) (head : before.queue worker = delta :: rest) :
      Stepped (.apply worker) before (before.receive traits worker delta rest)

variable {traits}

theorem of_guarded {Result : Type} {blocked : Bool} {result : Option Result} {value : Result}
    (returned : (if blocked then none else result) = some value) :
    blocked = false ∧ result = some value := by
  cases blocked with
  | true => exact absurd returned (Option.some_ne_none value).symm
  | false => exact ⟨rfl, returned⟩

theorem stepped {before after : OctoState Worker Delta Parent workers}
    {event : OctoEvent Input workers} (stepped : before.step traits event = some after) :
    Stepped traits event before after := by
  cases event with
  | data worker input =>
    obtain ⟨running, handled⟩ := of_guarded stepped
    obtain ⟨result, processed, rfl⟩ := Option.map_eq_some_iff.mp handled
    exact .data worker input result running processed
  | flush worker =>
    obtain ⟨running, flushed⟩ := of_guarded stepped
    cases Option.some.inj flushed
    exact .flush worker running
  | finish worker =>
    obtain ⟨running, flushed⟩ := of_guarded stepped
    cases Option.some.inj flushed
    exact .finish worker running
  | setThreshold tau =>
    cases Option.some.inj stepped
    exact .setThreshold tau
  | apply worker =>
    rw [step] at stepped
    cases queued : before.queue worker with
    | nil =>
      rw [queued] at stepped
      exact absurd stepped (Option.some_ne_none after).symm
    | cons delta rest =>
      rw [queued] at stepped
      cases Option.some.inj stepped
      exact .apply worker delta rest queued

theorem run_append (events : List (OctoEvent Input workers)) (event : OctoEvent Input workers)
    (state : OctoState Worker Delta Parent workers) :
    run traits (events ++ [event]) state =
      (run traits events state).bind fun reached => reached.step traits event := by
  induction events generalizing state with
  | nil =>
    show (state.step traits event).bind (run traits []) = state.step traits event
    cases state.step traits event with
    | none => rfl
    | some after => rfl
  | cons first rest hypothesis =>
    rw [List.cons_append, run, run, Option.bind_assoc]
    exact congrArg _ (funext hypothesis)

theorem run_induction {motive : List (OctoEvent Input workers) →
      OctoState Worker Delta Parent workers → Prop}
    {start : OctoState Worker Delta Parent workers} (base : motive [] start)
    (kept : ∀ events before event after, motive events before →
      Stepped traits event before after → motive (events ++ [event]) after)
    {events : List (OctoEvent Input workers)} {reached : OctoState Worker Delta Parent workers}
    (ran : run traits events start = some reached) : motive events reached := by
  induction events using List.reverseRecOn generalizing reached with
  | nil =>
    cases Option.some.inj ran
    exact base
  | append_singleton events event hypothesis =>
    rw [run_append] at ran
    obtain ⟨before, ranBefore, step⟩ := Option.bind_eq_some_iff.mp ran
    exact kept events before event reached (hypothesis ranBefore) (stepped step)

/-! ### Runs whose steps meet a condition -/

def EveryStep (traits : OctoTraits Input Payload Worker Delta Parent)
    (condition : OctoState Worker Delta Parent workers → OctoEvent Input workers → Prop) :
    List (OctoEvent Input workers) → OctoState Worker Delta Parent workers → Prop
  | [], _ => True
  | event :: rest, state => condition state event ∧
    ∀ after, state.step traits event = some after → EveryStep traits condition rest after

/-- What holds at the start and is kept by every step that meets the condition holds after every
run whose steps do. -/
theorem run_induction_of_everyStep {motive : List (OctoEvent Input workers) →
      OctoState Worker Delta Parent workers → Prop}
    {condition : OctoState Worker Delta Parent workers → OctoEvent Input workers → Prop}
    {start : OctoState Worker Delta Parent workers} (base : motive [] start)
    (kept : ∀ events before event after, motive events before → condition before event →
      Stepped traits event before after → motive (events ++ [event]) after)
    {events : List (OctoEvent Input workers)} {reached : OctoState Worker Delta Parent workers}
    (met : EveryStep traits condition events start) (ran : run traits events start = some reached) :
    motive events reached := by
  have extended : ∀ (rest front : List (OctoEvent Input workers))
      (state : OctoState Worker Delta Parent workers), motive front state →
      EveryStep traits condition rest state → run traits rest state = some reached →
      motive (front ++ rest) reached := by
    intro rest
    induction rest with
    | nil =>
      intro front state holds _ ended
      rw [List.append_nil]
      exact Option.some.inj ended ▸ holds
    | cons event rest hypothesis =>
      intro front state holds met ran
      obtain ⟨after, step, ranAfter⟩ := Option.bind_eq_some_iff.mp ran
      rw [← List.singleton_append, ← List.append_assoc]
      exact hypothesis _ after (kept front state event after holds met.1 (stepped step))
        (met.2 after step) ranAfter
  exact extended events [] start base met ran

/-! ### Histories of the workers -/

section Histories

variable {state}

def inputsOf (worker : Fin workers) (events : List (OctoEvent Input workers)) : List Input :=
  events.filterMap fun
    | .data other input => if other = worker then some input else none
    | _ => none

def sentIn (traits : OctoTraits Input Payload Worker Delta Parent) (worker : Fin workers)
    (state : OctoState Worker Delta Parent workers) : OctoEvent Input workers → List Delta
  | .data other input =>
    if other = worker then
      (traits.process state.threshold (state.worker other) (traits.prepare input)).elim [] Prod.snd
    else []
  | .flush other => if other = worker then (traits.flush (state.worker other)).2 else []
  | .finish other => if other = worker then (traits.flush (state.worker other)).2 else []
  | .setThreshold _ => []
  | .apply _ => []

def receivedIn (state : OctoState Worker Delta Parent workers) :
    OctoEvent Input workers → List (Fin workers × Delta)
  | .apply worker => (state.queue worker).head?.toList.map (Prod.mk worker)
  | _ => []

/-- What the steps of a run put out, one after another. -/
def trace {Out : Type} (traits : OctoTraits Input Payload Worker Delta Parent)
    (output : OctoState Worker Delta Parent workers → OctoEvent Input workers → List Out) :
    List (OctoEvent Input workers) → OctoState Worker Delta Parent workers → List Out
  | [], _ => []
  | event :: rest, state =>
    output state event ++ (state.step traits event).elim [] (trace traits output rest)

/-- The deltas that a worker sends over a run. -/
def sent (traits : OctoTraits Input Payload Worker Delta Parent) (worker : Fin workers) :
    List (OctoEvent Input workers) → OctoState Worker Delta Parent workers → List Delta :=
  trace traits (sentIn traits worker)

/-- The deltas that the aggregator receives over a run, each with its worker. -/
def received (traits : OctoTraits Input Payload Worker Delta Parent) :
    List (OctoEvent Input workers) → OctoState Worker Delta Parent workers →
      List (Fin workers × Delta) :=
  trace traits receivedIn

theorem trace_append {Out : Type}
    (output : OctoState Worker Delta Parent workers → OctoEvent Input workers → List Out)
    {events : List (OctoEvent Input workers)} (event : OctoEvent Input workers)
    {start before : OctoState Worker Delta Parent workers}
    (ran : run traits events start = some before) :
    trace traits output (events ++ [event]) start =
      trace traits output events start ++ output before event := by
  induction events generalizing start with
  | nil =>
    cases Option.some.inj ran
    show output before event ++ (before.step traits event).elim [] (fun _ => []) = _
    cases before.step traits event with
    | none => exact List.append_nil _
    | some after => exact List.append_nil _
  | cons first rest hypothesis =>
    obtain ⟨after, step, ranAfter⟩ := Option.bind_eq_some_iff.mp ran
    show output start first ++ (start.step traits first).elim []
      (trace traits output (rest ++ [event])) = (output start first ++
        (start.step traits first).elim [] (trace traits output rest)) ++ _
    rw [step, List.append_assoc]
    exact congrArg (output start first ++ ·) (hypothesis ranAfter)

/-- A queue holds what its worker has sent and the aggregator has not received. -/
theorem sent_eq_received {start : OctoState Worker Delta Parent workers} {worker : Fin workers}
    (fresh : start.queue worker = []) {events : List (OctoEvent Input workers)}
    {reached : OctoState Worker Delta Parent workers}
    (ran : run traits events start = some reached) :
    sent traits worker events start =
      ((received traits events start).filter fun receipt => receipt.1 = worker).map Prod.snd ++
        reached.queue worker := by
  induction events using List.reverseRecOn generalizing reached with
  | nil =>
    cases Option.some.inj ran
    exact fresh.symm
  | append_singleton events event hypothesis =>
    rw [run_append] at ran
    obtain ⟨before, ranBefore, step⟩ := Option.bind_eq_some_iff.mp ran
    have held := hypothesis ranBefore
    rw [sent, received, trace_append _ event ranBefore, trace_append _ event ranBefore,
      List.filter_append, List.map_append]
    rw [sent, received] at held
    rw [held, List.append_assoc, List.append_assoc]
    refine congrArg (_ ++ ·) ?_
    have handled : ∀ (other : Fin workers) (result : Worker × List Delta),
        (before.handle other result).queue worker =
          before.queue worker ++ if other = worker then result.2 else [] := by
      intro other result
      show Function.update before.queue other _ worker = _
      by_cases same : other = worker
      · subst same
        rw [Function.update_self, if_pos rfl]
      · rw [Function.update_of_ne (Ne.symm same), if_neg same, List.append_nil]
    cases stepped step with
    | data other input result _ processed =>
      rw [handled, sentIn, processed]
      rfl
    | flush other _ => exact (handled other _).symm
    | finish other _ => exact (handled other _).symm
    | setThreshold tau => exact List.append_nil _
    | apply other delta rest head =>
      show before.queue worker ++ [] = _ ++ Function.update before.queue other rest worker
      rw [List.append_nil, receivedIn, head]
      by_cases same : other = worker
      · subst same
        rw [Function.update_self, head]
        simp
      · rw [Function.update_of_ne (Ne.symm same)]
        simp [same]

theorem exists_sent {start : OctoState Worker Delta Parent workers}
    (fresh : ∀ worker, start.queue worker = []) {events : List (OctoEvent Input workers)}
    {reached : OctoState Worker Delta Parent workers} (ran : run traits events start = some reached)
    {delta : Delta} (member : delta ∈ (received traits events start).map Prod.snd) :
    ∃ worker, delta ∈ sent traits worker events start := by
  obtain ⟨⟨worker, delta⟩, receipt, rfl⟩ := List.mem_map.mp member
  refine ⟨worker, ?_⟩
  rw [sent_eq_received (fresh worker) ran]
  exact List.mem_append_left _ (List.mem_map.mpr
    ⟨_, List.mem_filter.mpr ⟨receipt, decide_eq_true rfl⟩, rfl⟩)

/-- What holds of the aggregator at the start and is kept as it applies a delta, of the deltas it
has received, holds after every run. -/
theorem parent_history {motive : List Delta → Parent → Prop}
    {start : OctoState Worker Delta Parent workers} (base : motive [] start.parent)
    (apply : ∀ deltas parent threshold delta, motive deltas parent →
      motive (deltas ++ [delta]) (traits.apply threshold parent delta))
    {events : List (OctoEvent Input workers)} {reached : OctoState Worker Delta Parent workers}
    (ran : run traits events start = some reached) :
    motive ((received traits events start).map Prod.snd) reached.parent := by
  induction events using List.reverseRecOn generalizing reached with
  | nil =>
    cases Option.some.inj ran
    exact base
  | append_singleton events event hypothesis =>
    rw [run_append] at ran
    obtain ⟨before, ranBefore, step⟩ := Option.bind_eq_some_iff.mp ran
    have held := hypothesis ranBefore
    rw [received, trace_append _ event ranBefore, List.map_append]
    rw [received] at held
    cases stepped step with
    | data other input result _ _ => exact (List.append_nil _).symm ▸ held
    | flush other _ => exact (List.append_nil _).symm ▸ held
    | finish other _ => exact (List.append_nil _).symm ▸ held
    | setThreshold tau => exact (List.append_nil _).symm ▸ held
    | apply other delta rest head =>
      have applied := apply _ before.parent before.threshold delta held
      rw [receivedIn, head]
      exact applied

/-- Whether a worker has flushed since its last input. -/
def flushed (worker : Fin workers) (events : List (OctoEvent Input workers)) : Bool :=
  events.foldl (fun done event => match event with
    | .data other _ => if other = worker then false else done
    | .flush other => if other = worker then true else done
    | .finish other => if other = worker then true else done
    | .setThreshold _ => done
    | .apply _ => done) true

/-- What holds of a worker at the start and is kept as it handles an input or flushes, of its
inputs, its sketch, the deltas it has sent and whether it has flushed since its last input, holds
after every run. -/
theorem flushing_history {motive : Bool → List Input → Worker → List Delta → Prop}
    {start : OctoState Worker Delta Parent workers} {worker : Fin workers}
    (base : motive true [] (start.worker worker) [])
    (data : ∀ done inputs sketch deltas threshold input result, motive done inputs sketch deltas →
      traits.process threshold sketch (traits.prepare input) = some result →
      motive false (inputs ++ [input]) result.1 (deltas ++ result.2))
    (flush : ∀ done inputs sketch deltas, motive done inputs sketch deltas →
      motive true inputs (traits.flush sketch).1 (deltas ++ (traits.flush sketch).2))
    {events : List (OctoEvent Input workers)} {reached : OctoState Worker Delta Parent workers}
    (ran : run traits events start = some reached) :
    motive (flushed worker events) (inputsOf worker events) (reached.worker worker)
      (sent traits worker events start) := by
  induction events using List.reverseRecOn generalizing reached with
  | nil =>
    cases Option.some.inj ran
    exact base
  | append_singleton events event hypothesis =>
    rw [run_append] at ran
    obtain ⟨before, ranBefore, step⟩ := Option.bind_eq_some_iff.mp ran
    have held := hypothesis ranBefore
    have joined : inputsOf worker (events ++ [event]) =
        inputsOf worker events ++ inputsOf worker [event] := List.filterMap_append
    rw [sent, trace_append _ event ranBefore, joined, flushed, List.foldl_append]
    rw [sent] at held
    have flushedBy : ∀ other, motive (if other = worker then true else flushed worker events)
        (inputsOf worker events ++ [])
        ((before.handle other (traits.flush (before.worker other))).worker worker)
        (trace traits (sentIn traits worker) events start ++
          if other = worker then (traits.flush (before.worker other)).2 else []) := by
      intro other
      rw [List.append_nil]
      show motive _ _ (Function.update before.worker other _ worker) _
      by_cases same : other = worker
      · subst same
        rw [Function.update_self, if_pos rfl, if_pos rfl]
        exact flush _ _ _ _ held
      · rw [Function.update_of_ne (Ne.symm same), if_neg same, if_neg same, List.append_nil]
        exact held
    cases stepped step with
    | data other input result _ processed =>
      show motive (if other = worker then false else flushed worker events) _
        (Function.update before.worker other result.1 worker) _
      by_cases same : other = worker
      · subst same
        have handled : inputsOf other [(.data other input : OctoEvent Input workers)] =
            [input] := by simp [inputsOf]
        rw [Function.update_self, sentIn, if_pos rfl, if_pos rfl, processed, handled]
        exact data _ _ _ _ _ _ _ held processed
      · have skipped : inputsOf worker [(.data other input : OctoEvent Input workers)] = [] := by
          simp [inputsOf, same]
        rw [Function.update_of_ne (Ne.symm same), sentIn, if_neg same, if_neg same, skipped,
          List.append_nil, List.append_nil]
        exact held
    | flush other _ => exact flushedBy other
    | finish other _ => exact flushedBy other
    | setThreshold tau =>
      show motive _ (_ ++ []) _ (_ ++ [])
      rw [List.append_nil, List.append_nil]
      exact held
    | apply other delta rest _ =>
      show motive _ (_ ++ []) _ (_ ++ [])
      rw [List.append_nil, List.append_nil]
      exact held

/-- What a worker keeps as it handles inputs and flushes, whenever that is. -/
theorem worker_history {motive : List Input → Worker → List Delta → Prop}
    {start : OctoState Worker Delta Parent workers} {worker : Fin workers}
    (base : motive [] (start.worker worker) [])
    (data : ∀ inputs sketch deltas threshold input result, motive inputs sketch deltas →
      traits.process threshold sketch (traits.prepare input) = some result →
      motive (inputs ++ [input]) result.1 (deltas ++ result.2))
    (flush : ∀ inputs sketch deltas, motive inputs sketch deltas →
      motive inputs (traits.flush sketch).1 (deltas ++ (traits.flush sketch).2))
    {events : List (OctoEvent Input workers)} {reached : OctoState Worker Delta Parent workers}
    (ran : run traits events start = some reached) :
    motive (inputsOf worker events) (reached.worker worker) (sent traits worker events start) :=
  flushing_history (motive := fun _ => motive) base (fun _ => data) (fun _ => flush) ran

/-- A worker that has flushed since its last input holds nothing back. -/
theorem flushed_history {motive : Worker → Prop}
    {start : OctoState Worker Delta Parent workers} {worker : Fin workers}
    (base : motive (start.worker worker)) (flush : ∀ sketch, motive (traits.flush sketch).1)
    {events : List (OctoEvent Input workers)} {reached : OctoState Worker Delta Parent workers}
    (ran : run traits events start = some reached) (done : flushed worker events = true) :
    motive (reached.worker worker) :=
  flushing_history (motive := fun done _ sketch _ => done = true → motive sketch) (fun _ => base)
    (fun _ _ _ _ _ _ _ _ _ nothing => absurd nothing Bool.false_ne_true)
    (fun _ _ sketch _ _ _ => flush sketch) ran done

/-- The inputs handled in a list of events, each with its worker. -/
def routed (events : List (OctoEvent Input workers)) : List (Fin workers × Input) :=
  events.filterMap fun
    | .data worker input => some (worker, input)
    | _ => none

theorem map_routed (events : List (OctoEvent Input workers)) :
    (routed events).map Prod.snd = OctoEvent.inputs events := by
  rw [routed, OctoEvent.inputs, List.map_filterMap]
  refine List.filterMap_congr fun event _ => ?_
  cases event <;> rfl

theorem filter_routed (worker : Fin workers) (events : List (OctoEvent Input workers)) :
    ((routed events).filter fun entry => entry.1 = worker).map Prod.snd =
      inputsOf worker events := by
  rw [routed, inputsOf, List.filter_filterMap, List.map_filterMap]
  refine List.filterMap_congr fun event _ => ?_
  cases event with
  | data other input =>
    by_cases same : other = worker
    · simp [same]
    · simp [same]
  | _ => rfl

theorem sum_parts {Part Value : Type} [AddCommMonoid Value] (measure : List Part → Value)
    (empty : measure [] = 0)
    (append : ∀ first second, measure (first ++ second) = measure first + measure second)
    (entries : List (Fin workers × Part)) :
    measure (entries.map Prod.snd) =
      ∑ worker, measure ((entries.filter fun entry => entry.1 = worker).map Prod.snd) := by
  induction entries with
  | nil =>
    refine empty.trans (Finset.sum_eq_zero fun worker _ => ?_).symm
    exact empty
  | cons entry rest hypothesis =>
    have split : ∀ worker : Fin workers,
        measure (((entry :: rest).filter fun entry => entry.1 = worker).map Prod.snd) =
          (if entry.1 = worker then measure [entry.2] else 0) +
            measure ((rest.filter fun entry => entry.1 = worker).map Prod.snd) := by
      intro worker
      by_cases own : entry.1 = worker
      · rw [List.filter_cons_of_pos (by simpa using own), if_pos own, List.map_cons,
          ← List.singleton_append, append]
      · rw [List.filter_cons_of_neg (by simpa using own), if_neg own, zero_add]
    rw [List.map_cons, ← List.singleton_append, append, hypothesis,
      Finset.sum_congr rfl fun worker _ => split worker, Finset.sum_add_distrib,
      Finset.sum_ite_eq, if_pos (Finset.mem_univ _)]

end Histories

end OctoState

end AsapSketchlib
