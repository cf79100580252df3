/-
This file models the Octo runtime at the grain of single channel operations: the caller, the
worker threads and the aggregator thread, each with the loops of the source, and the bounded
channels between them.

A worker works out all deltas of a message at once and then sends them one by one; nothing it
reads can change in between.
-/

import AsapSketchlib.OctoPipeline
import Mathlib.Data.Fintype.Card

namespace AsapSketchlib

/-! ### Worker threads -/

inductive WorkerMsg (Payload : Type) where
  | data (payload : Payload)
  | flush
  | finish

/-- What a worker does once the deltas of a message are sent: takes the next message, sends
the acknowledgement of a flush, or leaves its loop. -/
inductive WhenSent where
  | proceed
  | acknowledge
  | stop
  deriving DecidableEq

/-- A worker thread with the two channels it is an end of. A busy worker has deltas left to send.
The last three fields are a history that no code reads: what was sent, what of it the aggregator
has applied, and how much was sent when the current flush was acknowledged. -/
structure WorkerThread (Payload Worker Delta : Type) where
  sketch : Worker
  input : List (WorkerMsg Payload)
  sending : Option (List Delta × WhenSent)
  ended : Bool
  queue : List Delta
  connected : Bool
  emitted : List Delta
  applied : List Delta
  ackedAt : ℕ

namespace WorkerThread

variable {Input Payload Worker Delta Parent : Type}

def spawn (sketch : Worker) : WorkerThread Payload Worker Delta where
  sketch := sketch
  input := []
  sending := none
  ended := false
  queue := []
  connected := true
  emitted := []
  applied := []
  ackedAt := 0

variable (traits : OctoTraits Input Payload Worker Delta Parent) (capacity : ℕ)
  (thread : WorkerThread Payload Worker Delta)

/-- The caller sends a message, if there is room. -/
def post (message : WorkerMsg Payload) : Option (WorkerThread Payload Worker Delta) :=
  if capacity ≤ thread.input.length then none
  else some { thread with input := thread.input ++ [message] }

/-- The arms of the worker loop: the new sketch, the deltas to send and what comes after. -/
def answer (threshold : ℕ) : WorkerMsg Payload → Option (Worker × List Delta × WhenSent)
  | .data payload => (traits.process threshold thread.sketch payload).map
      fun result => (result.1, result.2, .proceed)
  | .flush => some ((traits.flush thread.sketch).1, (traits.flush thread.sketch).2, .acknowledge)
  | .finish => some ((traits.flush thread.sketch).1, (traits.flush thread.sketch).2, .stop)

def receive (threshold : ℕ) : Option (WorkerThread Payload Worker Delta) :=
  if thread.ended || thread.sending.isSome then none
  else
    match thread.input with
    | [] => none
    | message :: rest => (thread.answer traits threshold message).map fun result =>
        { thread with input := rest, sketch := result.1, sending := some result.2 }

/-- The worker sends the next delta, if there is room. -/
def send : Option (WorkerThread Payload Worker Delta) :=
  if capacity ≤ thread.queue.length then none
  else
    match thread.sending with
    | some (delta :: rest, after) => some
        { thread with
          sending := some (rest, after)
          queue := thread.queue ++ [delta]
          emitted := thread.emitted ++ [delta] }
    | _ => none

def settle (after : WhenSent) : WorkerThread Payload Worker Delta :=
  match after with
  | .proceed => { thread with sending := none }
  | .acknowledge => { thread with sending := none, ackedAt := thread.emitted.length }
  | .stop => { thread with sending := none, ended := true }

/-- The slot of the worker in one pass of the aggregator: `try_recv` on a receiver that is still
there. -/
def poll : WorkerThread Payload Worker Delta × Option Delta :=
  if thread.connected then
    match thread.queue with
    | delta :: rest => ({ thread with queue := rest, applied := thread.applied ++ [delta] }, some delta)
    | [] => ({ thread with connected := !thread.ended }, none)
  else (thread, none)

end WorkerThread

/-! ### The runtime -/

/-- Where the caller is: outside of a call, in `flush` with the number of requests sent or of
acknowledgements collected, waiting for the aggregator, just back from `flush`, or in `close`. -/
inductive OctoCaller where
  | idle
  | flushing (next : ℕ)
  | collecting (count : ℕ)
  | draining
  | returned
  | closing (next : ℕ)
  deriving DecidableEq

/-- Where the aggregator is in its loop: the next slot to poll and `made_progress`. -/
structure AggregatorPass where
  next : ℕ
  madeProgress : Bool
  exited : Bool

/-- The state of all threads and channels. `control` tells whether a drain request is under way,
`drained` whether its answer is; `acked` is a history of who has acknowledged the current flush. -/
structure OctoRuntime (Payload Worker Delta Parent : Type) (workers : ℕ) where
  thread : Fin workers → WorkerThread Payload Worker Delta
  threshold : ℕ
  parent : Parent
  pass : AggregatorPass
  caller : OctoCaller
  closed : Bool
  acks : ℕ
  acked : Finset (Fin workers)
  control : Bool
  drained : Bool

/-- The operations that the threads interleave. -/
inductive RuntimeEvent (Input : Type) (workers : ℕ) where
  | insert (worker : Fin workers) (input : Input)
  | beginFlush
  | sendFlush (worker : Fin workers)
  | receiveAck (count : ℕ)
  | sendDrain
  | receiveDrain
  | beginClose
  | sendEnd (worker : Fin workers)
  | receive (worker : Fin workers)
  | send (worker : Fin workers)
  | settle (worker : Fin workers)
  | poll (worker : Fin workers)
  | endPass
  | setThreshold (tau : ℕ)

namespace OctoRuntime

variable {Input Payload Worker Delta Parent : Type} {workers : ℕ}

/-- `OctoCore::start`. -/
def start (threshold : ℕ) (workerOf : Fin workers → Worker) (parent : Parent) :
    OctoRuntime Payload Worker Delta Parent workers where
  thread := fun worker => WorkerThread.spawn (workerOf worker)
  threshold := threshold
  parent := parent
  pass := ⟨0, false, false⟩
  caller := .idle
  closed := false
  acks := 0
  acked := ∅
  control := false
  drained := false

variable (traits : OctoTraits Input Payload Worker Delta Parent) (capacity : ℕ)
  (state : OctoRuntime Payload Worker Delta Parent workers)

def setThread (worker : Fin workers) (thread : WorkerThread Payload Worker Delta) :
    OctoRuntime Payload Worker Delta Parent workers :=
  { state with thread := Function.update state.thread worker thread }

/-- The caller may begin a call. -/
def ready : Bool := state.caller = .idle || state.caller = .returned

/-- `insert`: the input is routed to some worker. It panics once the runtime is closed. -/
def insert (worker : Fin workers) (input : Input) :
    Option (OctoRuntime Payload Worker Delta Parent workers) :=
  if !state.ready || state.closed then none
  else ((state.thread worker).post capacity (.data (traits.prepare input))).map fun thread =>
    { state.setThread worker thread with caller := .idle }

/-- `flush` up to its first send. On a closed runtime it returns at once. -/
def beginFlush : Option (OctoRuntime Payload Worker Delta Parent workers) :=
  if !state.ready then none
  else some { state with
    thread := fun worker => { state.thread worker with ackedAt := 0 }
    caller := if state.closed then .returned else .flushing 0
    acks := 0
    acked := ∅ }

/-- `flush` sends the request of the next worker. -/
def sendFlush (worker : Fin workers) : Option (OctoRuntime Payload Worker Delta Parent workers) :=
  if state.caller ≠ .flushing worker then none
  else ((state.thread worker).post capacity .flush).map fun thread =>
    { state.setThread worker thread with
      caller := if worker + 1 = workers then .collecting 0 else .flushing (worker + 1) }

/-- `flush` collects an acknowledgement. -/
def receiveAck (count : ℕ) : Option (OctoRuntime Payload Worker Delta Parent workers) :=
  if state.caller ≠ .collecting count || decide (workers ≤ count) || state.acks = 0 then none
  else some { state with caller := .collecting (count + 1), acks := state.acks - 1 }

/-- `flush` sends the drain request once all acknowledgements are collected. -/
def sendDrain : Option (OctoRuntime Payload Worker Delta Parent workers) :=
  if state.caller ≠ .collecting workers || state.control then none
  else some { state with caller := .draining, control := true }

/-- `flush` receives the answer of the aggregator and returns. -/
def receiveDrain : Option (OctoRuntime Payload Worker Delta Parent workers) :=
  if state.caller ≠ .draining || !state.drained then none
  else some { state with caller := .returned, drained := false }

/-- `close` up to its first send. -/
def beginClose : Option (OctoRuntime Payload Worker Delta Parent workers) :=
  if !state.ready then none
  else some { state with
    caller := if state.closed then .idle else .closing 0
    closed := true }

/-- `close` sends the end of the next worker. -/
def sendEnd (worker : Fin workers) : Option (OctoRuntime Payload Worker Delta Parent workers) :=
  if state.caller ≠ .closing worker then none
  else ((state.thread worker).post capacity .finish).map fun thread =>
    { state.setThread worker thread with
      caller := if worker + 1 = workers then .idle else .closing (worker + 1) }

def settle (worker : Fin workers) : Option (OctoRuntime Payload Worker Delta Parent workers) :=
  match (state.thread worker).sending with
  | some ([], after) =>
    let settled := state.setThread worker ((state.thread worker).settle after)
    if after = .acknowledge then
      some { settled with acks := state.acks + 1, acked := state.acked ∪ {worker} }
    else some settled
  | _ => none

def poll (worker : Fin workers) : Option (OctoRuntime Payload Worker Delta Parent workers) :=
  if state.pass.exited || state.pass.next ≠ worker then none
  else
    let polled := (state.thread worker).poll
    some { state.setThread worker polled.1 with
      parent := match polled.2 with
        | none => state.parent
        | some delta => traits.apply state.threshold state.parent delta
      pass := { state.pass with
        next := worker + 1
        madeProgress := state.pass.madeProgress || polled.2.isSome } }

/-- The end of a pass: without progress the control channel is polled. The loop is left once
every receiver is disconnected. -/
def endPass : Option (OctoRuntime Payload Worker Delta Parent workers) :=
  if state.pass.exited || state.pass.next ≠ workers then none
  else
    let answers := !state.pass.madeProgress && state.control
    some { state with
      pass := ⟨0, false, decide (∀ worker, (state.thread worker).connected = false)⟩
      control := state.control && !answers
      drained := state.drained || answers }

def step : RuntimeEvent Input workers → Option (OctoRuntime Payload Worker Delta Parent workers)
  | .insert worker input => state.insert traits capacity worker input
  | .beginFlush => state.beginFlush
  | .sendFlush worker => state.sendFlush capacity worker
  | .receiveAck count => state.receiveAck count
  | .sendDrain => state.sendDrain
  | .receiveDrain => state.receiveDrain
  | .beginClose => state.beginClose
  | .sendEnd worker => state.sendEnd capacity worker
  | .receive worker => ((state.thread worker).receive traits state.threshold).map
      (state.setThread worker)
  | .send worker => ((state.thread worker).send capacity).map (state.setThread worker)
  | .settle worker => state.settle worker
  | .poll worker => state.poll traits worker
  | .endPass => state.endPass
  | .setThreshold tau => some { state with threshold := clampPromask tau }

def run : List (RuntimeEvent Input workers) → OctoRuntime Payload Worker Delta Parent workers →
    Option (OctoRuntime Payload Worker Delta Parent workers)
  | [], state => some state
  | event :: rest, state => (state.step traits capacity event).bind (run rest)

/-- Whenever `flush` has returned, every delta that a worker had sent when it acknowledged has
been applied. -/
def Barrier : Prop :=
  state.caller = .returned → ∀ worker,
    (state.thread worker).emitted.take (state.thread worker).ackedAt <+:
      (state.thread worker).applied

/-- The aggregator is not about to end a pass that has seen nothing although it has passed a
queue that is no longer empty: it has made progress, or will, or has passed empty queues only. -/
def Timely : Prop :=
  state.pass.madeProgress = true ∨
    (∃ worker, state.pass.next ≤ worker.val ∧ (state.thread worker).queue ≠ []) ∨
    ∀ worker, worker.val < state.pass.next → (state.thread worker).queue = []

end OctoRuntime

end AsapSketchlib
